import Mathlib.Data.List.Nodup
import PeriodicJobs.Priority

set_option autoImplicit false

/- Ranks. Sorting by the period keeps the order of equal periods, so the rank of a task tells how
many tasks stand before it by the period and then by their position. -/
namespace PeriodicJobs

section Sorting

variable {α β : Type}

/-- A sort keeps the relation of items that are not apart in its order. -/
theorem pairwise_mergeSort {le : α → α → Bool} (trans : ∀ a b c, le a b → le b c → le a c)
    (total : ∀ a b, le a b || le b a) {r : α → α → Prop} {items : List α}
    (given : items.Pairwise r) :
    (items.mergeSort le).Pairwise fun a b => le a b = true ∧ (le b a = true → r a b) := by
  induction items with
  | nil => simp
  | cons item items ih =>
    obtain ⟨first, rest⟩ := List.pairwise_cons.1 given
    obtain ⟨low, high, whole, others, below⟩ := List.mergeSort_cons trans total item items
    have sorted := List.pairwise_mergeSort trans total (item :: items)
    have later := ih rest
    rw [whole, List.pairwise_append, List.pairwise_cons] at sorted
    rw [others, List.pairwise_append] at later
    rw [whole, List.pairwise_append, List.pairwise_cons]
    obtain ⟨_, ⟨above, _⟩, across⟩ := sorted
    obtain ⟨lowSorted, highSorted, apart⟩ := later
    have mem {b : α} (inside : b ∈ high) : b ∈ items := by
      rw [← (List.mergeSort_perm items le).mem_iff, others]
      exact List.mem_append_right low inside
    refine ⟨lowSorted, ⟨fun b inside => ⟨above b inside, fun _ => first b (mem inside)⟩,
      highSorted⟩, fun a inside b other => ?_⟩
    rcases List.mem_cons.1 other with rfl | other
    · have strict := below a inside
      exact ⟨across a inside b List.mem_cons_self, fun back => by simp [back] at strict⟩
    · exact apart a inside b other

/-- In a list that is in order the place of an item is the number of items before it. -/
theorem idxOf_map_eq_countP [DecidableEq β] {before : α → α → Prop} [DecidableRel before]
    {name : α → β} {items : List α}
    (sorted : items.Pairwise fun a b => before a b ∧ ¬ before b a)
    (distinct : (items.map name).Nodup) {item : α} (mem : item ∈ items)
    (irrefl : ¬ before item item) :
    (items.map name).idxOf (name item) = items.countP (before · item) := by
  induction items with
  | nil => cases mem
  | cons first rest ih =>
    obtain ⟨ahead, sorted⟩ := List.pairwise_cons.1 sorted
    rw [List.map_cons] at distinct
    obtain ⟨new, distinct⟩ := List.nodup_cons.1 distinct
    rw [List.map_cons, List.countP_cons]
    rcases List.mem_cons.1 mem with rfl | later
    · have none : rest.countP (before · item) = 0 :=
        List.countP_eq_zero.2 fun other inside => by simp [(ahead other inside).2]
      simp [none, irrefl]
    · have other : name first ≠ name item := fun same =>
        new (same ▸ List.mem_map_of_mem later)
      rw [List.idxOf_cons_ne _ other, ih sorted distinct later,
        if_pos (decide_eq_true (ahead item later).1)]

end Sorting

/-- The order of tasks with their positions: the shorter period first, of equal periods the
earlier one. -/
def Before (a b : Task × Nat) : Prop :=
  a.1.period.totalKey < b.1.period.totalKey ∨
    a.1.period.totalKey = b.1.period.totalKey ∧ a.2 < b.2

instance (a b : Task × Nat) : Decidable (Before a b) := inferInstanceAs (Decidable (_ ∨ _))

theorem pairwise_zipIdx {α : Type} (items : List α) (start : Nat) :
    (items.zipIdx start).Pairwise fun a b => a.2 < b.2 := by
  have positions : ((items.zipIdx start).map Prod.snd).Pairwise (· < ·) := by
    rw [List.zipIdx_map_snd]
    exact List.pairwise_lt_range'
  exact List.pairwise_map.1 positions

/-- Sorted by their periods, tasks are in the order of ranks. -/
theorem pairwise_before (tasks : List Task) :
    (tasks.zipIdx.mergeSort fun a b => a.1.period.totalKey ≤ b.1.period.totalKey).Pairwise
      fun a b => Before a b ∧ ¬ Before b a := by
  refine (pairwise_mergeSort ?_ ?_ (pairwise_zipIdx tasks 0)).imp ?_
  · intro a b c
    simp only [decide_eq_true_eq]
    omega
  · intro a b
    simp only [Bool.or_eq_true, decide_eq_true_eq]
    omega
  · intro a b sorted
    simp only [decide_eq_true_eq] at sorted
    unfold Before
    omega

theorem map_snd_zipIdx (tasks : List Task) :
    tasks.zipIdx.map Prod.snd = List.range tasks.length := by
  rw [List.zipIdx_map_snd, List.range_eq_range']

/-- The rank of a task is one more than the number of tasks before it. -/
theorem rateMonotonicRanks_eq (tasks : List Task) :
    rateMonotonicRanks tasks = tasks.zipIdx.map fun entry =>
      UInt64.ofNat (tasks.zipIdx.countP (Before · entry) + 1) := by
  have perm := List.mergeSort_perm tasks.zipIdx fun a b =>
    decide (a.1.period.totalKey ≤ b.1.period.totalKey)
  have distinct : ((tasks.zipIdx.mergeSort fun a b =>
      a.1.period.totalKey ≤ b.1.period.totalKey).map Prod.snd).Nodup := by
    rw [(perm.map Prod.snd).nodup_iff, map_snd_zipIdx]
    exact List.nodup_range
  rw [rateMonotonicRanks, ← map_snd_zipIdx, List.map_map]
  apply List.map_congr_left
  intro entry mem
  have place := idxOf_map_eq_countP (pairwise_before tasks) distinct (perm.mem_iff.2 mem)
    (by simp [Before])
  rw [Function.comp_apply, periodOrder, place, perm.countP_eq]

/-- The rank of a task among tasks with other periods. -/
def Task.rankAmong (tasks : List Task) (task : Task) : UInt64 :=
  .ofNat (tasks.countP (fun other => other.period.totalKey < task.period.totalKey) + 1)

def HaveDistinctPeriods (tasks : List Task) : Prop :=
  tasks.Pairwise fun a b => a.period.totalKey ≠ b.period.totalKey

instance (tasks : List Task) : Decidable (HaveDistinctPeriods tasks) :=
  inferInstanceAs (Decidable (List.Pairwise _ tasks))

theorem HaveDistinctPeriods.perm {tasks tasks' : List Task} (apart : HaveDistinctPeriods tasks)
    (perm : tasks.Perm tasks') : HaveDistinctPeriods tasks' :=
  (perm.pairwise_iff fun differ => differ.symm).1 apart

theorem Task.rankAmong_perm {tasks tasks' : List Task} (perm : tasks.Perm tasks') :
    rankAmong tasks = rankAmong tasks' := by
  funext task
  rw [rankAmong, rankAmong, perm.countP_eq]

/-- Without equal periods a rank does not depend on positions. -/
theorem rateMonotonicRanks_of_distinct {tasks : List Task} (apart : HaveDistinctPeriods tasks) :
    rateMonotonicRanks tasks = tasks.map (Task.rankAmong tasks) := by
  have keys : (tasks.zipIdx.map fun entry => entry.1.period.totalKey).Nodup := by
    have all : (tasks.map fun task => task.period.totalKey).Nodup := List.pairwise_map.2 apart
    rwa [← List.zipIdx_map_fst 0 tasks, List.map_map] at all
  have counts : ∀ entry ∈ tasks.zipIdx, tasks.zipIdx.countP (Before · entry) =
      tasks.countP fun other => other.period.totalKey < entry.1.period.totalKey := by
    intro entry mem
    conv_rhs => rw [← List.zipIdx_map_fst 0 tasks, List.countP_map]
    apply List.countP_congr
    intro other inside
    have alone : other.1.period.totalKey = entry.1.period.totalKey → other.2 = entry.2 :=
      fun same => congrArg Prod.snd (List.inj_on_of_nodup_map keys inside mem same)
    simp only [decide_eq_true_eq, Function.comp_apply]
    unfold Before
    omega
  rw [rateMonotonicRanks_eq]
  conv_rhs => rw [← List.zipIdx_map_fst 0 tasks, List.map_map]
  apply List.map_congr_left
  intro entry mem
  rw [counts entry mem, Function.comp_apply, Task.rankAmong, List.zipIdx_map_fst]

end PeriodicJobs
