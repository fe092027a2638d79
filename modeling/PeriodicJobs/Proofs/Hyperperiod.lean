import Mathlib.Data.List.Perm.Basic
import PeriodicJobs.Hyperperiod
import PeriodicJobs.Proofs.Ticks
import PeriodicJobs.Proofs.Tolerance

set_option autoImplicit false

/- The hyperperiod of a set of tasks taken apart: a period is counted if its quotient is nearly whole
and in range, the count of every task divides the ticks, and the ticks divide whatever all counts
divide. -/
namespace PeriodicJobs

namespace Resolution

variable {resolution : Resolution} {task : Task} {count : UInt64}

theorem isWhole_maxTicks : maxTicks.IsWhole (2 ^ 53) := Binary64.isWhole_ofNat (Nat.le_refl _)

/-- A period is counted if the quotient passes the test for whole numbers and the one nearest to it
is in range. -/
theorem ticks_of_quotient {n : Nat} (near : (task.period / resolution.tick).isNearlyWhole = true)
    (whole : (task.period / resolution.tick).round.IsWhole n) (some : 0 < n)
    (small : n ≤ 2 ^ 53) : resolution.ticks task = .ok (UInt64.ofNat n) := by
  have least : ¬ (task.period / resolution.tick).round < .one := by
    rw [whole.lt_iff Binary64.isWhole_one]
    omega
  have most : ¬ maxTicks < (task.period / resolution.tick).round := by
    rw [isWhole_maxTicks.lt_iff whole]
    omega
  simp only [ticks, near, least, most, not_true_eq_false, or_self, ↓reduceIte,
    whole.toUInt64_eq small]

/-- Nothing else is counted. -/
theorem quotient_of_ticks (done : resolution.ticks task = .ok count) :
    (task.period / resolution.tick).IsMagnitude ∧
      (task.period / resolution.tick).isNearlyWhole = true ∧
      (task.period / resolution.tick).round.IsWhole count.toNat ∧
      0 < count.toNat ∧ count.toNat ≤ 2 ^ 53 := by
  unfold ticks at done
  simp only at done
  split at done
  · cases done
  · rename_i passed
    simp only [not_or, not_not] at passed
    obtain ⟨near, least, most⟩ := passed
    have quotient := Binary64.isMagnitude_of_test near least
    obtain ⟨n, whole, _, _, _⟩ := Binary64.round_spec quotient
    rw [whole.lt_iff Binary64.isWhole_one] at least
    rw [isWhole_maxTicks.lt_iff whole] at most
    have counted : count.toNat = n := by
      rw [← Except.ok.inj done, whole.toNat_toUInt64]
      omega
    rw [counted]
    exact ⟨quotient, near, whole, by omega, by omega⟩

end Resolution

theorem mem_dropRepeats {v : UInt64} {values : List UInt64} :
    v ∈ dropRepeats values ↔ v ∈ values := by
  fun_induction dropRepeats values with
  | case1 a rest ih => simp [ih]
  | case2 a b rest differ ih => simp only [List.mem_cons, ih]
  | case3 values => rfl

theorem mem_distinct {v : UInt64} {values : List UInt64} : v ∈ distinct values ↔ v ∈ values := by
  rw [distinct, mem_dropRepeats, List.mem_mergeSort]

theorem distinct_ne_nil {values : List UInt64} (some : values ≠ []) : distinct values ≠ [] := by
  obtain ⟨v, rest, rfl⟩ := List.exists_cons_of_ne_nil some
  exact List.ne_nil_of_mem (mem_distinct.2 List.mem_cons_self)

theorem dropRepeats_of_increasing {values : List UInt64}
    (increasing : values.Pairwise (· < ·)) : dropRepeats values = values := by
  fun_induction dropRepeats values with
  | case1 a rest ih =>
    have below := List.rel_of_pairwise_cons increasing List.mem_cons_self
    exact absurd below (UInt64.lt_irrefl a)
  | case2 a b rest differ ih => rw [ih (List.Pairwise.of_cons increasing)]
  | case3 values => rfl

theorem distinct_of_increasing {values : List UInt64} (increasing : values.Pairwise (· < ·)) :
    distinct values = values := by
  have sorted : values.Pairwise fun a b => decide (a ≤ b) = true := by
    apply increasing.imp
    intro a b below
    exact decide_eq_true (UInt64.le_of_lt below)
  rw [distinct, List.mergeSort_of_pairwise sorted, dropRepeats_of_increasing increasing]

theorem pairwise_dropRepeats {values : List UInt64} (sorted : values.Pairwise (· ≤ ·)) :
    (dropRepeats values).Pairwise (· < ·) := by
  fun_induction dropRepeats values with
  | case1 a rest ih => exact ih (List.Pairwise.of_cons sorted)
  | case2 a b rest differ ih =>
    have later := List.Pairwise.of_cons sorted
    refine List.pairwise_cons.2 ⟨?_, ih later⟩
    intro v mem
    have first : a < b :=
      UInt64.lt_of_le_of_ne (List.rel_of_pairwise_cons sorted List.mem_cons_self) differ
    rcases List.mem_cons.1 (mem_dropRepeats.1 mem) with rfl | inside
    · exact first
    · exact UInt64.lt_of_lt_of_le first (List.rel_of_pairwise_cons later inside)
  | case3 values short =>
    cases values with
    | nil => exact .nil
    | cons a rest => cases rest with
      | nil => exact List.pairwise_singleton _ _
      | cons b rest => exact absurd rfl (short a b rest)

theorem pairwise_distinct (values : List UInt64) : (distinct values).Pairwise (· < ·) := by
  have sorted : (values.mergeSort fun a b => a ≤ b).Pairwise fun a b => decide (a ≤ b) = true := by
    apply List.pairwise_mergeSort
    · intro a b c first second
      exact decide_eq_true (UInt64.le_trans (of_decide_eq_true first) (of_decide_eq_true second))
    · intro a b
      simpa using UInt64.le_total a b
  exact pairwise_dropRepeats (sorted.imp of_decide_eq_true)

theorem nodup_distinct (values : List UInt64) : (distinct values).Nodup :=
  (pairwise_distinct values).imp UInt64.ne_of_lt

/-- The distinct values depend on nothing but which values there are. -/
theorem distinct_congr {values values' : List UInt64} (same : ∀ v, v ∈ values ↔ v ∈ values') :
    distinct values = distinct values' := by
  have perm : (distinct values).Perm (distinct values') := by
    apply (List.perm_ext_iff_of_nodup (nodup_distinct values) (nodup_distinct values')).2
    simpa only [mem_distinct] using same
  refine List.Perm.eq_of_pairwise ?_ (pairwise_distinct values) (pairwise_distinct values') perm
  intro a b _ _ below above
  exact absurd (UInt64.lt_trans below above) (UInt64.lt_irrefl a)

namespace Hyperperiod

/-- What the hyperperiod of moving tasks is made of. -/
structure Counted (resolution : Resolution) (limit : Option Binary64) (tasks : List Task)
    (counts : List UInt64) (h : Hyperperiod) : Prop where
  counted : List.Forall₂ (fun task count => resolution.ticks task = .ok count) tasks counts
  multiple : Ticks.lcmAll (distinct counts) = .ok h.ticks
  value : h.value = resolution.span h.ticks
  limited : checkLimit limit h.value = .ok ()
  uniquePeriods : h.uniquePeriods = (distinct counts).map resolution.span
  taskCount : h.taskCount = tasks.length

/-- A set of tasks of which each has a period that is not zero. -/
def Moving (tasks : List Task) : Prop :=
  tasks ≠ [] ∧ ∀ task ∈ tasks, task.period.isZero = false

theorem moving_iff (tasks : List Task) :
    Moving tasks ↔ (tasks.isEmpty || tasks.any (·.period.isZero)) = false := by
  simp [Moving, List.any_eq_false]

theorem not_moving_iff (tasks : List Task) :
    ¬ Moving tasks ↔ tasks = [] ∨ ∃ task ∈ tasks, task.period.isZero = true := by
  simp only [Moving, not_and_or, not_not, not_forall, Bool.not_eq_false, exists_prop]

/-- A hyperperiod is that of tasks at rest, or the least common multiple of the counts. -/
theorem counted_of_ok {resolution : Resolution} {limit : Option Binary64} {tasks : List Task}
    {h : Hyperperiod} (done : ofTasks resolution limit tasks = .ok h) :
    ¬ Moving tasks ∧ h = degenerate tasks.length ∨
      Moving tasks ∧ ∃ counts, Counted resolution limit tasks counts h := by
  unfold ofTasks at done
  split at done
  · rename_i resting
    cases done
    refine Or.inl ⟨?_, rfl⟩
    rw [moving_iff, resting]
    decide
  · rename_i moving
    refine Or.inr ⟨(moving_iff tasks).2 (Bool.eq_false_iff.2 moving), ?_⟩
    obtain ⟨counts, hCounts, done⟩ := Outcome.bind_eq_ok.1 done
    obtain ⟨ticks, hTicks, done⟩ := Outcome.bind_eq_ok.1 done
    obtain ⟨⟨⟩, hLimit, done⟩ := Outcome.bind_eq_ok.1 done
    cases done
    exact ⟨counts, Outcome.mapM_eq_ok.1 hCounts, Outcome.mapError_eq_ok.1 hTicks, rfl, hLimit, rfl,
      rfl⟩

theorem ok_of_counted {resolution : Resolution} {limit : Option Binary64} {tasks : List Task}
    {counts : List UInt64} {h : Hyperperiod} (moving : Moving tasks)
    (made : Counted resolution limit tasks counts h) : ofTasks resolution limit tasks = .ok h := by
  obtain ⟨value, ticks, uniquePeriods, taskCount⟩ := h
  obtain ⟨counted, multiple, hValue, limited, hPeriods, hCount⟩ := made
  simp only at multiple hValue limited hPeriods hCount
  subst hValue hPeriods hCount
  rw [ofTasks, (moving_iff tasks).1 moving, if_neg Bool.false_ne_true]
  refine Outcome.bind_eq_ok.2 ⟨counts, Outcome.mapM_eq_ok.2 counted, ?_⟩
  refine Outcome.bind_eq_ok.2 ⟨ticks, Outcome.mapError_eq_ok.2 multiple, ?_⟩
  exact Outcome.bind_eq_ok.2 ⟨(), limited, rfl⟩

theorem ofTasks_of_resting {resolution : Resolution} {limit : Option Binary64} {tasks : List Task}
    (resting : ¬ Moving tasks) :
    ofTasks resolution limit tasks = .ok (degenerate tasks.length) := by
  rw [moving_iff, Bool.not_eq_false] at resting
  rw [ofTasks, if_pos resting]

theorem Moving.congr {tasks tasks' : List Task} (moving : Moving tasks)
    (same : ∀ task, task ∈ tasks ↔ task ∈ tasks') : Moving tasks' := by
  refine ⟨fun none => moving.1 ?_, fun task mem => moving.2 task ((same task).2 mem)⟩
  rw [List.eq_nil_iff_forall_not_mem]
  intro task mem
  rw [same, none] at mem
  cases mem

theorem Counted.perm {resolution : Resolution} {limit : Option Binary64} {tasks tasks' : List Task}
    {counts : List UInt64} {h : Hyperperiod} (made : Counted resolution limit tasks counts h)
    (perm : tasks.Perm tasks') : ∃ counts', Counted resolution limit tasks' counts' h := by
  obtain ⟨counts', counted, same⟩ := List.perm_comp_forall₂ perm.symm made.counted
  have all := distinct_congr fun _ => same.mem_iff
  exact ⟨counts', counted, all ▸ made.multiple, made.value, made.limited,
    all ▸ made.uniquePeriods, made.taskCount.trans perm.length_eq⟩

/-- A hyperperiod does not depend on the order of the tasks. -/
theorem ofTasks_perm {resolution : Resolution} {limit : Option Binary64} {tasks tasks' : List Task}
    {h : Hyperperiod} (done : ofTasks resolution limit tasks = .ok h)
    (perm : tasks.Perm tasks') : ofTasks resolution limit tasks' = .ok h := by
  rcases counted_of_ok done with ⟨resting, rfl⟩ | ⟨moving, counts, made⟩
  · rw [ofTasks_of_resting fun moving => resting (moving.congr fun _ => perm.symm.mem_iff),
      perm.length_eq]
  · obtain ⟨counts', made'⟩ := made.perm perm
    exact ok_of_counted (moving.congr fun _ => perm.mem_iff) made'

/-- The hyperperiod of moving tasks whose counts increase. -/
theorem ofTasks_of_increasing {resolution : Resolution} {tasks : List Task}
    {counts : List UInt64} {ticks : UInt64} (moving : Moving tasks)
    (counted : List.Forall₂ (fun task count => resolution.ticks task = .ok count) tasks counts)
    (increasing : counts.Pairwise (· < ·)) (multiple : Ticks.lcmAll counts = .ok ticks) :
    ofTasks resolution none tasks = .ok {
      value := resolution.span ticks
      ticks
      uniquePeriods := counts.map resolution.span
      taskCount := tasks.length } := by
  have same := distinct_of_increasing increasing
  refine ok_of_counted moving ⟨counted, ?_, rfl, rfl, ?_, rfl⟩
  · rw [same, multiple]
  · rw [same]

/-- The ticks of a hyperperiod are the least common multiple of the counts. -/
theorem Counted.dvd_iff {resolution : Resolution} {limit : Option Binary64} {tasks : List Task}
    {counts : List UInt64} {h : Hyperperiod} (made : Counted resolution limit tasks counts h)
    (some : tasks ≠ []) (m : Nat) : h.ticks.toNat ∣ m ↔ ∀ count ∈ counts, count.toNat ∣ m := by
  have counts_ne_nil : counts ≠ [] := by
    intro none
    have same := made.counted.length_eq
    rw [none, List.length_nil, List.length_eq_zero_iff] at same
    exact some same
  rw [Ticks.lcmAll_dvd_iff (distinct_ne_nil counts_ne_nil) made.multiple]
  simp only [mem_distinct]

theorem exists_count_of_mem {resolution : Resolution} {tasks : List Task} {counts : List UInt64}
    (counted : List.Forall₂ (fun task count => resolution.ticks task = .ok count) tasks counts)
    {task : Task} (mem : task ∈ tasks) :
    ∃ count ∈ counts, resolution.ticks task = .ok count := by
  induction counted with
  | nil => cases mem
  | cons first rest ih =>
    rcases List.mem_cons.1 mem with rfl | later
    · exact ⟨_, List.mem_cons_self, first⟩
    · obtain ⟨count, inCounts, done⟩ := ih later
      exact ⟨count, List.mem_cons_of_mem _ inCounts, done⟩

theorem Counted.exists_count {resolution : Resolution} {limit : Option Binary64}
    {tasks : List Task} {counts : List UInt64} {h : Hyperperiod}
    (made : Counted resolution limit tasks counts h) {task : Task} (mem : task ∈ tasks) :
    ∃ count ∈ counts, resolution.ticks task = .ok count :=
  exists_count_of_mem made.counted mem

/-- Only a set of moving tasks has a hyperperiod with ticks. -/
theorem counted_of_lasting {resolution : Resolution} {limit : Option Binary64}
    {tasks : List Task} {h : Hyperperiod} (done : ofTasks resolution limit tasks = .ok h)
    (lasting : h.isDegenerate = false) : ∃ counts, Counted resolution limit tasks counts h := by
  rcases counted_of_ok done with ⟨_, rfl⟩ | ⟨_, made⟩
  · cases lasting
  · exact made

end Hyperperiod

end PeriodicJobs
