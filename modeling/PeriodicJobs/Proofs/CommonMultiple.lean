import PeriodicJobs.Proofs.Drift
import PeriodicJobs.Proofs.WholePeriods

set_option autoImplicit false

/- The hyperperiod as a problem about natural numbers: the least common multiple of the counts, in
which neither the order of the tasks nor repeats among them have a part. -/
namespace PeriodicJobs

namespace Resolution

/-- A period that is a count of ticks, rounding noise aside. -/
def Counts (resolution : Resolution) (task : Task) : Prop :=
  ∃ count, resolution.ticks task = .ok count

variable {resolution : Resolution} {task : Task}

theorem ticks_eq_error (uncounted : ¬ resolution.Counts task) :
    resolution.ticks task =
      .error (.nonIntegralPeriod task.id task.period resolution.tick) := by
  by_contra other
  apply uncounted
  unfold Counts
  unfold ticks at other ⊢
  simp only at other ⊢
  split at other
  · exact absurd rfl other
  · rename_i counted
    exact ⟨_, if_neg counted⟩

end Resolution

namespace Hyperperiod

variable {resolution : Resolution} {limit : Option Binary64} {tasks tasks' : List Task}
  {counts : List UInt64}

/-- What the counts of tasks come to, each of them taken once and in increasing order. -/
def ofCounts (resolution : Resolution) (limit : Option Binary64) (counts : List UInt64)
    (taskCount : Nat) : Except HyperperiodFault Hyperperiod := do
  let ticks ← (Ticks.lcmAll counts).mapError .overflow
  checkLimit limit (resolution.span ticks)
  return ⟨resolution.span ticks, ticks, counts.map resolution.span, taskCount⟩

abbrev HaveCounts (resolution : Resolution) : List Task → List UInt64 → Prop :=
  List.Forall₂ fun task count => resolution.ticks task = .ok count

theorem ofTasks_of_moving (moving : Moving tasks) :
    ofTasks resolution limit tasks =
      (tasks.mapM resolution.ticks >>= fun counts =>
        ofCounts resolution limit (distinct counts) tasks.length) := by
  rw [ofTasks, (moving_iff tasks).1 moving]
  rfl

theorem ofTasks_of_counts (moving : Moving tasks) (counted : HaveCounts resolution tasks counts) :
    ofTasks resolution limit tasks =
      ofCounts resolution limit (distinct counts) tasks.length := by
  rw [ofTasks_of_moving moving, Outcome.mapM_eq_ok.2 counted]
  rfl

/-- Counting stops at the first task that has no count. -/
theorem ofTasks_of_uncounted {before after : List Task} {task : Task} (moving : Moving tasks)
    (split : tasks = before ++ task :: after) (first : ∀ other ∈ before, resolution.Counts other)
    (uncounted : ¬ resolution.Counts task) :
    ofTasks resolution limit tasks =
      .error (.nonIntegralPeriod task.id task.period resolution.tick) := by
  have failed : tasks.mapM resolution.ticks =
      .error (.nonIntegralPeriod task.id task.period resolution.tick) :=
    Outcome.mapM_eq_error.2
      ⟨before, task, after, split, first, Resolution.ticks_eq_error uncounted⟩
  rw [ofTasks_of_moving moving, failed]
  rfl

/-- Either every task has a count, or there is a first one that has none. -/
theorem exists_counts_or_first (resolution : Resolution) (tasks : List Task) :
    (∃ counts, HaveCounts resolution tasks counts) ∨
      ∃ before task after, tasks = before ++ task :: after ∧
        (∀ other ∈ before, resolution.Counts other) ∧ ¬ resolution.Counts task := by
  cases counted : tasks.mapM resolution.ticks with
  | ok counts => exact Or.inl ⟨counts, Outcome.mapM_eq_ok.1 counted⟩
  | error fault =>
    obtain ⟨before, task, after, split, first, failed⟩ := Outcome.mapM_eq_error.1 counted
    refine Or.inr ⟨before, task, after, split, first, ?_⟩
    rintro ⟨count, done⟩
    rw [failed] at done
    cases done

theorem counts_of_mem (counted : HaveCounts resolution tasks counts) {task : Task}
    (mem : task ∈ tasks) : resolution.Counts task := by
  obtain ⟨count, _, done⟩ := exists_count_of_mem counted mem
  exact ⟨count, done⟩

theorem mem_counts (counted : HaveCounts resolution tasks counts) (count : UInt64) :
    count ∈ counts ↔ ∃ task ∈ tasks, resolution.ticks task = .ok count := by
  induction counted with
  | nil => simp
  | cons first _ ih =>
    rw [List.mem_cons, List.exists_mem_cons_iff, ih, first, Except.ok.injEq, eq_comm]

def leastTicks (counts : List UInt64) : Nat := leastMultiple (counts.map UInt64.toNat)

theorem leastTicks_congr {counts' : List UInt64}
    (same : ∀ count, count ∈ counts ↔ count ∈ counts') :
    leastTicks counts = leastTicks counts' := by
  apply leastMultiple_congr
  intro v
  simp only [List.mem_map, same]

/-- The length of a number of ticks, which is rounded before it is multiplied. -/
def length (resolution : Resolution) (ticks : Nat) : Binary64 := .ofNat ticks * resolution.tick

section

variable (resolution) (limit) (nonempty : counts ≠ []) (taskCount : Nat)

include nonempty

theorem ofCounts_of_le (large : 2 ^ 64 ≤ leastTicks counts) :
    ∃ operands, ofCounts resolution limit counts taskCount = .error (.overflow operands) := by
  obtain ⟨operands, failed⟩ := Ticks.lcmAll_of_le nonempty large
  refine ⟨operands, ?_⟩
  rw [ofCounts, failed]
  rfl

theorem ofCounts_of_lt (positive : ∀ count ∈ counts, 0 < count.toNat)
    (fits : leastTicks counts < 2 ^ 64) :
    ofCounts resolution limit counts taskCount =
      (checkLimit limit (length resolution (leastTicks counts))).map fun _ => {
        value := length resolution (leastTicks counts)
        ticks := UInt64.ofNat (leastTicks counts)
        uniquePeriods := counts.map resolution.span
        taskCount } := by
  have value : resolution.span (UInt64.ofNat (leastTicks counts)) =
      length resolution (leastTicks counts) := by
    rw [Resolution.span, Binary64.ofUInt64, UInt64.toNat_ofNat', Nat.mod_eq_of_lt fits, length]
  have multiple : Ticks.lcmAll counts = .ok (UInt64.ofNat (leastTicks counts)) :=
    Ticks.lcmAll_of_lt nonempty positive fits
  rw [ofCounts, multiple]
  simp only [Except.mapError, bind, Except.bind, value]
  cases checkLimit limit (length resolution (leastTicks counts)) <;> rfl

end

/-- An outcome that the least common multiple of some counts decides. It is an overflow if the
multiple does not fit a word, else it is too large if there is a limit and its length is beyond it,
and else it is found. -/
structure IsDecided (resolution : Resolution) (limit : Option Binary64) (counts : List UInt64)
    (taskCount : Nat) (outcome : Except HyperperiodFault Hyperperiod) : Prop where
  overflow_iff :
    (∃ operands, outcome = .error (.overflow operands)) ↔ 2 ^ 64 ≤ leastTicks counts
  tooLarge_iff : leastTicks counts < 2 ^ 64 → ∀ value most,
    outcome = .error (.tooLarge value most) ↔
      value = length resolution (leastTicks counts) ∧ limit = some most ∧ most < value
  found : leastTicks counts < 2 ^ 64 →
    (∀ most, limit = some most → ¬ most < length resolution (leastTicks counts)) →
      outcome = .ok {
        value := length resolution (leastTicks counts)
        ticks := UInt64.ofNat (leastTicks counts)
        uniquePeriods := (distinct counts).map resolution.span
        taskCount }

theorem checkLimit_eq_error {value : Binary64} {fault : HyperperiodFault} :
    checkLimit limit value = .error fault ↔
      ∃ most, limit = some most ∧ most < value ∧ fault = .tooLarge value most := by
  cases limit with
  | none => simp [checkLimit]
  | some most =>
    by_cases above : most < value
    · simp [checkLimit, above, eq_comm]
    · simp [checkLimit, above]

theorem checkLimit_eq_ok {value : Binary64} (within : ∀ most, limit = some most → ¬ most < value) :
    checkLimit limit value = .ok () := by
  cases limit with
  | none => rfl
  | some most => exact if_neg (within most rfl)

theorem isDecided_ofCounts (nonempty : counts ≠ []) (positive : ∀ count ∈ counts, 0 < count.toNat)
    (taskCount : Nat) :
    IsDecided resolution limit counts taskCount
      (ofCounts resolution limit (distinct counts) taskCount) := by
  have some := distinct_ne_nil nonempty
  have same : leastTicks (distinct counts) = leastTicks counts :=
    leastTicks_congr fun _ => mem_distinct
  have large := ofCounts_of_le resolution limit some taskCount
  have small := ofCounts_of_lt resolution limit some taskCount fun count mem =>
    positive count (mem_distinct.1 mem)
  rw [same] at large small
  refine ⟨⟨?_, large⟩, ?_, ?_⟩
  · rintro ⟨operands, failed⟩
    by_contra fits
    rw [small (by omega), Outcome.map_eq_error, checkLimit_eq_error] at failed
    obtain ⟨_, _, _, other⟩ := failed
    cases other
  · intro fits value most
    rw [small fits, Outcome.map_eq_error, checkLimit_eq_error]
    constructor
    · rintro ⟨_, limited, above, fault⟩
      cases fault
      exact ⟨rfl, limited, above⟩
    · rintro ⟨rfl, limited, above⟩
      exact ⟨most, limited, above, rfl⟩
  · intro fits within
    rw [small fits, checkLimit_eq_ok within]
    rfl

/-- Outcomes that differ at most in how many tasks there are, or in which of them is refused for its
period. -/
inductive Alike : Except HyperperiodFault Hyperperiod → Except HyperperiodFault Hyperperiod → Prop
  | found (value : Binary64) (ticks : UInt64) (uniquePeriods : List Binary64)
      (taskCount taskCount' : Nat) :
      Alike (.ok ⟨value, ticks, uniquePeriods, taskCount⟩)
        (.ok ⟨value, ticks, uniquePeriods, taskCount'⟩)
  | uncounted (task task' : Task) (tick : Binary64) :
      Alike (.error (.nonIntegralPeriod task.id task.period tick))
        (.error (.nonIntegralPeriod task'.id task'.period tick))
  | fault (fault : HyperperiodFault) : Alike (.error fault) (.error fault)

theorem alike_ofCounts (counts : List UInt64) (taskCount taskCount' : Nat) :
    Alike (ofCounts resolution limit counts taskCount)
      (ofCounts resolution limit counts taskCount') := by
  unfold ofCounts
  cases Ticks.lcmAll counts with
  | error operands => exact .fault _
  | ok ticks =>
    simp only [Except.mapError, bind, Except.bind]
    cases checkLimit limit (resolution.span ticks) with
    | error fault => exact .fault _
    | ok _ => exact .found _ _ _ _ _

theorem alike_ofTasks (same : ∀ task, task ∈ tasks ↔ task ∈ tasks') :
    Alike (ofTasks resolution limit tasks) (ofTasks resolution limit tasks') := by
  by_cases moving : Moving tasks
  · have moving' : Moving tasks' := moving.congr same
    rcases exists_counts_or_first resolution tasks with
      ⟨counts, counted⟩ | ⟨before, task, after, split, first, uncounted⟩ <;>
    rcases exists_counts_or_first resolution tasks' with
      ⟨counts', counted'⟩ | ⟨before', task', after', split', first', uncounted'⟩
    · have all : distinct counts = distinct counts' := by
        apply distinct_congr
        intro count
        simp only [mem_counts counted, mem_counts counted', same]
      rw [ofTasks_of_counts moving counted, ofTasks_of_counts moving' counted', all]
      exact alike_ofCounts _ _ _
    · have mem : task' ∈ tasks := (same task').2 (by simp [split'])
      exact absurd (counts_of_mem counted mem) uncounted'
    · have mem : task ∈ tasks' := (same task).1 (by simp [split])
      exact absurd (counts_of_mem counted' mem) uncounted
    · rw [ofTasks_of_uncounted moving split first uncounted,
        ofTasks_of_uncounted moving' split' first' uncounted']
      exact .uncounted task task' _
  · have resting' : ¬ Moving tasks' := fun moving' => moving (moving'.congr fun _ => (same _).symm)
    rw [ofTasks_of_resting moving, ofTasks_of_resting resting']
    exact .found _ _ _ _ _

/-- The hyperperiod of any tasks. No tasks, or a period of zero anywhere, make it degenerate; else
the first task without a count is refused; else the least common multiple of the counts decides. It
is the same for all lists of the same tasks, in any order and with any repeats. -/
theorem least_multiple_decides (resolution : Resolution) (limit : Option Binary64)
    (tasks : List Task) :
    (tasks = [] ∨ (∃ task ∈ tasks, task.period.isZero = true) →
      ofTasks resolution limit tasks = .ok ⟨.zero, 0, [], tasks.length⟩) ∧
    (Moving tasks → (∃ task ∈ tasks, ¬ resolution.Counts task) →
      ∃ before task after, tasks = before ++ task :: after ∧
        (∀ other ∈ before, resolution.Counts other) ∧ ¬ resolution.Counts task ∧
        ofTasks resolution limit tasks =
          .error (.nonIntegralPeriod task.id task.period resolution.tick)) ∧
    (Moving tasks → (∀ task ∈ tasks, resolution.Counts task) →
      ∃ counts, HaveCounts resolution tasks counts ∧
        IsDecided resolution limit counts tasks.length (ofTasks resolution limit tasks)) ∧
    ∀ tasks', (∀ task, task ∈ tasks ↔ task ∈ tasks') →
      Alike (ofTasks resolution limit tasks) (ofTasks resolution limit tasks') := by
  refine ⟨?_, ?_, ?_, fun tasks' same => alike_ofTasks same⟩
  · rw [← not_moving_iff]
    exact ofTasks_of_resting
  · rintro moving ⟨other, mem, none⟩
    rcases exists_counts_or_first resolution tasks with
      ⟨counts, counted⟩ | ⟨before, task, after, split, first, uncounted⟩
    · exact absurd (counts_of_mem counted mem) none
    · exact ⟨before, task, after, split, first, uncounted,
        ofTasks_of_uncounted moving split first uncounted⟩
  · intro moving all
    rcases exists_counts_or_first resolution tasks with
      ⟨counts, counted⟩ | ⟨before, task, after, split, _, uncounted⟩
    · refine ⟨counts, counted, ?_⟩
      rw [ofTasks_of_counts moving counted]
      apply isDecided_ofCounts
      · rintro rfl
        exact moving.1 (List.forall₂_nil_right_iff.1 counted)
      · intro count mem
        obtain ⟨task, _, done⟩ := (mem_counts counted count).1 mem
        exact (Resolution.ticks_spec done).2.2.1
    · exact absurd (all task (by simp [split])) uncounted

def everyTask (n : Nat) : Task := .periodic 1 (.ofNat n) (.point .zero)

/-- A common multiple of four and six, also among more tasks and beyond a limit, and one of two
counts that is no word; a period of zero beside one that is not a number; and half a tick. -/
theorem least_multiple_decides_twelve :
    (∃ periods, ofTasks .unit none [everyTask 4, everyTask 6] =
      .ok ⟨length .unit 12, 12, periods, 2⟩) ∧
    Alike (ofTasks .unit none [everyTask 4, everyTask 6])
      (ofTasks .unit none [everyTask 6, everyTask 4, everyTask 6]) ∧
    ofTasks .unit (some (.ofNat 11)) [everyTask 4, everyTask 6] =
      .error (.tooLarge (length .unit 12) (.ofNat 11)) ∧
    (∃ operands, ofTasks .unit none [everyTask (2 ^ 33), everyTask (2 ^ 33 + 1)] =
      .error (.overflow operands)) ∧
    ofTasks .unit none [everyTask 0, .periodic 2 (.nan false) (.point .zero)] =
      .ok ⟨.zero, 0, [], 2⟩ ∧
    ∃ id period, ofTasks .unit none [everyTask 1, .periodic 2 (.ofRatio false 1 2) (.point .zero)] =
      .error (.nonIntegralPeriod id period .one) := by
  have counted (n : Nat) (positive : 0 < n) (small : n ≤ 2 ^ 53) :
      Resolution.unit.ticks (everyTask n) = .ok (UInt64.ofNat n) :=
    Resolution.ticks_unit ⟨rfl, Binary64.isWhole_ofNat small, positive, small⟩
  have decided (limit : Option Binary64) {m n : Nat} (moving : Moving [everyTask m, everyTask n])
      (first : Resolution.unit.ticks (everyTask m) = .ok (UInt64.ofNat m))
      (second : Resolution.unit.ticks (everyTask n) = .ok (UInt64.ofNat n)) :
      IsDecided .unit limit [UInt64.ofNat m, UInt64.ofNat n] 2
        (ofTasks .unit limit [everyTask m, everyTask n]) := by
    have counts : ∀ task ∈ [everyTask m, everyTask n], Resolution.unit.Counts task := by
      simp only [List.forall_mem_cons, List.not_mem_nil, IsEmpty.forall_iff, implies_true, and_true]
      exact ⟨⟨_, first⟩, ⟨_, second⟩⟩
    obtain ⟨all, haveCounts, decided⟩ := (least_multiple_decides .unit limit _).2.2.1 moving counts
    have passed := Outcome.mapM_eq_ok.2 haveCounts
    rw [Outcome.mapM_eq_ok.2 (.cons first (.cons second .nil))] at passed
    cases passed
    exact decided
  have twelve (limit : Option Binary64) := decided limit (m := 4) (n := 6)
    ⟨by simp, by decide +kernel⟩ (counted 4 (by decide) (by decide))
    (counted 6 (by decide) (by decide))
  have huge := decided none (m := 2 ^ 33) (n := 2 ^ 33 + 1) ⟨by simp, by decide +kernel⟩
    (counted _ (by decide) (by decide)) (counted _ (by decide) (by decide))
  have multiple : leastTicks [UInt64.ofNat 4, UInt64.ofNat 6] = 12 := by decide
  refine ⟨?_, ?_, ?_, ?_, ?_, ?_⟩
  · have found := (twelve none).found (by rw [multiple]; decide) (by simp)
    rw [multiple] at found
    exact ⟨_, found⟩
  · exact (least_multiple_decides .unit none _).2.2.2 _ (by simp)
  · apply ((twelve _).tooLarge_iff (by rw [multiple]; decide) _ _).2
    rw [multiple]
    exact ⟨rfl, rfl, by decide +kernel⟩
  · exact huge.overflow_iff.2 (by decide +kernel)
  · apply (least_multiple_decides .unit none _).1
    exact Or.inr ⟨_, List.mem_cons_self, by decide +kernel⟩
  · have half : ¬ Resolution.unit.Counts (.periodic 2 (.ofRatio false 1 2) (.point .zero)) := by
      rintro ⟨count, done⟩
      have failed : (Resolution.unit.ticks (.periodic 2 (.ofRatio false 1 2) (.point .zero))).isOk =
          false := by decide +kernel
      rw [done] at failed
      cases failed
    have first := (least_multiple_decides .unit none
      [everyTask 1, .periodic 2 (.ofRatio false 1 2) (.point .zero)]).2.1
    obtain ⟨_, task, _, _, _, _, refused⟩ := first ⟨by simp, by decide +kernel⟩ ⟨_, by simp, half⟩
    exact ⟨task.id, task.period, refused⟩

end Hyperperiod

end PeriodicJobs
