import PeriodicJobs.Proofs.Binary64.Whole
import PeriodicJobs.Proofs.Hyperperiod
import PeriodicJobs.Proofs.Releases

set_option autoImplicit false

/- Job sets of tasks whose periods are whole numbers. Everything from the count of ticks to the last
release is a whole number up to 2^53, so no step rounds. -/
namespace PeriodicJobs

/-- A task that starts at the origin and has a whole number as its period. -/
structure Task.HasWholePeriod (task : Task) (period : Nat) : Prop where
  phase_zero : task.phase.isZero = true
  whole : task.period.IsWhole period
  positive : 0 < period
  small : period ≤ 2 ^ 53

/-- The job that a task releases at a multiple of its period. -/
def Task.wholeJob (task : Task) (period k : Nat) : Job :=
  { id := UInt64.ofNat (k + 1)
    taskId := task.id
    arrival := task.jitter.shift (.ofNat (k * period))
    deadline := .ofNat (k * period) + task.deadline
    cost := task.cost }

namespace Resolution

theorem ofBinary64_one : ofBinary64 .one = .ok unit := dif_pos unit.usable

theorem isFinite_one : Binary64.one.isFinite = true := unit.usable.1

/-- A whole period is counted exactly. -/
theorem ticks_unit {task : Task} {period : Nat} (whole : task.HasWholePeriod period) :
    unit.ticks task = .ok (UInt64.ofNat period) := by
  have quotient : (task.period / Binary64.one).IsWhole period :=
    Binary64.IsWhole.div (by simpa using whole.whole) Binary64.isWhole_one Nat.one_pos whole.small
      (whole.whole.isFinite whole.small) isFinite_one
  have rounded : (task.period / Binary64.one).round.IsWhole period := by
    rwa [quotient.round_eq whole.small]
  exact ticks_of_quotient (quotient.isNearlyWhole whole.small) rounded whole.positive whole.small

theorem isWhole_span {count : UInt64} (small : count.toNat ≤ 2 ^ 53) :
    (unit.span count).IsWhole count.toNat := by
  have whole := Binary64.isWhole_ofUInt64 small
  have product := whole.mul Binary64.isWhole_one (by rwa [Nat.mul_one]) (whole.isFinite small)
    isFinite_one
  rwa [Nat.mul_one] at product

end Resolution

namespace Task

variable {task : Task} {period : Nat}

/-- The jobs in a multiple of the period are the periods in it. -/
theorem HasWholePeriod.jobCount_eq (whole : task.HasWholePeriod period) {span : Binary64}
    {quotient : Nat} (multiple : span.IsWhole (quotient * period)) (some : 0 < quotient)
    (small : quotient * period ≤ 2 ^ 53) : task.jobCount span = UInt64.ofNat quotient := by
  have smallQuotient : quotient ≤ 2 ^ 53 :=
    Nat.le_trans (Nat.le_mul_of_pos_right _ whole.positive) small
  have periods : (span / task.period).IsWhole quotient :=
    multiple.div whole.whole whole.positive smallQuotient (multiple.isFinite small)
      (whole.whole.isFinite whole.small)
  have moving := whole.whole.not_le_zero whole.positive
  have lasting := multiple.not_le_zero (Nat.mul_pos some whole.positive)
  rw [jobCount, if_neg (by simp only [moving, lasting, or_self, not_false_eq_true])]
  simp only [periods.isNearlyWhole smallQuotient, ↓reduceIte, periods.round_eq smallQuotient,
    periods.toUInt64_eq smallQuotient]

theorem HasWholePeriod.job_eq (whole : task.HasWholePeriod period) {k : Nat}
    (small : k * period ≤ 2 ^ 53) : task.job (UInt64.ofNat k) = task.wholeJob period k := by
  have smallK : k ≤ 2 ^ 53 := Nat.le_trans (Nat.le_mul_of_pos_right _ whole.positive) small
  have word : (UInt64.ofNat k).toNat = k := by
    rw [UInt64.toNat_ofNat', Nat.mod_eq_of_lt (by omega)]
  have earlier : (Binary64.ofUInt64 (UInt64.ofNat k)).IsWhole k := by
    have exact_ := Binary64.isWhole_ofUInt64 (n := UInt64.ofNat k) (by rwa [word])
    rwa [word] at exact_
  have release : Binary64.ofUInt64 (UInt64.ofNat k) * task.period = .ofNat (k * period) :=
    (earlier.mul whole.whole small (earlier.isFinite smallK)
      (whole.whole.isFinite whole.small)).unique (Binary64.isWhole_ofNat small)
  have next : UInt64.ofNat k + 1 = UInt64.ofNat (k + 1) := by
    rw [UInt64.ofNat_add]
    rfl
  rw [job, wholeJob, release, next]

theorem HasWholePeriod.jobs_eq (whole : task.HasWholePeriod period) {span : Binary64}
    {quotient : Nat} (multiple : span.IsWhole (quotient * period)) (some : 0 < quotient)
    (small : quotient * period ≤ 2 ^ 53) :
    task.jobs span = (List.range quotient).map (task.wholeJob period) := by
  have released := releases_of_phase whole.phase_zero span
  have smallQuotient : quotient ≤ 2 ^ 53 :=
    Nat.le_trans (Nat.le_mul_of_pos_right _ whole.positive) small
  rw [Task.jobs_eq released, whole.jobCount_eq multiple some small, UInt64.toNat_ofNat',
    Nat.mod_eq_of_lt (by omega)]
  apply List.map_congr_left
  intro k inside
  have below := List.mem_range.1 inside
  exact whole.job_eq (Nat.le_trans (Nat.mul_le_mul_right _ below.le) small)

end Task

section

variable {tasks : List Task} {period : Task → Nat}

theorem dvd_leastMultiple {task : Task} (mem : task ∈ tasks) :
    period task ∣ leastMultiple (tasks.map period) :=
  (leastMultiple_dvd_iff _ _).1 (Nat.dvd_refl _) _ (List.mem_map_of_mem mem)

theorem moving_of_whole (nonempty : tasks ≠ [])
    (whole : ∀ task ∈ tasks, task.HasWholePeriod (period task)) : Hyperperiod.Moving tasks := by
  refine ⟨nonempty, ?_⟩
  intro task mem
  rw [(whole task mem).whole.isZero_eq]
  exact beq_eq_false_iff_ne.2 (whole task mem).positive.ne'

theorem leastMultiple_pos_of_whole (whole : ∀ task ∈ tasks, task.HasWholePeriod (period task)) :
    0 < leastMultiple (tasks.map period) := by
  apply leastMultiple_pos
  intro v mem
  obtain ⟨task, inTasks, rfl⟩ := List.mem_map.1 mem
  exact (whole task inTasks).positive

/-- The counts of whole periods have the least common multiple of the periods. -/
theorem lcmAll_whole (nonempty : tasks ≠ [])
    (whole : ∀ task ∈ tasks, task.HasWholePeriod (period task))
    (small : leastMultiple (tasks.map period) ≤ 2 ^ 53) :
    ∃ ticks, Ticks.lcmAll (distinct (tasks.map fun task => UInt64.ofNat (period task))) =
      .ok ticks ∧ ticks.toNat = leastMultiple (tasks.map period) := by
  have word {task : Task} (mem : task ∈ tasks) :
      (UInt64.ofNat (period task)).toNat = period task := by
    have fits := (whole task mem).small
    rw [UInt64.toNat_ofNat', Nat.mod_eq_of_lt (by omega)]
  have members (m : Nat) : (∀ v ∈ distinct (tasks.map fun task => UInt64.ofNat (period task)),
      v.toNat ∣ m) ↔ leastMultiple (tasks.map period) ∣ m := by
    simp only [mem_distinct, leastMultiple_dvd_iff, List.forall_mem_map]
    exact forall₂_congr fun task mem => by rw [word mem]
  obtain ⟨ticks, done⟩ := Ticks.lcmAll_of_fits (leastMultiple_pos_of_whole whole)
    (Nat.lt_of_le_of_lt small (by decide)) ((members _).2 (Nat.dvd_refl _))
  have dvd_iff (m : Nat) : ticks.toNat ∣ m ↔ leastMultiple (tasks.map period) ∣ m := by
    rw [← members, Ticks.lcmAll_dvd_iff (distinct_ne_nil (by simpa using nonempty)) done]
  exact ⟨ticks, done, Nat.dvd_right_iff_eq.1 dvd_iff⟩

/-- The hyperperiod of whole periods is their least common multiple. -/
theorem hyperperiod_whole (nonempty : tasks ≠ [])
    (whole : ∀ task ∈ tasks, task.HasWholePeriod (period task))
    (small : leastMultiple (tasks.map period) ≤ 2 ^ 53) {limit : Option Binary64}
    (limited : ∀ most, limit = some most → .ofNat (leastMultiple (tasks.map period)) ≤ most) :
    ∃ h, Hyperperiod.ofTasks .unit limit tasks = .ok h ∧
      h.value.IsWhole (leastMultiple (tasks.map period)) := by
  obtain ⟨ticks, multiple, same⟩ := lcmAll_whole nonempty whole small
  have exact_ : ticks.toNat ≤ 2 ^ 53 := by rwa [same]
  have value := Resolution.isWhole_span exact_
  rw [same] at value
  have unlimited : Hyperperiod.checkLimit limit (Resolution.unit.span ticks) = .ok () := by
    cases limit with
    | none => rfl
    | some most =>
      have le := limited most rfl
      rw [← value.unique (Binary64.isWhole_ofNat small)] at le
      rw [Hyperperiod.checkLimit, if_neg (Binary64.not_lt_of_le le)]
  let counts := tasks.map fun task => UInt64.ofNat (period task)
  have counted : List.Forall₂ (fun task count => Resolution.unit.ticks task = .ok count) tasks
      counts := by
    rw [List.forall₂_map_right_iff, List.forall₂_same]
    intro task mem
    exact Resolution.ticks_unit (whole task mem)
  let h : Hyperperiod := {
    value := Resolution.unit.span ticks
    ticks
    uniquePeriods := (distinct counts).map Resolution.unit.span
    taskCount := tasks.length }
  have made : Hyperperiod.Counted .unit limit tasks counts h :=
    ⟨counted, multiple, rfl, unlimited, rfl, rfl⟩
  exact ⟨h, Hyperperiod.ok_of_counted (moving_of_whole nonempty whole) made, value⟩

end

end PeriodicJobs
