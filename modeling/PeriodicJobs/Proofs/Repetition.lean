import PeriodicJobs.Proofs.Drift
import PeriodicJobs.Proofs.WholePeriods

set_option autoImplicit false

/- Every task of a hyperperiod runs in it. The ticks are a multiple of the count of each task, so
the ratio of the span to a period is hardly below one, and a ratio above a half is never rounded
away. Only tasks at rest have a span of zero. -/
namespace PeriodicJobs

open Binary64 (slack roundoff)

/-- A ratio above a half counts as a job at least, whether it is rounded to the nearest number or
up. -/
theorem Task.jobCount_of_half_lt {task : Task} {span : Binary64}
    (moving : ¬ task.period ≤ .zero) (lasting : ¬ span ≤ .zero)
    (magnitude : (span / task.period).IsMagnitude)
    (half : 1 / 2 < (span / task.period).value) : 0 < (task.jobCount span).toNat := by
  obtain ⟨nearest, least, counts⟩ := Binary64.exists_counts magnitude
  have nearest_pos : 1 ≤ nearest := by
    apply le_of_lt_add_one
    rw [Nat.cast_one]
    linarith [counts.lt_nearest]
  have least_pos : 1 ≤ least := by
    apply le_of_lt_add_one
    rw [Nat.cast_one]
    linarith [counts.le_least]
  rw [jobCount_of_moving moving lasting, counts.toNat_eq]
  split <;> omega

/-- Both zeros are at most zero. -/
theorem Binary64.le_zero_of_isZero {x : Binary64} (none : x.isZero = true) : x ≤ zero := by
  cases x with
  | nan => cases none
  | number s p h =>
    rw [isZero, beq_iff_eq] at none
    subst none
    cases s <;> exact number_le_number.2 (by decide)

theorem Task.jobCount_of_zero {span : Binary64} (none : span.isZero = true) (task : Task) :
    task.jobCount span = 0 := by
  rw [jobCount, if_pos (Or.inr (Binary64.le_zero_of_isZero none))]

namespace Resolution.Covers

variable {resolution : Resolution} {task : Task} {count ticks : UInt64} {rounds : Nat}

/-- A task has a job in a span that its count divides. -/
theorem jobCount_pos (covers : resolution.Covers task count ticks rounds) :
    0 < (task.jobCount (resolution.span ticks)).toNat := by
  obtain ⟨magnitude, near⟩ := covers.ratio_spec
  apply Task.jobCount_of_half_lt covers.moving covers.lasting magnitude
  have least : (1 : ℚ) ≤ rounds := by exact_mod_cast covers.rounds_pos
  obtain ⟨low, _⟩ := abs_le.1 covers.deviates
  obtain ⟨low', _⟩ := abs_le.1 near
  norm_num [slack, roundoff] at low low'
  -- A round is nearly a whole period, and there is one at least.
  have round : 9 / 10 ≤ rounds * (1 + resolution.deviation task count) := by nlinarith
  linarith

end Resolution.Covers

namespace Hyperperiod

variable {resolution : Resolution} {limit : Option Binary64} {tasks : List Task} {h : Hyperperiod}

/-- Counts are positive, and so is their least common multiple. -/
theorem Counted.ticks_pos {counts : List UInt64} (made : Counted resolution limit tasks counts h)
    (nonempty : tasks ≠ []) : 0 < h.ticks.toNat := by
  have positive : ∀ n ∈ counts.map UInt64.toNat, 0 < n := by
    intro n mem
    obtain ⟨count, inCounts, rfl⟩ := List.mem_map.1 mem
    obtain ⟨task, _, counted⟩ := Outcome.mem_of_mapM (Outcome.mapM_eq_ok.2 made.counted) inCounts
    exact (Resolution.ticks_spec counted).2.2.1
  apply Nat.pos_of_dvd_of_pos _ (leastMultiple_pos positive)
  rw [made.dvd_iff nonempty]
  intro count mem
  exact (leastMultiple_dvd_iff _ _).1 (Nat.dvd_refl _) _ (List.mem_map_of_mem mem)

/-- A task of a hyperperiod with its count, which fits into the ticks without a rest. -/
theorem Counted.covers {counts : List UInt64} (made : Counted resolution limit tasks counts h)
    {task : Task} (mem : task ∈ tasks) (finite : h.value.isFinite = true) :
    ∃ count rounds, resolution.ticks task = .ok count ∧
      resolution.Covers task count h.ticks rounds := by
  have nonempty := List.ne_nil_of_mem mem
  obtain ⟨count, inCounts, counted⟩ := made.exists_count mem
  obtain ⟨period, period_pos, _, deviates⟩ := Resolution.ticks_spec counted
  obtain ⟨rounds, multiple⟩ := (made.dvd_iff nonempty _).1 (Nat.dvd_refl _) count inCounts
  rw [Nat.mul_comm] at multiple
  exact ⟨count, rounds, counted, period, period_pos, deviates, made.ticks_pos nonempty,
    multiple.symm, made.value ▸ finite⟩

/-- The span of moving tasks is positive, and infinite if it is not finite. -/
theorem Counted.isUnsigned_value {counts : List UInt64}
    (made : Counted resolution limit tasks counts h) : h.value.IsUnsigned := by
  have tick := resolution.isMagnitude_tick.1
  have number := Binary64.isMagnitude_ofUInt64 h.ticks
  rw [made.value]
  exact number.1.mul tick.1 number.2 tick.2

theorem Counted.value_pos {counts : List UInt64} (made : Counted resolution limit tasks counts h)
    (nonempty : tasks ≠ []) : ¬ h.value ≤ .zero := by
  by_cases finite : h.value.isFinite = true
  · have positive := made.ticks_pos nonempty
    rw [made.value] at finite ⊢
    obtain ⟨span, _, span_pos⟩ := Resolution.span_spec positive finite
    rw [span.le_zero_iff, not_le]
    exact span_pos
  · intro low
    obtain ⟨p, hp, same⟩ := made.isUnsigned_value
    rw [same] at low finite
    have zero : p ≤ 0 := Binary64.unsigned_le_unsigned.1 low
    apply finite
    exact decide_eq_true (Nat.lt_of_le_of_lt zero (by decide))

/-- A task of a hyperperiod has a job in it. -/
theorem Counted.jobCount_pos {counts : List UInt64}
    (made : Counted resolution limit tasks counts h) {task : Task} (mem : task ∈ tasks) :
    0 < (task.jobCount h.value).toNat := by
  by_cases finite : h.value.isFinite = true
  · obtain ⟨count, rounds, _, covers⟩ := made.covers mem finite
    rw [made.value]
    exact covers.jobCount_pos
  · obtain ⟨count, _, counted⟩ := made.exists_count mem
    obtain ⟨period, period_pos, _⟩ := Resolution.ticks_spec counted
    rw [Task.jobCount_of_infinite period period_pos made.isUnsigned_value
      (Bool.eq_false_iff.2 finite)]
    decide

/-- A hyperperiod has ticks, and a span, just if all of its tasks move. -/
theorem resting_iff (done : ofTasks resolution limit tasks = .ok h) :
    (h.ticks = 0 ↔ h.value.isZero = true) ∧
      (h.ticks = 0 ↔ tasks = [] ∨ ∃ task ∈ tasks, task.period.isZero = true) := by
  rw [← not_moving_iff]
  rcases counted_of_ok done with ⟨rest, rfl⟩ | ⟨moving, counts, made⟩
  · exact ⟨iff_of_true rfl rfl, iff_of_true rfl rest⟩
  · have some : h.ticks ≠ 0 := by
      intro zero
      have positive := made.ticks_pos moving.1
      rw [zero] at positive
      cases positive
    have span := mt Binary64.le_zero_of_isZero (made.value_pos moving.1)
    exact ⟨iff_of_false some span, iff_of_false some (not_not.2 moving)⟩

end Hyperperiod

end PeriodicJobs
