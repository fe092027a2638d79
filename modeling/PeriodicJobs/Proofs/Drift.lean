import PeriodicJobs.Proofs.Hyperperiod
import PeriodicJobs.Proofs.JobCount

set_option autoImplicit false

/- Periods that are not whole counts of ticks but pass as such. The hyperperiod is a multiple of the
ticks, so over its rounds a task drifts away from it by the deviation of one period each time. -/
namespace PeriodicJobs

open Binary64 (slack roundoff IsNear)

namespace Resolution

/-- The part of its period by which a task is shorter than the ticks counted for it. -/
def deviation (resolution : Resolution) (task : Task) (count : UInt64) : ℚ :=
  count.toNat * resolution.tick.value / task.period.value - 1

theorem isMagnitude_tick (resolution : Resolution) :
    resolution.tick.IsMagnitude ∧ 0 < resolution.tick.value :=
  Binary64.isMagnitude_of_pos resolution.usable.1 resolution.usable.2

/-- All roundings between the ticks of a hyperperiod and the ratio of it to a period, together. -/
def noise : ℚ := 1 / 2 ^ 51

/-- The deviations of some rounds stay under half a period together, and a single one is clearly
within the tolerance. -/
def Steady (resolution : Resolution) (task : Task) (count : UInt64) (rounds : Nat) : Prop :=
  2 * rounds * (|resolution.deviation task count| + noise) < 1 ∧
    resolution.deviation task count ≤ slack - noise

instance (resolution : Resolution) (task : Task) (count : UInt64) (rounds : Nat) :
    Decidable (resolution.Steady task count rounds) := inferInstanceAs (Decidable (_ ∧ _))

/-- The deviations of some rounds are clearly more than half a period together. -/
def Drifting (resolution : Resolution) (task : Task) (count : UInt64) (rounds : Nat) : Prop :=
  1 < 2 * rounds * (|resolution.deviation task count| - noise)

/-- The error of the quotient and its distance to the count add up to the deviation. -/
theorem deviation_of_close {resolution : Resolution} {task : Task} {count : UInt64}
    {quotient : ℚ} (tick_pos : 0 < resolution.tick.value) (period_pos : 0 < task.period.value)
    (near : IsNear roundoff quotient (task.period.value / resolution.tick.value))
    (close : |quotient - count.toNat| ≤ slack * (1 + Binary64.band) * count.toNat) :
    |resolution.deviation task count| ≤ slack + 3 * roundoff := by
  have exact_pos : 0 < task.period.value / resolution.tick.value := div_pos period_pos tick_pos
  have part : resolution.deviation task count =
      (count.toNat - task.period.value / resolution.tick.value) /
        (task.period.value / resolution.tick.value) := by
    rw [deviation]
    field_simp
  rw [part, abs_div, abs_of_pos exact_pos, div_le_iff₀ exact_pos, abs_le]
  rw [IsNear, abs_le] at near
  rw [abs_le] at close
  generalize task.period.value / resolution.tick.value = w at *
  norm_num [slack, roundoff, Binary64.band] at *
  constructor <;> linarith

/-- What a count says of the period: it is positive and off the ticks by hardly more than the
tolerance. -/
theorem ticks_spec {resolution : Resolution} {task : Task} {count : UInt64}
    (done : resolution.ticks task = .ok count) :
    task.period.IsMagnitude ∧ 0 < task.period.value ∧ 0 < count.toNat ∧
      |resolution.deviation task count| ≤ slack + 3 * roundoff := by
  obtain ⟨quotient, near, counted, some, _⟩ := quotient_of_ticks done
  obtain ⟨tick, tick_pos⟩ := resolution.isMagnitude_tick
  have period := Binary64.isMagnitude_of_div tick tick_pos quotient
  obtain ⟨n, whole, rounded, lower, upper⟩ := Binary64.round_spec quotient
  obtain rfl : n = count.toNat := whole.unique_count counted
  have close := Binary64.close_of_isNearlyWhole quotient whole rounded near
  rw [Nat.max_eq_left some] at close
  have enough : resolution.tick.value ≤ 4 * task.period.value := by
    apply Binary64.le_of_quarter_lt_div period tick tick_pos
    have one : (1 : ℚ) ≤ count.toNat := by exact_mod_cast some
    linarith
  have quotient_near := Binary64.isNear_div period tick tick_pos (by linarith) quotient.2
  have period_pos : 0 < task.period.value := by linarith
  exact ⟨period, period_pos, some, deviation_of_close tick_pos period_pos quotient_near close⟩

/-- The span of some ticks is near to them, however many bits the number of ticks has. -/
theorem span_spec {resolution : Resolution} {ticks : UInt64} (some : 0 < ticks.toNat)
    (finite : (resolution.span ticks).isFinite = true) :
    (resolution.span ticks).IsMagnitude ∧
      IsNear (roundoff + roundoff * (1 + roundoff)) (resolution.span ticks).value
        (ticks.toNat * resolution.tick.value) ∧
      0 < (resolution.span ticks).value := by
  obtain ⟨tick, tick_pos⟩ := resolution.isMagnitude_tick
  have number := Binary64.isMagnitude_ofUInt64 ticks
  have counted := (Binary64.isNear_ofUInt64 ticks).mul_right tick_pos.le
  have product := Binary64.isNear_mul number tick
    (Or.inl (Binary64.exists_whole_ofUInt64 ticks)) finite
  have near := counted.rounded product
  refine ⟨⟨number.1.mul tick.1 number.2 tick.2, finite⟩, near, ?_⟩
  have exact_pos : 0 < (ticks.toNat : ℚ) * resolution.tick.value :=
    mul_pos (by exact_mod_cast some) tick_pos
  have lower := (abs_le.1 near).1
  change 0 < (Binary64.ofUInt64 ticks * resolution.tick).value
  norm_num [roundoff] at lower
  linarith

/-- A finite span of ticks and a task whose count is repeated in it without a rest. -/
structure Covers (resolution : Resolution) (task : Task) (count ticks : UInt64) (rounds : Nat) :
    Prop where
  period : task.period.IsMagnitude
  period_pos : 0 < task.period.value
  deviates : |resolution.deviation task count| ≤ slack + 3 * roundoff
  nonempty : 0 < ticks.toNat
  multiple : rounds * count.toNat = ticks.toNat
  finite : (resolution.span ticks).isFinite = true

namespace Covers

variable {resolution : Resolution} {task : Task} {count ticks : UInt64} {rounds : Nat}
  (covers : resolution.Covers task count ticks rounds)

include covers

theorem rounds_pos : 0 < rounds := Nat.pos_of_mul_pos_right (covers.multiple ▸ covers.nonempty)

theorem rounds_lt : rounds < 2 ^ 64 := by
  have counted : 0 < count.toNat := Nat.pos_of_mul_pos_left (covers.multiple ▸ covers.nonempty)
  have le := Nat.le_mul_of_pos_right rounds counted
  have word := ticks.toNat_lt
  have multiple := covers.multiple
  omega

theorem ticks_div_period :
    ticks.toNat * resolution.tick.value / task.period.value =
      rounds * (1 + resolution.deviation task count) := by
  rw [deviation, ← covers.multiple, Nat.cast_mul]
  ring

/-- The exact ratio is positive and hardly above the range of words. -/
theorem exact_bounds :
    1 / 2 ≤ rounds * (1 + resolution.deviation task count) ∧
      rounds * (1 + resolution.deviation task count) ≤ 2 ^ 65 := by
  have least : (1 : ℚ) ≤ rounds := by exact_mod_cast covers.rounds_pos
  have most : (rounds : ℚ) ≤ 2 ^ 64 := by exact_mod_cast covers.rounds_lt.le
  obtain ⟨low, high⟩ := abs_le.1 covers.deviates
  norm_num [slack, roundoff] at low high
  constructor <;> nlinarith

/-- The ratio of a span to a period is near to the rounds with the deviation of each. -/
theorem ratio_spec :
    (resolution.span ticks / task.period).IsMagnitude ∧
      IsNear (7 / 2 * roundoff) (resolution.span ticks / task.period).value
        (rounds * (1 + resolution.deviation task count)) := by
  have period_pos := covers.period_pos
  obtain ⟨span, near, span_pos⟩ := span_spec covers.nonempty covers.finite
  obtain ⟨least, most⟩ := covers.exact_bounds
  have scaled := near.mul_right (inv_pos.2 period_pos).le
  rw [← div_eq_mul_inv, ← div_eq_mul_inv, covers.ticks_div_period] at scaled
  obtain ⟨low, high⟩ := abs_le.1 scaled
  norm_num [roundoff] at low high
  have enough : task.period.value ≤ 4 * (resolution.span ticks).value := by
    have quarter : 1 / 4 ≤ (resolution.span ticks).value / task.period.value := by linarith
    rw [le_div_iff₀ period_pos] at quarter
    linarith
  have range : (resolution.span ticks).value ≤ 2 ^ 66 * task.period.value := by
    rw [← div_le_iff₀ period_pos]
    linarith
  have ratio := Binary64.isMagnitude_div span covers.period period_pos range
  have rounded :=
    scaled.rounded (Binary64.isNear_div span covers.period period_pos (by linarith) ratio.2)
  exact ⟨ratio, rounded.weaken (by norm_num [roundoff]) (by linarith)⟩

/-- The ratio in terms of the drift, the sum of the deviations of all rounds. -/
theorem drift_bounds {drift : ℚ} (adds : rounds * resolution.deviation task count = drift) :
    |drift| ≤ (slack + 3 * roundoff) * rounds ∧
      |(resolution.span ticks / task.period).value - (rounds + drift)| ≤
        7 / 2 * roundoff * (rounds + drift) := by
  have near := covers.ratio_spec.2
  rw [IsNear, mul_add, mul_one, adds] at near
  refine ⟨?_, near⟩
  rw [← adds, abs_mul, abs_of_nonneg (Nat.cast_nonneg rounds), mul_comm]
  exact mul_le_mul_of_nonneg_right covers.deviates (Nat.cast_nonneg rounds)

theorem moving : ¬ task.period ≤ .zero := by
  rw [covers.period.le_zero_iff, not_le]
  exact covers.period_pos

theorem lasting : ¬ resolution.span ticks ≤ .zero := by
  obtain ⟨span, _, span_pos⟩ := span_spec covers.nonempty covers.finite
  rw [span.le_zero_iff, not_le]
  exact span_pos

/-- A steady task has one job for each round. -/
theorem jobCount_of_steady (steady : resolution.Steady task count rounds) :
    (task.jobCount (resolution.span ticks)).toNat = rounds := by
  obtain ⟨short, within⟩ := steady
  have rounds_nonneg : (0 : ℚ) ≤ rounds := Nat.cast_nonneg rounds
  have short' : 2 * |rounds * resolution.deviation task count| + 2 * noise * rounds < 1 := by
    rw [abs_mul, abs_of_nonneg rounds_nonneg]
    linarith
  have within' : rounds * resolution.deviation task count ≤ (slack - noise) * rounds := by
    rw [mul_comm]
    exact mul_le_mul_of_nonneg_right within rounds_nonneg
  obtain ⟨bound, near⟩ := covers.drift_bounds rfl
  generalize (rounds : ℚ) * resolution.deviation task count = drift at *
  have upper := le_abs_self drift
  have lower := neg_abs_le drift
  rw [abs_le] at near
  norm_num [slack, roundoff, noise] at near short' within' bound
  apply Task.jobCount_of_close covers.moving covers.lasting covers.ratio_spec.1 covers.rounds_pos
    covers.rounds_lt
  · rw [abs_lt]
    constructor <;> linarith
  · intro above
    norm_num [slack, Binary64.band]
    linarith

/-- A drifting task has more or fewer jobs than rounds, as far as a word can tell. -/
theorem jobCount_of_drifting (drifting : resolution.Drifting task count rounds)
    (word : rounds < 2 ^ 64 - 1) : (task.jobCount (resolution.span ticks)).toNat ≠ rounds := by
  intro same
  have rounds_nonneg : (0 : ℚ) ≤ rounds := Nat.cast_nonneg rounds
  have long : 1 + 2 * noise * rounds < 2 * |rounds * resolution.deviation task count| := by
    rw [Drifting] at drifting
    rw [abs_mul, abs_of_nonneg rounds_nonneg]
    linarith
  obtain ⟨bound, near⟩ := covers.drift_bounds rfl
  generalize (rounds : ℚ) * resolution.deviation task count = drift at *
  rw [abs_le] at near
  norm_num [slack, roundoff, noise] at near long bound
  -- A deviation within the tolerance needs that many rounds for half a period.
  have many : (500000000 : ℚ) < rounds := by linarith
  have more : 500000000 < rounds := by exact_mod_cast many
  have many' : (500000001 : ℚ) ≤ rounds := by exact_mod_cast more
  have close := Task.close_of_jobCount covers.moving covers.lasting covers.ratio_spec.1
    (by omega) word same
  rw [abs_le, abs_le] at close
  norm_num [slack, Binary64.band] at close
  rcases abs_cases drift with ⟨sign, _⟩ | ⟨sign, _⟩ <;> rw [sign] at long bound
  · rcases close with ⟨_, _, half⟩ | ⟨below, _⟩ <;> linarith
  · rcases close with ⟨_, half, _⟩ | ⟨below, before⟩
    · linarith
    · have far := before (by linarith)
      linarith

end Covers

end Resolution

end PeriodicJobs
