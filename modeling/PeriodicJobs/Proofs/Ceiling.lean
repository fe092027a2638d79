import Mathlib.Data.Rat.Floor
import Mathlib.Data.Set.Card
import PeriodicJobs.Proofs.JobCount

set_option autoImplicit false

/- The number of jobs in a span of whole length for a period of whole length. It is the quotient
rounded up, which counts the releases before the end of the span, unless the part of a period behind
the last whole one is within the tolerance for rounding noise. -/
namespace PeriodicJobs

open Binary64 (slack band roundoff IsNear)

namespace Binary64

/-- Halves between small whole numbers are numbers of the format. -/
theorem exists_half {n : Nat} (small : n < 2 ^ 52) :
    ∃ w : Binary64, w.IsMagnitude ∧ w.value = n + 1 / 2 := by
  obtain ⟨doublings, power, some⟩ : ∃ doublings, unitsPerOne = 2 ^ doublings ∧ doublings ≠ 0 :=
    ⟨1074, unitsPerOne_eq, by decide⟩
  obtain ⟨doubled, rfl⟩ := Nat.exists_eq_succ_of_ne_zero some
  -- A half is an odd number of half units, which has its place a doubling below the whole numbers.
  obtain ⟨place, units⟩ := exists_place doubled (2 * n + 1) (by omega)
  have twice : 2 * unitsAt place = (2 * n + 1) * unitsPerOne := by
    rw [units, power, Nat.pow_succ]
    ring
  obtain ⟨next, _, _, units'⟩ := isWhole_ofNat (n := n + 1) (by omega)
  have below : place < infinityPlace := by
    apply Nat.lt_of_le_of_lt _ (place_lt_infinity units' (by omega))
    rw [← unitsAt_le_iff, units', Nat.add_mul, Nat.one_mul]
    rw [Nat.add_mul, Nat.one_mul, Nat.mul_assoc] at twice
    omega
  refine ⟨.number false place below.le, ⟨⟨place, below.le, rfl⟩, decide_eq_true below⟩, ?_⟩
  have twice' : (2 * unitsAt place : ℚ) = (2 * n + 1) * unitsPerOne := by exact_mod_cast twice
  rw [value_number, div_eq_iff units_pos.ne']
  linarith

end Binary64

namespace Task

/-- The part of a period behind the last whole one in a span. -/
def excess (period length : Nat) : ℚ := (length % period : Nat) / period

/-- The part behind the last whole period is none, at least a half, or out of the tolerance by more
than rounding the quotient takes away. -/
def IsClear (period length : Nat) : Prop :=
  excess period length = 0 ∨ 1 / 2 ≤ excess period length ∨
    slack * (1 + band) * (max (length / period) 1 : Nat) + roundoff * ((length : ℚ) / period) <
      excess period length

/-- The part behind the last whole period is less than a half, and within the tolerance with all
that rounding the quotient adds. -/
def IsNoise (period length : Nat) : Prop :=
  0 < length / period ∧
    excess period length + roundoff * ((length : ℚ) / period) ≤
      slack * (1 - band) * (length / period : Nat) ∧
    excess period length + 1 / period < 1 / 2

instance (period length : Nat) : Decidable (IsClear period length) :=
  inferInstanceAs (Decidable (_ ∨ _ ∨ _))

instance (period length : Nat) : Decidable (IsNoise period length) :=
  inferInstanceAs (Decidable (_ ∧ _ ∧ _))

/-- A period and a span that are positive whole numbers without a rounding. -/
structure HasWholeRatio (task : Task) (span : Binary64) (period length : Nat) : Prop where
  period_whole : task.period.IsWhole period
  period_pos : 0 < period
  period_small : period ≤ 2 ^ 53
  span_whole : span.IsWhole length
  span_pos : 0 < length
  span_small : length ≤ 2 ^ 53

theorem hasWholeRatio_periodic (id : UInt64) (cost : Window) {period length : Nat}
    (period_pos : 0 < period) (period_small : period ≤ 2 ^ 53) (span_pos : 0 < length)
    (span_small : length ≤ 2 ^ 53) :
    (Task.periodic id (.ofNat period) cost).HasWholeRatio (.ofNat length) period length :=
  ⟨Binary64.isWhole_ofNat period_small, period_pos, period_small,
    Binary64.isWhole_ofNat span_small, span_pos, span_small⟩

theorem div_eq_add_excess {period : Nat} (positive : 0 < period) (length : Nat) :
    (length : ℚ) / period = (length / period : Nat) + excess period length := by
  have divisor : (period : ℚ) ≠ 0 := by exact_mod_cast positive.ne'
  have split : ((period * (length / period) + length % period : Nat) : ℚ) = length := by
    rw [Nat.div_add_mod]
  rw [excess, div_eq_iff divisor, add_mul, div_mul_cancel₀ _ divisor, ← split]
  push_cast
  ring

/-- The quotient rounded up is the number of releases before the end of the span. -/
theorem ceil_eq_ncard {period : Nat} (positive : 0 < period) (length : Nat) :
    ⌈(length : ℚ) / period⌉₊ = {k : Nat | k * period < length}.ncard := by
  have divisor : (0 : ℚ) < period := by exact_mod_cast positive
  have releases : {k : Nat | k * period < length} =
      (Finset.range ⌈(length : ℚ) / period⌉₊ : Set Nat) := by
    ext k
    rw [Finset.coe_range, Set.mem_Iio, Nat.lt_ceil, lt_div_iff₀ divisor, Set.mem_ofPred_eq]
    exact_mod_cast Iff.rfl
  rw [releases, Set.ncard_coe_finset, Finset.card_range]

theorem ceil_of_dvd {period length : Nat} (positive : 0 < period) (none : length % period = 0) :
    ⌈(length : ℚ) / period⌉₊ = length / period := by
  rw [div_eq_add_excess positive, excess, none, Nat.cast_zero, zero_div, add_zero,
    Nat.ceil_natCast]

theorem ceil_of_not_dvd {period length : Nat} (positive : 0 < period)
    (some : length % period ≠ 0) :
    ⌈(length : ℚ) / period⌉₊ = length / period + 1 := by
  have divisor : (0 : ℚ) < period := by exact_mod_cast positive
  have rest : (0 : ℚ) < (length % period : Nat) := by exact_mod_cast Nat.pos_of_ne_zero some
  have below : ((length % period : Nat) : ℚ) ≤ period := by
    exact_mod_cast (Nat.mod_lt length positive).le
  have low : 0 < excess period length := div_pos rest divisor
  have high : excess period length ≤ 1 := (div_le_one divisor).2 below
  rw [Nat.ceil_eq_iff (Nat.add_one_ne_zero _), div_eq_add_excess positive, Nat.add_sub_cancel]
  push_cast
  constructor <;> linarith

namespace HasWholeRatio

variable {task : Task} {span : Binary64} {period length : Nat}
  (ratio : task.HasWholeRatio span period length)

include ratio

theorem moving : ¬ task.period ≤ .zero := ratio.period_whole.not_le_zero ratio.period_pos

theorem lasting : ¬ span ≤ .zero := ratio.span_whole.not_le_zero ratio.span_pos

theorem isMagnitude_period : task.period.IsMagnitude :=
  Binary64.isMagnitude_of_whole ratio.period_whole ratio.period_small

theorem isMagnitude_span : span.IsMagnitude :=
  Binary64.isMagnitude_of_whole ratio.span_whole ratio.span_small

theorem value_period_pos : 0 < task.period.value := by
  rw [ratio.period_whole.value_eq]
  exact_mod_cast ratio.period_pos

theorem isMagnitude_ratio : (span / task.period).IsMagnitude := by
  apply Binary64.isMagnitude_div ratio.isMagnitude_span ratio.isMagnitude_period
    ratio.value_period_pos
  rw [ratio.period_whole.value_eq, ratio.span_whole.value_eq]
  have positive := ratio.period_pos
  have small := ratio.span_small
  exact_mod_cast (show length ≤ 2 ^ 66 * period by omega)

/-- The computed ratio is near to the exact one. -/
theorem isNear_ratio : IsNear roundoff (span / task.period).value ((length : ℚ) / period) := by
  have enough : task.period.value ≤ 2 ^ 53 * span.value := by
    rw [ratio.period_whole.value_eq, ratio.span_whole.value_eq]
    have positive := ratio.span_pos
    have small := ratio.period_small
    exact_mod_cast (show period ≤ 2 ^ 53 * length by omega)
  have near := Binary64.isNear_div ratio.isMagnitude_span ratio.isMagnitude_period
    ratio.value_period_pos enough ratio.isMagnitude_ratio.2
  rwa [ratio.span_whole.value_eq, ratio.period_whole.value_eq] at near

/-- Whole periods in the span are not lost by rounding. -/
theorem le_ratio {n : Nat} (small : n ≤ 2 ^ 53) (le : n * period ≤ length) :
    (n : ℚ) ≤ (span / task.period).value := by
  apply Binary64.natCast_le_value_div ratio.isMagnitude_span ratio.isMagnitude_period
    ratio.value_period_pos ratio.isMagnitude_ratio.2 small
  rw [ratio.period_whole.value_eq, ratio.span_whole.value_eq]
  exact_mod_cast le

/-- Rounding does not add to the whole periods that have the span in them. -/
theorem ratio_le {n : Nat} (small : n ≤ 2 ^ 53) (le : length ≤ n * period) :
    (span / task.period).value ≤ n := by
  have whole := Binary64.isWhole_ofNat small
  rw [← whole.value_eq]
  apply Binary64.value_div_le ratio.isMagnitude_span ratio.isMagnitude_period
    (Binary64.isMagnitude_of_whole whole small) ratio.value_period_pos
  rw [whole.value_eq, ratio.period_whole.value_eq, ratio.span_whole.value_eq]
  exact_mod_cast le

theorem periods_small : length / period ≤ 2 ^ 53 :=
  Nat.le_trans (Nat.div_le_self _ _) ratio.span_small

theorem periods_le_ratio : ((length / period : Nat) : ℚ) ≤ (span / task.period).value :=
  ratio.le_ratio ratio.periods_small (Nat.div_mul_le_self length period)

/-- Without a rest the ratio is exact. -/
theorem ratio_le_periods (none : length % period = 0) :
    (span / task.period).value ≤ (length / period : Nat) :=
  ratio.ratio_le ratio.periods_small (Nat.div_mul_cancel (Nat.dvd_of_mod_eq_zero none)).ge

/-- With a rest there are at least two units in a period. -/
theorem periods_lt (some : length % period ≠ 0) : length / period < 2 ^ 52 := by
  have below := Nat.mod_lt length ratio.period_pos
  have split := Nat.div_add_mod length period
  have twice : 2 * (length / period) ≤ period * (length / period) :=
    Nat.mul_le_mul_right _ (by omega)
  have small := ratio.span_small
  omega

theorem ratio_le_next (some : length % period ≠ 0) :
    (span / task.period).value ≤ (length / period : Nat) + 1 := by
  have halved := ratio.periods_lt some
  have next := ratio.ratio_le (n := length / period + 1) (by omega)
    (Nat.lt_mul_of_div_lt (Nat.lt_succ_self _) ratio.period_pos).le
  rwa [Nat.cast_add, Nat.cast_one] at next

/-- Rounding does not bring a ratio from the half or above below it. -/
theorem half_le_ratio (some : length % period ≠ 0) (half : 1 / 2 ≤ excess period length) :
    (length / period : Nat) + 1 / 2 ≤ (span / task.period).value := by
  obtain ⟨w, magnitude, same⟩ := Binary64.exists_half (ratio.periods_lt some)
  rw [← same]
  apply Binary64.le_value_div ratio.isMagnitude_span ratio.isMagnitude_period magnitude
    ratio.value_period_pos ratio.isMagnitude_ratio.2
  have divisor : (0 : ℚ) < period := by exact_mod_cast ratio.period_pos
  rw [same, ratio.period_whole.value_eq, ratio.span_whole.value_eq, ← le_div_iff₀ divisor,
    div_eq_add_excess ratio.period_pos]
  linarith

theorem periods_pos_of_dvd (none : length % period = 0) : 0 < length / period :=
  Nat.div_pos (Nat.le_of_dvd ratio.span_pos (Nat.dvd_of_mod_eq_zero none)) ratio.period_pos

theorem jobCount_of_dvd (none : length % period = 0) :
    (task.jobCount span).toNat = length / period := by
  have small := ratio.periods_small
  have low := ratio.periods_le_ratio
  have high := ratio.ratio_le_periods none
  apply jobCount_of_close ratio.moving ratio.lasting ratio.isMagnitude_ratio
    (ratio.periods_pos_of_dvd none) (by omega)
  · rw [abs_lt]
    constructor <;> linarith
  · intro above
    linarith

/-- A part out of the tolerance stays out of it when the quotient is rounded. -/
theorem jobCount_of_clear (some : length % period ≠ 0) (clear : IsClear period length) :
    (task.jobCount span).toNat = length / period + 1 := by
  have small := ratio.periods_lt some
  apply (jobCount_of_between ratio.moving ratio.lasting ratio.isMagnitude_ratio (by omega)
    ratio.periods_le_ratio (ratio.ratio_le_next some)).2
  have divisor : (0 : ℚ) < period := by exact_mod_cast ratio.period_pos
  have rest : (0 : ℚ) < (length % period : Nat) := by exact_mod_cast Nat.pos_of_ne_zero some
  by_cases half : 1 / 2 ≤ excess period length
  · exact Or.inl (ratio.half_le_ratio some half)
  · rcases clear with zero | reached | far
    · exact absurd zero (div_pos rest divisor).ne'
    · exact absurd reached half
    · have near := (abs_le.1 ratio.isNear_ratio).1
      have split := div_eq_add_excess ratio.period_pos length
      apply Or.inr
      linarith

/-- The exact quotient of numbers up to 2^53 is rounded by less than a unit in the period. -/
theorem roundoff_le : roundoff * ((length : ℚ) / period) ≤ 1 / period := by
  have divisor : (0 : ℚ) < period := by exact_mod_cast ratio.period_pos
  have most : (length : ℚ) ≤ 2 ^ 53 := by exact_mod_cast ratio.span_small
  rw [roundoff, ← mul_div_assoc, div_le_div_iff_of_pos_right divisor]
  linarith

/-- A part within the tolerance is still so when the quotient is rounded. -/
theorem jobCount_of_noise (noise : IsNoise period length) :
    (task.jobCount span).toNat = length / period := by
  obtain ⟨positive, within, below⟩ := noise
  have small := ratio.periods_small
  have low := ratio.periods_le_ratio
  have near := (abs_le.1 ratio.isNear_ratio).2
  have split := div_eq_add_excess ratio.period_pos length
  have unit := ratio.roundoff_le
  apply jobCount_of_close ratio.moving ratio.lasting ratio.isMagnitude_ratio positive (by omega)
  · rw [abs_lt]
    constructor <;> linarith
  · intro above
    linarith

end HasWholeRatio

/-- The jobs are the quotient rounded down or up. They are the quotient rounded up, so the releases
before the end of the span, if the part behind the last whole period is clearly not rounding noise,
and the last whole period is the last one counted if that part clearly is. -/
theorem jobCount_rounds_up {task : Task} {span : Binary64} {period length : Nat}
    (ratio : task.HasWholeRatio span period length) :
    ⌈(length : ℚ) / period⌉₊ = {k : Nat | k * period < length}.ncard ∧
      ((task.jobCount span).toNat = length / period ∨
        (task.jobCount span).toNat = ⌈(length : ℚ) / period⌉₊) ∧
      (IsClear period length → (task.jobCount span).toNat = ⌈(length : ℚ) / period⌉₊) ∧
      (IsNoise period length → (task.jobCount span).toNat = length / period) ∧
      (0 < length / period ∨ IsClear period length → 0 < (task.jobCount span).toNat) := by
  refine ⟨ceil_eq_ncard ratio.period_pos length, ?_⟩
  by_cases none : length % period = 0
  · have exact_ := ratio.jobCount_of_dvd none
    rw [ceil_of_dvd ratio.period_pos none, exact_]
    exact ⟨Or.inl rfl, fun _ => rfl, fun _ => rfl, fun _ => ratio.periods_pos_of_dvd none⟩
  · have small := ratio.periods_lt none
    have between := (jobCount_of_between ratio.moving ratio.lasting ratio.isMagnitude_ratio
      (by omega) ratio.periods_le_ratio (ratio.ratio_le_next none)).1
    rw [ceil_of_not_dvd ratio.period_pos none]
    refine ⟨between, ratio.jobCount_of_clear none, ratio.jobCount_of_noise, ?_⟩
    intro some
    rcases some with positive | clear
    · omega
    · rw [ratio.jobCount_of_clear none clear]
      exact Nat.succ_pos _

/-- A period of four in a span of five releases two jobs, and in a span of one it releases a job. So
does a period of 999999999, the longest for which a span of one is not noise. A period of five in a
span of 5000000001 is taken to be over after a thousand million jobs. -/
theorem jobCount_rounds_up_four :
    ((Task.periodic 1 (.ofNat 4) (.point .one)).jobCount (.ofNat 5)).toNat = ⌈(5 : ℚ) / 4⌉₊ ∧
      0 < ((Task.periodic 1 (.ofNat 4) (.point .one)).jobCount (.ofNat 1)).toNat ∧
      0 < ((Task.periodic 1 (.ofNat 999999999) (.point .one)).jobCount (.ofNat 1)).toNat ∧
      ((Task.periodic 1 (.ofNat 5) (.point .one)).jobCount (.ofNat 5000000001)).toNat =
        5000000001 / 5 := by
  have four := hasWholeRatio_periodic 1 (.point .one) (show 0 < 4 by decide) (by decide)
    (show 0 < 5 by decide) (by decide)
  have short := hasWholeRatio_periodic 1 (.point .one) (show 0 < 4 by decide) (by decide)
    (show 0 < 1 by decide) (by decide)
  have long := hasWholeRatio_periodic 1 (.point .one) (show 0 < 999999999 by decide) (by decide)
    (show 0 < 1 by decide) (by decide)
  have five := hasWholeRatio_periodic 1 (.point .one) (show 0 < 5 by decide) (by decide)
    (show 0 < 5000000001 by decide) (by decide)
  exact ⟨(jobCount_rounds_up four).2.2.1 (by decide +kernel),
    (jobCount_rounds_up short).2.2.2.2 (Or.inr (by decide +kernel)),
    (jobCount_rounds_up long).2.2.2.2 (Or.inr (by decide +kernel)),
    (jobCount_rounds_up five).2.2.2.1 (by decide +kernel)⟩

/-- The jobs are not always the quotient rounded up, as the tolerance grows with the quotient. -/
theorem jobCount_ne_ceil : ¬ ∀ (task : Task) (span : Binary64) (period length : Nat),
    task.HasWholeRatio span period length →
      (task.jobCount span).toNat = ⌈(length : ℚ) / period⌉₊ := by
  intro always
  have five := hasWholeRatio_periodic 1 (.point .one) (show 0 < 5 by decide) (by decide)
    (show 0 < 5000000001 by decide) (by decide)
  have count : ((Task.periodic 1 (.ofNat 5) (.point .one)).jobCount
      (.ofNat 5000000001)).toNat = 1000000000 := by decide +kernel
  have same := always _ _ _ _ five
  rw [count, ceil_of_not_dvd five.period_pos (by decide)] at same
  exact absurd same (by decide)

end Task

end PeriodicJobs
