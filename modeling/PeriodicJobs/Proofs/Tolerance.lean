import PeriodicJobs.Proofs.Binary64.Error
import PeriodicJobs.Task

set_option autoImplicit false

/- The test for whole numbers. It is computed on rounded numbers, so it is decided by the exact
distance only outside of a small band around the tolerance. -/
namespace PeriodicJobs.Binary64

/-- One part in a thousand million, not rounded. -/
def slack : ℚ := 1 / 10 ^ 9

/-- How far rounding can shift the edge of the tolerance, as a part of it. -/
def band : ℚ := 1 / 2 ^ 50

theorem isMagnitude_tolerance : tolerance.IsMagnitude := ⟨⟨_, _, rfl⟩, isFinite_tolerance⟩

theorem isNear_tolerance : IsNear roundoff tolerance.value slack := by
  have fine : 2 ^ 52 * 1000000000 ≤ 1 * unitsPerOne := by
    have range : 2 ^ 82 ≤ unitsPerOne := two_pow_le_unitsPerOne (by decide)
    omega
  have near := isNear_ofUnits (by decide) (Or.inr fine) isFinite_tolerance
  have exact_ : ((1 * unitsPerOne : Nat) : ℚ) / ((1000000000 : Nat) * unitsPerOne) = slack := by
    rw [Nat.cast_mul, mul_div_mul_right _ _ units_pos.ne', slack]
    norm_num
  rwa [exact_] at near

theorem tolerance_le_one : tolerance.value ≤ 1 := by
  have near := abs_le.1 isNear_tolerance
  norm_num [slack, roundoff] at near
  linarith

theorem slack_le_tolerance : slack ≤ tolerance.value := by decide +kernel

/-- The distance that the test allows is near to the tolerance of the whole number. -/
theorem isNear_allowance {whole : Binary64} {n : Nat} (exact_ : whole.IsWhole n)
    (magnitude : whole.IsMagnitude) :
    IsNear roundoff (tolerance * whole).value (tolerance.value * n) := by
  rw [← exact_.value_eq]
  exact isNear_mul isMagnitude_tolerance magnitude (Or.inr ⟨n, exact_⟩)
    (isMagnitude_mul isMagnitude_tolerance magnitude tolerance_le_one).2

/-- Only finite numbers pass the test. -/
theorem isFinite_of_isNearlyWhole {x : Binary64} (near : x.isNearlyWhole = true) :
    x.isFinite = true := by
  cases x with
  | nan s => cases s <;> cases near
  | number s p h =>
    by_contra infinite
    have top : p = infinityPlace := by
      simp only [isFinite, decide_eq_true_eq] at infinite
      omega
    subst top
    have same : (number s infinityPlace h).round = .number s infinityPlace h := by
      rw [round, if_pos rfl]
    have undefined : (number s infinityPlace h - number s infinityPlace h).abs = .nan false := by
      change (sub _ _).abs = _
      cases s <;> simp [sub, neg, add, abs]
    rw [isNearlyWhole, same, undefined] at near
    exact absurd (of_decide_eq_true near) fun le => by cases le

/-- A number that passes the test and does not round below one is positive. -/
theorem isMagnitude_of_test {x : Binary64} (near : x.isNearlyWhole = true)
    (least : ¬ x.round < one) : x.IsMagnitude := by
  have finite := isFinite_of_isNearlyWhole near
  refine ⟨?_, finite⟩
  cases x with
  | nan s => cases finite
  | number s p h =>
    cases s with
    | false => exact ⟨p, h, rfl⟩
    | true =>
      refine absurd ?_ least
      have below : p < infinityPlace := of_decide_eq_true finite
      obtain ⟨q, hq, same, units⟩ := isWhole_one
      have positive : 0 < q := by
        rw [← unitsAt_pos_iff, units, Nat.one_mul]
        exact unitsPerOne_pos
      rw [round, if_neg below.ne, same, ofRatio, ofUnits, ofPlace, number_lt_number]
      simp only [signedPlace, ↓reduceIte, Bool.false_eq_true]
      omega

section

variable {x : Binary64} {n : Nat} (magnitude : x.IsMagnitude) (whole : x.round.IsWhole n)
  (rounded : x.round.IsMagnitude)

include magnitude rounded

/-- The two sides of the test and how near they are to the exact ones. -/
theorem isNearlyWhole_iff : x.isNearlyWhole = true ↔
    (x - x.round).abs.value ≤ (tolerance * x.round.max one).value := by
  rw [isNearlyWhole, decide_eq_true_eq]
  exact ((isNear_distance magnitude rounded).1.value_le_iff
    (isMagnitude_mul isMagnitude_tolerance (rounded.max isMagnitude_one) tolerance_le_one)).symm

include whole

/-- Clearly within the tolerance. -/
theorem isNearlyWhole_of_close
    (close : |x.value - n| ≤ slack * (1 - band) * (Max.max n 1 : Nat)) :
    x.isNearlyWhole = true := by
  have distance := (isNear_distance magnitude rounded).2
  have allowance := isNear_allowance (whole.max isWhole_one) (rounded.max isMagnitude_one)
  rw [whole.value_eq] at distance
  have tolerated := isNear_tolerance
  rw [isNearlyWhole_iff magnitude rounded]
  generalize Max.max n 1 = scale at *
  have count : (0 : ℚ) ≤ scale := Nat.cast_nonneg scale
  simp only [IsNear, abs_le] at distance allowance tolerated
  have least : slack * (1 - roundoff) * scale ≤ tolerance.value * scale :=
    mul_le_mul_of_nonneg_right (by linarith) count
  norm_num [slack, roundoff, band] at *
  linarith

/-- The test leaves no number that is clearly out of the tolerance. -/
theorem close_of_isNearlyWhole (near : x.isNearlyWhole = true) :
    |x.value - n| ≤ slack * (1 + band) * (Max.max n 1 : Nat) := by
  have distance := (isNear_distance magnitude rounded).2
  have allowance := isNear_allowance (whole.max isWhole_one) (rounded.max isMagnitude_one)
  rw [whole.value_eq] at distance
  have tolerated := isNear_tolerance
  rw [isNearlyWhole_iff magnitude rounded] at near
  have nonneg := abs_nonneg (x.value - n)
  generalize |x.value - n| = d at *
  generalize Max.max n 1 = scale at *
  have count : (0 : ℚ) ≤ scale := Nat.cast_nonneg scale
  simp only [IsNear, abs_le] at distance allowance tolerated
  have most : tolerance.value * scale ≤ slack * (1 + roundoff) * scale :=
    mul_le_mul_of_nonneg_right (by linarith) count
  norm_num [slack, roundoff, band] at *
  linarith

end

theorem tolerance_mul_one : tolerance * zero.max one = tolerance := by decide +kernel

/-- A number that is not above 2^50, and the whole number below it, on a common denominator. It has
the bits of a significand, and the whole number is in eighths. -/
theorem exists_fraction {x : Binary64} {n : Nat} (magnitude : x.IsMagnitude) (small : n ≤ 2 ^ 50)
    (lower : (n : ℚ) ≤ x.value) (upper : x.value < n + 1) :
    ∃ num den : Nat, 0 < den ∧ x.value = num / den ∧ num < 2 ^ 53 ∧ 8 ∣ n * den := by
  obtain ⟨p, h, rfl, _⟩ := magnitude.exists_place
  rw [value_number, le_div_iff₀ units_pos] at lower
  rw [value_number, div_lt_iff₀ units_pos] at upper
  have lower' : n * unitsPerOne ≤ unitsAt p := by exact_mod_cast lower
  have upper' : unitsAt p < (n + 1) * unitsPerOne := by exact_mod_cast upper
  have most : doublings p ≤ 1072 := by
    have high : unitsAt p < unitsAt (1074 * 2 ^ 52) := by
      rw [unitsAt_wholePower (show 1073 + 52 = 51 + 1074 from rfl)]
      exact Nat.lt_of_lt_of_le upper' (Nat.mul_le_mul_right _ (by omega))
    rw [unitsAt_strictMono.lt_iff_lt] at high
    rw [doublings_eq]
    omega
  -- Only 2^50 itself is followed by numbers in quarters.
  have fine : doublings p ≤ 1071 ∨ n = 2 ^ 50 := by
    by_cases coarse : 1073 * 2 ^ 52 ≤ p
    · apply Or.inr
      rw [← unitsAt_le_iff, unitsAt_wholePower (show 1072 + 52 = 50 + 1074 from rfl)] at coarse
      have above := Nat.lt_of_mul_lt_mul_right (Nat.lt_of_le_of_lt coarse upper')
      omega
    · apply Or.inl
      rw [doublings_eq]
      omega
  obtain ⟨total, size, one⟩ : ∃ total, total = 1074 ∧ unitsPerOne = 2 ^ total :=
    ⟨1074, rfl, unitsPerOne_eq⟩
  have power := Nat.two_pow_pos (total - doublings p)
  have exact_ : unitsAt p * 2 ^ (total - doublings p) = significand p * unitsPerOne := by
    rw [unitsAt_eq, one, Nat.mul_assoc, ← Nat.pow_add, Nat.add_sub_cancel' (by omega)]
  refine ⟨significand p, 2 ^ (total - doublings p), power, ?_, significand_lt p, ?_⟩
  · have power' : (0 : ℚ) < (2 ^ (total - doublings p) : Nat) := by exact_mod_cast power
    rw [value_number, div_eq_div_iff units_pos.ne' power'.ne']
    exact_mod_cast exact_
  · rcases fine with fine | rfl
    · exact Nat.dvd_mul_left_of_dvd (pow_dvd_pow 2 (show 3 ≤ total - doublings p by omega)) n
    · exact Nat.dvd_mul_right_of_dvd (by norm_num) _

/-- The band is narrower than the spacing of such fractions, so none is in it. -/
theorem excess_le_slack {num den n : Nat} (positive : 0 < den) (bits : num < 2 ^ 53)
    (eighths : 8 ∣ n * den) (close : (num / den - n : ℚ) ≤ slack * (1 + band) * n) :
    (num / den - n : ℚ) ≤ slack * n := by
  have den_pos : (0 : ℚ) < den := by exact_mod_cast positive
  have distance : (num / den - n : ℚ) = (num - (n * den : Nat)) / den := by
    rw [sub_div, Nat.cast_mul, mul_div_cancel_right₀ _ den_pos.ne']
  by_contra exceeds
  rw [distance, not_le, lt_div_iff₀ den_pos, mul_assoc, ← Nat.cast_mul] at exceeds
  rw [distance, div_le_iff₀ den_pos, mul_assoc, ← Nat.cast_mul] at close
  obtain ⟨parts, same⟩ := eighths
  rw [same] at exceeds close
  have least : (10 ^ 9 + 1) * (8 * parts) < 10 ^ 9 * num := by
    have scaled : ((10 ^ 9 + 1) * (8 * parts : Nat) : ℚ) < 10 ^ 9 * num := by
      norm_num [slack] at exceeds ⊢
      linarith
    exact_mod_cast scaled
  have most : 2 ^ 50 * 10 ^ 9 * num ≤ (2 ^ 50 * 10 ^ 9 + 2 ^ 50 + 1) * (8 * parts) := by
    have scaled : (2 ^ 50 * 10 ^ 9 * num : ℚ) ≤
        (2 ^ 50 * 10 ^ 9 + 2 ^ 50 + 1) * (8 * parts : Nat) := by
      norm_num [slack, band] at close ⊢
      linarith
    exact_mod_cast scaled
  -- The thousand million is a multiple of eight too, so the first bound is off by eight at least.
  omega

/-- Up to 2^50 a number above a whole one passes the test only within the exact tolerance. -/
theorem sub_le_tolerance {x : Binary64} {n : Nat} (magnitude : x.IsMagnitude)
    (whole : x.round.IsWhole n) (rounded : x.round.IsMagnitude) (near : x.isNearlyWhole = true)
    (small : n ≤ 2 ^ 50) (lower : (n : ℚ) ≤ x.value) (upper : x.value < n + 1) :
    x.value - n ≤ tolerance.value * (Max.max n 1 : Nat) := by
  rcases Nat.eq_zero_or_pos n with rfl | positive
  · -- Around zero neither side of the test is rounded.
    rw [isNearlyWhole_iff magnitude rounded, whole.unique isWhole_zero, abs_sub_zero magnitude,
      tolerance_mul_one] at near
    rw [Nat.max_eq_right Nat.one_pos.le, Nat.cast_zero, Nat.cast_one, sub_zero, mul_one]
    exact near
  · have close := close_of_isNearlyWhole magnitude whole rounded near
    obtain ⟨num, den, den_pos, same, bits, eighths⟩ :=
      exists_fraction magnitude small lower upper
    rw [Nat.max_eq_left (show 1 ≤ n from positive)] at close ⊢
    rw [abs_of_nonneg (sub_nonneg.2 lower), same] at close
    rw [same]
    exact le_trans (excess_le_slack den_pos bits eighths close)
      (mul_le_mul_of_nonneg_right slack_le_tolerance n.cast_nonneg)

end PeriodicJobs.Binary64
