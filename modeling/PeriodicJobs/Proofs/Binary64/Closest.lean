import PeriodicJobs.Proofs.Binary64.Error

set_option autoImplicit false

/- The number that a rounding ends at is a closest one: no other finite number is nearer to the
exact result. -/
namespace PeriodicJobs.Binary64

def gap (a b : Nat) : Nat := a - b + (b - a)

theorem roundHalfEven_closest (num : Nat) {den : Nat} (positive : 0 < den) (other : Nat) :
    gap (roundHalfEven num den * den) num ≤ gap (other * den) num := by
  have upper := roundHalfEven_le num den
  have lower := le_roundHalfEven num positive
  rw [Nat.mul_assoc] at upper lower
  unfold gap
  rcases Nat.lt_trichotomy other (roundHalfEven num den) with below | same | above
  · have apart := Nat.mul_le_mul_right den below
    rw [Nat.succ_mul] at apart
    omega
  · rw [same]
  · have apart := Nat.mul_le_mul_right den above
    rw [Nat.succ_mul] at apart
    omega

/-- A place that is not on the grid of a rounding lies below all of it. -/
theorem unitsAt_grid_or_below (place doubled : Nat) :
    (∃ spacings, unitsAt place = spacings * 2 ^ doubled) ∨
      doubled ≠ 0 ∧ unitsAt place ≤ 2 ^ 52 * 2 ^ doubled := by
  by_cases fine : doublings place < doubled
  · refine .inr ⟨by omega, ?_⟩
    calc unitsAt place = significand place * 2 ^ doublings place := unitsAt_eq place
      _ ≤ 2 ^ 53 * 2 ^ doublings place :=
        Nat.mul_le_mul_right _ (significand_lt place).le
      _ = 2 ^ 52 * 2 ^ (doublings place + 1) := by ring
      _ ≤ 2 ^ 52 * 2 ^ doubled := Nat.mul_le_mul_left _ (Nat.pow_le_pow_right (by decide) fine)
  · refine .inl ⟨significand place * 2 ^ (doublings place - doubled), ?_⟩
    rw [unitsAt_eq, Nat.mul_assoc, ← Nat.pow_add, Nat.sub_add_cancel (Nat.not_lt.1 fine)]

theorem nearestPlace_closest (num : Nat) {den : Nat} (positive : 0 < den) (place : Nat) :
    gap (unitsAt (nearestPlace num den) * den) num ≤ gap (unitsAt place * den) num := by
  have spacing := Nat.mul_pos positive (Nat.two_pow_pos (nearestDoublings num den))
  have onGrid (spacings : Nat) : spacings * 2 ^ nearestDoublings num den * den =
      spacings * (den * 2 ^ nearestDoublings num den) := by ring
  have closest := roundHalfEven_closest num spacing
  rw [unitsAt_nearestPlace num positive, onGrid]
  rcases unitsAt_grid_or_below place (nearestDoublings num den) with
    ⟨spacings, units⟩ | ⟨doubled, below⟩
  · rw [units, onGrid]
    exact closest spacings
  · -- The least number of the grid stands between such a place and the exact result.
    have least := le_of_nearestDoublings num positive doubled
    have under := Nat.mul_le_mul_right den below
    rw [onGrid] at under
    refine Nat.le_trans (closest (2 ^ 52)) ?_
    unfold gap
    omega

/-- A finite number than which none is nearer to a rational one. -/
structure IsClosest (x : Binary64) (r : ℚ) : Prop where
  finite : x.isFinite = true
  closest : ∀ y : Binary64, y.isFinite = true → |x.value - r| ≤ |y.value - r|

theorem abs_sub_eq_gap (a b : Nat) : |(a : ℚ) - b| = gap a b := by
  rcases Nat.le_total a b with le | le
  · have lower : (a : ℚ) ≤ b := by exact_mod_cast le
    rw [gap, Nat.sub_eq_zero_of_le le, Nat.zero_add, Nat.cast_sub le, abs_sub_comm,
      abs_of_nonneg (sub_nonneg.2 lower)]
  · have upper : (b : ℚ) ≤ a := by exact_mod_cast le
    rw [gap, Nat.sub_eq_zero_of_le le, Nat.add_zero, Nat.cast_sub le,
      abs_of_nonneg (sub_nonneg.2 upper)]

theorem abs_value_sub {p : Nat} {h : p ≤ infinityPlace} (num : Nat) {den : Nat}
    (positive : 0 < den) :
    |(number false p h).value - (num : ℚ) / den| =
      (gap (unitsAt p * den) (num * unitsPerOne) : ℚ) / (unitsPerOne * den) := by
  have divisor : (0 : ℚ) < den := by exact_mod_cast positive
  have whole : (unitsAt p : ℚ) * den - unitsPerOne * num =
      (unitsAt p * den : ℕ) - (num * unitsPerOne : ℕ) := by
    push_cast
    ring
  rw [value_number, div_sub_div _ _ units_pos.ne' divisor.ne', abs_div,
    abs_of_pos (mul_pos units_pos divisor), whole, abs_sub_eq_gap]

/-- A negative number is farther from one that is not negative than the same number without its
sign. -/
theorem abs_value_le (s : Bool) {p : Nat} {h : p ≤ infinityPlace} {r : ℚ} (natural : 0 ≤ r) :
    |(number false p h).value - r| ≤ |(number s p h).value - r| := by
  cases s with
  | false => exact le_refl _
  | true =>
    have negated : (number true p h).value = -(number false p h).value := by
      rw [value_number, value, signedUnits, if_pos rfl, Int.cast_neg, Int.cast_natCast, neg_div]
    have nonneg : 0 ≤ (number false p h).value := by
      rw [value_number]
      exact div_nonneg (Nat.cast_nonneg _) units_pos.le
    rw [negated, abs_le]
    have far : -(number false p h).value - r ≤ 0 := by linarith
    rw [abs_of_nonpos far]
    constructor <;> linarith

/-- A quotient within the range is rounded to a closest number. -/
theorem isClosest_ofRatio {num den : Nat} (positive : 0 < den)
    (finite : (ofRatio false num den).isFinite = true) :
    (ofRatio false num den).IsClosest (num / den) where
  finite := finite
  closest := by
    rintro (s | ⟨s, p, h⟩) number
    · cases number
    · have fits : nearestPlace (num * unitsPerOne) den ≤ infinityPlace := by
        simp only [ofRatio, ofUnits, ofPlace, isFinite, decide_eq_true_eq] at finite
        omega
      have divisor : (0 : ℚ) < den := by exact_mod_cast positive
      have closest := nearestPlace_closest (num * unitsPerOne) positive p
      refine le_trans ?_ (abs_value_le s (by positivity))
      rw [ofRatio, ofUnits, ofPlace_place false fits, abs_value_sub num positive,
        abs_value_sub num positive, div_le_div_iff_of_pos_right (mul_pos units_pos divisor)]
      exact_mod_cast closest

/-- A natural number within the range is converted to a closest number. -/
theorem isClosest_ofNat {n : Nat} (finite : (ofNat n).isFinite = true) :
    (ofNat n).IsClosest n := by
  have closest := isClosest_ofRatio Nat.one_pos finite
  rwa [Nat.cast_one, div_one] at closest

theorem isClosest_ofUInt64 (n : UInt64) : (ofUInt64 n).IsClosest n.toNat :=
  isClosest_ofNat (isFinite_ofUInt64 n)

end PeriodicJobs.Binary64
