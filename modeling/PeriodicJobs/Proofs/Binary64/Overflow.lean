import PeriodicJobs.Proofs.Binary64.Error

set_option autoImplicit false

/- Where numbers end. Half a spacing below the place of infinity lies the least quotient that is
rounded to infinity, since the tie there goes to the even place. -/
namespace PeriodicJobs.Binary64

/-- The least number that is rounded to infinity: 2^1024 less half of the last spacing. -/
def overflowBound : Nat := Nat.pow 2 1024 - Nat.pow 2 970

/-- The bound is half of the last spacing below the place of infinity, and is rounded to it. -/
theorem overflowBound_spec :
    2 * unitsAt infinityPlace = 2 * (overflowBound * unitsPerOne) + 2 ^ 2045 ∧
      nearestPlace (overflowBound * unitsPerOne) 1 = infinityPlace ∧
      nearestDoublings (overflowBound * unitsPerOne) 1 = 2045 := by decide +kernel

/-- A quotient is rounded to a finite number just if it is below the bound. -/
theorem nearestPlace_lt_infinityPlace_iff (num : Nat) {den : Nat} (positive : 0 < den) :
    nearestPlace num den < infinityPlace ↔ num < overflowBound * unitsPerOne * den := by
  obtain ⟨top, bound, doubled⟩ := overflowBound_spec
  generalize overflowBound * unitsPerOne = least at *
  constructor
  · intro finite
    by_contra above
    have reached : nearestPlace least 1 ≤ nearestPlace num den :=
      nearestPlace_mono Nat.one_pos positive (by omega)
    omega
  · intro below
    by_contra infinite
    have spacing : 2 ^ nearestDoublings num den ≤ 2 ^ 2045 := by
      rw [← doubled]
      exact Nat.pow_le_pow_right (by decide)
        (nearestDoublings_mono positive Nat.one_pos (by omega))
    generalize 2 ^ 2045 = last at *
    have reached : unitsAt infinityPlace ≤ unitsAt (nearestPlace num den) :=
      unitsAt_le_iff.2 (by omega)
    have rounded := roundHalfEven_le num (den * 2 ^ nearestDoublings num den)
    rw [unitsAt_nearestPlace num positive] at reached
    have crossed : (2 * least + last) * den ≤ 2 * num + den * last := by
      calc (2 * least + last) * den = 2 * unitsAt infinityPlace * den := by rw [top]
        _ ≤ 2 * (roundHalfEven num (den * 2 ^ nearestDoublings num den) *
            2 ^ nearestDoublings num den) * den := by gcongr
        _ = 2 * roundHalfEven num (den * 2 ^ nearestDoublings num den) *
            (den * 2 ^ nearestDoublings num den) := by ring
        _ ≤ 2 * num + den * 2 ^ nearestDoublings num den := rounded
        _ ≤ 2 * num + den * last := by gcongr
    have sum : (2 * least + last) * den = 2 * (least * den) + den * last := by ring
    omega

/-- A quotient of any sign is rounded to a finite number just if it is below the bound. -/
theorem isFinite_ofRatio_iff (s : Bool) (num : Nat) {den : Nat} (positive : 0 < den) :
    (ofRatio s num den).isFinite = true ↔ (num : ℚ) / den < overflowBound := by
  have place : (ofRatio s num den).isFinite = true ↔
      nearestPlace (num * unitsPerOne) den < infinityPlace := by
    simp only [ofRatio, ofUnits, ofPlace, isFinite, decide_eq_true_eq]
    omega
  rw [place, nearestPlace_lt_infinityPlace_iff _ positive,
    div_lt_iff₀ (by exact_mod_cast positive), Nat.mul_right_comm,
    Nat.mul_lt_mul_right unitsPerOne_pos]
  exact_mod_cast Iff.rfl

theorem IsMagnitude.value_lt {x : Binary64} (magnitude : x.IsMagnitude) :
    x.value < overflowBound := by
  obtain ⟨p, hp, rfl, below⟩ := magnitude.exists_place
  rw [← nearestPlace_unitsAt p Nat.one_pos, nearestPlace_lt_infinityPlace_iff _ Nat.one_pos,
    Nat.mul_one, Nat.mul_one] at below
  rw [value_number, div_lt_iff₀ units_pos]
  exact_mod_cast below

/-- A product overflows just if the exact one reaches the bound. -/
theorem isFinite_mul_iff {x y : Binary64} (left : x.IsMagnitude) (right : y.IsMagnitude) :
    (x * y).isFinite = true ↔ x.value * y.value < overflowBound := by
  obtain ⟨p, hp, rfl, belowP⟩ := left.exists_place
  obtain ⟨q, hq, rfl, belowQ⟩ := right.exists_place
  have place : (ofUnits false (unitsAt p * unitsAt q) unitsPerOne).isFinite = true ↔
      nearestPlace (unitsAt p * unitsAt q) unitsPerOne < infinityPlace := by
    simp only [ofUnits, ofPlace, isFinite, decide_eq_true_eq]
    omega
  rw [mul_number belowP belowQ, place, nearestPlace_lt_infinityPlace_iff _ unitsPerOne_pos,
    value_number, value_number, div_mul_div_comm, div_lt_iff₀ (mul_pos units_pos units_pos),
    Nat.mul_assoc]
  exact_mod_cast Iff.rfl

end PeriodicJobs.Binary64
