import Mathlib.Tactic.Linarith
import PeriodicJobs.Proofs.Binary64.Places

set_option autoImplicit false

/- The nearest whole number and the nearest place. Both depend on the quotient only and grow with
it, and what lies on a place already is kept. -/
namespace PeriodicJobs.Binary64

theorem roundHalfEven_mul (whole : Nat) {den : Nat} (positive : 0 < den) :
    roundHalfEven (whole * den) den = whole := by
  simp only [roundHalfEven, Nat.mul_div_cancel _ positive, Nat.mul_mod_left, Nat.mul_zero, positive,
    true_or, ↓reduceIte]

theorem roundHalfEven_le (num den : Nat) :
    2 * roundHalfEven num den * den ≤ 2 * num + den := by
  have split := Nat.div_add_mod num den
  have expand : 2 * (num / den) * den = 2 * (den * (num / den)) := by ring
  have step : 2 * (num / den + 1) * den = 2 * (den * (num / den)) + 2 * den := by ring
  simp only [roundHalfEven]
  split <;> omega

theorem le_roundHalfEven (num : Nat) {den : Nat} (positive : 0 < den) :
    2 * num ≤ 2 * roundHalfEven num den * den + den := by
  have split := Nat.div_add_mod num den
  have below := Nat.mod_lt num positive
  have expand : 2 * (num / den) * den = 2 * (den * (num / den)) := by ring
  have step : 2 * (num / den + 1) * den = 2 * (den * (num / den)) + 2 * den := by ring
  simp only [roundHalfEven]
  split <;> omega

theorem div_le_div_of_cross {num den num' den' : Nat} (positive : 0 < den) (positive' : 0 < den')
    (le : num * den' ≤ num' * den) : num / den ≤ num' / den' := by
  rw [Nat.le_div_iff_mul_le positive']
  apply Nat.le_of_mul_le_mul_right _ positive
  calc num / den * den' * den = num / den * den * den' := by ring
    _ ≤ num * den' := Nat.mul_le_mul_right _ (Nat.div_mul_le_self num den)
    _ ≤ num' * den := le

theorem roundHalfEven_mono {num den num' den' : Nat} (positive : 0 < den) (positive' : 0 < den')
    (le : num * den' ≤ num' * den) : roundHalfEven num den ≤ roundHalfEven num' den' := by
  have wholes := div_le_div_of_cross positive positive' le
  by_cases same : num / den = num' / den'
  · have split := Nat.div_add_mod num den
    have split' := Nat.div_add_mod num' den'
    -- With equal whole parts the remainders compare as the quotients do.
    have rests : 2 * (num % den) * den' ≤ 2 * (num' % den') * den := by
      rw [← split, ← split', same] at le
      linarith [le]
    have low : 2 * (num' % den') < den' → 2 * (num % den) < den := by
      intro below
      apply Nat.lt_of_mul_lt_mul_right (a := den')
      calc 2 * (num % den) * den' ≤ 2 * (num' % den') * den := rests
        _ < den' * den := Nat.mul_lt_mul_of_pos_right below positive
        _ = den * den' := Nat.mul_comm _ _
    have tie : 2 * (num' % den') = den' → 2 * (num % den) ≤ den := by
      intro half
      apply Nat.le_of_mul_le_mul_right _ positive'
      rw [half] at rests
      linarith
    simp only [roundHalfEven, same]
    split <;> split <;> omega
  · simp only [roundHalfEven]
    split <;> split <;> omega

/-- How often the spacing has doubled where a quotient lies. -/
def nearestDoublings (num den : Nat) : Nat := (num / den).log2 - 52

theorem nearestPlace_eq (num den : Nat) :
    nearestPlace num den = nearestDoublings num den * 2 ^ 52 +
      roundHalfEven num (den * 2 ^ nearestDoublings num den) := rfl

theorem log2_mono {m n : Nat} (le : m ≤ n) : m.log2 ≤ n.log2 := by
  by_cases zero : m = 0
  · simp [zero]
  · exact (Nat.le_log2 (by omega)).2 (Nat.le_trans (Nat.log2_self_le zero) le)

theorem nearestDoublings_mono {num den num' den' : Nat} (positive : 0 < den)
    (positive' : 0 < den') (le : num * den' ≤ num' * den) :
    nearestDoublings num den ≤ nearestDoublings num' den' := by
  have logs := log2_mono (div_le_div_of_cross positive positive' le)
  simp only [nearestDoublings]
  omega

theorem lt_of_nearestDoublings (num : Nat) {den : Nat} (positive : 0 < den) :
    num < 2 ^ 53 * (den * 2 ^ nearestDoublings num den) := by
  have quotient : num / den < 2 ^ (53 + nearestDoublings num den) := by
    apply Nat.lt_of_lt_of_le (Nat.lt_log2_self (n := num / den))
    apply Nat.pow_le_pow_right (by decide)
    simp only [nearestDoublings]
    omega
  rw [Nat.div_lt_iff_lt_mul positive, Nat.pow_add] at quotient
  linarith

theorem le_of_nearestDoublings (num : Nat) {den : Nat} (positive : 0 < den)
    (doubled : nearestDoublings num den ≠ 0) :
    2 ^ 52 * (den * 2 ^ nearestDoublings num den) ≤ num := by
  have nonzero : num / den ≠ 0 := by
    intro zero
    simp [nearestDoublings, zero] at doubled
  have quotient : 2 ^ (52 + nearestDoublings num den) ≤ num / den := by
    have exponent : 52 + nearestDoublings num den = (num / den).log2 := by
      simp only [nearestDoublings] at *
      omega
    rw [exponent]
    exact Nat.log2_self_le nonzero
  rw [Nat.le_div_iff_mul_le positive, Nat.pow_add] at quotient
  linarith

theorem roundHalfEven_nearest_le (num : Nat) {den : Nat} (positive : 0 < den) :
    roundHalfEven num (den * 2 ^ nearestDoublings num den) ≤ 2 ^ 53 := by
  have spacing := Nat.mul_pos positive (Nat.two_pow_pos (nearestDoublings num den))
  have below := lt_of_nearestDoublings num positive
  calc roundHalfEven num (den * 2 ^ nearestDoublings num den)
      ≤ roundHalfEven (2 ^ 53 * 1) 1 := roundHalfEven_mono spacing Nat.one_pos (by omega)
    _ = 2 ^ 53 := roundHalfEven_mul _ Nat.one_pos

theorem le_roundHalfEven_nearest (num : Nat) {den : Nat} (positive : 0 < den) :
    nearestDoublings num den = 0 ∨
      2 ^ 52 ≤ roundHalfEven num (den * 2 ^ nearestDoublings num den) := by
  by_cases doubled : nearestDoublings num den = 0
  · exact Or.inl doubled
  · have spacing := Nat.mul_pos positive (Nat.two_pow_pos (nearestDoublings num den))
    have above := le_of_nearestDoublings num positive doubled
    apply Or.inr
    calc 2 ^ 52 = roundHalfEven (2 ^ 52 * 1) 1 := (roundHalfEven_mul _ Nat.one_pos).symm
      _ ≤ roundHalfEven num (den * 2 ^ nearestDoublings num den) :=
        roundHalfEven_mono Nat.one_pos spacing (by omega)

theorem unitsAt_nearestPlace (num : Nat) {den : Nat} (positive : 0 < den) :
    unitsAt (nearestPlace num den) =
      roundHalfEven num (den * 2 ^ nearestDoublings num den) * 2 ^ nearestDoublings num den := by
  rw [nearestPlace_eq]
  exact unitsAt_grid _ _ (roundHalfEven_nearest_le num positive)
    (le_roundHalfEven_nearest num positive)

theorem nearestPlace_mono {num den num' den' : Nat} (positive : 0 < den) (positive' : 0 < den')
    (le : num * den' ≤ num' * den) : nearestPlace num den ≤ nearestPlace num' den' := by
  have doubled := nearestDoublings_mono positive positive' le
  rw [nearestPlace_eq, nearestPlace_eq]
  by_cases same : nearestDoublings num den = nearestDoublings num' den'
  · rw [same]
    apply Nat.add_le_add_left
    have power := Nat.two_pow_pos (nearestDoublings num' den')
    apply roundHalfEven_mono (Nat.mul_pos positive power) (Nat.mul_pos positive' power)
    calc num * (den' * 2 ^ nearestDoublings num' den')
        = num * den' * 2 ^ nearestDoublings num' den' := by ring
      _ ≤ num' * den * 2 ^ nearestDoublings num' den' := Nat.mul_le_mul_right _ le
      _ = num' * (den * 2 ^ nearestDoublings num' den') := by ring
  · have top := roundHalfEven_nearest_le num positive
    have bottom := le_roundHalfEven_nearest num' positive'
    omega

theorem nearestPlace_congr {num den num' den' : Nat} (positive : 0 < den) (positive' : 0 < den')
    (same : num * den' = num' * den) : nearestPlace num den = nearestPlace num' den' :=
  Nat.le_antisymm (nearestPlace_mono positive positive' same.le)
    (nearestPlace_mono positive' positive same.ge)

theorem nearestDoublings_unitsAt (place : Nat) {den : Nat} (positive : 0 < den) :
    nearestDoublings (unitsAt place * den) den = doublings place := by
  have upper := significand_lt place
  rw [nearestDoublings, Nat.mul_div_cancel _ positive, unitsAt_eq]
  rcases le_significand place with none | lower
  · have small : (significand place).log2 < 53 := by
      by_cases zero : significand place = 0
      · simp [zero]
      · exact (Nat.log2_lt zero).2 upper
    rw [none, Nat.pow_zero, Nat.mul_one]
    omega
  · have log : (significand place * 2 ^ doublings place).log2 = 52 + doublings place := by
      apply (Nat.log2_eq_iff (by positivity)).2
      constructor
      · rw [Nat.pow_add]
        exact Nat.mul_le_mul_right _ lower
      · rw [show 52 + doublings place + 1 = 53 + doublings place by omega, Nat.pow_add]
        exact Nat.mul_lt_mul_of_pos_right upper (Nat.two_pow_pos _)
    omega

/-- A number of the format is its own nearest one. -/
theorem nearestPlace_unitsAt (place : Nat) {den : Nat} (positive : 0 < den) :
    nearestPlace (unitsAt place * den) den = place := by
  have exact_ : unitsAt place * den = significand place * (den * 2 ^ doublings place) := by
    rw [unitsAt_eq]
    ring
  rw [nearestPlace_eq, nearestDoublings_unitsAt place positive, exact_,
    roundHalfEven_mul _ (Nat.mul_pos positive (Nat.two_pow_pos _)), ← place_eq]

theorem nearestPlace_le {num den place : Nat} (positive : 0 < den)
    (le : num ≤ unitsAt place * den) : nearestPlace num den ≤ place := by
  have bound := nearestPlace_mono positive positive (Nat.mul_le_mul_right den le)
  rwa [nearestPlace_unitsAt place positive] at bound

theorem le_nearestPlace {num den place : Nat} (positive : 0 < den)
    (le : unitsAt place * den ≤ num) : place ≤ nearestPlace num den := by
  have bound := nearestPlace_mono positive positive (Nat.mul_le_mul_right den le)
  rwa [nearestPlace_unitsAt place positive] at bound

@[simp] theorem nearestPlace_zero (den : Nat) : nearestPlace 0 den = 0 := by
  simp [nearestPlace_eq, nearestDoublings, roundHalfEven, eq_comm]

end PeriodicJobs.Binary64
