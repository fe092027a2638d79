import PeriodicJobs.Proofs.Binary64.Closest
import PeriodicJobs.Proofs.Binary64.Overflow

set_option autoImplicit false

/- Correct rounding, said of values alone. What a quotient is rounded to is nearest to it, and of two
numbers that are equally near it is the one whose last bit is zero. -/
namespace PeriodicJobs.Binary64

/-- Whether the last bit of a number is zero, which it is for every other number of one sign. -/
def IsEven : Binary64 → Prop
  | .number _ place _ => place % 2 = 0
  | .nan _ => False

/-- The number that a rational number, not below zero, is rounded to: infinity from the bound of the
format on, and below it a closest number, where a tie goes to the even one. -/
structure IsRounded (x : Binary64) (r : ℚ) : Prop where
  unsigned : x.IsUnsigned
  finite_iff : x.isFinite = true ↔ r < overflowBound
  closest : x.isFinite = true → x.IsClosest r
  even : x.isFinite = true → ∀ y : Binary64, y.IsMagnitude → y ≠ x →
    |y.value - r| = |x.value - r| → x.IsEven

/-- A whole number that is as near as the one that is rounded to shows that this one is even. -/
theorem roundHalfEven_even {num den other : Nat} (positive : 0 < den)
    (differ : other ≠ roundHalfEven num den)
    (tie : gap (other * den) num = gap (roundHalfEven num den * den) num) :
    roundHalfEven num den % 2 = 0 := by
  have split := Nat.div_add_mod num den
  have below := Nat.mod_lt num positive
  rw [Nat.mul_comm] at split
  unfold gap at tie
  unfold roundHalfEven at differ tie ⊢
  by_cases down : 2 * (num % den) < den ∨ 2 * (num % den) = den ∧ num / den % 2 = 0
  · simp only [down, ↓reduceIte] at differ tie ⊢
    by_cases less : other < num / den
    · have apart := Nat.mul_le_mul_right den less
      rw [Nat.succ_mul] at apart
      omega
    · have apart := Nat.mul_le_mul_right den (show num / den + 1 ≤ other by omega)
      rw [Nat.succ_mul] at apart
      omega
  · simp only [down, ↓reduceIte] at differ tie ⊢
    rw [Nat.succ_mul] at tie
    by_cases less : other ≤ num / den
    · have apart := Nat.mul_le_mul_right den less
      omega
    · have apart := Nat.mul_le_mul_right den (show num / den + 1 + 1 ≤ other by omega)
      rw [Nat.succ_mul, Nat.succ_mul] at apart
      omega

theorem nearestPlace_even {num den place : Nat} (positive : 0 < den)
    (differ : place ≠ nearestPlace num den)
    (tie : gap (unitsAt place * den) num = gap (unitsAt (nearestPlace num den) * den) num) :
    nearestPlace num den % 2 = 0 := by
  have spacing := Nat.mul_pos positive (Nat.two_pow_pos (nearestDoublings num den))
  have onGrid (spacings : Nat) : spacings * 2 ^ nearestDoublings num den * den =
      spacings * (den * 2 ^ nearestDoublings num den) := by ring
  have units : unitsAt place ≠ unitsAt (nearestPlace num den) :=
    unitsAt_strictMono.injective.ne differ
  have grid {spacings : Nat} (same : unitsAt place = spacings * 2 ^ nearestDoublings num den) :
      nearestPlace num den % 2 = 0 := by
    rw [unitsAt_nearestPlace num positive] at units tie
    rw [same, onGrid, onGrid] at tie
    have differ : spacings ≠ roundHalfEven num (den * 2 ^ nearestDoublings num den) := by
      rintro rfl
      exact units same
    have even := roundHalfEven_even spacing differ tie
    rw [nearestPlace_eq]
    omega
  rcases unitsAt_grid_or_below place (nearestDoublings num den) with ⟨spacings, same⟩ |
    ⟨doubled, below⟩
  · exact grid same
  · -- A place below the grid is only as near if it is the least number of the grid itself.
    have least := le_of_nearestDoublings num positive doubled
    have closest := roundHalfEven_closest num spacing (2 ^ 52)
    have under := Nat.mul_le_mul_right den below
    rw [unitsAt_nearestPlace num positive, onGrid] at tie
    rw [onGrid] at under
    have same : unitsAt place * den = 2 ^ 52 * 2 ^ nearestDoublings num den * den := by
      rw [onGrid]
      unfold gap at closest tie
      omega
    exact grid (Nat.eq_of_mul_eq_mul_right positive same)

/-- A quotient is rounded correctly. -/
theorem isRounded_ofRatio (num : Nat) {den : Nat} (positive : 0 < den) :
    (ofRatio false num den).IsRounded (num / den) where
  unsigned := ⟨_, _, rfl⟩
  finite_iff := isFinite_ofRatio_iff false num positive
  closest := isClosest_ofRatio positive
  even := by
    intro finite y magnitude differ tie
    obtain ⟨p, hp, rfl, below⟩ := magnitude.exists_place
    have fits : nearestPlace (num * unitsPerOne) den ≤ infinityPlace := by
      simp only [ofRatio, ofUnits, ofPlace, isFinite, decide_eq_true_eq] at finite
      omega
    have divisor : (0 : ℚ) < den := by exact_mod_cast positive
    rw [ofRatio, ofUnits, ofPlace_place false fits] at differ tie ⊢
    rw [abs_value_sub num positive, abs_value_sub num positive,
      div_left_inj' (mul_pos units_pos divisor).ne'] at tie
    refine nearestPlace_even positive (fun same => differ ?_) (by exact_mod_cast tie)
    simp only [same]

/-- Of two numbers at the same distance one is on either side, and what is between them is nearer. -/
theorem abs_sub_lt_of_between {a b c r : ℚ} (low : a < b) (high : b < c)
    (tie : |c - r| = |a - r|) : |b - r| < |a - r| := by
  rcases abs_eq_abs.1 tie with same | opposite
  · linarith
  · have side : a - r < 0 := by linarith
    rw [abs_of_neg side, abs_lt]
    constructor <;> linarith

/-- Two even places have one between them. -/
theorem not_lt_of_even {p q : Nat} {hp : p ≤ infinityPlace} {hq : q ≤ infinityPlace} {r : ℚ}
    (closest : (number false p hp).IsClosest r) (even : p % 2 = 0) (even' : q % 2 = 0)
    (tie : |(number false q hq).value - r| = |(number false p hp).value - r|) : ¬ p < q := by
  intro below
  have inside : p + 1 < infinityPlace := by omega
  have low : (number false p hp).value < (number false (p + 1) inside.le).value := by
    rw [← not_le, value_le_iff, unsigned_le_unsigned]
    omega
  have high : (number false (p + 1) inside.le).value < (number false q hq).value := by
    rw [← not_le, value_le_iff, unsigned_le_unsigned]
    omega
  have finite : (number false (p + 1) inside.le).isFinite = true := decide_eq_true inside
  exact absurd (closest.closest _ finite) (not_le.2 (abs_sub_lt_of_between low high tie))

/-- There is one correct rounding. -/
theorem IsRounded.unique {x y : Binary64} {r : ℚ} (left : x.IsRounded r) (right : y.IsRounded r) :
    x = y := by
  by_cases finite : x.isFinite = true
  · have finite' := right.finite_iff.2 (left.finite_iff.1 finite)
    have closest := left.closest finite
    have closest' := right.closest finite'
    have tie := le_antisymm (closest'.closest x finite) (closest.closest y finite')
    by_contra differ
    have even := left.even finite y ⟨right.unsigned, finite'⟩ (Ne.symm differ) tie
    have even' := right.even finite' x ⟨left.unsigned, finite⟩ differ tie.symm
    obtain ⟨p, hp, rfl⟩ := left.unsigned
    obtain ⟨q, hq, rfl⟩ := right.unsigned
    have above := not_lt_of_even closest even even' tie
    have below := not_lt_of_even closest' even' even tie.symm
    obtain rfl : p = q := by omega
    exact differ rfl
  · have infinite' : ¬ y.isFinite = true := fun finite' =>
      finite (left.finite_iff.2 (right.finite_iff.1 finite'))
    rw [left.unsigned.eq_infinity (Bool.eq_false_iff.2 finite),
      right.unsigned.eq_infinity (Bool.eq_false_iff.2 infinite')]

end PeriodicJobs.Binary64
