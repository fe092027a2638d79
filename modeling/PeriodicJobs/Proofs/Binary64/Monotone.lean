import PeriodicJobs.Proofs.Binary64.Error

set_option autoImplicit false

/- Operations that keep the order. Each of them rounds an exact result, and rounding keeps the order
of exact results. -/
namespace PeriodicJobs.Binary64

protected theorem le_trans {x y z : Binary64} (first : x ≤ y) (second : y ≤ z) : x ≤ z := by
  obtain ⟨numberX, numberY⟩ := isNumber_of_le first
  obtain ⟨_, numberZ⟩ := isNumber_of_le second
  rw [le_iff_distance numberX numberY] at first
  rw [le_iff_distance numberY numberZ] at second
  rw [le_iff_distance numberX numberZ]
  omega

theorem ofPlace_le_ofPlace {p q : Nat} (le : p ≤ q) : ofPlace false p ≤ ofPlace false q := by
  rw [ofPlace, ofPlace, unsigned_le_unsigned]
  omega

/-- A greater quotient is not rounded to a smaller number. -/
theorem ofUnits_le_ofUnits {num den num' den' : Nat} (positive : 0 < den) (positive' : 0 < den')
    (le : num * den' ≤ num' * den) : ofUnits false num den ≤ ofUnits false num' den' :=
  ofPlace_le_ofPlace (nearestPlace_mono positive positive' le)

/-- Two quotients are told apart when they differ by more than both roundings. -/
theorem nearestPlace_lt_nearestPlace {num num' den : Nat} (positive : 0 < den)
    (fine : den ∣ num ∨ 2 ^ 52 * den ≤ num) (fine' : den ∣ num' ∨ 2 ^ 52 * den ≤ num')
    (apart : (2 ^ 53 + 1) * num < (2 ^ 53 - 1) * num') :
    nearestPlace num den < nearestPlace num' den := by
  have upper := (nearestPlace_error positive fine).1
  have lower := (nearestPlace_error positive fine').2
  apply unitsAt_strictMono.lt_iff_lt.1
  apply Nat.lt_of_mul_lt_mul_right (a := den)
  omega

theorem ofUnits_lt_ofUnits {num num' den : Nat} (positive : 0 < den)
    (fine : den ∣ num ∨ 2 ^ 52 * den ≤ num) (fine' : den ∣ num' ∨ 2 ^ 52 * den ≤ num')
    (apart : (2 ^ 53 + 1) * num < (2 ^ 53 - 1) * num')
    (finite : (ofUnits false num den).isFinite = true) :
    ofUnits false num den < ofUnits false num' den := by
  have places := nearestPlace_lt_nearestPlace positive fine fine' apart
  simp only [ofUnits, ofPlace, isFinite, decide_eq_true_eq] at finite
  rw [ofUnits, ofUnits, ofPlace, ofPlace, number_lt_number]
  simp only [signedPlace, Bool.false_eq_true, ↓reduceIte]
  omega

theorem ofNat_le_ofNat {m n : Nat} (le : m ≤ n) : ofNat m ≤ ofNat n := by
  apply ofUnits_le_ofUnits Nat.one_pos Nat.one_pos
  rw [Nat.mul_one, Nat.mul_one]
  exact Nat.mul_le_mul_right _ le

protected theorem mul_comm (a b : Binary64) : a * b = b * a := by
  change mul a b = mul b a
  cases a with
  | nan => cases b <;> rfl
  | number s p hp =>
  cases b with
  | nan => rfl
  | number t q hq =>
  simp only [mul, or_comm (a := q = infinityPlace), or_comm (a := q = 0), bne_comm (a := t),
    Nat.mul_comm (unitsAt q)]

section

variable {x y w : Binary64}

theorem mul_le_mul_right (left : x.IsMagnitude) (right : y.IsMagnitude) (factor : w.IsMagnitude)
    (le : x ≤ y) : x * w ≤ y * w := by
  obtain ⟨p, hp, rfl, belowP⟩ := left.exists_place
  obtain ⟨q, hq, rfl, belowQ⟩ := right.exists_place
  obtain ⟨r, hr, rfl, belowR⟩ := factor.exists_place
  rw [mul_number belowP belowR, mul_number belowQ belowR]
  apply ofUnits_le_ofUnits unitsPerOne_pos unitsPerOne_pos
  rw [unsigned_le_unsigned, ← unitsAt_le_iff] at le
  exact Nat.mul_le_mul_right _ (Nat.mul_le_mul_right _ le)

theorem mul_le_mul_left (left : x.IsMagnitude) (right : y.IsMagnitude) (factor : w.IsMagnitude)
    (le : x ≤ y) : w * x ≤ w * y := by
  rw [Binary64.mul_comm w, Binary64.mul_comm w]
  exact mul_le_mul_right left right factor le

theorem infinity_div (divisor : w.IsMagnitude) : infinity false / w = infinity false := by
  obtain ⟨r, hr, rfl, below⟩ := divisor.exists_place
  rw [infinity, ofPlace_place false (Nat.le_refl _)]
  change div _ _ = _
  simp only [div, below.ne, ↓reduceIte, bne_self_eq_false, infinity,
    ofPlace_place false (Nat.le_refl _)]

theorem IsUnsigned.div (dividend : x.IsUnsigned) (divisor : w.IsMagnitude)
    (positive : 0 < w.value) : (x / w).IsUnsigned := by
  obtain ⟨p, hp, rfl⟩ := dividend
  by_cases top : p = infinityPlace
  · subst top
    rw [← ofPlace_place false hp, ← infinity, infinity_div divisor]
    exact ⟨_, _, rfl⟩
  · obtain ⟨r, hr, rfl, below⟩ := divisor.exists_place
    rw [value_pos_iff] at positive
    rw [div_number false (by omega) below positive]
    exact ⟨_, _, rfl⟩

/-- The quotient may overflow for the greater dividend first. -/
theorem div_le_div_right (left : x.IsUnsigned) (right : y.IsUnsigned) (divisor : w.IsMagnitude)
    (positive : 0 < w.value) (le : x ≤ y) : x / w ≤ y / w := by
  have quotient := left.div divisor positive
  obtain ⟨p, hp, rfl⟩ := left
  obtain ⟨q, hq, rfl⟩ := right
  rw [unsigned_le_unsigned] at le
  by_cases top : q = infinityPlace
  · subst top
    rw [← ofPlace_place false hq, ← infinity, infinity_div divisor]
    exact le_infinity quotient.isNumber
  · obtain ⟨r, hr, rfl, below⟩ := divisor.exists_place
    rw [value_pos_iff] at positive
    rw [div_number false (by omega) below positive, div_number false (by omega) below positive]
    apply ofUnits_le_ofUnits positive positive
    rw [← unitsAt_le_iff] at le
    exact Nat.mul_le_mul_right _ (Nat.mul_le_mul_right _ le)

/-- A number farther above a common one is not at a smaller distance to it. -/
theorem abs_sub_le_abs_sub (left : x.IsMagnitude) (right : y.IsMagnitude) (common : w.IsMagnitude)
    (above : w ≤ x) (le : x ≤ y) : (x - w).abs ≤ (y - w).abs := by
  obtain ⟨p, hp, rfl, belowP⟩ := left.exists_place
  obtain ⟨q, hq, rfl, belowQ⟩ := right.exists_place
  obtain ⟨r, hr, rfl, belowR⟩ := common.exists_place
  rw [unsigned_le_unsigned, ← unitsAt_le_iff] at above le
  rw [abs_sub_number belowP belowR, abs_sub_number belowQ belowR]
  apply ofUnits_le_ofUnits Nat.one_pos Nat.one_pos
  omega

end

protected theorem add_comm (a b : Binary64) : a + b = b + a := by
  change add a b = add b a
  cases a with
  | nan => cases b <;> rfl
  | number s p hp =>
  cases b with
  | nan => rfl
  | number t q hq =>
  simp only [add, Int.add_comm (signedUnits t q), Bool.and_comm t s]
  by_cases left : p = infinityPlace <;> by_cases right : q = infinityPlace <;>
    simp only [left, right, ↓reduceIte, true_and, false_and, ne_comm (a := t)]
  by_cases same : s = t
  · simp only [same, ne_eq, not_true_eq_false, ↓reduceIte]
  · simp only [ne_eq, same, not_false_eq_true, ↓reduceIte]

theorem add_le_add_left {a b c : Binary64} (le : a ≤ b) (left : (c + a).isNumber = true)
    (right : (c + b).isNumber = true) : c + a ≤ c + b := by
  rw [Binary64.add_comm c] at left right ⊢
  rw [Binary64.add_comm c]
  exact add_le_add_right le left right

end PeriodicJobs.Binary64
