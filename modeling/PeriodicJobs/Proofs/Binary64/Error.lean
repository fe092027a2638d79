import PeriodicJobs.Proofs.Binary64.Value

set_option autoImplicit false

/- Rounding errors. A result that is neither a rounded subnormal number nor infinite is off the
exact one by at most a part of 2^-53 of it. -/
namespace PeriodicJobs.Binary64

/-- The largest part by which one rounding changes a number. -/
def roundoff : ℚ := 1 / 2 ^ 53

/-- A number that is off another one by at most a part of it. -/
def IsNear (part a b : ℚ) : Prop := |a - b| ≤ part * b

section

variable {a b c part : ℚ}

theorem IsNear.mul_right (near : IsNear part a b) (nonneg : 0 ≤ c) :
    IsNear part (a * c) (b * c) := by
  rw [IsNear, ← sub_mul, abs_mul, abs_of_nonneg nonneg, ← mul_assoc]
  exact mul_le_mul_of_nonneg_right near nonneg

theorem IsNear.weaken {part' : ℚ} (near : IsNear part a b) (le : part ≤ part') (nonneg : 0 ≤ b) :
    IsNear part' a b :=
  le_trans near (mul_le_mul_of_nonneg_right le nonneg)

/-- A further rounding adds its part, and its part of the part before. -/
theorem IsNear.rounded (near : IsNear part b c) (rounded : IsNear roundoff a b) :
    IsNear (part + roundoff * (1 + part)) a c := by
  have upper := (abs_le.1 near).2
  have shift : roundoff * b ≤ roundoff * (c + part * c) :=
    mul_le_mul_of_nonneg_left (by linarith) (by norm_num [roundoff])
  calc |a - c| ≤ |a - b| + |b - c| := abs_sub_le a b c
    _ ≤ roundoff * (c + part * c) + part * c := by
      have first : |a - b| ≤ roundoff * b := rounded
      have second : |b - c| ≤ part * c := near
      linarith
    _ = (part + roundoff * (1 + part)) * c := by ring

end

/-- The error of the nearest place, where the quotient is whole or has all its bits. -/
theorem nearestPlace_error {num den : Nat} (positive : 0 < den)
    (fine : den ∣ num ∨ 2 ^ 52 * den ≤ num) :
    2 ^ 53 * (unitsAt (nearestPlace num den) * den) ≤ 2 ^ 53 * num + num ∧
      2 ^ 53 * num ≤ 2 ^ 53 * (unitsAt (nearestPlace num den) * den) + num := by
  have units := unitsAt_nearestPlace num positive
  have power := Nat.two_pow_pos (nearestDoublings num den)
  have rest : unitsAt (nearestPlace num den) * den =
      roundHalfEven num (den * 2 ^ nearestDoublings num den) *
        (den * 2 ^ nearestDoublings num den) := by
    rw [units]
    ring
  by_cases bits : 2 ^ 52 * (den * 2 ^ nearestDoublings num den) ≤ num
  · have upper := roundHalfEven_le num (den * 2 ^ nearestDoublings num den)
    have lower := le_roundHalfEven num (Nat.mul_pos positive power)
    rw [Nat.mul_assoc, ← rest] at upper lower
    omega
  · -- Without all bits there is no doubling, and a whole quotient is kept.
    have none : nearestDoublings num den = 0 := by
      by_contra doubled
      exact bits (le_of_nearestDoublings num positive doubled)
    rw [none, Nat.pow_zero, Nat.mul_one] at rest bits
    obtain ⟨whole, rfl⟩ := fine.resolve_right bits
    rw [Nat.mul_comm den whole, roundHalfEven_mul whole positive] at rest
    rw [Nat.mul_comm den whole, rest]
    omega

theorem isNear_nearestPlace {num den : Nat} (positive : 0 < den)
    (fine : den ∣ num ∨ 2 ^ 52 * den ≤ num) :
    IsNear roundoff (unitsAt (nearestPlace num den) / unitsPerOne)
      (num / (den * unitsPerOne)) := by
  obtain ⟨upper, lower⟩ := nearestPlace_error positive fine
  have upper' : (2 ^ 53 * (unitsAt (nearestPlace num den) * den) : ℚ) ≤ 2 ^ 53 * num + num := by
    exact_mod_cast upper
  have lower' : (2 ^ 53 * num : ℚ) ≤ 2 ^ 53 * (unitsAt (nearestPlace num den) * den) + num := by
    exact_mod_cast lower
  have den_pos : (0 : ℚ) < den := by exact_mod_cast positive
  have scale : (0 : ℚ) < den * unitsPerOne := mul_pos den_pos units_pos
  have difference : (unitsAt (nearestPlace num den) / unitsPerOne - num / (den * unitsPerOne) : ℚ) =
      (unitsAt (nearestPlace num den) * den - num) / (den * unitsPerOne) := by
    rw [sub_div, mul_comm (unitsAt _ : ℚ), mul_div_mul_left _ _ den_pos.ne']
  rw [IsNear, difference, abs_div, abs_of_pos scale, roundoff, ← mul_div_assoc,
    div_le_div_iff_of_pos_right scale, abs_le]
  constructor <;> linarith

theorem isNear_ofUnits {num den : Nat} (positive : 0 < den)
    (fine : den ∣ num ∨ 2 ^ 52 * den ≤ num) (finite : (ofUnits false num den).isFinite = true) :
    IsNear roundoff (ofUnits false num den).value (num / (den * unitsPerOne)) := by
  have below : nearestPlace num den ≤ infinityPlace := by
    simp only [ofUnits, ofPlace, isFinite, decide_eq_true_eq] at finite
    omega
  rw [ofUnits, ofPlace_place false below, value_number]
  exact isNear_nearestPlace positive fine

theorem isMagnitude_ofUnits {num den : Nat} (below : nearestPlace num den < infinityPlace) :
    (ofUnits false num den).IsMagnitude := by
  refine ⟨⟨_, _, rfl⟩, ?_⟩
  rw [ofUnits, ofPlace_place false below.le]
  simp only [isFinite, decide_eq_true_eq, below]

theorem isMagnitude_ofUInt64 (n : UInt64) : (ofUInt64 n).IsMagnitude :=
  ⟨isUnsigned_ofUInt64 n, isFinite_ofUInt64 n⟩

theorem isNear_ofUInt64 (n : UInt64) : IsNear roundoff (ofUInt64 n).value n.toNat := by
  have near := isNear_ofUnits Nat.one_pos (Or.inl (Nat.one_dvd (n.toNat * unitsPerOne)))
    (isFinite_ofUInt64 n)
  rwa [Nat.cast_one, one_mul, Nat.cast_mul, mul_div_cancel_right₀ _ units_pos.ne'] at near

/-- A word may lose its last bits, but its number is whole all the same. -/
theorem exists_whole_ofUInt64 (n : UInt64) : ∃ m, (ofUInt64 n).IsWhole m := by
  rcases (isMagnitude_ofUInt64 n).whole_or_small with whole | ⟨p, h, same, low⟩
  · exact whole
  · refine ⟨n.toNat, isWhole_ofUInt64 ?_⟩
    by_contra large
    have high : wholePlace ≤ nearestPlace (n.toNat * unitsPerOne) 1 := by
      apply le_nearestPlace Nat.one_pos
      rw [unitsAt_wholePlace, Nat.mul_one]
      exact Nat.mul_le_mul_right _ (by omega)
    have place : min (nearestPlace (n.toNat * unitsPerOne) 1) infinityPlace = p := by
      rw [ofUInt64, ofNat, ofRatio, ofUnits, ofPlace] at same
      cases same
      rfl
    have top : wholePlace ≤ infinityPlace := by decide
    rw [← unitsAt_wholePlace, unitsAt_strictMono.lt_iff_lt] at low
    omega

/-- Multiplying finite numbers is multiplying their units. -/
theorem mul_number {p q : Nat} {hp : p ≤ infinityPlace} {hq : q ≤ infinityPlace}
    (left : p < infinityPlace) (right : q < infinityPlace) :
    number false p hp * number false q hq =
      ofUnits false (unitsAt p * unitsAt q) unitsPerOne := by
  change mul _ _ = _
  simp only [mul, left.ne, right.ne, or_self, ↓reduceIte, bne_self_eq_false]

/-- A product with a whole factor is near to the exact one, even where numbers are subnormal. -/
theorem isNear_mul {x y : Binary64} (left : x.IsMagnitude) (right : y.IsMagnitude)
    (whole : (∃ n, x.IsWhole n) ∨ ∃ n, y.IsWhole n) (finite : (x * y).isFinite = true) :
    IsNear roundoff (x * y).value (x.value * y.value) := by
  have fine {p q : Nat} {hp : p ≤ infinityPlace} {hq : q ≤ infinityPlace}
      (whole : (∃ n, (number false p hp).IsWhole n) ∨ ∃ n, (number false q hq).IsWhole n) :
      unitsPerOne ∣ unitsAt p * unitsAt q := by
    rcases whole with ⟨n, _, _, same, units⟩ | ⟨n, _, _, same, units⟩
    · cases same
      rw [units]
      exact Nat.dvd_mul_right_of_dvd (Nat.dvd_mul_left _ _) _
    · cases same
      rw [units]
      exact Nat.dvd_mul_left_of_dvd (Nat.dvd_mul_left _ _) _
  obtain ⟨p, hp, rfl, belowP⟩ := left.exists_place
  obtain ⟨q, hq, rfl, belowQ⟩ := right.exists_place
  rw [mul_number belowP belowQ] at finite ⊢
  have near := isNear_ofUnits unitsPerOne_pos (Or.inl (fine whole)) finite
  rwa [Nat.cast_mul, mul_div_mul_comm, ← value_number (h := hp), ← value_number (h := hq)] at near

/-- Dividing finite numbers is dividing their units. -/
theorem div_number {p q : Nat} {hp : p ≤ infinityPlace} {hq : q ≤ infinityPlace} (s : Bool)
    (dividend : p < infinityPlace) (divisor : q < infinityPlace) (positive : 0 < unitsAt q) :
    number s p hp / number false q hq = ofUnits s (unitsAt p * unitsPerOne) (unitsAt q) := by
  change div _ _ = _
  simp only [div, dividend.ne, divisor.ne, (unitsAt_pos_iff.1 positive).ne', ↓reduceIte,
    Bool.bne_false]

/-- A quotient that is not tiny is near to the exact one. -/
theorem isNear_div {x y : Binary64} (left : x.IsMagnitude) (right : y.IsMagnitude)
    (positive : 0 < y.value) (enough : y.value ≤ 2 ^ 53 * x.value)
    (finite : (x / y).isFinite = true) :
    IsNear roundoff (x / y).value (x.value / y.value) := by
  obtain ⟨p, hp, rfl, belowP⟩ := left.exists_place
  obtain ⟨q, hq, rfl, belowQ⟩ := right.exists_place
  rw [value_pos_iff] at positive
  have fine : 2 ^ 52 * unitsAt q ≤ unitsAt p * unitsPerOne := by
    have units : unitsAt q ≤ 2 ^ 53 * unitsAt p :=
      (value_le_mul_iff (2 ^ 53)).1 (by exact_mod_cast enough)
    have range : 2 ^ 105 ≤ unitsPerOne := two_pow_le_unitsPerOne (by decide)
    calc 2 ^ 52 * unitsAt q ≤ unitsAt p * 2 ^ 105 := by omega
      _ ≤ unitsAt p * unitsPerOne := Nat.mul_le_mul_left _ range
  rw [div_number false belowP belowQ positive] at finite ⊢
  have near := isNear_ofUnits positive (Or.inr fine) finite
  have ratio : ((unitsAt p * unitsPerOne : Nat) : ℚ) / (unitsAt q * unitsPerOne) =
      (number false p hp).value / (number false q hq).value := by
    rw [value_number, value_number, Nat.cast_mul, mul_div_mul_right _ _ units_pos.ne',
      div_div_div_cancel_right₀ units_pos.ne']
  rwa [ratio] at near

theorem abs_ofUnits (s : Bool) (num den : Nat) :
    (ofUnits s num den).abs = ofUnits false num den := rfl

/-- A distance rounds the exact one. -/
theorem abs_sub_number {p q : Nat} {hp : p ≤ infinityPlace} {hq : q ≤ infinityPlace}
    (left : p < infinityPlace) (right : q < infinityPlace) :
    (number false p hp - number false q hq).abs =
      ofUnits false ((unitsAt p : Int) - unitsAt q).natAbs 1 := by
  change (sub _ _).abs = _
  simp only [sub, neg, add, left.ne, right.ne, ↓reduceIte, abs_ofUnits, signedUnits,
    Bool.not_false, Bool.false_eq_true, Int.sub_eq_add_neg]

theorem abs_sub_zero {x : Binary64} (magnitude : x.IsMagnitude) : (x - zero).abs = x := by
  obtain ⟨p, h, rfl, below⟩ := magnitude.exists_place
  have same := nearestPlace_unitsAt p Nat.one_pos
  rw [Nat.mul_one] at same
  rw [zero, ofPlace_place false (Nat.zero_le _), abs_sub_number below (by decide), unitsAt_zero,
    Int.natCast_zero, Int.sub_zero, Int.natAbs_natCast, ofUnits, same, ofPlace_place]

/-- A distance is near to the exact one, and finite. -/
theorem isNear_distance {x y : Binary64} (left : x.IsMagnitude) (right : y.IsMagnitude) :
    (x - y).abs.IsMagnitude ∧ IsNear roundoff (x - y).abs.value |x.value - y.value| := by
  obtain ⟨p, hp, rfl, belowP⟩ := left.exists_place
  obtain ⟨q, hq, rfl, belowQ⟩ := right.exists_place
  rw [abs_sub_number belowP belowQ]
  generalize exact_ : ((unitsAt p : Int) - unitsAt q).natAbs = units
  have bound : nearestPlace units 1 ≤ Max.max p q := by
    apply nearestPlace_le Nat.one_pos
    have leftUnits := unitsAt_le_iff.2 (Nat.le_max_left p q)
    have rightUnits := unitsAt_le_iff.2 (Nat.le_max_right p q)
    omega
  have magnitude : (ofUnits false units 1).IsMagnitude := isMagnitude_ofUnits (by omega)
  have near := isNear_ofUnits Nat.one_pos (Or.inl (Nat.one_dvd units)) magnitude.2
  have distance : (units : ℚ) / ((1 : Nat) * unitsPerOne) =
      |(number false p hp).value - (number false q hq).value| := by
    rw [value_number, value_number, ← sub_div, abs_div, abs_of_pos units_pos, Nat.cast_one, one_mul,
      ← exact_, Nat.cast_natAbs, Int.cast_abs, Int.cast_sub, Int.cast_natCast, Int.cast_natCast]
  rw [distance] at near
  exact ⟨magnitude, near⟩

/-- Multiplication does not round past a number of the format that is above the exact product. -/
theorem value_mul_le {x y w : Binary64} (left : x.IsMagnitude) (right : y.IsMagnitude)
    (bound : w.IsMagnitude) (le : x.value * y.value ≤ w.value) :
    (x * y).IsMagnitude ∧ (x * y).value ≤ w.value := by
  obtain ⟨p, hp, rfl, belowP⟩ := left.exists_place
  obtain ⟨q, hq, rfl, belowQ⟩ := right.exists_place
  obtain ⟨b, hb, rfl, belowB⟩ := bound.exists_place
  have cross : unitsAt p * unitsAt q ≤ unitsAt b * unitsPerOne := by
    rw [value_number, value_number, value_number, div_mul_div_comm,
      div_le_div_iff₀ (mul_pos units_pos units_pos) units_pos, ← mul_assoc,
      mul_le_mul_iff_of_pos_right units_pos] at le
    exact_mod_cast le
  have place := nearestPlace_le unitsPerOne_pos cross
  have magnitude := isMagnitude_ofUnits (Nat.lt_of_le_of_lt place belowB)
  rw [mul_number belowP belowQ]
  refine ⟨magnitude, ?_⟩
  rw [ofUnits, ofPlace_place false (by omega), value_le_iff, unsigned_le_unsigned]
  exact place

/-- A factor up to one cannot make a product overflow. -/
theorem isMagnitude_mul {x y : Binary64} (left : x.IsMagnitude) (right : y.IsMagnitude)
    (small : x.value ≤ 1) : (x * y).IsMagnitude :=
  (value_mul_le left right right (mul_le_of_le_one_left right.value_nonneg small)).1

/-- A quotient of numbers that are not too far apart is finite. -/
theorem isMagnitude_div {x y : Binary64} (left : x.IsMagnitude) (right : y.IsMagnitude)
    (positive : 0 < y.value) (range : x.value ≤ 2 ^ 66 * y.value) : (x / y).IsMagnitude := by
  obtain ⟨p, hp, rfl, belowP⟩ := left.exists_place
  obtain ⟨q, hq, rfl, belowQ⟩ := right.exists_place
  rw [value_pos_iff] at positive
  have units : unitsAt p ≤ 2 ^ 66 * unitsAt q :=
    (value_le_mul_iff (2 ^ 66)).1 (by exact_mod_cast range)
  have bound : nearestPlace (unitsAt p * unitsPerOne) (unitsAt q) ≤ 1089 * 2 ^ 52 := by
    apply nearestPlace_le positive
    rw [unitsAt_wholePower (show 1088 + 52 = 66 + 1074 from rfl), Nat.mul_right_comm]
    exact Nat.mul_le_mul_right _ units
  have top : 1089 * 2 ^ 52 < infinityPlace := by decide
  rw [div_number false belowP belowQ positive]
  exact isMagnitude_ofUnits (by omega)

theorem isMagnitude_of_div {x y : Binary64} (divisor : y.IsMagnitude) (positive : 0 < y.value)
    (quotient : (x / y).IsMagnitude) : x.IsMagnitude := by
  obtain ⟨q, hq, rfl, belowQ⟩ := divisor.exists_place
  rw [value_pos_iff] at positive
  obtain ⟨⟨place, h, same⟩, finite⟩ := quotient
  cases x with
  | nan s => cases finite
  | number s p hp =>
    by_cases top : p = infinityPlace
    · change (div _ _).isFinite = true at finite
      simp only [div, top, belowQ.ne, ↓reduceIte] at finite
      cases s <;> cases finite
    · have below : p < infinityPlace := by omega
      rw [div_number s below belowQ positive] at same
      cases s with
      | false => exact ⟨⟨p, hp, rfl⟩, decide_eq_true below⟩
      | true => cases same

section

variable {x y w : Binary64} (left : x.IsMagnitude) (right : y.IsMagnitude) (bound : w.IsMagnitude)
  (positive : 0 < y.value)

include left right bound positive

/-- Division does not round past a number of the format that is below the exact quotient. -/
theorem le_value_div (finite : (x / y).isFinite = true) (le : w.value * y.value ≤ x.value) :
    w.value ≤ (x / y).value := by
  obtain ⟨p, hp, rfl, belowP⟩ := left.exists_place
  obtain ⟨q, hq, rfl, belowQ⟩ := right.exists_place
  obtain ⟨b, hb, rfl, belowB⟩ := bound.exists_place
  rw [value_pos_iff] at positive
  have cross : unitsAt b * unitsAt q ≤ unitsAt p * unitsPerOne := by
    rw [value_number, value_number, value_number, div_mul_div_comm,
      div_le_div_iff₀ (mul_pos units_pos units_pos) units_pos, ← mul_assoc,
      mul_le_mul_iff_of_pos_right units_pos] at le
    exact_mod_cast le
  have place := le_nearestPlace positive cross
  rw [div_number false belowP belowQ positive, ofUnits] at finite ⊢
  have below : nearestPlace (unitsAt p * unitsPerOne) (unitsAt q) ≤ infinityPlace := by
    simp only [ofPlace, isFinite, decide_eq_true_eq] at finite
    omega
  rw [ofPlace_place false below, value_le_iff, unsigned_le_unsigned]
  exact place

/-- Division does not round past a number of the format that is above the exact quotient. -/
theorem value_div_le (le : x.value ≤ w.value * y.value) : (x / y).value ≤ w.value := by
  obtain ⟨p, hp, rfl, belowP⟩ := left.exists_place
  obtain ⟨q, hq, rfl, belowQ⟩ := right.exists_place
  obtain ⟨b, hb, rfl, belowB⟩ := bound.exists_place
  rw [value_pos_iff] at positive
  have cross : unitsAt p * unitsPerOne ≤ unitsAt b * unitsAt q := by
    rw [value_number, value_number, value_number, div_mul_div_comm,
      div_le_div_iff₀ units_pos (mul_pos units_pos units_pos), ← mul_assoc,
      mul_le_mul_iff_of_pos_right units_pos] at le
    exact_mod_cast le
  have place := nearestPlace_le positive cross
  rw [div_number false belowP belowQ positive, ofUnits, ofPlace_place false (by omega),
    value_le_iff, unsigned_le_unsigned]
  exact place

end

/-- Whole numbers below the exact quotient are not lost by rounding. -/
theorem natCast_le_value_div {x y : Binary64} {n : Nat} (left : x.IsMagnitude)
    (right : y.IsMagnitude) (positive : 0 < y.value) (finite : (x / y).isFinite = true)
    (small : n ≤ 2 ^ 53) (le : n * y.value ≤ x.value) : (n : ℚ) ≤ (x / y).value := by
  have whole := isWhole_ofNat small
  rw [← whole.value_eq] at le ⊢
  exact le_value_div left right (isMagnitude_of_whole whole small) positive finite le

/-- A quotient above a quarter has a divisor that is at most four times as large. -/
theorem le_of_quarter_lt_div {x y : Binary64} (left : x.IsMagnitude) (right : y.IsMagnitude)
    (positive : 0 < y.value) (quarter : 1 / 4 < (x / y).value) : y.value ≤ 4 * x.value := by
  obtain ⟨low, units, below⟩ :
      ∃ low, unitsAt low * 2 ^ 2 = unitsPerOne ∧ low < infinityPlace :=
    ⟨_, unitsAt_partPower (show 1020 + 52 + 2 = 1074 from rfl), by decide⟩
  have magnitude : (number false low below.le).IsMagnitude :=
    ⟨⟨low, below.le, rfl⟩, decide_eq_true below⟩
  have same : (number false low below.le).value = 1 / 4 := by
    have units' : (unitsAt low * 2 ^ 2 : ℚ) = unitsPerOne := by exact_mod_cast units
    rw [value_number, div_eq_iff units_pos.ne']
    linarith
  by_contra large
  have most := value_div_le left right magnitude positive (by rw [same]; linarith)
  rw [same] at most
  linarith

end PeriodicJobs.Binary64
