import PeriodicJobs.Proofs.Binary64.Order
import PeriodicJobs.Task

set_option autoImplicit false

/- Whole numbers up to 2^53, on which products, quotients without a rest and all roundings are
exact. -/
namespace PeriodicJobs.Binary64

/-- The number is this natural number, not one near to it. -/
def IsWhole (x : Binary64) (n : Nat) : Prop :=
  ∃ place h, x = .number false place h ∧ unitsAt place = n * unitsPerOne

/-- A significand of 53 bits stands on a place however often it is doubled. -/
theorem exists_place (doubled spacings : Nat) (upper : spacings ≤ 2 ^ 53) :
    ∃ place, unitsAt place = spacings * 2 ^ doubled := by
  induction doubled generalizing spacings with
  | zero => exact ⟨_, unitsAt_grid 0 spacings upper (Or.inl rfl)⟩
  | succ doubled ih =>
    by_cases lower : 2 ^ 52 ≤ spacings
    · exact ⟨_, unitsAt_grid (doubled + 1) spacings upper (Or.inr lower)⟩
    · obtain ⟨place, units⟩ := ih (2 * spacings) (by omega)
      refine ⟨place, ?_⟩
      rw [units, Nat.pow_succ]
      ring

theorem place_lt_infinity {place n : Nat} (units : unitsAt place = n * unitsPerOne)
    (small : n ≤ 2 ^ 53) : place < infinityPlace := by
  have range {scale : Nat} (large : 53 < scale) : 2 ^ 53 < 2 ^ scale :=
    Nat.pow_lt_pow_right (by decide) large
  rw [← unitsAt_strictMono.lt_iff_lt, units, unitsAt_infinityPlace]
  exact Nat.mul_lt_mul_of_pos_right (Nat.lt_of_le_of_lt small (range (by decide))) unitsPerOne_pos

/-- A quotient that is whole rounds to itself. -/
theorem isWhole_ofUnits {num den n : Nat} (positive : 0 < den) (small : n ≤ 2 ^ 53)
    (exact_ : num = n * unitsPerOne * den) : (ofUnits false num den).IsWhole n := by
  obtain ⟨place, units⟩ : ∃ place, unitsAt place = n * unitsPerOne := by
    obtain ⟨doubled, power⟩ : ∃ doubled, unitsPerOne = 2 ^ doubled := ⟨1074, unitsPerOne_eq⟩
    rw [power]
    exact exists_place doubled n small
  have fits := place_lt_infinity units small
  refine ⟨place, fits.le, ?_, units⟩
  rw [ofUnits, exact_, ← units, nearestPlace_unitsAt place positive, ofPlace_place]

theorem isWhole_ofRatio {den n : Nat} (positive : 0 < den) (small : n ≤ 2 ^ 53) :
    (ofRatio false (n * den) den).IsWhole n :=
  isWhole_ofUnits positive small (by ring)

theorem isWhole_ofNat {n : Nat} (small : n ≤ 2 ^ 53) : (ofNat n).IsWhole n := by
  have whole := isWhole_ofRatio Nat.one_pos small
  rwa [Nat.mul_one] at whole

theorem isWhole_zero : zero.IsWhole 0 :=
  ⟨0, Nat.zero_le _, rfl, by rw [unitsAt_zero, Nat.zero_mul]⟩

theorem isWhole_one : one.IsWhole 1 := isWhole_ofNat (by decide)

theorem isWhole_ofUInt64 {n : UInt64} (small : n.toNat ≤ 2 ^ 53) : (ofUInt64 n).IsWhole n.toNat :=
  isWhole_ofNat small

/-- Every word has a finite number nearest to it. -/
theorem isFinite_ofUInt64 (n : UInt64) : (ofUInt64 n).isFinite = true := by
  have word : nearestPlace (n.toNat * unitsPerOne) 1 ≤ 1087 * 2 ^ 52 := by
    apply nearestPlace_le Nat.one_pos
    rw [Nat.mul_one, unitsAt_wholePower (show 1086 + 52 = 64 + 1074 from rfl)]
    exact Nat.mul_le_mul_right _ n.toNat_lt.le
  have below : 1087 * 2 ^ 52 < infinityPlace := by decide
  change decide (min (nearestPlace (n.toNat * unitsPerOne) 1) infinityPlace < infinityPlace) = true
  exact decide_eq_true (by omega)

theorem isUnsigned_ofUInt64 (n : UInt64) : (ofUInt64 n).IsUnsigned := ⟨_, _, rfl⟩

namespace IsWhole

variable {x y : Binary64} {m n : Nat}

theorem unique (left : x.IsWhole n) (right : y.IsWhole n) : x = y := by
  obtain ⟨p, hp, rfl, units⟩ := left
  obtain ⟨q, hq, rfl, units'⟩ := right
  have same : p = q := unitsAt_strictMono.injective (units.trans units'.symm)
  subst same
  rfl

theorem isUnsigned (whole : x.IsWhole n) : x.IsUnsigned := by
  obtain ⟨p, hp, same, _⟩ := whole
  exact ⟨p, hp, same⟩

theorem isFinite (whole : x.IsWhole n) (small : n ≤ 2 ^ 53) : x.isFinite = true := by
  obtain ⟨p, hp, rfl, units⟩ := whole
  exact decide_eq_true (place_lt_infinity units small)

theorem le_iff (left : x.IsWhole m) (right : y.IsWhole n) : x ≤ y ↔ m ≤ n := by
  obtain ⟨p, hp, rfl, units⟩ := left
  obtain ⟨q, hq, rfl, units'⟩ := right
  rw [unsigned_le_unsigned, ← unitsAt_le_iff, units, units',
    Nat.mul_le_mul_right_iff unitsPerOne_pos]

theorem lt_iff (left : x.IsWhole m) (right : y.IsWhole n) : x < y ↔ m < n := by
  obtain ⟨p, hp, rfl, units⟩ := left
  obtain ⟨q, hq, rfl, units'⟩ := right
  rw [number_lt_number, ← Nat.mul_lt_mul_right unitsPerOne_pos, ← units, ← units',
    unitsAt_strictMono.lt_iff_lt]
  simp [signedPlace]

theorem isZero_eq (whole : x.IsWhole n) : x.isZero = (n == 0) := by
  obtain ⟨p, hp, rfl, units⟩ := whole
  have zero : p = 0 ↔ n = 0 := by
    rw [← unitsAt_strictMono.injective.eq_iff, units, unitsAt_zero]
    simp [unitsPerOne_pos.ne']
  rw [isZero, Bool.eq_iff_iff, beq_iff_eq, beq_iff_eq, zero]

theorem not_le_zero (whole : x.IsWhole n) (positive : 0 < n) : ¬ x ≤ .zero := by
  rw [le_iff whole isWhole_zero]
  omega

theorem max (left : x.IsWhole m) (right : y.IsWhole n) :
    (Binary64.max x y).IsWhole (Max.max m n) := by
  have order := left.lt_iff right
  have number : Binary64.max x y = if x < y then y else x := by
    obtain ⟨p, hp, rfl, units⟩ := left
    rfl
  rw [number]
  by_cases below : x < y
  · rw [if_pos below, Nat.max_eq_right (order.1 below).le]
    exact right
  · rw [if_neg below, Nat.max_eq_left (Nat.le_of_not_lt fun less => below (order.2 less))]
    exact left

theorem mul (left : x.IsWhole m) (right : y.IsWhole n) (small : m * n ≤ 2 ^ 53)
    (finite : x.isFinite = true) (finite' : y.isFinite = true) : (x * y).IsWhole (m * n) := by
  obtain ⟨p, hp, rfl, units⟩ := left
  obtain ⟨q, hq, rfl, units'⟩ := right
  simp only [Binary64.isFinite, decide_eq_true_eq] at finite finite'
  change (Binary64.mul _ _).IsWhole _
  simp only [Binary64.mul, Nat.ne_of_lt finite, Nat.ne_of_lt finite', or_self, ↓reduceIte]
  refine isWhole_ofUnits unitsPerOne_pos small ?_
  rw [units, units']
  ring

/-- A quotient without a rest is exact. -/
theorem div {quotient : Nat} (left : x.IsWhole (quotient * n)) (right : y.IsWhole n)
    (positive : 0 < n) (small : quotient ≤ 2 ^ 53) (finite : x.isFinite = true)
    (finite' : y.isFinite = true) : (x / y).IsWhole quotient := by
  obtain ⟨p, hp, rfl, units⟩ := left
  obtain ⟨q, hq, rfl, units'⟩ := right
  simp only [Binary64.isFinite, decide_eq_true_eq] at finite finite'
  have divisor : 0 < unitsAt q := by
    rw [units']
    exact Nat.mul_pos positive unitsPerOne_pos
  have nonzero : q ≠ 0 := (unitsAt_pos_iff.1 divisor).ne'
  change (Binary64.div _ _).IsWhole _
  simp only [Binary64.div, Nat.ne_of_lt finite, Nat.ne_of_lt finite', nonzero, ↓reduceIte]
  refine isWhole_ofUnits divisor small ?_
  rw [units, units']
  ring

theorem round_eq (whole : x.IsWhole n) (small : n ≤ 2 ^ 53) : x.round = x := by
  have top := whole.isFinite small
  refine unique ?_ whole
  obtain ⟨p, hp, rfl, units⟩ := whole
  simp only [Binary64.isFinite, decide_eq_true_eq] at top
  have half : (2 * unitsAt p + unitsPerOne) / (2 * unitsPerOne) = n := by
    have split : 2 * (n * unitsPerOne) + unitsPerOne = unitsPerOne + n * (2 * unitsPerOne) := by
      ring
    have one := unitsPerOne_pos
    rw [units, split, Nat.add_mul_div_right _ _ (by omega), Nat.div_eq_of_lt (by omega),
      Nat.zero_add]
  rw [Binary64.round, if_neg (Nat.ne_of_lt top), half]
  exact isWhole_ofNat small

theorem toUInt64_eq (whole : x.IsWhole n) (small : n ≤ 2 ^ 53) :
    x.toUInt64 = UInt64.ofNat n := by
  have top := whole.isFinite small
  obtain ⟨p, hp, rfl, units⟩ := whole
  simp only [Binary64.isFinite, decide_eq_true_eq] at top
  rw [toUInt64, if_neg (Nat.ne_of_lt top), units, Nat.mul_div_cancel _ unitsPerOne_pos,
    Nat.min_eq_left (Nat.le_trans small (by decide))]

end IsWhole

theorem zero_le_of_isUnsigned {x : Binary64} (unsigned : x.IsUnsigned) : zero ≤ x := by
  obtain ⟨p, hp, rfl⟩ := unsigned
  rw [zero, ofPlace_place false (Nat.zero_le _), unsigned_le_unsigned]
  exact Nat.zero_le p

theorem sub_self_abs {x : Binary64} (finite : x.isFinite = true) : (x - x).abs = zero := by
  cases x with
  | nan => cases finite
  | number s p hp =>
    simp only [isFinite, decide_eq_true_eq] at finite
    have cancel : signedUnits s p + signedUnits (!s) p = 0 := by
      cases s <;> simp [signedUnits]
    change (sub _ _).abs = _
    simp only [sub, neg, add, Nat.ne_of_lt finite, cancel, ↓reduceIte, Int.natAbs_zero, ofUnits,
      nearestPlace_zero]
    rfl

theorem isFinite_tolerance : tolerance.isFinite = true := by decide +kernel

/-- A whole number passes the test for whole numbers, whatever the tolerance. -/
theorem IsWhole.isNearlyWhole {x : Binary64} {n : Nat} (whole : x.IsWhole n)
    (small : n ≤ 2 ^ 53) : x.isNearlyWhole = true := by
  have scale := whole.max isWhole_one
  have finite : (x.max one).isFinite = true := scale.isFinite (Nat.max_le.2 ⟨small, by decide⟩)
  rw [Binary64.isNearlyWhole, whole.round_eq small, sub_self_abs (whole.isFinite small),
    decide_eq_true_eq]
  exact zero_le_of_isUnsigned
    (IsUnsigned.mul ⟨_, _, rfl⟩ scale.isUnsigned isFinite_tolerance finite)

end PeriodicJobs.Binary64
