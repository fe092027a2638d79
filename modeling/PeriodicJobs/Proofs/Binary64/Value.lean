import Mathlib.Algebra.Order.Field.Rat
import Mathlib.Tactic.FieldSimp
import Mathlib.Tactic.Linarith
import Mathlib.Tactic.Positivity
import PeriodicJobs.Proofs.Binary64.Whole

set_option autoImplicit false

/- Finite numbers as rational numbers, and what rounding them to whole ones gives. From 2^52 on
every number is whole, so such a rounding is always exact. -/
namespace PeriodicJobs.Binary64

/-- The rational number that a finite number stands for. -/
def value : Binary64 → ℚ
  | .number s p _ => signedUnits s p / unitsPerOne
  | .nan _ => 0

theorem units_pos : (0 : ℚ) < unitsPerOne := by exact_mod_cast unitsPerOne_pos

theorem value_number {p : Nat} {h : p ≤ infinityPlace} :
    (number false p h).value = unitsAt p / unitsPerOne := by
  rw [value, signedUnits, if_neg Bool.false_ne_true, Int.cast_natCast]

theorem IsWhole.value_eq {x : Binary64} {n : Nat} (whole : x.IsWhole n) : x.value = n := by
  obtain ⟨p, h, rfl, units⟩ := whole
  rw [value_number, units, Nat.cast_mul, mul_div_cancel_right₀ _ units_pos.ne']

theorem IsWhole.unique_count {x : Binary64} {m n : Nat} (whole : x.IsWhole m)
    (whole' : x.IsWhole n) : m = n := by
  have same : (m : ℚ) = n := by rw [← whole.value_eq, whole'.value_eq]
  exact_mod_cast same

section

variable {p q : Nat} {hp : p ≤ infinityPlace} {hq : q ≤ infinityPlace}

theorem value_le_iff :
    (number false p hp).value ≤ (number false q hq).value ↔
      number false p hp ≤ number false q hq := by
  rw [value_number, value_number, div_le_div_iff_of_pos_right units_pos, Nat.cast_le,
    unitsAt_le_iff, unsigned_le_unsigned]

theorem value_le_mul_iff (factor : Nat) :
    (number false p hp).value ≤ factor * (number false q hq).value ↔
      unitsAt p ≤ factor * unitsAt q := by
  rw [value_number, value_number, ← mul_div_assoc, div_le_div_iff_of_pos_right units_pos]
  exact_mod_cast Iff.rfl

theorem value_pos_iff : 0 < (number false p hp).value ↔ 0 < unitsAt p := by
  rw [value_number, div_pos_iff_of_pos_right units_pos, Nat.cast_pos]

end

/-- A finite number without a sign. -/
def IsMagnitude (x : Binary64) : Prop := x.IsUnsigned ∧ x.isFinite = true

theorem IsMagnitude.exists_place {x : Binary64} (magnitude : x.IsMagnitude) :
    ∃ p h, x = .number false p h ∧ p < infinityPlace := by
  obtain ⟨⟨p, h, rfl⟩, finite⟩ := magnitude
  exact ⟨p, h, rfl, of_decide_eq_true finite⟩

theorem IsMagnitude.value_le_iff {x y : Binary64} (left : x.IsMagnitude) (right : y.IsMagnitude) :
    x.value ≤ y.value ↔ x ≤ y := by
  obtain ⟨p, hp, rfl, _⟩ := left.exists_place
  obtain ⟨q, hq, rfl, _⟩ := right.exists_place
  exact Binary64.value_le_iff

theorem IsMagnitude.value_lt_iff {x y : Binary64} (left : x.IsMagnitude) (right : y.IsMagnitude) :
    x.value < y.value ↔ x < y := by
  obtain ⟨p, hp, rfl, _⟩ := left.exists_place
  obtain ⟨q, hq, rfl, _⟩ := right.exists_place
  rw [← not_le, Binary64.value_le_iff, number_le_number, number_lt_number, Int.not_le]

theorem IsMagnitude.value_nonneg {x : Binary64} (magnitude : x.IsMagnitude) : 0 ≤ x.value := by
  obtain ⟨p, h, rfl, _⟩ := magnitude.exists_place
  rw [value_number]
  exact div_nonneg (Nat.cast_nonneg _) units_pos.le

theorem IsMagnitude.le_zero_iff {x : Binary64} (magnitude : x.IsMagnitude) :
    x ≤ zero ↔ x.value ≤ 0 := by
  have origin : zero.IsMagnitude := ⟨isWhole_zero.isUnsigned, rfl⟩
  rw [← magnitude.value_le_iff origin, isWhole_zero.value_eq, Nat.cast_zero]

theorem isMagnitude_one : one.IsMagnitude :=
  ⟨isWhole_one.isUnsigned, isWhole_one.isFinite (by decide)⟩

theorem IsMagnitude.max {x y : Binary64} (left : x.IsMagnitude) (right : y.IsMagnitude) :
    (x.max y).IsMagnitude := by
  cases x with
  | nan s => exact right
  | number s p h =>
    rw [Binary64.max]
    split
    · exact right
    · exact left

theorem isMagnitude_of_pos {x : Binary64} (finite : x.isFinite = true) (positive : ¬ x ≤ zero) :
    x.IsMagnitude ∧ 0 < x.value := by
  have magnitude : x.IsMagnitude :=
    ⟨isUnsigned_of_pos (isNumber_of_isFinite finite) positive, finite⟩
  rw [magnitude.le_zero_iff, not_le] at positive
  exact ⟨magnitude, positive⟩

/-- Where the numbers become whole: the place of 2^52. -/
def wholePlace : Nat := 1075 * 2 ^ 52

theorem unitsAt_wholePlace : unitsAt wholePlace = 2 ^ 52 * unitsPerOne :=
  unitsAt_wholePower (show 1074 + 52 = 52 + 1074 from rfl)

theorem unitsPerOne_dvd_unitsAt {place : Nat} (high : wholePlace ≤ place) :
    unitsPerOne ∣ unitsAt place := by
  have enough : 1074 ≤ doublings place := by
    rw [doublings_eq]
    rw [wholePlace] at high
    omega
  rw [unitsPerOne_eq, unitsAt_eq]
  apply Nat.dvd_mul_left_of_dvd
  apply pow_dvd_pow
  exact enough

/-- A finite magnitude is whole, or it lies below 2^52. -/
theorem IsMagnitude.whole_or_small {x : Binary64} (magnitude : x.IsMagnitude) :
    (∃ n, x.IsWhole n) ∨ ∃ p h, x = .number false p h ∧ unitsAt p < 2 ^ 52 * unitsPerOne := by
  obtain ⟨p, h, rfl, _⟩ := magnitude.exists_place
  by_cases high : wholePlace ≤ p
  · obtain ⟨n, units⟩ := unitsPerOne_dvd_unitsAt high
    exact Or.inl ⟨n, p, h, rfl, by rw [units, Nat.mul_comm]⟩
  · refine Or.inr ⟨p, h, rfl, ?_⟩
    rw [← unitsAt_wholePlace]
    exact unitsAt_strictMono (by omega)

theorem isMagnitude_of_whole {x : Binary64} {n : Nat} (whole : x.IsWhole n)
    (small : n ≤ 2 ^ 53) : x.IsMagnitude := ⟨whole.isUnsigned, whole.isFinite small⟩

/-- A whole number of any size is the nearest to itself. -/
theorem IsWhole.ofRatio_eq {x : Binary64} {n : Nat} (whole : x.IsWhole n) :
    ofRatio false n 1 = x := by
  obtain ⟨p, h, rfl, units⟩ := whole
  rw [ofRatio, ofUnits, ← units, ← Nat.mul_one (unitsAt p), nearestPlace_unitsAt p Nat.one_pos,
    ofPlace_place]

/-- A rounding that keeps whole numbers and stays small on small ones is exact. -/
theorem isWhole_rounded {p n : Nat} {h : p ≤ infinityPlace}
    (magnitude : (number false p h).IsMagnitude) (keeps : ∀ m, unitsAt p = m * unitsPerOne → n = m)
    (small : unitsAt p < 2 ^ 52 * unitsPerOne → n ≤ 2 ^ 53) :
    (ofRatio false n 1).IsWhole n ∧ (ofRatio false n 1).IsMagnitude := by
  rcases magnitude.whole_or_small with ⟨m, whole⟩ | ⟨q, hq, same, low⟩
  · have units : unitsAt p = m * unitsPerOne := by
      obtain ⟨q, hq, same, units⟩ := whole
      cases same
      exact units
    rw [keeps m units, whole.ofRatio_eq]
    exact ⟨whole, magnitude⟩
  · cases same
    have whole : (ofRatio false n 1).IsWhole n := isWhole_ofNat (small low)
    exact ⟨whole, isMagnitude_of_whole whole (small low)⟩

/-- Rounding gives a whole number that is off by at most a half. -/
theorem round_spec {x : Binary64} (magnitude : x.IsMagnitude) :
    ∃ n, x.round.IsWhole n ∧ x.round.IsMagnitude ∧ (n : ℚ) ≤ x.value + 1 / 2 ∧
      x.value + 1 / 2 < n + 1 := by
  obtain ⟨p, h, rfl, below⟩ := magnitude.exists_place
  have one := unitsPerOne_pos
  have lower := Nat.div_mul_le_self (2 * unitsAt p + unitsPerOne) (2 * unitsPerOne)
  have upper := Nat.lt_div_mul_add (a := 2 * unitsAt p + unitsPerOne) (b := 2 * unitsPerOne)
    (by omega)
  rw [Binary64.round, if_neg below.ne]
  generalize (2 * unitsAt p + unitsPerOne) / (2 * unitsPerOne) = n at *
  obtain ⟨whole, rounded⟩ : (ofRatio false n 1).IsWhole n ∧ (ofRatio false n 1).IsMagnitude := by
    apply isWhole_rounded magnitude
    · intro m units
      rw [units] at lower upper
      nlinarith
    · intro small
      nlinarith
  have lower' : (n * (2 * unitsPerOne) : ℚ) ≤ 2 * unitsAt p + unitsPerOne := by
    exact_mod_cast lower
  have upper' : (2 * unitsAt p + unitsPerOne : ℚ) < n * (2 * unitsPerOne) + 2 * unitsPerOne := by
    exact_mod_cast upper
  have pos : (0 : ℚ) < 2 * unitsPerOne := mul_pos two_pos units_pos
  have half : (number false p h).value + 1 / 2 =
      (2 * unitsAt p + unitsPerOne) / (2 * unitsPerOne) := by
    rw [value_number]
    field_simp
  rw [half]
  refine ⟨n, whole, rounded, (le_div_iff₀ pos).2 lower', (div_lt_iff₀ pos).2 ?_⟩
  rw [add_one_mul]
  exact upper'

/-- Rounding up gives the least whole number that is not below. -/
theorem ceil_spec {x : Binary64} (magnitude : x.IsMagnitude) :
    ∃ n, x.ceil.IsWhole n ∧ x.value ≤ n ∧ (n : ℚ) < x.value + 1 := by
  obtain ⟨p, h, rfl, below⟩ := magnitude.exists_place
  have one := unitsPerOne_pos
  have lower := Nat.div_mul_le_self (unitsAt p + (unitsPerOne - 1)) unitsPerOne
  have upper := Nat.lt_div_mul_add (a := unitsAt p + (unitsPerOne - 1)) one
  rw [Binary64.ceil, if_neg below.ne, if_neg Bool.false_ne_true]
  generalize (unitsAt p + (unitsPerOne - 1)) / unitsPerOne = n at *
  obtain ⟨whole, _⟩ : (ofRatio false n 1).IsWhole n ∧ (ofRatio false n 1).IsMagnitude := by
    apply isWhole_rounded magnitude
    · intro m units
      rw [units] at lower upper
      have above : m * unitsPerOne ≤ n * unitsPerOne := by omega
      have below : n * unitsPerOne < (m + 1) * unitsPerOne := by
        rw [Nat.succ_mul]
        omega
      exact Nat.le_antisymm (Nat.lt_succ_iff.1 (Nat.lt_of_mul_lt_mul_right below))
        (Nat.le_of_mul_le_mul_right above one)
    · intro small
      have below : n * unitsPerOne < (2 ^ 52 + 1) * unitsPerOne := by
        rw [Nat.succ_mul]
        omega
      have bound := Nat.lt_of_mul_lt_mul_right below
      omega
  have pos := units_pos
  have lower' : (n * unitsPerOne : ℚ) < unitsAt p + unitsPerOne := by
    exact_mod_cast (show n * unitsPerOne < unitsAt p + unitsPerOne by omega)
  have upper' : (unitsAt p : ℚ) ≤ n * unitsPerOne := by
    exact_mod_cast (show unitsAt p ≤ n * unitsPerOne by omega)
  rw [value_number]
  refine ⟨n, whole, (div_le_iff₀ pos).2 upper', ?_⟩
  rw [div_add_one pos.ne', lt_div_iff₀ pos]
  exact lower'

theorem IsWhole.toNat_toUInt64 {x : Binary64} {n : Nat} (whole : x.IsWhole n) :
    x.toUInt64.toNat = min n (2 ^ 64 - 1) := by
  obtain ⟨p, h, rfl, units⟩ := whole
  have size : UInt64.size = 2 ^ 64 := rfl
  by_cases top : p = infinityPlace
  · have many : 2 ^ 64 ≤ n := by
      rw [top, unitsAt_infinityPlace] at units
      have range {scale : Nat} (large : 64 ≤ scale) : 2 ^ 64 ≤ 2 ^ scale :=
        Nat.pow_le_pow_right (by decide) large
      rw [← Nat.eq_of_mul_eq_mul_right unitsPerOne_pos units]
      exact range (by decide)
    rw [toUInt64, if_pos top, Nat.min_eq_right (by omega)]
    rfl
  · rw [toUInt64, if_neg top, size, units, Nat.mul_div_cancel _ unitsPerOne_pos,
      UInt64.toNat_ofNat', Nat.mod_eq_of_lt (by omega)]

end PeriodicJobs.Binary64
