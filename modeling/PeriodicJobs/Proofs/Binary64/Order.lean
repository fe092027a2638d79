import PeriodicJobs.Binary64.Arithmetic
import PeriodicJobs.Proofs.Binary64.Nearest

set_option autoImplicit false

/- The numeric order and the operations that respect it. A sum rounds its exact value, so it grows
with its operands wherever it is a number at all. -/
namespace PeriodicJobs.Binary64

/-- Anything but a NaN. -/
def isNumber : Binary64 → Bool
  | .number .. => true
  | .nan _ => false

/-- A number whose sign is clear, infinity and zero among them. -/
def IsUnsigned (x : Binary64) : Prop := ∃ place h, x = .number false place h

theorem IsUnsigned.isNumber {x : Binary64} (unsigned : x.IsUnsigned) : x.isNumber = true := by
  obtain ⟨place, h, rfl⟩ := unsigned
  rfl

theorem IsUnsigned.eq_infinity {x : Binary64} (unsigned : x.IsUnsigned)
    (infinite : x.isFinite = false) : x = infinity false := by
  obtain ⟨place, h, rfl⟩ := unsigned
  simp only [isFinite, decide_eq_false_iff_not] at infinite
  simp only [infinity, ofPlace, number.injEq, true_and]
  omega

theorem isNumber_of_isFinite {x : Binary64} (finite : x.isFinite = true) :
    x.isNumber = true := by
  cases x with
  | nan => exact finite
  | number => rfl

@[simp] theorem number_le_number {s t : Bool} {p q : Nat} {hp : p ≤ infinityPlace}
    {hq : q ≤ infinityPlace} :
    number s p hp ≤ number t q hq ↔ signedPlace s p ≤ signedPlace t q := by
  change (decide _ = true) ↔ _
  exact decide_eq_true_iff

theorem unsigned_le_unsigned {p q : Nat} {hp : p ≤ infinityPlace} {hq : q ≤ infinityPlace} :
    number false p hp ≤ number false q hq ↔ p ≤ q := by
  rw [number_le_number]
  simp [signedPlace]

/-- The place counted from zero, downward for negative numbers. -/
def distance : Binary64 → Int
  | .number s p _ => signedPlace s p
  | .nan _ => 0

theorem le_iff_distance {a b : Binary64} (left : a.isNumber = true) (right : b.isNumber = true) :
    a ≤ b ↔ a.distance ≤ b.distance := by
  cases a with
  | nan => cases left
  | number => cases b with
    | nan => cases right
    | number => exact number_le_number

@[simp] theorem number_lt_number {s t : Bool} {p q : Nat} {hp : p ≤ infinityPlace}
    {hq : q ≤ infinityPlace} :
    number s p hp < number t q hq ↔ signedPlace s p < signedPlace t q := by
  change (decide _ = true) ↔ _
  exact decide_eq_true_iff

theorem not_lt_of_le {a b : Binary64} (le : a ≤ b) : ¬ b < a := by
  cases a with
  | nan => cases le
  | number => cases b with
    | nan => cases le
    | number =>
      rw [number_le_number] at le
      rw [number_lt_number]
      omega

theorem isNumber_of_le {a b : Binary64} (le : a ≤ b) :
    a.isNumber = true ∧ b.isNumber = true := by
  cases a <;> cases b <;> first | exact ⟨rfl, rfl⟩ | cases le

theorem isNumber_of_lt {a b : Binary64} (lt : a < b) :
    a.isNumber = true ∧ b.isNumber = true := by
  cases a <;> cases b <;> first | exact ⟨rfl, rfl⟩ | cases lt

theorem lt_iff_distance {a b : Binary64} (left : a.isNumber = true) (right : b.isNumber = true) :
    a < b ↔ a.distance < b.distance := by
  cases a with
  | nan => cases left
  | number => cases b with
    | nan => cases right
    | number => exact number_lt_number

/-- Away from NaN the order is total. -/
theorem le_iff_not_lt {a b : Binary64} (left : a.isNumber = true) (right : b.isNumber = true) :
    a ≤ b ↔ ¬ b < a := by
  rw [le_iff_distance left right, lt_iff_distance right left, Int.not_lt]

theorem le_of_lt {a b : Binary64} (lt : a < b) : a ≤ b := by
  obtain ⟨left, right⟩ := isNumber_of_lt lt
  rw [lt_iff_distance left right] at lt
  rw [le_iff_distance left right]
  omega

theorem le_refl_of_isNumber {x : Binary64} (number : x.isNumber = true) : x ≤ x := by
  cases x with
  | nan => cases number
  | number => simp

@[simp] theorem ofPlace_place (s : Bool) {p : Nat} (hp : p ≤ infinityPlace) :
    ofPlace s p = .number s p hp := by
  simp only [ofPlace, Nat.min_eq_left hp]

theorem isUnsigned_of_pos {x : Binary64} (number : x.isNumber = true) (positive : ¬ x ≤ .zero) :
    x.IsUnsigned := by
  cases x with
  | nan => cases number
  | number s p h =>
    cases s with
    | false => exact ⟨p, h, rfl⟩
    | true =>
      refine absurd ?_ positive
      rw [zero, ofPlace_place false (Nat.zero_le _), number_le_number]
      simp [signedPlace]

/-- The place that an exact number of units is rounded to, counted by its sign. -/
def signedNearest (units : Int) : Int :=
  signedPlace (units < 0) (min (nearestPlace units.natAbs 1) infinityPlace)

theorem signedNearest_mono {a b : Int} (le : a ≤ b) : signedNearest a ≤ signedNearest b := by
  have grow {m n : Nat} (le : m ≤ n) : nearestPlace m 1 ≤ nearestPlace n 1 :=
    nearestPlace_mono Nat.one_pos Nat.one_pos (by omega)
  simp only [signedNearest, signedPlace]
  by_cases negative : b < 0
  · have more := grow (show b.natAbs ≤ a.natAbs by omega)
    simp only [negative, show a < 0 by omega, decide_true, ↓reduceIte]
    omega
  · by_cases negative' : a < 0
    · simp only [negative, negative', decide_true, decide_false, Bool.false_eq_true, ↓reduceIte]
      omega
    · have more := grow (show a.natAbs ≤ b.natAbs by omega)
      simp only [negative, negative', decide_false, Bool.false_eq_true, ↓reduceIte]
      omega

theorem signedUnits_mono {s t : Bool} {p q : Nat} (le : signedPlace s p ≤ signedPlace t q) :
    signedUnits s p ≤ signedUnits t q := by
  have grow := @unitsAt_le_iff p q
  have shrink := @unitsAt_le_iff q p
  cases s <;> cases t <;> simp only [signedPlace, signedUnits, Bool.false_eq_true, ↓reduceIte] at *
  · omega
  · have zero : p = 0 := by omega
    have zero' : q = 0 := by omega
    simp [zero, zero']
  · omega
  · omega

/-- A sum of finite numbers rounds the exact sum. -/
theorem add_finite {s t : Bool} {p q : Nat} {hp : p ≤ infinityPlace} {hq : q ≤ infinityPlace}
    (finite : p ≠ infinityPlace) (finite' : q ≠ infinityPlace) :
    (number s p hp + number t q hq).isNumber = true ∧
      (number s p hp + number t q hq).distance =
        signedNearest (signedUnits s p + signedUnits t q) := by
  change (add _ _).isNumber = true ∧ (add _ _).distance = _
  simp only [add, finite, finite', ↓reduceIte]
  refine ⟨rfl, ?_⟩
  by_cases zero : signedUnits s p + signedUnits t q = 0
  · simp [zero, signedNearest, distance, ofUnits, ofPlace, signedPlace]
  · simp only [zero, ↓reduceIte, signedNearest, distance, ofUnits, ofPlace]

theorem infinity_add {s : Bool} {hp : infinityPlace ≤ infinityPlace} {c : Binary64}
    (sum : (number s infinityPlace hp + c).isNumber = true) :
    number s infinityPlace hp + c = infinity s := by
  change (add _ c).isNumber = true at sum
  change add _ c = _
  cases c with
  | nan => simp [add, isNumber] at sum
  | number t q hq =>
    simp only [add, ↓reduceIte] at sum ⊢
    split at sum
    · cases sum
    · rename_i same
      rw [if_neg same]

theorem finite_add_infinity {s t : Bool} {p : Nat} {hp : p ≤ infinityPlace}
    {hq : infinityPlace ≤ infinityPlace} (finite : p ≠ infinityPlace) :
    number s p hp + number t infinityPlace hq = infinity t := by
  change add _ _ = _
  simp only [add, finite, ↓reduceIte]

theorem signedPlace_bounds {s : Bool} {p : Nat} (hp : p ≤ infinityPlace) :
    -infinityPlace ≤ signedPlace s p ∧ signedPlace s p ≤ infinityPlace := by
  cases s <;> simp only [signedPlace, Bool.false_eq_true, ↓reduceIte] <;> omega

theorem le_infinity {x : Binary64} (number : x.isNumber = true) : x ≤ infinity false := by
  cases x with
  | nan => cases number
  | number s p hp =>
    rw [infinity, ofPlace_place false (Nat.le_refl _), number_le_number]
    exact (signedPlace_bounds hp).2

theorem infinity_le {x : Binary64} (number : x.isNumber = true) : infinity true ≤ x := by
  cases x with
  | nan => cases number
  | number s p hp =>
    rw [infinity, ofPlace_place true (Nat.le_refl _), number_le_number]
    exact (signedPlace_bounds hp).1

theorem infinity_le_infinity (s : Bool) : infinity s ≤ infinity s :=
  le_refl_of_isNumber rfl

/-- Adding the same number to both sides keeps the order, if both sums are numbers. -/
theorem add_le_add_right {a b c : Binary64} (le : a ≤ b) (left : (a + c).isNumber = true)
    (right : (b + c).isNumber = true) : a + c ≤ b + c := by
  obtain ⟨numberA, numberB⟩ := isNumber_of_le le
  cases a with
  | nan => cases numberA
  | number s p hp =>
  cases b with
  | nan => cases numberB
  | number t q hq =>
  cases c with
  | nan => cases left
  | number u r hr =>
  rw [number_le_number] at le
  by_cases topA : p = infinityPlace
  · subst topA
    rw [infinity_add left]
    cases s with
    | true => exact infinity_le right
    | false =>
      -- Only positive infinity is not below positive infinity.
      have positive : t = false ∧ q = infinityPlace := by
        have some := Nat.pos_of_ne_zero (show infinityPlace ≠ 0 by decide)
        cases t <;> simp only [signedPlace, Bool.false_eq_true, ↓reduceIte] at le <;>
          constructor <;> first | rfl | omega
      obtain ⟨rfl, rfl⟩ := positive
      rw [infinity_add right]
      exact infinity_le_infinity false
  · by_cases topB : q = infinityPlace
    · subst topB
      rw [infinity_add right]
      cases t with
      | false => exact le_infinity left
      | true =>
        have bounds := signedPlace_bounds (s := s) hp
        cases s <;> simp only [signedPlace, Bool.false_eq_true, ↓reduceIte] at le <;> omega
    · by_cases topC : r = infinityPlace
      · subst topC
        rw [finite_add_infinity topA, finite_add_infinity topB]
        exact infinity_le_infinity u
      · rw [le_iff_distance left right, (add_finite topA topC).2, (add_finite topB topC).2]
        exact signedNearest_mono (Int.add_le_add_right (signedUnits_mono le) _)

/-- Infinities of opposite signs, which have no sum. -/
def Cancel (a b : Binary64) : Prop := ∃ s, a = infinity s ∧ b = infinity (!s)

theorem cancel_number {s t : Bool} {p q : Nat} {hp : p ≤ infinityPlace} {hq : q ≤ infinityPlace} :
    Cancel (number s p hp) (number t q hq) ↔ p = infinityPlace ∧ q = infinityPlace ∧ s ≠ t := by
  simp only [Cancel, infinity, ofPlace_place _ (Nat.le_refl infinityPlace), number.injEq]
  constructor
  · rintro ⟨u, ⟨rfl, top⟩, rfl, top'⟩
    exact ⟨top, top', by simp⟩
  · rintro ⟨top, top', differ⟩
    exact ⟨s, ⟨rfl, top⟩, Bool.eq_not_of_ne differ.symm, top'⟩

theorem not_cancel_of_isFinite {a b : Binary64} (finite : b.isFinite = true) : ¬ Cancel a b := by
  rintro ⟨s, _, rfl⟩
  simp [infinity, ofPlace, isFinite] at finite

/-- Nothing but a NaN or an opposite infinity keeps two operands from having a sum. -/
theorem isNumber_add_iff {a b : Binary64} :
    (a + b).isNumber = true ↔ a.isNumber = true ∧ b.isNumber = true ∧ ¬ Cancel a b := by
  change (add a b).isNumber = true ↔ _
  cases a with
  | nan => simp [add, isNumber]
  | number s p hp =>
  cases b with
  | nan => simp [add, isNumber]
  | number t q hq =>
  rw [cancel_number]
  by_cases topA : p = infinityPlace
  · by_cases topB : q = infinityPlace
    · by_cases same : s = t
      · simp [add, topA, topB, same, isNumber, infinity, ofPlace]
      · simp [add, topA, topB, same, isNumber]
    · simp [add, topA, topB, isNumber, infinity, ofPlace]
  · by_cases topB : q = infinityPlace
    · simp [add, topA, topB, isNumber, infinity, ofPlace]
    · simp [add, topA, topB, isNumber, ofUnits, ofPlace]

theorem isNumber_add {a b : Binary64} (number : a.isNumber = true) (finite : b.isFinite = true) :
    (a + b).isNumber = true :=
  isNumber_add_iff.2 ⟨number, isNumber_of_isFinite finite, not_cancel_of_isFinite finite⟩

theorem IsUnsigned.add {a b : Binary64} (left : a.IsUnsigned) (right : b.IsUnsigned) :
    (a + b).IsUnsigned := by
  obtain ⟨p, hp, rfl⟩ := left
  obtain ⟨q, hq, rfl⟩ := right
  change (Binary64.add _ _).IsUnsigned
  simp only [Binary64.add]
  split
  · simp only [ne_eq, not_true_eq_false, and_false, ↓reduceIte]
    exact ⟨_, _, rfl⟩
  · split
    · exact ⟨_, _, rfl⟩
    · have sign : (if signedUnits false p + signedUnits false q = 0 then false && false
          else decide (signedUnits false p + signedUnits false q < 0)) = false := by
        simp only [signedUnits, Bool.false_eq_true, ↓reduceIte, Bool.and_false]
        split
        · rfl
        · exact decide_eq_false (by omega)
      rw [sign]
      exact ⟨_, _, rfl⟩

theorem IsUnsigned.mul {a b : Binary64} (left : a.IsUnsigned) (right : b.IsUnsigned)
    (finite : a.isFinite = true) (finite' : b.isFinite = true) : (a * b).IsUnsigned := by
  obtain ⟨p, hp, rfl⟩ := left
  obtain ⟨q, hq, rfl⟩ := right
  simp only [isFinite, decide_eq_true_eq] at finite finite'
  change (Binary64.mul _ _).IsUnsigned
  simp only [Binary64.mul, Nat.ne_of_lt finite, Nat.ne_of_lt finite', or_self, ↓reduceIte]
  exact ⟨_, _, rfl⟩

end PeriodicJobs.Binary64
