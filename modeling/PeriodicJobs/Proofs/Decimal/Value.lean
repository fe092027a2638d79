import PeriodicJobs.Decimal.Shortest
import PeriodicJobs.Proofs.Binary64.Nearest

set_option autoImplicit false

/- The value of a numeral decides the number that it is read as. The clamps of huge and tiny
exponents never change the nearest number. -/
namespace PeriodicJobs.Decimal

theorem digits_pos (n : Nat) : 0 < (digits n).length := Nat.length_toDigits_pos

theorem lt_pow_digits (n : Nat) : n < 10 ^ (digits n).length :=
  (Nat.length_toDigits_le_iff (by decide) (digits_pos n)).1 (Nat.le_refl _)

theorem pow_digits_le {n : Nat} (nonzero : n ≠ 0) : 10 ^ ((digits n).length - 1) ≤ n := by
  by_cases single : (digits n).length - 1 = 0
  · rw [single]
    omega
  · have longer := digits_pos n
    have fits := (Nat.length_toDigits_le_iff (b := 10) (n := n) (by decide)
      (Nat.pos_of_ne_zero single))
    simp only [digits] at *
    omega

/-- The value of a numeral without its sign is a quotient; this is the dividend. -/
def Numeral.numerator (n : Numeral) : Nat := n.coefficient * 10 ^ n.exponent.toNat

def Numeral.denominator (n : Numeral) : Nat := 10 ^ (-n.exponent).toNat

theorem Numeral.denominator_pos (n : Numeral) : 0 < n.denominator := Nat.pow_pos (by decide)

theorem nearestPlace_of_tiny {num den : Nat} (tiny : 2 * num < den) :
    Binary64.nearestPlace num den = 0 := by
  have none : num / den = 0 := Nat.div_eq_of_lt (by omega)
  have rest : num % den = num := Nat.mod_eq_of_lt (by omega)
  simp [Binary64.nearestPlace, Binary64.roundHalfEven, none, rest, tiny]

theorem ofRatio_of_huge (s : Bool) {num den : Nat} (positive : 0 < den)
    (huge : 10 ^ 310 * den ≤ num) : Binary64.ofRatio s num den = Binary64.infinity s := by
  have top : Binary64.infinityPlace ≤
      Binary64.nearestPlace (num * Binary64.unitsPerOne) den := by
    apply Binary64.le_nearestPlace positive
    rw [Binary64.unitsAt_infinityPlace]
    have powers : 2 ^ 1024 ≤ 10 ^ 310 := by decide +kernel
    calc 2 ^ 1024 * Binary64.unitsPerOne * den
        ≤ 10 ^ 310 * Binary64.unitsPerOne * den :=
          Nat.mul_le_mul_right _ (Nat.mul_le_mul_right _ powers)
      _ = 10 ^ 310 * den * Binary64.unitsPerOne := Nat.mul_right_comm ..
      _ ≤ num * Binary64.unitsPerOne := Nat.mul_le_mul_right _ huge
  simp only [Binary64.ofRatio, Binary64.ofUnits, Binary64.infinity, Binary64.ofPlace,
    Nat.min_eq_right top, Nat.min_self]

theorem ofRatio_of_tiny (s : Bool) {num den : Nat} (positive : 0 < den)
    (tiny : 10 ^ 326 * num ≤ den) : Binary64.ofRatio s num den = Binary64.ofPlace s 0 := by
  have powers : 2 * Binary64.unitsPerOne < 10 ^ 326 := by decide +kernel
  have half : 2 * (num * Binary64.unitsPerOne) < den := by
    by_cases zero : num = 0
    · simpa [zero] using positive
    · calc 2 * (num * Binary64.unitsPerOne) = 2 * Binary64.unitsPerOne * num := by ring
        _ < 10 ^ 326 * num := Nat.mul_lt_mul_of_pos_right powers (Nat.pos_of_ne_zero zero)
        _ ≤ den := tiny
  rw [Binary64.ofRatio, Binary64.ofUnits, nearestPlace_of_tiny half]

/-- A numeral is read as the number nearest to its value. -/
theorem Numeral.toBinary64_eq (n : Numeral) :
    n.toBinary64 = Binary64.ofRatio n.negative n.numerator n.denominator := by
  have fewer := lt_pow_digits n.coefficient
  have some := digits_pos n.coefficient
  simp only [toBinary64, Nat.pow_eq]
  split
  · rename_i zero
    simp [numerator, zero, Binary64.ofRatio, Binary64.ofUnits]
  · rename_i nonzero
    split
    · rename_i large
      refine (ofRatio_of_huge _ n.denominator_pos ?_).symm
      calc 10 ^ 310 * n.denominator = 10 ^ (310 + (-n.exponent).toNat) := by
            rw [denominator, Nat.pow_add]
        _ ≤ 10 ^ ((digits n.coefficient).length - 1 + n.exponent.toNat) :=
            Nat.pow_le_pow_right (by decide) (by omega)
        _ = 10 ^ ((digits n.coefficient).length - 1) * 10 ^ n.exponent.toNat := Nat.pow_add ..
        _ ≤ n.numerator := Nat.mul_le_mul_right _ (pow_digits_le nonzero)
    · split
      · rename_i small
        refine (ofRatio_of_tiny _ n.denominator_pos ?_).symm
        have whole : n.exponent.toNat = 0 := by omega
        calc 10 ^ 326 * n.numerator ≤ 10 ^ 326 * 10 ^ (digits n.coefficient).length := by
              rw [numerator, whole]
              omega
          _ = 10 ^ (326 + (digits n.coefficient).length) := by rw [Nat.pow_add]
          _ ≤ n.denominator := by
              rw [denominator]
              exact Nat.pow_le_pow_right (by decide) (by omega)
      · split
        · rename_i whole
          rw [numerator, denominator, show (-n.exponent).toNat = 0 by omega, Nat.pow_zero]
        · rename_i fraction
          rw [numerator, denominator, show n.exponent.toNat = 0 by omega, Nat.pow_zero,
            Nat.mul_one]

/-- Numerals of one sign and one value are read as the same number. -/
theorem Numeral.toBinary64_congr {m n : Numeral} (sign : m.negative = n.negative)
    (value : m.numerator * n.denominator = n.numerator * m.denominator) :
    m.toBinary64 = n.toBinary64 := by
  have place : Binary64.nearestPlace (m.numerator * Binary64.unitsPerOne) m.denominator =
      Binary64.nearestPlace (n.numerator * Binary64.unitsPerOne) n.denominator := by
    apply Binary64.nearestPlace_congr m.denominator_pos n.denominator_pos
    rw [Nat.mul_right_comm, value, Nat.mul_right_comm]
  simp only [toBinary64_eq, sign, Binary64.ofRatio, Binary64.ofUnits, place]

/-- The exact numeral of a number has its value. -/
theorem exact_value (s : Bool) (place : Nat) :
    (exact s place).numerator * Binary64.unitsPerOne =
      Binary64.unitsAt place * (exact s place).denominator := by
  have powers : (10 : Nat) ^ (1074 - Binary64.doublings place) =
      2 ^ (1074 - Binary64.doublings place) * 5 ^ (1074 - Binary64.doublings place) := by
    rw [← Nat.mul_pow]
  have units : (2 : Nat) ^ (Binary64.doublings place - 1074) * Binary64.unitsPerOne =
      2 ^ Binary64.doublings place * 2 ^ (1074 - Binary64.doublings place) := by
    rw [Binary64.unitsPerOne_eq, ← Nat.pow_add, ← Nat.pow_add]
    exact congrArg (2 ^ ·) (by omega)
  have exponent : (exact s place).exponent.toNat = 0 := by
    simp only [exact]
    omega
  have exponent' : (-(exact s place).exponent).toNat = 1074 - Binary64.doublings place := by
    simp only [exact]
    omega
  rw [Numeral.numerator, Numeral.denominator, exponent, exponent', powers, Binary64.unitsAt_eq]
  simp only [exact, Nat.pow_eq, Nat.pow_zero, Nat.mul_one]
  calc _ = Binary64.significand place * 5 ^ (1074 - Binary64.doublings place) *
        (2 ^ (Binary64.doublings place - 1074) * Binary64.unitsPerOne) := by ring
    _ = _ := by
      rw [units]
      ring

theorem exact_toBinary64 (s : Bool) (place : Nat) :
    (exact s place).toBinary64 = Binary64.ofPlace s place := by
  rw [Numeral.toBinary64_eq, Binary64.ofRatio, exact_value, Binary64.ofUnits,
    Binary64.nearestPlace_unitsAt place (Numeral.denominator_pos _)]
  rfl

/-- Of two candidates of one sign, the first one that reads back is chosen. -/
theorem firstReading_spec {n nearer other cut : Numeral} {x : Binary64}
    (sign : nearer.negative = n.negative) (sign' : other.negative = n.negative)
    (found : (if nearer.toBinary64 = x then some nearer
      else if other.toBinary64 = x then some other else none) = some cut) :
    cut.toBinary64 = x ∧ cut.negative = n.negative := by
  split at found
  · rename_i reads
    cases found
    exact ⟨reads, sign⟩
  · split at found
    · rename_i reads
      cases found
      exact ⟨reads, sign'⟩
    · cases found

theorem Numeral.cut?_spec {n cut : Numeral} {x : Binary64} {dropped : Nat}
    (found : n.cut? x dropped = some cut) :
    cut.toBinary64 = x ∧ cut.negative = n.negative := by
  simp only [cut?, Nat.pow_eq] at found
  by_cases down : 2 * (n.coefficient % 10 ^ dropped) < 10 ^ dropped
  · simp only [down, ↓reduceIte] at found
    refine firstReading_spec ?_ ?_ found <;> rfl
  · simp only [down, ↓reduceIte] at found
    refine firstReading_spec ?_ ?_ found <;> rfl

theorem Numeral.shorten_spec (n : Numeral) {x : Binary64} (reads : n.toBinary64 = x)
    (dropped : Nat) :
    (n.shorten x dropped).toBinary64 = x ∧ (n.shorten x dropped).negative = n.negative := by
  induction dropped with
  | zero => exact ⟨reads, rfl⟩
  | succ dropped ih =>
    simp only [shorten]
    split
    · rename_i cut found
      exact cut?_spec found
    · exact ih

/-- The shortest numeral of a number reads back as it. -/
theorem shortest_spec (s : Bool) (place : Nat) :
    (shortest s place).toBinary64 = Binary64.ofPlace s place ∧
      (shortest s place).negative = s :=
  Numeral.shorten_spec (exact s place) (exact_toBinary64 s place) _

end PeriodicJobs.Decimal
