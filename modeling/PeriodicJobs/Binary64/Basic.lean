set_option autoImplicit false

/- The numbers of the binary64 format, their classes and their two orders.

The numbers of one sign stand in a line: zero, the least positive number 2^-1074, and so on up to
the largest finite number and infinity. A number is its sign and its place in that line, so two
numbers of one sign compare as their places do, and equal values of this type are the same number
bit for bit, apart from the payload of a NaN, which is not kept. -/
namespace PeriodicJobs

/-- The place of infinity, one past the largest finite number. -/
def Binary64.infinityPlace : Nat := 2047 * Nat.pow 2 52

/-- A binary64 number. A NaN keeps its sign, which the total order sees. -/
inductive Binary64 where
  | nan (negative : Bool)
  | number (negative : Bool) (place : Nat) (place_le : place ≤ Binary64.infinityPlace)
deriving DecidableEq

namespace Binary64

/-- The number at a place; a place past infinity is infinity. -/
def ofPlace (negative : Bool) (place : Nat) : Binary64 :=
  .number negative (min place infinityPlace) (Nat.min_le_right _ _)

def zero : Binary64 := ofPlace false 0

def infinity (negative : Bool) : Binary64 := ofPlace negative infinityPlace

instance : Inhabited Binary64 := ⟨zero⟩

def isFinite : Binary64 → Bool
  | .number _ place _ => place < infinityPlace
  | .nan _ => false

/-- Zero of either sign. -/
def isZero : Binary64 → Bool
  | .number _ place _ => place == 0
  | .nan _ => false

def neg : Binary64 → Binary64
  | .number negative place h => .number (!negative) place h
  | .nan negative => .nan (!negative)

def abs : Binary64 → Binary64
  | .number _ place h => .number false place h
  | .nan _ => .nan false

instance : Neg Binary64 := ⟨neg⟩

/-- The place counted upward or downward from zero, by the sign. -/
def signedPlace (negative : Bool) (place : Nat) : Int :=
  if negative then -place else place

/-- The numeric order: the two zeros are equal, and a NaN is neither above nor below anything. -/
def le : Binary64 → Binary64 → Bool
  | .number s p _, .number t q _ => signedPlace s p ≤ signedPlace t q
  | _, _ => false

def lt : Binary64 → Binary64 → Bool
  | .number s p _, .number t q _ => signedPlace s p < signedPlace t q
  | _, _ => false

instance : LE Binary64 := ⟨fun a b => a.le b = true⟩
instance : LT Binary64 := ⟨fun a b => a.lt b = true⟩

instance (a b : Binary64) : Decidable (a ≤ b) := inferInstanceAs (Decidable (a.le b = true))
instance (a b : Binary64) : Decidable (a < b) := inferInstanceAs (Decidable (a.lt b = true))

/-- The larger of two numbers; a NaN gives way to the other operand. -/
def max (a b : Binary64) : Binary64 :=
  match a with
  | .nan _ => b
  | .number .. => if a < b then b else a

/-- The key of the total order: negative NaNs, the negative numbers from infinity up to -0, then
0 and the positive numbers, then positive NaNs. -/
def totalKey : Binary64 → Int
  | .nan true => -(infinityPlace + 2 : Nat)
  | .number true place _ => -(place + 1 : Nat)
  | .number false place _ => place
  | .nan false => (infinityPlace + 1 : Nat)

end Binary64

end PeriodicJobs
