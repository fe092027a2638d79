import PeriodicJobs.Binary64.Basic

set_option autoImplicit false

/- Rounding to the nearest number of the format, ties to even.

Every finite number is a whole count of units of 2^-1074. The spacing of the line is one unit up to
place 2^53 and doubles every 2^52 places after that, so the evenness of a place is the evenness of
the number's last bit, and rounding past the largest finite number ends at infinity. -/
namespace PeriodicJobs.Binary64

/-- The units of 2^-1074 in the number one. -/
def unitsPerOne : Nat := Nat.pow 2 1074

/-- How often the spacing has doubled at a place. -/
def doublings (place : Nat) : Nat := place / Nat.pow 2 52 - 1

/-- The spacings below the number at a place. -/
def significand (place : Nat) : Nat := place - doublings place * Nat.pow 2 52

/-- The number at a place, in units. -/
def unitsAt (place : Nat) : Nat := significand place * Nat.pow 2 (doublings place)

def signedUnits (negative : Bool) (place : Nat) : Int :=
  if negative then -unitsAt place else unitsAt place

/-- The whole number nearest to `num / den`, an exact half going to the even neighbour. -/
def roundHalfEven (num den : Nat) : Nat :=
  let whole := num / den
  let rest := num % den
  if 2 * rest < den ∨ 2 * rest = den ∧ whole % 2 = 0 then whole else whole + 1

/-- The place nearest to `num / den` units. -/
def nearestPlace (num den : Nat) : Nat :=
  let doubled := (num / den).log2 - 52
  doubled * Nat.pow 2 52 + roundHalfEven num (den * Nat.pow 2 doubled)

def ofUnits (negative : Bool) (num den : Nat) : Binary64 :=
  ofPlace negative (nearestPlace num den)

/-- The number nearest to `num / den`. -/
def ofRatio (negative : Bool) (num den : Nat) : Binary64 :=
  ofUnits negative (num * unitsPerOne) den

def ofNat (n : Nat) : Binary64 := ofRatio false n 1

def one : Binary64 := ofNat 1

end PeriodicJobs.Binary64
