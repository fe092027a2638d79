import PeriodicJobs.Decimal.Numeral

set_option autoImplicit false

/- The shortest decimal text of a number: the fewest digits that read back as it, of these the
nearest to it, an exact tie going away from zero. The text is positional, without an exponent. -/
namespace PeriodicJobs.Decimal

/-- The finite number at a place as a numeral, without rounding. -/
def exact (negative : Bool) (place : Nat) : Numeral :=
  let doubled := Binary64.doublings place
  { negative
    coefficient := Binary64.significand place * Nat.pow 2 (doubled - 1074) * Nat.pow 5 (1074 - doubled)
    exponent := -(1074 - doubled : Nat) }

/-- Of the two numerals next to `n` that end `dropped` digits earlier, the nearer one that reads
back as `x`, else the other one if that does. -/
def Numeral.cut? (n : Numeral) (x : Binary64) (dropped : Nat) : Option Numeral :=
  let step := Nat.pow 10 dropped
  let below : Numeral := ⟨n.negative, n.coefficient / step, n.exponent + dropped⟩
  let above : Numeral := ⟨n.negative, n.coefficient / step + 1, n.exponent + dropped⟩
  let (nearer, other) :=
    if 2 * (n.coefficient % step) < step then (below, above) else (above, below)
  if nearer.toBinary64 = x then some nearer
  else if other.toBinary64 = x then some other
  else none

/-- The first cut that reads back, dropping fewer and fewer digits. -/
def Numeral.shorten (n : Numeral) (x : Binary64) : Nat → Numeral
  | 0 => n
  | dropped + 1 =>
    match n.cut? x dropped with
    | some cut => cut
    | none => n.shorten x dropped

def shortest (negative : Bool) (place : Nat) : Numeral :=
  let n := exact negative place
  n.shorten (Binary64.ofPlace negative place) (digits n.coefficient).length

/-- The digits after the point, `places` of them and no zeros at the end. -/
def fractionDigits (places n : Nat) : List Char :=
  let ds := digits n
  ((List.replicate (places - ds.length) '0' ++ ds).reverse.dropWhile (· == '0')).reverse

/-- The positional text of a numeral: no exponent, and a point only before a digit. -/
def Numeral.text (n : Numeral) : List Char :=
  let sign := if n.negative then ['-'] else []
  let places := (-n.exponent).toNat
  let scale := Nat.pow 10 places
  let fraction := fractionDigits places (n.coefficient % scale)
  sign ++ digits (n.coefficient * Nat.pow 10 n.exponent.toNat / scale) ++
    (if fraction.isEmpty then [] else '.' :: fraction)

end PeriodicJobs.Decimal

namespace PeriodicJobs.Binary64

/-- The shortest text of a number, a word for the values that have no digits. -/
def text : Binary64 → String
  | .nan _ => "NaN"
  | .number negative place _ =>
    if place = infinityPlace then (if negative then "-inf" else "inf")
    else String.ofList (Decimal.shortest negative place).text

instance : ToString Binary64 := ⟨text⟩

end PeriodicJobs.Binary64
