import PeriodicJobs.Binary64.Rounding

set_option autoImplicit false

/- Decimal numerals, how they are read from text, and the binary64 number nearest to one. -/
namespace PeriodicJobs.Decimal

/-- The decimal number `coefficient · 10 ^ exponent` with a sign. -/
structure Numeral where
  negative : Bool
  coefficient : Nat
  exponent : Int

def digits (n : Nat) : List Char := Nat.toDigits 10 n

def ofDigits (ds : List Char) : Nat := Nat.ofDigitChars 10 ds 0

/-- The nearest number. Beyond 10^310 lies infinity and below 10^-325 zero, so a huge exponent
never makes a huge power. -/
def Numeral.toBinary64 (n : Numeral) : Binary64 :=
  let size : Int := (digits n.coefficient).length + n.exponent
  if n.coefficient = 0 then Binary64.ofPlace n.negative 0
  else if 310 < size then Binary64.infinity n.negative
  else if size < -325 then Binary64.ofPlace n.negative 0
  else if 0 ≤ n.exponent then
    Binary64.ofRatio n.negative (n.coefficient * Nat.pow 10 n.exponent.toNat) 1
  else Binary64.ofRatio n.negative n.coefficient (Nat.pow 10 (-n.exponent).toNat)

/-- Reads `e` or `E`, an optional sign and digits, up to the end of the text; nothing at all is
the exponent zero. -/
def exponent? : List Char → Option Int
  | [] => some 0
  | mark :: rest =>
    if mark ≠ 'e' ∧ mark ≠ 'E' then none
    else
      let (negative, ds) : Bool × List Char :=
        match rest with
        | '-' :: ds => (true, ds)
        | '+' :: ds => (false, ds)
        | ds => (false, ds)
      if ds.isEmpty || !ds.all Char.isDigit then none
      else some (if negative then -ofDigits ds else ofDigits ds)

/-- Reads digits with at most one point among or beside them and an optional exponent. -/
def Numeral.read? (negative : Bool) (text : List Char) : Option Numeral :=
  let whole := text.takeWhile Char.isDigit
  let (fraction, rest) : List Char × List Char :=
    match text.dropWhile Char.isDigit with
    | '.' :: rest => (rest.takeWhile Char.isDigit, rest.dropWhile Char.isDigit)
    | rest => ([], rest)
  if whole.isEmpty && fraction.isEmpty then none
  else (exponent? rest).map fun e => ⟨negative, ofDigits (whole ++ fraction), e - fraction.length⟩

/-- Reads what follows the sign of a number: a word for infinity or NaN in any letter case, or a
numeral. -/
def unsigned? (negative : Bool) (text : List Char) : Option Binary64 :=
  let word := String.ofList (text.map Char.toLower)
  if word = "inf" ∨ word = "infinity" then some (Binary64.infinity negative)
  else if word = "nan" then some (.nan negative)
  else (Numeral.read? negative text).map Numeral.toBinary64

def real? : List Char → Option Binary64
  | '-' :: text => unsigned? true text
  | '+' :: text => unsigned? false text
  | text => unsigned? false text

/-- Reads a whole text as a 64-bit word: an optional plus sign and digits within the range. -/
def word? (text : List Char) : Option UInt64 :=
  let ds := match text with
    | '+' :: ds => ds
    | ds => ds
  if ds.isEmpty || !ds.all Char.isDigit then none
  else
    let n := ofDigits ds
    if n < UInt64.size then some (UInt64.ofNat n) else none

end PeriodicJobs.Decimal
