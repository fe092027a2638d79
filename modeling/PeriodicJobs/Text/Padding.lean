set_option autoImplicit false

/- Fixed-width fields: a text on the left, on the right or in the middle of a field of blanks. -/
namespace PeriodicJobs.Text

inductive Side where
  | left
  | right
  | center
deriving DecidableEq

/-- How a value is set in a field; without a side the kind of value decides. -/
structure Field where
  width : UInt16 := 0
  precision : Option UInt16 := none
  side : Option Side := none

/-- A width or a precision, if it is in the range of fields. -/
def fieldSize? (size : Nat) : Option UInt16 :=
  if size < UInt16.size then some (UInt16.ofNat size) else none

def Field.sized? (width : Nat) (precision : Option Nat) (side : Option Side) : Option Field := do
  let width ← fieldSize? width
  match precision with
  | none => return { width, side }
  | some precision => return { width, precision := some (← fieldSize? precision), side }

/-- Pads a text to a width. A longer text stays whole, and in the middle an odd blank goes right. -/
def pad (side : Side) (width : Nat) (text : List Char) : List Char :=
  let blanks := width - text.length
  match side with
  | .left => text ++ List.replicate blanks ' '
  | .right => List.replicate blanks ' ' ++ text
  | .center => List.replicate (blanks / 2) ' ' ++ text ++ List.replicate (blanks - blanks / 2) ' '

/-- Sets words: the precision cuts them first, and they lean left. -/
def Field.words (field : Field) (text : List Char) : List Char :=
  let cut := match field.precision with
    | some precision => text.take precision.toNat
    | none => text
  pad (field.side.getD .left) field.width.toNat cut

/-- Sets an integer: it is never cut, and it leans right. -/
def Field.integer (field : Field) (text : List Char) : List Char :=
  pad (field.side.getD .right) field.width.toNat text

end PeriodicJobs.Text
