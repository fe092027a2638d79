import PeriodicJobs.Text.Basic
import PeriodicJobs.Window

set_option autoImplicit false

/- The cells of a task-set table, each kind with its reader. -/
namespace PeriodicJobs

inductive CellFault where
  | notANumber
  | notFinite
  | negative
  | badTaskName
  | badRange
  | inverted (window : InvertedWindow)
deriving DecidableEq

def CellFault.message : CellFault → String
  | .notANumber => "not a number"
  | .notFinite => "value must be finite"
  | .negative => "value must not be negative"
  | .badTaskName => "expected a task name of the form 'T(<id> <n>)'"
  | .badRange => "expected 'uniform params: [<min> to <max>]'"
  | .inverted window => window.message

namespace Cell

/-- What stands between an opening and a closing text. -/
def inside? (opening closing text : List Char) : Option (List Char) :=
  (opening.isPrefixOf? text).bind fun rest => closing.isSuffixOf? rest

/-- The texts before and behind the first separator. -/
def splitOnce? (separator : List Char) : List Char → Option (List Char × List Char)
  | [] => none
  | c :: rest =>
    match separator.isPrefixOf? (c :: rest) with
    | some behind => some ([], behind)
    | none => (splitOnce? separator rest).map fun (before, behind) => (c :: before, behind)

def isDigits (text : List Char) : Bool := !text.isEmpty && text.all Char.isDigit

/-- Reads `T(<id> <n>)`. The second number may be of any size. -/
def taskId (text : List Char) : Except CellFault UInt64 :=
  let parts := (inside? "T(".toList ")".toList text).bind (splitOnce? [' '])
  match parts with
  | none => .error .badTaskName
  | some (id, instanceNumber) =>
    if isDigits id && isDigits instanceNumber then
      match Decimal.word? id with
      | some id => .ok id
      | none => .error .badTaskName
    else .error .badTaskName

def real (text : List Char) : Except CellFault Binary64 :=
  match Decimal.real? text with
  | none => .error .notANumber
  | some x => if x.isFinite then .ok x else .error .notFinite

def nonNegative (text : List Char) : Except CellFault Binary64 := do
  let x ← real text
  if x < .zero then .error .negative else .ok x

/-- Reads a bound of a range, made of digits and points. -/
def bound (text : List Char) : Except CellFault Binary64 :=
  if text.isEmpty || !text.all (fun c => c.isDigit || c == '.') then .error .badRange
  else
    match Decimal.real? text with
    | some x => .ok x
    | none => .error .badRange

/-- Reads `uniform params: [<min> to <max>]`. -/
def range (text : List Char) : Except CellFault Window := do
  let parts := (inside? "uniform params: [".toList "]".toList text).bind
    (splitOnce? " to ".toList)
  match parts with
  | none => .error .badRange
  | some (low, high) => do
    let min ← bound low
    let max ← bound high
    (Window.between min max).mapError .inverted

/-- Reads the word for no jitter, or a range. -/
def jitter (text : List Char) : Except CellFault Window :=
  if Text.trim text = "none".toList then .ok (.point .zero) else range text

end Cell

end PeriodicJobs
