import PeriodicJobs.Log.Level
import PeriodicJobs.Pattern.Matching
import PeriodicJobs.Text.Basic

set_option autoImplicit false

/- Directives, each of which sets the level of some reports. -/
namespace PeriodicJobs.Log

/-- A field of reports, perhaps with the value that it has. -/
structure Field where
  name : List Char
  value : Option (List Char) := none
deriving DecidableEq

/-- What a directive concerns: reports of targets that start with a name, made in a span and with a
field if they are given. -/
structure Scope where
  target : List Char := []
  span : Option (List Char) := none
  field : Option Field := none
deriving DecidableEq

structure Directive where
  scope : Scope
  level : Level
deriving DecidableEq

/-- Why a directive cannot be read. It is cut if a part of it would start or end within a
character. -/
inductive DirectiveFault where
  | malformed
  | cut
deriving DecidableEq

/-- A directive while it is read. Places are counted in its body, which has no blanks around it, but
the parts between them are taken from the whole text. -/
structure Cursor where
  text : List Char
  place : Nat
  rest : List Char

namespace Cursor

def ofText (text : List Char) : Cursor := ⟨text, 0, Text.trim text⟩

def next (cursor : Cursor) : Cursor :=
  match cursor.rest with
  | [] => cursor
  | c :: rest => { cursor with place := cursor.place + c.utf8Size, rest }

/-- Goes on to the first of some characters. -/
def seek (signs : List Char) (cursor : Cursor) : Cursor :=
  let passed := cursor.rest.takeWhile (!signs.contains ·)
  { cursor with
    place := cursor.place + passed.foldl (· + ·.utf8Size) 0
    rest := cursor.rest.dropWhile (!signs.contains ·) }

def partFrom (first : Nat) (cursor : Cursor) : Except DirectiveFault (List Char) :=
  match Text.slice? first cursor.place cursor.text with
  | some part => .ok part
  | none => .error .cut

def remainder (cursor : Cursor) : Except DirectiveFault (List Char) :=
  match Text.dropBytes? cursor.place cursor.text with
  | some part => .ok part
  | none => .error .cut

end Cursor

/-- Whether the name of a target may start with a character: with a letter, a digit, or one of the
signs of names. -/
def startsTarget (c : Char) : Bool :=
  c == '-' || c == ':' || c == '_' || Text.isAlphanumeric c

/-- Whether a text is the value of a field: a number, or a pattern that can be matched. -/
def isValue (text : List Char) : Bool := (Decimal.real? text).isSome || Pattern.isValid text

/-- Reads a field. Its value is behind an equals sign, up to another one. -/
def Field.read? (text : List Char) : Option Field :=
  match text.splitOn '=' with
  | name :: value :: _ => if isValue value then some ⟨name, some value⟩ else none
  | _ => if text.isEmpty then none else some ⟨text, none⟩

namespace Directive

/-- Reads the level of a scope behind an equals sign. -/
def levelled (scope : Scope) (cursor : Cursor) : Except DirectiveFault Directive := do
  match Level.ofOperand? (← cursor.remainder) with
  | some level => return ⟨scope, level⟩
  | none => throw .malformed

/-- Reads what stands behind the brackets of a scope, where the level may be left out. -/
def bracketed (scope : Scope) (cursor : Cursor) : Except DirectiveFault Directive :=
  match cursor.rest with
  | [] => .ok ⟨scope, .trace⟩
  | '=' :: _ => levelled scope cursor.next
  | _ => .error .malformed

/-- Reads a field in braces and the bracket behind it. -/
def braces (scope : Scope) (start : Cursor) : Except DirectiveFault Directive := do
  let stop := start.seek ['\x7d']
  if stop.rest.isEmpty then throw .malformed
  match Field.read? (← stop.partFrom start.place), stop.next.rest with
  | some field, ']' :: _ => bracketed { scope with field } stop.next.next
  | _, _ => throw .malformed

/-- Reads the name of a span in brackets, or a field in braces within them, or both. -/
def brackets (target : List Char) (start : Cursor) : Except DirectiveFault Directive := do
  let stop := start.seek [']', '\x7b']
  match stop.rest with
  | [] => throw .malformed
  | sign :: _ =>
    let span ← stop.partFrom start.place
    if sign = ']' then bracketed { target, span } stop.next
    else braces { target, span := if span.isEmpty then none else some span } stop.next

/-- The directive of a text that gives no level apart: a level if it is the name of one, and else a
target. -/
def ofWord (text : List Char) : Directive :=
  match Level.ofText? text with
  | some level => ⟨{}, level⟩
  | none => ⟨{ target := text }, .trace⟩

def read (text : List Char) : Except DirectiveFault Directive := do
  let start := Cursor.ofText text
  match start.rest with
  | [] => throw .malformed
  | '[' :: _ => brackets [] start.next
  | first :: _ =>
    if !startsTarget first then throw .malformed
    let stop := start.seek ['=', '[']
    match stop.rest with
    | [] => return ofWord text
    | sign :: _ =>
      let target ← stop.partFrom start.place
      if sign = '[' then brackets target stop.next else levelled { target } stop.next

end Directive

end PeriodicJobs.Log
