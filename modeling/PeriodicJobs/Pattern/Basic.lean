set_option autoImplicit false

/- Patterns of texts, as trees. -/
namespace PeriodicJobs

namespace Pattern

/-- A character of a pattern. It is a byte if two hexadecimal digits give it. -/
structure Literal where
  char : Char
  isByte : Bool := false
deriving DecidableEq

/-- The sets of characters that a letter behind a backslash stands for. -/
inductive Shorthand where
  | digit
  | blank
  | word
deriving DecidableEq

inductive SetOperation where
  | intersection
  | difference
  | symmetricDifference
deriving DecidableEq

inductive CharSet where
  | empty
  | literal (c : Literal)
  | range (first last : Literal)
  | named (inverted : Bool) (name : List Char)
  | shorthand (inverted : Bool) (kind : Shorthand)
  | bracketed (inverted : Bool) (inside : CharSet)
  | union (members : List CharSet)
  | combined (operation : SetOperation) (left right : CharSet)

/-- A way of matching that a pattern can switch on and off. -/
inductive Mode where
  | ignoreCase
  | multiLine
  | dotMatchesBreak
  | lazy
  | unicode
  | carriageReturn
  | verbose
deriving DecidableEq

/-- The modes that are switched on, with `true`, and off. -/
abbrev Switches : Type := List (Mode × Bool)

/-- Whether a mode is on behind some switches. -/
def Switches.apply (change : Switches) (mode : Mode) (before : Bool) : Bool :=
  (change.lookup mode).getD before

end Pattern

open Pattern in
/-- A pattern. An edge is a place at the start or the end of a line or of the text. -/
inductive Pattern where
  | empty
  | literal (c : Literal)
  | anyChar
  | edge
  | wordEdge
  | shorthand (inverted : Bool) (kind : Shorthand)
  | set (inverted : Bool) (inside : CharSet)
  | switches (change : Switches)
  | repeated (body : Pattern)
  | group (change : Switches) (body : Pattern)
  | alternatives (branches : List Pattern)
  | sequence (parts : List Pattern)

namespace Pattern

mutual

def CharSet.depth : CharSet → Nat
  | .bracketed _ inside => inside.depth + 1
  | .union members => CharSet.depthOfAll members + 1
  | .combined _ left right => max left.depth right.depth + 1
  | _ => 0

def CharSet.depthOfAll : List CharSet → Nat
  | [] => 0
  | first :: rest => max first.depth (CharSet.depthOfAll rest)

end

mutual

def depth : Pattern → Nat
  | .set _ inside => inside.depth + 1
  | .repeated body => body.depth + 1
  | .group _ body => body.depth + 1
  | .alternatives branches => depthOfAll branches + 1
  | .sequence parts => depthOfAll parts + 1
  | _ => 0

def depthOfAll : List Pattern → Nat
  | [] => 0
  | first :: rest => max first.depth (depthOfAll rest)

end

end Pattern

end PeriodicJobs
