import PeriodicJobs.Pattern.Escape

set_option autoImplicit false

/- Reading sets of characters in brackets. -/
namespace PeriodicJobs.Pattern

def setNames : List String :=
  ["alnum", "alpha", "ascii", "blank", "cntrl", "digit", "graph", "lower", "print", "punct",
    "space", "upper", "word", "xdigit"]

/-- Reads a named set between colons and the closing bracket, behind the opening one. -/
def named? : List Char → Option (CharSet × List Char)
  | ':' :: text =>
    let (inverted, text) : Bool × List Char := match text with
      | '^' :: rest => (true, rest)
      | rest => (false, rest)
    let name := text.takeWhile (· != ':')
    match text.dropWhile (· != ':') with
    | ':' :: ']' :: rest =>
      if setNames.contains (String.ofList name) then some (.named inverted name, rest) else none
    | _ => none
  | _ => none

/-- Reads a member of a set, or an end of a range. -/
def member? (verbose : Bool) : List Char → Option (Pattern × List Char)
  | [] => none
  | '\\' :: rest => escape? verbose rest
  | c :: rest => some (.literal ⟨c, false⟩, rest)

def asSet? : Pattern → Option CharSet
  | .literal c => some (.literal c)
  | .shorthand inverted kind => some (.shorthand inverted kind)
  | _ => none

def asLiteral? : Pattern → Option Literal
  | .literal c => some c
  | _ => none

/-- The character that a dash is followed by. Of a remark only the mark is passed over. -/
def behindDash? (verbose : Bool) (text : List Char) : Option Char :=
  if verbose then
    match text.dropWhile Text.isBlank with
    | '#' :: rest => (rest.dropWhile Text.isBlank).head?
    | rest => rest.head?
  else text.head?

/-- Reads a member of a set or a range. A dash before the closing bracket or another dash makes no
range. -/
def memberOrRange? (verbose : Bool) (text : List Char) : Option (CharSet × List Char) := do
  let (first, rest) ← member? verbose text
  match skip verbose rest with
  | '-' :: rest =>
    let next := behindDash? verbose rest
    if next == some ']' || next == some '-' then return (← asSet? first, '-' :: rest)
    else
      let (last, rest) ← member? verbose (skip verbose rest)
      let first ← asLiteral? first
      let last ← asLiteral? last
      if first.char ≤ last.char then return (.range first last, rest) else none
  | rest => return (← asSet? first, rest)

/-- What has been read of a set whose bracket is open: the operation before the members with the
set on its left, and the members, the last one first. At the start, dashes stand for themselves,
and so does a closing bracket if it is the first member. -/
structure OpenSet where
  inverted : Bool := false
  left : Option (SetOperation × CharSet) := none
  members : List CharSet := []
  atStart : Bool := true

namespace OpenSet

def start (verbose : Bool) (text : List Char) : OpenSet × List Char :=
  match skip verbose text with
  | '^' :: rest => ({ inverted := true }, rest)
  | rest => ({}, rest)

def push (member : CharSet) (opened : OpenSet) : OpenSet :=
  { opened with members := member :: opened.members, atStart := false }

def inside (opened : OpenSet) : CharSet :=
  let right : CharSet := match opened.members with
    | [] => .empty
    | [member] => member
    | members => .union members.reverse
  match opened.left with
  | none => right
  | some (operation, left) => .combined operation left right

/-- Puts all that has been read on the left of an operation. -/
def operate (operation : SetOperation) (opened : OpenSet) : OpenSet :=
  { opened with left := some (operation, opened.inside), members := [], atStart := false }

end OpenSet

/-- Reads a set up to its closing bracket, in at most `limit` steps. -/
def finishSet? (verbose : Bool) : Nat → OpenSet → List Char → Option (OpenSet × List Char)
  | 0, _, _ => none
  | limit + 1, opened, text =>
    match skip verbose text with
    | [] => none
    | c :: rest =>
      if opened.atStart && c == '-' then
        finishSet? verbose limit { opened.push (.literal ⟨c, false⟩) with atStart := true } rest
      else if opened.atStart && opened.members.isEmpty && c == ']' then
        finishSet? verbose limit (opened.push (.literal ⟨c, false⟩)) rest
      else
        match c, rest with
        | ']', rest => some (opened, rest)
        | '[', rest =>
          match named? rest with
          | some (chars, rest) => finishSet? verbose limit (opened.push chars) rest
          | none =>
            let (nested, rest) := OpenSet.start verbose rest
            (finishSet? verbose limit nested rest).bind fun (nested, rest) =>
              finishSet? verbose limit
                (opened.push (.bracketed nested.inverted nested.inside)) rest
        | '&', '&' :: rest => finishSet? verbose limit (opened.operate .intersection) rest
        | '-', '-' :: rest => finishSet? verbose limit (opened.operate .difference) rest
        | '~', '~' :: rest => finishSet? verbose limit (opened.operate .symmetricDifference) rest
        | c, rest =>
          (memberOrRange? verbose (c :: rest)).bind fun (chars, rest) =>
            finishSet? verbose limit (opened.push chars) rest

/-- Reads a set behind its opening bracket. Every step takes a character at least. -/
def set? (verbose : Bool) (text : List Char) : Option (Pattern × List Char) :=
  let (opened, rest) := OpenSet.start verbose text
  (finishSet? verbose (text.length + 1) opened rest).map fun (read, rest) =>
    (.set read.inverted read.inside, rest)

end PeriodicJobs.Pattern
