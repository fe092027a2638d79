import PeriodicJobs.Pattern.Bracket
import PeriodicJobs.Text.Alphanumeric

set_option autoImplicit false

/- Reading patterns. There are no counted repetitions, for a pattern holds no pair of braces. -/
namespace PeriodicJobs.Pattern

def Mode.ofLetter? : Char → Option Mode
  | 'i' => some .ignoreCase
  | 'm' => some .multiLine
  | 's' => some .dotMatchesBreak
  | 'U' => some .lazy
  | 'u' => some .unicode
  | 'R' => some .carriageReturn
  | 'x' => some .verbose
  | _ => none

/-- Reads letters of modes up to a colon or a closing parenthesis. Behind a dash they are switched
off. There is one dash at most, with a letter behind it, and no letter twice. -/
def switches? (on : Bool) (before : Switches) : List Char → Option (Switches × List Char)
  | [] => none
  | ':' :: rest => some (before, ':' :: rest)
  | ')' :: rest => some (before, ')' :: rest)
  | '-' :: letter :: rest =>
    if !on || letter == ':' || letter == ')' then none
    else switches? false before (letter :: rest)
  | letter :: rest =>
    (Mode.ofLetter? letter).bind fun mode =>
      if (before.lookup mode).isSome then none else switches? on ((mode, on) :: before) rest

/-- Whether a character may be in the name of a group, or start it. -/
def isNameChar (c : Char) : Bool :=
  c == '_' || c == '.' || c == '[' || c == ']' || Text.isAlphanumeric c

def startsName (c : Char) : Bool := c == '_' || Text.isAlphabetic c

def name? (text : List Char) : Option (List Char × List Char) :=
  let name := text.takeWhile isNameChar
  match text.dropWhile isNameChar with
  | '>' :: rest => if name.head?.any startsName then some (name, rest) else none
  | _ => none

/-- What an opening parenthesis starts: a group, perhaps with a name, or else it only switches
modes. -/
inductive Opening where
  | switches (change : Switches)
  | group (change : Switches) (name : Option (List Char))

def opening? (text : List Char) : Option (Opening × List Char) :=
  match text with
  | '?' :: 'P' :: '<' :: rest => (name? rest).map fun (name, rest) => (.group [] (some name), rest)
  | '?' :: '<' :: rest => (name? rest).map fun (name, rest) => (.group [] (some name), rest)
  | '?' :: rest =>
    (switches? true [] rest).bind fun (change, rest) =>
      match rest with
      | ':' :: rest => some (.group change none, rest)
      | rest => if change.isEmpty then none else some (.switches change, rest.drop 1)
  | rest => some (.group [] none, rest)

/-- What has been read of a group: its finished branches, and the parts of the one that is being
read, the last ones first. -/
structure OpenGroup where
  branches : List Pattern := []
  parts : List Pattern := []

namespace OpenGroup

def push (part : Pattern) (opened : OpenGroup) : OpenGroup :=
  { opened with parts := part :: opened.parts }

def branch (opened : OpenGroup) : Pattern :=
  match opened.parts with
  | [] => .empty
  | [part] => part
  | parts => .sequence parts.reverse

def endBranch (opened : OpenGroup) : OpenGroup := { branches := opened.branch :: opened.branches }

/-- Repeats the last part, unless there is none or it only switches modes. -/
def repeat? (opened : OpenGroup) : Option OpenGroup :=
  match opened.parts with
  | [] => none
  | .switches _ :: _ => none
  | part :: earlier => some { opened with parts := .repeated part :: earlier }

def body (opened : OpenGroup) : Pattern :=
  match opened.branches with
  | [] => opened.branch
  | branches => .alternatives (opened.branch :: branches).reverse

end OpenGroup

/-- Reads a part of a pattern that is no group and no set. -/
def single? (verbose : Bool) : List Char → Option (Pattern × List Char)
  | [] => none
  | '\\' :: rest => escape? verbose rest
  | '.' :: rest => some (.anyChar, rest)
  | '^' :: rest => some (.edge, rest)
  | '$' :: rest => some (.edge, rest)
  | '\x7b' :: _ => none
  | c :: rest => some (.literal ⟨c, false⟩, rest)

/-- What a group holds, the names of the groups up to its end, and what follows. -/
structure Finished where
  body : Pattern
  names : List (List Char)
  rest : List Char

/-- Reads a group up to its closing parenthesis or the end of the text, in at most `limit` steps.
No two groups have the same name. -/
def finishGroup? :
    Nat → Bool → List (List Char) → OpenGroup → List Char → Option Finished
  | 0, _, _, _, _ => none
  | limit + 1, verbose, names, opened, text =>
    match skip verbose text with
    | [] => some ⟨opened.body, names, []⟩
    | ')' :: rest => some ⟨opened.body, names, ')' :: rest⟩
    | '|' :: rest => finishGroup? limit verbose names opened.endBranch rest
    | '(' :: rest =>
      match opening? (skip verbose rest) with
      | none => none
      | some (.switches change, rest) =>
        let verbose := change.apply .verbose verbose
        finishGroup? limit verbose names (opened.push (.switches change)) rest
      | some (.group change name, rest) =>
        if name.any names.contains then none
        else
          let within := change.apply .verbose verbose
          (finishGroup? limit within (name.toList ++ names) {} rest).bind fun inner =>
            match inner.rest with
            | ')' :: rest =>
              finishGroup? limit verbose inner.names (opened.push (.group change inner.body)) rest
            | _ => none
    | '[' :: rest =>
      (set? verbose rest).bind fun (chars, rest) =>
        finishGroup? limit verbose names (opened.push chars) rest
    | c :: rest =>
      if c == '?' || c == '*' || c == '+' then
        let rest := match rest with
          | '?' :: behind => behind
          | behind => behind
        opened.repeat?.bind fun opened => finishGroup? limit verbose names opened rest
      else
        (single? verbose (c :: rest)).bind fun (part, rest) =>
          finishGroup? limit verbose names (opened.push part) rest

/-- Reads a whole text as a pattern. Every step takes a character at least. -/
def read? (text : List Char) : Option Pattern :=
  (finishGroup? (text.length + 1) false [] {} text).bind fun finished =>
    if finished.rest.isEmpty then some finished.body else none

end PeriodicJobs.Pattern
