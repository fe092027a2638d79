import PeriodicJobs.Log.Directive

set_option autoImplicit false

/- Filters that tell which reports are logged, directives between commas, and the form in which a
report is logged: what a terminal would obey is shown as an escape. -/
namespace PeriodicJobs.Log

abbrev Filter : Type := List Directive

namespace Filter

/-- The filter without any setting: warnings, and what is worse. -/
def default : Filter := [⟨{}, .warn⟩]

/-- Reads a filter up to the first directive that cannot be read. -/
def read (text : String) : Except DirectiveFault Filter :=
  ((text.toList.splitOn ',').filter (!·.isEmpty)).mapM Directive.read

/-- The filter of a setting. A malformed one is ignored; one that is cut leaves no filter. -/
def ofSetting? (setting : Option String) : Option Filter :=
  match setting.map read with
  | none => some default
  | some (.ok filter) => some filter
  | some (.error .malformed) => some default
  | some (.error .cut) => none

/-- Whether a directive concerns the reports of a target, which are made in no span and have one
field, their message, with a value that no directive can name. -/
def concerns (target : List Char) (directive : Directive) : Bool :=
  let scope := directive.scope
  scope.span.isNone && scope.target.isPrefixOf target &&
    scope.field.all (· == ⟨"message".toList, none⟩)

/-- Whether a directive goes before another that concerns the same reports: the longer target does,
then the one with a field, then the one that is given later. -/
def precedes (earlier later : Directive) : Bool :=
  let a := earlier.scope
  let b := later.scope
  b.target.length < a.target.length ||
    (b.target.length == a.target.length && a.field.isSome && b.field.isNone)

def deciding (filter : Filter) (target : List Char) : Option Directive :=
  (filter.filter (concerns target)).foldl
    (fun found directive =>
      match found with
      | some earlier => if precedes earlier directive then some earlier else some directive
      | none => some directive)
    none

def permitsErrors (filter : Filter) (target : String) : Bool :=
  (filter.deciding target.toList).any (·.level != .off)

end Filter

/-- A character as it is logged. Escape, bell, backspace, form feed and delete are given by two
hexadecimal digits, and so are, as code points, the control characters outside ASCII. -/
def visible (c : Char) : List Char :=
  match c with
  | '\x1b' => "\\x1b".toList
  | '\x07' => "\\x07".toList
  | '\x08' => "\\x08".toList
  | '\x0c' => "\\x0c".toList
  | '\x7f' => "\\x7f".toList
  | c =>
    if 0x80 ≤ c.toNat ∧ c.toNat ≤ 0x9F then
      ['\\', 'u', '\x7b'] ++ Nat.toDigits 16 c.toNat ++ ['\x7d']
    else [c]

def visibleText (text : String) : String := String.ofList (text.toList.flatMap visible)

end PeriodicJobs.Log
