import PeriodicJobs.Pattern.Basic
import PeriodicJobs.Text.Basic
import PeriodicJobs.Text.Unicode

set_option autoImplicit false

/- The smallest parts of a written pattern: blanks and remarks, and what follows a backslash. -/
namespace PeriodicJobs.Pattern

/-- Drops blanks, and remarks up to the end of their line. The text starts within a remark or
not. -/
def dropRemarks (inRemark : Bool) : List Char → List Char
  | [] => []
  | c :: rest =>
    if inRemark then dropRemarks (c != '\n') rest
    else if Text.isBlank c then dropRemarks false rest
    else if c == '#' then dropRemarks true rest
    else c :: rest

/-- Drops blanks and remarks, which mean nothing in a verbose pattern. -/
def skip (verbose : Bool) (text : List Char) : List Char :=
  if verbose then dropRemarks false text else text

def hexDigits? (verbose : Bool) : Nat → Nat → List Char → Option (Nat × List Char)
  | 0, code, text => some (code, text)
  | count + 1, code, text =>
    match skip verbose text with
    | [] => none
    | c :: rest =>
      (Text.hexDigit? c).bind fun digit => hexDigits? verbose count (16 * code + digit) rest

/-- Reads a character that its code point in hexadecimal digits gives. -/
def coded? (verbose : Bool) (digits : Nat) (text : List Char) : Option (Pattern × List Char) := do
  let (code, rest) ← hexDigits? verbose digits 0 text
  return (.literal ⟨← Text.character? code, digits == 2⟩, rest)

/-- What a letter behind a backslash stands for. -/
def lettered? : Char → Option Pattern
  | 'a' => some (.literal ⟨'\x07', false⟩)
  | 'f' => some (.literal ⟨'\x0c', false⟩)
  | 't' => some (.literal ⟨'\t', false⟩)
  | 'n' => some (.literal ⟨'\n', false⟩)
  | 'r' => some (.literal ⟨'\r', false⟩)
  | 'v' => some (.literal ⟨'\x0b', false⟩)
  | 'd' => some (.shorthand false .digit)
  | 'D' => some (.shorthand true .digit)
  | 's' => some (.shorthand false .blank)
  | 'S' => some (.shorthand true .blank)
  | 'w' => some (.shorthand false .word)
  | 'W' => some (.shorthand true .word)
  | 'A' => some .edge
  | 'z' => some .edge
  | 'b' => some .wordEdge
  | 'B' => some .wordEdge
  | _ => none

/-- Reads what follows a backslash. Signs of ASCII stand for themselves, but angle brackets are the
edges of words; no other character has a meaning. -/
def escape? (verbose : Bool) : List Char → Option (Pattern × List Char)
  | [] => none
  | 'x' :: rest => coded? verbose 2 rest
  | 'u' :: rest => coded? verbose 4 rest
  | 'U' :: rest => coded? verbose 8 rest
  | c :: rest =>
    if c.isAlphanum then (lettered? c).map (·, rest)
    else if c == '<' || c == '>' then some (.wordEdge, rest)
    else if c.toNat < 0x80 then some (.literal ⟨c, false⟩, rest)
    else none

end PeriodicJobs.Pattern
