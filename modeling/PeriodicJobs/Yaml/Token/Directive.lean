import PeriodicJobs.Yaml.Source
import PeriodicJobs.Yaml.Token

set_option autoImplicit false

/- Directives: lines before a document that tell its version or declare a handle of tags. -/
namespace PeriodicJobs.Yaml

/-- Whether a line ends here but for blanks and a comment. -/
def endsLine (line : List Char) : Bool :=
  match line.dropWhile isSpace with
  | [] => true
  | c :: _ => c == '#'

def maxVersionDigits : Nat := 9

def versionNumber? (line : List Char) : Option (Nat × List Char) :=
  let digits := line.takeWhile Char.isDigit
  if digits.isEmpty ∨ maxVersionDigits < digits.length then none
  else some (Nat.ofDigitChars 10 digits 0, line.dropWhile Char.isDigit)

def version? (operand : List Char) : Option Token := do
  let (major, rest) ← versionNumber? operand
  match rest with
  | '.' :: rest =>
    let (minor, rest) ← versionNumber? rest
    if endsLine rest then some (.version major minor) else none
  | _ => none

/-- Whether a text is the handle of tags: an exclamation mark, or a name between two. -/
def isHandle (text : List Char) : Bool :=
  match text with
  | ['!'] => true
  | '!' :: rest => rest.getLast? == some '!' && rest.dropLast.all isNameChar
  | _ => false

def handle? (operands : List Char) : Option Token :=
  let name := operands.takeWhile fun c => !isSpace c
  match uri? true 0 ((operands.dropWhile fun c => !isSpace c).dropWhile isSpace) with
  | some (byte :: bytes, rest) =>
    if isHandle name && rest.head?.all isSpace && endsLine rest
    then some (.handle (String.ofList name) (upToZero (byte :: bytes)))
    else none
  | _ => none

/-- Reads the line of a directive behind its percent sign. -/
def directive? (line : List Char) : Option Token :=
  let name := line.takeWhile isNameChar
  let rest := line.dropWhile isNameChar
  if !rest.head?.all isSpace then none
  else if name = "YAML".toList then version? (rest.dropWhile isSpace)
  else if name = "TAG".toList then handle? (rest.dropWhile isSpace)
  else none

end PeriodicJobs.Yaml
