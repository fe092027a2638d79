import PeriodicJobs.Text.Basic

set_option autoImplicit false

/- Tags and the percent escapes in them.

A tag is a string of bytes, for its escapes need not make valid characters. -/
namespace PeriodicJobs.Yaml

def isNameChar (c : Char) : Bool := c.isAlphanum || c == '_' || c == '-'

/-- The characters of URIs. Commas and brackets are among them only where the URI stands alone. -/
def isUriChar (alone : Bool) (c : Char) : Bool :=
  isNameChar c || ";/?:@&=+$.!~*\x27()".toList.contains c || (alone && ",[]".toList.contains c)

/-- How many bytes of a character follow the one that starts it. -/
def followers? (byte : Nat) : Option Nat :=
  if byte < 0x80 then some 0
  else if byte < 0xC0 then none
  else if byte < 0xE0 then some 1
  else if byte < 0xF0 then some 2
  else if byte < 0xF8 then some 3
  else none

/-- How many bytes of a character are awaited after one more, if that one may stand here. -/
def awaited? (awaited byte : Nat) : Option Nat :=
  if awaited = 0 then followers? byte
  else if 0x80 ≤ byte ∧ byte < 0xC0 then some (awaited - 1)
  else none

/-- The bytes of a URI that the text starts with, and what follows. The escapes of one character
stand side by side. -/
def uri? (alone : Bool) (awaited : Nat) : List Char → Option (List UInt8 × List Char)
  | [] => if awaited = 0 then some ([], []) else none
  | '%' :: high :: low :: rest =>
    match Text.hexDigit? high, Text.hexDigit? low with
    | some h, some l =>
      match awaited? awaited (16 * h + l) with
      | some awaited =>
        (uri? alone awaited rest).map fun (bytes, after) => (UInt8.ofNat (16 * h + l) :: bytes, after)
      | none => none
    | _, _ => none
  | c :: rest =>
    if awaited ≠ 0 ∨ c = '%' then none
    else if isUriChar alone c then
      (uri? alone 0 rest).map fun (bytes, after) => (UInt8.ofNat c.toNat :: bytes, after)
    else some ([], c :: rest)

/-- A tag ends before a zero byte. -/
def upToZero (bytes : List UInt8) : List UInt8 := bytes.takeWhile (· != 0)

def asciiBytes (text : List Char) : List UInt8 := text.map fun c => UInt8.ofNat c.toNat

/-- A tag as it is written: a handle, unless it is given in full, and what comes behind it. -/
structure WrittenTag where
  handle : Option String
  suffix : List UInt8
deriving DecidableEq

/-- The tag that is a lone exclamation mark. -/
def WrittenTag.lone : WrittenTag := ⟨none, asciiBytes ['!']⟩

/-- Reads a tag behind its first exclamation mark. -/
def writtenTag? (text : List Char) : Option (WrittenTag × List Char) :=
  match text with
  | '<' :: inside =>
    match uri? true 0 inside with
    | some (byte :: bytes, '>' :: after) => some (⟨none, upToZero (byte :: bytes)⟩, after)
    | _ => none
  | _ =>
    let name := text.takeWhile isNameChar
    match text.dropWhile isNameChar with
    | '!' :: rest =>
      match uri? false 0 rest with
      | some (byte :: bytes, after) =>
        some (⟨some (String.ofList ('!' :: name ++ ['!'])), upToZero (byte :: bytes)⟩, after)
      | _ => none
    | rest =>
      (uri? false 0 rest).map fun (bytes, after) =>
        let suffix := upToZero (asciiBytes name ++ bytes)
        (if suffix.isEmpty then .lone else ⟨some "!", suffix⟩, after)

end PeriodicJobs.Yaml
