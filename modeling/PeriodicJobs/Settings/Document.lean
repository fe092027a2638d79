import PeriodicJobs.Files
import PeriodicJobs.Settings.Basic
import PeriodicJobs.Text.Basic
import PeriodicJobs.Text.Unicode
import PeriodicJobs.Yaml.Document

set_option autoImplicit false

/- Settings from a YAML document: a mapping of the names of settings to scalars. -/
namespace PeriodicJobs

namespace Yaml

def nullTag : List UInt8 := asciiBytes "tag:yaml.org,2002:null".toList

def floatTag : List UInt8 := asciiBytes "tag:yaml.org,2002:float".toList

def isNull (text : String) : Bool := text == "~" || text == "null" || text == "Null" || text == "NULL"

/-- The scalar as a value that may be absent. A plain scalar is absent if it is empty or a word for
null; with the tag of null it has to be such a word, and with any other tag it is present. -/
def Scalar.present? (scalar : Scalar) : Option (Option Scalar) :=
  if scalar.style ≠ .plain then some (some scalar)
  else
    match scalar.tag with
    | none => some (if scalar.text.isEmpty || isNull scalar.text then none else some scalar)
    | some tag =>
      if tag ≠ nullTag then some (some scalar)
      else if isNull scalar.text then some none
      else none

/-- Whether a scalar may be a number: it is plain, or a literal block with the tag of numbers. -/
def Scalar.mayBeNumber (scalar : Scalar) : Bool :=
  scalar.style == .plain || scalar.style == .literal && scalar.tag == some floatTag

/-- Reads a scalar as a number: the words for infinity and NaN behind a point, or a finite
number, which may have one plus sign. -/
def Scalar.number? (scalar : Scalar) : Option Binary64 :=
  let text := scalar.text.toList
  let unsigned := match text with
    | '+' :: rest => rest
    | text => text
  let word := String.ofList unsigned
  let doubled := match text, unsigned with
    | '+' :: _, '+' :: _ => true
    | '+' :: _, '-' :: _ => true
    | _, _ => false
  if !scalar.mayBeNumber || doubled then none
  else if word = ".inf" ∨ word = ".Inf" ∨ word = ".INF" then some (Binary64.infinity false)
  else if scalar.text = "-.inf" ∨ scalar.text = "-.Inf" ∨ scalar.text = "-.INF" then
    some (Binary64.infinity true)
  else if scalar.text = ".nan" ∨ scalar.text = ".NaN" ∨ scalar.text = ".NAN" then
    some (.nan false)
  else
    match Decimal.real? unsigned with
    | some x => if x.isFinite then some x else none
    | none => none

end Yaml

namespace GivenSettings

def names : List String :=
  ["priority_policy", "output_format", "time_resolution", "max_hyperperiod"]

def text? (entries : Yaml.Entries) (name : String) : Option (Option String) :=
  match entries.lookup name with
  | none => some none
  | some scalar => scalar.present?.map fun scalar => scalar.map (·.text)

def number? (entries : Yaml.Entries) (name : String) : Option (Option Binary64) :=
  match entries.lookup name with
  | none => some none
  | some scalar =>
    match scalar.present? with
    | none => none
    | some none => some none
    | some (some scalar) => scalar.number?.map some

/-- Reads the entries of a document. Every name has to be known and to occur once. -/
def ofEntries? (entries : Yaml.Entries) : Option GivenSettings :=
  let keys := entries.map (·.1)
  if keys.all names.contains && decide keys.Nodup then do
    let policy ← text? entries "priority_policy"
    let layout ← text? entries "output_format"
    let resolution ← number? entries "time_resolution"
    let limit ← number? entries "max_hyperperiod"
    return { policy, layout, resolution, limit }
  else none

end GivenSettings

namespace Settings

/-- Reads settings from a document. A text of nothing but blanks gives the defaults. -/
def ofText (text : List Char) : Except SettingsFault Settings :=
  if text.all Text.isBlank then GivenSettings.check {}
  else
    match (Yaml.entries? text).bind GivenSettings.ofEntries? with
    | none => .error .malformed
    | some given => given.check

end Settings

inductive SettingsFileFault where
  | unreadable (path : String) (fault : ReadFault)
  | invalid (path : String) (fault : SettingsFault)
deriving DecidableEq

def SettingsFileFault.message : SettingsFileFault → String
  | .unreadable path fault => s!"Cannot open configuration file: {path}: {fault.message}"
  | .invalid path fault => s!"Invalid configuration file: {path}: {fault.message}"

def Settings.load (files : Files) (path : String) : Except SettingsFileFault Settings := do
  let bytes ← (files path).mapError (.unreadable path)
  match Text.decode bytes with
  | .error _ => .error (.unreadable path .notText)
  | .ok text => (Settings.ofText text).mapError (.invalid path)

end PeriodicJobs
