import PeriodicJobs.Log.Filter
import PeriodicJobs.Run
import PeriodicJobs.Settings.Document

set_option autoImplicit false

/- The command line: its options, and what the program does under them. -/
namespace PeriodicJobs

/-- What the arguments ask for. Settings on the command line go before those of a file. -/
structure Options where
  inputs : List String := []
  rateMonotonic : Bool := false
  layout : Option Layout := none
  settings : Option String := none
deriving DecidableEq

inductive Valued where
  | layout
  | settings
deriving DecidableEq

namespace Options

/-- Gives an option its value. None may be given twice; a path is not empty, and a layout is one
of those there are. -/
def set? (options : Options) (option : Valued) (value : String) : Option Options :=
  match option with
  | .layout =>
    if options.layout.isSome then none
    else (Layout.ofName? value).map fun layout => { options with layout := some layout }
  | .settings =>
    if options.settings.isSome || value.isEmpty then none
    else some { options with settings := some value }

def setRateMonotonic? (options : Options) : Option Options :=
  if options.rateMonotonic then none else some { options with rateMonotonic := true }

def addInput? (options : Options) (path : String) : Option Options :=
  if path.isEmpty then none else some { options with inputs := options.inputs ++ [path] }

def valuedLong? : List Char → Option Valued
  | name =>
    if name = "format".toList then some .layout
    else if name = "config".toList then some .settings
    else none

def valuedShort? : Char → Option Valued
  | 'f' => some .layout
  | 'c' => some .settings
  | _ => none

inductive Argument where
  | input
  | endOfOptions
  | rateMonotonic
  | valued (option : Valued) (value : Option String)
  | unknown
deriving DecidableEq

/-- Tells what an argument is. A lone dash is a file name. The value of a long option may follow
an equals sign; that of a short one follows at once, or after an equals sign. -/
def argument (text : List Char) : Argument :=
  match text with
  | ['-', '-'] => .endOfOptions
  | '-' :: '-' :: long =>
    let name := long.takeWhile (· != '=')
    let value := match long.dropWhile (· != '=') with
      | [] => none
      | _ :: value => some (String.ofList value)
    if name = "rate-monotonic".toList then
      if value.isSome then .unknown else .rateMonotonic
    else
      match valuedLong? name with
      | some option => .valued option value
      | none => .unknown
  | '-' :: short :: rest =>
    match valuedShort? short, rest with
    | none, _ => .unknown
    | some option, [] => .valued option none
    | some option, '=' :: value => .valued option (some (String.ofList value))
    | some option, value => .valued option (some (String.ofList value))
  | _ => .input

/-- Whether an argument can be the value of the option before it. -/
def isValue (text : List Char) : Bool :=
  match text with
  | '-' :: _ :: _ => false
  | _ => true

/-- Reads arguments; nothing if they are not used as they should be. -/
def read? (options : Options) : List String → Option Options
  | [] => some options
  | text :: rest =>
    match argument text.toList with
    | .input => (options.addInput? text).bind fun options => read? options rest
    | .endOfOptions => rest.foldlM addInput? options
    | .rateMonotonic => options.setRateMonotonic?.bind fun options => read? options rest
    | .valued option (some value) =>
      (options.set? option value).bind fun options => read? options rest
    | .valued option none =>
      match rest with
      | value :: more =>
        if isValue value.toList then
          (options.set? option value).bind fun options => read? options more
        else none
      | [] => none
    | .unknown => none

/-- The settings before the command line is looked at: those of the file, or the defaults. -/
def base (files : Files) (options : Options) : Except SettingsFileFault Settings :=
  match options.settings with
  | some path => Settings.load files path
  | none => .ok {}

/-- The settings of a run: those there are, overlaid by the command line. -/
def overlay (options : Options) (settings : Settings) : Settings :=
  { settings with
    policy := if options.rateMonotonic then .rateMonotonic else settings.policy
    layout := options.layout.getD settings.layout }

end Options

/-- How the program ends: its exit code, what it prints and what it reports. -/
structure Outcome where
  exitCode : Nat
  output : String
  report : Option String
deriving DecidableEq

namespace Outcome

def failed (report : String) : Outcome := ⟨1, "", some report⟩

def misused : Outcome := ⟨2, "", none⟩

def broken : Outcome := ⟨101, "", none⟩

end Outcome

/-- Runs the program under options that have been read. What a run has written is printed however
the run ends. -/
def Options.execute (files : Files) (options : Options) : Outcome :=
  match options.base files with
  | .error fault => .failed fault.message
  | .ok settings =>
    match run files options.inputs (options.overlay settings) {} with
    | .ok _ sink => ⟨0, sink.held, none⟩
    | .error fault sink => ⟨1, sink.held, some fault.message⟩

def execute (files : Files) (arguments : List String) : Outcome :=
  match Options.read? {} arguments with
  | some options => options.execute files
  | none => .misused

/-- What becomes of an outcome under the setting of a filter for the reports of a program: the
report is made visible or kept back, and without a filter the program does not even start. -/
def Outcome.logged (program : String) (setting : Option String) (outcome : Outcome) : Outcome :=
  match Log.Filter.ofSetting? setting with
  | none => .broken
  | some filter =>
    { outcome with
      report := if filter.permitsErrors program then outcome.report.map Log.visibleText else none }

end PeriodicJobs
