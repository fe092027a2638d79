import PeriodicJobs.Decimal.Numeral

set_option autoImplicit false

/- The levels of reports, and how they are written. -/
namespace PeriodicJobs.Log

/-- How much is logged. -/
inductive Level where
  | off
  | error
  | warn
  | info
  | debug
  | trace
deriving DecidableEq

namespace Level

def names : List (String × Level) :=
  [("off", .off), ("error", .error), ("warn", .warn), ("info", .info), ("debug", .debug),
    ("trace", .trace)]

/-- The level of a number from zero to five, or of a name in letters of either case. -/
def ofText? (text : List Char) : Option Level :=
  match Decimal.word? text with
  | some n => (names[n.toNat]?).map (·.2)
  | none => names.lookup (String.ofList (text.map Char.toLower))

/-- Reads a level behind an equals sign. If it is left out, everything is logged. -/
def ofOperand? (text : List Char) : Option Level :=
  if text.isEmpty then some .trace else ofText? text

end Level

end PeriodicJobs.Log
