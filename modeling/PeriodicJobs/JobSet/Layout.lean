import PeriodicJobs.Priority
import PeriodicJobs.Text.Padding

set_option autoImplicit false

/- The two layouts of a job set: a table with fixed-width columns, and initializer expressions.
Every line is ASCII. -/
namespace PeriodicJobs

inductive Layout where
  | csv
  | initializer
deriving DecidableEq

namespace Layout

def ofName? : String → Option Layout
  | "csv" => some .csv
  | "initializer" => some .initializer
  | _ => none

def name : Layout → String
  | .csv => "csv"
  | .initializer => "initializer"

end Layout

/-- The shortest text of a number, with at least one decimal place where there are digits. -/
def realText (x : Binary64) : List Char :=
  let text := x.text.toList
  if x.isFinite && !text.contains '.' then text ++ ['.', '0'] else text

def wordText (n : UInt64) : List Char := Decimal.digits n.toNat

/-- A deadline is set as words are, a rank as an integer is. -/
def Priority.text (field : Text.Field) : Priority → List Char
  | .deadline instant => field.words (realText instant)
  | .rank place => field.integer (wordText place)

namespace JobSet

def columns : List String :=
  ["Task ID", "Job ID", "Arrival min", "Arrival max", "Cost min", "Cost max", "Deadline",
    "Priority"]

/-- Numbers of tasks and jobs have narrow columns. -/
def widths : List Nat := [10, 10, 20, 20, 20, 20, 20, 20]

/-- A line of the table: every cell leans right in its column. -/
def tableLine (cells : List (List Char)) : List Char :=
  let padded := List.zipWith (fun width cell => Text.pad .right width cell) widths cells
  [',', ' '].intercalate padded ++ ['\n']

/-- The texts of a job in the order of the columns. -/
def cells (job : Job) (priority : Priority) : List (List Char) :=
  [wordText job.taskId, wordText job.id, realText job.arrival.min, realText job.arrival.max,
    realText job.cost.min, realText job.cost.max, realText job.deadline, priority.text {}]

/-- The expression that builds a window. -/
def rangeText (window : Window) : List Char :=
  "range(".toList ++ realText window.min ++ ", ".toList ++ realText window.max ++ ")".toList

def initializerLine (job : Job) (priority : Priority) : List Char :=
  let arguments := [wordText job.id, rangeText job.arrival, rangeText job.cost,
    realText job.deadline, priority.text {}, wordText job.taskId]
  "Job(".toList ++ [',', ' '].intercalate arguments ++ [')', '\n']

end JobSet

namespace Layout

/-- What stands before the jobs. -/
def header : Layout → String
  | .csv => String.ofList (JobSet.tableLine (JobSet.columns.map String.toList))
  | .initializer => ""

def line (job : Job) (priority : Priority) : Layout → String
  | .csv => String.ofList (JobSet.tableLine (JobSet.cells job priority))
  | .initializer => String.ofList (JobSet.initializerLine job priority)

end Layout

end PeriodicJobs
