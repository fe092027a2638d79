set_option autoImplicit false

/- The columns of a task-set table and the header that puts them in order. -/
namespace PeriodicJobs

inductive Column where
  | jobName
  | period
  | releasePhase
  | deadline
  | initialExecutionTime
  | wcetJitter
  | releaseJitter
deriving DecidableEq

namespace Column

/-- The columns in the order of the schema. -/
def all : List Column :=
  [.jobName, .period, .releasePhase, .deadline, .initialExecutionTime, .wcetJitter,
    .releaseJitter]

def name : Column → String
  | .jobName => "Job Name"
  | .period => "Period"
  | .releasePhase => "Release Phase"
  | .deadline => "Deadline"
  | .initialExecutionTime => "Initial Execution Time"
  | .wcetJitter => "WCET Jitter"
  | .releaseJitter => "Release Jitter"

def ofName? (text : String) : Option Column := all.find? (·.name == text)

end Column

inductive HeaderFault where
  | missing (column : Column)
  | unexpected (name : String)
  | duplicate (column : Column)
deriving DecidableEq

/-- The columns of a table in the order of its cells. -/
structure Header where
  columns : List Column

namespace Header

/-- Extends the columns seen so far by further names, from left to right. -/
def extend (seen : List Column) : List String → Except HeaderFault Header
  | [] =>
    match Column.all.find? fun column => !seen.contains column with
    | some column => .error (.missing column)
    | none => .ok ⟨seen⟩
  | name :: names =>
    match Column.ofName? name with
    | none => .error (.unexpected name)
    | some column =>
      if seen.contains column then .error (.duplicate column)
      else extend (seen ++ [column]) names

/-- Accepts the names of all columns in any order. An unknown or repeated name is refused where it
stands, and only then the first missing column. -/
def ofNames (names : List String) : Except HeaderFault Header := extend [] names

def cell (header : Header) (column : Column) (record : List (List Char)) : List Char :=
  (record[header.columns.idxOf column]?).getD []

end Header

end PeriodicJobs
