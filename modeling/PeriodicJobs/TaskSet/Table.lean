import PeriodicJobs.Csv.Record
import PeriodicJobs.Files
import PeriodicJobs.Task
import PeriodicJobs.TaskSet.Cell
import PeriodicJobs.TaskSet.Header
import PeriodicJobs.Text.Unicode

set_option autoImplicit false

/- Task sets: tables with a header and one task a row. The first fault from the top ends the
reading, and within a row the first fault in the order of the schema. -/
namespace PeriodicJobs

/-- A table that is no proper list of records of text. -/
inductive CsvFault where
  | unequalLengths (start : Csv.Position) (found expected : Nat)
  | invalidText (start : Csv.Position) (field valid : Nat)
  | unreadable (fault : ReadFault)
deriving DecidableEq

def CsvFault.message : CsvFault → String
  | .unequalLengths start found expected =>
    s!"CSV error: record {start.record} (line: {start.line}, byte: {start.byte}): " ++
      s!"found record with {found} fields, but the previous record has {expected} fields"
  | .invalidText start field valid =>
    s!"CSV parse error: record {start.record} (line {start.line}, field: {field}, " ++
      s!"byte: {start.byte}): invalid utf-8: invalid UTF-8 in field {field} " ++
      s!"near byte index {valid}"
  | .unreadable fault => fault.message

inductive TaskSetFault where
  | unreadable (fault : ReadFault)
  | malformed (fault : CsvFault)
  | header (fault : HeaderFault)
  | invalidCell (line : Nat) (column : Column) (value : String) (reason : CellFault)
deriving DecidableEq

def TaskSetFault.message (origin : String) : TaskSetFault → String
  | .unreadable fault => s!"cannot read task set '{origin}': {fault.message}"
  | .malformed fault => s!"malformed CSV in task set '{origin}': {fault.message}"
  | .header (.missing column) =>
    s!"task set '{origin}' is missing required column '{column.name}'"
  | .header (.unexpected name) => s!"task set '{origin}' has unrecognised column '{name}'"
  | .header (.duplicate column) =>
    s!"task set '{origin}' lists column '{column.name}' more than once"
  | .invalidCell line column value reason =>
    s!"{origin}:{line}: invalid '{column.name}' value '{value}': {reason.message}"

namespace TaskSet

/-- Space, tab, line feed, form feed and carriage return. -/
def isBlankByte (b : UInt8) : Bool := b == 32 || b == 9 || b == 10 || b == 12 || b == 13

/-- The texts of fields, without blanks around them. The fields are counted from `index`. -/
def texts (start : Csv.Position) (index : Nat) :
    List (List UInt8) → Except TaskSetFault (List (List Char))
  | [] => .ok []
  | field :: fields =>
    match Text.decode field with
    | .error valid => .error (.malformed (.invalidText start index valid))
    | .ok text => do
      let rest ← texts start (index + 1) fields
      return Text.trim text :: rest

def cell {α : Type} (header : Header) (line : Nat) (record : List (List Char)) (column : Column)
    (reader : List Char → Except CellFault α) : Except TaskSetFault α :=
  let text := header.cell column record
  (reader text).mapError fun reason => .invalidCell line column (String.ofList text) reason

/-- Reads the cells of a row. The initial execution time has to be a number but is not kept. -/
def task (header : Header) (line : Nat) (record : List (List Char)) :
    Except TaskSetFault Task := do
  let id ← cell header line record .jobName Cell.taskId
  let period ← cell header line record .period Cell.nonNegative
  let phase ← cell header line record .releasePhase Cell.real
  let deadline ← cell header line record .deadline Cell.real
  let _ ← cell header line record .initialExecutionTime Cell.real
  let cost ← cell header line record .wcetJitter Cell.range
  let jitter ← cell header line record .releaseJitter Cell.jitter
  return { id, period, phase, deadline, cost, jitter }

/-- Reads a record, which has as many fields as the header. -/
def row (header : Header) (record : Csv.Record) : Except TaskSetFault Task :=
  let expected := header.columns.length
  if record.fields.length = expected then do
    let cells ← texts record.position 0 (record.fields.map (Text.stripEnds isBlankByte))
    task header record.position.line cells
  else .error (.malformed (.unequalLengths record.position record.fields.length expected))

def header (record : Csv.Record) : Except TaskSetFault Header := do
  let names ← texts record.position 0 record.fields
  (Header.ofNames (names.map String.ofList)).mapError .header

/-- Reads a task set. A file without any record has a header without any name. -/
def ofBytes (bytes : List UInt8) : Except TaskSetFault (List Task) :=
  match Csv.records bytes with
  | [] => do
    let _ ← header ⟨[], .start⟩
    return []
  | first :: rows => do
    let columns ← header first
    rows.mapM (row columns)

/-- Reads the task set at a path. A directory can be opened like a file but has no content. -/
def load (files : Files) (path : String) : Except TaskSetFault (List Task) :=
  match files path with
  | .ok bytes => ofBytes bytes
  | .error .isDirectory => .error (.malformed (.unreadable .isDirectory))
  | .error fault => .error (.unreadable fault)

/-- Reads the task sets at several paths one behind the other; a fault names its path. -/
def loadAll (files : Files) (paths : List String) :
    Except (String × TaskSetFault) (List Task) := do
  let sets ← paths.mapM fun path => (load files path).mapError fun fault => (path, fault)
  return sets.flatten

end TaskSet

end PeriodicJobs
