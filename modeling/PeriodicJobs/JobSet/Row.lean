import PeriodicJobs.JobSet.Layout
import PeriodicJobs.Text.Basic

set_option autoImplicit false

/- Reading a line of the table back. -/
namespace PeriodicJobs

/-- A line of the table as values. The priority is a number, be it a deadline or a rank. -/
structure Row where
  taskId : UInt64
  jobId : UInt64
  arrival : Window
  cost : Window
  deadline : Binary64
  priority : Binary64
deriving DecidableEq

inductive RowFault where
  | fieldCount (found : Nat)
  | notANumber (column value : String)
  | inverted (column : String)
deriving DecidableEq

def RowFault.message : RowFault → String
  | .fieldCount found => s!"expected {JobSet.columns.length} fields, found {found}"
  | .notANumber column value => s!"column '{column}' has non-numeric value '{value}'"
  | .inverted column => s!"column '{column}' starts a range whose minimum exceeds its maximum"

namespace Row

def number {α : Type} (reader : List Char → Option α) (column : String) (cell : List Char) :
    Except RowFault α :=
  match reader cell with
  | some value => .ok value
  | none => .error (.notANumber column (String.ofList cell))

def window (first second : String) (low high : List Char) : Except RowFault Window := do
  let min ← number Decimal.real? first low
  let max ← number Decimal.real? second high
  (Window.between min max).mapError fun _ => .inverted first

/-- Reads a line. Blanks around a cell do not count, and the first fault from the left decides. -/
def read (line : List Char) : Except RowFault Row :=
  match (line.splitOn ',').map Text.trim with
  | [task, job, arrivalMin, arrivalMax, costMin, costMax, deadline, priority] => do
    let taskId ← number Decimal.word? "Task ID" task
    let jobId ← number Decimal.word? "Job ID" job
    let arrival ← window "Arrival min" "Arrival max" arrivalMin arrivalMax
    let cost ← window "Cost min" "Cost max" costMin costMax
    let deadline ← number Decimal.real? "Deadline" deadline
    let priority ← number Decimal.real? "Priority" priority
    return { taskId, jobId, arrival, cost, deadline, priority }
  | cells => .error (.fieldCount cells.length)

end Row

end PeriodicJobs
