import PeriodicJobs.Proofs.Binary64.Closest
import PeriodicJobs.Proofs.JobSet.Alike
import PeriodicJobs.Proofs.Run.Lines

set_option autoImplicit false

/- A job that is written to the table is read back. Only what no text tells is lost: the sign of a
NaN, and the last bits of a rank that is read as a real number. -/
namespace PeriodicJobs

theorem Text.trimEnd_feed (text : List Char) : trimEnd (text ++ ['\n']) = trimEnd text := by
  simp [trimEnd, isBlank, blankRanges]

/-- A number that a priority is read back as: the same instant, or a number closest to the rank. -/
def Priority.IsReadAs (number : Binary64) : Priority → Prop
  | .deadline instant => number.Alike instant
  | .rank place => number = .ofUInt64 place ∧ number.IsClosest place.toNat

theorem Priority.exists_reading (priority : Priority) :
    ∃ number, Decimal.real? (priority.text {}) = some number ∧ priority.IsReadAs number := by
  rw [text_bare]
  cases priority with
  | deadline instant => exact instant.exists_reading
  | rank place =>
    exact ⟨_, Decimal.real?_digits place.toNat, rfl, Binary64.isClosest_ofUInt64 place⟩

/-- The line of a job whose windows are in order reads back as the job, bit for bit, with any NaN
for a deadline that is one, and with its deadline or a number closest to its rank as priority. -/
theorem written_job_reads_back {job : Job} (arrival : job.arrival.min ≤ job.arrival.max)
    (cost : job.cost.min ≤ job.cost.max) (priority : Priority) :
    ∃ row, Row.read (Text.trimEnd (Layout.csv.line job priority).toList) = .ok row ∧
      row.taskId = job.taskId ∧ row.jobId = job.id ∧ row.arrival = job.arrival ∧
      row.cost = job.cost ∧ row.deadline.Alike job.deadline ∧
      priority.IsReadAs row.priority := by
  obtain ⟨deadline, instant, alike⟩ := job.deadline.exists_reading
  obtain ⟨number, place, reading⟩ := priority.exists_reading
  have body : Text.trimEnd (Layout.csv.line job priority).toList =
      JobSet.tableBody (JobSet.cells job priority) := by
    rw [Layout.toList_line, Text.trimEnd_feed]
    exact JobSet.trimEnd_tableBody job priority
  rw [body]
  exact ⟨_, JobSet.read_tableBody_of_readings arrival cost instant place, rfl, rfl, rfl, rfl, alike,
    reading⟩

/-- A job that arrives at the negative zero or at any time later, with a deadline that is no number
and a cost from the least positive number up to a tenth. -/
def oddJob : Job :=
  { id := .ofNat (2 ^ 64 - 1)
    taskId := 0
    arrival := ⟨.ofRatio true 0 1, .infinity false⟩
    deadline := .nan true
    cost := ⟨.ofRatio false 1 (2 ^ 1074), .ofRatio false 1 10⟩ }

/-- A rank halfway between two numbers. -/
def oddRank : Priority := .rank (.ofNat (2 ^ 53 + 1))

/-- The job reads back, and its rank as a number next to it. -/
theorem written_job_reads_back_odd :
    oddJob.arrival.min ≤ oddJob.arrival.max ∧ oddJob.cost.min ≤ oddJob.cost.max ∧
    ∃ row, Row.read (Text.trimEnd (Layout.csv.line oddJob oddRank).toList) = .ok row ∧
      row.arrival = oddJob.arrival ∧ row.cost = oddJob.cost ∧ row.deadline.Alike oddJob.deadline ∧
      oddRank.IsReadAs row.priority := by
  have arrival : oddJob.arrival.min ≤ oddJob.arrival.max := by decide +kernel
  have cost : oddJob.cost.min ≤ oddJob.cost.max := by decide +kernel
  obtain ⟨row, read, _, _, window, window', deadline, priority⟩ :=
    written_job_reads_back arrival cost oddRank
  exact ⟨arrival, cost, row, read, window, window', deadline, priority⟩

end PeriodicJobs
