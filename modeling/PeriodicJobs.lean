import PeriodicJobs.Main
import PeriodicJobs.Proofs.Expansion
import PeriodicJobs.Proofs.Run.Readback
import PeriodicJobs.Proofs.Run.Rejection
import PeriodicJobs.Proofs.Drift
import PeriodicJobs.Proofs.Repetition
import PeriodicJobs.Proofs.Run.FirstJobs
import PeriodicJobs.Proofs.Binary64.Overflow
import PeriodicJobs.Proofs.Span
import PeriodicJobs.Proofs.Text.Encoding
import PeriodicJobs.Proofs.JobSet.Ascii
import PeriodicJobs.Proofs.Run.Bounded
import PeriodicJobs.Proofs.Run.Ending
import PeriodicJobs.Proofs.Text.Decoding
import PeriodicJobs.Proofs.Text.Trimming
import PeriodicJobs.Proofs.Csv.Lines
import PeriodicJobs.Proofs.TaskSet.Cells
import PeriodicJobs.Proofs.TaskSet.Agreement
import PeriodicJobs.Proofs.TaskSet.Arrangement
import PeriodicJobs.Proofs.Run.Layouts
import PeriodicJobs.Proofs.Priority
import PeriodicJobs.Proofs.Run.Reordering
import PeriodicJobs.Proofs.TaskSet.Fields
import PeriodicJobs.Proofs.TaskSet.Rows
import PeriodicJobs.Proofs.TaskSet.FirstFault
import PeriodicJobs.Proofs.Decimal.Spelling
import PeriodicJobs.Proofs.TaskSet.Ranges
import PeriodicJobs.Proofs.TaskSet.Finiteness
import PeriodicJobs.Proofs.CommonMultiple
import PeriodicJobs.Proofs.Ceiling
import PeriodicJobs.Proofs.Cursors
import PeriodicJobs.Proofs.LongerSpans
import PeriodicJobs.Proofs.Instants
import PeriodicJobs.Proofs.TaskSet.Progress
import PeriodicJobs.Proofs.Binary64.Monotone
import PeriodicJobs.Proofs.Run.Splitting
import PeriodicJobs.Proofs.CommandLine
import PeriodicJobs.Proofs.Ranks
import PeriodicJobs.Proofs.Binary64.Closest
import PeriodicJobs.Proofs.JobSet.Alike
import PeriodicJobs.Proofs.JobSet.RoundTrip
import PeriodicJobs.Proofs.JobSet.Unambiguous
import PeriodicJobs.Proofs.Csv.Positions
import PeriodicJobs.Proofs.TaskSet.Diagnostics
import PeriodicJobs.Proofs.Shifting
import PeriodicJobs.Proofs.DistinctPeriods
import PeriodicJobs.Proofs.HalfTicks
import PeriodicJobs.Proofs.TaskSet.Names
import PeriodicJobs.Proofs.TaskSet.TaskNames
import PeriodicJobs.Proofs.TaskSet.WrittenNumbers
import PeriodicJobs.Proofs.TaskSet.QuotedCells
import PeriodicJobs.Proofs.Multiples
import PeriodicJobs.Proofs.Checks
import PeriodicJobs.Proofs.Decimal.Grammar
import PeriodicJobs.Proofs.JobSet.RowFaults
import PeriodicJobs.Proofs.Settings.Acceptance
