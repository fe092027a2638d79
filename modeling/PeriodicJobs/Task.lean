import PeriodicJobs.Window

set_option autoImplicit false

/- Periodic tasks, and how many jobs of a task fall into a span of time. -/
namespace PeriodicJobs

/-- A task releases a job every period. The deadline counts from the release, and the jitter is
the window of the arrival around it. -/
structure Task where
  id : UInt64
  period : Binary64
  phase : Binary64
  deadline : Binary64
  cost : Window
  jitter : Window
deriving DecidableEq

/-- The task without phase and jitter whose deadline is its period. -/
def Task.periodic (id : UInt64) (period : Binary64) (cost : Window) : Task :=
  { id, period, cost, phase := .zero, deadline := period, jitter := .point .zero }

/-- One part in a thousand million. -/
def Binary64.tolerance : Binary64 := ofRatio false 1 1000000000

/-- Whether a quotient is whole but for rounding noise: its distance to the nearest whole number is
within the tolerance of that number, or of one if that is larger. -/
def Binary64.isNearlyWhole (quotient : Binary64) : Bool :=
  (quotient - quotient.round).abs ≤ tolerance * quotient.round.max one

/-- The jobs of a task in a span that starts with a release: the periods in it, an incomplete one
counted unless it is rounding noise. -/
def Task.jobCount (task : Task) (span : Binary64) : UInt64 :=
  if task.period ≤ .zero ∨ span ≤ .zero then 0
  else
    let periods := span / task.period
    if periods.isNearlyWhole then periods.round.toUInt64 else periods.ceil.toUInt64

end PeriodicJobs
