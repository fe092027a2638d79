import PeriodicJobs.JobSet.Sink
import PeriodicJobs.Settings.Basic
import PeriodicJobs.TaskSet.Table

set_option autoImplicit false

/- A run: task sets are read and expanded, and the job set is written.

All that can be refused is refused in the plan of the job set, before the first character reaches
the sink. -/
namespace PeriodicJobs

inductive RunFault where
  | taskSet (origin : String) (fault : TaskSetFault)
  | hyperperiod (fault : HyperperiodFault)
  | phase (fault : PhaseFault)
  | write (fault : SinkFault)
  | flush (fault : SinkFault)
deriving DecidableEq

def RunFault.message : RunFault → String
  | .taskSet origin fault => fault.message origin
  | .hyperperiod fault => fault.message
  | .phase fault => fault.message
  | .write fault => s!"Failed to write job set: {fault.message}"
  | .flush fault => s!"Failed to flush job set: {fault.message}"

structure Summary where
  tasks : Nat
  jobs : UInt64
  hyperperiod : Binary64
deriving DecidableEq

/-- A job set ready to be written: for every task its jobs and the rule of their priorities. -/
structure Plan where
  layout : Layout
  hyperperiod : Binary64
  streams : List (Releases × PriorityRule)

namespace Plan

def ofTasks (settings : Settings) (tasks : List Task) : Except RunFault Plan := do
  let resolution ← (Resolution.ofBinary64 settings.resolution).mapError .hyperperiod
  let hyperperiod ←
    (Hyperperiod.ofTasks resolution settings.limit tasks).mapError .hyperperiod
  let releases ← tasks.mapM fun task => (task.releases hyperperiod.value).mapError .phase
  return {
    layout := settings.layout
    hyperperiod := hyperperiod.value
    streams := releases.zip (settings.policy.rules tasks) }

def jobCount (plan : Plan) : UInt64 :=
  plan.streams.foldl (fun count (releases, _) => count + releases.remaining) 0

/-- Writes up to `limit` jobs of a task. -/
def writeJobs (layout : Layout) (rule : PriorityRule) : Nat → Releases → Writing Unit
  | 0, _ => pure ()
  | limit + 1, releases =>
    match releases.next? with
    | (none, _) => pure ()
    | (some job, rest) => do
      layout.writeJob job (rule.priority job)
      writeJobs layout rule limit rest

/-- Writes the header and then the jobs of every task. -/
def write (plan : Plan) : Writing Unit := do
  plan.layout.writeHeader
  plan.streams.forM fun (releases, rule) =>
    writeJobs plan.layout rule releases.remaining.toNat releases

end Plan

/-- A computation that may write to a sink and end with the fault of a run. -/
abbrev Running (α : Type) : Type := EStateM RunFault Sink α

/-- Writes, the fault of the sink becoming a fault of the run. -/
def Writing.failingAs {α : Type} (fault : SinkFault → RunFault) (writing : Writing α) :
    Running α := fun sink =>
  match writing sink with
  | .ok value sink => .ok value sink
  | .error reason sink => .error (fault reason) sink

def writeJobSet (settings : Settings) (tasks : List Task) : Running Summary := do
  let plan ← MonadExcept.ofExcept (Plan.ofTasks settings tasks)
  plan.write.failingAs .write
  Sink.flush.failingAs .flush
  return { tasks := tasks.length, jobs := plan.jobCount, hyperperiod := plan.hyperperiod }

/-- Reads task sets and writes their job set. -/
def run (files : Files) (paths : List String) (settings : Settings) : Running Summary := do
  let sets := TaskSet.loadAll files paths
  let tasks ← MonadExcept.ofExcept (sets.mapError fun (path, fault) => .taskSet path fault)
  writeJobSet settings tasks

end PeriodicJobs
