import PeriodicJobs.Task

set_option autoImplicit false

/- The jobs of a task, and cursors that walk over them. -/
namespace PeriodicJobs

/-- One activation of a task; the deadline is an instant. -/
structure Job where
  id : UInt64
  taskId : UInt64
  arrival : Window
  deadline : Binary64
  cost : Window
deriving DecidableEq

/-- The job that a task releases after `earlier` other jobs. Its number counts from one. -/
def Task.job (task : Task) (earlier : UInt64) : Job :=
  let release := Binary64.ofUInt64 earlier * task.period
  { id := earlier + 1
    taskId := task.id
    arrival := task.jitter.shift release
    deadline := release + task.deadline
    cost := task.cost }

/-- A task whose first release is not at the origin of time. -/
structure PhaseFault where
  taskId : UInt64
  phase : Binary64
deriving DecidableEq

def PhaseFault.message (e : PhaseFault) : String :=
  s!"task {e.taskId} has release phase {e.phase}; only phase 0 is supported"

/-- A position among the `count` jobs of a task: `next` of them have been taken. -/
structure Releases where
  task : Task
  next : UInt64
  count : UInt64
  next_le_count : next ≤ count

def Task.releases (task : Task) (span : Binary64) : Except PhaseFault Releases :=
  if task.phase.isZero then
    .ok { task, next := 0, count := task.jobCount span
          next_le_count := UInt64.le_iff_toNat_le.2 (Nat.zero_le _) }
  else .error ⟨task.id, task.phase⟩

namespace Releases

def remaining (r : Releases) : UInt64 := r.count - r.next

/-- The position `steps` jobs later, or behind the last job. -/
def advance (r : Releases) (steps : Nat) : Releases :=
  if h : steps < r.remaining.toNat then
    { r with
      next := r.next + UInt64.ofNat steps
      next_le_count := by
        have le := UInt64.le_iff_toNat_le.1 r.next_le_count
        have bound := r.count.toNat_lt
        have left : r.remaining.toNat = r.count.toNat - r.next.toNat :=
          UInt64.toNat_sub_of_le _ _ r.next_le_count
        rw [UInt64.le_iff_toNat_le, UInt64.toNat_add, UInt64.toNat_ofNat']
        omega }
  else { r with next := r.count, next_le_count := UInt64.le_refl _ }

/-- The next job, if any, and the position behind it. -/
def next? (r : Releases) : Option Job × Releases :=
  if r.next < r.count then (some (r.task.job r.next), r.advance 1) else (none, r)

/-- The job behind `skipped` others, if any, and the position behind it. -/
def nth? (r : Releases) (skipped : Nat) : Option Job × Releases :=
  (r.advance skipped).next?

/-- Up to `limit` jobs and the position behind them. -/
def take : Nat → Releases → List Job × Releases
  | 0, r => ([], r)
  | limit + 1, r =>
    match r.next? with
    | (none, r) => ([], r)
    | (some job, r) =>
      let (jobs, r) := take limit r
      (job :: jobs, r)

end Releases

end PeriodicJobs
