import PeriodicJobs.Job

set_option autoImplicit false

/- Priorities of jobs: by deadline, or by a rank that the task's period decides. -/
namespace PeriodicJobs

inductive Policy where
  | earliestDeadline
  | rateMonotonic
deriving DecidableEq

namespace Policy

def ofName? : String → Option Policy
  | "edf" | "EDF" => some .earliestDeadline
  | "rm" | "RM" | "rate_monotonic" | "rate-monotonic" => some .rateMonotonic
  | _ => none

def name : Policy → String
  | .earliestDeadline => "EDF"
  | .rateMonotonic => "RM"

end Policy

/-- What schedules a job: its deadline, or a rank in which one comes first. -/
inductive Priority where
  | deadline (instant : Binary64)
  | rank (rank : UInt64)
deriving DecidableEq

inductive PriorityRule where
  | byDeadline
  | byRank (rank : UInt64)
deriving DecidableEq

def PriorityRule.priority (job : Job) : PriorityRule → Priority
  | .byDeadline => .deadline job.deadline
  | .byRank rank => .rank rank

/-- The positions of tasks in the order of their periods, equal periods in the order given. -/
def periodOrder (tasks : List Task) : List Nat :=
  (tasks.zipIdx.mergeSort fun a b => a.1.period.totalKey ≤ b.1.period.totalKey).map (·.2)

/-- The rank of each task by its period: one for the shortest. -/
def rateMonotonicRanks (tasks : List Task) : List UInt64 :=
  let order := periodOrder tasks
  (List.range tasks.length).map fun index => UInt64.ofNat (order.idxOf index + 1)

namespace Policy

def rules (policy : Policy) (tasks : List Task) : List PriorityRule :=
  match policy with
  | .earliestDeadline => tasks.map fun _ => .byDeadline
  | .rateMonotonic => (rateMonotonicRanks tasks).map .byRank

/-- The rule at a position. Ranks belong to the tasks; deadlines need none. -/
def rule? (policy : Policy) (tasks : List Task) (index : Nat) : Option PriorityRule :=
  match policy with
  | .earliestDeadline => some .byDeadline
  | .rateMonotonic => (rateMonotonicRanks tasks)[index]?.map .byRank

end Policy

end PeriodicJobs
