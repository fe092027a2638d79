import PeriodicJobs.Task
import PeriodicJobs.Ticks

set_option autoImplicit false

/- The hyperperiod: the span after which a set of periodic tasks repeats. Periods are counted in
ticks of a resolution, and the hyperperiod is the least common multiple of the counts. -/
namespace PeriodicJobs

inductive HyperperiodFault where
  | invalidResolution (resolution : Binary64)
  | nonIntegralPeriod (taskId : UInt64) (period resolution : Binary64)
  | overflow (operands : TickOverflow)
  | tooLarge (value limit : Binary64)
deriving DecidableEq

def HyperperiodFault.message : HyperperiodFault → String
  | .invalidResolution resolution => s!"time resolution {resolution} must be positive and finite"
  | .nonIntegralPeriod taskId period resolution =>
    s!"period {period} of task {taskId} is not a whole multiple of the time resolution {resolution}"
  | .overflow operands => operands.message
  | .tooLarge value limit => s!"hyperperiod {value} exceeds limit {limit}"

/-- A positive and finite number. -/
def Binary64.IsUsable (x : Binary64) : Prop := x.isFinite = true ∧ ¬ x ≤ .zero

instance (x : Binary64) : Decidable x.IsUsable := inferInstanceAs (Decidable (_ ∧ _))

/-- The length of a tick. -/
structure Resolution where
  tick : Binary64
  usable : tick.IsUsable

namespace Resolution

def ofBinary64 (tick : Binary64) : Except HyperperiodFault Resolution :=
  if usable : tick.IsUsable then .ok ⟨tick, usable⟩ else .error (.invalidResolution tick)

def unit : Resolution := ⟨.one, by decide +kernel⟩

/-- Up to this many ticks, 2^53, a period has its count exactly. -/
def maxTicks : Binary64 := .ofNat (Nat.pow 2 53)

/-- The ticks in the period of a task, which has to be a whole number of them but for noise. -/
def ticks (resolution : Resolution) (task : Task) : Except HyperperiodFault UInt64 :=
  let exact := task.period / resolution.tick
  let nearest := exact.round
  if ¬ exact.isNearlyWhole ∨ nearest < .one ∨ maxTicks < nearest then
    .error (.nonIntegralPeriod task.id task.period resolution.tick)
  else .ok nearest.toUInt64

def span (resolution : Resolution) (ticks : UInt64) : Binary64 :=
  .ofUInt64 ticks * resolution.tick

end Resolution

/-- Sorted values with repeats left out. -/
def dropRepeats : List UInt64 → List UInt64
  | a :: b :: rest => if a = b then dropRepeats (b :: rest) else a :: dropRepeats (b :: rest)
  | values => values

/-- The distinct values in increasing order. -/
def distinct (values : List UInt64) : List UInt64 :=
  dropRepeats (values.mergeSort fun a b => a ≤ b)

/-- The span of a set of tasks, its ticks and the distinct periods in it. -/
structure Hyperperiod where
  value : Binary64
  ticks : UInt64
  uniquePeriods : List Binary64
  taskCount : Nat
deriving DecidableEq

namespace Hyperperiod

/-- The hyperperiod of tasks that release nothing. -/
def degenerate (taskCount : Nat) : Hyperperiod := ⟨.zero, 0, [], taskCount⟩

def isDegenerate (h : Hyperperiod) : Bool := h.ticks == 0

def checkLimit (limit : Option Binary64) (value : Binary64) : Except HyperperiodFault Unit :=
  match limit with
  | none => .ok ()
  | some limit => if limit < value then .error (.tooLarge value limit) else .ok ()

/-- The hyperperiod of a set of tasks. No tasks, or a period of zero anywhere, make it
degenerate. -/
def ofTasks (resolution : Resolution) (limit : Option Binary64) (tasks : List Task) :
    Except HyperperiodFault Hyperperiod :=
  if tasks.isEmpty || tasks.any (·.period.isZero) then .ok (degenerate tasks.length)
  else do
    let counts := distinct (← tasks.mapM resolution.ticks)
    let ticks ← (Ticks.lcmAll counts).mapError .overflow
    let value := resolution.span ticks
    checkLimit limit value
    return ⟨value, ticks, counts.map resolution.span, tasks.length⟩

end Hyperperiod

end PeriodicJobs
