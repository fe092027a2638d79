import PeriodicJobs.Hyperperiod
import PeriodicJobs.JobSet.Layout

set_option autoImplicit false

/- The settings of a run, and the checks on values given for them. -/
namespace PeriodicJobs

structure Settings where
  policy : Policy := .earliestDeadline
  layout : Layout := .csv
  resolution : Binary64 := .one
  limit : Option Binary64 := none
deriving DecidableEq

inductive SettingsFault where
  | malformed
  | unknownPolicy (name : String)
  | unknownLayout (name : String)
  | resolution (fault : HyperperiodFault)
  | invalidLimit (limit : Binary64)
deriving DecidableEq

def SettingsFault.message : SettingsFault → String
  | .malformed => "Failed to parse YAML"
  | .unknownPolicy name => s!"unknown priority policy: '{name}' (valid: edf, rate_monotonic)"
  | .unknownLayout name => s!"unknown output format: '{name}' (valid: csv, initializer)"
  | .resolution fault => fault.message
  | .invalidLimit limit => s!"max_hyperperiod must be positive and finite, got {limit}"

def Policy.named (name : String) : Except SettingsFault Policy :=
  match ofName? name with
  | some policy => .ok policy
  | none => .error (.unknownPolicy name)

def Layout.named (name : String) : Except SettingsFault Layout :=
  match ofName? name with
  | some layout => .ok layout
  | none => .error (.unknownLayout name)

/-- The values that a settings document gives, not yet checked; what is absent keeps its default. -/
structure GivenSettings where
  policy : Option String := none
  layout : Option String := none
  resolution : Option Binary64 := none
  limit : Option Binary64 := none
deriving DecidableEq

/-- Accepts a number that can be the length of a tick. -/
def Settings.checkResolution (tick : Binary64) : Except SettingsFault Binary64 :=
  match Resolution.ofBinary64 tick with
  | .ok resolution => .ok resolution.tick
  | .error fault => .error (.resolution fault)

def Settings.checkLimit (limit : Binary64) : Except SettingsFault Binary64 :=
  if limit.IsUsable then .ok limit else .error (.invalidLimit limit)

/-- Checks the values in the order policy, layout, resolution, limit. -/
def GivenSettings.check (given : GivenSettings) : Except SettingsFault Settings := do
  let policy ← given.policy.mapM Policy.named
  let layout ← given.layout.mapM Layout.named
  let resolution ← given.resolution.mapM Settings.checkResolution
  let limit ← given.limit.mapM Settings.checkLimit
  let default : Settings := {}
  return {
    policy := policy.getD default.policy
    layout := layout.getD default.layout
    resolution := resolution.getD default.resolution
    limit }

end PeriodicJobs
