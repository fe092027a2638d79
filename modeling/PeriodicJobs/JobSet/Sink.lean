import PeriodicJobs.JobSet.Layout

set_option autoImplicit false

/- Sinks: where a job set is written. A sink keeps what it has been given, may take only so much,
and may refuse to be flushed. -/
namespace PeriodicJobs

/-- What has been written, and how many more characters fit if that is bounded. -/
structure Sink where
  held : String := ""
  room : Option Nat := none
  flushes : Bool := true

inductive SinkFault where
  | full
  | flushRefused
deriving DecidableEq

def SinkFault.message : SinkFault → String
  | .full => "sink full"
  | .flushRefused => "flush refused"

/-- A computation that writes to a sink; a fault leaves the sink as it was when it occurred. -/
abbrev Writing (α : Type) : Type := EStateM SinkFault Sink α

namespace Sink

/-- Writes a text. Of a text that does not fit, the sink keeps as much as fits. -/
def write (text : String) : Writing Unit := fun sink =>
  match sink with
  | ⟨held, none, flushes⟩ => .ok () ⟨held ++ text, none, flushes⟩
  | ⟨held, some room, flushes⟩ =>
    if text.length ≤ room then .ok () ⟨held ++ text, some (room - text.length), flushes⟩
    else .error .full ⟨held ++ String.ofList (text.toList.take room), some 0, flushes⟩

/-- Asks the sink to pass on what it holds. -/
def flush : Writing Unit := fun sink =>
  if sink.flushes then .ok () sink else .error .flushRefused sink

end Sink

namespace Layout

def writeHeader (layout : Layout) : Writing Unit := Sink.write layout.header

def writeJob (layout : Layout) (job : Job) (priority : Priority) : Writing Unit :=
  Sink.write (layout.line job priority)

end Layout

end PeriodicJobs
