import PeriodicJobs.Proofs.Run.Bounded

set_option autoImplicit false

/- How a run ends, apart from what its sink is left with. A run that is not refused ends by the room
and the flushing of the sink, and of what it writes only the length matters. -/
namespace PeriodicJobs

def Running.outcome {α : Type} (running : Running α) (sink : Sink) : Except RunFault α :=
  match running sink with
  | .ok a _ => .ok a
  | .error fault _ => .error fault

namespace Running

variable {α : Type} {running : Running α} {sink : Sink}

theorem outcome_of_ok {a : α} {after : Sink} (done : running sink = .ok a after) :
    running.outcome sink = .ok a := by
  rw [outcome, done]

theorem outcome_of_error {fault : RunFault} {after : Sink}
    (failed : running sink = .error fault after) : running.outcome sink = .error fault := by
  rw [outcome, failed]

end Running

namespace Sink

/-- Whether a text of some length fits. -/
def hasRoom (sink : Sink) (length : Nat) : Bool := sink.room.all fun room => decide (length ≤ room)

/-- How a text of some length, and flushing behind it, ends on a sink. -/
def ending {α : Type} (sink : Sink) (length : Nat) (a : α) : Except RunFault α :=
  if sink.hasRoom length then
    if sink.flushes then .ok a else .error (.flush .flushRefused)
  else .error (.write .full)

theorem hasRoom_of_unbounded {sink : Sink} (unbounded : sink.room = none) (length : Nat) :
    sink.hasRoom length = true := by
  rw [hasRoom, unbounded, Option.all_none]

theorem write_of_hasRoom {text : String} {sink : Sink} (room : sink.hasRoom text.length = true) :
    ∃ after, Sink.write text sink = .ok () after ∧ after.flushes = sink.flushes := by
  obtain ⟨held, _ | most, flushes⟩ := sink
  · exact ⟨_, write_unbounded held flushes, rfl⟩
  · exact ⟨_, write_of_fits held flushes (of_decide_eq_true room), rfl⟩

theorem write_of_not_hasRoom {text : String} {sink : Sink}
    (full : ¬ sink.hasRoom text.length = true) :
    ∃ after, Sink.write text sink = .error .full after := by
  obtain ⟨held, _ | most, flushes⟩ := sink
  · exact absurd rfl full
  · have above : most < text.length := Nat.lt_of_not_le fun fits => full (decide_eq_true fits)
    exact ⟨_, write_of_over held flushes above⟩

end Sink

variable {settings : Settings} {tasks : List Task}

theorem outcome_of_refused {fault : RunFault}
    (refused : Plan.ofTasks settings tasks = .error fault) (sink : Sink) :
    (writeJobSet settings tasks).outcome sink = .error fault :=
  Running.outcome_of_error (writeJobSet_of_refused refused sink)

theorem outcome_of_planned {plan : Plan} (planned : Plan.ofTasks settings tasks = .ok plan)
    (sink : Sink) :
    (writeJobSet settings tasks).outcome sink =
      sink.ending plan.text.length (plan.summary tasks) := by
  unfold Sink.ending
  by_cases room : sink.hasRoom plan.text.length = true
  · obtain ⟨after, written, same⟩ := Sink.write_of_hasRoom room
    have run := writeJobSet_of_written planned written
    rw [same] at run
    rw [if_pos room]
    by_cases flushes : sink.flushes = true
    · rw [if_pos flushes] at run ⊢
      exact Running.outcome_of_ok run
    · rw [if_neg flushes] at run ⊢
      exact Running.outcome_of_error run
  · obtain ⟨after, failed⟩ := Sink.write_of_not_hasRoom room
    rw [if_neg room]
    exact Running.outcome_of_error (writeJobSet_of_failed planned failed)

/-- Every run ends as its plan says, refused or on the sink. -/
theorem outcome_writeJobSet (settings : Settings) (tasks : List Task) (sink : Sink) :
    (writeJobSet settings tasks).outcome sink =
      (Plan.ofTasks settings tasks).bind fun plan =>
        sink.ending plan.text.length (plan.summary tasks) := by
  cases made : Plan.ofTasks settings tasks with
  | error fault => exact outcome_of_refused made sink
  | ok plan => exact outcome_of_planned made sink

end PeriodicJobs
