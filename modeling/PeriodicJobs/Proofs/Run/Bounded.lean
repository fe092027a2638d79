import PeriodicJobs.Proofs.JobSet.Ascii
import PeriodicJobs.Proofs.Run.Planning

set_option autoImplicit false

/- Runs on sinks that fill up. A run is a single write of its whole text, however the text is cut
into pieces, so that a sink with too little room is left with as much of it as fits and nothing that
comes behind. -/
namespace PeriodicJobs

namespace Sink

def bytes (sink : Sink) : List UInt8 := sink.held.toUTF8.data.toList

def writeAll (texts : List String) : Writing Unit := texts.forM Sink.write

theorem writeAll_eq (texts : List String) : writeAll texts = Sink.write (String.join texts) := by
  induction texts with
  | nil => exact write_empty.symm
  | cons text texts ih =>
    change (do Sink.write text; writeAll texts) = _
    rw [ih, String.join_cons]
    exact write_append _ _

/-- What comes behind a write that fails is not written. -/
theorem write_of_failed {before later : List String} {piece : String} {sink middle last : Sink}
    {fault : SinkFault} (written : writeAll before sink = .ok () middle)
    (failed : Sink.write piece middle = .error fault last) :
    Sink.write (String.join (before ++ piece :: later)) sink = .error fault last := by
  have start : String.join (before ++ piece :: later) =
      String.join before ++ (piece ++ String.join later) := by
    rw [String.join_append, String.join_cons]
  rw [writeAll_eq] at written
  rw [start, ← write_append, bind_ok written, ← write_append, bind_error failed]

end Sink

namespace Running

variable {α β : Type} {first : Running α} {next : α → Running β} {sink middle : Sink}

theorem bind_of_ok {a : α} (done : first sink = .ok a middle) :
    (first >>= next) sink = next a middle := by
  change EStateM.bind _ _ _ = _
  simp only [EStateM.bind, done]

theorem bind_of_error {fault : RunFault} (failed : first sink = .error fault middle) :
    (first >>= next) sink = .error fault middle := by
  change EStateM.bind _ _ _ = _
  simp only [EStateM.bind, failed]

end Running

namespace Writing

variable {α : Type} {writing : Writing α} {sink after : Sink} (name : SinkFault → RunFault)

theorem failingAs_of_ok {a : α} (written : writing sink = .ok a after) :
    writing.failingAs name sink = .ok a after := by
  simp only [failingAs, written]

theorem failingAs_of_error {fault : SinkFault} (failed : writing sink = .error fault after) :
    writing.failingAs name sink = .error (name fault) after := by
  simp only [failingAs, failed]

end Writing

theorem Plan.isAscii_text (plan : Plan) : Text.IsAscii plan.text.toList := by
  rw [text, String.toList_append]
  apply Text.IsAscii.append plan.layout.isAscii_header
  intro c mem
  rw [String.toList_join, List.mem_flatMap] at mem
  obtain ⟨block, inBlocks, mem⟩ := mem
  obtain ⟨⟨releases, rule⟩, _, rfl⟩ := List.mem_map.1 inBlocks
  simp only [Layout.lines, String.toList_join, List.mem_flatMap] at mem
  obtain ⟨line, inLines, mem⟩ := mem
  obtain ⟨job, _, rfl⟩ := List.mem_map.1 inLines
  exact plan.layout.isAscii_line job _ c mem

section

variable {settings : Settings} {tasks : List Task} {plan : Plan}
  (planned : Plan.ofTasks settings tasks = .ok plan)

include planned

/-- A failed write ends the run with the sink as that write left it. -/
theorem writeJobSet_of_failed {sink after : Sink} {fault : SinkFault}
    (failed : Sink.write plan.text sink = .error fault after) :
    writeJobSet settings tasks sink = .error (.write fault) after := by
  rw [writeJobSet_of_planned planned]
  exact Running.bind_of_error (Writing.failingAs_of_error .write failed)

/-- Behind the last write a run is what flushing makes of it. -/
theorem writeJobSet_of_written {sink after : Sink}
    (written : Sink.write plan.text sink = .ok () after) :
    writeJobSet settings tasks sink =
      if after.flushes then .ok (plan.summary tasks) after
      else .error (.flush .flushRefused) after := by
  rw [writeJobSet_of_planned planned,
    Running.bind_of_ok (Writing.failingAs_of_ok .write written)]
  by_cases flushes : after.flushes = true
  · have flushed : Sink.flush after = .ok () after := if_pos flushes
    rw [if_pos flushes, Running.bind_of_ok (Writing.failingAs_of_ok .flush flushed)]
    rfl
  · have refused : Sink.flush after = .error .flushRefused after := if_neg flushes
    rw [if_neg flushes, Running.bind_of_error (Writing.failingAs_of_error .flush refused)]

end

namespace Sink

/-- A sink that takes no more than some bytes. -/
def ofCapacity (capacity : Nat) (flushes : Bool) : Sink := { room := some capacity, flushes }

theorem bytes_eq {sink : Sink} {text : List Char} (held : sink.held = String.ofList text) :
    sink.bytes = Text.encode text := by
  rw [bytes, held, Text.toUTF8_eq_encode, String.toList_ofList]

/-- What a text leaves in an empty sink: the bytes that fit, with a fault if these are not all. -/
theorem write_ofCapacity {text : String} (ascii : Text.IsAscii text.toList) (capacity : Nat)
    (flushes : Bool) :
    ∃ after, after.bytes = (Text.encode text.toList).take capacity ∧ after.flushes = flushes ∧
      Sink.write text (ofCapacity capacity flushes) =
        if capacity < text.length then .error .full after else .ok () after := by
  by_cases full : capacity < text.length
  · refine ⟨_, ?_, rfl, (write_of_over "" flushes full).trans (if_pos full).symm⟩
    rw [← Text.encode_take ascii]
    exact bytes_eq String.empty_append
  · refine ⟨_, ?_, rfl,
      (write_of_fits "" flushes (Nat.le_of_not_lt full)).trans (if_neg full).symm⟩
    have whole : (Text.encode text.toList).length ≤ capacity := by
      rw [Text.length_encode ascii, String.length_toList]
      omega
    rw [List.take_of_length_le whole]
    apply bytes_eq
    rw [String.ofList_toList]
    exact String.empty_append

end Sink

/-- A run on a sink of some capacity leaves the first bytes of what it would write without bounds.
With room for all of it the run ends as it would, or by the refused flush; else it ends by its first
failed write, wherever the text is cut into writes, and with the sink as this one left it. -/
theorem bounded_sink_holds_start {settings : Settings} {tasks : List Task} {summary : Summary}
    {unbounded : Sink} (written : writeJobSet settings tasks {} = .ok summary unbounded)
    (capacity : Nat) (flushes : Bool) :
    (∃ after, after.bytes = unbounded.bytes.take capacity ∧
      writeJobSet settings tasks (.ofCapacity capacity flushes) =
        if capacity < unbounded.bytes.length then .error (.write .full) after
        else if flushes then .ok summary after
        else .error (.flush .flushRefused) after) ∧
    (∀ before piece later, String.join (before ++ piece :: later) = unbounded.held →
      ∀ fault middle last, Sink.writeAll before (.ofCapacity capacity flushes) = .ok () middle →
        Sink.write piece middle = .error fault last →
          writeJobSet settings tasks (.ofCapacity capacity flushes) = .error (.write fault) last) ∧
    (RunFault.write .full).message = "Failed to write job set: sink full" ∧
    (RunFault.flush .flushRefused).message = "Failed to flush job set: flush refused" := by
  obtain ⟨plan, planned, rfl, held⟩ := writeJobSet_ok written
  have text : unbounded.held = plan.text := held.trans String.empty_append
  have ascii := plan.isAscii_text
  have bytes : unbounded.bytes = Text.encode plan.text.toList :=
    Sink.bytes_eq (text.trans String.ofList_toList.symm)
  refine ⟨?_, ?_, rfl, rfl⟩
  · obtain ⟨after, kept, flush, outcome⟩ := Sink.write_ofCapacity ascii capacity flushes
    refine ⟨after, bytes ▸ kept, ?_⟩
    rw [bytes, Text.length_encode ascii, String.length_toList]
    by_cases full : capacity < plan.text.length
    · rw [if_pos full] at outcome ⊢
      exact writeJobSet_of_failed planned outcome
    · rw [if_neg full] at outcome ⊢
      rw [writeJobSet_of_written planned outcome, flush]
  · intro before piece later cut fault middle last start failed
    apply writeJobSet_of_failed planned
    rw [← text, ← cut]
    exact Sink.write_of_failed start failed

def pairTask : Task := .periodic 1 (.ofNat 2) (.point .one)

/-- The plan of a single job, to be written as an expression. -/
def pairPlan : Plan :=
  { layout := .initializer, hyperperiod := .ofNat 2, streams := [(pairTask.start 1, .byDeadline)] }

/-- Twenty bytes end within the arrival of the job. -/
theorem bounded_sink_holds_start_twenty : ∃ summary unbounded after,
    writeJobSet { layout := .initializer } [pairTask] {} = .ok summary unbounded ∧
      20 < unbounded.bytes.length ∧ after.bytes = unbounded.bytes.take 20 ∧
      writeJobSet { layout := .initializer } [pairTask] (.ofCapacity 20 true) =
        .error (.write .full) after := by
  have repeats : Hyperperiod.ofTasks .unit none [pairTask] = .ok ⟨.ofNat 2, 2, [.ofNat 2], 1⟩ := by
    decide +kernel
  have count : pairTask.jobCount (.ofNat 2) = 1 := by decide +kernel
  have planned : Plan.ofTasks { layout := .initializer } [pairTask] = .ok pairPlan := by
    have resolved : Resolution.ofBinary64 .one = .ok .unit := dif_pos Resolution.unit.usable
    have made := Plan.ofTasks_eq_ok (show Resolution.ofBinary64
      ({ layout := .initializer } : Settings).resolution = .ok .unit from resolved) repeats
      (.cons (Task.releases_of_phase rfl _) .nil)
    rwa [count] at made
  have long : 20 < pairPlan.text.length := by decide +kernel
  obtain ⟨unbounded, written, held⟩ :=
    writeJobSet_of_takes planned (⟨by simp, rfl⟩ : Sink.Takes {} pairPlan.text)
  have length : unbounded.bytes.length = pairPlan.text.length := by
    rw [Sink.bytes_eq (held.trans (String.empty_append.trans String.ofList_toList.symm)),
      Text.length_encode pairPlan.isAscii_text, String.length_toList]
  obtain ⟨⟨after, kept, outcome⟩, _⟩ := bounded_sink_holds_start written 20 true
  rw [length, if_pos long] at outcome
  exact ⟨_, unbounded, after, written, length ▸ long, kept, outcome⟩

end PeriodicJobs
