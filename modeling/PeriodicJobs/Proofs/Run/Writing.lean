import PeriodicJobs.Proofs.Releases
import PeriodicJobs.Run

set_option autoImplicit false

/- What a run gives to its sink. Two writes in a row are one write of both texts, also on a sink
that fills up on the way, so the loops over tasks and jobs are a single write of the whole set. -/
namespace PeriodicJobs

namespace Sink

section

variable {text : String} (held : String) {room : Nat} (flushes : Bool)

theorem write_unbounded : Sink.write text ⟨held, none, flushes⟩ =
    .ok () ⟨held ++ text, none, flushes⟩ := rfl

theorem write_of_fits (fits : text.length ≤ room) : Sink.write text ⟨held, some room, flushes⟩ =
    .ok () ⟨held ++ text, some (room - text.length), flushes⟩ := by
  simp only [write, fits, ↓reduceIte]

theorem write_of_over (above : room < text.length) : Sink.write text ⟨held, some room, flushes⟩ =
    .error .full ⟨held ++ String.ofList (text.toList.take room), some 0, flushes⟩ := by
  simp only [write, Nat.not_le_of_lt above, ↓reduceIte]

end

theorem bind_ok {first second : Writing Unit} {sink next : Sink}
    (done : first sink = .ok () next) : (do first; second) sink = second next := by
  change EStateM.bind _ _ _ = _
  simp only [EStateM.bind, done]

theorem bind_error {first second : Writing Unit} {sink next : Sink} {fault : SinkFault}
    (failed : first sink = .error fault next) :
    (do first; second) sink = .error fault next := by
  change EStateM.bind _ _ _ = _
  simp only [EStateM.bind, failed]

/-- A sink that fills up keeps a prefix of the texts, wherever it ends. -/
theorem write_append (first second : String) :
    (do Sink.write first; Sink.write second) = Sink.write (first ++ second) := by
  funext sink
  obtain ⟨held, room, flushes⟩ := sink
  cases room with
  | none =>
    rw [bind_ok (write_unbounded held flushes), write_unbounded, write_unbounded,
      String.append_assoc]
  | some room =>
    have length := String.length_append (s := first) (t := second)
    by_cases fits : first.length ≤ room
    · rw [bind_ok (write_of_fits held flushes fits)]
      by_cases fits' : second.length ≤ room - first.length
      · rw [write_of_fits _ flushes fits', write_of_fits held flushes (by omega), length,
          String.append_assoc, Nat.sub_sub]
      · have kept : (first ++ second).toList.take room =
            first.toList ++ second.toList.take (room - first.length) := by
          rw [String.toList_append, List.take_append, String.length_toList,
            List.take_of_length_le (by rwa [String.length_toList])]
        rw [write_of_over _ flushes (by omega), write_of_over held flushes (by omega), kept,
          String.ofList_append, String.ofList_toList, String.append_assoc]
    · have kept : (first ++ second).toList.take room = first.toList.take room := by
        rw [String.toList_append, List.take_append_of_le_length (by
          rw [String.length_toList]
          omega)]
      rw [bind_error (write_of_over held flushes (by omega)), write_of_over held flushes (by omega),
        kept]

theorem write_empty : Sink.write "" = pure () := by
  funext sink
  obtain ⟨held, room, flushes⟩ := sink
  cases room <;> simp [write, pure, EStateM.pure]

theorem write_ok {text : String} {sink after : Sink}
    (done : Sink.write text sink = .ok () after) : after.held = sink.held ++ text := by
  obtain ⟨held, room, flushes⟩ := sink
  cases room with
  | none =>
    rw [write_unbounded] at done
    cases done
    rfl
  | some room =>
    by_cases fits : text.length ≤ room
    · rw [write_of_fits held flushes fits] at done
      cases done
      rfl
    · rw [write_of_over held flushes (by omega)] at done
      cases done

theorem flush_ok {sink after : Sink} (done : Sink.flush sink = .ok () after) :
    after = sink := by
  unfold Sink.flush at done
  split at done
  · cases done
    rfl
  · cases done

end Sink

def Layout.lines (layout : Layout) (rule : PriorityRule) (jobs : List Job) : String :=
  String.join (jobs.map fun job => layout.line job (rule.priority job))

namespace Plan

def text (plan : Plan) : String :=
  plan.layout.header ++ String.join (plan.streams.map fun (releases, rule) =>
    plan.layout.lines rule releases.jobs)

theorem writeJobs_eq (layout : Layout) (rule : PriorityRule) (limit : Nat)
    (releases : Releases) :
    writeJobs layout rule limit releases =
      Sink.write (layout.lines rule (releases.take limit).1) := by
  induction limit generalizing releases with
  | zero => exact Sink.write_empty.symm
  | succ limit ih =>
    rw [writeJobs, Releases.take]
    cases releases.next? with
    | mk job rest =>
      cases job with
      | none => exact Sink.write_empty.symm
      | some job =>
        simp only [ih, Layout.writeJob, Layout.lines, List.map_cons, String.join_cons]
        exact Sink.write_append _ _

theorem writeStreams_eq (layout : Layout) (streams : List (Releases × PriorityRule)) :
    (streams.forM fun (releases, rule) =>
      writeJobs layout rule releases.remaining.toNat releases) =
      Sink.write (String.join (streams.map fun (releases, rule) =>
        layout.lines rule releases.jobs)) := by
  induction streams with
  | nil => exact Sink.write_empty.symm
  | cons stream streams ih =>
    obtain ⟨releases, rule⟩ := stream
    change (do writeJobs layout rule releases.remaining.toNat releases; List.forM streams _) = _
    rw [ih, writeJobs_eq, List.map_cons, String.join_cons]
    exact Sink.write_append _ _

/-- Writing a plan is writing its text. -/
theorem write_eq (plan : Plan) : plan.write = Sink.write plan.text := by
  rw [Plan.write, writeStreams_eq, Layout.writeHeader]
  exact Sink.write_append _ _

end Plan

theorem Running.bind_eq_ok {α β : Type} {first : Running α} {next : α → Running β}
    {sink after : Sink} {b : β} (done : (first >>= next) sink = .ok b after) :
    ∃ a middle, first sink = .ok a middle ∧ next a middle = .ok b after := by
  change EStateM.bind _ _ _ = _ at done
  simp only [EStateM.bind] at done
  split at done
  · rename_i a middle first
    exact ⟨a, middle, first, done⟩
  · cases done

theorem Writing.failingAs_eq_ok {α : Type} {fault : SinkFault → RunFault} {writing : Writing α}
    {sink after : Sink} {a : α} (done : writing.failingAs fault sink = .ok a after) :
    writing sink = .ok a after := by
  unfold Writing.failingAs at done
  split at done
  · rename_i written
    cases done
    exact written
  · cases done

/-- A sink with room for a text that can also be flushed. -/
structure Sink.Takes (sink : Sink) (text : String) : Prop where
  fits : ∀ room, sink.room = some room → text.length ≤ room
  flushes : sink.flushes = true

/-- A run that is refused leaves its sink alone; any other run writes its whole plan. -/
theorem writeJobSet_of_refused {settings : Settings} {tasks : List Task} {fault : RunFault}
    (refused : Plan.ofTasks settings tasks = .error fault) (sink : Sink) :
    writeJobSet settings tasks sink = .error fault sink := by
  rw [writeJobSet, refused]
  rfl

def Plan.summary (plan : Plan) (tasks : List Task) : Summary :=
  { tasks := tasks.length, jobs := plan.jobCount, hyperperiod := plan.hyperperiod }

theorem writeJobSet_of_planned {settings : Settings} {tasks : List Task} {plan : Plan}
    (planned : Plan.ofTasks settings tasks = .ok plan) :
    writeJobSet settings tasks = do
      (Sink.write plan.text).failingAs .write
      Sink.flush.failingAs .flush
      return plan.summary tasks := by
  rw [writeJobSet, planned, ← plan.write_eq]
  rfl

/-- A run ends well on every sink that takes the text of its plan. -/
theorem writeJobSet_of_takes {settings : Settings} {tasks : List Task} {plan : Plan}
    (planned : Plan.ofTasks settings tasks = .ok plan) {sink : Sink}
    (takes : sink.Takes plan.text) :
    ∃ after, writeJobSet settings tasks sink = .ok (plan.summary tasks) after ∧
      after.held = sink.held ++ plan.text := by
  obtain ⟨held, room, flushes⟩ := sink
  obtain ⟨fits, flush⟩ := takes
  simp only at fits flush
  subst flush
  rw [writeJobSet_of_planned planned]
  cases room with
  | none => exact ⟨_, rfl, rfl⟩
  | some room =>
    have written := Sink.write_of_fits held true (fits room rfl)
    refine ⟨⟨held ++ plan.text, some (room - plan.text.length), true⟩, ?_, rfl⟩
    have wrote : (Sink.write plan.text).failingAs .write ⟨held, some room, true⟩ =
        .ok () ⟨held ++ plan.text, some (room - plan.text.length), true⟩ := by
      simp only [Writing.failingAs, written]
    change EStateM.bind _ _ _ = _
    simp only [EStateM.bind, wrote]
    rfl

/-- A run that ends well has added the text of its plan to the sink. -/
theorem writeJobSet_ok {settings : Settings} {tasks : List Task} {sink after : Sink}
    {summary : Summary} (written : writeJobSet settings tasks sink = .ok summary after) :
    ∃ plan, Plan.ofTasks settings tasks = .ok plan ∧ summary = plan.summary tasks ∧
      after.held = sink.held ++ plan.text := by
  cases made : Plan.ofTasks settings tasks with
  | error fault =>
    rw [writeJobSet_of_refused made] at written
    cases written
  | ok plan =>
    rw [writeJobSet_of_planned made] at written
    obtain ⟨_, middle, wrote, rest⟩ := Running.bind_eq_ok written
    obtain ⟨_, last, flushed, rest⟩ := Running.bind_eq_ok rest
    cases rest
    rw [Sink.flush_ok (Writing.failingAs_eq_ok flushed)]
    exact ⟨plan, rfl, rfl, Sink.write_ok (Writing.failingAs_eq_ok wrote)⟩

end PeriodicJobs
