import PeriodicJobs.Proofs.Outcome
import PeriodicJobs.Proofs.Run.Writing

set_option autoImplicit false

/- Runs that end early. Whatever is wrong with the files, the settings or the tasks is found before
the sink is touched, so that a sink has been given something only if the fault is its own. -/
namespace PeriodicJobs

/-- A fault of the sink and not of what the run was given. -/
def RunFault.IsSinkFault : RunFault → Prop
  | .write _ | .flush _ => True
  | .taskSet .. | .hyperperiod _ | .phase _ => False

/-- A computation that is refused on every sink with one fault, or fails only by its sink. -/
def Running.Decided {α : Type} (running : Running α) : Prop :=
  (∃ fault, ∀ sink, running sink = .error fault sink) ∨
    ∀ sink fault after, running sink = .error fault after → fault.IsSinkFault

namespace Running

variable {α β : Type}

theorem decided_of_refused {running : Running α} {fault : RunFault}
    (refused : ∀ sink, running sink = .error fault sink) : running.Decided :=
  Or.inl ⟨fault, refused⟩

theorem fault_of_bind {first : Running α} {next : α → Running β} {sink after : Sink}
    {fault : RunFault} (failed : (first >>= next) sink = .error fault after) :
    first sink = .error fault after ∨
      ∃ a middle, first sink = .ok a middle ∧ next a middle = .error fault after := by
  change EStateM.bind _ _ _ = _ at failed
  simp only [EStateM.bind] at failed
  split at failed
  · rename_i a middle first
    exact Or.inr ⟨a, middle, first, failed⟩
  · rename_i reason middle first
    cases failed
    exact Or.inl first

theorem fault_of_failingAs {name : SinkFault → RunFault} {writing : Writing α}
    {sink after : Sink} {fault : RunFault}
    (failed : writing.failingAs name sink = .error fault after) :
    ∃ reason, fault = name reason := by
  unfold Writing.failingAs at failed
  split at failed
  · cases failed
  · rename_i reason middle wrote
    cases failed
    exact ⟨reason, rfl⟩

end Running

/-- A set of tasks that has a plan can fail only in writing it. -/
theorem isSinkFault_of_planned {settings : Settings} {tasks : List Task} {plan : Plan}
    (planned : Plan.ofTasks settings tasks = .ok plan) {sink after : Sink} {fault : RunFault}
    (failed : writeJobSet settings tasks sink = .error fault after) : fault.IsSinkFault := by
  rw [writeJobSet_of_planned planned] at failed
  rcases Running.fault_of_bind failed with failed | ⟨_, _, _, failed⟩
  · obtain ⟨reason, rfl⟩ := Running.fault_of_failingAs failed
    trivial
  · rcases Running.fault_of_bind failed with failed | ⟨_, _, _, failed⟩
    · obtain ⟨reason, rfl⟩ := Running.fault_of_failingAs failed
      trivial
    · cases failed

theorem decided_writeJobSet (settings : Settings) (tasks : List Task) :
    (writeJobSet settings tasks).Decided := by
  cases made : Plan.ofTasks settings tasks with
  | error fault => exact Running.decided_of_refused (writeJobSet_of_refused made)
  | ok plan => exact Or.inr fun _ _ _ failed => isSinkFault_of_planned made failed

theorem run_of_unread {files : Files} {paths : List String} {path : String}
    {fault : TaskSetFault} (unread : TaskSet.loadAll files paths = .error (path, fault))
    (settings : Settings) (sink : Sink) :
    run files paths settings sink = .error (.taskSet path fault) sink := by
  rw [run, unread]
  rfl

theorem run_of_read {files : Files} {paths : List String} {tasks : List Task}
    (read : TaskSet.loadAll files paths = .ok tasks) (settings : Settings) :
    run files paths settings = writeJobSet settings tasks := by
  rw [run, read]
  rfl

theorem decided_run (files : Files) (paths : List String) (settings : Settings) :
    (run files paths settings).Decided := by
  cases read : TaskSet.loadAll files paths with
  | error fault =>
    obtain ⟨path, fault⟩ := fault
    exact Running.decided_of_refused (run_of_unread read settings)
  | ok tasks =>
    rw [run_of_read read]
    exact decided_writeJobSet settings tasks

theorem Running.Decided.untouched {α : Type} {running : Running α} (decided : running.Decided)
    {sink after : Sink} {fault : RunFault} (failed : running sink = .error fault after) :
    (after = sink ∧ ∀ other, running other = .error fault other) ∨ fault.IsSinkFault := by
  rcases decided with ⟨fault', refused⟩ | broken
  · rw [refused] at failed
    cases failed
    exact Or.inl ⟨rfl, refused⟩
  · exact Or.inr (broken sink fault after failed)

/-- A run that is rejected leaves the sink as it was, and would be rejected on any other sink in the
same way. A sink that has been given anything ends the run by its own fault only. -/
theorem rejection_writes_nothing {files : Files} {paths : List String} {settings : Settings}
    {tasks : List Task} {running : Running Summary}
    (entry : running = run files paths settings ∨ running = writeJobSet settings tasks)
    {sink after : Sink} {fault : RunFault} (failed : running sink = .error fault after) :
    (¬ fault.IsSinkFault → after = sink ∧ ∀ other, running other = .error fault other) ∧
      (after.held ≠ sink.held → fault.IsSinkFault) := by
  have decided : running.Decided := by
    rcases entry with rfl | rfl
    · exact decided_run files paths settings
    · exact decided_writeJobSet settings tasks
  rcases decided.untouched failed with ⟨rfl, refused⟩ | broken
  · exact ⟨fun _ => ⟨rfl, refused⟩, fun given => absurd rfl given⟩
  · exact ⟨fun rejected => absurd broken rejected, fun _ => broken⟩

/-- A second file that is missing leaves nothing of the first one on any sink. -/
theorem rejection_of_missing_file : ∃ files fault,
    TaskSet.load files "tasks.csv" = .ok [] ∧ ¬ fault.IsSinkFault ∧
      ∀ sink, run files ["tasks.csv", "missing.csv"] {} sink = .error fault sink := by
  let names := "Job Name,Period,Release Phase,Deadline,Initial Execution Time," ++
    "WCET Jitter,Release Jitter\n"
  let files : Files := fun path =>
    if path = "tasks.csv" then .ok (names.toList.map fun c => UInt8.ofNat c.toNat)
    else .error .notFound
  have unread : TaskSet.loadAll files ["tasks.csv", "missing.csv"] =
      .error ("missing.csv", .unreadable .notFound) := by decide +kernel
  have failed := run_of_unread unread {} { room := some 5 }
  have rejected : ¬ (RunFault.taskSet "missing.csv" (.unreadable .notFound)).IsSinkFault :=
    fun broken => broken
  obtain ⟨untouched, _⟩ := @rejection_writes_nothing files _ {} [] _ (Or.inl rfl) _ _ _ failed
  exact ⟨files, _, by decide +kernel, rejected, (untouched rejected).2⟩

end PeriodicJobs
