import PeriodicJobs.CommandLine
import PeriodicJobs.Proofs.Run.Rejection

set_option autoImplicit false

/- The command line as a run under merged settings. A run is refused before it writes, or it writes
the whole text of its plan. So the program prints that text or nothing, and its exit code tells
which. -/
namespace PeriodicJobs

/-- Nothing that a plan is refused for is a fault of the sink. -/
theorem Plan.not_isSinkFault {settings : Settings} {tasks : List Task} {fault : RunFault}
    (refused : Plan.ofTasks settings tasks = .error fault) : ¬ fault.IsSinkFault := by
  unfold Plan.ofTasks at refused
  rcases Outcome.bind_eq_error.1 refused with unusable | ⟨resolution, _, refused⟩
  · obtain ⟨cause, _, rfl⟩ := Outcome.mapError_eq_error.1 unusable
    exact id
  rcases Outcome.bind_eq_error.1 refused with endless | ⟨hyperperiod, _, refused⟩
  · obtain ⟨cause, _, rfl⟩ := Outcome.mapError_eq_error.1 endless
    exact id
  rcases Outcome.bind_eq_error.1 refused with shifted | ⟨releases, _, refused⟩
  · obtain ⟨_, task, _, _, _, late⟩ := Outcome.mapM_eq_error.1 shifted
    obtain ⟨cause, _, rfl⟩ := Outcome.mapError_eq_error.1 late
    exact id
  · cases refused

/-- A computation that fails only by its sink, and leaves a text on every sink on which it does
not. -/
structure Running.Writes {α : Type} (running : Running α) (a : α) (text : String) : Prop where
  of_takes : ∀ sink : Sink, sink.Takes text →
    ∃ after, running sink = .ok a after ∧ after.held = sink.held ++ text
  of_ok : ∀ sink b after, running sink = .ok b after → after.held = sink.held ++ text
  of_error : ∀ sink fault after, running sink = .error fault after → fault.IsSinkFault

/-- A computation that ends with a fault which is not the sink's, whatever the sink, and leaves it
as it was. -/
def Running.Refuses {α : Type} (running : Running α) (fault : RunFault) : Prop :=
  ¬ fault.IsSinkFault ∧ ∀ sink, running sink = .error fault sink

theorem writes_of_planned {settings : Settings} {tasks : List Task} {plan : Plan}
    (planned : Plan.ofTasks settings tasks = .ok plan) :
    (writeJobSet settings tasks).Writes (plan.summary tasks) plan.text where
  of_takes _ takes := writeJobSet_of_takes planned takes
  of_ok sink summary after written := by
    obtain ⟨plan', planned', rfl, held⟩ := writeJobSet_ok written
    cases planned.symm.trans planned'
    exact held
  of_error _ _ _ failed := isSinkFault_of_planned planned failed

/-- A run is refused or writes. -/
theorem run_cases (files : Files) (paths : List String) (settings : Settings) :
    (∃ fault, (run files paths settings).Refuses fault) ∨
      ∃ summary text, (run files paths settings).Writes summary text := by
  cases read : TaskSet.loadAll files paths with
  | error fault =>
    obtain ⟨path, fault⟩ := fault
    exact Or.inl ⟨_, id, run_of_unread read settings⟩
  | ok tasks =>
    rw [run_of_read read]
    cases made : Plan.ofTasks settings tasks with
    | error fault => exact Or.inl ⟨fault, Plan.not_isSinkFault made, writeJobSet_of_refused made⟩
    | ok plan => exact Or.inr ⟨_, _, writes_of_planned made⟩

/-- What the command line leaves of some settings: it chooses ranks if the flag is given, and the
layout if one is given, and nothing else. -/
structure Options.Overlays (options : Options) (settings merged : Settings) : Prop where
  policy_given : options.rateMonotonic = true → merged.policy = .rateMonotonic
  policy_kept : options.rateMonotonic = false → merged.policy = settings.policy
  layout_given : ∀ layout, options.layout = some layout → merged.layout = layout
  layout_kept : options.layout = none → merged.layout = settings.layout
  resolution_kept : merged.resolution = settings.resolution
  limit_kept : merged.limit = settings.limit

theorem Options.overlays_iff {options : Options} {settings merged : Settings} :
    options.Overlays settings merged ↔ merged = options.overlay settings := by
  constructor
  · intro overlays
    have policy : merged.policy = (options.overlay settings).policy := by
      cases flag : options.rateMonotonic with
      | true => simp [overlay, flag, overlays.policy_given flag]
      | false => simp [overlay, flag, overlays.policy_kept flag]
    have layout : merged.layout = (options.overlay settings).layout := by
      cases given : options.layout with
      | some layout => simp [overlay, given, overlays.layout_given layout given]
      | none => simp [overlay, given, overlays.layout_kept given]
    cases merged
    cases policy
    cases layout
    cases overlays.resolution_kept
    cases overlays.limit_kept
    rfl
  · rintro rfl
    constructor <;> simp +contextual [overlay]

/-- How the program ends as a run does: what the run leaves on a sink is printed, and what it is
refused for is reported. -/
structure EndsAsRun (files : Files) (paths : List String) (settings : Settings)
    (outcome : Outcome) : Prop where
  of_ok : ∀ sink summary after, run files paths settings sink = .ok summary after →
    ∃ output, after.held = sink.held ++ output ∧ outcome = ⟨0, output, none⟩
  of_error : ∀ sink fault after, run files paths settings sink = .error fault after →
    ¬ fault.IsSinkFault → outcome = ⟨1, "", some fault.message⟩
  total : (∃ summary after, run files paths settings {} = .ok summary after) ∨
    ∃ fault, (run files paths settings).Refuses fault

theorem endsAsRun_execute {files : Files} {options : Options} {settings : Settings}
    (base : options.base files = .ok settings) :
    EndsAsRun files options.inputs (options.overlay settings) (options.execute files) := by
  rcases run_cases files options.inputs (options.overlay settings) with
    ⟨fault, rejected, refuses⟩ | ⟨summary, text, writes⟩
  · have outcome : options.execute files = ⟨1, "", some fault.message⟩ := by
      simp only [Options.execute, base, refuses]
    refine ⟨?_, ?_, Or.inr ⟨fault, rejected, refuses⟩⟩
    · intro sink summary after done
      rw [refuses] at done
      cases done
    · intro sink fault' after failed _
      rw [refuses] at failed
      cases failed
      exact outcome
  · obtain ⟨after, done, held⟩ := writes.of_takes {} ⟨(by rintro _ ⟨⟩), rfl⟩
    have outcome : options.execute files = ⟨0, text, none⟩ := by
      simp only [Options.execute, base, done, held, String.empty_append]
    refine ⟨?_, ?_, Or.inl ⟨summary, after, done⟩⟩
    · intro sink summary' after' done'
      exact ⟨text, writes.of_ok sink _ _ done', outcome⟩
    · intro sink fault after' failed rejected
      exact absurd (writes.of_error sink _ _ failed) rejected

theorem execute_of_unreadable {files : Files} {options : Options} {fault : SettingsFileFault}
    (base : options.base files = .error fault) :
    options.execute files = ⟨1, "", some fault.message⟩ := by
  simp only [Options.execute, base, Outcome.failed]

/-- A program that ends without success has printed nothing. -/
theorem Options.output_of_failed {files : Files} {options : Options}
    (failed : (options.execute files).exitCode ≠ 0) : (options.execute files).output = "" := by
  cases base : options.base files with
  | error fault => rw [execute_of_unreadable base]
  | ok settings =>
    have ends := endsAsRun_execute base
    rcases ends.total with ⟨summary, after, done⟩ | ⟨fault, rejected, refuses⟩
    · obtain ⟨output, _, outcome⟩ := ends.of_ok {} summary after done
      rw [outcome] at failed
      exact absurd rfl failed
    · rw [ends.of_error {} fault {} (refuses {}) rejected]

theorem output_of_failed {files : Files} {arguments : List String}
    (failed : (execute files arguments).exitCode ≠ 0) : (execute files arguments).output = "" := by
  unfold execute at failed ⊢
  split at failed
  · exact Options.output_of_failed failed
  · rfl

/-- A filter for reports has no part in what the program prints once the program starts. -/
theorem Outcome.logged_of_filter {setting : Option String} {filter : Log.Filter}
    (read : Log.Filter.ofSetting? setting = some filter) (program : String) (outcome : Outcome) :
    (outcome.logged program setting).exitCode = outcome.exitCode ∧
      (outcome.logged program setting).output = outcome.output := by
  rw [logged, read]
  exact ⟨rfl, rfl⟩

theorem Outcome.logged_of_none {setting : Option String}
    (unread : Log.Filter.ofSetting? setting = none) (program : String) (outcome : Outcome) :
    outcome.logged program setting = .broken := by
  rw [logged, unread]

/-- The program runs under the settings of its file, or the defaults, overlaid by what the command
line gives. It ends with success if that run does, having printed what the run writes, and with a
failure otherwise. However it fails, and whatever is logged, it has printed nothing then. -/
theorem command_line_is_run (files : Files) (arguments : List String) :
    (∀ options, Options.read? {} arguments = some options →
      (∀ fault, options.base files = .error fault →
        execute files arguments = ⟨1, "", some fault.message⟩) ∧
      ∀ settings merged, options.base files = .ok settings → options.Overlays settings merged →
        EndsAsRun files options.inputs merged (execute files arguments)) ∧
    ((execute files arguments).exitCode ≠ 0 → (execute files arguments).output = "") ∧
    ∀ program setting,
      (∀ filter, Log.Filter.ofSetting? setting = some filter →
        ((execute files arguments).logged program setting).exitCode =
          (execute files arguments).exitCode ∧
        ((execute files arguments).logged program setting).output =
          (execute files arguments).output) ∧
      (((execute files arguments).logged program setting).exitCode ≠ 0 →
        ((execute files arguments).logged program setting).output = "") := by
  refine ⟨?_, output_of_failed, ?_⟩
  · intro options read
    have same : execute files arguments = options.execute files := by rw [execute, read]
    rw [same]
    refine ⟨fun fault base => execute_of_unreadable base, ?_⟩
    intro settings merged base overlays
    rw [Options.overlays_iff.1 overlays]
    exact endsAsRun_execute base
  · intro program setting
    cases read : Log.Filter.ofSetting? setting with
    | none =>
      rw [Outcome.logged_of_none read]
      exact ⟨nofun, fun _ => rfl⟩
    | some filter =>
      obtain ⟨sameCode, sameOutput⟩ :=
        Outcome.logged_of_filter read program (execute files arguments)
      rw [sameCode, sameOutput]
      exact ⟨fun _ _ => ⟨rfl, rfl⟩, output_of_failed⟩

/-- A file that asks for ranks is followed without the flag, and a file of settings that is missing
ends the program with nothing printed. -/
theorem command_line_is_run_ranked : ∃ files : Files,
    EndsAsRun files ["tasks.csv"] { policy := .rateMonotonic }
        (execute files ["-c", "run.yaml", "tasks.csv"]) ∧
      (execute files ["-c", "run.yaml", "tasks.csv"]).exitCode = 0 ∧
      ((execute files ["-c", "run.yaml", "tasks.csv"]).logged "mkjobset" none).exitCode = 0 ∧
      execute files ["-c", "missing.yaml"] = ⟨1, "", some ("Cannot open configuration file: " ++
        "missing.yaml: No such file or directory (os error 2)")⟩ ∧
      (execute files ["missing.csv"]).output = "" := by
  let table := "Job Name,Period,Release Phase,Deadline,Initial Execution Time," ++
    "WCET Jitter,Release Jitter\nT(1 1),10,0,10,2,uniform params: [1 to 2],none\n"
  let ascii (text : String) : List UInt8 := text.toList.map fun c => UInt8.ofNat c.toNat
  let files : Files := fun path =>
    if path = "tasks.csv" then .ok (ascii table)
    else if path = "run.yaml" then .ok (ascii "priority_policy: rate_monotonic\n")
    else .error .notFound
  have ranked := (command_line_is_run files ["-c", "run.yaml", "tasks.csv"]).1
    { inputs := ["tasks.csv"], settings := some "run.yaml" } (by decide +kernel)
  have base : Options.base files { inputs := ["tasks.csv"], settings := some "run.yaml" } =
      .ok { policy := .rateMonotonic } := by decide +kernel
  have missing := (command_line_is_run files ["-c", "missing.yaml"]).1
    { settings := some "missing.yaml" } (by decide +kernel)
  have unread : Options.base files { settings := some "missing.yaml" } =
      .error (.unreadable "missing.yaml" .notFound) := by decide +kernel
  have success : (execute files ["-c", "run.yaml", "tasks.csv"]).exitCode = 0 := by decide +kernel
  have logged := ((command_line_is_run files ["-c", "run.yaml", "tasks.csv"]).2.2
    "mkjobset" none).1 _ rfl
  exact ⟨files, ranked.2 _ _ base (Options.overlays_iff.2 rfl), success, logged.1.trans success,
    missing.1 _ unread, (command_line_is_run files ["missing.csv"]).2.1 (by decide +kernel)⟩

end PeriodicJobs
