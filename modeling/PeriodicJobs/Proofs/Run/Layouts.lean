import PeriodicJobs.Proofs.Run.Ending
import PeriodicJobs.Proofs.Run.Lines
import PeriodicJobs.Proofs.Run.Rejection

set_option autoImplicit false

/- One job set in two layouts. The plan of a run does not depend on its layout, and each expression
is built from the texts that the cells of its line in the table have. -/
namespace PeriodicJobs

/-- A line of the table, and the expression that the texts of its eight cells make. -/
def JobSet.Rebuilds (line rebuilt : List Char) : Prop :=
  ∃ taskId jobId arrivalMin arrivalMax costMin costMax deadline priority,
    (line.splitOn ',').map Text.trim =
        [taskId, jobId, arrivalMin, arrivalMax, costMin, costMax, deadline, priority] ∧
      rebuilt = expression taskId jobId arrivalMin arrivalMax costMin costMax deadline priority

theorem JobSet.rebuilds_body (job : Job) (priority : Priority) :
    Rebuilds (Layout.csv.body job priority) (Layout.initializer.body job priority) :=
  ⟨_, _, _, _, _, _, _, _, cells_of_tableBody rfl (isPlain_cells job priority), rfl⟩

namespace Plan

/-- The layout is the only thing in a plan that the layout of the settings decides. -/
theorem ofTasks_layout (settings : Settings) (tasks : List Task) (layout : Layout) :
    ofTasks { settings with layout } tasks =
      (ofTasks settings tasks).map fun plan => { plan with layout } := by
  unfold ofTasks
  cases (Resolution.ofBinary64 settings.resolution).mapError RunFault.hyperperiod with
  | error fault => rfl
  | ok resolution =>
    simp only [bind, Except.bind]
    cases (Hyperperiod.ofTasks resolution settings.limit tasks).mapError RunFault.hyperperiod with
    | error fault => rfl
    | ok hyperperiod =>
      simp only
      cases tasks.mapM fun task =>
        (task.releases hyperperiod.value).mapError RunFault.phase <;> rfl

theorem rebuilds_lines (plan : Plan) :
    List.Forall₂ JobSet.Rebuilds { plan with layout := .csv }.lines
      { plan with layout := .initializer }.lines := by
  have same : List.Forall₂ Eq plan.streams plan.streams := List.forall₂_refl _
  refine List.rel_flatMap same ?_
  rintro ⟨releases, rule⟩ _ rfl
  simp only [Layout.bodies, List.forall₂_map_left_iff, List.forall₂_map_right_iff,
    List.forall₂_same]
  intro job _
  exact JobSet.rebuilds_body job _

end Plan

/-- A sink that is not full and is flushed as another one ends a run of any length alike. -/
theorem Sink.ending_of_unbounded {α : Type} {sink sink' : Sink} (unbounded : sink.room = none)
    (unbounded' : sink'.room = none) (same : sink.flushes = sink'.flushes) (length length' : Nat)
    (a : α) : sink.ending length a = sink'.ending length' a := by
  simp only [ending, hasRoom_of_unbounded unbounded, hasRoom_of_unbounded unbounded', same]

/-- What ends a run on a sink is either its result or a fault of the sink. -/
theorem Sink.isSinkFault_of_ending {α : Type} {sink : Sink} {length : Nat} {a : α}
    {fault : RunFault} (failed : sink.ending length a = .error fault) : fault.IsSinkFault := by
  unfold ending at failed
  split at failed
  · split at failed
    · cases failed
    · cases failed
      trivial
  · cases failed
    trivial

section

variable {settings : Settings} {tasks : List Task} {layout : Layout} {sink : Sink}

theorem outcome_writeJobSet_layout :
    (writeJobSet { settings with layout } tasks).outcome sink =
      (Plan.ofTasks settings tasks).bind fun plan =>
        sink.ending { plan with layout }.text.length (plan.summary tasks) := by
  rw [outcome_writeJobSet, Plan.ofTasks_layout]
  cases Plan.ofTasks settings tasks <;> rfl

/-- A run that ends well has written the plan of its settings in its layout. -/
theorem writeJobSet_layout_ok {summary : Summary} {after : Sink}
    (written : writeJobSet { settings with layout } tasks sink = .ok summary after) :
    ∃ plan, Plan.ofTasks settings tasks = .ok plan ∧ summary = plan.summary tasks ∧
      after.held = sink.held ++ { plan with layout }.text := by
  obtain ⟨_, made, rfl, held⟩ := writeJobSet_ok written
  rw [Plan.ofTasks_layout] at made
  obtain ⟨plan, planned, rfl⟩ := Outcome.map_eq_ok.1 made
  exact ⟨plan, planned, rfl, held⟩

end

/-- A job set in one layout is the job set in the other. A run is refused under both layouts or
under none, with the same fault on any sinks, and on sinks without bounds it ends alike throughout.
Runs that end well report the same, and the lines of the table and the expressions stand for each
other one by one. -/
theorem layouts_carry_same_jobs (settings : Settings) (tasks : List Task) (sink sink' : Sink) :
    (∀ fault : RunFault, ¬ fault.IsSinkFault →
      ((writeJobSet { settings with layout := .csv } tasks).outcome sink = .error fault ↔
        (writeJobSet { settings with layout := .initializer } tasks).outcome sink' =
          .error fault)) ∧
    (sink.room = none → sink'.room = none → sink.flushes = sink'.flushes →
      (writeJobSet { settings with layout := .csv } tasks).outcome sink =
        (writeJobSet { settings with layout := .initializer } tasks).outcome sink') ∧
    ∀ summary summary' after after',
      writeJobSet { settings with layout := .csv } tasks sink = .ok summary after →
      writeJobSet { settings with layout := .initializer } tasks sink' = .ok summary' after' →
        summary = summary' ∧ ∃ output output' lines lines',
          after.held = sink.held ++ output ∧ after'.held = sink'.held ++ output' ∧
          output.toList.splitOn '\n' = JobSet.headerLine :: lines ++ [[]] ∧
          output'.toList.splitOn '\n' = lines' ++ [[]] ∧
          ((tasks.map fun task => (task.jobCount summary.hyperperiod).toNat).sum < 2 ^ 64 →
            lines.length = summary.jobs.toNat ∧ lines'.length = summary.jobs.toNat) ∧
          List.Forall₂ JobSet.Rebuilds lines lines' := by
  refine ⟨?_, ?_, ?_⟩
  · intro fault rejected
    rw [outcome_writeJobSet_layout, outcome_writeJobSet_layout]
    cases Plan.ofTasks settings tasks with
    | error fault' => simp only [Except.bind]
    | ok plan =>
      have never {sink : Sink} {length : Nat} {summary : Summary} :
          sink.ending length summary ≠ .error fault := fun failed =>
        rejected (Sink.isSinkFault_of_ending failed)
      exact ⟨fun failed => absurd failed never, fun failed => absurd failed never⟩
  · intro unbounded unbounded' same
    rw [outcome_writeJobSet_layout, outcome_writeJobSet_layout]
    cases Plan.ofTasks settings tasks with
    | error fault => simp only [Except.bind]
    | ok plan => exact Sink.ending_of_unbounded unbounded unbounded' same _ _ _
  · intro summary summary' after after' written written'
    obtain ⟨plan, made, rfl, held⟩ := writeJobSet_layout_ok written
    obtain ⟨plan', made', rfl, held'⟩ := writeJobSet_layout_ok written'
    obtain rfl := Except.ok.inj (made.symm.trans made')
    have planned := Plan.planned_of_ok made
    have rebuilt := plan.rebuilds_lines
    refine ⟨rfl, _, _, _, _, held, held', Plan.splitOn_text_lines _, Plan.splitOn_text_lines _,
      ?_, rebuilt⟩
    intro fits
    have count : { plan with layout := .csv }.lines.length = plan.jobCount.toNat := by
      rw [Plan.length_lines, planned.sum_remaining]
      exact (planned.toNat_jobCount fits).symm
    exact ⟨count, rebuilt.length_eq ▸ count⟩

/-- A single job in both layouts, and a resolution that both refuse. -/
theorem layouts_carry_same_jobs_pair : ∃ summary after after' line line',
    writeJobSet { layout := .csv } [pairTask] {} = .ok summary after ∧
      writeJobSet { layout := .initializer } [pairTask] {} = .ok summary after' ∧
      after.held.toList.splitOn '\n' = [JobSet.headerLine, line, []] ∧
      after'.held.toList.splitOn '\n' = [line', []] ∧ JobSet.Rebuilds line line' ∧
      (writeJobSet { layout := .initializer, resolution := .zero } []).outcome {} =
        .error (.hyperperiod (.invalidResolution .zero)) := by
  have repeats : Hyperperiod.ofTasks .unit none [pairTask] = .ok ⟨.ofNat 2, 2, [.ofNat 2], 1⟩ := by
    decide +kernel
  have resolved : Resolution.ofBinary64 .one = .ok .unit := dif_pos Resolution.unit.usable
  have count : pairTask.jobCount (.ofNat 2) = 1 := by decide +kernel
  have made : Plan.ofTasks { layout := .csv } [pairTask] = .ok _ :=
    Plan.ofTasks_eq_ok resolved repeats (.cons (Task.releases_of_phase rfl _) .nil)
  obtain ⟨after, written, _⟩ := writeJobSet_of_takes made (⟨by simp, rfl⟩ : Sink.Takes {} _)
  have made' : Plan.ofTasks { layout := .initializer } [pairTask] = .ok _ :=
    Plan.ofTasks_eq_ok resolved repeats (.cons (Task.releases_of_phase rfl _) .nil)
  obtain ⟨after', written', _⟩ := writeJobSet_of_takes made' (⟨by simp, rfl⟩ : Sink.Takes {} _)
  obtain ⟨_, _, carried⟩ := layouts_carry_same_jobs {} [pairTask] {} {}
  obtain ⟨same, output, output', lines, lines', held, held', split, split', length, rebuilt⟩ :=
    carried _ _ _ _ written written'
  obtain ⟨single, _⟩ := length (by decide +kernel)
  obtain ⟨line, rfl⟩ : ∃ line, lines = [line] :=
    List.length_eq_one_iff.1 (single.trans (by decide +kernel))
  obtain ⟨line', none, rebuilds, ends, rfl⟩ := List.forall₂_cons_left_iff.1 rebuilt
  cases List.forall₂_nil_left_iff.1 ends
  have refused := (layouts_carry_same_jobs { resolution := .zero } [] {} {}).1
    (.hyperperiod (.invalidResolution .zero)) id
  exact ⟨_, after, after', line, line', written, written',
    held.trans String.empty_append ▸ split, held'.trans String.empty_append ▸ split', rebuilds,
    refused.1 (by decide +kernel)⟩

end PeriodicJobs
