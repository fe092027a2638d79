import PeriodicJobs.Proofs.Repetition
import PeriodicJobs.Proofs.Run.Planning

set_option autoImplicit false

/- The first job of every task. A run that ends well writes the lines of each task in turn, and
those of a task with a hyperperiod begin with the job that is released at the origin of time. -/
namespace PeriodicJobs

def Task.firstJob (task : Task) : Job :=
  { id := 1
    taskId := task.id
    arrival := task.jitter.shift .zero
    deadline := .zero + task.deadline
    cost := task.cost }

/-- The number zero as a release is exact, whatever the period. -/
theorem Task.job_zero {task : Task} (period : task.period.IsMagnitude) :
    task.job 0 = task.firstJob := by
  obtain ⟨p, h, same, below⟩ := period.exists_place
  have origin : Binary64.ofUInt64 0 = .number false 0 (Nat.zero_le _) := by decide +kernel
  have release : Binary64.ofUInt64 0 * task.period = .zero := by
    rw [origin, same, Binary64.mul_number (by decide) below, Binary64.unitsAt_zero, Nat.zero_mul,
      Binary64.ofUnits, Binary64.nearestPlace_zero]
    rfl
  rw [job, firstJob, release]
  rfl

/-- Jobs in a span start with the first one, if there are any. -/
theorem Task.jobs_eq_cons {task : Task} {span : Binary64} {releases : Releases}
    (released : task.releases span = .ok releases) (period : task.period.IsMagnitude)
    (some : 0 < (task.jobCount span).toNat) :
    ∃ others, task.jobs span = task.firstJob :: others := by
  obtain ⟨others, count⟩ := Nat.exists_eq_succ_of_ne_zero some.ne'
  rw [jobs_eq released, count, List.range_succ_eq_map, List.map_cons, ← job_zero period]
  exact ⟨_, rfl⟩

/-- The lines of the task at an index: the first job of the task under the rule that the policy has
for it, and what follows. -/
def OpensWithFirstJob (settings : Settings) (tasks : List Task) (block : String)
    (entry : Task × Nat) : Prop :=
  ∃ rule others, settings.policy.rule? tasks entry.2 = some rule ∧
    block = settings.layout.line entry.1.firstJob (rule.priority entry.1.firstJob) ++ others

/-- The stream of a task with a job opens with its first one. -/
theorem opensWithFirstJob_streams {settings : Settings} {tasks : List Task} {plan : Plan}
    (planned : Plan.Planned settings tasks plan)
    (period : ∀ task ∈ tasks, task.period.IsMagnitude)
    (some : ∀ task ∈ tasks, 0 < (task.jobCount plan.hyperperiod).toNat) :
    List.Forall₂ (OpensWithFirstJob settings tasks)
      (plan.streams.map fun (releases, rule) => plan.layout.lines rule releases.jobs)
      tasks.zipIdx := by
  rw [List.forall₂_map_left_iff]
  refine planned.streams.imp ?_
  rintro ⟨releases, rule⟩ ⟨task, index⟩ isStream
  obtain ⟨others, jobs⟩ :=
    Task.jobs_eq_cons isStream.released (period task isStream.mem) (some task isStream.mem)
  refine ⟨rule, settings.layout.lines rule others, isStream.ruled, ?_⟩
  simp only [planned.layout, Task.jobs_eq_of_releases isStream.released, jobs, Layout.lines,
    List.map_cons, String.join_cons]

/-- The tick of a resolution is accepted again. -/
theorem Resolution.ofBinary64_tick (resolution : Resolution) :
    ofBinary64 resolution.tick = .ok resolution := dif_pos resolution.usable

/-- A plan is made over the hyperperiod of its settings. -/
theorem Plan.hyperperiod_of_ok {settings : Settings} {tasks : List Task} {plan : Plan}
    (made : Plan.ofTasks settings tasks = .ok plan) {resolution : Resolution}
    (resolved : settings.resolution = resolution.tick) {h : Hyperperiod}
    (done : Hyperperiod.ofTasks resolution settings.limit tasks = .ok h) :
    plan.hyperperiod = h.value := by
  obtain ⟨resolution', h', resolved', done', same⟩ := (Plan.planned_of_ok made).resolved
  rw [resolved, resolution.ofBinary64_tick] at resolved'
  cases resolved'
  rw [done] at done'
  cases done'
  exact same

/-- What a run that ends well writes for moving tasks. -/
theorem writeJobSet_opens {settings : Settings} {tasks : List Task} {resolution : Resolution}
    (resolved : settings.resolution = resolution.tick) {h : Hyperperiod}
    (done : Hyperperiod.ofTasks resolution settings.limit tasks = .ok h) {counts : List UInt64}
    (counted : Hyperperiod.Counted resolution settings.limit tasks counts h)
    {sink after : Sink} {summary : Summary}
    (written : writeJobSet settings tasks sink = .ok summary after) :
    ∃ blocks, after.held = sink.held ++ (settings.layout.header ++ String.join blocks) ∧
      List.Forall₂ (OpensWithFirstJob settings tasks) blocks tasks.zipIdx := by
  obtain ⟨plan, made, _, held⟩ := writeJobSet_ok written
  have planned := Plan.planned_of_ok made
  have span := Plan.hyperperiod_of_ok made resolved done
  have period : ∀ task ∈ tasks, task.period.IsMagnitude := by
    intro task mem
    obtain ⟨count, _, ticks⟩ := counted.exists_count mem
    exact (Resolution.ticks_spec ticks).1
  have some : ∀ task ∈ tasks, 0 < (task.jobCount plan.hyperperiod).toNat := by
    intro task mem
    rw [span]
    exact counted.jobCount_pos mem
  rw [Plan.text] at held
  rw [← planned.layout]
  exact ⟨_, held, opensWithFirstJob_streams planned period some⟩

/-- A hyperperiod with ticks has a job of every task in it, and a run that ends well writes the one
at the origin for each of them. Ticks and span are zero just if there are no tasks or one of them
has no period, and then no task has a job. -/
theorem every_task_runs {resolution : Resolution} {limit : Option Binary64} {tasks : List Task}
    {h : Hyperperiod} (done : Hyperperiod.ofTasks resolution limit tasks = .ok h) :
    (h.ticks ≠ 0 → ∀ task ∈ tasks, 1 ≤ task.jobCount h.value) ∧
      (∀ settings : Settings, settings.resolution = resolution.tick → settings.limit = limit →
        h.ticks ≠ 0 → ∀ sink summary after,
          writeJobSet settings tasks sink = .ok summary after →
            ∃ blocks, after.held = sink.held ++ (settings.layout.header ++ String.join blocks) ∧
              List.Forall₂ (OpensWithFirstJob settings tasks) blocks tasks.zipIdx) ∧
      (h.ticks = 0 ↔ h.value.isZero = true) ∧
      (h.ticks = 0 ↔ tasks = [] ∨ ∃ task ∈ tasks, task.period.isZero = true) ∧
      (h.ticks = 0 → ∀ task ∈ tasks, task.jobCount h.value = 0) := by
  obtain ⟨span, rest⟩ := Hyperperiod.resting_iff done
  have counted (some : h.ticks ≠ 0) :
      ∃ counts, Hyperperiod.Counted resolution limit tasks counts h :=
    Hyperperiod.counted_of_lasting done (beq_eq_false_iff_ne.2 some)
  refine ⟨?_, ?_, span, rest, ?_⟩
  · intro some task mem
    obtain ⟨counts, made⟩ := counted some
    exact UInt64.le_iff_toNat_le.2 (made.jobCount_pos mem)
  · rintro settings resolved rfl some sink summary after written
    obtain ⟨counts, made⟩ := counted some
    exact writeJobSet_opens resolved done made written
  · intro none task _
    exact Task.jobCount_of_zero (span.1 none) task

/-- The shortest tick there is, 2^-1074. -/
def Resolution.least : Resolution := ⟨.ofPlace false 1, by decide +kernel⟩

/-- Tasks with periods of two and three of the shortest ticks. -/
def shortTasks : List Task :=
  [.periodic 1 (.ofPlace false 2) (.point .zero), .periodic 2 (.ofPlace false 3) (.point .zero)]

/-- No task is lost among numbers that have no bits to spare. -/
theorem every_task_runs_shortest : ∃ h summary after blocks,
    Hyperperiod.ofTasks .least none shortTasks = .ok h ∧ h.ticks ≠ 0 ∧
      (∀ task ∈ shortTasks, 1 ≤ task.jobCount h.value) ∧
      writeJobSet { resolution := Resolution.least.tick } shortTasks {} = .ok summary after ∧
      after.held = Layout.csv.header ++ String.join blocks ∧
      List.Forall₂ (OpensWithFirstJob { resolution := Resolution.least.tick } shortTasks) blocks
        shortTasks.zipIdx ∧
      ¬ (shortTasks = [] ∨ ∃ task ∈ shortTasks, task.period.isZero = true) := by
  have moving : Hyperperiod.Moving shortTasks := ⟨by simp [shortTasks], by decide +kernel⟩
  have counted : List.Forall₂ (fun task count => Resolution.least.ticks task = .ok count)
      shortTasks [2, 3] :=
    .cons (by decide +kernel) (.cons (by decide +kernel) .nil)
  have multiple : Ticks.lcmAll [2, 3] = .ok 6 := by decide +kernel
  have done := Hyperperiod.ofTasks_of_increasing moving counted (by decide) multiple
  let settings : Settings := { resolution := Resolution.least.tick }
  have made : Plan.ofTasks settings shortTasks = .ok _ :=
    Plan.ofTasks_eq_ok Resolution.least.ofBinary64_tick done
      (.cons (Task.releases_of_phase rfl _) (.cons (Task.releases_of_phase rfl _) .nil))
  obtain ⟨after, written, _⟩ := writeJobSet_of_takes made (⟨by simp, rfl⟩ : Sink.Takes {} _)
  have some : (6 : UInt64) ≠ 0 := by decide
  obtain ⟨runs, opens, _, rest, _⟩ := every_task_runs done
  obtain ⟨blocks, held, opened⟩ := opens settings rfl rfl some {} _ after written
  exact ⟨_, _, after, blocks, done, some, runs some, written, held.trans String.empty_append,
    opened, mt rest.2 some⟩

end PeriodicJobs
