import PeriodicJobs.Proofs.Run.Planning
import PeriodicJobs.Proofs.WholePeriods

set_option autoImplicit false

/- Runs over tasks whose periods are whole numbers. They end well, and what they write is known to
the last job. -/
namespace PeriodicJobs

/-- The lines of the task at an index: one job for every period in a span, under the rule that the
policy has for the task. -/
def IsBlock (settings : Settings) (tasks : List Task) (period : Task → Nat) (span : Nat)
    (block : String) (entry : Task × Nat) : Prop :=
  ∃ rule, settings.policy.rule? tasks entry.2 = some rule ∧
    block = settings.layout.lines rule
      ((List.range (span / period entry.1)).map (entry.1.wholeJob (period entry.1)))

/-- The multiples of a period in a span, as numbers that are not rounded. The last one is a period
before the end. -/
structure FillsSpan (period span : Nat) : Prop where
  nonempty : 0 < span / period
  exact_release : ∀ k < span / period, (Binary64.ofNat (k * period)).IsWhole (k * period)
  release_lt : ∀ k < span / period, Binary64.ofNat (k * period) < .ofNat span
  last_release : (span / period - 1) * period = span - period

theorem fillsSpan_of_dvd {period span : Nat} (divides : period ∣ span) (positive : 0 < span)
    (small : span ≤ 2 ^ 53) : FillsSpan period span := by
  have whole : span / period * period = span := Nat.div_mul_cancel divides
  have inside {k : Nat} (below : k < span / period) : k * period < span := by
    have step := Nat.mul_le_mul_right period (Nat.succ_le_of_lt below)
    have period_pos := Nat.pos_of_dvd_of_pos divides positive
    rw [whole, Nat.succ_mul] at step
    omega
  have exact_ {k : Nat} (below : k < span / period) :
      (Binary64.ofNat (k * period)).IsWhole (k * period) :=
    Binary64.isWhole_ofNat (Nat.le_trans (inside below).le small)
  constructor
  · exact Nat.div_pos (Nat.le_of_dvd positive divides) (Nat.pos_of_dvd_of_pos divides positive)
  · intro k below
    exact exact_ below
  · intro k below
    rw [(exact_ below).lt_iff (Binary64.isWhole_ofNat small)]
    exact inside below
  · rw [Nat.sub_mul, whole, Nat.one_mul]

section

variable {settings : Settings} {tasks : List Task} {period : Task → Nat} {span : Nat}

theorem plan_whole (nonempty : tasks ≠ [])
    (whole : ∀ task ∈ tasks, task.HasWholePeriod (period task))
    (unit : settings.resolution = .one) (least : leastMultiple (tasks.map period) = span)
    (small : span ≤ 2 ^ 53) (limited : ∀ most, settings.limit = some most → .ofNat span ≤ most) :
    ∃ plan, Plan.ofTasks settings tasks = .ok plan ∧ plan.hyperperiod.IsWhole span := by
  subst least
  obtain ⟨h, repeats, value⟩ := hyperperiod_whole nonempty whole small limited
  have resolved : Resolution.ofBinary64 settings.resolution = .ok .unit := by
    rw [unit, Resolution.ofBinary64_one]
  have released : List.Forall₂ (fun task r => task.releases h.value = .ok r) tasks
      (tasks.map fun task => task.start (task.jobCount h.value)) := by
    rw [List.forall₂_map_right_iff, List.forall₂_same]
    intro task mem
    exact Task.releases_of_phase (whole task mem).phase_zero h.value
  exact ⟨_, Plan.ofTasks_eq_ok resolved repeats released, value⟩

/-- The jobs of every task are those at the multiples of its period. -/
theorem jobs_whole (whole : ∀ task ∈ tasks, task.HasWholePeriod (period task))
    (least : leastMultiple (tasks.map period) = span) (small : span ≤ 2 ^ 53) {end_ : Binary64}
    (value : end_.IsWhole span) {task : Task} (mem : task ∈ tasks) :
    task.jobCount end_ = UInt64.ofNat (span / period task) ∧
      task.jobs end_ = (List.range (span / period task)).map (task.wholeJob (period task)) := by
  have divides : period task ∣ span := least ▸ dvd_leastMultiple mem
  have positive : 0 < span := least ▸ leastMultiple_pos_of_whole whole
  have nonempty := (fillsSpan_of_dvd divides positive small).nonempty
  rw [← Nat.div_mul_cancel divides] at value small
  exact ⟨(whole task mem).jobCount_eq value nonempty small,
    (whole task mem).jobs_eq value nonempty small⟩

/-- The streams of a plan are the blocks of its tasks. -/
theorem isBlock_streams {plan : Plan} (planned : Plan.Planned settings tasks plan)
    (whole : ∀ task ∈ tasks, task.HasWholePeriod (period task))
    (least : leastMultiple (tasks.map period) = span) (small : span ≤ 2 ^ 53)
    (value : plan.hyperperiod.IsWhole span) :
    List.Forall₂ (IsBlock settings tasks period span)
      (plan.streams.map fun (releases, rule) => plan.layout.lines rule releases.jobs)
      tasks.zipIdx := by
  rw [List.forall₂_map_left_iff]
  refine planned.streams.imp ?_
  rintro ⟨releases, rule⟩ ⟨task, index⟩ isStream
  have jobs := (jobs_whole whole least small value isStream.mem).2
  refine ⟨rule, isStream.ruled, ?_⟩
  simp only [planned.layout, Task.jobs_eq_of_releases isStream.released, jobs]

theorem count_whole {plan : Plan} (planned : Plan.Planned settings tasks plan)
    (whole : ∀ task ∈ tasks, task.HasWholePeriod (period task))
    (least : leastMultiple (tasks.map period) = span) (small : span ≤ 2 ^ 53)
    (value : plan.hyperperiod.IsWhole span)
    (fits : (tasks.map fun task => span / period task).sum < 2 ^ 64) :
    plan.jobCount.toNat = (tasks.map fun task => span / period task).sum := by
  have counts : (tasks.map fun task => (task.jobCount plan.hyperperiod).toNat) =
      tasks.map fun task => span / period task := by
    apply List.map_congr_left
    intro task mem
    have below : span / period task ≤ span := Nat.div_le_self _ _
    rw [(jobs_whole whole least small value mem).1, UInt64.toNat_ofNat',
      Nat.mod_eq_of_lt (by omega)]
  rw [planned.toNat_jobCount (by rwa [counts]), counts]

end

/-- Tasks with whole periods have the job set that whole numbers give them, written to any sink that
takes it: for every task one job at each multiple of its period below the least common multiple. -/
theorem writeJobSet_whole {settings : Settings} {tasks : List Task} (period : Task → Nat)
    {span : Nat} (nonempty : tasks ≠ [])
    (whole : ∀ task ∈ tasks, task.HasWholePeriod (period task))
    (unit : settings.resolution = .one) (least : leastMultiple (tasks.map period) = span)
    (small : span ≤ 2 ^ 53) (limited : ∀ most, settings.limit = some most → .ofNat span ≤ most)
    (fits : (tasks.map fun task => span / period task).sum < 2 ^ 64) :
    ∃ blocks,
      List.Forall₂ (IsBlock settings tasks period span) blocks tasks.zipIdx ∧
      (∀ task ∈ tasks, FillsSpan (period task) span) ∧
      ∀ sink : Sink, sink.Takes (settings.layout.header ++ String.join blocks) →
        ∃ summary after, writeJobSet settings tasks sink = .ok summary after ∧
          after.held = sink.held ++ (settings.layout.header ++ String.join blocks) ∧
          summary.hyperperiod.IsWhole span ∧
          summary.jobs.toNat = (tasks.map fun task => span / period task).sum := by
  obtain ⟨plan, made, value⟩ := plan_whole nonempty whole unit least small limited
  have planned := Plan.planned_of_ok made
  refine ⟨_, isBlock_streams planned whole least small value, ?_, ?_⟩
  · intro task mem
    have divides : period task ∣ span := least ▸ dvd_leastMultiple mem
    exact fillsSpan_of_dvd divides (least ▸ leastMultiple_pos_of_whole whole) small
  · intro sink takes
    rw [← planned.layout] at takes ⊢
    obtain ⟨after, written, held⟩ := writeJobSet_of_takes made takes
    exact ⟨_, after, written, held, value, count_whole planned whole least small value fits⟩

/-- Periods of two and three give five jobs in six units of time. -/
theorem writeJobSet_two_three : ∃ summary after,
    writeJobSet {}
      [.periodic 1 (.ofNat 2) (.point .one), .periodic 2 (.ofNat 3) (.point .one)] {} =
        .ok summary after ∧
      summary.hyperperiod.IsWhole 6 ∧ summary.jobs.toNat = 5 := by
  have whole : ∀ task ∈ [Task.periodic 1 (.ofNat 2) (.point .one),
      Task.periodic 2 (.ofNat 3) (.point .one)],
      task.HasWholePeriod (if task.id = 1 then 2 else 3) := by
    simp only [List.forall_mem_cons, List.not_mem_nil, IsEmpty.forall_iff, implies_true, and_true]
    exact ⟨⟨rfl, Binary64.isWhole_ofNat (by decide), by decide, by decide⟩,
      ⟨rfl, Binary64.isWhole_ofNat (by decide), by decide, by decide⟩⟩
  obtain ⟨blocks, _, _, written⟩ := @writeJobSet_whole {} _
    (fun task => if task.id = 1 then 2 else 3) 6 (by simp) whole rfl rfl (by decide)
    (fun _ none => by cases none) (by decide)
  obtain ⟨summary, after, done, _, value, count⟩ := written {} ⟨by simp, rfl⟩
  exact ⟨summary, after, done, value, count⟩

end PeriodicJobs
