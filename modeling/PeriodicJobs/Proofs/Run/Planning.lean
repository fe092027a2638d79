import Mathlib.Algebra.GroupWithZero.Nat
import PeriodicJobs.Proofs.Outcome
import PeriodicJobs.Proofs.Run.Writing

set_option autoImplicit false

/- The plan of a job set: one stream for every task, in the order of the tasks, with the rule that
the policy has for the position of the task. -/
namespace PeriodicJobs

namespace Policy

theorem length_rules (policy : Policy) (tasks : List Task) :
    (policy.rules tasks).length = tasks.length := by
  cases policy <;> simp [rules, rateMonotonicRanks]

/-- Every task finds its rule at its position. -/
theorem getElem?_rules (policy : Policy) {tasks : List Task} {index : Nat}
    (inside : index < tasks.length) :
    (policy.rules tasks)[index]? = policy.rule? tasks index := by
  cases policy with
  | earliestDeadline => simp [rules, rule?, inside]
  | rateMonotonic => simp [rules, rule?]

end Policy

namespace Plan

/-- The stream of a task at an index: its jobs in a span and the rule of its position. -/
structure IsStream (policy : Policy) (tasks : List Task) (span : Binary64)
    (stream : Releases × PriorityRule) (entry : Task × Nat) : Prop where
  mem : entry.1 ∈ tasks
  released : entry.1.releases span = .ok stream.1
  ruled : policy.rule? tasks entry.2 = some stream.2

/-- What a plan is made of. -/
structure Planned (settings : Settings) (tasks : List Task) (plan : Plan) : Prop where
  layout : plan.layout = settings.layout
  resolved : ∃ resolution hyperperiod,
    Resolution.ofBinary64 settings.resolution = .ok resolution ∧
      Hyperperiod.ofTasks resolution settings.limit tasks = .ok hyperperiod ∧
      plan.hyperperiod = hyperperiod.value
  streams : List.Forall₂ (IsStream settings.policy tasks plan.hyperperiod) plan.streams
    tasks.zipIdx

theorem isStream_zip {policy : Policy} {tasks : List Task} {span : Binary64}
    {releases : List Releases}
    (released : List.Forall₂ (fun task r => task.releases span = .ok r) tasks releases) :
    List.Forall₂ (IsStream policy tasks span) (releases.zip (policy.rules tasks))
      tasks.zipIdx := by
  have same := released.length_eq
  have rules := policy.length_rules tasks
  apply List.forall₂_of_length_eq_of_get
  · simp only [List.length_zip, List.length_zipIdx]
    omega
  · intro index inside inside'
    simp only [List.length_zipIdx] at inside'
    have rule := policy.getElem?_rules inside'
    rw [List.getElem?_eq_getElem (by omega)] at rule
    simp only [List.get_eq_getElem, List.getElem_zip, List.getElem_zipIdx, Nat.zero_add]
    exact ⟨List.getElem_mem _, released.get inside' (by omega), rule.symm⟩

/-- A plan that succeeds has all of its parts. -/
theorem parts_of_ok {settings : Settings} {tasks : List Task} {plan : Plan}
    (made : ofTasks settings tasks = .ok plan) :
    ∃ resolution hyperperiod releases,
      Resolution.ofBinary64 settings.resolution = .ok resolution ∧
      Hyperperiod.ofTasks resolution settings.limit tasks = .ok hyperperiod ∧
      List.Forall₂ (fun task r => task.releases hyperperiod.value = .ok r) tasks releases ∧
      plan = {
        layout := settings.layout
        hyperperiod := hyperperiod.value
        streams := releases.zip (settings.policy.rules tasks) } := by
  obtain ⟨resolution, hResolution, made⟩ := Outcome.bind_eq_ok.1 made
  obtain ⟨hyperperiod, hHyperperiod, made⟩ := Outcome.bind_eq_ok.1 made
  obtain ⟨releases, hReleases, made⟩ := Outcome.bind_eq_ok.1 made
  cases made
  have released := Outcome.mapM_eq_ok.1 hReleases
  simp only [Outcome.mapError_eq_ok] at released hResolution hHyperperiod
  exact ⟨resolution, hyperperiod, releases, hResolution, hHyperperiod, released, rfl⟩

theorem planned_of_ok {settings : Settings} {tasks : List Task} {plan : Plan}
    (made : ofTasks settings tasks = .ok plan) : Planned settings tasks plan := by
  obtain ⟨resolution, hyperperiod, _, resolved, repeats, released, rfl⟩ := parts_of_ok made
  exact ⟨rfl, ⟨resolution, hyperperiod, resolved, repeats, rfl⟩, isStream_zip released⟩

/-- No task of a plan has been refused for its phase. -/
theorem Planned.released {settings : Settings} {tasks : List Task} {plan : Plan}
    (planned : Planned settings tasks plan) {task : Task} (mem : task ∈ tasks) :
    ∃ releases, task.releases plan.hyperperiod = .ok releases := by
  obtain ⟨index, inside, rfl⟩ := List.getElem_of_mem mem
  have same := planned.streams.length_eq
  rw [List.length_zipIdx] at same
  have isStream := planned.streams.get (i := index) (by omega) (by rwa [List.length_zipIdx])
  simp only [List.get_eq_getElem, List.getElem_zipIdx] at isStream
  exact ⟨_, isStream.released⟩

/-- A plan succeeds when each of its parts does. -/
theorem ofTasks_eq_ok {settings : Settings} {tasks : List Task} {resolution : Resolution}
    {hyperperiod : Hyperperiod} {releases : List Releases}
    (resolved : Resolution.ofBinary64 settings.resolution = .ok resolution)
    (repeats : Hyperperiod.ofTasks resolution settings.limit tasks = .ok hyperperiod)
    (released : List.Forall₂ (fun task r => task.releases hyperperiod.value = .ok r) tasks
      releases) :
    ofTasks settings tasks = .ok {
      layout := settings.layout
      hyperperiod := hyperperiod.value
      streams := releases.zip (settings.policy.rules tasks) } := by
  rw [ofTasks]
  refine Outcome.bind_eq_ok.2 ⟨resolution, Outcome.mapError_eq_ok.2 resolved, ?_⟩
  refine Outcome.bind_eq_ok.2 ⟨hyperperiod, Outcome.mapError_eq_ok.2 repeats, ?_⟩
  refine Outcome.bind_eq_ok.2 ⟨releases, Outcome.mapM_eq_ok.2 ?_, rfl⟩
  exact released.imp fun _ _ done => Outcome.mapError_eq_ok.2 done

/-- Counting in words loses nothing while the total fits a word. -/
theorem toNat_foldl_remaining (streams : List (Releases × PriorityRule)) (start : UInt64)
    (fits : start.toNat + (streams.map fun s => s.1.remaining.toNat).sum < 2 ^ 64) :
    (streams.foldl (fun count s => count + s.1.remaining) start).toNat =
      start.toNat + (streams.map fun s => s.1.remaining.toNat).sum := by
  induction streams generalizing start with
  | nil => rfl
  | cons stream streams ih =>
    rw [List.map_cons, List.sum_cons] at fits ⊢
    have first : (start + stream.1.remaining).toNat =
        start.toNat + stream.1.remaining.toNat := by
      rw [UInt64.toNat_add, Nat.mod_eq_of_lt (by omega)]
    rw [List.foldl_cons, ih _ (by omega), first, Nat.add_assoc]

/-- The streams hold as many jobs as the tasks have in the hyperperiod. -/
theorem Planned.sum_remaining {settings : Settings} {tasks : List Task} {plan : Plan}
    (planned : Planned settings tasks plan) :
    (plan.streams.map fun s => s.1.remaining.toNat) =
      tasks.map fun task => (task.jobCount plan.hyperperiod).toNat := by
  have counts : List.Forall₂ (fun s entry => (s.1.remaining.toNat : Nat) =
      ((entry.1.jobCount plan.hyperperiod).toNat : Nat)) plan.streams tasks.zipIdx := by
    refine planned.streams.imp fun stream entry isStream => ?_
    rw [Task.remaining_eq isStream.released]
  rw [← List.zipIdx_map_fst 0 tasks, List.map_map]
  exact List.forall₂_eq_eq_eq ▸ List.forall₂_map_left_iff.2 (List.forall₂_map_right_iff.2 counts)

theorem Planned.toNat_jobCount {settings : Settings} {tasks : List Task} {plan : Plan}
    (planned : Planned settings tasks plan)
    (fits : (tasks.map fun task => (task.jobCount plan.hyperperiod).toNat).sum < 2 ^ 64) :
    plan.jobCount.toNat =
      (tasks.map fun task => (task.jobCount plan.hyperperiod).toNat).sum := by
  rw [← planned.sum_remaining] at fits ⊢
  have total := toNat_foldl_remaining plan.streams 0 (by rwa [UInt64.toNat_zero, Nat.zero_add])
  rwa [UInt64.toNat_zero, Nat.zero_add] at total

end Plan

end PeriodicJobs
