import PeriodicJobs.Proofs.Hyperperiod
import PeriodicJobs.Proofs.Priority
import PeriodicJobs.Proofs.Run.Ending
import PeriodicJobs.Proofs.Run.Lines
import PeriodicJobs.Proofs.Run.WholePeriods

set_option autoImplicit false

/- Runs on tasks in another order. The hyperperiod and the rules of the priorities do not depend on
the order, so the text behind the header is made of the same blocks, one for each task. -/
namespace PeriodicJobs

namespace Policy

/-- The rule of a task among tasks with other periods. -/
def ruleAmong (policy : Policy) (tasks : List Task) (task : Task) : PriorityRule :=
  match policy with
  | .earliestDeadline => .byDeadline
  | .rateMonotonic => .byRank (task.rankAmong tasks)

theorem rules_of_distinct {policy : Policy} {tasks : List Task}
    (apart : policy = .rateMonotonic → HaveDistinctPeriods tasks) :
    policy.rules tasks = tasks.map (policy.ruleAmong tasks) := by
  cases policy with
  | earliestDeadline => rfl
  | rateMonotonic =>
    rw [rules, rateMonotonicRanks_of_distinct (apart rfl), List.map_map]
    rfl

theorem ruleAmong_perm {tasks tasks' : List Task} (policy : Policy) (perm : tasks.Perm tasks') :
    policy.ruleAmong tasks = policy.ruleAmong tasks' := by
  funext task
  cases policy with
  | earliestDeadline => rfl
  | rateMonotonic => rw [ruleAmong, ruleAmong, Task.rankAmong_perm perm]

end Policy

namespace Plan

variable {settings : Settings} {tasks tasks' : List Task}

/-- The plan that gives every task its jobs in a span under a rule of its own. -/
def inOrder (settings : Settings) (span : Binary64) (rule : Task → PriorityRule)
    (tasks : List Task) : Plan :=
  { layout := settings.layout
    hyperperiod := span
    streams := tasks.map fun task => (task.start (task.jobCount span), rule task) }

theorem ofTasks_inOrder {plan : Plan} (made : ofTasks settings tasks = .ok plan)
    (apart : settings.policy = .rateMonotonic → HaveDistinctPeriods tasks) :
    plan = inOrder settings plan.hyperperiod (settings.policy.ruleAmong tasks) tasks := by
  obtain ⟨_, h, releases, _, _, released, rfl⟩ := parts_of_ok made
  have started : tasks.map (fun task => task.start (task.jobCount h.value)) = releases := by
    rw [← List.forall₂_eq_eq_eq, List.forall₂_map_left_iff]
    exact released.imp fun task r done => (Task.eq_start_of_releases done).2.symm
  rw [Policy.rules_of_distinct apart, ← started, List.zip_map']
  rfl

/-- Tasks in another order have a plan with the same streams. -/
theorem ofTasks_perm {plan : Plan} (made : ofTasks settings tasks = .ok plan)
    (perm : tasks.Perm tasks')
    (apart : settings.policy = .rateMonotonic → HaveDistinctPeriods tasks) :
    ofTasks settings tasks' = .ok
      (inOrder settings plan.hyperperiod (settings.policy.ruleAmong tasks) tasks') := by
  have planned := planned_of_ok made
  obtain ⟨_, h, _, resolved, repeats, _, rfl⟩ := parts_of_ok made
  have released' : List.Forall₂ (fun task r => task.releases h.value = .ok r) tasks'
      (tasks'.map fun task => task.start (task.jobCount h.value)) := by
    rw [List.forall₂_map_right_iff, List.forall₂_same]
    intro task mem
    obtain ⟨r, done⟩ := planned.released (perm.mem_iff.2 mem)
    exact Task.releases_of_phase (Task.eq_start_of_releases done).1 _
  have apart' := fun ranked => (apart ranked).perm perm
  rw [ofTasks_eq_ok resolved (Hyperperiod.ofTasks_perm repeats perm) released',
    Policy.rules_of_distinct apart', List.zip_map', settings.policy.ruleAmong_perm perm]
  rfl

section

variable (settings) (span : Binary64) (rule : Task → PriorityRule)

theorem lines_inOrder (tasks : List Task) : (inOrder settings span rule tasks).lines =
    tasks.flatMap fun task =>
      settings.layout.bodies (rule task) (task.start (task.jobCount span)).jobs := by
  rw [lines, inOrder, List.flatMap_map]

theorem length_text_inOrder (perm : tasks.Perm tasks') :
    (inOrder settings span rule tasks).text.length =
      (inOrder settings span rule tasks').text.length := by
  have lines := perm.flatMap_right fun task =>
    settings.layout.bodies (rule task) (task.start (task.jobCount span)).jobs
  rw [← lines_inOrder, ← lines_inOrder] at lines
  have texts := (lines.append_left settings.layout.headerLines).flatMap_right (· ++ ['\n'])
  rw [← String.length_toList, ← String.length_toList, toList_text_lines, toList_text_lines]
  exact texts.length_eq

theorem summary_inOrder (perm : tasks.Perm tasks') :
    (inOrder settings span rule tasks).summary tasks =
      (inOrder settings span rule tasks').summary tasks' := by
  have count : (inOrder settings span rule tasks).jobCount =
      (inOrder settings span rule tasks').jobCount := by
    refine (perm.map _).foldl_eq' ?_ 0
    rintro ⟨a, _⟩ _ ⟨b, _⟩ _ total
    simp only
    rw [UInt64.add_assoc, UInt64.add_comm a.remaining, ← UInt64.add_assoc]
  rw [summary, summary, count, perm.length_eq]
  rfl

end

end Plan

/-- Tasks in another order make a run end alike. -/
theorem outcome_writeJobSet_perm {settings : Settings} {tasks tasks' : List Task}
    (perm : tasks.Perm tasks')
    (apart : settings.policy = .rateMonotonic → HaveDistinctPeriods tasks) {sink : Sink}
    {summary : Summary} (done : (writeJobSet settings tasks).outcome sink = .ok summary) :
    (writeJobSet settings tasks').outcome sink = .ok summary := by
  rw [outcome_writeJobSet] at done ⊢
  obtain ⟨plan, made, ends⟩ := Outcome.bind_eq_ok.1 done
  have made' := Plan.ofTasks_perm made perm apart
  rw [Plan.ofTasks_inOrder made apart, Plan.summary_inOrder _ _ _ perm,
    Plan.length_text_inOrder _ _ _ perm] at ends
  exact Outcome.bind_eq_ok.2 ⟨_, made', ends⟩

/-- A text in which every task has its lines in one block: behind the header stand the blocks of
the tasks in their order, each the lines of the jobs of its task, numbered upwards. -/
structure IsJobSetOf (settings : Settings) (span : Binary64) (tasks : List Task)
    (block : Task → List (List Char)) (output : String) : Prop where
  lines : output.toList.splitOn '\n' = settings.layout.headerLines ++ tasks.flatMap block ++ [[]]
  blocks : List.Forall₂
    (fun task rule => block task = settings.layout.bodies rule (task.jobs span)) tasks
    (settings.policy.rules tasks)
  ascending : ∀ task ∈ tasks, (task.jobs span).Pairwise fun a b => a.id < b.id

theorem Plan.isJobSetOf {settings : Settings} {tasks : List Task} {plan : Plan}
    (made : ofTasks settings tasks = .ok plan)
    (apart : settings.policy = .rateMonotonic → HaveDistinctPeriods tasks) :
    IsJobSetOf settings plan.hyperperiod tasks (fun task =>
      settings.layout.bodies (settings.policy.ruleAmong tasks task) (task.jobs plan.hyperperiod))
      plan.text where
  lines := by
    have started : ∀ task ∈ tasks,
        (task.start (task.jobCount plan.hyperperiod)).jobs = task.jobs plan.hyperperiod := by
      intro task mem
      obtain ⟨r, released⟩ := (planned_of_ok made).released mem
      rw [← Task.jobs_eq_of_releases released, (Task.eq_start_of_releases released).2]
    have lines : plan.lines = _ :=
      (congrArg Plan.lines (ofTasks_inOrder made apart)).trans (lines_inOrder _ _ _ _)
    rw [splitOn_text_lines, lines, (planned_of_ok made).layout]
    congr 2
    apply List.flatMap_congr
    intro task mem
    rw [started task mem]
  blocks := by
    rw [Policy.rules_of_distinct apart, List.forall₂_map_right_iff, List.forall₂_same]
    intro task _
    rfl
  ascending task _ := task.pairwise_jobs _

/-- The order of the tasks only reorders a job set. Unless ranks have to choose between equal
periods, a run ends well on tasks in one order when it does on them in the other, with the same
summary, and both outputs are made of the same blocks behind the same header. -/
theorem order_of_tasks_reorders_job_set {settings : Settings} {tasks tasks' : List Task}
    (perm : tasks.Perm tasks')
    (apart : settings.policy = .rateMonotonic → HaveDistinctPeriods tasks) :
    (∀ sink summary, (writeJobSet settings tasks).outcome sink = .ok summary ↔
      (writeJobSet settings tasks').outcome sink = .ok summary) ∧
    ∀ sink sink' summary summary' after after',
      writeJobSet settings tasks sink = .ok summary after →
      writeJobSet settings tasks' sink' = .ok summary' after' →
        summary = summary' ∧ ∃ output output' block,
          after.held = sink.held ++ output ∧ after'.held = sink'.held ++ output' ∧
          IsJobSetOf settings summary.hyperperiod tasks block output ∧
          IsJobSetOf settings summary.hyperperiod tasks' block output' ∧
          (tasks.flatMap block).Perm (tasks'.flatMap block) := by
  have apart' := fun ranked => (apart ranked).perm perm
  constructor
  · intro sink summary
    exact ⟨outcome_writeJobSet_perm perm apart, outcome_writeJobSet_perm perm.symm apart'⟩
  · intro sink sink' summary summary' after after' written written'
    obtain ⟨plan, made, rfl, held⟩ := writeJobSet_ok written
    obtain ⟨plan', made', rfl, held'⟩ := writeJobSet_ok written'
    have ordered := Plan.ofTasks_inOrder made apart
    have reordered := Except.ok.inj (made'.symm.trans (Plan.ofTasks_perm made perm apart))
    have span : plan'.hyperperiod = plan.hyperperiod := by
      rw [reordered, Plan.inOrder]
    have jobSet := Plan.isJobSetOf made apart
    have jobSet' := Plan.isJobSetOf made' apart'
    rw [← settings.policy.ruleAmong_perm perm, span] at jobSet'
    refine ⟨?_, _, _, _, held, held', jobSet, jobSet', perm.flatMap_right _⟩
    rw [reordered, ← Plan.summary_inOrder _ _ _ perm, ← ordered]

def tripleTask : Task := .periodic 2 (.ofNat 3) (.point .one)

/-- Two tasks in either order have the lines of both under ranks. -/
theorem order_of_tasks_reorders_job_set_two_three : ∃ (summary : Summary)
    (after after' : Sink) (block : Task → List (List Char)),
    writeJobSet { policy := .rateMonotonic } [pairTask, tripleTask] {} = .ok summary after ∧
      writeJobSet { policy := .rateMonotonic } [tripleTask, pairTask] {} = .ok summary after' ∧
      after.held.toList.splitOn '\n' =
        JobSet.headerLine :: (block pairTask ++ block tripleTask) ++ [[]] ∧
      after'.held.toList.splitOn '\n' =
        JobSet.headerLine :: (block tripleTask ++ block pairTask) ++ [[]] ∧
      (block pairTask).length = 3 ∧ (block tripleTask).length = 2 := by
  have whole : ∀ task ∈ [pairTask, tripleTask],
      task.HasWholePeriod (if task.id = 1 then 2 else 3) := by
    simp only [List.forall_mem_cons, List.not_mem_nil, IsEmpty.forall_iff, implies_true, and_true]
    exact ⟨⟨rfl, Binary64.isWhole_ofNat (by decide), by decide, by decide⟩,
      ⟨rfl, Binary64.isWhole_ofNat (by decide), by decide, by decide⟩⟩
  obtain ⟨plan, made, value⟩ := @plan_whole { policy := .rateMonotonic } _
    (fun task => if task.id = 1 then 2 else 3) 6 (by simp) whole rfl rfl (by decide)
    (fun _ none => by cases none)
  have span : plan.hyperperiod = .ofNat 6 := value.unique (Binary64.isWhole_ofNat (by decide))
  have perm : [pairTask, tripleTask].Perm [tripleTask, pairTask] := .swap _ _ _
  have apart : HaveDistinctPeriods [pairTask, tripleTask] := by decide +kernel
  obtain ⟨after, written, _⟩ := writeJobSet_of_takes made (⟨by simp, rfl⟩ : Sink.Takes {} _)
  have made' := Plan.ofTasks_perm made perm fun _ => apart
  obtain ⟨after', written', _⟩ := writeJobSet_of_takes made' (⟨by simp, rfl⟩ : Sink.Takes {} _)
  obtain ⟨same, output, output', block, held, held', jobSet, jobSet', _⟩ :=
    (order_of_tasks_reorders_job_set perm fun _ => apart).2 _ _ _ _ _ _ written written'
  obtain ⟨ruleTwo, _, blockTwo, others, _⟩ := List.forall₂_cons_left_iff.1 jobSet.blocks
  obtain ⟨ruleThree, _, blockThree, _⟩ := List.forall₂_cons_left_iff.1 others
  simp only [Plan.summary, span] at blockTwo blockThree
  have lines := jobSet.lines
  have lines' := jobSet'.lines
  rw [← String.empty_append (s := output), ← held] at lines
  rw [← String.empty_append (s := output'), ← held'] at lines'
  rw [← same] at written'
  refine ⟨_, after, after', block, written, written', ?_, ?_, ?_, ?_⟩
  · simpa [Layout.headerLines] using lines
  · simpa [Layout.headerLines] using lines'
  · rw [blockTwo, Layout.bodies, List.length_map]
    decide +kernel
  · rw [blockThree, Layout.bodies, List.length_map]
    decide +kernel

end PeriodicJobs
