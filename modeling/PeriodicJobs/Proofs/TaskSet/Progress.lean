import PeriodicJobs.Priority
import PeriodicJobs.Proofs.Binary64.Monotone
import PeriodicJobs.Proofs.TaskSet.FirstFault
import PeriodicJobs.Proofs.TaskSet.Jobs

set_option autoImplicit false

/- Time along the jobs of a task that has been read. The releases are products of a growing count and
one period, and windows and deadlines are sums with a release. Each of these roundings keeps the
order, and as no bound of the windows has a sign, infinity is never taken from infinity. -/
namespace PeriodicJobs

theorem Window.IsForward.shift_le_shift {window : Window} (forward : window.IsForward)
    {earlier later : Binary64} (unsigned : earlier.IsUnsigned) (unsigned' : later.IsUnsigned)
    (le : earlier ≤ later) :
    (window.shift earlier).min ≤ (window.shift later).min ∧
      (window.shift earlier).max ≤ (window.shift later).max :=
  ⟨Binary64.add_le_add_left le (forward.min_unsigned.add unsigned).isNumber
      (forward.min_unsigned.add unsigned').isNumber,
    Binary64.add_le_add_left le (forward.max_unsigned.add unsigned).isNumber
      (forward.max_unsigned.add unsigned').isNumber⟩

/-- A job that stands before another one: no instant of it is later. -/
structure Job.Precedes (a b : Job) : Prop where
  id : a.id < b.id
  arrival_min : a.arrival.min ≤ b.arrival.min
  arrival_max : a.arrival.max ≤ b.arrival.max
  deadline : a.deadline ≤ b.deadline

/-- The first of two priorities of a kind is not the greater one. -/
def Priority.NotAbove : Priority → Priority → Prop
  | .deadline a, .deadline b => a ≤ b
  | .rank a, .rank b => a ≤ b
  | _, _ => False

namespace Task

variable {task : Task}

/-- Later jobs have no earlier windows and deadlines. -/
theorem IsRead.precedes (read : task.IsRead) (positive : ¬ task.period ≤ .zero) {m n : Nat}
    {a b : Job} (first : task.IsJob m a) (second : task.IsJob n b) (lt : m < n) :
    a.Precedes b := by
  have period := read.isMagnitude_period positive
  have unsigned := first.isUnsigned_release period
  have unsigned' := second.isUnsigned_release period
  have le : task.release m ≤ task.release n :=
    Binary64.mul_le_mul_right first.isMagnitude_ofNat second.isMagnitude_ofNat period
      (Binary64.ofNat_le_ofNat lt.le)
  obtain ⟨arrival_min, arrival_max⟩ := read.jitter_forward.shift_le_shift unsigned unsigned' le
  constructor
  · rw [UInt64.lt_iff_toNat_lt, first.id, second.id]
    omega
  · rwa [first.arrival, second.arrival]
  · rwa [first.arrival, second.arrival]
  · rw [first.deadline, second.deadline]
    exact Binary64.add_le_add_right le (Binary64.isNumber_add unsigned.isNumber read.deadline_finite)
      (Binary64.isNumber_add unsigned'.isNumber read.deadline_finite)

/-- Any two jobs of a task come in order. -/
theorem IsRead.pairwise_precedes (read : task.IsRead) {span : Binary64} {releases : Releases}
    (released : task.releases span = .ok releases) : releases.jobs.Pairwise Job.Precedes := by
  have sequence := isSequence_jobs released
  rw [jobs_eq_of_releases released, List.pairwise_iff_getElem]
  intro m n inside inside' lt
  have some : 0 < (task.jobCount span).toNat := by
    rw [← sequence.length]
    omega
  exact read.precedes (jobCount_pos some) (sequence.isJob m _ (List.getElem?_eq_getElem inside))
    (sequence.isJob n _ (List.getElem?_eq_getElem inside')) lt

end Task

namespace TaskSet

/-- The jobs of a task that has been read, over a span of any length, have windows in order and the
costs and number of the task. From job to job no window and no deadline moves back, and so neither
does the priority by deadline. -/
theorem jobs_move_forward {bytes : List UInt8} {tasks : List Task}
    (read : ofBytes bytes = .ok tasks) {task : Task} (mem : task ∈ tasks)
    (origin : task.phase.isZero = true) (span : Binary64) :
    ∃ releases, task.releases span = .ok releases ∧ task.IsSequence span releases.jobs ∧
      (∀ job ∈ releases.jobs, job.arrival.min ≤ job.arrival.max ∧ job.cost = task.cost ∧
        job.taskId = task.id) ∧
      releases.jobs.Pairwise Job.Precedes ∧
      ∀ rule ∈ Policy.earliestDeadline.rules tasks,
        releases.jobs.Pairwise fun a b => (rule.priority a).NotAbove (rule.priority b) := by
  have isRead := ofBytes_ok read task mem
  have released := Task.releases_of_phase origin span
  have sequence := Task.isSequence_jobs released
  have ordered := isRead.pairwise_precedes released
  refine ⟨_, released, ?_, ?_, ordered, ?_⟩
  · rwa [Task.jobs_eq_of_releases released]
  · intro job inJobs
    have sound := isRead.isSound_of_mem released inJobs
    rw [Task.jobs_eq_of_releases released] at inJobs
    obtain ⟨periods, found⟩ := List.mem_iff_getElem?.1 inJobs
    have isJob := sequence.isJob periods job found
    exact ⟨sound.arrival_ordered, isJob.cost, isJob.taskId⟩
  · intro rule inRules
    obtain ⟨_, _, rfl⟩ := List.mem_map.1 inRules
    exact ordered.imp fun precedes => precedes.deadline

/-- A table of one task with a period of a tenth, jitter and a deadline before the release. -/
def jitterTable : List UInt8 :=
  schemaTable
    "T(1 1),0.1,0,-5,2,uniform params: [1 to 2],uniform params: [0.5 to 1.5]\n".toList

/-- Over an infinite span the task has as many jobs as a word counts, and they come in order. -/
theorem jobs_move_forward_jitter :
    ∃ task releases, ofBytes jitterTable = .ok [task] ∧ task.phase.isZero = true ∧
      task.releases (.infinity false) = .ok releases ∧
      releases.jobs.length = 2 ^ 64 - 1 ∧ releases.jobs.Pairwise Job.Precedes := by
  have found : (ofBytes jitterTable).map (List.map fun task =>
      (task.phase.isZero, (task.jobCount (.infinity false)).toNat)) = .ok [(true, 2 ^ 64 - 1)] := by
    decide +kernel
  obtain ⟨tasks, read, found⟩ := Outcome.map_eq_ok.1 found
  obtain ⟨task, rest, rfl, found, none⟩ := List.map_eq_cons_iff.1 found
  obtain ⟨origin, count⟩ := Prod.mk.inj found
  rw [List.map_eq_nil_iff.1 none] at read
  obtain ⟨releases, released, sequence, _, ordered, _⟩ :=
    jobs_move_forward read List.mem_cons_self origin (.infinity false)
  exact ⟨task, releases, read, origin, released, sequence.length.trans count, ordered⟩

end TaskSet

end PeriodicJobs
