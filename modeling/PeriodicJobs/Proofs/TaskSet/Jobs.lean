import PeriodicJobs.Proofs.Binary64.Error
import PeriodicJobs.Proofs.Releases
import PeriodicJobs.Proofs.TaskSet.Guarantees

set_option autoImplicit false

/- The jobs of a task that has been read. A release is a product of finite numbers without a sign,
so it may round to infinity but is never a NaN, and neither is any instant counted from it. -/
namespace PeriodicJobs

/-- A window that is moved by a number without a sign stays in order. -/
theorem Window.IsForward.shift {window : Window} (forward : window.IsForward) {offset : Binary64}
    (unsigned : offset.IsUnsigned) : (window.shift offset).min ≤ (window.shift offset).max :=
  Binary64.add_le_add_right forward.ordered (forward.min_unsigned.add unsigned).isNumber
    (forward.max_unsigned.add unsigned).isNumber

/-- Windows in order and a deadline that is a number. -/
structure Job.IsSound (job : Job) : Prop where
  arrival_ordered : job.arrival.min ≤ job.arrival.max
  cost_ordered : job.cost.min ≤ job.cost.max
  deadline_number : job.deadline.isNumber = true

namespace Task

theorem jobCount_pos {task : Task} {span : Binary64} (some : 0 < (task.jobCount span).toNat) :
    ¬ task.period ≤ .zero := by
  intro none
  simp [jobCount, none] at some

theorem IsRead.isMagnitude_period {task : Task} (read : task.IsRead)
    (positive : ¬ task.period ≤ .zero) : task.period.IsMagnitude :=
  (Binary64.isMagnitude_of_pos read.period_finite positive).1

section

variable {task : Task} {periods : Nat} {job : Job} (isJob : task.IsJob periods job)

include isJob

theorem IsJob.isMagnitude_ofNat : (Binary64.ofNat periods).IsMagnitude := by
  have word := job.id.toNat_lt_size
  rw [isJob.id] at word
  have magnitude := Binary64.isMagnitude_ofUInt64 (.ofNat periods)
  rwa [Binary64.ofUInt64, UInt64.toNat_ofNat_of_lt' (by omega)] at magnitude

/-- Whatever the number of a job, its release has no sign. -/
theorem IsJob.isUnsigned_release (period : task.period.IsMagnitude) :
    (task.release periods).IsUnsigned := by
  have magnitude := isJob.isMagnitude_ofNat
  exact magnitude.1.mul period.1 magnitude.2 period.2

theorem IsRead.isSound (read : task.IsRead) (positive : ¬ task.period ≤ .zero) :
    job.IsSound := by
  have release := isJob.isUnsigned_release (read.isMagnitude_period positive)
  constructor
  · rw [isJob.arrival]
    exact read.jitter_forward.shift release
  · rw [isJob.cost]
    exact read.cost_forward.ordered
  · rw [isJob.deadline]
    exact Binary64.isNumber_add release.isNumber read.deadline_finite

end

/-- A task that has been read has only sound jobs, in any span. -/
theorem IsRead.isSound_of_mem {task : Task} (read : task.IsRead) {span : Binary64}
    {releases : Releases} (released : task.releases span = .ok releases) {job : Job}
    (mem : job ∈ releases.jobs) : job.IsSound := by
  have sequence := isSequence_jobs released
  rw [jobs_eq_of_releases released] at mem
  obtain ⟨periods, found⟩ := List.mem_iff_getElem?.1 mem
  have some : 0 < (task.jobCount span).toNat := by
    rw [← sequence.length]
    exact List.length_pos_of_mem mem
  exact read.isSound (sequence.isJob periods job found) (jobCount_pos some)

end Task

end PeriodicJobs
