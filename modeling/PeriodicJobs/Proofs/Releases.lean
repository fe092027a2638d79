import PeriodicJobs.Job

set_option autoImplicit false

/- The jobs of a task in a span, as a list: a cursor yields them one by one, each once and in
order. -/
namespace PeriodicJobs

namespace Releases

theorem remaining_toNat (r : Releases) : r.remaining.toNat = r.count.toNat - r.next.toNat :=
  UInt64.toNat_sub_of_le _ _ r.next_le_count

theorem next_lt_iff (r : Releases) : r.next < r.count ↔ 0 < r.remaining.toNat := by
  rw [UInt64.lt_iff_toNat_lt, remaining_toNat]
  omega

theorem task_advance (r : Releases) (steps : Nat) : (r.advance steps).task = r.task := by
  unfold advance
  split <;> rfl

theorem count_advance (r : Releases) (steps : Nat) : (r.advance steps).count = r.count := by
  unfold advance
  split <;> rfl

/-- Behind the last job no step leads further. -/
theorem toNat_next_advance (r : Releases) (steps : Nat) :
    (r.advance steps).next.toNat = min (r.next.toNat + steps) r.count.toNat := by
  have left := r.remaining_toNat
  have bound := r.count.toNat_lt
  unfold advance
  split
  · rename_i inside
    simp only [UInt64.toNat_add, UInt64.toNat_ofNat']
    omega
  · change r.count.toNat = _
    omega

theorem toNat_remaining_advance (r : Releases) (steps : Nat) :
    (r.advance steps).remaining.toNat = r.remaining.toNat - steps := by
  rw [remaining_toNat, remaining_toNat, count_advance, toNat_next_advance]
  omega

/-- What a cursor yields before it has to stop. -/
theorem take_eq (limit : Nat) (r : Releases) (inside : limit ≤ r.remaining.toNat) :
    (r.take limit).1 =
      (List.range limit).map fun k => r.task.job (UInt64.ofNat (r.next.toNat + k)) := by
  induction limit generalizing r with
  | zero => rfl
  | succ limit ih =>
    have more : 0 < r.remaining.toNat := by omega
    have next : r.next? = (some (r.task.job r.next), r.advance 1) := by
      rw [next?, if_pos (r.next_lt_iff.2 more)]
    have left := r.remaining_toNat
    have behind : (r.advance 1).next.toNat = r.next.toNat + 1 := by
      rw [toNat_next_advance]
      omega
    have tail := ih (r.advance 1) (by rw [toNat_remaining_advance]; omega)
    rw [task_advance, behind] at tail
    rw [take, next]
    simp only [tail, List.range_succ_eq_map, List.map_cons, List.map_map, Nat.add_zero,
      UInt64.ofNat_toNat, List.cons.injEq, true_and]
    apply List.map_congr_left
    intro k _
    simp only [Function.comp_apply, Nat.succ_eq_add_one, Nat.add_assoc, Nat.add_comm 1]

def jobs (r : Releases) : List Job := (r.take r.remaining.toNat).1

theorem length_jobs (r : Releases) : r.jobs.length = r.remaining.toNat := by
  rw [jobs, take_eq _ _ (Nat.le_refl _), List.length_map, List.length_range]

end Releases

/-- The jobs of a task in a span; a task that cannot be released has none. -/
def Task.jobs (task : Task) (span : Binary64) : List Job :=
  match task.releases span with
  | .ok releases => releases.jobs
  | .error _ => []

/-- A cursor before the first of some jobs. -/
def Task.start (task : Task) (count : UInt64) : Releases :=
  { task, next := 0, count, next_le_count := UInt64.le_iff_toNat_le.2 (Nat.zero_le _) }

theorem Task.releases_of_phase {task : Task} (origin : task.phase.isZero = true)
    (span : Binary64) : task.releases span = .ok (task.start (task.jobCount span)) := by
  rw [Task.releases, if_pos origin]
  rfl

theorem Task.eq_start_of_releases {task : Task} {span : Binary64} {releases : Releases}
    (released : task.releases span = .ok releases) :
    task.phase.isZero = true ∧ releases = task.start (task.jobCount span) := by
  unfold Task.releases at released
  split at released
  · rename_i origin
    cases released
    exact ⟨origin, rfl⟩
  · cases released

theorem Task.remaining_eq {task : Task} {span : Binary64} {releases : Releases}
    (released : task.releases span = .ok releases) :
    releases.remaining = task.jobCount span := by
  obtain ⟨_, rfl⟩ := eq_start_of_releases released
  exact UInt64.sub_zero _

theorem Task.jobs_eq_of_releases {task : Task} {span : Binary64} {releases : Releases}
    (released : task.releases span = .ok releases) : releases.jobs = task.jobs span := by
  rw [Task.jobs, released]

/-- The jobs follow each other from the first on. -/
theorem Task.jobs_eq {task : Task} {span : Binary64} {releases : Releases}
    (released : task.releases span = .ok releases) :
    task.jobs span =
      (List.range (task.jobCount span).toNat).map fun k => task.job (UInt64.ofNat k) := by
  have left := remaining_eq released
  obtain ⟨_, rfl⟩ := eq_start_of_releases released
  rw [← jobs_eq_of_releases released, Releases.jobs, Releases.take_eq _ _ (Nat.le_refl _), left]
  simp [start]

theorem Task.id_job {task : Task} {earlier : Nat} (fits : earlier + 1 < UInt64.size) :
    (task.job (.ofNat earlier)).id.toNat = earlier + 1 := by
  rw [UInt64.size] at fits
  rw [job, UInt64.toNat_add, UInt64.toNat_ofNat', UInt64.toNat_one]
  omega

/-- The instant after some periods. -/
def Task.release (task : Task) (periods : Nat) : Binary64 := .ofNat periods * task.period

/-- The job that is released after some periods. -/
structure Task.IsJob (task : Task) (periods : Nat) (job : Job) : Prop where
  id : job.id.toNat = periods + 1
  taskId : job.taskId = task.id
  arrival : job.arrival = task.jitter.shift (task.release periods)
  deadline : job.deadline = task.release periods + task.deadline
  cost : job.cost = task.cost

theorem Task.isJob_job (task : Task) {periods : Nat} (fits : periods + 1 < UInt64.size) :
    task.IsJob periods (task.job (.ofNat periods)) := by
  have word : Binary64.ofUInt64 (.ofNat periods) = .ofNat periods := by
    rw [Binary64.ofUInt64, UInt64.toNat_ofNat_of_lt' (by omega)]
  have release : Binary64.ofUInt64 (.ofNat periods) * task.period = task.release periods := by
    rw [word, Task.release]
  exact ⟨id_job fits, rfl, by rw [job, release], by rw [job, release], rfl⟩

/-- As many jobs as a task has in a span, each released after the periods of those before it. -/
structure Task.IsSequence (task : Task) (span : Binary64) (jobs : List Job) : Prop where
  length : jobs.length = (task.jobCount span).toNat
  isJob : ∀ (periods : Nat) (job : Job), jobs[periods]? = some job → task.IsJob periods job

theorem Task.isSequence_jobs {task : Task} {span : Binary64} {releases : Releases}
    (released : task.releases span = .ok releases) : task.IsSequence span (task.jobs span) where
  length := by rw [jobs_eq released, List.length_map, List.length_range]
  isJob := by
    intro periods job found
    have bound := (task.jobCount span).toNat_lt_size
    obtain ⟨inside, same⟩ := List.getElem?_eq_some_iff.1 found
    simp only [jobs_eq released, List.length_map, List.length_range] at inside
    simp only [jobs_eq released, List.getElem_map, List.getElem_range] at same
    rw [← same]
    exact task.isJob_job (by omega)

/-- The jobs of a task are numbered upwards. -/
theorem Task.pairwise_jobs (task : Task) (span : Binary64) :
    (task.jobs span).Pairwise fun a b => a.id < b.id := by
  cases released : task.releases span with
  | error fault =>
    rw [jobs, released]
    exact .nil
  | ok releases =>
    have bound := (task.jobCount span).toNat_lt_size
    rw [jobs_eq released, List.pairwise_map]
    refine List.pairwise_lt_range.imp_of_mem ?_
    intro a b _ inside below
    rw [List.mem_range] at inside
    rw [UInt64.lt_iff_toNat_lt, id_job (by omega), id_job (by omega)]
    omega

end PeriodicJobs
