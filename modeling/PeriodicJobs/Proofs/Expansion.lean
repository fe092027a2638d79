import PeriodicJobs.Proofs.Drift

set_option autoImplicit false

/- Whether a task runs as often in a hyperperiod as its ticks fit into it. The two tests for whole
numbers are independent of each other, so this depends on how far the period is off its ticks. -/
namespace PeriodicJobs

namespace Hyperperiod

/-- Over a finite hyperperiod a steady task has as many jobs as its count fits into the ticks, and a
drifting one has not. -/
theorem jobCount_mul_ticks {resolution : Resolution} {limit : Option Binary64}
    {tasks : List Task} {h : Hyperperiod} (done : ofTasks resolution limit tasks = .ok h)
    (lasting : h.isDegenerate = false) {task : Task} (mem : task ∈ tasks) :
    ∃ count rounds, resolution.ticks task = .ok count ∧
      rounds * count.toNat = h.ticks.toNat ∧
      (h.value.isFinite = true → resolution.Steady task count rounds →
        (task.jobCount h.value).toNat * count.toNat = h.ticks.toNat) ∧
      (h.value.isFinite = true → resolution.Drifting task count rounds → rounds < 2 ^ 64 - 1 →
        (task.jobCount h.value).toNat * count.toNat ≠ h.ticks.toNat) := by
  obtain ⟨counts, made⟩ := counted_of_lasting done lasting
  obtain ⟨count, inCounts, counted⟩ := made.exists_count mem
  obtain ⟨period, period_pos, count_pos, deviates⟩ := Resolution.ticks_spec counted
  obtain ⟨rounds, multiple⟩ :=
    (made.dvd_iff (List.ne_nil_of_mem mem) _).1 (Nat.dvd_refl _) count inCounts
  rw [Nat.mul_comm] at multiple
  have nonempty : 0 < h.ticks.toNat := by
    rw [Nat.pos_iff_ne_zero]
    intro none
    have zero : h.ticks = 0 := UInt64.toNat_inj.1 none
    rw [isDegenerate, zero] at lasting
    cases lasting
  have covers (finite : (resolution.span h.ticks).isFinite = true) :
      resolution.Covers task count h.ticks rounds :=
    ⟨period, period_pos, deviates, nonempty, multiple.symm, finite⟩
  rw [made.value]
  refine ⟨count, rounds, counted, multiple.symm, ?_, ?_⟩
  · intro finite steady
    rw [(covers finite).jobCount_of_steady steady, multiple]
  · intro finite drifting word
    rw [multiple]
    intro same
    exact (covers finite).jobCount_of_drifting drifting word
      (Nat.eq_of_mul_eq_mul_right count_pos same)

def tenth : Resolution := ⟨.ofRatio false 1 10, by decide +kernel⟩

/-- A task with a period of some tenths, rounded. -/
def tenths (id : UInt64) (n : Nat) : Task := .periodic id (.ofRatio false n 10) (.point .zero)

/-- Three tenths are not a whole number of rounded tenths, but they run twice in six of them. -/
theorem jobCount_mul_ticks_tenths : ∃ h count,
    ofTasks tenth none [tenths 1 2, tenths 2 3] = .ok h ∧
      tenth.ticks (tenths 2 3) = .ok count ∧
      ((tenths 2 3).jobCount h.value).toNat * count.toNat = h.ticks.toNat := by
  have two : tenth.ticks (tenths 1 2) = .ok 2 := by decide +kernel
  have three : tenth.ticks (tenths 2 3) = .ok 3 := by decide +kernel
  have moving : Moving [tenths 1 2, tenths 2 3] := ⟨by simp, by decide +kernel⟩
  have multiple : Ticks.lcmAll [2, 3] = .ok 6 := by decide +kernel
  have done := ofTasks_of_increasing moving
    (List.Forall₂.cons two (List.Forall₂.cons three List.Forall₂.nil)) (by decide) multiple
  obtain ⟨count, rounds, counted, fits, agrees, _⟩ :=
    jobCount_mul_ticks done rfl (List.mem_cons_of_mem _ List.mem_cons_self)
  rw [three] at counted
  cases counted
  have same : rounds = 2 := by
    change rounds * 3 = 6 at fits
    omega
  have steady : tenth.Steady (tenths 2 3) 3 rounds := by
    rw [same]
    decide +kernel
  have finite : (tenth.span 6).isFinite = true := by decide +kernel
  exact ⟨_, 3, done, three, agrees finite steady⟩

/-- A period that is shorter than its tick by all of the tolerance. -/
def shortTask : Task := .periodic 1 (.ofRatio false 999999999 1000000000) (.point .zero)

/-- A period that is longer than its tick by half of the tolerance. -/
def longTask : Task := .periodic 1 (.ofRatio false 10000000005 10000000000) (.point .zero)

theorem ofTasks_pair {task : Task} {n : UInt64} (one : Resolution.unit.ticks task = .ok 1)
    (moving : Moving [task, .periodic 2 (.ofUInt64 n) (.point .zero)])
    (other : Resolution.unit.ticks (.periodic 2 (.ofUInt64 n) (.point .zero)) = .ok n)
    (above : 1 < n) (multiple : Ticks.lcmAll [1, n] = .ok n) :
    ofTasks .unit none [task, .periodic 2 (.ofUInt64 n) (.point .zero)] = .ok {
      value := Resolution.unit.span n
      ticks := n
      uniquePeriods := [1, n].map Resolution.unit.span
      taskCount := 2 } :=
  ofTasks_of_increasing moving (List.Forall₂.cons one (List.Forall₂.cons other List.Forall₂.nil))
    (by simpa using above) multiple

/-- The two tests disagree on a period at the edge of the tolerance, which has a third job in two
ticks, and on a period within it whose deviations add up to a job in many rounds. -/
theorem jobCount_ne_ticks :
    (∃ h count,
      ofTasks .unit none [shortTask, .periodic 2 (.ofUInt64 2) (.point .zero)] = .ok h ∧
        h.isDegenerate = false ∧ Resolution.unit.ticks shortTask = .ok count ∧
        (shortTask.jobCount h.value).toNat * count.toNat ≠ h.ticks.toNat) ∧
    ∃ h count,
      ofTasks .unit none [longTask, .periodic 2 (.ofUInt64 2000000001) (.point .zero)] = .ok h ∧
        h.isDegenerate = false ∧ Resolution.unit.ticks longTask = .ok count ∧
        (longTask.jobCount h.value).toNat * count.toNat ≠ h.ticks.toNat := by
  have short : Resolution.unit.ticks shortTask = .ok 1 := by decide +kernel
  have long : Resolution.unit.ticks longTask = .ok 1 := by decide +kernel
  have done := ofTasks_pair (n := 2) short ⟨by simp, by decide +kernel⟩
    (by decide +kernel) (by decide) (by decide +kernel)
  have done' := ofTasks_pair (n := 2000000001) long ⟨by simp, by decide +kernel⟩
    (by decide +kernel) (by decide) (by decide +kernel)
  refine ⟨⟨_, 1, done, rfl, short, ?_⟩, _, 1, done', rfl, long, ?_⟩
  · decide +kernel
  · decide +kernel

end Hyperperiod

end PeriodicJobs
