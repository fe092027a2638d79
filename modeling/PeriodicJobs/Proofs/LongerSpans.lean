import PeriodicJobs.Proofs.JobCount
import PeriodicJobs.Proofs.Releases

set_option autoImplicit false

/- Spans of different lengths. A ratio counts as the whole number that it is near to, or as the one
above it, and of two ratios with the same nearest number the one that is near is never the greater.
So a longer span has the jobs of a shorter one, and then perhaps more. -/
namespace PeriodicJobs

namespace Binary64

section

variable {x y : Binary64}

/-- Below a number that passes the test for whole numbers, all down to the whole number pass it. -/
theorem isNearlyWhole_of_le (left : x.IsMagnitude) (right : y.IsMagnitude)
    (rounded : x.round.IsMagnitude) (same : x.round = y.round) (above : x.round ≤ x) (le : x ≤ y)
    (near : y.isNearlyWhole = true) : x.isNearlyWhole = true := by
  rw [isNearlyWhole, decide_eq_true_eq] at near ⊢
  rw [← same] at near
  exact Binary64.le_trans (abs_sub_le_abs_sub left right rounded above le) near

theorem toCount_le_of_finite (left : x.IsMagnitude) (right : y.IsMagnitude) (le : x ≤ y) :
    x.toCount ≤ y.toCount := by
  obtain ⟨nearest, least, counts⟩ := exists_counts left
  obtain ⟨nearest', least', counts'⟩ := exists_counts right
  have values := (left.value_le_iff right).2 le
  have lower := counts.nearest_le
  have upper := counts.least_lt
  have lower' := counts'.lt_nearest
  have upper' := counts'.le_least
  have nearests : nearest ≤ nearest' := le_of_lt_add_one (by linarith)
  have leasts : least ≤ least' := le_of_lt_add_one (by linarith)
  have rises : nearest ≤ least := le_of_lt_add_one (by linarith [counts.le_least])
  -- Only a ratio that is rounded up can get past the nearest number of a greater one.
  have crosses (passes : ¬ x.isNearlyWhole = true) (stays : y.isNearlyWhole = true) :
      least ≤ nearest' := by
    by_contra beyond
    have high : (nearest' : ℚ) + 1 ≤ least := by exact_mod_cast Nat.lt_of_not_le beyond
    have same : nearest = nearest' := by
      apply Nat.le_antisymm nearests
      apply le_of_lt_add_one
      linarith [counts.lt_nearest, counts'.nearest_le]
    subst same
    have above : x.round ≤ x := by
      rw [← counts.rounded.value_le_iff left, counts.whole.value_eq]
      linarith
    exact passes (isNearlyWhole_of_le left right counts.rounded
      (counts.whole.unique counts'.whole) above le stays)
  rw [UInt64.le_iff_toNat_le, counts.toNat_eq, counts'.toNat_eq]
  split <;> split
  · omega
  · omega
  · rename_i passes stays
    have bound := crosses passes stays
    omega
  · omega

theorem toCount_le_toCount (left : x.IsUnsigned) (right : y.IsUnsigned) (le : x ≤ y) :
    x.toCount ≤ y.toCount := by
  by_cases finite : y.isFinite = true
  · have finite' : x.isFinite = true := by
      obtain ⟨p, hp, rfl⟩ := left
      obtain ⟨q, hq, rfl⟩ := right
      simp only [unsigned_le_unsigned, isFinite, decide_eq_true_eq] at le finite ⊢
      omega
    exact toCount_le_of_finite ⟨left, finite'⟩ ⟨right, finite⟩ le
  · have most := x.toCount.toNat_lt
    rw [right.eq_infinity (by simpa using finite), UInt64.le_iff_toNat_le, toNat_toCount_infinity]
    omega

end

end Binary64

namespace Task

variable {task : Task} {short long : Binary64}

theorem jobCount_le_jobCount (finite : task.period.isFinite = true) (le : short ≤ long) :
    task.jobCount short ≤ task.jobCount long := by
  by_cases none : task.period ≤ .zero ∨ short ≤ .zero
  · rw [jobCount, if_pos none, UInt64.le_iff_toNat_le]
    exact Nat.zero_le _
  · rw [not_or] at none
    obtain ⟨moving, lasting⟩ := none
    have lasting' : ¬ long ≤ .zero := fun ended => lasting (Binary64.le_trans le ended)
    obtain ⟨numberS, numberL⟩ := Binary64.isNumber_of_le le
    have unsignedS := Binary64.isUnsigned_of_pos numberS lasting
    have unsignedL := Binary64.isUnsigned_of_pos numberL lasting'
    obtain ⟨period, positive⟩ := Binary64.isMagnitude_of_pos finite moving
    rw [jobCount_of_moving moving lasting, jobCount_of_moving moving lasting']
    exact Binary64.toCount_le_toCount (unsignedS.div period positive)
      (unsignedL.div period positive)
      (Binary64.div_le_div_right unsignedS unsignedL period positive le)

/-- A longer span only appends jobs, up to an infinite one. -/
theorem longer_span_appends (origin : task.phase.isZero = true)
    (finite : task.period.isFinite = true) (le : short ≤ long) :
    task.jobCount short ≤ task.jobCount long ∧
      ∃ first second, task.releases short = .ok first ∧ task.releases long = .ok second ∧
        first.jobs <+: second.jobs := by
  have count := jobCount_le_jobCount finite le
  have released := releases_of_phase origin short
  have released' := releases_of_phase origin long
  refine ⟨count, _, _, released, released', ?_⟩
  rw [jobs_eq_of_releases released, jobs_eq_of_releases released', jobs_eq released,
    jobs_eq released']
  rw [UInt64.le_iff_toNat_le] at count
  obtain ⟨more, sum⟩ := Nat.exists_eq_add_of_le count
  rw [sum, List.range_add, List.map_append]
  exact List.prefix_append _ _

/-- The jobs in a unit of time of a task with a period of a tenth are the first of those that it has
without end. -/
theorem longer_span_appends_tenth :
    let task := Task.periodic 1 (.ofRatio false 1 10) (.point .one)
    (task.jobCount .one = 10 ∧ .one ≤ Binary64.infinity false) ∧
      ∃ first second, task.releases .one = .ok first ∧
        task.releases (.infinity false) = .ok second ∧ first.jobs <+: second.jobs := by
  intro task
  have count : task.jobCount .one = 10 := by decide +kernel
  have le : .one ≤ Binary64.infinity false := by decide +kernel
  have origin : task.phase.isZero = true := by decide
  have finite : task.period.isFinite = true := by decide +kernel
  exact ⟨⟨count, le⟩, (longer_span_appends origin finite le).2⟩

end Task

end PeriodicJobs
