import PeriodicJobs.Proofs.JobCount
import PeriodicJobs.Proofs.Releases

set_option autoImplicit false

/- The instants of releases. They are rounded products, while the count of jobs comes from a rounded
quotient. Up to 2^50 jobs a ratio that counts for one more job is farther above the whole number
than the roundings reach, so the last release is still inside of the span. -/
namespace PeriodicJobs

open Binary64 (slack roundoff tolerance IsNear)

namespace Binary64

variable {x : Binary64} (magnitude : x.IsMagnitude) (few : x.toCount.toNat ≤ 2 ^ 50)

include magnitude few

/-- A number is above all whole numbers that it counts for, with room for some roundings. -/
theorem le_of_lt_toCount {n : Nat} (more : n < x.toCount.toNat) :
    n * (1 + 4 * roundoff) ≤ x.value := by
  obtain ⟨nearest, least, counts⟩ := exists_counts magnitude
  have small : (n : ℚ) ≤ 2 ^ 50 := by exact_mod_cast Nat.le_trans more.le few
  have next : (n : ℚ) + 1 ≤ x.toCount.toNat := by exact_mod_cast more
  by_cases half : (n : ℚ) + 1 / 2 ≤ x.value
  · norm_num [roundoff]
    linarith
  · rcases counts.eq_or_eq (by omega) with ⟨_, same⟩ | ⟨notNear, same⟩ <;> rw [← same] at next
    · linarith [counts.nearest_le]
    · -- The number before is the nearest, and it was not near enough to be taken.
      have before : nearest = n := by
        apply eq_of_lt_add_one
        · linarith [counts.nearest_le]
        · linarith [counts.lt_nearest, counts.least_lt]
      have far := counts.far notNear
      rw [before, abs_of_pos (by linarith [counts.least_lt])] at far
      have scale : (n : ℚ) ≤ (Max.max n 1 : Nat) := by exact_mod_cast Nat.le_max_left n 1
      generalize ((Max.max n 1 : Nat) : ℚ) = allowed at far scale
      norm_num [slack, band] at far
      norm_num [roundoff]
      linarith

theorem lt_toCount_add_one : x.value < x.toCount.toNat + 1 := by
  obtain ⟨nearest, least, counts⟩ := exists_counts magnitude
  rcases counts.eq_or_eq (by omega) with ⟨_, same⟩ | ⟨_, same⟩ <;> rw [← same]
  · linarith [counts.lt_nearest]
  · linarith [counts.le_least]

/-- A number that is not below its count was rounded down to it, within the tolerance. -/
theorem near_of_toCount_le (reached : (x.toCount.toNat : ℚ) ≤ x.value) :
    x.round.IsWhole x.toCount.toNat ∧
      |x.value - x.toCount.toNat| ≤ tolerance.value * (Max.max x.toCount.toNat 1 : Nat) := by
  have below := lt_toCount_add_one magnitude few
  obtain ⟨nearest, least, counts⟩ := exists_counts magnitude
  rcases counts.eq_or_eq (by omega) with ⟨near, same⟩ | ⟨notNear, same⟩
  · have whole := counts.whole
    rw [same] at whole
    rw [abs_of_nonneg (sub_nonneg.2 reached)]
    exact ⟨whole, sub_le_tolerance magnitude whole counts.rounded near few reached below⟩
  · -- A number that is rounded up to its count and not below it is whole, and passes the test.
    rw [← same] at reached
    have exact_ : x.value = least := le_antisymm counts.le_least reached
    have nearest_eq : nearest = least := by
      apply eq_of_lt_add_one
      · linarith [counts.nearest_le]
      · linarith [counts.lt_nearest]
    have far := counts.far notNear
    rw [nearest_eq, exact_, sub_self, abs_zero] at far
    exact absurd far (not_lt_of_ge (mul_nonneg (by norm_num [slack, band]) (Nat.cast_nonneg _)))

end Binary64

namespace Task

variable {task : Task} {span : Binary64}

/-- A task that moves and a finite span with at most 2^50 jobs of it. -/
structure Fits (task : Task) (span : Binary64) : Prop where
  period : task.period.IsMagnitude
  period_pos : 0 < task.period.value
  finite : span.IsMagnitude
  span_pos : 0 < span.value
  few : (task.jobCount span).toNat ≤ 2 ^ 50

namespace Fits

variable (fits : task.Fits span) {n : Nat}

include fits

theorem jobCount_eq : task.jobCount span = (span / task.period).toCount := by
  apply jobCount_of_moving
  · rw [fits.period.le_zero_iff, not_le]
    exact fits.period_pos
  · rw [fits.finite.le_zero_iff, not_le]
    exact fits.span_pos

theorem few_toCount : (span / task.period).toCount.toNat ≤ 2 ^ 50 := by
  rw [← fits.jobCount_eq]
  exact fits.few

theorem isMagnitude_ratio : (span / task.period).IsMagnitude := by
  have unsigned := fits.finite.1.div fits.period fits.period_pos
  refine ⟨unsigned, ?_⟩
  by_contra infinite
  have few := fits.few_toCount
  rw [unsigned.eq_infinity (by simpa using infinite), Binary64.toNat_toCount_infinity] at few
  omega

/-- The exact product lies inside of the span, with room for some roundings. -/
theorem periods_le (more : n < (task.jobCount span).toNat) :
    n * task.period.value * (1 + 2 * roundoff) ≤ span.value := by
  have period_pos := fits.period_pos
  have ratio := fits.isMagnitude_ratio
  rw [fits.jobCount_eq] at more
  have above := Binary64.le_of_lt_toCount ratio fits.few_toCount more
  rcases Nat.eq_zero_or_pos n with rfl | positive
  · rw [Nat.cast_zero, zero_mul, zero_mul]
    exact fits.span_pos.le
  · have some : (1 : ℚ) ≤ n := by exact_mod_cast positive
    have enough : task.period.value ≤ 4 * span.value := by
      apply Binary64.le_of_quarter_lt_div fits.finite fits.period period_pos
      norm_num [roundoff] at above
      linarith
    have near := Binary64.isNear_div fits.finite fits.period period_pos
      (by linarith [fits.span_pos]) ratio.2
    obtain ⟨_, high⟩ := abs_le.1 near
    have exact_ : n * (1 + 2 * roundoff) ≤ span.value / task.period.value := by
      norm_num [roundoff] at above high ⊢
      linarith
    rw [le_div_iff₀ period_pos] at exact_
    linarith

theorem release_spec (more : n < (task.jobCount span).toNat) :
    (task.release n).IsMagnitude ∧
      IsNear roundoff (task.release n).value (n * task.period.value) := by
  have few := fits.few
  have whole : (Binary64.ofNat n).IsWhole n := Binary64.isWhole_ofNat (by omega)
  have factor := Binary64.isMagnitude_of_whole whole (by omega)
  have nonneg : 0 ≤ n * task.period.value := mul_nonneg n.cast_nonneg fits.period_pos.le
  have inside := fits.periods_le more
  have product : (Binary64.ofNat n).value * task.period.value ≤ span.value := by
    rw [whole.value_eq]
    norm_num [roundoff] at inside
    linarith
  have magnitude := (Binary64.value_mul_le factor fits.period fits.finite product).1
  have near := Binary64.isNear_mul factor fits.period (Or.inl ⟨n, whole⟩) magnitude.2
  rw [whole.value_eq] at near
  exact ⟨magnitude, near⟩

theorem release_lt_span (more : n < (task.jobCount span).toNat) : task.release n < span := by
  obtain ⟨magnitude, near⟩ := fits.release_spec more
  obtain ⟨_, high⟩ := abs_le.1 near
  have inside := fits.periods_le more
  have span_pos := fits.span_pos
  have nonneg : 0 ≤ n * task.period.value := mul_nonneg n.cast_nonneg fits.period_pos.le
  rw [← magnitude.value_lt_iff fits.finite]
  norm_num [roundoff] at high inside
  linarith

/-- The roundings of two releases are less than a period together. -/
theorem release_lt_release {earlier : Nat} (before : earlier < n)
    (more : n < (task.jobCount span).toNat) : task.release earlier < task.release n := by
  obtain ⟨magnitude, near⟩ := fits.release_spec more
  obtain ⟨magnitude', near'⟩ := fits.release_spec (before.trans more)
  obtain ⟨low, _⟩ := abs_le.1 near
  obtain ⟨_, high⟩ := abs_le.1 near'
  have few := fits.few
  have period_pos := fits.period_pos
  have next : (earlier + 1) * task.period.value ≤ n * task.period.value := by
    apply mul_le_mul_of_nonneg_right _ period_pos.le
    exact_mod_cast before
  have most : n * task.period.value ≤ 2 ^ 50 * task.period.value := by
    apply mul_le_mul_of_nonneg_right _ period_pos.le
    exact_mod_cast more.le.trans few
  rw [← magnitude'.value_lt_iff magnitude]
  norm_num [roundoff] at low high most
  linarith

/-- Only the instant at the end of the jobs can be inside of the span without a release. -/
theorem unreleased (behind : (task.jobCount span).toNat ≤ n)
    (inside : n * task.period.value < span.value) :
    n = (task.jobCount span).toNat ∧ (span / task.period).round.IsWhole n ∧
      |(span / task.period).value - n| ≤ tolerance.value * (max n 1 : Nat) := by
  have ratio := fits.isMagnitude_ratio
  have few := fits.few_toCount
  have below := Binary64.lt_toCount_add_one ratio few
  rw [fits.jobCount_eq] at behind ⊢
  have reaches (m : Nat) (le : m ≤ n) (small : m ≤ 2 ^ 53) :
      (m : ℚ) ≤ (span / task.period).value := by
    have product : (m : ℚ) * task.period.value ≤ n * task.period.value := by
      apply mul_le_mul_of_nonneg_right _ fits.period_pos.le
      exact_mod_cast le
    exact Binary64.natCast_le_value_div fits.finite fits.period fits.period_pos ratio.2 small
      (by linarith)
  have same : n = (span / task.period).toCount.toNat := by
    by_contra beyond
    have next := reaches ((span / task.period).toCount.toNat + 1) (by omega) (by omega)
    rw [Nat.cast_add_one] at next
    linarith
  refine ⟨same, ?_⟩
  rw [same]
  exact Binary64.near_of_toCount_le ratio few (reaches _ behind (by omega))

end Fits

theorem release_zero (period : task.period.IsMagnitude) : task.release 0 = .zero := by
  have whole : (Binary64.ofNat 0).IsWhole 0 := Binary64.isWhole_ofNat (Nat.zero_le _)
  obtain ⟨p, h, same, below⟩ := period.exists_place
  have zero : Binary64.ofNat 0 = .zero := whole.unique Binary64.isWhole_zero
  rw [release, zero, Binary64.zero, Binary64.ofPlace_place false (Nat.zero_le _), same,
    Binary64.mul_number (by decide) below, Binary64.unitsAt_zero, Nat.zero_mul, Binary64.ofUnits,
    Binary64.nearestPlace_zero, Binary64.ofPlace_place false (Nat.zero_le _)]

def instants (task : Task) (span : Binary64) : List Binary64 :=
  (List.range (task.jobCount span).toNat).map task.release

/-- Up to 2^50 jobs are released one after the other, from the origin on and inside of the span. The
only multiple of the period in the span without a release is the one after the last release, and
then the ratio was within the tolerance of its number. -/
theorem releases_stay_inside (origin : task.phase.isZero = true)
    (finite : task.period.isFinite = true) (moving : .zero < task.period)
    (ending : span.isFinite = true) (lasting : .zero < span)
    (few : (task.jobCount span).toNat ≤ 2 ^ 50) :
    ∃ releases, task.releases span = .ok releases ∧ task.IsSequence span releases.jobs ∧
      (task.instants span).Pairwise (· < ·) ∧
      (∀ first ∈ (task.instants span).head?, first = .zero) ∧
      (∀ instant ∈ task.instants span, instant < span) ∧
      ∀ n : Nat, (task.jobCount span).toNat ≤ n → n * task.period.value < span.value →
        n = (task.jobCount span).toNat ∧ (span / task.period).round.IsWhole n ∧
          |(span / task.period).value - n| ≤ tolerance.value * (max n 1 : Nat) := by
  obtain ⟨period, period_pos⟩ := Binary64.isMagnitude_of_pos finite
    fun still => Binary64.not_lt_of_le still moving
  obtain ⟨magnitude, span_pos⟩ := Binary64.isMagnitude_of_pos ending
    fun ended => Binary64.not_lt_of_le ended lasting
  have fits : task.Fits span := ⟨period, period_pos, magnitude, span_pos, few⟩
  have released := releases_of_phase origin span
  have sequence := isSequence_jobs released
  rw [← jobs_eq_of_releases released] at sequence
  refine ⟨_, released, sequence, ?_, ?_, ?_, fun n => fits.unreleased⟩
  · rw [instants, List.pairwise_map]
    refine List.pairwise_lt_range.imp_of_mem ?_
    intro earlier n _ inside before
    exact fits.release_lt_release before (List.mem_range.1 inside)
  · intro first isFirst
    rw [instants, List.head?_map, Option.mem_map] at isFirst
    obtain ⟨n, isHead, rfl⟩ := isFirst
    rw [List.head?_range] at isHead
    split at isHead
    · cases isHead
    · cases isHead
      exact release_zero period
  · intro instant mem
    obtain ⟨n, inside, rfl⟩ := List.mem_map.1 mem
    exact fits.release_lt_span (List.mem_range.1 inside)

/-- Seven tenths are rounded down, so ten of them are less than seven units. But the ratio is rounded
to ten, and no eleventh job is released at the end of the span. -/
theorem releases_stay_inside_seven :
    let task := Task.periodic 1 (.ofRatio false 7 10) (.point .one)
    let span := Binary64.ofNat 7
    ((task.jobCount span).toNat = 10 ∧ (10 : Nat) * task.period.value < span.value) ∧
      (task.instants span).Pairwise (· < ·) ∧ (∀ instant ∈ task.instants span, instant < span) ∧
        (span / task.period).round.IsWhole 10 := by
  intro task span
  have count : (task.jobCount span).toNat = 10 := by decide +kernel
  have early : (10 : Nat) * task.period.value < span.value := by decide +kernel
  have origin : task.phase.isZero = true := by decide
  have finite : task.period.isFinite = true := by decide +kernel
  have moving : .zero < task.period := by decide +kernel
  have ending : span.isFinite = true := by decide +kernel
  have lasting : .zero < span := by decide +kernel
  obtain ⟨_, _, _, rising, _, inside, last⟩ :=
    releases_stay_inside origin finite moving ending lasting (by omega)
  exact ⟨⟨count, early⟩, rising, inside, (last 10 count.le early).2.1⟩

end Task

end PeriodicJobs
