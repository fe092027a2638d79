import PeriodicJobs.Proofs.Binary64.Monotone
import PeriodicJobs.Proofs.Tolerance

set_option autoImplicit false

/- How many jobs a ratio of span and period gives: a ratio near a whole number on either side of it,
and what a ratio can be that gives a certain number. -/
namespace PeriodicJobs

theorem le_of_lt_add_one {m n : Nat} (below : (m : ℚ) < n + 1) : m ≤ n :=
  Nat.lt_succ_iff.1 (by exact_mod_cast below)

/-- Whole numbers that are less than one apart are the same. -/
theorem eq_of_lt_add_one {m n : Nat} (above : (m : ℚ) < n + 1) (below : (n : ℚ) < m + 1) :
    m = n :=
  Nat.le_antisymm (le_of_lt_add_one above) (le_of_lt_add_one below)

namespace Binary64

/-- A number as a count: the whole number that it nearly is, or else the next one above it. -/
def toCount (x : Binary64) : UInt64 :=
  if x.isNearlyWhole then x.round.toUInt64 else x.ceil.toUInt64

/-- Infinity is not near to any number, and it is cut off at the largest word. -/
theorem toNat_toCount_infinity : (infinity false).toCount.toNat = 2 ^ 64 - 1 := by
  have notNear : ¬ (infinity false).isNearlyWhole = true := fun near =>
    absurd (isFinite_of_isNearlyWhole near) (by decide)
  rw [toCount, if_neg notNear, infinity, ofPlace_place false (Nat.le_refl _), ceil, if_pos rfl,
    toUInt64, if_pos rfl]
  rfl

/-- The whole numbers around a finite one, and which of them is its count. -/
structure Counts (x : Binary64) (nearest least : Nat) : Prop where
  magnitude : x.IsMagnitude
  whole : x.round.IsWhole nearest
  rounded : x.round.IsMagnitude
  nearest_le : (nearest : ℚ) ≤ x.value + 1 / 2
  lt_nearest : x.value + 1 / 2 < nearest + 1
  le_least : x.value ≤ least
  least_lt : (least : ℚ) < x.value + 1
  toNat_eq : x.toCount.toNat = min (if x.isNearlyWhole then nearest else least) (2 ^ 64 - 1)

theorem exists_counts {x : Binary64} (magnitude : x.IsMagnitude) :
    ∃ nearest least, x.Counts nearest least := by
  obtain ⟨nearest, whole, rounded, nearest_le, lt_nearest⟩ := round_spec magnitude
  obtain ⟨least, whole', le_least, least_lt⟩ := ceil_spec magnitude
  refine ⟨nearest, least, magnitude, whole, rounded, nearest_le, lt_nearest, le_least, least_lt,
    ?_⟩
  rw [toCount]
  split
  · exact whole.toNat_toUInt64
  · exact whole'.toNat_toUInt64

section

variable {x : Binary64} {nearest least : Nat} (counts : x.Counts nearest least)

include counts

theorem Counts.close (near : x.isNearlyWhole = true) :
    |x.value - nearest| ≤ slack * (1 + band) * (Max.max nearest 1 : Nat) :=
  close_of_isNearlyWhole counts.magnitude counts.whole counts.rounded near

theorem Counts.far (notNear : ¬ x.isNearlyWhole = true) :
    slack * (1 - band) * (Max.max nearest 1 : Nat) < |x.value - nearest| := by
  apply lt_of_not_ge
  intro close
  exact notNear (isNearlyWhole_of_close counts.magnitude counts.whole counts.rounded close)

/-- A count below the largest word is not cut off. -/
theorem Counts.eq_or_eq (fits : x.toCount.toNat < 2 ^ 64 - 1) :
    x.isNearlyWhole = true ∧ nearest = x.toCount.toNat ∨
      ¬ x.isNearlyWhole = true ∧ least = x.toCount.toNat := by
  have count := counts.toNat_eq
  split at count
  · rename_i near
    exact Or.inl ⟨near, by omega⟩
  · rename_i notNear
    exact Or.inr ⟨notNear, by omega⟩

end

end Binary64

namespace Task

variable {task : Task} {span : Binary64}

theorem jobCount_of_moving (moving : ¬ task.period ≤ .zero) (lasting : ¬ span ≤ .zero) :
    task.jobCount span = (span / task.period).toCount := by
  rw [jobCount, if_neg (by simp only [moving, lasting, or_self, not_false_eq_true])]
  rfl

/-- Over an infinite span the count of jobs is the largest word. -/
theorem jobCount_of_infinite (period : task.period.IsMagnitude)
    (period_pos : 0 < task.period.value) (unsigned : span.IsUnsigned)
    (infinite : span.isFinite = false) : (task.jobCount span).toNat = 2 ^ 64 - 1 := by
  have moving : ¬ task.period ≤ .zero := by
    rw [period.le_zero_iff, not_le]
    exact period_pos
  have lasting : ¬ Binary64.infinity false ≤ .zero := by decide
  rw [unsigned.eq_infinity infinite, jobCount_of_moving moving lasting,
    Binary64.infinity_div period, Binary64.toNat_toCount_infinity]

variable (moving : ¬ task.period ≤ .zero) (lasting : ¬ span ≤ .zero)
  (magnitude : (span / task.period).IsMagnitude) {rounds : Nat}

include moving lasting magnitude

/-- The jobs are the whole number nearest to the ratio, which is then not clearly out of the
tolerance, or the least one above it, and then the nearest is not clearly within the tolerance. -/
theorem jobCount_cases : ∃ nearest least : Nat,
    (nearest : ℚ) ≤ (span / task.period).value + 1 / 2 ∧
      (span / task.period).value + 1 / 2 < nearest + 1 ∧
      (span / task.period).value ≤ least ∧ (least : ℚ) < (span / task.period).value + 1 ∧
      (|(span / task.period).value - nearest| ≤
            Binary64.slack * (1 + Binary64.band) * (max nearest 1 : Nat) ∧
          (task.jobCount span).toNat = min nearest (2 ^ 64 - 1) ∨
        Binary64.slack * (1 - Binary64.band) * (max nearest 1 : Nat) <
            |(span / task.period).value - nearest| ∧
          (task.jobCount span).toNat = min least (2 ^ 64 - 1)) := by
  obtain ⟨nearest, least, counts⟩ := Binary64.exists_counts magnitude
  refine ⟨nearest, least, counts.nearest_le, counts.lt_nearest, counts.le_least, counts.least_lt,
    ?_⟩
  rw [jobCount_of_moving moving lasting, counts.toNat_eq]
  split
  · rename_i near
    exact Or.inl ⟨counts.close near, rfl⟩
  · rename_i notNear
    exact Or.inr ⟨counts.far notNear, rfl⟩

/-- A ratio less than a half off counts as the whole number, if it is below it or clearly within the
tolerance. -/
theorem jobCount_of_close (positive : 0 < rounds) (most : rounds < 2 ^ 64)
    (close : |(span / task.period).value - rounds| < 1 / 2)
    (within : (rounds : ℚ) < (span / task.period).value →
      (span / task.period).value - rounds ≤
        Binary64.slack * (1 - Binary64.band) * rounds) :
    (task.jobCount span).toNat = rounds := by
  obtain ⟨nearest, least, lower, upper, lower', upper', ways⟩ :=
    jobCount_cases moving lasting magnitude
  obtain ⟨above, below⟩ := abs_lt.1 close
  have same : nearest = rounds := by
    apply eq_of_lt_add_one
    · linarith
    · linarith
  rcases ways with ⟨_, count⟩ | ⟨far, count⟩
  · rw [count, same, Nat.min_eq_left (by omega)]
  · -- A ratio above would have passed the test, so this one is not above.
    have notAbove : (span / task.period).value ≤ rounds := by
      by_contra exceeds
      rw [same, Nat.max_eq_left (by omega), abs_of_pos (by linarith)] at far
      exact absurd (within (by linarith)) (not_le_of_gt far)
    have same' : least = rounds := by
      apply eq_of_lt_add_one
      · linarith
      · linarith
    rw [count, same', Nat.min_eq_left (by omega)]

/-- A ratio between two whole numbers counts as one of them, and as the upper one if it reaches the
half or is clearly out of the tolerance of the lower one. -/
theorem jobCount_of_between (word : rounds + 1 < 2 ^ 64)
    (low : (rounds : ℚ) ≤ (span / task.period).value)
    (high : (span / task.period).value ≤ rounds + 1) :
    ((task.jobCount span).toNat = rounds ∨ (task.jobCount span).toNat = rounds + 1) ∧
      (rounds + 1 / 2 ≤ (span / task.period).value ∨
        Binary64.slack * (1 + Binary64.band) * (max rounds 1 : Nat) <
          (span / task.period).value - rounds →
        (task.jobCount span).toNat = rounds + 1) := by
  obtain ⟨nearest, least, lower, upper, lower', upper', ways⟩ :=
    jobCount_cases moving lasting magnitude
  have next : ((rounds + 1 : Nat) : ℚ) = rounds + 1 := by
    push_cast
    rfl
  rcases ways with ⟨close, count⟩ | ⟨_, count⟩ <;> rw [count]
  · by_cases half : rounds + 1 / 2 ≤ (span / task.period).value
    · have same : nearest = rounds + 1 := by
        apply eq_of_lt_add_one <;> rw [next] <;> linarith
      rw [same, Nat.min_eq_left (by omega)]
      exact ⟨Or.inr rfl, fun _ => rfl⟩
    · have same : nearest = rounds := by
        apply eq_of_lt_add_one <;> linarith
      rw [same, abs_of_nonneg (by linarith)] at close
      rw [same, Nat.min_eq_left (by omega)]
      refine ⟨Or.inl rfl, fun clear => ?_⟩
      rcases clear with reached | far
      · exact absurd reached half
      · exact absurd far (not_lt_of_ge close)
  · by_cases above : (rounds : ℚ) < (span / task.period).value
    · have same : least = rounds + 1 := by
        apply eq_of_lt_add_one <;> rw [next] <;> linarith
      rw [same, Nat.min_eq_left (by omega)]
      exact ⟨Or.inr rfl, fun _ => rfl⟩
    · have same : least = rounds := by
        apply eq_of_lt_add_one <;> linarith
      rw [same, Nat.min_eq_left (by omega)]
      refine ⟨Or.inl rfl, fun clear => ?_⟩
      have scale : (0 : ℚ) ≤ (max rounds 1 : Nat) := Nat.cast_nonneg _
      have allowance : 0 ≤ Binary64.slack * (1 + Binary64.band) * (max rounds 1 : Nat) :=
        mul_nonneg (by norm_num [Binary64.slack, Binary64.band]) scale
      rcases clear with reached | far <;> linarith

/-- A ratio that counts as a whole number is either close to it on both measures, or below it and
not close to the number before. -/
theorem close_of_jobCount (two : 1 < rounds) (most : rounds < 2 ^ 64 - 1)
    (count : (task.jobCount span).toNat = rounds) :
    |(span / task.period).value - rounds| ≤
        Binary64.slack * (1 + Binary64.band) * rounds ∧
      |(span / task.period).value - rounds| ≤ 1 / 2 ∨
    (span / task.period).value ≤ rounds ∧
      ((span / task.period).value < rounds - 1 / 2 →
        Binary64.slack * (1 - Binary64.band) * (rounds - 1) <
          (span / task.period).value - (rounds - 1)) := by
  obtain ⟨nearest, least, lower, upper, lower', upper', ways⟩ :=
    jobCount_cases moving lasting magnitude
  rw [count] at ways
  rcases ways with ⟨close, counted⟩ | ⟨far, counted⟩
  · have same : nearest = rounds := by omega
    rw [same] at lower upper
    rw [same, Nat.max_eq_left (by omega)] at close
    refine Or.inl ⟨close, abs_le.2 ⟨?_, ?_⟩⟩ <;> linarith
  · have same : least = rounds := by omega
    rw [same] at lower' upper'
    apply Or.inr
    refine ⟨lower', ?_⟩
    intro below
    have cast : ((rounds - 1 : Nat) : ℚ) = rounds - 1 := by
      rw [Nat.cast_sub two.le, Nat.cast_one]
    have before : nearest = rounds - 1 := by
      apply eq_of_lt_add_one
      · linarith
      · linarith
    rw [before, Nat.max_eq_left (by omega), cast, abs_of_pos (by linarith)] at far
    exact far

end Task

end PeriodicJobs
