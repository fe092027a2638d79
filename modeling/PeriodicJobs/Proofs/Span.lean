import PeriodicJobs.Proofs.Binary64.Overflow
import PeriodicJobs.Proofs.Repetition

set_option autoImplicit false

/- Hyperperiods at the end of the numbers. The ticks are checked to fit a word, but their length is
one more product, which may overflow to infinity and is accepted all the same. -/
namespace PeriodicJobs

open Binary64 (slack roundoff)

/-- The jobs are at most the ratio, with the rounding at the end of it. -/
theorem Task.jobCount_lt {task : Task} {span : Binary64} (moving : ¬ task.period ≤ .zero)
    (lasting : ¬ span ≤ .zero) (magnitude : (span / task.period).IsMagnitude) :
    ((task.jobCount span).toNat : ℚ) < (span / task.period).value + 1 := by
  obtain ⟨nearest, least, lower, _, _, upper, ways⟩ := jobCount_cases moving lasting magnitude
  have clamp (k : Nat) : ((min k (2 ^ 64 - 1) : Nat) : ℚ) ≤ k := by
    exact_mod_cast Nat.min_le_left k _
  rcases ways with ⟨_, count⟩ | ⟨_, count⟩ <;> rw [count]
  · exact lt_of_le_of_lt (clamp nearest) (by linarith)
  · exact lt_of_le_of_lt (clamp least) upper

/-- A task has hardly more jobs in a finite span than the span has ticks. -/
theorem Resolution.Covers.jobCount_le {resolution : Resolution} {task : Task}
    {count ticks : UInt64} {rounds : Nat} (covers : resolution.Covers task count ticks rounds) :
    ((task.jobCount (resolution.span ticks)).toNat : ℚ) ≤ (1 + 2 * slack) * ticks.toNat + 1 := by
  obtain ⟨magnitude, near⟩ := covers.ratio_spec
  have jobs := Task.jobCount_lt covers.moving covers.lasting magnitude
  have counted : 0 < count.toNat :=
    Nat.pos_of_mul_pos_left (covers.multiple ▸ covers.nonempty)
  have le : (rounds : ℚ) ≤ ticks.toNat := by
    have product := Nat.le_mul_of_pos_right rounds counted
    rw [covers.multiple] at product
    exact_mod_cast product
  have nonneg : (0 : ℚ) ≤ rounds := Nat.cast_nonneg rounds
  obtain ⟨_, high⟩ := abs_le.1 covers.deviates
  obtain ⟨_, high'⟩ := abs_le.1 near
  norm_num [slack, roundoff] at high high' ⊢
  have longer : rounds * (1 + resolution.deviation task count) ≤
      rounds * (1 + 1000001 / 1000000000000000) := by
    apply mul_le_mul_of_nonneg_left _ nonneg
    linarith
  linarith

namespace Hyperperiod

/-- A hyperperiod is a finite number just if the product of its ticks and the length of a tick is
one. Then a task has hardly more jobs in it than it has ticks, and otherwise as many as a word can
count. -/
theorem isFinite_value_iff {resolution : Resolution} {limit : Option Binary64} {tasks : List Task}
    {h : Hyperperiod} (done : ofTasks resolution limit tasks = .ok h) :
    (h.value.isFinite = true ↔
        (Binary64.ofUInt64 h.ticks).value * resolution.tick.value < Binary64.overflowBound) ∧
      (h.value.isFinite = true → ∀ task ∈ tasks,
        ((task.jobCount h.value).toNat : ℚ) ≤ (1 + 2 * slack) * h.ticks.toNat + 1) ∧
      (h.value.isFinite = false → ∀ task ∈ tasks,
        (task.jobCount h.value).toNat = 2 ^ 64 - 1) := by
  rcases counted_of_ok done with ⟨_, rfl⟩ | ⟨_, counts, made⟩
  · have none : Binary64.ofUInt64 0 = .zero := by decide +kernel
    have some : (0 : ℚ) < Binary64.overflowBound := by
      exact_mod_cast (show 0 < Binary64.overflowBound by decide +kernel)
    refine ⟨iff_of_true rfl ?_, ?_, ?_⟩
    · rw [degenerate, none, Binary64.isWhole_zero.value_eq, Nat.cast_zero, zero_mul]
      exact some
    · intro _ task _
      rw [degenerate, Task.jobCount_of_zero rfl task]
      norm_num
    · intro infinite
      cases infinite
  · refine ⟨?_, ?_, ?_⟩
    · rw [made.value]
      exact Binary64.isFinite_mul_iff (Binary64.isMagnitude_ofUInt64 h.ticks)
        resolution.isMagnitude_tick.1
    · intro finite task mem
      obtain ⟨count, rounds, _, covers⟩ := made.covers mem finite
      rw [made.value]
      exact covers.jobCount_le
    · intro infinite task mem
      obtain ⟨count, _, counted⟩ := made.exists_count mem
      obtain ⟨period, period_pos, _⟩ := Resolution.ticks_spec counted
      exact Task.jobCount_of_infinite period period_pos made.isUnsigned_value infinite

/-- A tick of 10^307 units of time. -/
def hugeTick : Resolution := ⟨.ofNat (Nat.pow 10 307), by decide +kernel⟩

def hugeTask (id : UInt64) (n : Nat) : Task :=
  .periodic id (.ofNat (n * Nat.pow 10 307)) (.point .one)

theorem ofTasks_huge {a b ticks : UInt64} (counted : hugeTick.ticks (hugeTask 1 a.toNat) = .ok a)
    (counted' : hugeTick.ticks (hugeTask 2 b.toNat) = .ok b)
    (moving : Moving [hugeTask 1 a.toNat, hugeTask 2 b.toNat]) (increasing : a < b)
    (multiple : Ticks.lcmAll [a, b] = .ok ticks) :
    ofTasks hugeTick none [hugeTask 1 a.toNat, hugeTask 2 b.toNat] = .ok {
      value := hugeTick.span ticks
      ticks
      uniquePeriods := [a, b].map hugeTick.span
      taskCount := 2 } :=
  ofTasks_of_increasing moving (.cons counted (.cons counted' .nil)) (by simpa using increasing)
    multiple

/-- Two and three huge ticks have a finite hyperperiod of six. -/
theorem isFinite_value_iff_six : ∃ h,
    ofTasks hugeTick none [hugeTask 1 2, hugeTask 2 3] = .ok h ∧
      (Binary64.ofUInt64 h.ticks).value * hugeTick.tick.value < Binary64.overflowBound ∧
      h.value.isFinite = true := by
  have multiple : Ticks.lcmAll [2, 3] = .ok 6 := by decide +kernel
  have done := ofTasks_huge (a := 2) (b := 3) (by decide +kernel) (by decide +kernel)
    ⟨by simp, by decide +kernel⟩ (by decide) multiple
  have finite : (hugeTick.span 6).isFinite = true := by decide +kernel
  exact ⟨_, done, (isFinite_value_iff done).1.1 finite, finite⟩

/-- Seven and ten huge ticks have a hyperperiod of seventy that is infinite but accepted, and over
it the jobs of either task do not end before a word does. -/
theorem infinite_value_accepted : ∃ h,
    ofTasks hugeTick none [hugeTask 1 7, hugeTask 2 10] = .ok h ∧
      (∀ task ∈ [hugeTask 1 7, hugeTask 2 10], task.period.isFinite = true) ∧
      h.ticks = 70 ∧ h.value = .infinity false ∧
      ((hugeTask 1 7).jobCount h.value).toNat = 2 ^ 64 - 1 := by
  have multiple : Ticks.lcmAll [7, 10] = .ok 70 := by decide +kernel
  have done := ofTasks_huge (a := 7) (b := 10) (by decide +kernel) (by decide +kernel)
    ⟨by simp, by decide +kernel⟩ (by decide) multiple
  exact ⟨_, done, by decide +kernel, rfl, by decide +kernel, by decide +kernel⟩

end Hyperperiod

end PeriodicJobs
