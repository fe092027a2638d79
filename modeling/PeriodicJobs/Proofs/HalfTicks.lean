import Mathlib.Data.Nat.Prime.Basic
import PeriodicJobs.Proofs.Binary64.Monotone
import PeriodicJobs.Proofs.Ceiling
import PeriodicJobs.Proofs.CommonMultiple

set_option autoImplicit false

/- Periods halfway between two ticks. Such a quotient is exact, and it rounds to the tick above. The
half that is left over is compared with a tolerance that grows with the count of ticks, so it is
refused up to a certain count and taken for rounding noise from there on. -/
namespace PeriodicJobs

namespace Binary64

theorem isMagnitude_of_value_pos {x : Binary64} (finite : x.isFinite = true)
    (positive : 0 < x.value) : x.IsMagnitude := by
  refine ⟨?_, finite⟩
  cases x with
  | nan => cases finite
  | number s p h =>
    cases s with
    | false => exact ⟨p, h, rfl⟩
    | true =>
      refine absurd positive (not_lt.2 ?_)
      rw [value, signedUnits, if_pos rfl, Int.cast_neg, neg_div, neg_nonpos]
      exact div_nonneg (Int.cast_nonneg (Int.natCast_nonneg _)) units_pos.le

/-- Twice a fraction that is exactly between two whole numbers is odd. -/
theorem two_mul_of_half {num den n : Nat} (positive : 0 < den)
    (between : (num / den : ℚ) = n + 1 / 2) : 2 * num = (2 * n + 1) * den := by
  have den_pos : (0 : ℚ) < den := by exact_mod_cast positive
  rw [div_eq_iff den_pos.ne'] at between
  have doubled : (2 * num : ℚ) = (2 * n + 1) * den := by
    rw [between]
    ring
  exact_mod_cast doubled

/-- An odd number that divides a number of the format divides its significand. -/
theorem odd_lt_of_dvd {odd p : Nat} (isOdd : Odd odd) (positive : 0 < unitsAt p)
    (dvd : odd ∣ 2 * unitsAt p) : odd < 2 ^ 53 := by
  have coprime : Nat.Coprime odd (2 ^ (doublings p + 1)) :=
    Nat.Coprime.pow_right _ (Nat.coprime_two_right.2 isOdd)
  have split : 2 * unitsAt p = significand p * 2 ^ (doublings p + 1) := by
    rw [unitsAt_eq, Nat.pow_succ]
    ring
  rw [split] at dvd
  have some : 0 < significand p := by
    rw [unitsAt_eq] at positive
    exact Nat.pos_of_mul_pos_right positive
  exact Nat.lt_of_le_of_lt (Nat.le_of_dvd some (coprime.dvd_of_dvd_mul_right dvd))
    (significand_lt p)

def half : Binary64 := .ofRatio false 1 2

section

variable {x y : Binary64} {n : Nat}

/-- A quotient of numbers of the format that is exactly between two whole numbers has only 53
bits. -/
theorem lt_of_half_div (left : x.IsMagnitude) (right : y.IsMagnitude) (positive : 0 < y.value)
    (between : x.value / y.value = n + 1 / 2) : n < 2 ^ 52 := by
  obtain ⟨p, hp, rfl, _⟩ := left.exists_place
  obtain ⟨q, hq, rfl, _⟩ := right.exists_place
  have divisor := value_pos_iff.1 positive
  have twice : 2 * unitsAt p = (2 * n + 1) * unitsAt q := by
    rw [value_number, value_number, div_div_div_cancel_right₀ units_pos.ne'] at between
    exact two_mul_of_half divisor between
  have dividend : 0 < unitsAt p := by
    have product : 0 < (2 * n + 1) * unitsAt q := Nat.mul_pos (Nat.succ_pos _) divisor
    omega
  have bits := odd_lt_of_dvd (odd_two_mul_add_one n) dividend (twice ▸ Nat.dvd_mul_right _ _)
  omega

/-- Such a quotient is not rounded. -/
theorem value_half_div (left : x.IsMagnitude) (right : y.IsMagnitude) (positive : 0 < y.value)
    (between : x.value / y.value = n + 1 / 2) :
    (x / y).IsMagnitude ∧ (x / y).value = n + 1 / 2 := by
  have small := lt_of_half_div left right positive between
  have exact_ := (div_eq_iff positive.ne').1 between
  obtain ⟨w, magnitude, same⟩ := exists_half small
  rw [← same] at exact_ ⊢
  have range : w.value ≤ 2 ^ 66 := by
    have upper : (n : ℚ) ≤ 2 ^ 52 := by exact_mod_cast small.le
    rw [same]
    linarith
  have quotient := isMagnitude_div left right positive
    (exact_ ▸ mul_le_mul_of_nonneg_right range positive.le)
  refine ⟨quotient, le_antisymm ?_ ?_⟩
  · exact value_div_le left right magnitude positive exact_.le
  · exact le_value_div left right magnitude positive quotient.2 exact_.ge

theorem round_of_half (magnitude : x.IsMagnitude) (between : x.value = n + 1 / 2) :
    x.round.IsWhole (n + 1) := by
  obtain ⟨m, whole, _, lower, upper⟩ := round_spec magnitude
  rw [between] at lower upper
  have most : m ≤ n + 1 := by
    have bound : (m : ℚ) ≤ (n + 1 : Nat) := by
      push_cast
      linarith
    exact_mod_cast bound
  have least : n + 1 ≤ m := by
    have bound : ((n + 1 : Nat) : ℚ) < (m + 1 : Nat) := by
      push_cast
      linarith
    exact Nat.lt_succ_iff.1 (by exact_mod_cast bound)
  rwa [Nat.le_antisymm least most]

theorem abs_sub_round_of_half (magnitude : x.IsMagnitude) (small : n < 2 ^ 52)
    (between : x.value = n + 1 / 2) : (x - x.round).abs = half := by
  obtain ⟨p, hp, rfl, below⟩ := magnitude.exists_place
  obtain ⟨q, hq, same, units⟩ := round_of_half magnitude between
  have twice := two_mul_of_half unitsPerOne_pos (value_number ▸ between)
  have rest : 2 * ((unitsAt p : Int) - unitsAt q).natAbs = unitsPerOne := by
    have split : 2 * unitsAt q = (2 * n + 1) * unitsPerOne + unitsPerOne := by
      rw [units]
      ring
    omega
  have quotient : ((unitsAt p : Int) - unitsAt q).natAbs * 2 = 1 * unitsPerOne * 1 := by omega
  rw [same, abs_sub_number below (place_lt_infinity units (by omega)), half, ofRatio, ofUnits,
    ofUnits, nearestPlace_congr Nat.one_pos Nat.two_pos quotient]

/-- A half is within the tolerance of a whole number from five hundred millions on. -/
theorem half_le_tolerance_iff (small : n ≤ 2 ^ 53) :
    half ≤ tolerance * ofNat n ↔ 500000000 ≤ n := by
  have magnitude {m : Nat} (small : m ≤ 2 ^ 53) : (ofNat m).IsMagnitude :=
    isMagnitude_of_whole (isWhole_ofNat small) small
  have grow {m m' : Nat} (le : m ≤ m') (small : m' ≤ 2 ^ 53) :
      tolerance * ofNat m ≤ tolerance * ofNat m' :=
    mul_le_mul_left (magnitude (by omega)) (magnitude small) isMagnitude_tolerance
      (ofNat_le_ofNat le)
  constructor
  · intro within
    by_contra less
    have clear : ¬ half ≤ tolerance * ofNat 499999999 := by decide +kernel
    exact clear (Binary64.le_trans within (grow (by omega) (by decide)))
  · intro many
    have edge : half ≤ tolerance * ofNat 500000000 := by decide +kernel
    exact Binary64.le_trans edge (grow many small)

theorem isNearlyWhole_half_iff (magnitude : x.IsMagnitude) (small : n < 2 ^ 52)
    (between : x.value = n + 1 / 2) : x.isNearlyWhole = true ↔ 499999999 ≤ n := by
  have count : n + 1 ≤ 2 ^ 53 := by omega
  have scale := (round_of_half magnitude between).max isWhole_one
  rw [Nat.max_eq_left (Nat.le_add_left 1 n)] at scale
  rw [isNearlyWhole, decide_eq_true_eq, abs_sub_round_of_half magnitude small between,
    scale.unique (isWhole_ofNat count), half_le_tolerance_iff count]
  omega

end

end Binary64

namespace Resolution

variable {resolution : Resolution} {task : Task}

/-- A negative period has no count. -/
theorem not_counts_of_value_neg (negative : task.period.value < 0) : ¬ resolution.Counts task := by
  rintro ⟨count, done⟩
  exact lt_asymm negative (ticks_spec done).2.1

/-- A period between two ticks is counted as the greater number of them, or has no count. -/
theorem ticks_of_half {n : Nat} (finite : task.period.isFinite = true)
    (between : task.period.value / resolution.tick.value = n + 1 / 2) :
    (499999999 ≤ n → resolution.ticks task = .ok (UInt64.ofNat (n + 1))) ∧
      (n < 499999999 → ¬ resolution.Counts task) := by
  obtain ⟨tick, tick_pos⟩ := resolution.isMagnitude_tick
  have period : task.period.IsMagnitude := by
    apply Binary64.isMagnitude_of_value_pos finite
    rw [(div_eq_iff tick_pos.ne').1 between]
    positivity
  have small := Binary64.lt_of_half_div period tick tick_pos between
  obtain ⟨quotient, exact_⟩ := Binary64.value_half_div period tick tick_pos between
  have whole := Binary64.round_of_half quotient exact_
  have test := Binary64.isNearlyWhole_half_iff quotient small exact_
  constructor
  · intro many
    exact ticks_of_quotient (test.2 many) whole (Nat.succ_pos n) (by omega)
  · rintro few ⟨count, done⟩
    obtain ⟨_, near, _⟩ := quotient_of_ticks done
    exact absurd (test.1 near) (by omega)

end Resolution

namespace Hyperperiod

/-- Among tasks with a period that is not zero, one with a period exactly between two ticks. If it is
less than half a thousand million ticks long, the tasks are refused, with the first of them that has
no count; else half a tick is within the tolerance, and the period is counted as the ticks above. -/
theorem halves_are_refused {resolution : Resolution} {tasks : List Task} {task : Task} {n : ℤ}
    (limit : Option Binary64) (moving : ∀ other ∈ tasks, other.period.isZero = false)
    (mem : task ∈ tasks) (finite : task.period.isFinite = true)
    (between : task.period.value / resolution.tick.value = n + 1 / 2) :
    (n < 499999999 → ∃ before refused after, tasks = before ++ refused :: after ∧
      (∀ other ∈ before, resolution.Counts other) ∧ ¬ resolution.Counts refused ∧
      ofTasks resolution limit tasks =
        .error (.nonIntegralPeriod refused.id refused.period resolution.tick)) ∧
    (499999999 ≤ n → resolution.ticks task = .ok (UInt64.ofNat (n + 1).toNat)) := by
  constructor
  · intro few
    have uncounted : ¬ resolution.Counts task := by
      cases n with
      | ofNat n =>
        exact (Resolution.ticks_of_half finite (by simpa using between)).2
          (Int.ofNat_lt.1 few)
      | negSucc n =>
        apply Resolution.not_counts_of_value_neg
        have tick_pos := resolution.isMagnitude_tick.2
        rw [(div_eq_iff tick_pos.ne').1 between]
        apply mul_neg_of_neg_of_pos _ tick_pos
        rw [Int.cast_negSucc]
        have nonneg : (0 : ℚ) ≤ n := n.cast_nonneg
        push_cast
        linarith
    rcases exists_counts_or_first resolution tasks with
      ⟨counts, counted⟩ | ⟨before, refused, after, split, first, failed⟩
    · exact absurd (counts_of_mem counted mem) uncounted
    · exact ⟨before, refused, after, split, first, failed,
        ofTasks_of_uncounted ⟨List.ne_nil_of_mem mem, moving⟩ split first failed⟩
  · intro many
    obtain ⟨n, rfl⟩ := Int.eq_ofNat_of_zero_le (show 0 ≤ n by omega)
    exact (Resolution.ticks_of_half finite (by simpa using between)).1 (by omega)

/-- A task with a period of half a unit more than a whole number. -/
def halfTask (n : Nat) : Task := .periodic 2 (.ofRatio false (2 * n + 1) 2) (.point .zero)

/-- Two and a half ticks are refused behind four, and the first half that is not is rounded up. -/
theorem halves_are_refused_five_halves :
    (∃ fault, ofTasks .unit none [everyTask 4, halfTask 2] = .error fault) ∧
      Resolution.unit.ticks (halfTask 499999999) = .ok 500000000 := by
  constructor
  · have moving : ∀ other ∈ [everyTask 4, halfTask 2], other.period.isZero = false := by
      decide +kernel
    have between : (halfTask 2).period.value / Resolution.unit.tick.value = (2 : ℤ) + 1 / 2 := by
      decide +kernel
    obtain ⟨_, _, _, _, _, _, refused⟩ :=
      (halves_are_refused none moving (by simp) (by decide +kernel) between).1 (by decide)
    exact ⟨_, refused⟩
  · have moving : ∀ other ∈ [halfTask 499999999], other.period.isZero = false := by
      decide +kernel
    have between : (halfTask 499999999).period.value / Resolution.unit.tick.value =
        (499999999 : ℤ) + 1 / 2 := by decide +kernel
    exact (halves_are_refused none moving (by simp) (by decide +kernel) between).2 (by decide)

/-- The period 499999999.5 is half a tick away from any whole number of ticks of one unit, and has a
hyperperiod of 500000000 of them. -/
theorem half_accepted : ∃ h,
    (halfTask 499999999).period.isFinite = true ∧
      (halfTask 499999999).period.isZero = false ∧
      Resolution.unit.tick.value = 2 ^ 0 ∧
      (halfTask 499999999).period.value / Resolution.unit.tick.value = 499999999 + 1 / 2 ∧
      ofTasks .unit none [halfTask 499999999] = .ok h ∧ h.ticks = 500000000 := by
  have counted : Resolution.unit.ticks (halfTask 499999999) = .ok 500000000 := by decide +kernel
  have multiple : Ticks.lcmAll [500000000] = .ok 500000000 := by decide +kernel
  have done := ofTasks_of_increasing ⟨by simp, by decide +kernel⟩ (.cons counted .nil)
    (List.pairwise_singleton _ _) multiple
  exact ⟨_, by decide +kernel, by decide +kernel, by decide +kernel, by decide +kernel, done, rfl⟩

end Hyperperiod

end PeriodicJobs
