import Mathlib.Data.Set.Card
import PeriodicJobs.Proofs.Binary64.Monotone
import PeriodicJobs.Proofs.Binary64.Overflow
import PeriodicJobs.Proofs.CommonMultiple
import PeriodicJobs.Proofs.Expansion
import PeriodicJobs.Proofs.Repetition

set_option autoImplicit false

/- The distinct periods of a hyperperiod. They are told apart as counts of ticks and listed as spans,
each of them rounded once. Counts so close to each other that both are rounded to one span have
hardly a factor in common, and then their least common multiple does not fit a word. -/
namespace PeriodicJobs

theorem length_distinct (values : List UInt64) :
    (distinct values).length = Set.ncard {v | v ∈ values} := by
  have same : {v | v ∈ values} = ((distinct values).toFinset : Set UInt64) := by
    ext v
    rw [Set.mem_ofPred_eq, Finset.mem_coe, List.mem_toFinset, mem_distinct]
  rw [same, Set.ncard_coe_finset, List.toFinset_card_of_nodup (nodup_distinct values)]

theorem length_distinct_le (values : List UInt64) : (distinct values).length ≤ values.length :=
  ((nodup_distinct values).subperm fun _ mem => mem_distinct.1 mem).length_le

/-- The least common multiple of two numbers is large where they are close to each other, since what
they have in common divides their difference. -/
theorem mul_le_lcm_mul_sub {a b : Nat} (lt : a < b) : a * b ≤ Nat.lcm a b * (b - a) := by
  have common : Nat.gcd a b ∣ b - a := Nat.dvd_sub (Nat.gcd_dvd_right a b) (Nat.gcd_dvd_left a b)
  have le : Nat.gcd a b ≤ b - a := Nat.le_of_dvd (by omega) common
  calc a * b = Nat.lcm a b * Nat.gcd a b := by rw [Nat.mul_comm (Nat.lcm a b), Nat.gcd_mul_lcm]
    _ ≤ Nat.lcm a b * (b - a) := Nat.mul_le_mul_left _ le

/-- Numbers with a common multiple in a word differ by more than two roundings. -/
theorem apart_of_lcm_lt {a b : Nat} (lt : a < b) (fits : Nat.lcm a b < 2 ^ 64) :
    (2 ^ 53 + 1) * a < (2 ^ 53 - 1) * b := by
  by_contra close
  obtain ⟨d, rfl⟩ := Nat.exists_eq_add_of_lt lt
  have product := mul_le_lcm_mul_sub lt
  rw [show a + d + 1 - a = d + 1 by omega] at product
  -- The difference is a small part of the smaller number, whose square it bounds from above.
  have part : (2 ^ 53 - 1) * (d + 1) ≤ 2 * a := by omega
  have square : (2 ^ 53 - 1) * a * a < 2 ^ 65 * a := by
    calc (2 ^ 53 - 1) * a * a = (2 ^ 53 - 1) * (a * a) := Nat.mul_assoc _ _ _
      _ ≤ (2 ^ 53 - 1) * (a * (a + d + 1)) := by gcongr
      _ ≤ (2 ^ 53 - 1) * (Nat.lcm a (a + d + 1) * (d + 1)) := by gcongr
      _ < (2 ^ 53 - 1) * (2 ^ 64 * (d + 1)) := by gcongr
      _ = 2 ^ 64 * ((2 ^ 53 - 1) * (d + 1)) := by ring
      _ ≤ 2 ^ 64 * (2 * a) := by gcongr
      _ = 2 ^ 65 * a := by ring
  have small : (2 ^ 53 - 1) * a < 2 ^ 65 := Nat.lt_of_mul_lt_mul_right square
  omega

/-- Products with a common factor are told apart as their whole factors are. -/
theorem Binary64.IsWhole.mul_lt_mul {x y w : Binary64} {m n : Nat} (left : x.IsWhole m)
    (right : y.IsWhole n) (small : m ≤ 2 ^ 53) (small' : n ≤ 2 ^ 53) (factor : w.IsMagnitude)
    (positive : 0 < w.value) (apart : (2 ^ 53 + 1) * m < (2 ^ 53 - 1) * n)
    (finite : (x * w).isFinite = true) : x * w < y * w := by
  obtain ⟨p, hp, rfl, units⟩ := left
  obtain ⟨q, hq, rfl, units'⟩ := right
  obtain ⟨r, hr, rfl, below⟩ := factor.exists_place
  rw [value_pos_iff] at positive
  rw [mul_number (place_lt_infinity units small) below] at finite ⊢
  rw [mul_number (place_lt_infinity units' small') below]
  have whole {place count : Nat} (units : unitsAt place = count * unitsPerOne) :
      unitsAt place * unitsAt r = count * (unitsPerOne * unitsAt r) := by
    rw [units, Nat.mul_assoc]
  rw [whole units] at finite ⊢
  rw [whole units']
  have divides (count : Nat) : unitsPerOne ∣ count * (unitsPerOne * unitsAt r) :=
    ⟨count * unitsAt r, by ring⟩
  refine ofUnits_lt_ofUnits unitsPerOne_pos (Or.inl (divides m)) (Or.inl (divides n)) ?_ finite
  have scale := Nat.mul_pos unitsPerOne_pos positive
  generalize unitsPerOne * unitsAt r = units at scale
  rw [← Nat.mul_assoc, ← Nat.mul_assoc]
  exact Nat.mul_lt_mul_of_pos_right apart scale

namespace Resolution

variable {resolution : Resolution} {task : Task} {a b : UInt64}

theorem span_lt_span (lt : a < b) (small : b.toNat ≤ 2 ^ 53)
    (fits : Nat.lcm a.toNat b.toNat < 2 ^ 64) (finite : (resolution.span a).isFinite = true) :
    resolution.span a < resolution.span b := by
  obtain ⟨tick, tick_pos⟩ := resolution.isMagnitude_tick
  rw [UInt64.lt_iff_toNat_lt] at lt
  have small' : a.toNat ≤ 2 ^ 53 := by omega
  exact (Binary64.isWhole_ofUInt64 small').mul_lt_mul (Binary64.isWhole_ofUInt64 small) small' small
    tick tick_pos (apart_of_lcm_lt lt fits) finite

/-- The common multiple is needed: with a tick of five quarters, two neighbours have one span. -/
example :
    let resolution : Resolution := ⟨.ofRatio false 5 4, by decide +kernel⟩
    resolution.span 9007199254740988 = resolution.span 9007199254740989 := by decide +kernel

/-- Fewer ticks than are counted in some period have a finite span. -/
theorem isFinite_span_of_lt (counted : resolution.ticks task = .ok b) (lt : a < b) :
    (resolution.span a).isFinite = true := by
  obtain ⟨quotient, _, whole, _, small⟩ := quotient_of_ticks counted
  obtain ⟨tick, tick_pos⟩ := resolution.isMagnitude_tick
  have period := Binary64.isMagnitude_of_div tick tick_pos quotient
  have number := Binary64.isMagnitude_ofUInt64 a
  rw [UInt64.lt_iff_toNat_lt] at lt
  by_contra infinite
  have reached : (task.period.value : ℚ) ≤ (Binary64.ofUInt64 a).value * resolution.tick.value := by
    rw [span, Binary64.isFinite_mul_iff number tick, not_lt] at infinite
    exact le_trans period.value_lt.le infinite
  have below := Binary64.value_div_le period tick number tick_pos reached
  rw [(Binary64.isWhole_ofUInt64 (show a.toNat ≤ 2 ^ 53 by omega)).value_eq] at below
  obtain ⟨n, whole', _, lower, _⟩ := Binary64.round_spec quotient
  rw [whole'.unique_count whole] at lower
  have next : (a.toNat : ℚ) + 1 ≤ b.toNat := by exact_mod_cast lt
  linarith

end Resolution

namespace Hyperperiod

variable {resolution : Resolution} {limit : Option Binary64} {tasks : List Task}
  {counts : List UInt64} {h : Hyperperiod}

/-- Two counts have a common multiple in a word, the ticks of the hyperperiod. -/
theorem Counted.lcm_lt (made : Counted resolution limit tasks counts h) (nonempty : tasks ≠ [])
    {a b : UInt64} (left : a ∈ counts) (right : b ∈ counts) :
    Nat.lcm a.toNat b.toNat < 2 ^ 64 := by
  have divides := (made.dvd_iff nonempty _).1 (Nat.dvd_refl _)
  have common := Nat.lcm_dvd (divides a left) (divides b right)
  exact Nat.lt_of_le_of_lt (Nat.le_of_dvd (made.ticks_pos nonempty) common) h.ticks.toNat_lt

theorem Counted.pairwise_uniquePeriods (made : Counted resolution limit tasks counts h)
    (nonempty : tasks ≠ []) : h.uniquePeriods.Pairwise (· < ·) := by
  rw [made.uniquePeriods, List.pairwise_map]
  refine (pairwise_distinct counts).imp_of_mem ?_
  intro a b left right lt
  rw [mem_distinct] at left right
  obtain ⟨task, _, counted⟩ := (mem_counts made.counted b).1 right
  obtain ⟨_, _, _, _, small⟩ := Resolution.quotient_of_ticks counted
  exact Resolution.span_lt_span lt small (made.lcm_lt nonempty left right)
    (Resolution.isFinite_span_of_lt counted lt)

/-- The periods of a hyperperiod that is not degenerate increase as numbers. There is one for each
count of ticks that some task has, so at most one for each task, and each task has its own among
them. -/
theorem distinct_periods_increase (done : ofTasks resolution limit tasks = .ok h)
    (lasting : h.isDegenerate = false) :
    h.uniquePeriods.Pairwise (· < ·) ∧
      h.uniquePeriods.length =
        Set.ncard {count | ∃ task ∈ tasks, resolution.ticks task = .ok count} ∧
      h.uniquePeriods.length ≤ h.taskCount ∧
      ∀ task ∈ tasks, ∃ count, resolution.ticks task = .ok count ∧
        .ofUInt64 count * resolution.tick ∈ h.uniquePeriods := by
  obtain ⟨counts, made⟩ := counted_of_lasting done lasting
  refine ⟨?_, ?_, ?_, ?_⟩
  · cases tasks with
    | nil => cases done; cases lasting
    | cons task tasks => exact made.pairwise_uniquePeriods (List.cons_ne_nil task tasks)
  · simp only [← mem_counts made.counted]
    rw [made.uniquePeriods, List.length_map, length_distinct]
  · rw [made.uniquePeriods, List.length_map, made.taskCount, made.counted.length_eq]
    exact length_distinct_le counts
  · intro task mem
    obtain ⟨count, inCounts, counted⟩ := made.exists_count mem
    refine ⟨count, counted, ?_⟩
    rw [made.uniquePeriods]
    exact List.mem_map_of_mem (mem_distinct.2 inCounts)

/-- Three, two and three rounded tenths are two periods. -/
theorem distinct_periods_increase_tenths : ∃ h,
    ofTasks tenth none [tenths 1 3, tenths 2 2, tenths 3 3] = .ok h ∧ h.isDegenerate = false ∧
      h.uniquePeriods.Pairwise (· < ·) ∧ h.uniquePeriods.length = 2 := by
  have moving : Moving [tenths 1 3, tenths 2 2, tenths 3 3] := ⟨by simp, by decide +kernel⟩
  have counted : HaveCounts tenth [tenths 1 3, tenths 2 2, tenths 3 3] [3, 2, 3] :=
    .cons (by decide +kernel) (.cons (by decide +kernel) (.cons (by decide +kernel) .nil))
  have same : ∀ v : UInt64, v ∈ [3, 2, 3] ↔ v ∈ [2, 3] := by
    intro v
    rw [List.mem_cons, List.mem_cons, or_left_comm, List.mem_singleton, or_self]
  have kept : distinct [3, 2, 3] = [2, 3] :=
    (distinct_congr same).trans (distinct_of_increasing (by decide))
  have multiple : Ticks.lcmAll (distinct [3, 2, 3]) = .ok 6 := by
    rw [kept]
    decide +kernel
  have done : ofTasks tenth none [tenths 1 3, tenths 2 2, tenths 3 3] =
      .ok ⟨tenth.span 6, 6, [2, 3].map tenth.span, 3⟩ :=
    ok_of_counted moving ⟨counted, multiple, rfl, rfl, by rw [kept], rfl⟩
  exact ⟨_, done, rfl, (distinct_periods_increase done rfl).1, rfl⟩

end Hyperperiod

end PeriodicJobs
