import Mathlib.Order.Monotone.Basic
import Mathlib.Tactic.Ring
import PeriodicJobs.Binary64.Rounding

set_option autoImplicit false

/- Places and their units. A place is a count of doublings and a significand below 2^53, and only
the numbers without a doubling have a significand below 2^52. So units grow with places. -/
namespace PeriodicJobs.Binary64

theorem unitsPerOne_eq : unitsPerOne = 2 ^ 1074 := by
  unfold unitsPerOne
  generalize 1074 = doubled
  rfl

theorem doublings_eq (place : Nat) : doublings place = place / 2 ^ 52 - 1 := rfl

theorem significand_eq (place : Nat) : significand place = place - doublings place * 2 ^ 52 := rfl

theorem unitsAt_eq (place : Nat) : unitsAt place = significand place * 2 ^ doublings place := rfl

theorem unitsPerOne_pos : 0 < unitsPerOne :=
  Nat.lt_of_lt_of_eq (Nat.two_pow_pos _) unitsPerOne_eq.symm

theorem two_pow_le_unitsPerOne {scale : Nat} (small : scale ≤ 1074) : 2 ^ scale ≤ unitsPerOne := by
  unfold unitsPerOne
  generalize 1074 = doubled at *
  exact Nat.pow_le_pow_right (by decide) small

theorem significand_lt (place : Nat) : significand place < 2 ^ 53 := by
  rw [significand_eq, doublings_eq]
  omega

theorem le_significand (place : Nat) :
    doublings place = 0 ∨ 2 ^ 52 ≤ significand place := by
  rw [significand_eq, doublings_eq]
  omega

theorem place_eq (place : Nat) :
    place = doublings place * 2 ^ 52 + significand place := by
  rw [significand_eq, doublings_eq]
  omega

/-- The significand may be 2^53 here, which is 2^52 after another doubling. -/
theorem unitsAt_grid (doubled spacings : Nat) (upper : spacings ≤ 2 ^ 53)
    (lower : doubled = 0 ∨ 2 ^ 52 ≤ spacings) :
    unitsAt (doubled * 2 ^ 52 + spacings) = spacings * 2 ^ doubled := by
  by_cases full : spacings = 2 ^ 53
  · have more : doublings (doubled * 2 ^ 52 + spacings) = doubled + 1 := by
      rw [doublings_eq]
      omega
    have half : doubled * 2 ^ 52 + spacings - (doubled + 1) * 2 ^ 52 = 2 ^ 52 := by omega
    rw [unitsAt_eq, significand_eq, more, half, full]
    ring
  · have same : doublings (doubled * 2 ^ 52 + spacings) = doubled := by
      rw [doublings_eq]
      omega
    rw [unitsAt_eq, significand_eq, same, Nat.add_sub_cancel_left]

theorem unitsAt_succ_lt (place : Nat) : unitsAt place < unitsAt (place + 1) := by
  have next := unitsAt_grid (doublings place) (significand place + 1) (significand_lt place)
    ((le_significand place).imp_right Nat.le_succ_of_le)
  rw [← Nat.add_assoc, ← place_eq] at next
  rw [next, unitsAt_eq, Nat.succ_mul]
  exact Nat.lt_add_of_pos_right (Nat.two_pow_pos _)

theorem unitsAt_strictMono : StrictMono unitsAt := strictMono_nat_of_lt_succ unitsAt_succ_lt

@[simp] theorem unitsAt_zero : unitsAt 0 = 0 := by decide

theorem unitsAt_le_iff {p q : Nat} : unitsAt p ≤ unitsAt q ↔ p ≤ q :=
  unitsAt_strictMono.le_iff_le

theorem unitsAt_pos_iff {place : Nat} : 0 < unitsAt place ↔ 0 < place := by
  rw [← unitsAt_zero]
  exact unitsAt_strictMono.lt_iff_lt

/-- Powers of two stand where the spacing doubles. -/
theorem unitsAt_power (doubled : Nat) : unitsAt ((doubled + 1) * 2 ^ 52) = 2 ^ (doubled + 52) := by
  have grid := unitsAt_grid doubled (2 ^ 52) (by decide) (Or.inr (Nat.le_refl _))
  rw [← Nat.succ_mul] at grid
  rw [grid, ← Nat.pow_add, Nat.add_comm]

theorem unitsAt_wholePower {doubled scale : Nat} (exponent : doubled + 52 = scale + 1074) :
    unitsAt ((doubled + 1) * 2 ^ 52) = 2 ^ scale * unitsPerOne := by
  rw [unitsPerOne_eq, ← Nat.pow_add, unitsAt_power, exponent]

theorem unitsAt_partPower {doubled scale : Nat} (exponent : doubled + 52 + scale = 1074) :
    unitsAt ((doubled + 1) * 2 ^ 52) * 2 ^ scale = unitsPerOne := by
  have whole : 2 ^ (doubled + 52 + scale) = unitsPerOne := exponent ▸ unitsPerOne_eq.symm
  rw [unitsAt_power, ← Nat.pow_add, whole]

/-- Infinity stands where 2^1024 would. -/
theorem unitsAt_infinityPlace : unitsAt infinityPlace = 2 ^ 1024 * unitsPerOne :=
  unitsAt_wholePower (show 2046 + 52 = 1024 + 1074 from rfl)

end PeriodicJobs.Binary64
