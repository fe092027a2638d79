import Mathlib.Data.Nat.Init
import PeriodicJobs.Proofs.Outcome
import PeriodicJobs.Ticks

set_option autoImplicit false

/- Common multiples of ticks. A multiple is characterised by what it divides, which holds for any
order of the values and for any repeats among them. So a step of the computation overflows only if
the whole multiple does. -/
namespace PeriodicJobs

def leastMultiple (values : List Nat) : Nat := values.foldr Nat.lcm 1

theorem leastMultiple_dvd_iff (values : List Nat) (m : Nat) :
    leastMultiple values ∣ m ↔ ∀ v ∈ values, v ∣ m := by
  induction values with
  | nil => simp [leastMultiple]
  | cons v values ih =>
    change Nat.lcm v (leastMultiple values) ∣ m ↔ _
    rw [Nat.lcm_dvd_iff, ih, List.forall_mem_cons]

theorem leastMultiple_pos {values : List Nat} (positive : ∀ v ∈ values, 0 < v) :
    0 < leastMultiple values := by
  induction values with
  | nil => exact Nat.one_pos
  | cons v values ih =>
    exact Nat.lcm_pos (positive v List.mem_cons_self)
      (ih fun w mem => positive w (List.mem_cons_of_mem _ mem))

theorem leastMultiple_congr {values values' : List Nat} (same : ∀ v, v ∈ values ↔ v ∈ values') :
    leastMultiple values = leastMultiple values' := by
  apply Nat.dvd_right_iff_eq.1
  intro m
  simp only [leastMultiple_dvd_iff, same]

namespace Ticks

theorem toNat_gcd (a b : UInt64) : (gcd a b).toNat = Nat.gcd a.toNat b.toNat := by
  fun_induction gcd a b with
  | case1 a => rw [UInt64.toNat_zero, Nat.gcd_zero_right]
  | case2 a b nonzero ih =>
    rw [ih, UInt64.toNat_mod, Nat.gcd_comm b.toNat, ← Nat.gcd_rec, Nat.gcd_comm]

theorem quotient_mul (a b : UInt64) :
    (a / gcd a b).toNat * b.toNat = Nat.lcm a.toNat b.toNat := by
  rw [UInt64.toNat_div, toNat_gcd, Nat.lcm_eq_mul_div,
    Nat.div_mul_right_comm (Nat.gcd_dvd_left _ _)]

theorem toNat_lcm {a b c : UInt64} (done : lcm a b = .ok c) :
    c.toNat = Nat.lcm a.toNat b.toNat := by
  unfold lcm at done
  split at done
  · rename_i zero
    cases done
    rcases zero with rfl | rfl <;> simp
  · simp only at done
    split at done
    · rename_i fits
      cases done
      rw [UInt64.toNat_mul, Nat.mod_eq_of_lt fits, quotient_mul]
    · cases done

theorem lcm_of_fits {a b : UInt64} (fits : Nat.lcm a.toNat b.toNat < UInt64.size) :
    ∃ c, lcm a b = .ok c := by
  unfold lcm
  split
  · exact ⟨_, rfl⟩
  · simp only
    rw [if_pos (by rwa [quotient_mul])]
    exact ⟨_, rfl⟩

theorem foldlM_dvd_iff {values : List UInt64} {start c : UInt64}
    (done : values.foldlM lcm start = .ok c) (m : Nat) :
    c.toNat ∣ m ↔ start.toNat ∣ m ∧ ∀ v ∈ values, v.toNat ∣ m := by
  induction values generalizing start with
  | nil =>
    cases done
    simp
  | cons v values ih =>
    rw [List.foldlM_cons] at done
    obtain ⟨next, first, rest⟩ := Outcome.bind_eq_ok.1 done
    rw [ih rest, toNat_lcm first, Nat.lcm_dvd_iff, List.forall_mem_cons, and_assoc]

/-- No step overflows if some common multiple fits a word. -/
theorem foldlM_of_fits {values : List UInt64} {start : UInt64} {m : Nat} (positive : 0 < m)
    (fits : m < UInt64.size) (divides : start.toNat ∣ m) (all : ∀ v ∈ values, v.toNat ∣ m) :
    ∃ c, values.foldlM lcm start = .ok c := by
  induction values generalizing start with
  | nil => exact ⟨start, rfl⟩
  | cons v values ih =>
    have multiple : Nat.lcm start.toNat v.toNat ∣ m :=
      Nat.lcm_dvd divides (all v List.mem_cons_self)
    obtain ⟨next, first⟩ :=
      lcm_of_fits (Nat.lt_of_le_of_lt (Nat.le_of_dvd positive multiple) fits)
    have later : next.toNat ∣ m := by rwa [toNat_lcm first]
    obtain ⟨c, rest⟩ := ih later fun w mem => all w (List.mem_cons_of_mem _ mem)
    exact ⟨c, Outcome.bind_eq_ok.2 ⟨next, first, rest⟩⟩

theorem lcmAll_dvd_iff {values : List UInt64} {c : UInt64} (some : values ≠ [])
    (done : lcmAll values = .ok c) (m : Nat) : c.toNat ∣ m ↔ ∀ v ∈ values, v.toNat ∣ m := by
  rw [lcmAll, if_neg (by simpa using some)] at done
  rw [foldlM_dvd_iff done]
  simp

theorem lcmAll_of_fits {values : List UInt64} {m : Nat} (positive : 0 < m) (fits : m < UInt64.size)
    (all : ∀ v ∈ values, v.toNat ∣ m) : ∃ c, lcmAll values = .ok c := by
  unfold lcmAll
  split
  · exact ⟨0, rfl⟩
  · exact foldlM_of_fits positive fits (by simp) all

section

variable {values : List UInt64} (nonempty : values ≠ [])

include nonempty

theorem toNat_lcmAll {multiple : UInt64} (done : lcmAll values = .ok multiple) :
    multiple.toNat = leastMultiple (values.map UInt64.toNat) := by
  apply Nat.dvd_right_iff_eq.1
  intro m
  rw [lcmAll_dvd_iff nonempty done, leastMultiple_dvd_iff, List.forall_mem_map]

theorem lcmAll_of_lt (positive : ∀ v ∈ values, 0 < v.toNat)
    (fits : leastMultiple (values.map UInt64.toNat) < UInt64.size) :
    lcmAll values = .ok (UInt64.ofNat (leastMultiple (values.map UInt64.toNat))) := by
  have all := (leastMultiple_dvd_iff (values.map UInt64.toNat) _).1 (Nat.dvd_refl _)
  rw [List.forall_mem_map] at all
  have some : 0 < leastMultiple (values.map UInt64.toNat) := by
    apply leastMultiple_pos
    simpa using positive
  obtain ⟨multiple, done⟩ := lcmAll_of_fits some fits all
  rw [done, ← toNat_lcmAll nonempty done, UInt64.ofNat_toNat]

theorem lcmAll_of_le (large : UInt64.size ≤ leastMultiple (values.map UInt64.toNat)) :
    ∃ operands, lcmAll values = .error operands := by
  cases done : lcmAll values with
  | error operands => exact ⟨operands, rfl⟩
  | ok multiple =>
    have word := multiple.toNat_lt_size
    rw [toNat_lcmAll nonempty done] at word
    exact absurd word (Nat.not_lt_of_le large)

end

end Ticks

end PeriodicJobs
