import PeriodicJobs.Proofs.Binary64.Order
import PeriodicJobs.Window

set_option autoImplicit false

/- Windows that are shifted. The bounds are compared once, when a window is made, and both of them
are moved by the same offset after that. A sum keeps the order of the bounds as long as it is a
number, so a window can lose a bound to a NaN but is never turned around. -/
namespace PeriodicJobs.Window

/-- Bounds in order, as far as they are numbers. -/
def IsOrderedIfNumbers (window : Window) : Prop :=
  window.min.isNumber = true → window.max.isNumber = true → window.min ≤ window.max

/-- An offset that can be added to both bounds. -/
structure Admits (window : Window) (offset : Binary64) : Prop where
  isNumber : offset.isNumber = true
  min : ¬ window.min.Cancel offset
  max : ¬ window.max.Cancel offset

/-- Each offset can be added to the bounds as the offsets before it have left them. -/
def AdmitsAll : Window → List Binary64 → Prop
  | _, [] => True
  | window, offset :: offsets => window.Admits offset ∧ (window.shift offset).AdmitsAll offsets

def shiftAll (window : Window) (offsets : List Binary64) : Window := offsets.foldl shift window

theorem between_eq_ok {min max : Binary64} {window : Window} :
    between min max = .ok window ↔ min ≤ max ∧ window = ⟨min, max⟩ := by
  rw [between]
  split
  · rename_i ordered
    rw [Except.ok.injEq, and_iff_right ordered, eq_comm]
  · rename_i inverted
    exact ⟨fun accepted => (nomatch accepted), fun accepted => absurd accepted.1 inverted⟩

/-- A finite offset can be added to any bounds. -/
theorem admits_of_isFinite (window : Window) {offset : Binary64}
    (finite : offset.isFinite = true) : window.Admits offset where
  isNumber := Binary64.isNumber_of_isFinite finite
  min := Binary64.not_cancel_of_isFinite finite
  max := Binary64.not_cancel_of_isFinite finite

theorem admitsAll_of_isFinite (window : Window) {offsets : List Binary64}
    (finite : ∀ offset ∈ offsets, offset.isFinite = true) : window.AdmitsAll offsets := by
  induction offsets generalizing window with
  | nil => trivial
  | cons offset offsets ih =>
    obtain ⟨first, rest⟩ := List.forall_mem_cons.1 finite
    exact ⟨window.admits_of_isFinite first, ih _ rest⟩

theorem isNumber_shift_iff {window : Window} {offset : Binary64} :
    (window.shift offset).min.isNumber = true ∧ (window.shift offset).max.isNumber = true ↔
      (window.min.isNumber = true ∧ window.max.isNumber = true) ∧ window.Admits offset := by
  simp only [shift, Binary64.isNumber_add_iff]
  constructor
  · rintro ⟨⟨min, number, min'⟩, max, _, max'⟩
    exact ⟨⟨min, max⟩, number, min', max'⟩
  · rintro ⟨⟨min, max⟩, number, min', max'⟩
    exact ⟨⟨min, number, min'⟩, max, number, max'⟩

namespace IsOrderedIfNumbers

variable {window : Window} (ordered : window.IsOrderedIfNumbers)

include ordered

theorem le_iff :
    window.min ≤ window.max ↔ window.min.isNumber = true ∧ window.max.isNumber = true :=
  ⟨Binary64.isNumber_of_le, fun numbers => ordered numbers.1 numbers.2⟩

theorem not_lt : ¬ window.max < window.min := by
  intro inverted
  obtain ⟨max, min⟩ := Binary64.isNumber_of_lt inverted
  exact Binary64.not_lt_of_le (ordered min max) inverted

/-- One shift keeps the order of the sums that there are. -/
theorem shift (offset : Binary64) : (window.shift offset).IsOrderedIfNumbers := by
  intro left right
  obtain ⟨⟨min, max⟩, _⟩ := isNumber_shift_iff.1 ⟨left, right⟩
  exact Binary64.add_le_add_right (ordered min max) left right

theorem shift_le_iff {offset : Binary64} :
    (window.shift offset).min ≤ (window.shift offset).max ↔
      window.min ≤ window.max ∧ window.Admits offset := by
  rw [(ordered.shift offset).le_iff, isNumber_shift_iff, ordered.le_iff]

theorem shiftAll (offsets : List Binary64) : (window.shiftAll offsets).IsOrderedIfNumbers := by
  induction offsets generalizing window with
  | nil => exact ordered
  | cons offset offsets ih => exact ih (ordered.shift offset)

/-- A bound that is lost does not come back. -/
theorem shiftAll_le_iff (offsets : List Binary64) :
    (window.shiftAll offsets).min ≤ (window.shiftAll offsets).max ↔
      window.min ≤ window.max ∧ window.AdmitsAll offsets := by
  induction offsets generalizing window with
  | nil => exact (and_iff_left trivial).symm
  | cons offset offsets ih =>
    have later := ih (ordered.shift offset)
    rwa [ordered.shift_le_iff, and_assoc] at later

end IsOrderedIfNumbers

/-- However often a window is shifted, its bounds do not come out in the wrong order. They stay in
order just as long as every offset is a number and never the opposite infinity of a bound, and so
under all finite offsets. -/
theorem shifting_keeps_order {min max : Binary64} {window : Window}
    (accepted : between min max = .ok window) (offsets : List Binary64) :
    ((window.shiftAll offsets).min ≤ (window.shiftAll offsets).max ↔
      window.AdmitsAll offsets) ∧
    ¬ (window.shiftAll offsets).max < (window.shiftAll offsets).min ∧
    ((∀ offset ∈ offsets, offset.isFinite = true) →
      (window.shiftAll offsets).min ≤ (window.shiftAll offsets).max) := by
  obtain ⟨inOrder, rfl⟩ := between_eq_ok.1 accepted
  have ordered : IsOrderedIfNumbers ⟨min, max⟩ := fun _ _ => inOrder
  have kept := ordered.shiftAll_le_iff offsets
  rw [and_iff_right inOrder] at kept
  refine ⟨kept, (ordered.shiftAll offsets).not_lt, fun finite => ?_⟩
  exact kept.2 (admitsAll_of_isFinite _ finite)

/-- A window that has been shifted to infinity can go on, but not back. -/
theorem shifting_keeps_order_infinite :
    between .zero .one = .ok ⟨.zero, .one⟩ ∧
      AdmitsAll ⟨.zero, .one⟩ [.infinity false, .one] ∧
      ¬ AdmitsAll ⟨.zero, .one⟩ [.infinity false, .infinity true] := by
  have accepted : between .zero .one = .ok ⟨.zero, .one⟩ := by decide +kernel
  refine ⟨accepted, ?_, ?_⟩
  · exact (shifting_keeps_order accepted [.infinity false, .one]).1.1 (by decide +kernel)
  · intro admitted
    have ordered := (shifting_keeps_order accepted [.infinity false, .infinity true]).1.2 admitted
    exact absurd ordered (by decide +kernel)

/-- A window from negative infinity to zero is accepted, and has no order once it is shifted by
infinity; nor has one from zero to one that is shifted by a NaN. -/
theorem shift_breaks_order :
    (∃ window, between (.infinity true) .zero = .ok window ∧
      ¬ (window.shiftAll [.infinity false]).min ≤ (window.shiftAll [.infinity false]).max) ∧
    ∃ window, between .zero .one = .ok window ∧
      ¬ (window.shiftAll [.nan false]).min ≤ (window.shiftAll [.nan false]).max := by
  constructor
  · exact ⟨⟨.infinity true, .zero⟩, by decide +kernel, by decide +kernel⟩
  · exact ⟨⟨.zero, .one⟩, by decide +kernel, by decide +kernel⟩

end PeriodicJobs.Window
