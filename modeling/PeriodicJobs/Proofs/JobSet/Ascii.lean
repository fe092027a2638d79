import PeriodicJobs.Proofs.JobSet.Reading
import PeriodicJobs.Proofs.Text.Encoding

set_option autoImplicit false

/- Every line of a job set takes a byte for each character, in either layout. -/
namespace PeriodicJobs

open Text (IsAscii)

theorem Text.isAscii_digit {c : Char} (digit : c.isDigit = true) : c.toNat < 128 :=
  Nat.lt_of_le_of_lt (Char.isDigit_iff_toNat.1 digit).2 (by decide)

theorem isAscii_realText (x : Binary64) : IsAscii (realText x) := by
  have others : IsAscii ['-', '.', 'N', 'a', 'i', 'n', 'f'] := by decide
  intro c mem
  exact (mem_realText mem).elim Text.isAscii_digit (others c)

theorem isAscii_wordText (n : UInt64) : IsAscii (wordText n) := fun _ mem =>
  Text.isAscii_digit (Decimal.isDigit_of_mem_digits mem)

theorem Priority.isAscii_text (priority : Priority) : IsAscii (priority.text {}) := by
  rw [text_bare]
  cases priority with
  | deadline instant => exact isAscii_realText instant
  | rank place => exact isAscii_wordText place

namespace JobSet

theorem isAscii_tableLine {cells : List (List Char)} (ascii : ∀ cell ∈ cells, IsAscii cell) :
    IsAscii (tableLine cells) := by
  refine Text.IsAscii.append (Text.IsAscii.intercalate (by decide) ?_) (by decide)
  intro piece padded
  obtain ⟨index, inside, rfl⟩ := List.getElem_of_mem padded
  simp only [List.length_zipWith] at inside
  rw [List.getElem_zipWith, Text.pad]
  apply Text.IsAscii.append
  · intro c blank
    rw [(List.mem_replicate.1 blank).2]
    decide
  · exact ascii _ (List.getElem_mem (by omega))

theorem isAscii_rangeText (window : Window) : IsAscii (rangeText window) := by
  have opening : IsAscii "range(".toList := by decide
  have between : IsAscii ", ".toList := by decide
  have closing : IsAscii ")".toList := by decide
  exact (((opening.append (isAscii_realText _)).append between).append
    (isAscii_realText _)).append closing

theorem isAscii_initializerLine (job : Job) (priority : Priority) :
    IsAscii (initializerLine job priority) := by
  have opening : IsAscii "Job(".toList := by decide
  have closing : IsAscii [')', '\n'] := by decide
  refine (opening.append (Text.IsAscii.intercalate (by decide) ?_)).append closing
  simp only [List.mem_cons, List.not_mem_nil, or_false, forall_eq_or_imp, forall_eq,
    isAscii_wordText, isAscii_rangeText, isAscii_realText, Priority.isAscii_text, and_self]

end JobSet

namespace Layout

theorem isAscii_header (layout : Layout) : IsAscii layout.header.toList := by
  cases layout with
  | csv =>
    have columns : ∀ cell ∈ JobSet.columns.map String.toList, IsAscii cell := by decide +kernel
    rw [header, String.toList_ofList]
    exact JobSet.isAscii_tableLine columns
  | initializer => decide

theorem isAscii_line (layout : Layout) (job : Job) (priority : Priority) :
    IsAscii (layout.line job priority).toList := by
  cases layout with
  | csv =>
    rw [line, String.toList_ofList]
    apply JobSet.isAscii_tableLine
    simp only [JobSet.cells, List.mem_cons, List.not_mem_nil, or_false, forall_eq_or_imp, forall_eq,
      isAscii_wordText, isAscii_realText, Priority.isAscii_text, and_self]
  | initializer =>
    rw [line, String.toList_ofList]
    exact JobSet.isAscii_initializerLine job priority

end Layout

end PeriodicJobs
