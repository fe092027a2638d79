import PeriodicJobs.Proofs.TaskSet.FirstFault
import PeriodicJobs.Proofs.TaskSet.Guarantees

set_option autoImplicit false

/- Which numbers of a table are finite. A text that denotes more than any finite number is refused
in every column of numbers, but a bound of a range is read without this check, as infinity. -/
namespace PeriodicJobs

open Decimal (Spelling)

def Decimal.Spelling.Overflows (s : Spelling) : Prop :=
  Binary64.overflowBound ≤ s.numeral.magnitude

theorem Decimal.Spelling.isFinite_nearest (s : Spelling) :
    s.nearest.isFinite = true ↔ ¬ s.Overflows := by
  rw [nearest, Numeral.isFinite_iff, Overflows, not_le]

/-- The columns whose cells hold one number each. -/
def Column.numbers : List Column := [.period, .releasePhase, .deadline, .initialExecutionTime]

theorem Column.refusal?_of_overflows {column : Column} (number : column ∈ numbers) {s : Spelling}
    (overflows : s.Overflows) : column.refusal? s.text = some .notFinite := by
  have infinite : ¬ s.nearest.isFinite = true := fun finite =>
    s.isFinite_nearest.1 finite overflows
  have real : Cell.real s.text = .error .notFinite := by
    simp only [Cell.real, s.real?_text, infinite, Bool.false_eq_true, ↓reduceIte]
  have nonNegative : Cell.nonNegative s.text = .error .notFinite :=
    Outcome.bind_eq_error.2 (.inl real)
  simp only [numbers, List.mem_cons, List.not_mem_nil, or_false] at number
  rcases number with rfl | rfl | rfl | rfl
  · exact Outcome.fault?_eq_some.2 nonNegative
  all_goals exact Outcome.fault?_eq_some.2 real

namespace TaskSet

/-- A table with a refused text in a row is refused. -/
theorem exists_fault_of_refusal {bytes : List UInt8} {head record : Csv.Record}
    {rows : List Csv.Record} {text : Column → List Char} {column : Column} {reason : CellFault}
    (found : Csv.records bytes = head :: rows) (inside : record ∈ rows)
    (isRow : IsRow head record text) (refused : column.refusal? (text column) = some reason) :
    ∃ fault, ofBytes bytes = .error fault := by
  cases read : ofBytes bytes with
  | error fault => exact ⟨fault, rfl⟩
  | ok tasks =>
    obtain ⟨columns, resolved, accepted⟩ := reads_of_ok found read
    obtain ⟨_, text', isRow', made⟩ := accepted record inside
    have same := (isHead_of_header resolved).isRow_unique isRow isRow'
    rw [same, made.refusal?_eq_none] at refused
    cases refused

/-- Infinity can only stand in a window. A task that is read has finite numbers and forward
windows, and a table with a text that overflows in a column of numbers is refused. A window is read
from any range of plain numerals in order, and its bounds are finite just if they do not
overflow. -/
theorem infinity_only_in_ranges (bytes : List UInt8) :
    (∀ tasks, ofBytes bytes = .ok tasks → ∀ task ∈ tasks, task.IsRead ∧
      ∃ head rows record text, Csv.records bytes = head :: rows ∧ record ∈ rows ∧
        IsRow head record text ∧ task.IsMadeOf text) ∧
    (∀ head rows record text, Csv.records bytes = head :: rows → record ∈ rows →
      IsRow head record text → ∀ column ∈ Column.numbers, ∀ s : Spelling,
        text column = s.text → s.Overflows →
          column.refusal? s.text = some .notFinite ∧ ∃ fault, ofBytes bytes = .error fault) ∧
    (∀ text window, Cell.range text = .ok window ↔ window.IsSpelled text) ∧
    (∀ text window, Cell.jitter text = .ok window ↔
      (Text.trim text = "none".toList ∧ window = .point .zero) ∨ window.IsSpelled text) ∧
    ∀ s : Spelling, s.nearest.isFinite = true ↔ ¬ s.Overflows := by
  refine ⟨?_, ?_, fun _ _ => Cell.range_eq_ok, fun _ _ => Cell.jitter_eq_ok,
    Spelling.isFinite_nearest⟩
  · intro tasks read task mem
    obtain ⟨head, rows, record, found, inside, text, isRow, made⟩ := exists_row_of_mem read mem
    exact ⟨ofBytes_ok read task mem, head, rows, record, text, found, inside, isRow, made⟩
  · intro head rows record text found inside isRow column number s same overflows
    have refused := Column.refusal?_of_overflows number overflows
    exact ⟨refused, exists_fault_of_refusal found inside isRow (same ▸ refused)⟩

/-- A table of one task, with its period and the upper bound of its execution times. -/
def boundedTable (period bound : List Char) : List UInt8 :=
  schemaTable ("T(1 1),".toList ++ period ++ ",0,10,2,uniform params: [1 to ".toList ++ bound ++
    "],none".toList)

/-- A period of ten is read, and one of 10^309 is refused. -/
theorem infinity_only_in_ranges_ten :
    (∃ task, ofBytes (boundedTable "10".toList "2".toList) = .ok [task] ∧
      task.period.isFinite = true) ∧
    ∃ fault, ofBytes (boundedTable "1e309".toList "2".toList) = .error fault := by
  constructor
  · have size : (ofBytes (boundedTable "10".toList "2".toList)).map List.length = .ok 1 := by
      decide +kernel
    obtain ⟨tasks, read, one⟩ := Outcome.map_eq_ok.1 size
    obtain ⟨task, rfl⟩ := List.length_eq_one_iff.1 one
    have isRead := ((infinity_only_in_ranges _).1 _ read task List.mem_cons_self).1
    exact ⟨task, read, isRead.period_finite⟩
  · let period : Spelling := ⟨.absent, ['1'], none, some ⟨'e', .absent, "309".toList, by decide,
      by decide, by decide⟩, by decide, by simp, by decide⟩
    have overflows : period.Overflows :=
      not_not.1 fun finite => absurd (period.isFinite_nearest.2 finite) (by decide +kernel)
    obtain ⟨head, record, found⟩ : ∃ head record,
        Csv.records (boundedTable "1e309".toList "2".toList) = [head, record] :=
      List.length_eq_two.1 (by decide +kernel)
    have heading : (Csv.records (boundedTable "1e309".toList "2".toList))[0]?.map (fun record =>
        (header record).map Header.columns) = some (.ok Column.all) := by decide +kernel
    have cells : (Csv.records (boundedTable "1e309".toList "2".toList))[1]?.map (fun record =>
        texts .start 0 (record.fields.map (Text.stripEnds isBlankByte))) =
        some (.ok ["T(1 1)".toList, period.text, ['0'], "10".toList, ['2'],
          "uniform params: [1 to 2]".toList, "none".toList]) := by decide +kernel
    rw [found] at heading cells
    obtain ⟨⟨_⟩, resolved, rfl⟩ := Outcome.map_eq_ok.1 (Option.some.inj heading)
    have holds := texts_stripped.1 (Option.some.inj cells)
    have isRow := (isHead_of_header resolved).isRow_of_holds holds holds.length_eq
    have refused := (infinity_only_in_ranges _).2.1 head [record] record _ found
      List.mem_cons_self isRow .period (by decide) period rfl overflows
    exact refused.2

/-- A bound of two times 10^308 in digits is read as infinity, and the table is accepted. -/
theorem infinite_bound_accepted : ∃ task,
    ofBytes (boundedTable "10".toList ('2' :: List.replicate 308 '0')) = .ok [task] ∧
      task.cost.max = .infinity false := by
  have maxima : (ofBytes (boundedTable "10".toList ('2' :: List.replicate 308 '0'))).map
      (List.map fun task => task.cost.max) = .ok [.infinity false] := by decide +kernel
  obtain ⟨tasks, read, maxima⟩ := Outcome.map_eq_ok.1 maxima
  obtain ⟨task, rest, rfl, max, none⟩ := List.map_eq_cons_iff.1 maxima
  rw [List.map_eq_nil_iff.1 none] at read
  exact ⟨task, read, max⟩

end TaskSet

end PeriodicJobs
