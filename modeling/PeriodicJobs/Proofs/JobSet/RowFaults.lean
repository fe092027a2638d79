import PeriodicJobs.JobSet.Row
import PeriodicJobs.Proofs.Binary64.Order
import PeriodicJobs.Proofs.Checks
import PeriodicJobs.Proofs.Decimal.Grammar

set_option autoImplicit false

/- Lines of the table, well-formed or not. A line of eight cells is read if ten checks hold, of
which eight are on single cells and two on the order of a pair; the first one that fails decides the
fault. A line of any other number of cells is refused before. -/
namespace PeriodicJobs

open Decimal (SpellsWord Denotes)

namespace Row

/-- The texts of the eight cells of a line, in the order of the columns. -/
structure Cells where
  task : List Char
  job : List Char
  arrivalMin : List Char
  arrivalMax : List Char
  costMin : List Char
  costMax : List Char
  deadline : List Char
  priority : List Char

namespace Cells

variable (cells : Cells)

def texts : List (List Char) :=
  [cells.task, cells.job, cells.arrivalMin, cells.arrivalMax, cells.costMin, cells.costMax,
    cells.deadline, cells.priority]

/-- The cells of a line are what stands between its commas, without the blanks around it. -/
def AreOf (line : List Char) : Prop := (line.splitOn ',').map Text.trim = cells.texts

/-- Cells in which the values of a row are written, with both pairs in order. -/
structure Hold (row : Row) : Prop where
  taskId : SpellsWord cells.task row.taskId
  jobId : SpellsWord cells.job row.jobId
  arrivalMin : Denotes cells.arrivalMin row.arrival.min
  arrivalMax : Denotes cells.arrivalMax row.arrival.max
  arrival_le : row.arrival.min ≤ row.arrival.max
  costMin : Denotes cells.costMin row.cost.min
  costMax : Denotes cells.costMax row.cost.max
  cost_le : row.cost.min ≤ row.cost.max
  deadline : Denotes cells.deadline row.deadline
  priority : Denotes cells.priority row.priority

end Cells

def wordCheck (column : String) (cell : List Char) : Check RowFault :=
  ⟨∃ word, SpellsWord cell word, .notANumber column (String.ofList cell)⟩

def numberCheck (column : String) (cell : List Char) : Check RowFault :=
  ⟨∃ x, Denotes cell x, .notANumber column (String.ofList cell)⟩

/-- Two cells have to be real numbers in order. The fault names the column of the first one. -/
def orderCheck (column : String) (low high : List Char) : Check RowFault :=
  ⟨∃ min max, Denotes low min ∧ Denotes high max ∧ min ≤ max, .inverted column⟩

def windowChecks (first second : String) (low high : List Char) : List (Check RowFault) :=
  [numberCheck first low, numberCheck second high, orderCheck first low high]

/-- The checks on the cells of a line. The order of a pair is looked at before the next cell is. -/
def Cells.checks (cells : Cells) : List (Check RowFault) :=
  [wordCheck "Task ID" cells.task, wordCheck "Job ID" cells.job] ++
    windowChecks "Arrival min" "Arrival max" cells.arrivalMin cells.arrivalMax ++
    windowChecks "Cost min" "Cost max" cells.costMin cells.costMax ++
    [numberCheck "Deadline" cells.deadline, numberCheck "Priority" cells.priority]

/-- The fault of a single cell has the name of its column and the text of the cell, and that of a
pair has the name of a column. -/
theorem Cells.fault_names_column (cells : Cells) : ∀ check ∈ cells.checks,
    (∃ column text, (column, text) ∈ JobSet.columns.zip cells.texts ∧
      check.fault = .notANumber column (String.ofList text)) ∨
    ∃ column ∈ JobSet.columns, check.fault = .inverted column := by
  simp [checks, windowChecks, wordCheck, numberCheck, orderCheck, JobSet.columns, texts]

section

variable {α : Type} {reader : List Char → Option α} {column : String} {cell : List Char}

theorem number_eq_elim : number reader column cell =
    (reader cell).elim (.error (.notANumber column (String.ofList cell))) .ok := by
  rw [number]
  cases reader cell <;> rfl

theorem number_eq_ok {value : α} :
    number reader column cell = .ok value ↔ reader cell = some value := by
  rw [number_eq_elim, Outcome.elim_eq_ok]

theorem decides_number {check : Check RowFault}
    (reads : check.Holds ↔ ∃ value, reader cell = some value)
    (blames : check.fault = .notANumber column (String.ofList cell)) :
    Decides [check] (number reader column cell) := by
  rw [number_eq_elim, ← blames]
  exact decides_found reads

end

theorem decides_word (column : String) (cell : List Char) :
    Decides [wordCheck column cell] (number Decimal.word? column cell) :=
  decides_number (by simp only [wordCheck, Decimal.word?_eq_some_iff]) rfl

theorem decides_real (column : String) (cell : List Char) :
    Decides [numberCheck column cell] (number Decimal.real? column cell) :=
  decides_number (by simp only [numberCheck, Decimal.real?_eq_some_iff]) rfl

theorem window_eq_ok {first second : String} {low high : List Char} {w : Window} :
    window first second low high = .ok w ↔
      Denotes low w.min ∧ Denotes high w.max ∧ w.min ≤ w.max := by
  simp only [window, Outcome.bind_eq_ok, number_eq_ok, Outcome.mapError_eq_ok,
    ← Decimal.real?_eq_some_iff]
  constructor
  · rintro ⟨min, lower, max, upper, between⟩
    rw [Window.between] at between
    split at between
    · rename_i ordered
      cases between
      exact ⟨lower, upper, ordered⟩
    · cases between
  · rintro ⟨lower, upper, ordered⟩
    exact ⟨_, lower, _, upper, if_pos ordered⟩

theorem decides_window (first second : String) (low high : List Char) :
    Decides (windowChecks first second low high) (window first second low high) := by
  refine (decides_real first low).bind fun min lower => ?_
  refine (decides_real second high).bind fun max upper => ?_
  rw [number_eq_ok, Decimal.real?_eq_some_iff] at lower upper
  apply decides_check
  · rintro ⟨min', max', lower', upper', ordered⟩
    obtain rfl := Decimal.Denotes.unique lower lower'
    obtain rfl := Decimal.Denotes.unique upper upper'
    exact ⟨⟨min, max⟩, by rw [Window.between, if_pos ordered]; rfl⟩
  · intro inverted
    have apart : ¬ min ≤ max := fun ordered => inverted ⟨min, max, lower, upper, ordered⟩
    rw [Window.between, if_neg apart]
    rfl

section

variable {line : List Char} {cells : Cells} (areOf : cells.AreOf line)

include areOf

theorem decides_read : Decides cells.checks (read line) := by
  rw [read, areOf]
  refine (decides_word "Task ID" cells.task).bind fun taskId _ => ?_
  refine (decides_word "Job ID" cells.job).bind fun jobId _ => ?_
  refine (decides_window "Arrival min" "Arrival max" _ _).bind fun arrival _ => ?_
  refine (decides_window "Cost min" "Cost max" _ _).bind fun cost _ => ?_
  refine (decides_real "Deadline" cells.deadline).bind fun deadline _ => ?_
  refine (decides_real "Priority" cells.priority).bind fun priority _ => ?_
  exact decides_ok _

theorem read_eq_ok_iff {row : Row} : read line = .ok row ↔ cells.Hold row := by
  rw [read, areOf]
  simp only [Cells.texts, Outcome.bind_eq_ok, number_eq_ok, window_eq_ok,
    Decimal.word?_eq_some_iff, Decimal.real?_eq_some_iff]
  constructor
  · rintro ⟨taskId, task, jobId, job, arrival, ⟨low, high, ordered⟩, cost, ⟨low', high', ordered'⟩,
      instant, deadline, place, priority, made⟩
    cases made
    exact ⟨task, job, low, high, ordered, low', high', ordered', deadline, priority⟩
  · intro hold
    exact ⟨_, hold.taskId, _, hold.jobId, _, ⟨hold.arrivalMin, hold.arrivalMax, hold.arrival_le⟩, _,
      ⟨hold.costMin, hold.costMax, hold.cost_le⟩, _, hold.deadline, _, hold.priority, rfl⟩

end

theorem exists_texts {pieces : List (List Char)} (count : pieces.length = JobSet.columns.length) :
    ∃ cells : Cells, pieces = cells.texts :=
  match pieces, count with
  | [task, job, arrivalMin, arrivalMax, costMin, costMax, deadline, priority], _ =>
    ⟨⟨task, job, arrivalMin, arrivalMax, costMin, costMax, deadline, priority⟩, rfl⟩

theorem read_of_length_ne {line : List Char}
    (count : (line.splitOn ',').length ≠ JobSet.columns.length) :
    read line = .error (.fieldCount (line.splitOn ',').length) := by
  rw [← List.length_map Text.trim] at count ⊢
  rw [read]
  split
  · rename_i pieces
    rw [pieces] at count
    exact absurd rfl count
  · rfl

/-- Every line has either eight cells or another number of them, for which it is refused. -/
theorem exists_cells_or_count (line : List Char) :
    (∃ cells : Cells, cells.AreOf line) ∨
      (line.splitOn ',').length ≠ JobSet.columns.length ∧
        read line = .error (.fieldCount (line.splitOn ',').length) := by
  by_cases count : (line.splitOn ',').length = JobSet.columns.length
  · exact .inl (exists_texts (by rwa [List.length_map]))
  · exact .inr ⟨count, read_of_length_ne count⟩

/-- The checks decide every line. It is read just if it has eight cells in which the values of a row
are written with both pairs in order, so that none of these four is NaN. Otherwise the fault is the
number of its cells if that is not eight, and else that of the first check from the left that does
not hold. -/
theorem checks_decide_rows (line : List Char) :
    (∀ row, read line = .ok row ↔ ∃ cells : Cells, cells.AreOf line ∧ cells.Hold row) ∧
    (∀ row, read line = .ok row →
      (row.arrival.min.isNumber = true ∧ row.arrival.max.isNumber = true) ∧
        row.cost.min.isNumber = true ∧ row.cost.max.isNumber = true) ∧
    ∀ fault, read line = .error fault ↔
      ((line.splitOn ',').length ≠ JobSet.columns.length ∧
        fault = .fieldCount (line.splitOn ',').length) ∨
      ∃ cells : Cells, cells.AreOf line ∧ FirstFailure cells.checks fault := by
  have reads (row : Row) :
      read line = .ok row ↔ ∃ cells : Cells, cells.AreOf line ∧ cells.Hold row := by
    constructor
    · intro done
      rcases exists_cells_or_count line with ⟨cells, areOf⟩ | ⟨_, refused⟩
      · exact ⟨cells, areOf, (read_eq_ok_iff areOf).1 done⟩
      · rw [refused] at done
        cases done
    · rintro ⟨cells, areOf, hold⟩
      exact (read_eq_ok_iff areOf).2 hold
  refine ⟨reads, ?_, ?_⟩
  · intro row done
    obtain ⟨cells, _, hold⟩ := (reads row).1 done
    exact ⟨Binary64.isNumber_of_le hold.arrival_le, Binary64.isNumber_of_le hold.cost_le⟩
  · intro fault
    constructor
    · intro failed
      rcases exists_cells_or_count line with ⟨cells, areOf⟩ | ⟨count, refused⟩
      · exact .inr ⟨cells, areOf, ((decides_read areOf).error_iff fault).1 failed⟩
      · rw [refused] at failed
        cases failed
        exact .inl ⟨count, rfl⟩
    · rintro (⟨count, rfl⟩ | ⟨cells, areOf, first⟩)
      · exact read_of_length_ne count
      · exact ((decides_read areOf).error_iff fault).2 first

/-- A pair that is not in order comes before a bad cell on its right; a line of two cells; and a
line with a plus sign, a power of ten, words in mixed case and blanks. -/
theorem checks_decide_rows_mixed :
    read "1, 2, 3, 0, x, 1, 5, 5".toList = .error (.inverted "Arrival min") ∧
      read "1,2".toList = .error (.fieldCount 2) ∧
      ∃ row, read "+1,2,0,iNf, -.5e1 ,1,Nan,7.".toList = .ok row ∧ row.deadline = .nan false := by
  have word (text : List Char) {n : UInt64} (read : Decimal.word? text = some n) :
      SpellsWord text n := Decimal.word?_eq_some_iff.1 read
  have real (text : List Char) {x : Binary64} (read : Decimal.real? text = some x) :
      Denotes text x := Decimal.real?_eq_some_iff.1 read
  have three := real "3".toList (x := .ofNat 3) (by decide +kernel)
  have none := real "0".toList (x := .zero) (by decide +kernel)
  refine ⟨((checks_decide_rows _).2.2 _).2 (.inr ?_),
    ((checks_decide_rows _).2.2 _).2 (.inl ?_), ?_⟩
  · refine ⟨⟨"1".toList, "2".toList, "3".toList, "0".toList, "x".toList, "1".toList, "5".toList,
      "5".toList⟩, by unfold Cells.AreOf; decide, [_, _, _, _], _, _, rfl, ?_, ?_, rfl⟩
    · simp only [List.forall_mem_cons, List.not_mem_nil, IsEmpty.forall_iff, implies_true, and_true]
      exact ⟨⟨1, word _ (by decide +kernel)⟩, ⟨2, word _ (by decide +kernel)⟩, ⟨_, three⟩,
        ⟨_, none⟩⟩
    · rintro ⟨min, max, lower, upper, ordered⟩
      obtain rfl := three.unique lower
      obtain rfl := none.unique upper
      exact absurd ordered (by decide +kernel)
  · decide
  · refine ⟨⟨1, 2, ⟨.zero, .infinity false⟩, ⟨.ofRatio true 5 1, .one⟩, .nan false, .ofNat 7⟩,
      ((checks_decide_rows _).1 _).2 ?_, rfl⟩
    refine ⟨⟨"+1".toList, "2".toList, "0".toList, "iNf".toList, "-.5e1".toList, "1".toList,
      "Nan".toList, "7.".toList⟩, by unfold Cells.AreOf; decide, ?_⟩
    exact ⟨word _ (by decide +kernel), word _ (by decide +kernel), none, real _ (by decide +kernel),
      by decide +kernel, real _ (by decide +kernel), real _ (by decide +kernel), by decide +kernel,
      real _ (by decide +kernel), real _ (by decide +kernel)⟩

end Row

end PeriodicJobs
