import PeriodicJobs.Proofs.TaskSet.Agreement
import PeriodicJobs.Proofs.TaskSet.Cells

set_option autoImplicit false

/- A table is read, and not its arrangement: the order of the columns, the blanks around the cells,
the ends of the lines and the empty lines between them are lost in the reading. -/
namespace PeriodicJobs.TaskSet

inductive LineEnd where
  | lineFeed
  | carriageReturn
  | both

def LineEnd.text : LineEnd → List Char
  | .lineFeed => ['\n']
  | .carriageReturn => ['\r']
  | .both => ['\r', '\n']

def endsText (ends : List LineEnd) : List Char := ends.flatMap LineEnd.text

theorem isAscii_endsText (ends : List LineEnd) : Text.IsAscii (endsText ends) := by
  have single (lineEnd : LineEnd) : Text.IsAscii lineEnd.text := by cases lineEnd <;> decide
  intro c mem
  obtain ⟨lineEnd, _, inside⟩ := List.mem_flatMap.1 mem
  exact single lineEnd c inside

theorem isLineEnd_of_mem_endsText (ends : List LineEnd) :
    ∀ b ∈ Text.encode (endsText ends), Csv.isLineEnd b = true := by
  have single (lineEnd : LineEnd) : (Text.encode lineEnd.text).all Csv.isLineEnd = true := by
    cases lineEnd <;> decide
  intro b mem
  rw [endsText, Text.encode_flatMap] at mem
  obtain ⟨lineEnd, _, inside⟩ := List.mem_flatMap.1 mem
  exact List.all_eq_true.1 (single lineEnd) b inside

/-- The end of a line and of the empty lines behind it. -/
structure Break where
  lineEnd : LineEnd
  empty : List LineEnd

def Break.ends (gap : Break) : List LineEnd := gap.lineEnd :: gap.empty

theorem encode_ends_ne_nil (gap : Break) : Text.encode (endsText gap.ends) ≠ [] := by
  rw [Break.ends, endsText, List.flatMap_cons, Text.encode_append]
  cases gap.lineEnd <;> simp [LineEnd.text]

/-- The texts of a row by their columns. -/
structure Row where
  text : Column → List Char
  isCell : ∀ column, Text.IsCell (text column)

theorem isCell_name (column : Column) : Text.IsCell column.name.toList := by
  cases column <;> decide +kernel

/-- The task of a row by itself, with its texts in the order of the schema. It has no line. -/
def Row.task (row : Row) : Except TaskSetFault Task :=
  TaskSet.task ⟨Column.all⟩ 0 (Column.all.map row.text)

/-- The row that heads every table. -/
def Row.names : Row := ⟨fun column => column.name.toList, isCell_name⟩

theorem Row.isAscii_names (column : Column) : Text.IsAscii (names.text column) := by
  cases column <;> decide +kernel

/-- All that a table leaves open: the order of the columns, empty lines in front, what stands around
the cells of the header and of each row, what ends the line before each row, and what ends the last
line, if anything does. -/
structure Arrangement where
  order : List Column
  perm : order.Perm Column.all
  start : List LineEnd
  heading : Column → Margin
  gaps : Nat → Break
  margins : Nat → Column → Margin
  finish : List LineEnd

theorem encode_intercalate (cells : List (List Char)) :
    Text.encode ([','].intercalate cells) = Csv.joined (cells.map Text.encode) := by
  induction cells with
  | nil => rfl
  | cons cell cells ih =>
    cases cells with
    | nil => simp [Csv.joined]
    | cons next cells =>
      rw [List.map_cons] at ih ⊢
      rw [List.map_cons, Csv.joined, List.intercalate_cons_cons, List.intercalate_cons_cons,
        Text.encode_append, Text.encode_append, ih]
      rfl

namespace Arrangement

def cells (arrangement : Arrangement) (margins : Column → Margin) (row : Row) : List (List Char) :=
  arrangement.order.map fun column => (margins column).around (row.text column)

def lineText (arrangement : Arrangement) (margins : Column → Margin) (row : Row) : List Char :=
  [','].intercalate (arrangement.cells margins row)

def text (arrangement : Arrangement) (rows : List Row) : List Char :=
  endsText arrangement.start ++ arrangement.lineText arrangement.heading .names ++
    (rows.zipIdx.flatMap fun (row, number) =>
      endsText (arrangement.gaps number).ends ++
        arrangement.lineText (arrangement.margins number) row) ++
    endsText arrangement.finish

def bytes (arrangement : Arrangement) (rows : List Row) : List UInt8 :=
  Text.encode (arrangement.text rows)

/-- The line of a row with ends of lines in front. -/
def line (arrangement : Arrangement) (before : List LineEnd) (margins : Column → Margin)
    (row : Row) : Csv.Line where
  before := Text.encode (endsText before)
  cells := (arrangement.cells margins row).map Text.encode
  ends := isLineEnd_of_mem_endsText before
  several := by
    rw [List.length_map, cells, List.length_map, arrangement.perm.length_eq]
    decide
  plain := by
    intro cell mem
    obtain ⟨text, inside, rfl⟩ := List.mem_map.1 mem
    obtain ⟨column, _, rfl⟩ := List.mem_map.1 inside
    exact isPlain_encode_around (row.isCell column) (margins column)

variable (arrangement : Arrangement) (rows : List Row)

theorem bytes_line (before : List LineEnd) (margins : Column → Margin) (row : Row) :
    (arrangement.line before margins row).bytes =
      Text.encode (endsText before ++ arrangement.lineText margins row) := by
  rw [Text.encode_append, lineText, encode_intercalate]
  rfl

def rowLine : Row × Nat → Csv.Line
  | (row, number) =>
    arrangement.line (arrangement.gaps number).ends (arrangement.margins number) row

theorem bytes_eq :
    arrangement.bytes rows =
      (arrangement.line arrangement.start arrangement.heading .names).bytes ++
        ((rows.zipIdx.map arrangement.rowLine).flatMap Csv.Line.bytes ++
          Text.encode (endsText arrangement.finish)) := by
  have body : Text.encode (rows.zipIdx.flatMap fun (row, number) =>
      endsText (arrangement.gaps number).ends ++
        arrangement.lineText (arrangement.margins number) row) =
      (rows.zipIdx.map arrangement.rowLine).flatMap Csv.Line.bytes := by
    rw [Text.encode_flatMap, List.flatMap_map]
    exact congrArg (rows.zipIdx.flatMap ·) (funext fun _ => (bytes_line ..).symm)
  rw [bytes, text, Text.encode_append, Text.encode_append, body, bytes_line, List.append_assoc]

theorem isAscii_heading :
    ∀ b ∈ (arrangement.line arrangement.start arrangement.heading .names).bytes,
      b.toNat < 0x80 := by
  have cells : Text.IsAscii (arrangement.lineText arrangement.heading .names) := by
    apply Text.IsAscii.intercalate (by decide)
    intro cell mem
    obtain ⟨column, _, rfl⟩ := List.mem_map.1 mem
    exact (arrangement.heading column).isAscii_around (Row.isAscii_names column)
  rw [bytes_line]
  exact ((isAscii_endsText arrangement.start).append cells).toNat_lt

/-- A reader of records finds the header and then the rows, whatever their arrangement. -/
theorem map_fields_bytes :
    (Csv.records (arrangement.bytes rows)).map Csv.Record.fields =
      (arrangement.cells arrangement.heading .names).map Text.encode ::
        rows.zipIdx.map fun entry => (arrangement.rowLine entry).cells := by
  have apart : ∀ line ∈ rows.zipIdx.map arrangement.rowLine, line.before ≠ [] := by
    intro line mem
    obtain ⟨⟨row, number⟩, _, rfl⟩ := List.mem_map.1 mem
    exact encode_ends_ne_nil (arrangement.gaps number)
  rw [bytes_eq, Csv.map_fields_records _ _ arrangement.isAscii_heading apart
    (isLineEnd_of_mem_endsText _), List.map_map]
  rfl

theorem header_eq {record : Csv.Record}
    (fields : record.fields = (arrangement.cells arrangement.heading .names).map Text.encode) :
    header record = .ok ⟨arrangement.order⟩ := by
  have names : ((arrangement.cells arrangement.heading .names).map Text.trim).map String.ofList =
      arrangement.order.map Column.name := by
    simp only [cells, List.map_map]
    refine List.map_congr_left fun column _ => ?_
    simp only [Function.comp_apply, trim_around (Row.names.isCell column)]
    exact String.ofList_toList
  rw [header, fields, texts_encode]
  simp only [bind, Except.bind, names, Header.ofNames_names arrangement.perm]
  rfl

theorem row_eq {record : Csv.Record} {margins : Column → Margin} {row : Row}
    (fields : record.fields = (arrangement.cells margins row).map Text.encode) :
    TaskSet.row ⟨arrangement.order⟩ record =
      task ⟨arrangement.order⟩ record.position.line (arrangement.order.map row.text) := by
  have length : record.fields.length = arrangement.order.length := by simp [fields, cells]
  have stripped : record.fields.map (Text.stripEnds isBlankByte) =
      (arrangement.order.map row.text).map Text.encode := by
    simp only [fields, cells, List.map_map]
    exact List.map_congr_left fun column _ =>
      stripEnds_encode_around (row.isCell column) (margins column)
  have trimmed : (arrangement.order.map row.text).map Text.trim =
      arrangement.order.map row.text := by
    rw [List.map_map]
    exact List.map_congr_left fun column _ => trim_of_isCell (row.isCell column)
  simp only [TaskSet.row, length, ↓reduceIte, stripped, texts_encode, trimmed]
  rfl

theorem mem_order (column : Column) : column ∈ arrangement.order :=
  arrangement.perm.mem_iff.2 column.mem_all

/-- The rows of a table are read one by one, each as it would be by itself. -/
theorem agree_ofBytes : Agree (ofBytes (arrangement.bytes rows)) (rows.mapM Row.task) := by
  obtain ⟨first, records, all, heading, rest⟩ :=
    List.map_eq_cons_iff.1 (arrangement.map_fields_bytes rows)
  have read : ofBytes (arrangement.bytes rows) =
      records.mapM (TaskSet.row ⟨arrangement.order⟩) := by
    simp only [ofBytes, all, arrangement.header_eq heading]
    rfl
  have fields : List.Forall₂ Eq (records.map Csv.Record.fields)
      (rows.zipIdx.map fun entry => (arrangement.rowLine entry).cells) := by
    rw [rest]
    exact List.forall₂_refl _
  rw [List.forall₂_map_left_iff, List.forall₂_map_right_iff] at fields
  rw [read, ← List.zipIdx_map_fst 0 rows]
  apply Agree.mapM
  rw [List.forall₂_map_right_iff]
  refine fields.imp ?_
  rintro record ⟨row, number⟩ same
  rw [arrangement.row_eq same]
  refine agree_task _ _ fun column => ?_
  rw [Header.cell_map (arrangement.mem_order column), Header.cell_map column.mem_all]

end Arrangement

/-- Two arrangements of one table are read alike, and as the rows would be one by one. -/
theorem arrangements_agree (rows : List Row) (first second : Arrangement) :
    Agree (ofBytes (first.bytes rows)) (ofBytes (second.bytes rows)) ∧
      Agree (ofBytes (first.bytes rows)) (rows.mapM Row.task) := by
  have left := first.agree_ofBytes rows
  have right := second.agree_ofBytes rows
  exact ⟨left.trans right.symm, left⟩

def sampleText : Column → String
  | .jobName => "T(1 1)"
  | .period => "10"
  | .releasePhase => "0"
  | .deadline => "10"
  | .initialExecutionTime => "2"
  | .wcetJitter => "uniform params: [1 to 2]"
  | .releaseJitter => "none"

theorem isCell_sampleText (column : Column) : Text.IsCell (sampleText column).toList := by
  cases column <;> decide +kernel

def Row.sample : Row := ⟨fun column => (sampleText column).toList, isCell_sampleText⟩

/-- The order of the schema, with nothing that can be left out. -/
def Arrangement.compact : Arrangement where
  order := Column.all
  perm := List.Perm.refl _
  start := []
  heading _ := ⟨[], [], by decide, by decide⟩
  gaps _ := ⟨.lineFeed, []⟩
  margins _ _ := ⟨[], [], by decide, by decide⟩
  finish := []

/-- The other way round, with a blank on each side, empty lines, and lines with two ends. -/
def Arrangement.loose : Arrangement where
  order := Column.all.reverse
  perm := List.reverse_perm _
  start := [.lineFeed]
  heading _ := ⟨[' '], ['\t'], by decide, by decide⟩
  gaps _ := ⟨.both, [.carriageReturn]⟩
  margins _ _ := ⟨['\t'], [' '], by decide, by decide⟩
  finish := [.both]

theorem arrangements_agree_sample :
    Arrangement.compact.text [.sample] =
        ("Job Name,Period,Release Phase,Deadline,Initial Execution Time,WCET Jitter,".toList ++
          "Release Jitter\nT(1 1),10,0,10,2,uniform params: [1 to 2],none".toList) ∧
      Arrangement.loose.text [.sample] =
        ("\n Release Jitter\t, WCET Jitter\t, Initial Execution Time\t, Deadline\t,".toList ++
          " Release Phase\t, Period\t, Job Name\t\r\n\r".toList ++
          "\tnone ,\tuniform params: [1 to 2] ,\t2 ,\t10 ,\t0 ,\t10 ,\tT(1 1) \r\n".toList) ∧
      Agree (ofBytes (Arrangement.compact.bytes [.sample]))
        (ofBytes (Arrangement.loose.bytes [.sample])) ∧
      Agree (ofBytes (Arrangement.compact.bytes [.sample])) ([Row.sample].mapM Row.task) :=
  ⟨by decide +kernel, by decide +kernel, arrangements_agree [.sample] .compact .loose⟩

end PeriodicJobs.TaskSet
