import PeriodicJobs.Proofs.TaskSet.Fields

set_option autoImplicit false

/- Rows as tasks. A record that has a text in every column is a task if each text is accepted, and
otherwise the first column in the order of the schema whose text is refused decides the fault. -/
namespace PeriodicJobs

namespace Column

/-- Why a text is refused in the cells of a column, if it is. -/
def refusal? (text : List Char) : Column → Option CellFault
  | .jobName => Outcome.fault? (Cell.taskId text)
  | .period => Outcome.fault? (Cell.nonNegative text)
  | .releasePhase | .deadline | .initialExecutionTime => Outcome.fault? (Cell.real text)
  | .wcetJitter => Outcome.fault? (Cell.range text)
  | .releaseJitter => Outcome.fault? (Cell.jitter text)

/-- A column whose text is refused while no text is in the columns before it, in the order of the
schema. -/
def IsFirstRefused (text : Column → List Char) (column : Column) (reason : CellFault) : Prop :=
  ∃ before after, all = before ++ column :: after ∧
    column.refusal? (text column) = some reason ∧
    ∀ other ∈ before, other.refusal? (text other) = none

end Column

/-- A task that the texts of the columns make. The initial execution time has no part in it but has
to be a number. -/
structure Task.IsMadeOf (task : Task) (text : Column → List Char) : Prop where
  id : Cell.taskId (text .jobName) = .ok task.id
  period : Cell.nonNegative (text .period) = .ok task.period
  phase : Cell.real (text .releasePhase) = .ok task.phase
  deadline : Cell.real (text .deadline) = .ok task.deadline
  executionTime : ∃ time, Cell.real (text .initialExecutionTime) = .ok time
  cost : Cell.range (text .wcetJitter) = .ok task.cost
  jitter : Cell.jitter (text .releaseJitter) = .ok task.jitter

/-- No text of which a task is made is refused. -/
theorem Task.IsMadeOf.refusal?_eq_none {task : Task} {text : Column → List Char}
    (made : task.IsMadeOf text) (column : Column) : column.refusal? (text column) = none := by
  obtain ⟨time, executionTime⟩ := made.executionTime
  cases column with
  | jobName => exact Outcome.fault?_eq_none.2 ⟨_, made.id⟩
  | period => exact Outcome.fault?_eq_none.2 ⟨_, made.period⟩
  | releasePhase => exact Outcome.fault?_eq_none.2 ⟨_, made.phase⟩
  | deadline => exact Outcome.fault?_eq_none.2 ⟨_, made.deadline⟩
  | initialExecutionTime => exact Outcome.fault?_eq_none.2 ⟨_, executionTime⟩
  | wcetJitter => exact Outcome.fault?_eq_none.2 ⟨_, made.cost⟩
  | releaseJitter => exact Outcome.fault?_eq_none.2 ⟨_, made.jitter⟩

namespace TaskSet

section Cells

variable {header : Header} {line : Nat} {record : List (List Char)}

theorem cell_eq_ok {α : Type} {column : Column} {reader : List Char → Except CellFault α} {a : α} :
    cell header line record column reader = .ok a ↔ reader (header.cell column record) = .ok a :=
  Outcome.mapError_eq_ok

theorem task_eq_ok {task : Task} :
    TaskSet.task header line record = .ok task ↔
      task.IsMadeOf fun column => header.cell column record := by
  simp only [TaskSet.task, Outcome.bind_eq_ok, cell_eq_ok]
  constructor
  · rintro ⟨id, hId, period, hPeriod, phase, hPhase, deadline, hDeadline, time, hTime, cost, hCost,
      jitter, hJitter, made⟩
    cases made
    exact ⟨hId, hPeriod, hPhase, hDeadline, ⟨time, hTime⟩, hCost, hJitter⟩
  · rintro ⟨hId, hPeriod, hPhase, hDeadline, ⟨time, hTime⟩, hCost, hJitter⟩
    exact ⟨_, hId, _, hPeriod, _, hPhase, _, hDeadline, time, hTime, _, hCost, _, hJitter, rfl⟩

/-- The readers of the cells run in the order of the schema. -/
theorem fault?_task (header : Header) (line : Nat) (record : List (List Char)) :
    Outcome.fault? (TaskSet.task header line record) =
      Column.all.findSome? fun column =>
        (column.refusal? (header.cell column record)).map fun reason =>
          .invalidCell line column (String.ofList (header.cell column record)) reason := by
  simp only [TaskSet.task, cell, Column.all, List.findSome?_cons, List.findSome?_nil,
    Column.refusal?]
  cases Cell.taskId (header.cell .jobName record) with
  | error reason => rfl
  | ok id =>
  cases Cell.nonNegative (header.cell .period record) with
  | error reason => rfl
  | ok period =>
  cases Cell.real (header.cell .releasePhase record) with
  | error reason => rfl
  | ok phase =>
  cases Cell.real (header.cell .deadline record) with
  | error reason => rfl
  | ok deadline =>
  cases Cell.real (header.cell .initialExecutionTime record) with
  | error reason => rfl
  | ok time =>
  cases Cell.range (header.cell .wcetJitter record) with
  | error reason => rfl
  | ok cost =>
  cases Cell.jitter (header.cell .releaseJitter record) with
  | error reason => rfl
  | ok jitter => rfl

theorem task_eq_error {fault : TaskSetFault} :
    TaskSet.task header line record = .error fault ↔
      ∃ column reason, column.IsFirstRefused (fun column => header.cell column record) reason ∧
        fault = .invalidCell line column (String.ofList (header.cell column record)) reason := by
  rw [← Outcome.fault?_eq_some, fault?_task, List.findSome?_eq_some_iff]
  constructor
  · rintro ⟨before, column, after, split, refused, first⟩
    obtain ⟨reason, found, rfl⟩ := Option.map_eq_some_iff.1 refused
    refine ⟨column, reason, ⟨before, after, split, found, ?_⟩, rfl⟩
    exact fun other mem => Option.map_eq_none_iff.1 (first other mem)
  · rintro ⟨column, reason, ⟨before, after, split, refused, first⟩, rfl⟩
    refine ⟨before, column, after, split, Option.map_eq_some_iff.2 ⟨reason, refused, rfl⟩, ?_⟩
    exact fun other mem => Option.map_eq_none_iff.2 (first other mem)

end Cells

/-- A record that has a text in every column: it has as many fields as the head, and each column is
where the head has its name. -/
structure IsRow (head record : Csv.Record) (text : Column → List Char) : Prop where
  length : record.fields.length = head.fields.length
  cells : ∀ column, ∃ (index : Nat) (name field : List UInt8), head.fields[index]? = some name ∧
    Holds name column.name.toList ∧ record.fields[index]? = some field ∧
    Holds field (text column)

/-- A record that is a task. -/
def Reads (head record : Csv.Record) (task : Task) : Prop :=
  ∃ text, IsRow head record text ∧ task.IsMadeOf text

theorem Reads.length {head record : Csv.Record} {task : Task} (reads : Reads head record task) :
    record.fields.length = head.fields.length := by
  obtain ⟨_, isRow, _⟩ := reads
  exact isRow.length

/-- How a record is refused: for the number of its fields, for the first field that is no text, or
for the first column in the order of the schema whose text is refused. -/
inductive Refused (head record : Csv.Record) : TaskSetFault → Prop
  | unequalLengths (differ : record.fields.length ≠ head.fields.length) :
      Refused head record (.malformed (.unequalLengths record.position record.fields.length
        head.fields.length))
  | invalidText {before after : List (List UInt8)} {field : List UInt8} {valid : Nat}
      (length : record.fields.length = head.fields.length)
      (split : record.fields = before ++ field :: after)
      (first : ∀ other ∈ before, ∃ text, Holds other text)
      (invalid : Text.decode (Text.stripEnds isBlankByte field) = .error valid) :
      Refused head record (.malformed (.invalidText record.position before.length valid))
  | invalidCell {text : Column → List Char} {column : Column} {reason : CellFault}
      (row : IsRow head record text) (first : column.IsFirstRefused text reason) :
      Refused head record (.invalidCell record.position.line column
        (String.ofList (text column)) reason)

/-- A record of the names of all columns, and the order in which it has them. -/
structure IsHead (head : Csv.Record) (columns : Header) : Prop where
  perm : columns.columns.Perm Column.all
  names : List.Forall₂ Holds head.fields (columns.columns.map fun column => column.name.toList)

theorem isHead_of_header {head : Csv.Record} {columns : Header}
    (resolved : header head = .ok columns) : IsHead head columns := by
  obtain ⟨names, read, named⟩ := Outcome.bind_eq_ok.1 resolved
  obtain ⟨same, perm⟩ := Header.ofNames_eq_ok (Outcome.mapError_eq_ok.1 named)
  refine ⟨perm, ?_⟩
  have texts : names = columns.columns.map fun column => column.name.toList := by
    have lists := congrArg (List.map String.toList) same
    simpa [Function.comp_def] using lists
  rw [← texts]
  exact holds_of_texts read

theorem texts_stripped {start : Csv.Position} {index : Nat} {fields : List (List UInt8)}
    {cells : List (List Char)} :
    texts start index (fields.map (Text.stripEnds isBlankByte)) = .ok cells ↔
      List.Forall₂ Holds fields cells := by
  have holds : Holds = fun field text => ∃ core,
      Text.decode (Text.stripEnds isBlankByte field) = .ok core ∧ text = Text.trim core :=
    funext fun _ => funext fun _ => propext holds_iff
  rw [texts_eq_ok, List.forall₂_map_left_iff, holds]

theorem texts_stripped_error {start : Csv.Position} {fields : List (List UInt8)}
    {fault : TaskSetFault} :
    texts start 0 (fields.map (Text.stripEnds isBlankByte)) = .error fault ↔
      ∃ before field after valid, fields = before ++ field :: after ∧
        (∀ other ∈ before, ∃ text, Holds other text) ∧
        Text.decode (Text.stripEnds isBlankByte field) = .error valid ∧
        fault = .malformed (.invalidText start before.length valid) := by
  rw [texts_eq_error]
  constructor
  · rintro ⟨_, _, _, valid, split, first, invalid, rfl⟩
    obtain ⟨before, rest, rfl, rfl, ends⟩ := List.map_eq_append_iff.1 split
    obtain ⟨field, after, rfl, rfl, rfl⟩ := List.map_eq_cons_iff.1 ends
    refine ⟨before, field, after, valid, rfl, ?_, invalid, by rw [List.length_map, Nat.zero_add]⟩
    intro other mem
    obtain ⟨core, decoded⟩ := first _ (List.mem_map_of_mem mem)
    exact ⟨_, holds_iff.2 ⟨core, decoded, rfl⟩⟩
  · rintro ⟨before, field, after, valid, rfl, first, invalid, rfl⟩
    refine ⟨before.map (Text.stripEnds isBlankByte), _, after.map (Text.stripEnds isBlankByte),
      valid, by rw [List.map_append, List.map_cons], ?_, invalid,
      by rw [List.length_map, Nat.zero_add]⟩
    intro other mem
    obtain ⟨other, inside, rfl⟩ := List.mem_map.1 mem
    obtain ⟨text, holds⟩ := first other inside
    obtain ⟨core, decoded, _⟩ := holds_iff.1 holds
    exact ⟨core, decoded⟩

namespace IsHead

variable {head record : Csv.Record} {columns : Header} (isHead : IsHead head columns)

include isHead

theorem distinct : columns.columns.Nodup := isHead.perm.nodup_iff.2 (by decide)

theorem mem (column : Column) : column ∈ columns.columns := isHead.perm.mem_iff.2 column.mem_all

theorem length_eq : head.fields.length = columns.columns.length := by
  rw [isHead.names.length_eq, List.length_map]

theorem cell_map (text : Column → List Char) :
    (fun column => columns.cell column (columns.columns.map text)) = text :=
  funext fun column => Header.cell_map (isHead.mem column) text

/-- The texts of a record stand in the order of the head. -/
theorem isRow_iff {text : Column → List Char} :
    IsRow head record text ↔ List.Forall₂ Holds record.fields (columns.columns.map text) := by
  have length := isHead.length_eq
  constructor
  · intro row
    have same : record.fields.length = columns.columns.length := row.length.trans length
    apply List.forall₂_of_length_eq_of_get
    · rw [same, List.length_map]
    · intro index inside inside'
      rw [List.length_map] at inside'
      obtain ⟨index', name, field, found, named, found', holds⟩ :=
        row.cells columns.columns[index]
      obtain ⟨below, rfl⟩ := List.getElem?_eq_some_iff.1 found
      obtain ⟨below', rfl⟩ := List.getElem?_eq_some_iff.1 found'
      have named' := isHead.names.get below (by rw [List.length_map]; omega)
      simp only [List.get_eq_getElem, List.getElem_map] at named' ⊢
      have sameName := Column.name_injective (String.toList_inj.1 (named.unique named'))
      have sameIndex : index = index' := by
        rw [← isHead.distinct.idxOf_getElem index inside', sameName,
          isHead.distinct.idxOf_getElem]
      subst sameIndex
      exact holds
  · intro cells
    have same := cells.length_eq
    rw [List.length_map] at same
    refine ⟨same.trans length.symm, fun column => ?_⟩
    have below := List.idxOf_lt_length_of_mem (isHead.mem column)
    have named := isHead.names.get (i := columns.columns.idxOf column) (by omega)
      (by rwa [List.length_map])
    have holds := cells.get (i := columns.columns.idxOf column) (by omega)
      (by rwa [List.length_map])
    simp only [List.get_eq_getElem, List.getElem_map, List.getElem_idxOf] at named holds
    exact ⟨_, _, _, List.getElem?_eq_getElem _, named, List.getElem?_eq_getElem _, holds⟩

theorem isRow_unique {text text' : Column → List Char} (isRow : IsRow head record text)
    (isRow' : IsRow head record text') : text = text' := by
  have cells : texts .start 0 (record.fields.map (Text.stripEnds isBlankByte)) =
      .ok (columns.columns.map text) := texts_stripped.2 (isHead.isRow_iff.1 isRow)
  rw [texts_stripped.2 (isHead.isRow_iff.1 isRow')] at cells
  rw [← isHead.cell_map text, ← isHead.cell_map text', Except.ok.inj cells]

/-- A record of texts, as many as there are columns, has a text in every column. -/
theorem isRow_of_holds {cells : List (List Char)} (holds : List.Forall₂ Holds record.fields cells)
    (length : record.fields.length = columns.columns.length) :
    IsRow head record fun column => columns.cell column cells := by
  rw [isHead.isRow_iff]
  have same : columns.columns.map (fun column => columns.cell column cells) = cells := by
    apply List.ext_getElem
    · rw [List.length_map, ← length, holds.length_eq]
    · intro index inside inside'
      rw [List.getElem_map, Header.cell, isHead.distinct.idxOf_getElem,
        List.getElem?_eq_getElem inside', Option.getD_some]
  rwa [same]

/-- A row reads a task just if the record is one. -/
theorem row_eq_ok {task : Task} : row columns record = .ok task ↔ Reads head record task := by
  simp only [row]
  constructor
  · intro read
    split at read
    · rename_i length
      obtain ⟨cells, decoded, made⟩ := Outcome.bind_eq_ok.1 read
      exact ⟨_, isHead.isRow_of_holds (texts_stripped.1 decoded) length, task_eq_ok.1 made⟩
    · cases read
  · rintro ⟨text, isRow, made⟩
    rw [if_pos (isRow.length.trans isHead.length_eq)]
    refine Outcome.bind_eq_ok.2 ⟨_, texts_stripped.2 (isHead.isRow_iff.1 isRow), task_eq_ok.2 ?_⟩
    rwa [isHead.cell_map]

/-- A row fails just if the record is refused, with the same fault. -/
theorem row_eq_error {fault : TaskSetFault} :
    row columns record = .error fault ↔ Refused head record fault := by
  have width := isHead.length_eq
  simp only [row]
  constructor
  · intro failed
    split at failed
    · rename_i length
      rcases Outcome.bind_eq_error.1 failed with undecoded | ⟨cells, decoded, failed⟩
      · obtain ⟨before, field, after, valid, split, first, invalid, rfl⟩ :=
          texts_stripped_error.1 undecoded
        exact .invalidText (length.trans width.symm) split first invalid
      · obtain ⟨column, reason, refused, rfl⟩ := task_eq_error.1 failed
        have isRow := isHead.isRow_of_holds (texts_stripped.1 decoded) length
        exact .invalidCell isRow refused
    · rename_i differ
      cases failed
      rw [← width] at differ ⊢
      exact .unequalLengths differ
  · intro refused
    cases refused with
    | unequalLengths differ =>
      rw [width] at differ ⊢
      rw [if_neg differ]
    | @invalidText before after field valid length split first invalid =>
      rw [if_pos (length.trans width)]
      exact Outcome.bind_eq_error.2 (.inl (texts_stripped_error.2
        ⟨before, field, after, valid, split, first, invalid, rfl⟩))
    | @invalidCell text column reason isRow first =>
      rw [if_pos (isRow.length.trans width)]
      refine Outcome.bind_eq_error.2 (.inr ⟨_, texts_stripped.2 (isHead.isRow_iff.1 isRow),
        task_eq_error.2 ⟨column, reason, ?_, ?_⟩⟩)
      · rwa [isHead.cell_map]
      · rw [congrFun (isHead.cell_map text) column]

/-- A record that has a text in every column is refused for the first text that is. -/
theorem refused_of_isRow {text : Column → List Char} (isRow : IsRow head record text)
    {fault : TaskSetFault} (refused : Refused head record fault) :
    ∃ column reason, column.IsFirstRefused text reason ∧
      fault = .invalidCell record.position.line column (String.ofList (text column)) reason := by
  have failed := isHead.row_eq_error.2 refused
  simp only [row, isRow.length.trans isHead.length_eq, ↓reduceIte,
    texts_stripped.2 (isHead.isRow_iff.1 isRow)] at failed
  obtain ⟨column, reason, first, rfl⟩ := task_eq_error.1 failed
  rw [isHead.cell_map] at first
  exact ⟨column, reason, first, by rw [congrFun (isHead.cell_map text) column]⟩

end IsHead

/-- A table that is accepted has a row for every task. -/
theorem exists_row_of_mem {bytes : List UInt8} {tasks : List Task}
    (read : ofBytes bytes = .ok tasks) {task : Task} (mem : task ∈ tasks) :
    ∃ head rows record, Csv.records bytes = head :: rows ∧ record ∈ rows ∧
      Reads head record task := by
  cases found : Csv.records bytes with
  | nil =>
    simp only [ofBytes, found] at read
    obtain ⟨_, _, rest⟩ := Outcome.bind_eq_ok.1 read
    cases rest
    cases mem
  | cons head rows =>
    simp only [ofBytes, found] at read
    obtain ⟨columns, resolved, rest⟩ := Outcome.bind_eq_ok.1 read
    obtain ⟨record, inside, made⟩ := Outcome.mem_of_mapM rest mem
    exact ⟨head, rows, record, rfl, inside, (isHead_of_header resolved).row_eq_ok.1 made⟩

end TaskSet

end PeriodicJobs
