import Mathlib.Data.List.Nodup
import Mathlib.Data.List.Perm.Basic
import PeriodicJobs.Proofs.TaskSet.Rows

set_option autoImplicit false

/- The names of a header. They are accepted when they are those of all columns in some order, and then
each column has one position of its own. Else the names are right up to some point from the left, and
what follows there decides the fault. -/
namespace PeriodicJobs

namespace Header

/-- What is wrong first with some names, where those before it are of columns and none is repeated:
a name of no column, a name once more, or, behind all names, the first column in the order of the
schema that is missing. -/
inductive FirstFault : List String → HeaderFault → Prop
  | unexpected {columns : List Column} {name : String} {after : List String}
      (distinct : columns.Nodup) (unknown : ∀ column : Column, column.name ≠ name) :
      FirstFault (columns.map Column.name ++ name :: after) (.unexpected name)
  | duplicate {columns : List Column} {column : Column} {after : List String}
      (distinct : columns.Nodup) (again : column ∈ columns) :
      FirstFault (columns.map Column.name ++ column.name :: after) (.duplicate column)
  | missing {columns before after : List Column} {column : Column} (distinct : columns.Nodup)
      (schema : Column.all = before ++ column :: after)
      (present : ∀ other ∈ before, other ∈ columns) (absent : column ∉ columns) :
      FirstFault (columns.map Column.name) (.missing column)

/-- The index of a column in every record. -/
def position (header : Header) (column : Column) : Nat := header.columns.idxOf column

/-- A header under which each column has the one position of its name, and a cell there in every
record that has as many cells as there are names. -/
structure Locates (header : Header) (names : List String) : Prop where
  named : ∀ column index, names[index]? = some column.name ↔ index = header.position column
  apart : ∀ column other, header.position column = header.position other → column = other
  found : ∀ record : List (List Char), record.length = names.length → ∀ column,
    record[header.position column]? = some (header.cell column record)

theorem firstFault_of_extend {seen : List Column} {names : List String} {fault : HeaderFault}
    (distinct : seen.Nodup) (failed : extend seen names = .error fault) :
    FirstFault (seen.map Column.name ++ names) fault := by
  induction names generalizing seen with
  | nil =>
    rw [extend] at failed
    split at failed
    · rename_i column found
      cases failed
      obtain ⟨absent, before, after, schema, present⟩ := List.find?_eq_some_iff_append.1 found
      rw [List.append_nil]
      exact .missing distinct schema (by simpa using present) (by simpa using absent)
    · cases failed
  | cons name names ih =>
    rw [extend] at failed
    split at failed
    · rename_i unknown
      cases failed
      exact .unexpected distinct (Column.ofName?_eq_none.1 unknown)
    · rename_i column found
      obtain rfl := Column.ofName?_eq_some.1 found
      split at failed
      · rename_i again
        cases failed
        exact .duplicate distinct (by simpa using again)
      · rename_i new
        have longer : (seen ++ [column]).Nodup := by
          rw [← List.concat_eq_append, List.nodup_concat]
          exact ⟨by simpa using new, distinct⟩
        simpa using ih longer failed

/-- The first fault from the left is the one that is found. -/
theorem ofNames_eq_error {names : List String} {fault : HeaderFault} :
    ofNames names = .error fault ↔ FirstFault names fault := by
  constructor
  · exact firstFault_of_extend List.nodup_nil
  · intro first
    rw [ofNames]
    cases first with
    | unexpected distinct unknown =>
      rw [extend_append (by simpa using distinct), extend, Column.ofName?_eq_none.2 unknown]
    | @duplicate columns column after distinct again =>
      rw [extend_append (by simpa using distinct), extend, Column.ofName?_name, List.nil_append]
      simp only [List.contains_eq_mem, again, decide_true, ↓reduceIte]
    | @missing columns before after column distinct schema present absent =>
      have found : (Column.all.find? fun other => !columns.contains other) = some column :=
        List.find?_eq_some_iff_append.2
          ⟨by simpa using absent, before, after, schema, by simpa using present⟩
      have read : extend [] (columns.map Column.name ++ []) = extend ([] ++ columns) [] :=
        extend_append (by simpa using distinct) []
      rw [List.append_nil, List.nil_append] at read
      rw [read, extend, found]

/-- Seven names of seven columns, none of them missing, are in some order the names of the schema. -/
theorem exists_ofNames_iff {names : List String} :
    (∃ header, ofNames names = .ok header) ↔ names.Perm (Column.all.map Column.name) := by
  constructor
  · rintro ⟨header, done⟩
    obtain ⟨rfl, perm⟩ := ofNames_eq_ok done
    exact perm.map _
  · intro perm
    have split := congrFun (congrFun (List.eq_map_comp_perm Column.name) names) Column.all
    obtain ⟨columns, rfl, order⟩ := split.mpr perm
    exact ⟨_, ofNames_names order⟩

theorem locates_of_ofNames {names : List String} {header : Header}
    (done : ofNames names = .ok header) : header.Locates names := by
  obtain ⟨rfl, perm⟩ := ofNames_eq_ok done
  have distinct : header.columns.Nodup := perm.nodup_iff.2 (by decide)
  have mem (column : Column) : column ∈ header.columns := perm.mem_iff.2 column.mem_all
  have inside (column : Column) : header.position column < header.columns.length :=
    List.idxOf_lt_length_of_mem (mem column)
  have stands (column : Column) : header.columns[header.position column]? = some column :=
    List.getElem?_idxOf (mem column)
  constructor
  · intro column index
    rw [List.getElem?_map, Option.map_eq_some_iff]
    constructor
    · rintro ⟨other, found, same⟩
      obtain rfl := Column.name_injective same
      obtain ⟨below, rfl⟩ := List.getElem?_eq_some_iff.1 found
      exact (distinct.idxOf_getElem index below).symm
    · rintro rfl
      exact ⟨column, stands column, rfl⟩
  · intro column other same
    have found := stands column
    rw [same, stands other] at found
    exact (Option.some.inj found).symm
  · intro record length column
    rw [List.length_map] at length
    have below : header.position column < record.length := length ▸ inside column
    rw [cell]
    change _ = some ((record[header.position column]?).getD [])
    rw [List.getElem?_eq_getElem below, Option.getD_some]

end Header

namespace TaskSet

theorem header_of_holds {head : Csv.Record} {names : List String}
    (holds : List.Forall₂ Holds head.fields (names.map String.toList)) :
    header head = (Header.ofNames names).mapError .header := by
  have decoded : texts head.position 0 head.fields = .ok (names.map String.toList) := by
    rw [texts_eq_ok]
    refine holds.imp ?_
    rintro field _ ⟨core, rfl, rfl⟩
    exact ⟨core, Text.decode_encode core, rfl⟩
  have same : (names.map String.toList).map String.ofList = names := by
    simp only [List.map_map, Function.comp_def, String.ofList_toList, List.map_id_fun', id]
  rw [header, decoded]
  change (Header.ofNames ((names.map String.toList).map String.ofList)).mapError
    TaskSetFault.header = _
  rw [same]

/-- A row with another number of fields than the header is refused before any cell is looked up. -/
theorem row_of_unequal {columns : Header} {record : Csv.Record}
    (differ : record.fields.length ≠ columns.columns.length) :
    row columns record = .error (.malformed
      (.unequalLengths record.position record.fields.length columns.columns.length)) := by
  simp only [row, if_neg differ]

/-- The names of a header, without the white space around them, decide it. It is accepted just if
they are those of all columns in some order. Then each column has the position of its name for its
own, where every record that is let through has a cell. Otherwise the first fault from the left is
reported. -/
theorem names_decide_header (head : Csv.Record) {names : List String}
    (holds : List.Forall₂ Holds head.fields (names.map String.toList)) :
    ((∃ columns, header head = .ok columns) ↔ names.Perm (Column.all.map Column.name)) ∧
    (∀ columns, header head = .ok columns → columns.Locates names ∧
      ∀ record : Csv.Record, record.fields.length ≠ names.length →
        row columns record = .error (.malformed
          (.unequalLengths record.position record.fields.length names.length))) ∧
    ∀ fault, header head = .error fault ↔
      ∃ first, Header.FirstFault names first ∧ fault = .header first := by
  rw [header_of_holds holds]
  refine ⟨?_, ?_, ?_⟩
  · simp only [Outcome.mapError_eq_ok, Header.exists_ofNames_iff]
  · intro columns done
    rw [Outcome.mapError_eq_ok] at done
    refine ⟨Header.locates_of_ofNames done, fun record differ => ?_⟩
    obtain ⟨rfl, _⟩ := Header.ofNames_eq_ok done
    rw [List.length_map] at differ ⊢
    exact row_of_unequal differ
  · intro fault
    simp only [Outcome.mapError_eq_error, Header.ofNames_eq_error, eq_comm (b := fault)]

/-- A header of some names with blanks on both sides of each. -/
def spacedHead (names : List String) : Csv.Record :=
  ⟨names.map fun name => Text.encode (' ' :: name.toList ++ ['\t']), .start⟩

/-- All columns backwards; one that is repeated before a name is unknown and others are missing; and
one column alone. -/
theorem names_decide_header_spaced :
    (∃ columns, header (spacedHead (Column.all.reverse.map Column.name)) = .ok columns) ∧
    header (spacedHead ["Period", "Deadline", "Period", "Priority"]) =
      .error (.header (.duplicate .period)) ∧
    header (spacedHead ["Job Name"]) = .error (.header (.missing .period)) := by
  have holds (names : List String)
      (read : texts .start 0 (spacedHead names).fields = .ok (names.map String.toList)) :
      List.Forall₂ Holds (spacedHead names).fields (names.map String.toList) := by
    refine (texts_eq_ok.1 read).imp ?_
    rintro field _ ⟨core, decoded, rfl⟩
    exact holds_of_decode decoded
  refine ⟨?_, ?_, ?_⟩
  · apply (names_decide_header _ (holds _ (by decide +kernel))).1.2
    exact (List.reverse_perm Column.all).map Column.name
  · apply ((names_decide_header _ (holds _ (by decide +kernel))).2.2 _).2
    exact ⟨_, @Header.FirstFault.duplicate [.period, .deadline] .period _ (by decide) (by decide),
      rfl⟩
  · apply ((names_decide_header _ (holds _ (by decide +kernel))).2.2 _).2
    exact ⟨_, @Header.FirstFault.missing [.jobName] [.jobName] _ .period (by decide) rfl (by decide)
      (by decide), rfl⟩

end TaskSet

end PeriodicJobs
