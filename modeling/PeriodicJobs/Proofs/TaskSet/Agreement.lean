import Mathlib.Data.List.Basic
import Mathlib.Data.List.Forall2
import PeriodicJobs.TaskSet.Table

set_option autoImplicit false

/- The order of the columns. A header with every column once is accepted in any order, and rows are
read by columns, so that the readings of one table differ at most in the lines of their faults. -/
namespace PeriodicJobs

namespace Column

theorem mem_all (column : Column) : column ∈ all := by
  cases column <;> decide

theorem ofName?_name (column : Column) : ofName? column.name = some column := by
  cases column <;> decide +kernel

theorem ofName?_eq_some {name : String} {column : Column} :
    ofName? name = some column ↔ column.name = name := by
  constructor
  · intro found
    simpa using List.find?_some found
  · rintro rfl
    exact column.ofName?_name

theorem ofName?_eq_none {name : String} :
    ofName? name = none ↔ ∀ column : Column, column.name ≠ name := by
  rw [Option.eq_none_iff_forall_ne_some]
  exact forall_congr' fun column => not_congr ofName?_eq_some

theorem name_injective {column other : Column} (same : column.name = other.name) :
    column = other := by
  have found := ofName?_name column
  rw [same, ofName?_name] at found
  exact (Option.some.inj found).symm

end Column

namespace Header

/-- Names of columns that are new extend the columns seen so far. -/
theorem extend_append {seen columns : List Column} (distinct : (seen ++ columns).Nodup)
    (names : List String) :
    extend seen (columns.map Column.name ++ names) = extend (seen ++ columns) names := by
  induction columns generalizing seen with
  | nil => rw [List.map_nil, List.nil_append, List.append_nil]
  | cons column columns ih =>
    have new : column ∉ seen := fun mem =>
      (List.nodup_append.1 distinct).2.2 column mem column List.mem_cons_self rfl
    have same : seen ++ column :: columns = seen ++ [column] ++ columns := by simp
    rw [same] at distinct ⊢
    simp only [List.map_cons, List.cons_append, extend, Column.ofName?_name, List.contains_eq_mem,
      new, ih distinct]
    rfl

/-- The names of the columns that are missing so far, each once, complete the header in their own
order. -/
theorem extend_names {columns seen : List Column} (perm : (seen ++ columns).Perm Column.all) :
    extend seen (columns.map Column.name) = .ok ⟨seen ++ columns⟩ := by
  have none : (Column.all.find? fun column => !(seen ++ columns).contains column) = none := by
    rw [List.find?_eq_none]
    intro column mem
    have inside : column ∈ seen ++ columns := perm.mem_iff.2 mem
    simp only [List.contains_eq_mem, inside, decide_true, Bool.not_true, Bool.false_eq_true,
      not_false_eq_true]
  have read := extend_append (perm.nodup_iff.2 (by decide)) []
  rw [List.append_nil] at read
  rw [read, extend, none]

theorem ofNames_names {columns : List Column} (perm : columns.Perm Column.all) :
    ofNames (columns.map Column.name) = .ok ⟨columns⟩ := extend_names perm

/-- Every name that is accepted extends the columns by one that is new, and none is missing in the
end. -/
theorem extend_eq_ok {seen : List Column} {names : List String} {header : Header}
    (done : extend seen names = .ok header) :
    ∃ columns, header.columns = seen ++ columns ∧ names = columns.map Column.name ∧
      (seen.Nodup → header.columns.Nodup) ∧ ∀ column, column ∈ header.columns := by
  induction names generalizing seen with
  | nil =>
    rw [extend] at done
    split at done
    · cases done
    · rename_i none
      cases done
      refine ⟨[], (List.append_nil _).symm, rfl, id, fun column => ?_⟩
      simpa using List.find?_eq_none.1 none column column.mem_all
  | cons name names ih =>
    rw [extend] at done
    split at done
    · cases done
    · rename_i column found
      split at done
      · cases done
      · rename_i new
        obtain ⟨columns, same, rfl, distinct, all⟩ := ih done
        have named := Column.ofName?_eq_some.1 found
        refine ⟨column :: columns, ?_, congrArg (· :: _) named.symm, ?_, all⟩
        · rw [same, List.append_assoc, List.singleton_append]
        · intro before
          refine distinct (List.nodup_append.2 ⟨before, by simp, ?_⟩)
          intro other mem column' single same
          rw [List.mem_singleton.1 single] at same
          exact new (by simpa [same] using mem)

/-- The names of a header are those of all columns in some order. -/
theorem ofNames_eq_ok {names : List String} {header : Header}
    (done : ofNames names = .ok header) :
    names = header.columns.map Column.name ∧ header.columns.Perm Column.all := by
  obtain ⟨columns, same, named, distinct, all⟩ := extend_eq_ok done
  rw [List.nil_append] at same
  have nodup := distinct List.nodup_nil
  refine ⟨same ▸ named, (List.perm_ext_iff_of_nodup nodup (by decide)).2 fun column => ?_⟩
  exact ⟨fun _ => column.mem_all, fun _ => all column⟩

theorem cell_map {columns : List Column} {column : Column} (mem : column ∈ columns)
    (cells : Column → List Char) : (Header.mk columns).cell column (columns.map cells) =
      cells column := by
  rw [cell, List.getElem?_map, List.getElem?_idxOf mem]
  rfl

end Header

namespace TaskSet

/-- Readings with the same result, or with the same fault of a cell, be it at another line. -/
inductive Agree {α : Type} : Except TaskSetFault α → Except TaskSetFault α → Prop
  | value (a : α) : Agree (.ok a) (.ok a)
  | fault (line line' : Nat) (column : Column) (text : String) (reason : CellFault) :
      Agree (.error (.invalidCell line column text reason))
        (.error (.invalidCell line' column text reason))

theorem Agree.symm {α : Type} {first second : Except TaskSetFault α}
    (same : Agree first second) : Agree second first := by
  cases same with
  | value a => exact .value a
  | fault line line' column text reason => exact .fault line' line column text reason

theorem Agree.trans {α : Type} {first second third : Except TaskSetFault α}
    (same : Agree first second) (further : Agree second third) : Agree first third := by
  cases same with
  | value a => exact further
  | fault line line' column text reason =>
    cases further with
    | fault _ line'' => exact .fault line line'' column text reason

theorem Agree.bind {α β : Type} {first first' : Except TaskSetFault α}
    {next next' : α → Except TaskSetFault β} (same : Agree first first')
    (later : ∀ a, Agree (next a) (next' a)) : Agree (first >>= next) (first' >>= next') := by
  cases same with
  | value a => exact later a
  | fault line line' column text reason => exact .fault line line' column text reason

/-- Passes over two lists agree if they do at every place. -/
theorem Agree.mapM {α β γ : Type} {f : α → Except TaskSetFault γ} {g : β → Except TaskSetFault γ}
    {first : List α} {second : List β}
    (same : List.Forall₂ (fun a b => Agree (f a) (g b)) first second) :
    Agree (first.mapM f) (second.mapM g) := by
  induction same with
  | nil => exact .value []
  | cons here _ ih =>
    rw [List.mapM_cons, List.mapM_cons]
    exact here.bind fun item => ih.bind fun items => .value (item :: items)

section Rows

variable {header header' : Header} {record record' : List (List Char)} (line line' : Nat)

theorem agree_cell {column : Column}
    (same : header.cell column record = header'.cell column record') {α : Type}
    (reader : List Char → Except CellFault α) :
    Agree (cell header line record column reader) (cell header' line' record' column reader) := by
  simp only [cell, same]
  cases reader (header'.cell column record') with
  | ok a => exact .value a
  | error reason => exact .fault line line' column _ reason

/-- Rows with the same texts in their columns make the same task, or fail at the same text. -/
theorem agree_task (same : ∀ column, header.cell column record = header'.cell column record') :
    Agree (task header line record) (task header' line' record') := by
  refine (agree_cell line line' (same .jobName) _).bind fun id => ?_
  refine (agree_cell line line' (same .period) _).bind fun period => ?_
  refine (agree_cell line line' (same .releasePhase) _).bind fun phase => ?_
  refine (agree_cell line line' (same .deadline) _).bind fun deadline => ?_
  refine (agree_cell line line' (same .initialExecutionTime) _).bind fun _ => ?_
  refine (agree_cell line line' (same .wcetJitter) _).bind fun cost => ?_
  refine (agree_cell line line' (same .releaseJitter) _).bind fun jitter => ?_
  exact .value _

end Rows

end TaskSet

end PeriodicJobs
