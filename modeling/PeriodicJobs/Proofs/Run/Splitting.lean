import PeriodicJobs.Proofs.Run.Rejection
import PeriodicJobs.Proofs.TaskSet.Pieces

set_option autoImplicit false

/- Runs over several files. Only the tasks in their order are handed on, so it makes no difference
over how many files they are spread. -/
namespace PeriodicJobs

/-- A run over the pieces of a table is a run over the table. -/
theorem run_of_isCut {files : Files} {path : String} {bytes : List UInt8} {tasks : List Task}
    (file : files path = .ok bytes) (read : TaskSet.ofBytes bytes = .ok tasks)
    {paths : List String} {pieces : List (List UInt8)} (cut : TaskSet.IsCut bytes pieces)
    (stored : List.Forall₂ (fun path piece => files path = .ok piece) paths pieces)
    (settings : Settings) : run files paths settings = run files [path] settings := by
  obtain ⟨sets, accepted, same⟩ := cut.ofBytes read
  have whole := TaskSet.loadAll_of_file file read
  have parts : TaskSet.loadAll files paths = .ok tasks :=
    TaskSet.loadAll_eq_ok.2 ⟨sets, TaskSet.loads_of_files stored accepted, same⟩
  rw [run_of_read whole, run_of_read parts]

/-- Paths are read one list behind the other: the first fault of the first list that has one
decides, and otherwise the tasks of both stand one behind the other. A table that is accepted may be
cut into several that repeat its header, by the records they have or by the bytes of its lines, and
a run over these is the run over the table, in what it returns and in what it writes on any sink. -/
theorem splitting_changes_nothing (files : Files) :
    (∀ first second : List String, TaskSet.loadAll files (first ++ second) =
      match TaskSet.loadAll files first, TaskSet.loadAll files second with
      | .error fault, _ => .error fault
      | .ok _, .error fault => .error fault
      | .ok tasks, .ok more => .ok (tasks ++ more)) ∧
    ∀ path bytes tasks paths pieces, files path = .ok bytes →
      TaskSet.ofBytes bytes = .ok tasks →
      TaskSet.IsCut bytes pieces ∨ TaskSet.IsCutBetweenLines bytes pieces →
      List.Forall₂ (fun path piece => files path = .ok piece) paths pieces →
      ∀ settings, run files paths settings = run files [path] settings := by
  refine ⟨TaskSet.loadAll_append files, ?_⟩
  intro path bytes tasks paths pieces file read cut stored settings
  exact run_of_isCut file read (cut.elim id TaskSet.IsCutBetweenLines.isCut) stored settings

def plainLine (cells : List String) : List UInt8 :=
  Csv.joined (cells.map fun cell => Text.encode cell.toList) ++ [10]

theorem isLines_plainLine {cells : List String}
    (loose : ∀ cell ∈ cells, Csv.IsLoose (Text.encode cell.toList))
    (some : Csv.joined (cells.map fun cell => Text.encode cell.toList) ≠ []) :
    Csv.IsLines (plainLine cells) [cells.map fun cell => Text.encode cell.toList] := by
  have bare : List.Forall₂ Csv.IsField (cells.map fun cell => Text.encode cell.toList)
      (cells.map fun cell => Text.encode cell.toList) := by
    rw [List.forall₂_same, List.forall_mem_map]
    exact fun cell mem => .bare (loose cell mem)
  have record : Csv.IsRecord (plainLine cells) (cells.map fun cell => Text.encode cell.toList) :=
    ⟨[], _, 10, rfl, List.forall_mem_nil _, some, rfl, bare⟩
  exact ⟨[plainLine cells], [], .cons record .nil, List.forall_mem_nil _, by simp⟩

/-- A table of two rows and the two files that it is cut into. -/
theorem splitting_changes_nothing_two : ∃ (files : Files) (tasks : List Task),
    TaskSet.loadAll files ["all.csv"] = .ok tasks ∧ tasks.length = 2 ∧
      run files ["first.csv", "second.csv"] {} = run files ["all.csv"] {} := by
  let names := Column.all.map Column.name
  let row := ["T(1 1)", "10", "0", "10", "2", "uniform params: [1 to 2]", "none"]
  let heading := plainLine names
  let first := plainLine row
  let last := plainLine ["T(2 1)", "5", "0", "5", "1", "uniform params: [1 to 2]", "none"]
  let table := heading ++ ([first].flatten ++ last)
  let files : Files := fun path =>
    if path = "all.csv" then .ok table
    else if path = "first.csv" then .ok (heading ++ first)
    else if path = "second.csv" then .ok (heading ++ last)
    else .error .notFound
  have headingLines : Csv.IsLines heading [names.map fun name => Text.encode name.toList] :=
    isLines_plainLine (by decide +kernel) (by decide +kernel)
  have firstLines : Csv.IsLines first [row.map fun cell => Text.encode cell.toList] :=
    isLines_plainLine (by decide +kernel) (by decide +kernel)
  have cut : TaskSet.IsCutBetweenLines table [heading ++ first, heading ++ last] :=
    ⟨heading, _, [first], last, ⟨heading, headingLines, .inr ⟨rfl, by decide +kernel⟩⟩,
      List.forall_mem_singleton.2 ⟨_, firstLines⟩, rfl, rfl⟩
  have count : (TaskSet.ofBytes table).map List.length = .ok 2 := by decide +kernel
  obtain ⟨tasks, read, two⟩ := Outcome.map_eq_ok.1 count
  have file : files "all.csv" = .ok table := rfl
  have stored : List.Forall₂ (fun path piece => files path = .ok piece)
      ["first.csv", "second.csv"] [heading ++ first, heading ++ last] := .cons rfl (.cons rfl .nil)
  exact ⟨files, tasks, TaskSet.loadAll_of_file file read, two,
    (splitting_changes_nothing files).2 _ _ _ _ _ file read (.inr cut) stored {}⟩

end PeriodicJobs
