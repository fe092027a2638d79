import PeriodicJobs.Proofs.Csv.Contents
import PeriodicJobs.Proofs.TaskSet.FirstFault

set_option autoImplicit false

/- Tables in pieces. What a table holds depends on the fields of its records and not on where they
stand, so its rows may be cut into several tables that repeat its header. -/
namespace PeriodicJobs.TaskSet

/-- Tables that have the rows of one table between them, in order, and each of them its header. -/
def IsCut (bytes : List UInt8) (pieces : List (List UInt8)) : Prop :=
  ∃ names parts, (Csv.records bytes).map Csv.Record.fields = names :: parts.flatten ∧
    List.Forall₂ (fun piece part => (Csv.records piece).map Csv.Record.fields = names :: part)
      pieces parts

/-- A file that is cut between its lines, with its first line in front of every piece. -/
def IsCutBetweenLines (bytes : List UInt8) (pieces : List (List UInt8)) : Prop :=
  ∃ heading names bodies last, Csv.IsHeading heading names ∧
    (∀ body ∈ bodies, ∃ all, Csv.IsLines body all) ∧
    bytes = heading ++ (bodies.flatten ++ last) ∧
    pieces = (bodies ++ [last]).map (heading ++ ·)

theorem IsCutBetweenLines.isCut {bytes : List UInt8} {pieces : List (List UInt8)}
    (between : IsCutBetweenLines bytes pieces) : IsCut bytes pieces := by
  obtain ⟨heading, names, bodies, last, isHeading, lines, rfl, rfl⟩ := between
  refine ⟨names, (bodies ++ [last]).map Csv.contents, ?_, ?_⟩
  · rw [isHeading.records, Csv.contents_flatten lines, List.map_append, List.flatten_append]
    simp
  · rw [List.forall₂_map_left_iff, List.forall₂_map_right_iff, List.forall₂_same]
    exact fun body _ => isHeading.records body

/-- The names of the columns are read wherever they stand. -/
theorem header_congr {head head' : Csv.Record} (same : head.fields = head'.fields)
    {columns : Header} (resolved : header head = .ok columns) : header head' = .ok columns := by
  obtain ⟨names, read, named⟩ := Outcome.bind_eq_ok.1 resolved
  rw [texts_eq_ok, same, ← texts_eq_ok] at read
  exact Outcome.bind_eq_ok.2 ⟨names, read, named⟩

/-- A record of names and a record below it make a task, wherever they stand. -/
def MakesTask (names fields : List (List UInt8)) (task : Task) : Prop :=
  Reads ⟨names, .start⟩ ⟨fields, .start⟩ task

theorem makesTask_iff {head record : Csv.Record} {task : Task} :
    MakesTask head.fields record.fields task ↔ Reads head record task := by
  constructor <;> exact fun ⟨text, ⟨length, cells⟩, made⟩ => ⟨text, ⟨length, cells⟩, made⟩

theorem reads_congr {head head' record record' : Csv.Record} (sameHead : head.fields = head'.fields)
    (same : record.fields = record'.fields) {task : Task} (reads : Reads head record task) :
    Reads head' record' task := by
  rw [← makesTask_iff] at reads ⊢
  rwa [← sameHead, ← same]

/-- Which tasks a table holds is a matter of the fields of its records. -/
theorem ofBytes_eq_ok_iff {bytes : List UInt8} {names : List (List UInt8)}
    {part : List (List (List UInt8))}
    (fields : (Csv.records bytes).map Csv.Record.fields = names :: part) {tasks : List Task} :
    ofBytes bytes = .ok tasks ↔
      (∃ columns, header ⟨names, .start⟩ = .ok columns) ∧
        List.Forall₂ (MakesTask names) part tasks := by
  obtain ⟨head, rows, found, rfl, rfl⟩ := List.map_eq_cons_iff.1 fields
  have rowwise : List.Forall₂ (MakesTask head.fields) (rows.map Csv.Record.fields) tasks ↔
      List.Forall₂ (Reads head) rows tasks := by
    rw [List.forall₂_map_left_iff]
    exact ⟨fun made => made.imp fun _ _ => makesTask_iff.1,
      fun reads => reads.imp fun _ _ => makesTask_iff.2⟩
  rw [rowwise]
  constructor
  · intro read
    simp only [ofBytes, found] at read
    obtain ⟨columns, resolved, rest⟩ := Outcome.bind_eq_ok.1 read
    have same : head.fields = (⟨head.fields, .start⟩ : Csv.Record).fields := rfl
    refine ⟨⟨columns, header_congr same resolved⟩, (ofBytes_eq_ok found resolved).1 ?_⟩
    rw [ofBytes_of_header found resolved, rest]
  · rintro ⟨⟨columns, resolved⟩, reads⟩
    have same : (⟨head.fields, .start⟩ : Csv.Record).fields = head.fields := rfl
    exact (ofBytes_eq_ok found (header_congr same resolved)).2 reads

/-- What relates to several lists one behind the other is several lists one behind the other. -/
theorem exists_flatten {α β : Type} {R : α → β → Prop} {parts : List (List α)} {items : List β}
    (related : List.Forall₂ R parts.flatten items) :
    ∃ sets, List.Forall₂ (List.Forall₂ R) parts sets ∧ sets.flatten = items := by
  induction parts generalizing items with
  | nil =>
    cases related
    exact ⟨[], .nil, rfl⟩
  | cons part parts ih =>
    have swapped : List.Forall₂ (flip R) items (part ++ parts.flatten) :=
      List.Forall₂.flip (R := flip R) related
    have first := List.Forall₂.flip (List.forall₂_take_append items part parts.flatten swapped)
    have others := List.Forall₂.flip (List.forall₂_drop_append items part parts.flatten swapped)
    obtain ⟨sets, later, same⟩ := ih others
    refine ⟨items.take part.length :: sets, .cons first later, ?_⟩
    rw [List.flatten_cons, same, List.take_append_drop]

/-- The pieces of an accepted table are accepted, and have its tasks between them. -/
theorem IsCut.ofBytes {bytes : List UInt8} {pieces : List (List UInt8)} (cut : IsCut bytes pieces)
    {tasks : List Task} (read : ofBytes bytes = .ok tasks) :
    ∃ sets, List.Forall₂ (fun piece set => TaskSet.ofBytes piece = .ok set) pieces sets ∧
      sets.flatten = tasks := by
  obtain ⟨names, parts, whole, cuts⟩ := cut
  obtain ⟨named, made⟩ := (ofBytes_eq_ok_iff whole).1 read
  obtain ⟨sets, parted, same⟩ := exists_flatten made
  refine ⟨sets, ?_, same⟩
  -- The pieces and their parts are walked together, so what is known of the whole is in the way.
  clear whole made same
  induction cuts generalizing sets with
  | nil =>
    cases parted
    exact .nil
  | cons piece _ ih =>
    cases parted with
    | cons here later => exact .cons ((ofBytes_eq_ok_iff piece).2 ⟨named, here⟩) (ih _ later)

theorem load_of_file {files : Files} {path : String} {bytes : List UInt8}
    (file : files path = .ok bytes) : load files path = ofBytes bytes := by
  rw [load, file]

theorem loads_of_files {files : Files} {paths : List String} {pieces : List (List UInt8)}
    {sets : List (List Task)}
    (stored : List.Forall₂ (fun path piece => files path = .ok piece) paths pieces)
    (accepted : List.Forall₂ (fun piece set => ofBytes piece = .ok set) pieces sets) :
    List.Forall₂ (fun path set => load files path = .ok set) paths sets := by
  induction stored generalizing sets with
  | nil =>
    cases accepted
    exact .nil
  | cons file _ ih =>
    cases accepted with
    | cons read others => exact .cons ((load_of_file file).trans read) (ih others)

theorem loadAll_eq_ok {files : Files} {paths : List String} {tasks : List Task} :
    loadAll files paths = .ok tasks ↔ ∃ sets, List.Forall₂ (fun path set =>
      load files path = .ok set) paths sets ∧ sets.flatten = tasks := by
  simp only [loadAll, Outcome.bind_eq_ok, Outcome.mapM_eq_ok, Outcome.mapError_eq_ok]
  constructor
  · rintro ⟨sets, loaded, made⟩
    exact ⟨sets, loaded, Except.ok.inj made⟩
  · rintro ⟨sets, loaded, rfl⟩
    exact ⟨sets, loaded, rfl⟩

theorem loadAll_of_file {files : Files} {path : String} {bytes : List UInt8} {tasks : List Task}
    (file : files path = .ok bytes) (read : ofBytes bytes = .ok tasks) :
    loadAll files [path] = .ok tasks :=
  loadAll_eq_ok.2
    ⟨[tasks], loads_of_files (.cons file .nil) (.cons read .nil), List.flatten_singleton⟩

/-- Lists of paths are read one behind the other, and the first fault of the first list that has
one decides. -/
theorem loadAll_append (files : Files) (first second : List String) :
    loadAll files (first ++ second) =
      match loadAll files first, loadAll files second with
      | .error fault, _ => .error fault
      | .ok _, .error fault => .error fault
      | .ok tasks, .ok more => .ok (tasks ++ more) := by
  let reader (path : String) : Except (String × TaskSetFault) (List Task) :=
    (load files path).mapError fun fault => (path, fault)
  simp only [loadAll, List.mapM_append]
  generalize first.mapM reader = sets
  generalize second.mapM reader = more
  cases sets with
  | error fault => rfl
  | ok sets => cases more with
    | error fault => rfl
    | ok more => exact congrArg Except.ok List.flatten_append

end PeriodicJobs.TaskSet
