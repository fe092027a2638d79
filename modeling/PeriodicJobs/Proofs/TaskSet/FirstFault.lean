import PeriodicJobs.Proofs.Csv.Grammar
import PeriodicJobs.Proofs.TaskSet.Rows

set_option autoImplicit false

/- The first bad record of a table decides. A table is read record by record, so it fails where the
first record is refused, and nothing behind the end of that record has a part in it. -/
namespace PeriodicJobs.TaskSet

section

variable {bytes : List UInt8} {head : Csv.Record} {rows : List Csv.Record} {columns : Header}

theorem ofBytes_of_header (found : Csv.records bytes = head :: rows)
    (resolved : header head = .ok columns) : ofBytes bytes = rows.mapM (row columns) := by
  simp only [ofBytes, found, resolved]
  rfl

theorem ofBytes_eq_ok (found : Csv.records bytes = head :: rows)
    (resolved : header head = .ok columns) {tasks : List Task} :
    ofBytes bytes = .ok tasks ↔ List.Forall₂ (Reads head) rows tasks := by
  have same : (fun record task => row columns record = .ok task) = Reads head :=
    funext fun _ => funext fun _ => propext (isHead_of_header resolved).row_eq_ok
  rw [ofBytes_of_header found resolved, Outcome.mapM_eq_ok, same]

theorem ofBytes_eq_error (found : Csv.records bytes = head :: rows)
    (resolved : header head = .ok columns) {fault : TaskSetFault} :
    ofBytes bytes = .error fault ↔ ∃ good bad rest, rows = good ++ bad :: rest ∧
      (∀ record ∈ good, ∃ task, Reads head record task) ∧ Refused head bad fault := by
  have isHead := isHead_of_header resolved
  simp only [ofBytes_of_header found resolved, Outcome.mapM_eq_error, isHead.row_eq_ok,
    isHead.row_eq_error]

end

theorem exists_of_forall₂ {α β : Type} {R : α → β → Prop} {items : List α} {others : List β}
    (related : List.Forall₂ R items others) : ∀ item ∈ items, ∃ other, R item other := by
  induction related with
  | nil => exact List.forall_mem_nil _
  | cons here _ ih => exact List.forall_mem_cons.2 ⟨⟨_, here⟩, ih⟩

/-- A record of an accepted table is the header or a task. -/
theorem reads_of_ok {bytes : List UInt8} {head : Csv.Record} {rows : List Csv.Record}
    {tasks : List Task} (found : Csv.records bytes = head :: rows)
    (read : ofBytes bytes = .ok tasks) :
    ∃ columns, header head = .ok columns ∧ ∀ record ∈ rows, ∃ task, Reads head record task := by
  have resolves := read
  simp only [ofBytes, found] at resolves
  obtain ⟨columns, resolved, _⟩ := Outcome.bind_eq_ok.1 resolves
  exact ⟨columns, resolved, exists_of_forall₂ ((ofBytes_eq_ok found resolved).1 read)⟩

/-- A table whose header is accepted has a task for every record if each is one, and otherwise it
has the fault of the first record that is refused. A record of texts can only be refused for a cell.
Tables that start alike, up to the byte that ends the refused record, fail alike, and they do so at
every refused record that has another one behind it. -/
theorem first_bad_record_decides {bytes : List UInt8} {head : Csv.Record}
    {rows : List Csv.Record} {columns : Header} (found : Csv.records bytes = head :: rows)
    (resolved : header head = .ok columns) :
    (∀ tasks, ofBytes bytes = .ok tasks ↔ List.Forall₂ (Reads head) rows tasks) ∧
    (∀ fault, ofBytes bytes = .error fault ↔ ∃ good bad rest, rows = good ++ bad :: rest ∧
      (∀ record ∈ good, ∃ task, Reads head record task) ∧ Refused head bad fault) ∧
    ∀ good bad rest fault, rows = good ++ bad :: rest →
      (∀ record ∈ good, ∃ task, Reads head record task) → Refused head bad fault →
      (∀ text, IsRow head bad text → ∃ column reason, column.IsFirstRefused text reason ∧
        fault = .invalidCell bad.position.line column (String.ofList (text column)) reason) ∧
      (∀ shared other, Csv.Fills shared ((head :: good ++ [bad]).map Csv.Record.fields) →
        shared <+: bytes → shared <+: other → ofBytes other = .error fault) ∧
      (rest ≠ [] → ∃ shared, Csv.Fills shared ((head :: good ++ [bad]).map Csv.Record.fields) ∧
        shared <+: bytes) := by
  refine ⟨fun tasks => ofBytes_eq_ok found resolved, fun fault => ofBytes_eq_error found resolved,
    ?_⟩
  rintro good bad rest fault rfl accepted refused
  have all : Csv.records bytes = (head :: good ++ [bad]) ++ rest := by
    rw [found]
    simp
  refine ⟨fun text isRow => (isHead_of_header resolved).refused_of_isRow isRow refused, ?_, ?_⟩
  · rintro shared other fills ⟨left, rfl⟩ ⟨left', rfl⟩
    obtain ⟨same, starts⟩ := fills.records (List.cons_ne_nil _ _)
    have length := congrArg List.length same
    rw [List.length_map, List.length_map] at length
    have records : Csv.records shared = head :: good ++ [bad] := by
      rw [List.prefix_iff_eq_take.1 (starts left), all, length, List.take_left]
    obtain ⟨rest', records'⟩ := starts left'
    have found' : Csv.records (shared ++ left') = head :: (good ++ bad :: rest') := by
      rw [← records', records]
      simp
    exact (ofBytes_eq_error found' resolved).2 ⟨good, bad, rest', rfl, accepted, refused⟩
  · intro another
    obtain ⟨shared, inside, fills⟩ := Csv.exists_fills another all
    exact ⟨shared, fills, inside⟩

/-- A table with all columns in the order of the schema. -/
def schemaTable (rows : List Char) : List UInt8 :=
  Text.encode ([','].intercalate (Column.all.map fun column => column.name.toList) ++ '\n' :: rows)

/-- A table with a good row, a row with two bad cells, and a row that is too short. -/
def faultyTable : List UInt8 :=
  schemaTable ("T(1 1),10,0,10,2,uniform params: [1 to 2],none\n".toList ++
    "T(2 1),x,0,y,2,uniform params: [1 to 2],none\nT(3 1)".toList)

/-- The first bad cell of the first bad row is the fault of every table that starts so. -/
theorem first_bad_record_decides_faulty : ∃ shared,
    shared <+: faultyTable ∧ shared ≠ faultyTable ∧ ∀ other, shared <+: other →
      ofBytes other = .error (.invalidCell 3 .period "x" .notANumber) := by
  obtain ⟨head, good, bad, short, found⟩ :
      ∃ head good bad short, Csv.records faultyTable = [head, good, bad, short] :=
    List.length_eq_four.1 (by decide +kernel)
  have heading : (Csv.records faultyTable)[0]?.map (fun record =>
      (header record).map Header.columns) = some (.ok Column.all) := by decide +kernel
  have reads : (Csv.records faultyTable)[1]?.map (fun record =>
      (row ⟨Column.all⟩ record).isOk) = some true := by decide +kernel
  have refuses : (Csv.records faultyTable)[2]?.map (row ⟨Column.all⟩) =
      some (.error (.invalidCell 3 .period "x" .notANumber)) := by decide +kernel
  rw [found] at heading reads refuses
  obtain ⟨⟨_⟩, resolved, rfl⟩ := Outcome.map_eq_ok.1 (Option.some.inj heading)
  have isHead := isHead_of_header resolved
  obtain ⟨task, accepted⟩ : ∃ task, row ⟨Column.all⟩ good = .ok task := by
    cases read : row ⟨Column.all⟩ good with
    | error fault => simp [read, Except.isOk, Except.toBool] at reads
    | ok task => exact ⟨task, rfl⟩
  have first : ∀ record ∈ [good], ∃ task, Reads head record task :=
    List.forall_mem_singleton.2 ⟨task, isHead.row_eq_ok.1 accepted⟩
  obtain ⟨_, spreads, ended⟩ := (first_bad_record_decides found resolved).2.2 [good] bad [short] _
    rfl first (isHead.row_eq_error.1 (Option.some.inj refuses))
  obtain ⟨shared, fills, inside⟩ := ended (List.cons_ne_nil _ _)
  refine ⟨shared, inside, ?_, fun other starts => spreads shared other fills inside starts⟩
  rintro rfl
  have fewer := congrArg List.length (fills.records (List.cons_ne_nil _ _)).1
  rw [found] at fewer
  simp at fewer

end PeriodicJobs.TaskSet
