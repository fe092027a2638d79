import PeriodicJobs.Proofs.Csv.Positions
import PeriodicJobs.Proofs.TaskSet.FirstFault

set_option autoImplicit false

/- The line that the fault of a cell names. It is the line behind the record before, so it is the
line of the bad record itself just if no line feed stands between the two. -/
namespace PeriodicJobs.TaskSet

/-- A header is never refused for a cell. -/
theorem header_ne_invalidCell {head : Csv.Record} {line : Nat} {column : Column} {value : String}
    {reason : CellFault} : header head ≠ .error (.invalidCell line column value reason) := by
  intro failed
  rcases Outcome.bind_eq_error.1 failed with undecoded | ⟨names, _, unnamed⟩
  · obtain ⟨_, _, _, _, _, _, _, other⟩ := texts_eq_error.1 undecoded
    cases other
  · obtain ⟨_, _, other⟩ := Outcome.mapError_eq_error.1 unnamed
    cases other

/-- The fault of a cell is that of the first record that is refused, in the first column whose text
is. -/
theorem exists_bad_record {bytes : List UInt8} {line : Nat} {column : Column} {value : String}
    {reason : CellFault}
    (failed : ofBytes bytes = .error (.invalidCell line column value reason)) :
    ∃ head good bad later text, Csv.records bytes = (head :: good) ++ bad :: later ∧
      (∀ record ∈ good, ∃ task, Reads head record task) ∧ IsRow head bad text ∧
      column.IsFirstRefused text reason ∧ value = String.ofList (text column) ∧
      line = bad.position.line := by
  cases found : Csv.records bytes with
  | nil =>
    simp only [ofBytes, found] at failed
    rcases Outcome.bind_eq_error.1 failed with unread | ⟨_, _, other⟩
    · exact absurd unread header_ne_invalidCell
    · cases other
  | cons head rows =>
    cases resolved : header head with
    | error fault =>
      simp only [ofBytes, found, resolved] at failed
      cases failed
      exact absurd resolved header_ne_invalidCell
    | ok columns =>
      obtain ⟨good, bad, later, rfl, accepted, refused⟩ :=
        (ofBytes_eq_error found resolved).1 failed
      cases refused with
      | invalidCell row first =>
        exact ⟨head, good, bad, later, _, rfl, accepted, row, first, rfl, rfl⟩

/-- The fault of a cell names the line of the byte behind the record before the bad one. The bad
record itself starts behind the ends of lines that follow there: its line is farther by the line
feeds among them, and is the line that is named just if there are none. -/
theorem fault_names_line_behind {bytes : List UInt8} {line : Nat} {column : Column}
    {value : String} {reason : CellFault}
    (failed : ofBytes bytes = .error (.invalidCell line column value reason)) :
    ∃ head good bad later text before blank body,
      Csv.records bytes = (head :: good) ++ bad :: later ∧
      (∀ record ∈ good, ∃ task, Reads head record task) ∧ IsRow head bad text ∧
      column.IsFirstRefused text reason ∧ value = String.ofList (text column) ∧
      Csv.Stands bytes (head :: good) bad before blank body ∧
      line = Csv.lineBehind before ∧
      Csv.lineBehind (before ++ blank) = line + blank.count 10 ∧
      (line = Csv.lineBehind (before ++ blank) ↔ 10 ∉ blank) := by
  obtain ⟨head, good, bad, later, text, found, accepted, row, first, shown, rfl⟩ :=
    exists_bad_record failed
  obtain ⟨before, blank, body, stands, place⟩ :=
    Csv.exists_stands (List.cons_ne_nil head good) found
  have named : bad.position.line = Csv.lineBehind before := by rw [place]
  have unfed : blank.count 10 = 0 ↔ 10 ∉ blank := List.count_eq_zero
  refine ⟨head, good, bad, later, text, before, blank, body, found, accepted, row, first, shown,
    stands, named, ?_, ?_⟩
  · rw [named, Csv.lineBehind_append]
  · rw [named, Csv.lineBehind_append, ← unfed]
    omega

/-- A table with a line break within a cell of its good row. -/
def brokenTable : List UInt8 :=
  schemaTable ("T(1 1),\"10\n\",0,10,2,uniform params: [1 to 2],none\n".toList ++
    "T(2 1),x,0,10,2,uniform params: [1 to 2],none".toList)

/-- A line break within a cell counts. -/
theorem fault_names_line_behind_break :
    ofBytes brokenTable = .error (.invalidCell 4 .period "x" .notANumber) ∧
    ∃ head good bad later before blank body,
      Csv.records brokenTable = (head :: good) ++ bad :: later ∧
      Csv.Stands brokenTable (head :: good) bad before blank body ∧
      Csv.lineBehind before = 4 := by
  have failed : ofBytes brokenTable = .error (.invalidCell 4 .period "x" .notANumber) := by
    decide +kernel
  obtain ⟨head, good, bad, later, _, before, blank, body, found, _, _, _, _, stands, named, _⟩ :=
    fault_names_line_behind failed
  exact ⟨failed, head, good, bad, later, before, blank, body, found, stands, named.symm⟩

/-- A header whose line is ended by a carriage return and a line feed, up to the first of them. -/
def returnedHeader : List UInt8 :=
  Text.encode ([','].intercalate (Column.all.map fun column => column.name.toList) ++ ['\r'])

def faultyRow : List UInt8 :=
  Text.encode "T(1 1),x,0,10,2,uniform params: [1 to 2],none".toList

/-- The fault of a row on the second line names the first one where the line feed is the second byte
that ends the header. -/
theorem fault_misses_line :
    ofBytes (returnedHeader ++ [10] ++ faultyRow) =
      .error (.invalidCell 1 .period "x" .notANumber) ∧
    (∃ head bad, Csv.records (returnedHeader ++ [10] ++ faultyRow) = [head, bad] ∧
      Csv.Stands (returnedHeader ++ [10] ++ faultyRow) [head] bad returnedHeader [10] faultyRow) ∧
    Csv.lineBehind (returnedHeader ++ [10]) = 2 := by
  obtain ⟨head, bad, found⟩ :
      ∃ head bad, Csv.records (returnedHeader ++ [10] ++ faultyRow) = [head, bad] :=
    List.length_eq_two.1 (by decide +kernel)
  have contents : (Csv.records (returnedHeader ++ [10] ++ faultyRow)).map Csv.Record.fields =
      [Column.all.map fun column => Text.encode column.name.toList, (Csv.fields faultyRow).1] := by
    decide +kernel
  rw [found] at contents
  obtain ⟨named, behind⟩ := List.cons_eq_cons.1 contents
  obtain ⟨row, _⟩ := List.cons_eq_cons.1 behind
  have loose : ∀ name ∈ Column.all.map fun column => Text.encode column.name.toList,
      Csv.IsLoose name := by decide +kernel
  have written : Csv.IsRecord returnedHeader head.fields := by
    refine ⟨[], Column.all.map fun column => Text.encode column.name.toList, 13, by decide +kernel,
      by simp, by decide +kernel, by decide, ?_⟩
    rw [named]
    exact List.forall₂_same.2 fun name mem => .bare (loose name mem)
  have unmarked : ¬ Csv.byteOrderMark <+: returnedHeader := by decide +kernel
  have fills : Csv.Fills returnedHeader [head.fields] :=
    ⟨[returnedHeader], .cons written .nil, .inr ⟨List.flatten_singleton.symm, unmarked⟩⟩
  have opening : faultyRow = 84 :: faultyRow.tail := by decide +kernel
  have opens : Csv.Opens bad [10] faultyRow :=
    ⟨List.forall_mem_singleton.2 rfl, ⟨84, faultyRow.tail, opening, rfl⟩, row.symm⟩
  exact ⟨by decide +kernel, ⟨head, bad, found, rfl, fills, opens⟩, by decide +kernel⟩

end PeriodicJobs.TaskSet
