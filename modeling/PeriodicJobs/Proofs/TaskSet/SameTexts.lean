import PeriodicJobs.Proofs.Csv.Gap
import PeriodicJobs.Proofs.TaskSet.Names

set_option autoImplicit false

/- Records that hold the same texts. A table is read through the texts of its fields and the lines
of its records, so what else the bytes are shows only in the fault of a record that is no proper
list of texts. -/
namespace PeriodicJobs.TaskSet

/-- Fields that hold the same text, if any. -/
def SameTexts (field other : List UInt8) : Prop := ∀ text, Holds field text ↔ Holds other text

theorem SameTexts.of_holds {field other : List UInt8} {text : List Char} (holds : Holds field text)
    (holds' : Holds other text) : SameTexts field other := by
  intro text'
  constructor
  · intro here
    rwa [← holds.unique here]
  · intro here
    rwa [← holds'.unique here]

theorem holds_of_sameTexts {fields others : List (List UInt8)}
    (same : List.Forall₂ SameTexts fields others) {cells : List (List Char)}
    (holds : List.Forall₂ Holds fields cells) : List.Forall₂ Holds others cells := by
  induction same generalizing cells with
  | nil => exact holds
  | cons here _ ih =>
    cases holds with
    | cons first later => exact .cons ((here _).1 first) (ih later)

/-- Records of one line whose fields hold the same texts. -/
structure Alike (record other : Csv.Record) : Prop where
  fields : List.Forall₂ SameTexts record.fields other.fields
  line : record.position.line = other.position.line

theorem alike_of_entries {records others : List Csv.Record}
    {good later : List (List (List UInt8) × Nat)} {left right : List (List UInt8)}
    {field field' : List UInt8} {line : Nat} (same : SameTexts field field')
    (entries : records.map Csv.Record.entry = good ++ (left ++ field :: right, line) :: later)
    (entries' : others.map Csv.Record.entry = good ++ (left ++ field' :: right, line) :: later) :
    List.Forall₂ Alike records others := by
  let alike (entry other : List (List UInt8) × Nat) : Prop :=
    List.Forall₂ SameTexts entry.1 other.1 ∧ entry.2 = other.2
  have unchanged (fields : List (List UInt8)) : List.Forall₂ SameTexts fields fields :=
    List.forall₂_same.2 fun _ _ _ => Iff.rfl
  have kept (entries : List (List (List UInt8) × Nat)) : List.Forall₂ alike entries entries :=
    List.forall₂_same.2 fun entry _ => ⟨unchanged entry.1, rfl⟩
  have changed : List.Forall₂ SameTexts (left ++ field :: right) (left ++ field' :: right) :=
    List.rel_append (unchanged left) (.cons same (unchanged right))
  have pairs : List.Forall₂ alike (records.map Csv.Record.entry) (others.map Csv.Record.entry) := by
    rw [entries, entries']
    exact List.rel_append (kept good) (.cons ⟨changed, rfl⟩ (kept later))
  rw [List.forall₂_map_left_iff, List.forall₂_map_right_iff] at pairs
  exact pairs.imp fun _ _ pair => ⟨pair.1, pair.2⟩

/-- A reading that does not end at a record which is no proper list of texts. -/
def IsProper {α : Type} (reading : Except TaskSetFault α) : Prop :=
  ∀ fault, reading ≠ .error (.malformed fault)

theorem IsProper.of_bind {α β : Type} {first : Except TaskSetFault α}
    {next : α → Except TaskSetFault β} (proper : IsProper (first >>= next)) : IsProper first := by
  rintro fault rfl
  exact proper fault rfl

section Congruence

variable {record other : Csv.Record} (alike : Alike record other)

include alike

theorem header_of_alike (proper : IsProper (header record)) : header other = header record := by
  cases read : texts record.position 0 record.fields with
  | error fault =>
    obtain ⟨_, _, _, _, _, _, _, rfl⟩ := texts_eq_error.1 read
    rw [header, read] at proper
    exact absurd rfl (proper _)
  | ok cells =>
    have holds := holds_of_texts read
    have named : cells = (cells.map String.ofList).map String.toList := by
      simp only [List.map_map, Function.comp_def, String.toList_ofList, List.map_id_fun', id]
    rw [named] at holds
    rw [header_of_holds holds, header_of_holds (holds_of_sameTexts alike.fields holds)]

theorem row_of_alike {columns : Header} (proper : IsProper (row columns record)) :
    row columns other = row columns record := by
  have width := alike.fields.length_eq
  by_cases length : record.fields.length = columns.columns.length
  · simp only [row, if_pos length, if_pos (width ▸ length)] at proper ⊢
    cases read : texts record.position 0 (record.fields.map (Text.stripEnds isBlankByte)) with
    | error fault =>
      obtain ⟨_, _, _, _, _, _, _, rfl⟩ := texts_stripped_error.1 read
      rw [read] at proper
      exact absurd rfl (proper _)
    | ok cells =>
      have holds := holds_of_sameTexts alike.fields (texts_stripped.1 read)
      rw [texts_stripped.2 holds, alike.line]
  · rw [row_of_unequal length] at proper
    exact absurd rfl (proper _)

end Congruence

theorem mapM_row_of_alike {columns : Header} {rows others : List Csv.Record}
    (alike : List.Forall₂ Alike rows others) (proper : IsProper (rows.mapM (row columns))) :
    others.mapM (row columns) = rows.mapM (row columns) := by
  induction alike with
  | nil => rfl
  | @cons record other rows others here _ ih =>
    rw [List.mapM_cons] at proper
    rw [List.mapM_cons, List.mapM_cons, row_of_alike here proper.of_bind]
    cases read : row columns record with
    | error fault => rfl
    | ok task =>
      rw [read] at proper
      have later : IsProper (rows.mapM (row columns)) := IsProper.of_bind proper
      rw [ih later]

/-- Tables whose records are alike are read alike, unless a record is no proper list of texts. -/
theorem ofBytes_of_alike {bytes bytes' : List UInt8}
    (alike : List.Forall₂ Alike (Csv.records bytes) (Csv.records bytes'))
    (proper : IsProper (ofBytes bytes)) : ofBytes bytes' = ofBytes bytes := by
  unfold ofBytes at proper ⊢
  generalize Csv.records bytes = records at *
  generalize Csv.records bytes' = others at *
  cases alike with
  | nil => rfl
  | @cons head head' rows others first later =>
    simp only at proper ⊢
    rw [header_of_alike first proper.of_bind]
    cases resolved : header head with
    | error fault => rfl
    | ok columns =>
      rw [resolved] at proper
      exact mapM_row_of_alike later proper

end PeriodicJobs.TaskSet
