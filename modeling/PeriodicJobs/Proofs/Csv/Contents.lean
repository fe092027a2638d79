import PeriodicJobs.Proofs.Csv.Grammar

set_option autoImplicit false

/- What records hold, wherever they stand. Whole lines are read on their own, so the contents of a
file are those of its lines, one behind the other. -/
namespace PeriodicJobs.Csv

/-- A record takes at least a byte. -/
theorem length_fields_le (bytes : List UInt8) : (fields bytes).2.length ≤ bytes.length - 1 := by
  fun_induction fields bytes with
  | case1 bytes done => exact Nat.zero_le _
  | case2 bytes rest more after same next ih =>
    have le := field_length_le bytes
    rw [same] at ih
    rw [next, List.length_cons] at le
    change after.length ≤ _ at ih ⊢
    omega
  | case3 bytes b rest next other =>
    have le := field_length_le bytes
    rw [next, List.length_cons] at le
    change rest.length ≤ _
    omega

/-- Empty lines and positions have no part in the fields of the records, and neither has the number
of steps once it is enough. -/
theorem map_fields_of_body {limit limit' : Nat} {bytes bytes' : List UInt8}
    (enough : bytes.length ≤ limit) (enough' : bytes'.length ≤ limit')
    (same : bytes.dropWhile isLineEnd = bytes'.dropWhile isLineEnd)
    (position position' : Position) :
    (recordsFrom limit position bytes).map Record.fields =
      (recordsFrom limit' position' bytes').map Record.fields := by
  induction limit generalizing limit' bytes bytes' position position' with
  | zero =>
    cases List.length_eq_zero_iff.1 (Nat.le_zero.1 enough)
    cases limit' <;> simp [recordsFrom, ← same]
  | succ limit ih =>
    cases limit' with
    | zero =>
      cases List.length_eq_zero_iff.1 (Nat.le_zero.1 enough')
      simp [recordsFrom, same]
    | succ limit' =>
      have shorter := length_fields_le (bytes.dropWhile isLineEnd)
      have skipped := (List.dropWhile_sublist isLineEnd (l := bytes)).length_le
      have skipped' := (List.dropWhile_sublist isLineEnd (l := bytes')).length_le
      rw [← same] at skipped'
      simp only [recordsFrom, ← same]
      split
      · rfl
      · -- The first record is the same, and what is behind it is one input with fewer steps left.
        rw [List.map_cons, List.map_cons]
        congr 1
        apply ih
        · omega
        · omega
        · rfl

/-- The fields of the records in some bytes, without the positions. -/
def contents (bytes : List UInt8) : List (List (List UInt8)) :=
  (recordsFrom bytes.length .start bytes).map Record.fields

theorem map_fields_recordsFrom_eq {limit : Nat} {bytes : List UInt8}
    (enough : bytes.length ≤ limit) (position : Position) :
    (recordsFrom limit position bytes).map Record.fields = contents bytes :=
  map_fields_of_body enough (Nat.le_refl _) rfl position .start

theorem contents_blank {blank : List UInt8} (ends : ∀ b ∈ blank, isLineEnd b = true)
    (rest : List UInt8) : contents (blank ++ rest) = contents rest :=
  map_fields_of_body (Nat.le_refl _) (Nat.le_refl _) (List.dropWhile_append_of_pos ends) _ _

/-- Whole lines: records with the byte that ends each, and empty lines behind them. -/
def IsLines (bytes : List UInt8) (all : List (List (List UInt8))) : Prop :=
  ∃ raws blank, List.Forall₂ IsRecord raws all ∧ (∀ b ∈ blank, isLineEnd b = true) ∧
    bytes = raws.flatten ++ blank

theorem IsLines.contents_append {lines : List UInt8} {all : List (List (List UInt8))}
    (isLines : IsLines lines all) (rest : List UInt8) :
    contents (lines ++ rest) = all ++ contents rest := by
  obtain ⟨raws, blank, written, ends, rfl⟩ := isLines
  obtain ⟨records, same, read⟩ := recordsFrom_flatten written .start
  have enough := length_le_length_flatten written
  have step := read (raws.flatten.length - all.length + (blank ++ rest).length) (blank ++ rest)
  rw [← Nat.add_assoc, Nat.add_sub_cancel' enough, ← List.length_append,
    ← List.append_assoc] at step
  rw [contents, step, List.map_append, same,
    map_fields_recordsFrom_eq (Nat.le_add_left _ _), contents_blank ends]

theorem IsLines.contents_eq {lines : List UInt8} {all : List (List (List UInt8))}
    (isLines : IsLines lines all) : contents lines = all := by
  have alone := isLines.contents_append []
  rwa [List.append_nil, show contents [] = [] from rfl, List.append_nil] at alone

theorem IsLines.ends {lines : List UInt8} {first : List (List UInt8)}
    {all : List (List (List UInt8))} (isLines : IsLines lines (first :: all)) :
    ∃ b ∈ lines, isLineEnd b = true := by
  obtain ⟨_, blank, written, _, rfl⟩ := isLines
  cases written with
  | cons record _ =>
    obtain ⟨b, mem, ends⟩ := record.exists_mem
    exact ⟨b, by simp [mem], ends⟩

/-- Some lines hold what each of them holds. -/
theorem contents_flatten {bodies : List (List UInt8)}
    (lines : ∀ body ∈ bodies, ∃ all, IsLines body all) (last : List UInt8) :
    contents (bodies.flatten ++ last) = (bodies.map contents).flatten ++ contents last := by
  induction bodies with
  | nil => rfl
  | cons body bodies ih =>
    obtain ⟨all, isLines⟩ := lines body List.mem_cons_self
    rw [List.flatten_cons, List.append_assoc, isLines.contents_append,
      ih fun body mem => lines body (List.mem_cons_of_mem _ mem), List.map_cons, List.flatten_cons,
      isLines.contents_eq, List.append_assoc]

/-- The first line of a file: a record, with or without a mark of the byte order in front of it. -/
def IsHeading (bytes : List UInt8) (names : List (List UInt8)) : Prop :=
  ∃ line, IsLines line [names] ∧
    (bytes = byteOrderMark ++ line ∨ bytes = line ∧ ¬ byteOrderMark <+: line)

theorem IsHeading.records {heading : List UInt8} {names : List (List UInt8)}
    (isHeading : IsHeading heading names) (rest : List UInt8) :
    (records (heading ++ rest)).map Record.fields = names :: contents rest := by
  obtain ⟨line, isLines, marked | ⟨same, unmarked⟩⟩ := isHeading
  · rw [marked, List.append_assoc, records_marked, map_fields_shifted]
    exact isLines.contents_append rest
  · rw [same, records_unmarked (not_prefix_append isLines.ends unmarked rest)]
    exact isLines.contents_append rest

end PeriodicJobs.Csv
