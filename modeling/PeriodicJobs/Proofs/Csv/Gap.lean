import PeriodicJobs.Proofs.Csv.Contents
import PeriodicJobs.Proofs.Csv.Positions

set_option autoImplicit false

/- A file with one field left out. Whatever is written in its place within a line, the records in
front of it and the fields beside it stay what they are, and the records behind it keep their
lines. -/
namespace PeriodicJobs.Csv

/-- The fields of a record and the line that it is given. -/
def Record.entry (record : Record) : List (List UInt8) × Nat :=
  (record.fields, record.position.line)

theorem map_entry_shifted (all : List Record) :
    (shifted all).map Record.entry = all.map Record.entry := by
  cases all with
  | nil => rfl
  | cons first more => simp [shifted, Record.entry]

/-- Of the position only the line counts, and of the steps only that they are enough. -/
theorem map_entry_recordsFrom {limit limit' : Nat} {bytes : List UInt8}
    (enough : bytes.length ≤ limit) (enough' : bytes.length ≤ limit')
    {position position' : Position} (same : position.line = position'.line) :
    (recordsFrom limit position bytes).map Record.entry =
      (recordsFrom limit' position' bytes).map Record.entry := by
  induction limit generalizing limit' bytes position position' with
  | zero =>
    cases List.length_eq_zero_iff.1 (Nat.le_zero.1 enough)
    rw [recordsFrom_nil, recordsFrom_nil]
  | succ limit ih =>
    cases limit' with
    | zero =>
      cases List.length_eq_zero_iff.1 (Nat.le_zero.1 enough')
      rw [recordsFrom_nil, recordsFrom_nil]
    | succ limit' =>
      have shorter := length_fields_le (bytes.dropWhile isLineEnd)
      have skipped := (List.dropWhile_sublist isLineEnd (l := bytes)).length_le
      simp only [recordsFrom]
      split
      · rfl
      · rw [List.map_cons, List.map_cons]
        congr 1
        · rw [Record.entry, Record.entry, same]
        · apply ih
          · omega
          · omega
          · simp only [Position.after, same]

theorem joined_cons_eq (raw : List UInt8) (right : List (List UInt8)) :
    joined (raw :: right) = raw ++ right.flatMap (comma :: ·) := by
  induction right generalizing raw with
  | nil => rw [joined, List.intercalate_singleton, List.flatMap_nil, List.append_nil]
  | cons next right ih =>
    rw [joined_cons raw (List.cons_ne_nil next right), ih, List.flatMap_cons, List.cons_append]

/-- One field of a record with what stands on its left and on its right. -/
theorem joined_append_cons (left right : List (List UInt8)) (raw : List UInt8) :
    joined (left ++ raw :: right) =
      left.flatMap (· ++ [comma]) ++ (raw ++ right.flatMap (comma :: ·)) := by
  induction left with
  | nil => exact joined_cons_eq raw right
  | cons first left ih =>
    have some : left ++ raw :: right ≠ [] := by simp
    rw [List.cons_append, joined_cons first some, ih, List.flatMap_cons]
    simp only [List.append_assoc, List.cons_append, List.nil_append]

/-- A field without a line feed leaves the line behind its record where it is without the field. -/
theorem count_joined {raw : List UInt8} (single : 10 ∉ raw) (left right : List (List UInt8)) :
    (joined (left ++ raw :: right)).count 10 = (joined (left ++ [] :: right)).count 10 := by
  have none : raw.count 10 = 0 := List.count_eq_zero.2 single
  simp only [joined_append_cons, List.count_append, none, List.count_nil]

/-- A file around one of its fields: whole records, the ends of lines behind them, the fields on the
left and on the right as they are written, and what follows the record. -/
structure Gap where
  start : List UInt8
  earlier : List (List (List UInt8))
  blank : List UInt8
  left : List (List UInt8)
  right : List (List UInt8)
  rest : List UInt8
  fills : Fills start earlier
  ends : ∀ b ∈ blank, isLineEnd b = true
  left_written : ∀ raw ∈ left, ∃ content, IsField raw content
  right_written : ∀ raw ∈ right, ∃ content, IsField raw content
  stop : ∀ b ∈ rest.head?, isLineEnd b = true

/-- Content that ends no field stays on its line. -/
theorem not_mem_of_inside {content : List UInt8} (inside : ∀ b ∈ content, endsField b = false) :
    10 ∉ content := by
  intro mem
  cases inside 10 mem

theorem IsLoose.single {content : List UInt8} (loose : IsLoose content) : 10 ∉ content :=
  not_mem_of_inside loose.inside

/-- What is written field by field has contents field by field. -/
theorem exists_contents {raws : List (List UInt8)}
    (written : ∀ raw ∈ raws, ∃ content, IsField raw content) :
    ∃ contents, List.Forall₂ IsField raws contents := by
  induction raws with
  | nil => exact ⟨[], .nil⟩
  | cons raw raws ih =>
    obtain ⟨⟨content, first⟩, others⟩ := List.forall_mem_cons.1 written
    obtain ⟨contents, later⟩ := ih others
    exact ⟨content :: contents, .cons first later⟩

namespace Gap

variable (gap : Gap) {raw : List UInt8}

/-- The file from the record of the field on. -/
def body (raw : List UInt8) : List UInt8 :=
  gap.blank ++ joined (gap.left ++ raw :: gap.right) ++ gap.rest

/-- The file with a field in the gap. -/
def file (raw : List UInt8) : List UInt8 := gap.start ++ gap.body raw

/-- A field with which the record is no empty line and the file does not come to start with a mark
of the byte order. -/
structure Fits (raw : List UInt8) : Prop where
  some : raw ≠ [] ∨ gap.left ++ gap.right ≠ []
  unmarked : gap.start = [] → ¬ byteOrderMark <+: gap.file raw

/-- What is written in the gap stands between the same bytes. -/
theorem exists_file_eq : ∃ front back, ∀ raw, gap.file raw = front ++ (raw ++ back) := by
  refine ⟨gap.start ++ gap.blank ++ gap.left.flatMap (· ++ [comma]),
    gap.right.flatMap (comma :: ·) ++ gap.rest, fun raw => ?_⟩
  rw [file, body, joined_append_cons]
  simp only [List.append_assoc]

/-- A field that does not start with a byte of the mark does not complete it. -/
theorem Fits.cons {gap : Gap} (fits : gap.Fits raw) {b : UInt8} (other : b ∉ byteOrderMark)
    (more : List UInt8) : gap.Fits (b :: more) := by
  obtain ⟨front, back, file⟩ := gap.exists_file_eq
  refine ⟨.inl (List.cons_ne_nil b more), fun none mark => ?_⟩
  have unmarked := fits.unmarked none
  rw [file] at unmarked mark
  exact unmarked ((prefix_of_not_mem other mark).trans (List.prefix_append front _))

theorem joined_ne_nil (some : raw ≠ [] ∨ gap.left ++ gap.right ≠ []) :
    joined (gap.left ++ raw :: gap.right) ≠ [] := by
  rw [joined_append_cons]
  simp only [ne_eq, List.append_eq_nil_iff, List.flatMap_eq_nil_iff, not_and_or] at some ⊢
  rcases some with raw | left | right
  · exact .inr (.inl raw)
  · obtain ⟨first, more, same⟩ := List.exists_cons_of_ne_nil left
    exact .inl fun none => absurd (none first (same ▸ List.mem_cons_self)) (by simp)
  · obtain ⟨first, more, same⟩ := List.exists_cons_of_ne_nil right
    exact .inr (.inr fun none => absurd (none first (same ▸ List.mem_cons_self)) (by simp))

/-- The records of the file are read from its first record on, behind a mark of the byte order if
there is one. -/
theorem exists_raws : ∃ raws, List.Forall₂ IsRecord raws gap.earlier ∧
    raws.flatten.count 10 = gap.start.count 10 ∧ ∀ raw, gap.Fits raw →
      (records (gap.file raw)).map Record.entry =
        (recordsFrom (raws.flatten ++ gap.body raw).length .start
          (raws.flatten ++ gap.body raw)).map Record.entry := by
  obtain ⟨raws, written, marked | ⟨same, unmarked⟩⟩ := gap.fills
  · refine ⟨raws, written, ?_, fun raw fits => ?_⟩
    · have unfed : byteOrderMark.count 10 = 0 := by decide
      rw [marked, List.count_append, unfed, Nat.zero_add]
    · rw [file, marked, List.append_assoc, records_marked, map_entry_shifted]
  · refine ⟨raws, written, by rw [same], fun raw fits => ?_⟩
    have whole : ¬ byteOrderMark <+: gap.file raw := by
      cases raws with
      | nil => exact fits.unmarked same
      | cons first others =>
        obtain ⟨_, _, written, _, _⟩ := List.forall₂_cons_left_iff.1 written
        obtain ⟨b, mem, ends⟩ := written.exists_mem
        exact not_prefix_append ⟨b, same ▸ List.mem_append_left _ mem, ends⟩ unmarked _
    rw [records_unmarked whole, file, same]

/-- Behind the records in front of the gap there are steps enough for the one of the gap and for
those behind it. -/
theorem exists_limit {raws : List (List UInt8)} (written : List.Forall₂ IsRecord raws gap.earlier)
    (some : joined (gap.left ++ raw :: gap.right) ≠ []) :
    ∃ limit, (raws.flatten ++ gap.body raw).length = gap.earlier.length + (limit + 1) ∧
      gap.rest.tail.length ≤ limit := by
  have size := List.length_pos_iff.2 some
  have fewer := length_le_length_flatten written
  refine ⟨(raws.flatten ++ gap.body raw).length - gap.earlier.length - 1, ?_, ?_⟩
  · simp only [body, List.length_append]
    omega
  · simp only [body, List.length_append, List.length_tail]
    omega

/-- The records in front of the gap, the fields beside it and the lines behind it are the same
whatever is written there. -/
theorem exists_entries : ∃ good left right later,
    good.map Prod.fst = gap.earlier ∧ left.length = gap.left.length ∧
      ∀ raw content, IsField raw content → 10 ∉ raw → gap.Fits raw →
        (records (gap.file raw)).map Record.entry =
          good ++ (left ++ content :: right, lineBehind gap.start) :: later := by
  obtain ⟨raws, written, count, read⟩ := gap.exists_raws
  obtain ⟨good, same, behind⟩ := recordsFrom_flatten written .start
  obtain ⟨left, lefts⟩ := exists_contents gap.left_written
  obtain ⟨right, rights⟩ := exists_contents gap.right_written
  have placed : (Position.start.behind raws).line = lineBehind gap.start := by
    simp only [Position.behind, Position.start, lineBehind, count]
  let feeds := (gap.blank ++ joined (gap.left ++ [] :: gap.right) ++ gap.rest.take 1).count 10
  let next : Position := ⟨0, lineBehind gap.start + feeds, 0⟩
  refine ⟨good.map Record.entry, left, right,
    (recordsFrom gap.rest.tail.length next gap.rest.tail).map Record.entry, ?_,
    lefts.length_eq.symm, fun raw content isField single fits => ?_⟩
  · rw [List.map_map, ← same]
    rfl
  · have fields : List.Forall₂ IsField (gap.left ++ raw :: gap.right) (left ++ content :: right) :=
      List.rel_append lefts (.cons isField rights)
    have some := gap.joined_ne_nil fits.some
    obtain ⟨limit, length, enough⟩ := gap.exists_limit written some
    have line : ((Position.start.behind raws).after
        (gap.blank ++ joined (gap.left ++ raw :: gap.right) ++ gap.rest.take 1)).line =
          next.line := by
      simp only [Position.after, placed, next, feeds, List.count_append, count_joined single]
    rw [read raw fits, length, behind, body,
      recordsFrom_joined gap.ends fields some gap.stop, List.map_append, List.map_cons,
      map_entry_recordsFrom enough (Nat.le_refl _) line, Record.entry, placed]

end Gap

end PeriodicJobs.Csv
