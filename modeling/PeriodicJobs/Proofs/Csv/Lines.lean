import PeriodicJobs.Proofs.Csv.Grammar

set_option autoImplicit false

/- Lines without quotes. Every byte that is neither a comma nor the end of a line is content, and
bytes that end lines in front of a line, however many and whichever, are no record. -/
namespace PeriodicJobs.Csv

/-- Bytes that stand for themselves in a field. -/
def IsPlain (content : List UInt8) : Prop := ∀ b ∈ content, b ≠ quote ∧ endsField b = false

/-- Bytes that stand for themselves are a field without quotes. -/
theorem IsPlain.isField {content : List UInt8} (plain : IsPlain content) :
    IsField content content := by
  refine .bare ⟨fun b mem => (plain b mem).2, ?_⟩
  intro first
  exact (plain quote (List.mem_of_head? first)).1 rfl

/-- A line with the ends of lines in front of it. With two fields or more it has a comma, so that
it is no empty line even if it has no content. -/
structure Line where
  before : List UInt8
  cells : List (List UInt8)
  ends : ∀ b ∈ before, isLineEnd b = true
  several : 2 ≤ cells.length
  plain : ∀ cell ∈ cells, IsPlain cell

namespace Line

def bytes (line : Line) : List UInt8 := line.before ++ joined line.cells

/-- The line behind the first byte in front of it. -/
def tail (line : Line) : Line :=
  { line with
    before := line.before.tail
    ends := fun b mem => line.ends b (List.mem_of_mem_tail mem) }

theorem tail_bytes {line : Line} (apart : line.before ≠ []) (rest : List UInt8) :
    (line.bytes ++ rest).tail = line.tail.bytes ++ rest := by
  rw [bytes, List.append_assoc, List.tail_append_of_ne_nil apart, bytes, List.append_assoc]
  rfl

theorem head?_bytes {line : Line} (apart : line.before ≠ []) (rest : List UInt8) :
    ∀ b ∈ (line.bytes ++ rest).head?, isLineEnd b = true := by
  obtain ⟨b, more, before⟩ := List.exists_cons_of_ne_nil apart
  have first := line.ends b (by rw [before]; exact List.mem_cons_self)
  rw [bytes, before]
  rintro b ⟨⟩
  exact first

theorem isField (line : Line) : List.Forall₂ IsField line.cells line.cells := by
  rw [List.forall₂_same]
  exact fun cell mem => (line.plain cell mem).isField

theorem joined_ne_nil (line : Line) : joined line.cells ≠ [] := by
  match cells : line.cells with
  | [] | [_] => simpa [cells] using line.several
  | first :: second :: rest =>
    rw [joined_cons first (List.cons_ne_nil second rest)]
    simp

theorem bytes_ne_nil (line : Line) : line.bytes ≠ [] :=
  List.append_ne_nil_of_right_ne_nil _ line.joined_ne_nil

theorem length_le_length_flatMap (lines : List Line) :
    lines.length ≤ (lines.flatMap bytes).length := by
  induction lines with
  | nil => exact Nat.le_refl _
  | cons line lines ih =>
    have some := List.length_pos_iff.2 line.bytes_ne_nil
    rw [List.flatMap_cons, List.length_append, List.length_cons]
    omega

end Line

theorem recordsFrom_ends {bytes : List UInt8} (ends : ∀ b ∈ bytes, isLineEnd b = true)
    (limit : Nat) (position : Position) : recordsFrom limit position bytes = [] := by
  cases limit with
  | zero => rfl
  | succ limit =>
    simp [recordsFrom, Text.dropWhile_of_all ends]

/-- The next line is the next record, and the byte that ends the line goes with it. -/
theorem recordsFrom_line (line : Line) {rest : List UInt8}
    (stop : ∀ b ∈ rest.head?, isLineEnd b = true) (limit : Nat) (position : Position) :
    ∃ next, recordsFrom (limit + 1) position (line.bytes ++ rest) =
      ⟨line.cells, position⟩ :: recordsFrom limit next rest.tail :=
  ⟨_, recordsFrom_joined line.ends line.isField line.joined_ne_nil stop limit position⟩

/-- The lines are the records, in their order. -/
theorem map_fields_recordsFrom (first : Line) (lines : List Line)
    (apart : ∀ line ∈ lines, line.before ≠ []) {ending : List UInt8}
    (ends : ∀ b ∈ ending, isLineEnd b = true) {limit : Nat} (enough : lines.length < limit)
    (position : Position) :
    (recordsFrom limit position (first.bytes ++ (lines.flatMap Line.bytes ++ ending))).map
      Record.fields = first.cells :: lines.map Line.cells := by
  induction lines generalizing first limit position with
  | nil =>
    cases limit with
    | zero => cases enough
    | succ limit =>
      obtain ⟨next, step⟩ := recordsFrom_line first
        (fun b mem => ends b (List.mem_of_head? mem)) limit position
      rw [List.flatMap_nil, List.nil_append, step,
        recordsFrom_ends (fun b mem => ends b (List.mem_of_mem_tail mem))]
      rfl
  | cons line lines ih =>
    cases limit with
    | zero => cases enough
    | succ limit =>
      have here := apart line List.mem_cons_self
      rw [List.flatMap_cons, List.append_assoc]
      obtain ⟨next, step⟩ := recordsFrom_line first (Line.head?_bytes here _) limit position
      rw [step, Line.tail_bytes here, List.map_cons,
        ih line.tail (fun line mem => apart line (List.mem_cons_of_mem _ mem))
          (Nat.lt_of_succ_lt_succ enough)]
      rfl

theorem records_of_ascii {bytes : List UInt8} (ascii : ∀ b ∈ bytes.head?, b.toNat < 0x80) :
    records bytes = recordsFrom bytes.length .start bytes := by
  have unmarked : byteOrderMark.isPrefixOf? bytes = none := by
    cases bytes with
    | nil => rfl
    | cons b rest =>
      have other : 0xEF ≠ b := by
        rintro rfl
        exact absurd (ascii 0xEF rfl) (by decide)
      exact if_neg (by simpa using other)
  simp only [records, unmarked]

/-- A file of lines is read line by line, up to its end, whatever ends the last line. -/
theorem map_fields_records (first : Line) (lines : List Line)
    (ascii : ∀ b ∈ first.bytes, b.toNat < 0x80) (apart : ∀ line ∈ lines, line.before ≠ [])
    {ending : List UInt8} (ends : ∀ b ∈ ending, isLineEnd b = true) :
    (records (first.bytes ++ (lines.flatMap Line.bytes ++ ending))).map Record.fields =
      first.cells :: lines.map Line.cells := by
  have some := List.length_pos_iff.2 first.bytes_ne_nil
  have enough : lines.length <
      (first.bytes ++ (lines.flatMap Line.bytes ++ ending)).length := by
    have count := Line.length_le_length_flatMap lines
    rw [List.length_append, List.length_append]
    omega
  have start : ∀ b ∈ (first.bytes ++ (lines.flatMap Line.bytes ++ ending)).head?,
      b.toNat < 0x80 := by
    obtain ⟨b, more, bytes⟩ := List.exists_cons_of_ne_nil first.bytes_ne_nil
    have here := ascii b (by rw [bytes]; exact List.mem_cons_self)
    rw [bytes]
    rintro b ⟨⟩
    exact here
  rw [records_of_ascii start, map_fields_recordsFrom first lines apart ends enough]

end PeriodicJobs.Csv
