import PeriodicJobs.JobSet.Row
import PeriodicJobs.Proofs.Decimal.Text
import PeriodicJobs.Proofs.Text.Trimming

set_option autoImplicit false

/- Lines of the table read back. No text of a cell has a blank or a comma in it, so that splitting
at commas and trimming gives the texts of the cells whole, whatever the widths of the columns. -/
namespace PeriodicJobs

namespace Text

/-- A text that trimming leaves as it is and that commas and line feeds set apart. -/
def IsPlain (text : List Char) : Prop := ∀ c ∈ text, isBlank c = false ∧ c ≠ ','

instance (text : List Char) : Decidable (IsPlain text) :=
  List.decidableBAll (fun c => isBlank c = false ∧ c ≠ ',') text

theorem isPlain_digit {c : Char} (digit : c.isDigit = true) : isBlank c = false ∧ c ≠ ',' := by
  constructor
  · obtain ⟨low, high⟩ := Char.isDigit_iff_toNat.1 digit
    simp only [Char.reduceToNat] at low high
    simp only [isBlank, blankRanges, List.any_cons, List.any_nil, Bool.or_false,
      Bool.or_eq_false_iff, Bool.and_eq_false_iff, decide_eq_false_iff_not]
    omega
  · rintro rfl
    cases digit

theorem isPlain_of_digits {text : List Char} (digits : ∀ c ∈ text, c.isDigit = true) :
    IsPlain text := fun c mem => isPlain_digit (digits c mem)

theorem stripEnds_append {α : Type} {drop : α → Bool} {blanks items : List α}
    (blank : ∀ a ∈ blanks, drop a = true) (kept : ∀ a ∈ items, drop a = false) :
    stripEnds drop (blanks ++ items) = items := by
  have nothing : ∀ a ∈ ([] : List α), drop a = true := by simp
  rw [← List.append_nil (blanks ++ items)]
  exact stripEnds_between blank nothing (fun a first => kept a (List.mem_of_head? first))
    fun a last => kept a (List.mem_of_getLast? last)

theorem trim_pad {cell : List Char} (plain : IsPlain cell) (width : Nat) :
    trim (pad .right width cell) = cell :=
  stripEnds_append (by simp [isBlank, blankRanges]) fun c mem => (plain c mem).1

theorem trim_space_pad {cell : List Char} (plain : IsPlain cell) (width : Nat) :
    trim (' ' :: pad .right width cell) = cell := by
  rw [pad, ← List.cons_append]
  exact stripEnds_append (by simp [isBlank, blankRanges]) fun c mem => (plain c mem).1

theorem trimEnd_append (front : List Char) {last : List Char} (some : last ≠ [])
    (plain : IsPlain last) : trimEnd (front ++ last) = front ++ last := by
  obtain ⟨c, rest, reversed⟩ := List.exists_cons_of_ne_nil (mt List.reverse_eq_nil_iff.1 some)
  have kept : isBlank c = false := by
    refine (plain c ?_).1
    rw [← List.mem_reverse, reversed]
    exact List.mem_cons_self
  rw [trimEnd, List.reverse_append, reversed, List.cons_append]
  simp only [List.dropWhile_cons, kept, Bool.false_eq_true, ↓reduceIte]
  rw [← List.cons_append, ← reversed, ← List.reverse_append, List.reverse_reverse]

end Text

/-- The text of a number consists of digits, a sign and a point, or is one of three words. -/
theorem mem_realText {x : Binary64} {c : Char} (mem : c ∈ realText x) :
    c.isDigit = true ∨ c ∈ ['-', '.', 'N', 'a', 'i', 'n', 'f'] := by
  have ofWord {text : List Char} (letters : text.all ['-', '.', 'N', 'a', 'i', 'n', 'f'].contains)
      (mem : c ∈ text) : c ∈ ['-', '.', 'N', 'a', 'i', 'n', 'f'] :=
    List.contains_iff_mem.1 (List.all_eq_true.1 letters c mem)
  cases x with
  | nan s => exact Or.inr (ofWord (by cases s <;> decide +kernel) mem)
  | number s place h =>
    by_cases top : place = Binary64.infinityPlace
    · subst top
      refine Or.inr (ofWord ?_ mem)
      clear mem ofWord
      cases s <;> decide +kernel +revert
    · rw [Decimal.realText_finite s h top, List.append_assoc, List.mem_append, List.mem_append,
        List.mem_cons] at mem
      rcases mem with sign | whole | rfl | fraction
      · apply Or.inr
        cases s
        · cases sign
        · rw [List.mem_singleton.1 sign]
          decide
      · exact Or.inl ((Decimal.Numeral.isNumber_wholeText _).all_digits c whole)
      · exact Or.inr (by decide)
      · exact Or.inl ((Decimal.Numeral.isNumber_fractionText _).all_digits c fraction)

theorem isPlain_realText (x : Binary64) : Text.IsPlain (realText x) := by
  have others : Text.IsPlain ['-', '.', 'N', 'a', 'i', 'n', 'f'] := by decide
  intro c mem
  rcases mem_realText mem with digit | other
  · exact Text.isPlain_digit digit
  · exact others c other

theorem realText_ne_nil (x : Binary64) : realText x ≠ [] := by
  cases x with
  | nan s => cases s <;> decide +kernel
  | number s place h =>
    by_cases top : place = Binary64.infinityPlace
    · subst top
      cases s <;> decide +kernel +revert
    · rw [Decimal.realText_finite s h top]
      simp

theorem isPlain_wordText (n : UInt64) : Text.IsPlain (wordText n) :=
  Text.isPlain_of_digits fun _ => Decimal.isDigit_of_mem_digits

theorem word?_wordText (n : UInt64) : Decimal.word? (wordText n) = some n := by
  rw [wordText, Decimal.word?_digits n.toNat_lt, UInt64.ofNat_toNat]

/-- The number that a priority is read back as. -/
def Priority.value : Priority → Binary64
  | .deadline instant => instant
  | .rank place => .ofUInt64 place

/-- Without a field a priority is set as its bare text. -/
theorem Priority.text_bare (priority : Priority) :
    priority.text {} = match priority with
      | .deadline instant => realText instant
      | .rank place => wordText place := by
  cases priority with
  | deadline instant =>
    simp [Priority.text, Text.Field.words, Text.pad]
  | rank place =>
    simp [Priority.text, Text.Field.integer, Text.pad]

theorem Priority.isPlain_text (priority : Priority) : Text.IsPlain (priority.text {}) := by
  rw [text_bare]
  cases priority with
  | deadline instant => exact isPlain_realText instant
  | rank place => exact isPlain_wordText place

theorem Priority.text_ne_nil (priority : Priority) : priority.text {} ≠ [] := by
  rw [text_bare]
  cases priority with
  | deadline instant => exact realText_ne_nil instant
  | rank place => exact Decimal.digits_ne_nil _

theorem Priority.real?_text {priority : Priority} (number : priority.value.isNumber = true) :
    Decimal.real? (priority.text {}) = some priority.value := by
  rw [text_bare]
  cases priority with
  | deadline instant => exact Decimal.real?_realText number
  | rank place => exact Decimal.real?_digits place.toNat

namespace JobSet

/-- A line of the table without its line feed. -/
def tableBody (cells : List (List Char)) : List Char :=
  [',', ' '].intercalate
    (List.zipWith (fun width cell => Text.pad .right width cell) widths cells)

theorem intercalate_comma_space (first : List Char) (rest : List (List Char)) :
    [',', ' '].intercalate (first :: rest) =
      [','].intercalate (first :: rest.map (' ' :: ·)) := by
  induction rest generalizing first with
  | nil => simp
  | cons next rest ih =>
    rw [List.map_cons, List.intercalate_cons_cons, List.intercalate_cons_cons, ih]
    cases rest <;> simp [List.intercalate_cons_cons]

theorem isPlain_cells (job : Job) (priority : Priority) :
    ∀ cell ∈ cells job priority, Text.IsPlain cell := by
  simp only [cells, List.mem_cons, List.not_mem_nil, or_false, forall_eq_or_imp, forall_eq,
    isPlain_wordText, isPlain_realText, Priority.isPlain_text, and_self]

/-- Every text of a plain cell is found whole between the commas. -/
theorem cells_of_tableBody {cells : List (List Char)} (length : cells.length = widths.length)
    (plain : ∀ cell ∈ cells, Text.IsPlain cell) :
    ((tableBody cells).splitOn ',').map Text.trim = cells := by
  obtain ⟨first, rest, rfl⟩ : ∃ first rest, cells = first :: rest :=
    List.exists_cons_of_length_pos (by rw [length]; decide)
  have noComma {cell : List Char} {width : Nat} (isPlain : Text.IsPlain cell) :
      ',' ∉ Text.pad .right width cell := by
    simp only [Text.pad, List.mem_append, List.mem_replicate, not_or]
    exact ⟨by simp, fun mem => (isPlain ',' mem).2 rfl⟩
  rw [tableBody, widths, List.zipWith_cons_cons, intercalate_comma_space, List.splitOn_intercalate]
  · rw [List.map_cons, Text.trim_pad (plain first List.mem_cons_self), List.map_map]
    congr 1
    apply List.ext_getElem
    · simp only [widths, List.length_cons, List.length_nil] at length
      simp only [List.length_map, List.length_zipWith, List.length_cons, List.length_nil]
      omega
    · intro index _ inside
      simp only [List.getElem_map, List.getElem_zipWith, Function.comp_apply]
      exact Text.trim_space_pad (plain _ (List.mem_cons_of_mem _ (List.getElem_mem inside))) _
  · intro piece mem
    rcases List.mem_cons.1 mem with rfl | mem
    · exact noComma (plain first List.mem_cons_self)
    · obtain ⟨padded, inRest, rfl⟩ := List.mem_map.1 mem
      obtain ⟨index, inside, rfl⟩ := List.getElem_of_mem inRest
      simp only [List.length_zipWith] at inside
      simp only [List.getElem_zipWith, List.mem_cons, not_or]
      exact ⟨by decide,
        noComma (plain _ (List.mem_cons_of_mem _ (List.getElem_mem (by omega))))⟩
  · simp

theorem tableBody_ends (job : Job) (priority : Priority) :
    ∃ front, tableBody (cells job priority) = front ++ priority.text {} := by
  simp only [tableBody, cells, widths, List.zipWith_cons_cons, List.zipWith_nil_left,
    List.intercalate_cons_cons, List.intercalate_singleton, Text.pad, ← List.append_assoc]
  exact ⟨_, rfl⟩

/-- A table line ends with its last cell, so nothing but the line feed is trimmed off. -/
theorem trimEnd_tableBody (job : Job) (priority : Priority) :
    Text.trimEnd (tableBody (cells job priority)) = tableBody (cells job priority) := by
  obtain ⟨front, ends⟩ := tableBody_ends job priority
  rw [ends]
  exact Text.trimEnd_append front priority.text_ne_nil priority.isPlain_text

theorem not_mem_tableBody {cells : List (List Char)} (plain : ∀ cell ∈ cells, Text.IsPlain cell) :
    '\n' ∉ tableBody cells := by
  intro mem
  obtain between | ⟨piece, padded, feed⟩ := Text.mem_intercalate mem
  · simp at between
  · obtain ⟨index, inside, rfl⟩ := List.getElem_of_mem padded
    simp only [List.length_zipWith] at inside
    simp only [List.getElem_zipWith, Text.pad, List.mem_append, List.mem_replicate] at feed
    rcases feed with ⟨_, space⟩ | feed
    · cases space
    · cases (plain _ (List.getElem_mem (by omega)) '\n' feed).1

def row (job : Job) (priority : Priority) : Row :=
  { taskId := job.taskId
    jobId := job.id
    arrival := job.arrival
    cost := job.cost
    deadline := job.deadline
    priority := priority.value }

theorem read_window {first second : String} {window : Window} (ordered : window.min ≤ window.max) :
    Row.window first second (realText window.min) (realText window.max) = .ok window := by
  obtain ⟨low, high⟩ := Binary64.isNumber_of_le ordered
  simp only [Row.window, Row.number, Decimal.real?_realText low, Decimal.real?_realText high]
  simp [bind, Except.bind, Window.between, ordered, Except.mapError]

/-- The line of a job with windows in order reads back, each instant as its text does. -/
theorem read_tableBody_of_readings {job : Job} {priority : Priority} {deadline number : Binary64}
    (arrival : job.arrival.min ≤ job.arrival.max) (cost : job.cost.min ≤ job.cost.max)
    (instant : Decimal.real? (realText job.deadline) = some deadline)
    (place : Decimal.real? (priority.text {}) = some number) :
    Row.read (tableBody (cells job priority)) =
      .ok { row job priority with deadline, priority := number } := by
  rw [Row.read, cells_of_tableBody rfl (isPlain_cells job priority)]
  simp only [cells, Row.number, word?_wordText, read_window arrival, read_window cost, instant,
    place]
  rfl

end JobSet

end PeriodicJobs
