import PeriodicJobs.Proofs.Csv.Lines
import PeriodicJobs.Proofs.Text.Decoding
import PeriodicJobs.TaskSet.Table

set_option autoImplicit false

/- Texts in the cells of a table. A text with blanks around it is one field of a record, and what
the table makes of the field is the text. -/
namespace PeriodicJobs

namespace Text

/-- A text that a cell without quotes can hold: nothing in it splits records, and it has no white
space at its ends. -/
structure IsCell (text : List Char) : Prop where
  bare : ∀ c ∈ text, c ∉ [',', '"', '\n', '\r']
  first : ∀ c ∈ text.head?, isBlank c = false
  last : ∀ c ∈ text.getLast?, isBlank c = false

theorem isCell_iff {text : List Char} :
    IsCell text ↔ (text.all fun c => !([',', '"', '\n', '\r'].contains c)) = true ∧
      text.head?.all (!isBlank ·) = true ∧ text.getLast?.all (!isBlank ·) = true := by
  simp only [List.all_eq_true, Option.all_eq_true, Bool.not_eq_true', List.contains_eq_mem,
    decide_eq_false_iff_not]
  exact ⟨fun cell => ⟨cell.bare, cell.first, cell.last⟩,
    fun ⟨bare, first, last⟩ => ⟨bare, first, last⟩⟩

instance (text : List Char) : Decidable (IsCell text) := decidable_of_iff _ isCell_iff.symm

end Text

namespace TaskSet

open Text (IsCell)

/-- Spaces and tabs. -/
def IsSpacing (text : List Char) : Prop := ∀ c ∈ text, c ∈ [' ', '\t']

instance (text : List Char) : Decidable (IsSpacing text) :=
  List.decidableBAll (fun c => c ∈ [' ', '\t']) text

/-- What stands on both sides of a cell. -/
structure Margin where
  before : List Char
  after : List Char
  before_spacing : IsSpacing before
  after_spacing : IsSpacing after

def Margin.around (margin : Margin) (text : List Char) : List Char :=
  margin.before ++ text ++ margin.after

namespace IsSpacing

variable {text : List Char}

theorem isBlank (spacing : IsSpacing text) : ∀ c ∈ text, Text.isBlank c = true := by
  have both : ∀ c ∈ [' ', '\t'], Text.isBlank c = true := by
    simp [Text.isBlank, Text.blankRanges]
  exact fun c mem => both c (spacing c mem)

theorem isAscii (spacing : IsSpacing text) : Text.IsAscii text := by
  have both : Text.IsAscii [' ', '\t'] := by decide
  exact fun c mem => both c (spacing c mem)

theorem isBlankByte (spacing : IsSpacing text) : ∀ b ∈ Text.encode text, isBlankByte b = true := by
  have both : ∀ c ∈ [' ', '\t'], TaskSet.isBlankByte (UInt8.ofNat c.toNat) = true := by
    simp [TaskSet.isBlankByte]
  intro b mem
  rw [Text.encode_of_ascii spacing.isAscii] at mem
  obtain ⟨c, inside, rfl⟩ := List.mem_map.1 mem
  exact both c (spacing c inside)

end IsSpacing

theorem Margin.isAscii_around {text : List Char} (margin : Margin) (ascii : Text.IsAscii text) :
    Text.IsAscii (margin.around text) :=
  (margin.before_spacing.isAscii.append ascii).append margin.after_spacing.isAscii

/-- The byte of an ASCII character is found in no other character. -/
theorem ne_of_mem_utf8EncodeChar {c d : Char} {b : UInt8} (mem : b ∈ String.utf8EncodeChar c)
    (ascii : d.toNat < 0x80) (other : c ≠ d) : b ≠ UInt8.ofNat d.toNat := by
  rintro rfl
  have value : (UInt8.ofNat d.toNat).toNat = d.toNat :=
    UInt8.toNat_ofNat_of_lt' (Nat.lt_trans ascii (by decide))
  rcases Text.mem_utf8EncodeChar mem with same | high
  · rw [value] at same
    exact other (Char.toNat_inj.1 same.symm)
  · omega

def asciiBlanks : List Char := [' ', '\t', '\n', '\x0c', '\r']

theorem isBlank_of_mem_asciiBlanks {c : Char} (mem : c ∈ asciiBlanks) : Text.isBlank c = true := by
  have all : asciiBlanks.all Text.isBlank = true := by decide
  exact List.all_eq_true.1 all c mem

/-- Only a blank character has a blank byte. -/
theorem isBlankByte_eq_false {c : Char} (kept : c ∉ asciiBlanks) {b : UInt8}
    (mem : b ∈ String.utf8EncodeChar c) : isBlankByte b = false := by
  have other {d : Char} (ascii : d.toNat < 0x80) (blank : d ∈ asciiBlanks) :
      b ≠ UInt8.ofNat d.toNat := by
    refine ne_of_mem_utf8EncodeChar mem ascii ?_
    rintro rfl
    exact kept blank
  have space : b ≠ 32 := other (d := ' ') (by decide) (by decide)
  have tab : b ≠ 9 := other (d := '\t') (by decide) (by decide)
  have lineFeed : b ≠ 10 := other (d := '\n') (by decide) (by decide)
  have formFeed : b ≠ 12 := other (d := '\x0c') (by decide) (by decide)
  have carriageReturn : b ≠ 13 := other (d := '\r') (by decide) (by decide)
  simp [isBlankByte, space, tab, lineFeed, formFeed, carriageReturn]

/-- A character that is not white space has no blank byte. -/
theorem isBlankByte_of_not_isBlank {c : Char} (kept : Text.isBlank c = false) {b : UInt8}
    (mem : b ∈ String.utf8EncodeChar c) : isBlankByte b = false := by
  refine isBlankByte_eq_false ?_ mem
  intro blank
  rw [isBlank_of_mem_asciiBlanks blank] at kept
  cases kept

variable {text : List Char}

theorem trim_around (cell : IsCell text) (margin : Margin) :
    Text.trim (margin.around text) = text :=
  Text.stripEnds_between margin.before_spacing.isBlank margin.after_spacing.isBlank cell.first
    cell.last

theorem stripEnds_encode_around (cell : IsCell text) (margin : Margin) :
    Text.stripEnds isBlankByte (Text.encode (margin.around text)) = Text.encode text := by
  rw [Margin.around, Text.encode_append, Text.encode_append]
  refine Text.stripEnds_between margin.before_spacing.isBlankByte
    margin.after_spacing.isBlankByte ?_ ?_
  · intro b mem
    rw [Text.head?_encode] at mem
    obtain ⟨c, first, mem⟩ := Option.bind_eq_some_iff.1 mem
    exact isBlankByte_of_not_isBlank (cell.first c first) (List.mem_of_head? mem)
  · intro b mem
    rw [Text.getLast?_encode] at mem
    obtain ⟨c, last, mem⟩ := Option.bind_eq_some_iff.1 mem
    exact isBlankByte_of_not_isBlank (cell.last c last) (List.mem_of_getLast? mem)

theorem isPlain_encode_around (cell : IsCell text) (margin : Margin) :
    Csv.IsPlain (Text.encode (margin.around text)) := by
  have blanks : ∀ c ∈ [' ', '\t'], c ∉ [',', '"', '\n', '\r'] := by simp
  have bare : ∀ c ∈ margin.around text, c ∉ [',', '"', '\n', '\r'] := by
    intro c mem
    rw [Margin.around, List.mem_append, List.mem_append] at mem
    rcases mem with (mem | mem) | mem
    · exact blanks c (margin.before_spacing c mem)
    · exact cell.bare c mem
    · exact blanks c (margin.after_spacing c mem)
  intro b mem
  obtain ⟨c, inside, mem⟩ := Text.mem_encode.1 mem
  have other {d : Char} (special : d ∈ [',', '"', '\n', '\r']) : b ≠ UInt8.ofNat d.toNat := by
    have ascii : Text.IsAscii [',', '"', '\n', '\r'] := by decide
    refine ne_of_mem_utf8EncodeChar mem (ascii d special) ?_
    rintro rfl
    exact bare c inside special
  have comma : b ≠ 44 := other (d := ',') (by decide)
  have quote : b ≠ 34 := other (d := '"') (by decide)
  have lineFeed : b ≠ 10 := other (d := '\n') (by decide)
  have carriageReturn : b ≠ 13 := other (d := '\r') (by decide)
  refine ⟨quote, ?_⟩
  simp [Csv.endsField, Csv.comma, Csv.isLineEnd, comma, lineFeed, carriageReturn]

theorem trim_of_isCell (cell : IsCell text) : Text.trim text = text := by
  have bare : Margin.around ⟨[], [], by decide, by decide⟩ text = text := List.append_nil text
  rw [← bare, trim_around cell, bare]

/-- Fields that encode texts are read as these texts without the blanks around them. -/
theorem texts_encode (start : Csv.Position) (index : Nat) (cells : List (List Char)) :
    texts start index (cells.map Text.encode) = .ok (cells.map Text.trim) := by
  induction cells generalizing index with
  | nil => rfl
  | cons cell cells ih =>
    simp only [List.map_cons, texts, Text.decode_encode, ih]
    rfl

end TaskSet

end PeriodicJobs
