import PeriodicJobs.Proofs.Binary64.Rounded
import PeriodicJobs.Proofs.Decimal.Spelling

set_option autoImplicit false

/- Plain texts of numbers, of digits and at most one point. What such a text denotes stands in its
characters, and it is read as the correct rounding of that. -/
namespace PeriodicJobs.Decimal

/-- Digits with at most one point among or beside them, and at least one digit. -/
structure IsPlainText (text : List Char) : Prop where
  allowed : ∀ c ∈ text, c.isDigit = true ∨ c = '.'
  single : text.count '.' ≤ 1
  some_digit : ∃ c ∈ text, c.isDigit = true

/-- The number that a plain text denotes: the number of all its digits, less the decimal places of
those behind the point. -/
def plainValue (text : List Char) : ℚ :=
  ofDigits (text.filter Char.isDigit) / 10 ^ (text.dropWhile (· != '.')).tail.length

theorem isPlainText_iff {text : List Char} :
    IsPlainText text ↔ (text.all fun c => c.isDigit || c == '.') = true ∧ text.count '.' ≤ 1 ∧
      text.any Char.isDigit = true := by
  simp only [List.all_eq_true, Bool.or_eq_true, beq_iff_eq, List.any_eq_true]
  exact ⟨fun plain => ⟨plain.allowed, plain.single, plain.some_digit⟩,
    fun ⟨allowed, single, digit⟩ => ⟨allowed, single, digit⟩⟩

instance (text : List Char) : Decidable (IsPlainText text) :=
  decidable_of_iff _ isPlainText_iff.symm

theorem AllDigits.count_point {ds : List Char} (all : AllDigits ds) : ds.count '.' = 0 := by
  rw [List.count_eq_zero]
  intro mem
  cases all '.' mem

theorem AllDigits.filter {ds : List Char} (all : AllDigits ds) : ds.filter Char.isDigit = ds :=
  List.filter_eq_self.2 all

/-- Up to the first point a text with a point is dropped, and a text without one is dropped whole. -/
theorem AllDigits.dropWhile_append {ds : List Char} (all : AllDigits ds) (rest : List Char) :
    (ds ++ rest).dropWhile (· != '.') = rest.dropWhile (· != '.') := by
  apply List.dropWhile_append_of_pos
  intro c mem
  have other : c ≠ '.' := ne_of_isDigit (all c mem) rfl
  simpa using other

namespace Spelling.IsPlain

variable {s : Spelling} (plain : s.IsPlain)

include plain

theorem isPlainText : IsPlainText s.text := by
  have some_digit := s.some_digit
  rw [plain.text_eq, pointText]
  cases fraction : s.fraction with
  | none =>
    rw [fraction, Option.getD_none, List.append_nil] at some_digit
    rw [Option.map_none, Option.getD_none, List.append_nil]
    obtain ⟨c, mem⟩ := List.exists_mem_of_ne_nil _ some_digit
    refine ⟨fun c mem => .inl (s.whole_digits c mem), ?_, c, mem, s.whole_digits c mem⟩
    rw [s.whole_digits.count_point]
    omega
  | some ds =>
    have digits : AllDigits ds := s.fraction_digits ds fraction
    rw [fraction, Option.getD_some] at some_digit
    rw [Option.map_some, Option.getD_some]
    obtain ⟨c, mem⟩ := List.exists_mem_of_ne_nil _ some_digit
    rw [List.mem_append] at mem
    refine ⟨fun c mem => ?_, ?_, c, ?_, mem.elim (s.whole_digits c) (digits c)⟩
    · rw [List.mem_append, List.mem_cons] at mem
      rcases mem with mem | rfl | mem
      · exact .inl (s.whole_digits c mem)
      · exact .inr rfl
      · exact .inl (digits c mem)
    · rw [List.count_append, List.count_cons_self, s.whole_digits.count_point, digits.count_point]
    · rw [List.mem_append, List.mem_cons]
      exact mem.imp id .inr

theorem plainValue_eq : plainValue s.text = s.numeral.magnitude := by
  have value : s.numeral.magnitude =
      ofDigits (s.whole ++ s.fraction.getD []) / 10 ^ (s.fraction.getD []).length := by
    rw [Numeral.magnitude, Spelling.numeral, plain.powerless]
    simp [div_eq_mul_inv]
  rw [value, plain.text_eq, plainValue, pointText, s.whole_digits.dropWhile_append,
    List.filter_append, s.whole_digits.filter]
  cases fraction : s.fraction with
  | none => simp
  | some ds =>
    have digits := s.fraction_digits ds fraction
    simp [digits.filter]

/-- A plain numeral is read as the correct rounding of what its text denotes. -/
theorem isRounded : s.nearest.IsRounded (plainValue s.text) := by
  have negative : s.numeral.negative = false := by
    rw [Spelling.numeral, plain.unsigned]
    rfl
  rw [plain.plainValue_eq, Spelling.nearest, Numeral.magnitude_eq, Numeral.toBinary64_eq, negative]
  exact Binary64.isRounded_ofRatio _ (Numeral.denominator_pos _)

end Spelling.IsPlain

/-- The digits of a plain text up to the point, and behind it, spell a numeral. -/
theorem exists_spelling_of_isPlainText {text : List Char} (plain : IsPlainText text) :
    ∃ s : Spelling, s.IsPlain ∧ s.text = text := by
  obtain ⟨allowed, single, c, mem, digit⟩ := plain
  have split := (List.takeWhile_append_dropWhile (p := Char.isDigit) (l := text)).symm
  have first := head?_dropWhile_digits allowed
  have whole := allDigits_takeWhile text
  generalize text.takeWhile Char.isDigit = before, text.dropWhile Char.isDigit = rest at *
  subst split
  cases rest with
  | nil =>
    rw [List.append_nil] at *
    let s : Spelling := ⟨.absent, before, none, none, whole, by simp, by
      rw [Option.getD_none, List.append_nil]
      exact List.ne_nil_of_mem mem⟩
    have isPlain : s.IsPlain := ⟨rfl, rfl⟩
    exact ⟨s, isPlain, isPlain.text_eq.trans (List.append_nil _)⟩
  | cons d behind =>
    obtain rfl := first d rfl
    have pointless : '.' ∉ behind := by
      rw [List.count_append, List.count_cons_self] at single
      rw [← List.count_eq_zero]
      omega
    have fraction : AllDigits behind := by
      intro d inside
      apply (allowed d (List.mem_append_right _ (List.mem_cons_of_mem _ inside))).resolve_right
      rintro rfl
      exact pointless inside
    let s : Spelling := ⟨.absent, before, some behind, none, whole,
      fun _ same => Option.some.inj same ▸ fraction, by
        rw [Option.getD_some]
        rw [List.mem_append, List.mem_cons] at mem
        rcases mem with mem | rfl | mem
        · exact List.append_ne_nil_of_left_ne_nil (List.ne_nil_of_mem mem) _
        · cases digit
        · exact List.append_ne_nil_of_right_ne_nil _ (List.ne_nil_of_mem mem)⟩
    have isPlain : s.IsPlain := ⟨rfl, rfl⟩
    exact ⟨s, isPlain, isPlain.text_eq⟩

/-- A text of digits and points is read only if it is plain: a second point is neither a digit nor
the mark of a power. -/
theorem isPlainText_of_read {text : List Char} (allowed : ∀ c ∈ text, c.isDigit = true ∨ c = '.')
    {negative : Bool} {n : Numeral} (read : Numeral.read? negative text = some n) :
    IsPlainText text := by
  have split := (List.takeWhile_append_dropWhile (p := Char.isDigit) (l := text)).symm
  have whole := allDigits_takeWhile text
  cases left : text.dropWhile Char.isDigit with
  | nil =>
    rw [left, List.append_nil] at split
    have some_digit : text.takeWhile Char.isDigit ≠ [] := by
      intro none
      simp [Numeral.read?, none, left] at read
    rw [← split] at some_digit whole
    obtain ⟨c, mem⟩ := List.exists_mem_of_ne_nil _ some_digit
    exact ⟨allowed, whole.count_point.le.trans (Nat.zero_le 1), c, mem, whole c mem⟩
  | cons c behind =>
    obtain rfl := head?_dropWhile_digits allowed c (by rw [left]; rfl)
    rw [left] at split
    have allowed' : ∀ d ∈ behind, d.isDigit = true ∨ d = '.' := by
      intro d mem
      apply allowed
      rw [split]
      exact List.mem_append_right _ (List.mem_cons_of_mem _ mem)
    have ends : behind.dropWhile Char.isDigit = [] := by
      cases rest : behind.dropWhile Char.isDigit with
      | nil => rfl
      | cons d more =>
        obtain rfl := head?_dropWhile_digits allowed' d (by rw [rest]; rfl)
        simp [Numeral.read?, left, rest, exponent?] at read
    have fraction := allDigits_takeWhile behind
    have some_digit : text.takeWhile Char.isDigit ++ behind.takeWhile Char.isDigit ≠ [] := by
      intro none
      obtain ⟨none, none'⟩ := List.append_eq_nil_iff.1 none
      simp [Numeral.read?, none, left, none'] at read
    have taken := List.takeWhile_append_dropWhile (p := Char.isDigit) (l := behind)
    rw [ends, List.append_nil] at taken
    rw [taken] at fraction some_digit
    obtain ⟨c, mem⟩ := List.exists_mem_of_ne_nil _ some_digit
    refine ⟨allowed, ?_, c, ?_, (List.mem_append.1 mem).elim (whole c) (fraction c)⟩
    · rw [split, List.count_append, List.count_cons_self, whole.count_point, fraction.count_point]
    · rw [split, List.mem_append, List.mem_cons]
      exact (List.mem_append.1 mem).imp id .inr

end PeriodicJobs.Decimal
