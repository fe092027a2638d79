import PeriodicJobs.Proofs.Decimal.Plain
import PeriodicJobs.Proofs.Outcome
import PeriodicJobs.Proofs.Text.Trimming
import PeriodicJobs.TaskSet.Cell

set_option autoImplicit false

/- The grammar of ranges. A bound is a numeral without a sign and without a power of ten, and a
range is two bounds in a frame of fixed texts. -/
namespace PeriodicJobs

open Decimal (Spelling)

namespace Cell

def rangeText (low high : List Char) : List Char :=
  "uniform params: [".toList ++ ((low ++ (" to ".toList ++ high)) ++ "]".toList)

end Cell

/-- A window that a text spells as a range: the numbers nearest to two plain numerals in order. -/
def Window.IsSpelled (window : Window) (text : List Char) : Prop :=
  ∃ low high : Spelling, (low.IsPlain ∧ high.IsPlain) ∧
    text = Cell.rangeText low.text high.text ∧ low.nearest ≤ high.nearest ∧
    window = ⟨low.nearest, high.nearest⟩

namespace Cell

theorem inside?_eq_some {opening closing text inner : List Char} :
    inside? opening closing text = some inner ↔ text = opening ++ (inner ++ closing) := by
  rw [inside?, Option.bind_eq_some_iff]
  simp only [List.isPrefixOf?_eq_some_iff_append_eq, List.isSuffixOf?_eq_some_iff_append_eq]
  constructor
  · rintro ⟨rest, rfl, rfl⟩
    rfl
  · rintro rfl
    exact ⟨_, rfl, rfl⟩

theorem splitOnce?_eq_some {separator text before behind : List Char}
    (split : splitOnce? separator text = some (before, behind)) :
    text = before ++ (separator ++ behind) := by
  induction text generalizing before with
  | nil => cases split
  | cons c rest ih =>
    rw [splitOnce?] at split
    split at split
    · rename_i found
      cases split
      exact (List.isPrefixOf?_eq_some_iff_append_eq.1 found).symm
    · obtain ⟨⟨first, last⟩, later, same⟩ := Option.map_eq_some_iff.1 split
      cases same
      rw [ih later]
      rfl

/-- Where the first character of a separator is not found before it, a text is split at it. -/
theorem splitOnce?_append {c : Char} {separator before : List Char} (apart : c ∉ before)
    (behind : List Char) :
    splitOnce? (c :: separator) (before ++ (c :: separator ++ behind)) =
      some (before, behind) := by
  induction before with
  | nil =>
    have found := List.isPrefixOf?_eq_some_iff_append_eq.2
      (rfl : c :: separator ++ behind = c :: separator ++ behind)
    simp only [List.nil_append, List.cons_append, splitOnce?] at found ⊢
    rw [found]
  | cons d before ih =>
    rw [List.mem_cons, not_or] at apart
    obtain ⟨other, apart⟩ := apart
    have differ : (c == d) = false := by simpa using other
    rw [List.cons_append, splitOnce?, ih apart]
    simp [List.isPrefixOf?, differ]

/-- A bound consists of digits and points, at least one. -/
theorem plain_text {s : Spelling} (plain : s.IsPlain) :
    s.text ≠ [] ∧ ∀ c ∈ s.text, c.isDigit = true ∨ c = '.' := by
  rw [plain.text_eq]
  obtain ⟨sign, whole, fraction, power, whole_digits, fraction_digits, some_digit⟩ := s
  cases fraction with
  | none =>
    simp only [Spelling.pointText, Option.map_none, Option.getD_none, List.append_nil]
    refine ⟨?_, fun c mem => .inl (whole_digits c mem)⟩
    rwa [Option.getD_none, List.append_nil] at some_digit
  | some ds =>
    simp only [Spelling.pointText, Option.map_some, Option.getD_some]
    refine ⟨by simp, fun c mem => ?_⟩
    rw [List.mem_append, List.mem_cons] at mem
    rcases mem with mem | rfl | mem
    · exact .inl (whole_digits c mem)
    · exact .inr rfl
    · exact .inl (fraction_digits ds (Option.mem_some_self ds) c mem)

/-- A bound is read just if it is spelled as a plain numeral. -/
theorem bound_eq_ok {text : List Char} {x : Binary64} :
    bound text = .ok x ↔ ∃ s : Spelling, s.IsPlain ∧ text = s.text ∧ x = s.nearest := by
  have allowed : (text.isEmpty || !text.all fun c => c.isDigit || c == '.') = false ↔
      text ≠ [] ∧ ∀ c ∈ text, c.isDigit = true ∨ c = '.' := by
    simp [List.all_eq_true]
  rw [bound]
  constructor
  · intro read
    split at read
    · cases read
    · rename_i inside
      obtain ⟨some, inside⟩ := allowed.1 (Bool.eq_false_iff.2 inside)
      split at read
      · rename_i found
        cases read
        obtain ⟨c, rest, rfl⟩ := List.exists_cons_of_ne_nil some
        have start := Decimal.real?_of_start false (inside c List.mem_cons_self) rest
        rw [show Decimal.signText false ++ c :: rest = c :: rest from rfl, found] at start
        obtain ⟨n, numeral, _⟩ := Option.map_eq_some_iff.1 start.symm
        obtain ⟨s, plain, same⟩ :=
          Decimal.exists_spelling_of_isPlainText (Decimal.isPlainText_of_read inside numeral)
        have nearest := s.real?_text
        rw [same, found] at nearest
        exact ⟨s, plain, same.symm, Option.some.inj nearest⟩
      · cases read
  · rintro ⟨s, plain, rfl, rfl⟩
    rw [allowed.2 (plain_text plain), s.real?_text]
    rfl

/-- There is one fault of bounds. -/
theorem bound_eq_error {text : List Char} {reason : CellFault}
    (failed : bound text = .error reason) : reason = .badRange := by
  rw [bound] at failed
  split at failed
  · cases failed
    rfl
  · split at failed <;> cases failed
    rfl

/-- A range with plain bounds is decided by their order. -/
theorem range_rangeText {low high : Spelling} (lowPlain : low.IsPlain) (highPlain : high.IsPlain) :
    range (rangeText low.text high.text) =
      (Window.between low.nearest high.nearest).mapError .inverted := by
  have framed : inside? "uniform params: [".toList "]".toList (rangeText low.text high.text) =
      some (low.text ++ (" to ".toList ++ high.text)) := inside?_eq_some.2 rfl
  have apart : ' ' ∉ low.text := by
    intro mem
    rcases (plain_text lowPlain).2 ' ' mem with digit | point
    · cases digit
    · cases point
  have split : splitOnce? " to ".toList (low.text ++ (" to ".toList ++ high.text)) =
      some (low.text, high.text) := splitOnce?_append apart high.text
  have min := bound_eq_ok.2 ⟨low, lowPlain, rfl, rfl⟩
  have max := bound_eq_ok.2 ⟨high, highPlain, rfl, rfl⟩
  simp only [range, framed, Option.bind_some, split, min, max]
  rfl

/-- A text is spelled as a range, with its bounds in order or not, or it has the fault of ranges. -/
theorem range_cases (text : List Char) :
    (∃ low high : Spelling, (low.IsPlain ∧ high.IsPlain) ∧
      text = rangeText low.text high.text) ∨ range text = .error .badRange := by
  rw [range]
  split
  · exact .inr rfl
  · rename_i low high parts
    obtain ⟨inner, framed, split⟩ := Option.bind_eq_some_iff.1 parts
    rw [inside?_eq_some, splitOnce?_eq_some split] at framed
    cases min : bound low with
    | error reason =>
      rw [bound_eq_error min]
      exact .inr rfl
    | ok a =>
      cases max : bound high with
      | error reason =>
        rw [bound_eq_error max]
        exact .inr rfl
      | ok b =>
        obtain ⟨lower, lowPlain, rfl, _⟩ := bound_eq_ok.1 min
        obtain ⟨upper, highPlain, rfl, _⟩ := bound_eq_ok.1 max
        exact .inl ⟨lower, upper, ⟨lowPlain, highPlain⟩, framed⟩

/-- A range is read just if it is spelled as two plain bounds in order. -/
theorem range_eq_ok {text : List Char} {window : Window} :
    range text = .ok window ↔ window.IsSpelled text := by
  constructor
  · intro read
    rcases range_cases text with ⟨low, high, ⟨lowPlain, highPlain⟩, rfl⟩ | bad
    · have between := read
      rw [range_rangeText lowPlain highPlain, Outcome.mapError_eq_ok, Window.between] at between
      split at between
      · rename_i ordered
        cases between
        exact ⟨low, high, ⟨lowPlain, highPlain⟩, rfl, ordered, rfl⟩
      · cases between
    · rw [bad] at read
      cases read
  · rintro ⟨low, high, ⟨lowPlain, highPlain⟩, rfl, ordered, rfl⟩
    rw [range_rangeText lowPlain highPlain, Window.between, if_pos ordered]
    rfl

/-- The text of a range is not the word for no jitter. -/
theorem trim_rangeText_ne_none (low high : List Char) :
    Text.trim (rangeText low high) ≠ "none".toList := by
  have opening : "uniform params: [".toList = 'u' :: "niform params: [".toList := by decide
  have closing : "]".toList = [']'] := by decide
  have first : ∀ c ∈ (rangeText low high).head?, Text.isBlank c = false := by
    unfold rangeText
    rw [opening, List.cons_append, List.head?_cons]
    rintro c ⟨⟩
    decide
  have last : ∀ c ∈ (rangeText low high).getLast?, Text.isBlank c = false := by
    unfold rangeText
    rw [closing, ← List.append_assoc, List.getLast?_concat]
    rintro c ⟨⟩
    decide
  have whole : Text.stripEnds Text.isBlank ([] ++ rangeText low high ++ []) = rangeText low high :=
    Text.stripEnds_between (by simp) (by simp) first last
  rw [List.nil_append, List.append_nil] at whole
  rw [Text.trim, whole]
  unfold rangeText
  rw [opening, List.cons_append]
  exact fun same => absurd (congrArg List.head? same) (by simp)

theorem jitter_rangeText (low high : List Char) :
    jitter (rangeText low high) = range (rangeText low high) :=
  if_neg (trim_rangeText_ne_none low high)

/-- A cell of jitter is read just if it has the word for none or is spelled as a range. -/
theorem jitter_eq_ok {text : List Char} {window : Window} :
    jitter text = .ok window ↔
      (Text.trim text = "none".toList ∧ window = .point .zero) ∨ window.IsSpelled text := by
  constructor
  · intro read
    rw [jitter] at read
    split at read
    · rename_i none
      cases read
      exact .inl ⟨none, rfl⟩
    · exact .inr (range_eq_ok.1 read)
  · rintro (⟨none, rfl⟩ | spelled)
    · rw [jitter, if_pos none]
    · have read := range_eq_ok.2 spelled
      obtain ⟨low, high, _, rfl, _⟩ := spelled
      rwa [jitter_rangeText]

/-- A text in the frame of a range with two plain texts for bounds. -/
def IsRangeText (text : List Char) : Prop :=
  ∃ low high, (Decimal.IsPlainText low ∧ Decimal.IsPlainText high) ∧ text = rangeText low high

/-- The text of a range is decided by the order of what its bounds are rounded to. -/
theorem range_of_isRounded {low high : List Char} (lowPlain : Decimal.IsPlainText low)
    (highPlain : Decimal.IsPlainText high) :
    ∃ min max : Binary64, min.IsRounded (Decimal.plainValue low) ∧
      max.IsRounded (Decimal.plainValue high) ∧
      range (rangeText low high) = (Window.between min max).mapError .inverted := by
  obtain ⟨lower, isLower, rfl⟩ := Decimal.exists_spelling_of_isPlainText lowPlain
  obtain ⟨upper, isUpper, rfl⟩ := Decimal.exists_spelling_of_isPlainText highPlain
  exact ⟨_, _, isLower.isRounded, isUpper.isRounded, range_rangeText isLower isUpper⟩

theorem range_of_not_isRangeText {text : List Char} (other : ¬ IsRangeText text) :
    range text = .error .badRange := by
  rcases range_cases text with ⟨low, high, ⟨lowPlain, highPlain⟩, same⟩ | bad
  · exact absurd ⟨_, _, ⟨lowPlain.isPlainText, highPlain.isPlainText⟩, same⟩ other
  · exact bad

/-- The text of a range never has the fault of ranges. -/
theorem range_of_isRangeText {text : List Char} (isRange : IsRangeText text) :
    (∃ window, range text = .ok window) ∨ ∃ window, range text = .error (.inverted window) := by
  obtain ⟨low, high, ⟨lowPlain, highPlain⟩, rfl⟩ := isRange
  obtain ⟨min, max, _, _, read⟩ := range_of_isRounded lowPlain highPlain
  rw [read, Window.between]
  split
  · exact .inl ⟨_, rfl⟩
  · exact .inr ⟨_, rfl⟩

theorem not_isRangeText_of_none {text : List Char} (none : Text.trim text = "none".toList) :
    ¬ IsRangeText text := by
  rintro ⟨low, high, _, rfl⟩
  exact trim_rangeText_ne_none low high none

/-- The grammar of ranges decides. The text of two plain bounds in the frame is read as the window
between their roundings, or refused with these when they are not in order, and every other text has
the fault of ranges. A cell of jitter with the word for none is a window of zero without being a
range, and every other one is read as a range, which may be a window of zero too. -/
theorem grammar_decides_ranges (text : List Char) :
    (((∃ window, range text = .ok window) ∨ ∃ window, range text = .error (.inverted window)) ↔
      IsRangeText text) ∧
    (∀ low high, Decimal.IsPlainText low → Decimal.IsPlainText high →
      text = rangeText low high →
      ∃ min max : Binary64, min.IsRounded (Decimal.plainValue low) ∧
        max.IsRounded (Decimal.plainValue high) ∧
        (min ≤ max → range text = .ok ⟨min, max⟩) ∧
        (¬ min ≤ max → range text = .error (.inverted ⟨min, max⟩))) ∧
    (¬ IsRangeText text → range text = .error .badRange) ∧
    (Text.trim text = "none".toList ↔
      jitter text = .ok (.point .zero) ∧ range text = .error .badRange) ∧
    (Text.trim text ≠ "none".toList → jitter text = range text) := by
  refine ⟨⟨?_, range_of_isRangeText⟩, ?_, range_of_not_isRangeText, ⟨?_, ?_⟩, ?_⟩
  · intro read
    by_contra other
    rw [range_of_not_isRangeText other] at read
    rcases read with ⟨_, ⟨⟩⟩ | ⟨_, ⟨⟩⟩
  · rintro low high lowPlain highPlain rfl
    obtain ⟨min, max, lower, upper, read⟩ := range_of_isRounded lowPlain highPlain
    rw [Window.between] at read
    refine ⟨min, max, lower, upper, fun ordered => ?_, fun inverted => ?_⟩
    · rw [read, if_pos ordered]
      rfl
    · rw [read, if_neg inverted]
      rfl
  · intro none
    exact ⟨if_pos none, range_of_not_isRangeText (not_isRangeText_of_none none)⟩
  · rintro ⟨read, bad⟩
    by_contra other
    rw [jitter, if_neg other, bad] at read
    cases read
  · exact fun other => if_neg other

/-- Bounds with a point at one end, which are not in order; the word for none between blanks; and a
window of zero that is spelled as a range. -/
theorem grammar_decides_ranges_inverted :
    range "uniform params: [007. to .5]".toList =
        .error (.inverted ⟨.ofRatio false 7 1, .ofRatio false 1 2⟩) ∧
      jitter " none\t".toList = .ok (.point .zero) ∧
      jitter "uniform params: [0 to 0]".toList = range "uniform params: [0 to 0]".toList := by
  refine ⟨?_, ?_, ?_⟩
  · obtain ⟨min, max, lower, upper, _, inverted⟩ :=
      (grammar_decides_ranges "uniform params: [007. to .5]".toList).2.1 "007.".toList ".5".toList
        (by decide) (by decide) (by decide)
    have seven : Decimal.plainValue "007.".toList = (7 : ℕ) / (1 : ℕ) := by
      simp [Decimal.plainValue, Decimal.ofDigits, Nat.ofDigitChars]
    have half : Decimal.plainValue ".5".toList = (1 : ℕ) / (2 : ℕ) := by
      simp [Decimal.plainValue, Decimal.ofDigits, Nat.ofDigitChars]
      norm_num
    rw [seven] at lower
    rw [half] at upper
    obtain rfl := lower.unique (Binary64.isRounded_ofRatio 7 Nat.one_pos)
    obtain rfl := upper.unique (Binary64.isRounded_ofRatio 1 Nat.two_pos)
    exact inverted (by decide +kernel)
  · exact ((grammar_decides_ranges _).2.2.2.1.1 (by decide)).1
  · exact (grammar_decides_ranges _).2.2.2.2 (by decide)

/-- A window of zero alone does not tell that the word for none was read: two bounds of zero are a
range in the grammar, with the same window. -/
theorem jitter_point_zero_of_range :
    ¬ ∀ text, jitter text = .ok (.point .zero) ↔ Text.trim text = "none".toList := by
  intro always
  have spelled : IsRangeText "uniform params: [0 to 0]".toList :=
    ⟨"0".toList, "0".toList, ⟨by decide, by decide⟩, by decide⟩
  have read : jitter "uniform params: [0 to 0]".toList = .ok (.point .zero) := by decide +kernel
  exact not_isRangeText_of_none ((always _).1 read) spelled

end Cell

end PeriodicJobs
