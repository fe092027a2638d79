import PeriodicJobs.Proofs.TaskSet.Ranges

set_option autoImplicit false

/- Numbers as they are written, read as cells. The text of a finite number is positional, so it is a
cell of a number, and without a sign it is also a bound of a range. -/
namespace PeriodicJobs

open Decimal (IsNumber Spelling)

/-- A positional text: digits, a point and digits, behind a minus sign if there is one. -/
def Decimal.IsPositional (negative : Bool) (text : List Char) : Prop :=
  ∃ whole fraction, (IsNumber whole ∧ IsNumber fraction) ∧
    text = signText negative ++ whole ++ '.' :: fraction

theorem isPositional_realText (s : Bool) {place : Nat} (h : place ≤ Binary64.infinityPlace)
    (finite : place ≠ Binary64.infinityPlace) :
    Decimal.IsPositional s (realText (.number s place h)) :=
  ⟨_, _, ⟨Decimal.Numeral.isNumber_wholeText _, Decimal.Numeral.isNumber_fractionText _⟩,
    Decimal.realText_finite s h finite⟩

/-- A positional text without a sign spells a plain numeral. -/
theorem Decimal.IsPositional.exists_spelling {text : List Char}
    (positional : IsPositional false text) : ∃ s : Spelling, s.IsPlain ∧ s.text = text := by
  obtain ⟨whole, fraction, ⟨isWhole, isFraction⟩, rfl⟩ := positional
  let s : Spelling := ⟨.absent, whole, some fraction, none, isWhole.all_digits,
    fun _ same => Option.some.inj same ▸ isFraction.all_digits,
    List.append_ne_nil_of_left_ne_nil isWhole.some_digit _⟩
  have isPlain : s.IsPlain := ⟨rfl, rfl⟩
  exact ⟨s, isPlain, isPlain.text_eq⟩

namespace Cell

theorem real_realText {x : Binary64} (finite : x.isFinite = true) : real (realText x) = .ok x := by
  rw [real, Decimal.real?_realText (Binary64.isNumber_of_isFinite finite)]
  exact if_pos finite

/-- The text of a finite number without a sign is a bound that is read as the number. -/
theorem exists_spelling_realText {x : Binary64} (magnitude : x.IsMagnitude) :
    ∃ s : Spelling, s.IsPlain ∧ s.text = realText x ∧ s.nearest = x := by
  obtain ⟨p, h, rfl, below⟩ := magnitude.exists_place
  obtain ⟨s, plain, same⟩ := (isPositional_realText false h below.ne).exists_spelling
  have read := s.real?_text
  rw [same, Decimal.real?_realText rfl] at read
  exact ⟨s, plain, same, (Option.some.inj read).symm⟩

/-- The text of every finite number is positional, with the sign of the number, and a cell with it is
read as the number, bit for bit. The texts of finite numbers in order, neither of them with a sign,
are the bounds of a range that is read as the window between them. -/
theorem written_numbers_read :
    (∀ x : Binary64, x.isFinite = true →
      (∃ s place h, x = .number s place h ∧ Decimal.IsPositional s (realText x)) ∧
      real (realText x) = .ok x) ∧
    ∀ low high : Binary64, low.IsMagnitude → high.IsMagnitude → low ≤ high →
      range (rangeText (realText low) (realText high)) = .ok ⟨low, high⟩ := by
  constructor
  · intro x finite
    refine ⟨?_, real_realText finite⟩
    cases x with
    | nan => cases finite
    | number s place h =>
      have below : place < Binary64.infinityPlace := of_decide_eq_true finite
      exact ⟨s, place, h, rfl, isPositional_realText s h below.ne⟩
  · intro low high lower upper ordered
    obtain ⟨s, lowPlain, lowText, lowNearest⟩ := exists_spelling_realText lower
    obtain ⟨t, highPlain, highText, highNearest⟩ := exists_spelling_realText upper
    rw [← lowText, ← highText, range_rangeText lowPlain highPlain, lowNearest, highNearest,
      Window.between, if_pos ordered]
    rfl

/-- Negative zero is read back, and so are the least positive number and the largest finite one. -/
theorem written_numbers_read_extremes :
    real (realText (.ofPlace true 0)) = .ok (.ofPlace true 0) ∧
      range (rangeText (realText (.ofPlace false 1))
        (realText (.ofPlace false (Binary64.infinityPlace - 1)))) =
        .ok ⟨.ofPlace false 1, .ofPlace false (Binary64.infinityPlace - 1)⟩ := by
  constructor
  · exact (written_numbers_read.1 _ (by decide +kernel)).2
  · exact written_numbers_read.2 _ _ ⟨⟨_, _, rfl⟩, by decide +kernel⟩ ⟨⟨_, _, rfl⟩, by decide +kernel⟩
      (by decide +kernel)

end Cell

end PeriodicJobs
