import Mathlib.Algebra.Order.Field.Power
import Mathlib.Data.Rat.Cast.Order
import PeriodicJobs.Proofs.Binary64.Overflow
import PeriodicJobs.Proofs.Decimal.Text
import PeriodicJobs.Proofs.Text.Trimming

set_option autoImplicit false

/- How numerals are spelled. A decimal text has a sign or none, digits with a point or none, and a
power of ten or none; it is read as the number nearest to what it denotes. -/
namespace PeriodicJobs.Decimal

def Numeral.magnitude (n : Numeral) : ℚ := n.coefficient * 10 ^ n.exponent

theorem Numeral.magnitude_eq (n : Numeral) : n.magnitude = n.numerator / n.denominator := by
  have split : n.exponent = (n.exponent.toNat : Int) - ((-n.exponent).toNat : Int) := by omega
  have ten : (10 : ℚ) ≠ 0 := by norm_num
  rw [magnitude, numerator, denominator]
  conv_lhs => rw [split]
  rw [zpow_sub₀ ten, zpow_natCast, zpow_natCast]
  push_cast
  rw [mul_div_assoc]

/-- A numeral is read as a finite number just if it is below the bound of the format. -/
theorem Numeral.isFinite_iff (n : Numeral) :
    n.toBinary64.isFinite = true ↔ n.magnitude < Binary64.overflowBound := by
  rw [toBinary64_eq, magnitude_eq, Binary64.isFinite_ofRatio_iff _ _ n.denominator_pos]

inductive Sign where
  | absent
  | plus
  | minus

def Sign.text : Sign → List Char
  | .absent => []
  | .plus => ['+']
  | .minus => ['-']

def Sign.negative : Sign → Bool
  | .minus => true
  | _ => false

def AllDigits (text : List Char) : Prop := ∀ c ∈ text, c.isDigit = true

instance (text : List Char) : Decidable (AllDigits text) :=
  List.decidableBAll (fun c : Char => c.isDigit = true) text

structure Power where
  mark : Char
  sign : Sign
  digits : List Char
  marks : mark = 'e' ∨ mark = 'E'
  some_digit : digits ≠ []
  all_digits : AllDigits digits

def Power.text (p : Power) : List Char := p.mark :: (p.sign.text ++ p.digits)

def Power.value (p : Power) : Int :=
  if p.sign.negative then -ofDigits p.digits else ofDigits p.digits

/-- The parts of a decimal text. -/
structure Spelling where
  sign : Sign
  whole : List Char
  fraction : Option (List Char)
  power : Option Power
  whole_digits : AllDigits whole
  fraction_digits : ∀ ds ∈ fraction, AllDigits ds
  some_digit : whole ++ fraction.getD [] ≠ []

namespace Spelling

variable (s : Spelling)

def pointText : List Char := (s.fraction.map ('.' :: ·)).getD []

def powerText : List Char := (s.power.map Power.text).getD []

def text : List Char := s.sign.text ++ (s.whole ++ (s.pointText ++ s.powerText))

def numeral : Numeral where
  negative := s.sign.negative
  coefficient := ofDigits (s.whole ++ s.fraction.getD [])
  exponent := (s.power.map Power.value).getD 0 - (s.fraction.getD []).length

def nearest : Binary64 := s.numeral.toBinary64

end Spelling

theorem exponent?_text (p : Power) : exponent? p.text = some p.value := by
  obtain ⟨mark, sign, digits, marks, some_digit, all_digits⟩ := p
  have marked : ¬ (mark ≠ 'e' ∧ mark ≠ 'E') := by
    rcases marks with rfl | rfl <;> decide
  have all : (digits.isEmpty || !digits.all Char.isDigit) = false := by
    rw [List.isEmpty_eq_false_iff.2 some_digit, List.all_eq_true.2 all_digits]
    rfl
  simp only [exponent?, Power.text, marked, ↓reduceIte]
  cases sign with
  | plus => exact if_neg (Bool.eq_false_iff.1 all)
  | minus => exact if_neg (Bool.eq_false_iff.1 all)
  | absent =>
    obtain ⟨c, rest, rfl⟩ := List.exists_cons_of_ne_nil some_digit
    obtain ⟨digit, others⟩ := List.forall_mem_cons.1 all_digits
    have plus : c ≠ '+' := ne_of_isDigit digit rfl
    have minus : c ≠ '-' := ne_of_isDigit digit rfl
    simpa [Sign.text, Power.value, Sign.negative, plus, minus, digit] using others

theorem span_digits {ds rest : List Char} (all : AllDigits ds)
    (stop : ∀ c ∈ rest.head?, c.isDigit = false) :
    (ds ++ rest).takeWhile Char.isDigit = ds ∧ (ds ++ rest).dropWhile Char.isDigit = rest := by
  refine ⟨?_, Text.dropWhile_append all stop⟩
  rw [List.takeWhile_append_of_pos all]
  cases rest with
  | nil => simp
  | cons c rest => simp [stop c rfl]

theorem Numeral.read?_of_point {negative : Bool} {text behind : List Char}
    (left : text.dropWhile Char.isDigit = '.' :: behind)
    (some_digit : text.takeWhile Char.isDigit ++ behind.takeWhile Char.isDigit ≠ []) :
    Numeral.read? negative text = (exponent? (behind.dropWhile Char.isDigit)).map fun e =>
      ⟨negative, ofDigits (text.takeWhile Char.isDigit ++ behind.takeWhile Char.isDigit),
        e - (behind.takeWhile Char.isDigit).length⟩ := by
  have digits : ((text.takeWhile Char.isDigit).isEmpty &&
      (behind.takeWhile Char.isDigit).isEmpty) = false :=
    Bool.eq_false_iff.2 fun none => some_digit (by simpa using none)
  simp only [Numeral.read?, left, digits, Bool.false_eq_true, ↓reduceIte]

theorem Numeral.read?_of_pointless {negative : Bool} {text rest : List Char}
    (left : text.dropWhile Char.isDigit = rest) (pointless : rest.head? ≠ some '.')
    (some_digit : text.takeWhile Char.isDigit ≠ []) :
    Numeral.read? negative text = (exponent? rest).map fun e =>
      ⟨negative, ofDigits (text.takeWhile Char.isDigit), e⟩ := by
  have digits := List.isEmpty_eq_false_iff.2 some_digit
  cases rest with
  | nil => simp [Numeral.read?, left, digits]
  | cons c rest =>
    have other : c ≠ '.' := fun same => pointless (congrArg some same)
    simp [Numeral.read?, left, digits, other]

namespace Spelling

variable (s : Spelling)

theorem head?_powerText : ∀ c ∈ s.powerText.head?, c = 'e' ∨ c = 'E' := by
  unfold powerText
  cases s.power with
  | none => rintro c ⟨⟩
  | some p =>
    rintro c ⟨⟩
    exact p.marks

theorem read?_body :
    Numeral.read? s.sign.negative (s.whole ++ (s.pointText ++ s.powerText)) = some s.numeral := by
  have behind : ∀ c ∈ s.powerText.head?, c.isDigit = false := by
    intro c mem
    rcases s.head?_powerText c mem with rfl | rfl <;> rfl
  have value : exponent? s.powerText = some ((s.power.map Power.value).getD 0) := by
    unfold powerText
    cases s.power with
    | none => rfl
    | some p => exact exponent?_text p
  have pointless : s.powerText.head? ≠ some '.' := by
    intro first
    rcases s.head?_powerText '.' first with same | same <;> cases same
  obtain ⟨sign, whole, fraction, power, whole_digits, fraction_digits, some_digit⟩ := s
  simp only [numeral, pointText] at *
  generalize powerText _ = rest at *
  cases fraction with
  | none =>
    obtain ⟨taken, left⟩ := span_digits whole_digits behind
    simp only [Option.map_none, Option.getD_none, List.append_nil, List.nil_append] at some_digit ⊢
    rw [Numeral.read?_of_pointless left pointless (by rwa [taken]), taken, value]
    simp
  | some ds =>
    have stop : ∀ c ∈ ('.' :: (ds ++ rest)).head?, c.isDigit = false := by
      rintro c ⟨⟩
      rfl
    obtain ⟨taken, left⟩ := span_digits whole_digits stop
    obtain ⟨taken', left'⟩ := span_digits (fraction_digits ds (Option.mem_some_self ds)) behind
    simp only [Option.map_some, Option.getD_some, List.cons_append] at some_digit ⊢
    rw [Numeral.read?_of_point left (by rwa [taken, taken']), taken, taken', left', value]
    rfl

/-- The first character behind the sign is a digit or a point. -/
theorem starts_body : ∃ c rest, s.whole ++ (s.pointText ++ s.powerText) = c :: rest ∧
    (c.isDigit = true ∨ c = '.') := by
  obtain ⟨sign, whole, fraction, power, whole_digits, fraction_digits, some_digit⟩ := s
  simp only [pointText]
  cases whole with
  | cons c whole => exact ⟨c, _, rfl, .inl (whole_digits c List.mem_cons_self)⟩
  | nil =>
    cases fraction with
    | none => exact absurd rfl some_digit
    | some ds => exact ⟨'.', _, rfl, .inr rfl⟩

/-- A decimal text is read as the number nearest to what it denotes. -/
theorem real?_text : real? s.text = some s.nearest := by
  obtain ⟨c, rest, body, start⟩ := s.starts_body
  have read := s.read?_body
  rw [text, nearest]
  rw [body] at read ⊢
  cases sign : s.sign with
  | absent =>
    rw [sign] at read
    have done := real?_of_start false start rest
    rwa [show Numeral.read? false (c :: rest) = _ from read, Option.map_some] at done
  | minus =>
    rw [sign] at read
    have done := real?_of_start true start rest
    rwa [show Numeral.read? true (c :: rest) = _ from read, Option.map_some] at done
  | plus =>
    rw [sign] at read
    have done := unsigned?_of_start false start rest
    rwa [show Numeral.read? false (c :: rest) = _ from read, Option.map_some] at done

end Spelling

/-- A spelling without a sign and without a power of ten. -/
structure Spelling.IsPlain (s : Spelling) : Prop where
  unsigned : s.sign = .absent
  powerless : s.power = none

theorem Spelling.IsPlain.isUnsigned {s : Spelling} (plain : s.IsPlain) :
    s.nearest.IsUnsigned := by
  have negative : s.numeral.negative = false := by
    rw [Spelling.numeral, plain.unsigned]
    rfl
  rw [Spelling.nearest, Numeral.toBinary64_eq, negative]
  exact ⟨_, _, rfl⟩

theorem Spelling.IsPlain.text_eq {s : Spelling} (plain : s.IsPlain) :
    s.text = s.whole ++ s.pointText := by
  rw [Spelling.text, plain.unsigned, Spelling.powerText, plain.powerless]
  exact congrArg (s.whole ++ ·) (List.append_nil _)

theorem allDigits_takeWhile (text : List Char) : AllDigits (text.takeWhile Char.isDigit) :=
  fun c mem => List.all_eq_true.1 List.all_takeWhile c mem

theorem head?_dropWhile_digits {text : List Char}
    (plain : ∀ c ∈ text, c.isDigit = true ∨ c = '.') :
    ∀ c ∈ (text.dropWhile Char.isDigit).head?, c = '.' := by
  intro c mem
  have first := List.head?_dropWhile_not Char.isDigit text
  rw [show (text.dropWhile Char.isDigit).head? = some c from mem] at first
  have inside := (List.dropWhile_sublist _).mem (List.mem_of_head? mem)
  exact (plain c inside).resolve_left (by simpa using first)

end PeriodicJobs.Decimal
