import PeriodicJobs.JobSet.Layout
import PeriodicJobs.Proofs.Binary64.Order
import PeriodicJobs.Proofs.Decimal.Value

set_option autoImplicit false

/- The texts of numbers and what is read from them. A positional text is an optional sign, digits,
a point and digits; whatever zeros it drops or adds, its value stays. -/
namespace PeriodicJobs.Decimal

theorem ofDigits_append (high low : List Char) :
    ofDigits (high ++ low) = 10 ^ low.length * ofDigits high + ofDigits low := by
  simp only [ofDigits]
  rw [Nat.ofDigitChars_append, Nat.ofDigitChars_eq_ofDigitChars_zero]

theorem ofDigits_digits (n : Nat) : ofDigits (digits n) = n := Nat.ofDigitChars_ten_toDigits

theorem ofDigits_zeros (count : Nat) : ofDigits (List.replicate count '0') = 0 := by
  simp [ofDigits]

theorem isDigit_of_mem_digits {n : Nat} {c : Char} (mem : c ∈ digits n) : c.isDigit = true :=
  Nat.isDigit_of_mem_toDigits (by decide) (by decide) mem

theorem digits_ne_nil (n : Nat) : digits n ≠ [] := Nat.toDigits_ne_nil

/-- A natural number in digits, at least one. Zeros may stand in front. -/
structure IsNumber (text : List Char) : Prop where
  some_digit : text ≠ []
  all_digits : ∀ c ∈ text, c.isDigit = true

theorem isNumber_digits (n : Nat) : IsNumber (digits n) :=
  ⟨digits_ne_nil n, fun _ => isDigit_of_mem_digits⟩

/-- Only zeros at the end are dropped. -/
theorem dropZeros_append (ds : List Char) :
    ∃ count, ds = (ds.reverse.dropWhile (· == '0')).reverse ++ List.replicate count '0' := by
  refine ⟨(ds.reverse.takeWhile (· == '0')).length, ?_⟩
  have zeros : ds.reverse.takeWhile (· == '0') =
      List.replicate (ds.reverse.takeWhile (· == '0')).length '0' := by
    apply List.eq_replicate_of_mem
    intro c mem
    simpa using (List.all_eq_true.1 (List.all_takeWhile (l := ds.reverse)) c mem)
  calc ds = ds.reverse.reverse := (List.reverse_reverse ds).symm
    _ = (ds.reverse.takeWhile (· == '0') ++ ds.reverse.dropWhile (· == '0')).reverse := by
        rw [List.takeWhile_append_dropWhile]
    _ = _ := by
        rw [List.reverse_append, zeros, List.reverse_replicate, List.length_replicate]

theorem isDigit_of_mem_fractionDigits {places n : Nat} {c : Char}
    (mem : c ∈ fractionDigits places n) : c.isDigit = true := by
  simp only [fractionDigits, List.mem_reverse] at mem
  have original := (List.dropWhile_sublist _).mem mem
  simp only [List.mem_reverse, List.mem_append, List.mem_replicate] at original
  rcases original with ⟨_, rfl⟩ | digit
  · rfl
  · exact isDigit_of_mem_digits digit

/-- The digits behind the point, as a fraction, are the dropped part of the value. -/
theorem fractionDigits_value {places n : Nat} (small : n < 10 ^ places) :
    ofDigits (fractionDigits places n) * 10 ^ places =
      n * 10 ^ (fractionDigits places n).length := by
  by_cases none : places = 0
  · subst none
    obtain rfl : n = 0 := by omega
    decide
  · have fits : (digits n).length ≤ places :=
      (Nat.length_toDigits_le_iff (by decide) (Nat.pos_of_ne_zero none)).2 small
    obtain ⟨count, all⟩ :=
      dropZeros_append (List.replicate (places - (digits n).length) '0' ++ digits n)
    change _ = fractionDigits places n ++ _ at all
    have length := congrArg List.length all
    have value := congrArg ofDigits all
    rw [ofDigits_append, ofDigits_append, ofDigits_zeros, ofDigits_zeros, ofDigits_digits,
      Nat.mul_zero, Nat.zero_add, Nat.add_zero, List.length_replicate] at value
    simp only [List.length_append, List.length_replicate] at length
    have split : places = count + (fractionDigits places n).length := by omega
    calc ofDigits (fractionDigits places n) * 10 ^ places
        = 10 ^ count * ofDigits (fractionDigits places n) *
            10 ^ (fractionDigits places n).length := by
          conv_lhs => rw [split, Nat.pow_add]
          rw [← split]
          ring
      _ = n * 10 ^ (fractionDigits places n).length := by rw [← value]

theorem takeWhile_digits {ds : List Char} (all : ∀ c ∈ ds, c.isDigit = true) :
    ds.takeWhile Char.isDigit = ds := by
  have taken : (ds ++ []).takeWhile Char.isDigit = ds ++ [].takeWhile Char.isDigit :=
    List.takeWhile_append_of_pos all
  simpa using taken

theorem dropWhile_digits {ds : List Char} (all : ∀ c ∈ ds, c.isDigit = true) :
    ds.dropWhile Char.isDigit = [] := by
  have left : (ds ++ []).dropWhile Char.isDigit = [].dropWhile Char.isDigit :=
    List.dropWhile_append_of_pos all
  simpa using left

section Reading

variable {whole fraction : List Char} (whole_ne_nil : whole ≠ [])
  (whole_digits : ∀ c ∈ whole, c.isDigit = true)

include whole_ne_nil whole_digits

theorem Numeral.read?_whole (s : Bool) :
    Numeral.read? s whole = some ⟨s, ofDigits whole, 0⟩ := by
  simp [Numeral.read?, takeWhile_digits whole_digits, dropWhile_digits whole_digits, whole_ne_nil,
    exponent?]

theorem Numeral.read?_point (s : Bool) (fraction_digits : ∀ c ∈ fraction, c.isDigit = true) :
    Numeral.read? s (whole ++ '.' :: fraction) =
      some ⟨s, ofDigits (whole ++ fraction), -fraction.length⟩ := by
  have taken : (whole ++ '.' :: fraction).takeWhile Char.isDigit = whole := by
    rw [List.takeWhile_append_of_pos whole_digits]
    simp
  have left : (whole ++ '.' :: fraction).dropWhile Char.isDigit = '.' :: fraction := by
    rw [List.dropWhile_append_of_pos whole_digits]
    simp
  simp [Numeral.read?, taken, left, takeWhile_digits fraction_digits,
    dropWhile_digits fraction_digits, whole_ne_nil, exponent?]

end Reading

theorem ne_of_isDigit {c d : Char} (digit : c.isDigit = true) (other : d.isDigit = false) :
    c ≠ d := by
  rintro rfl
  rw [digit] at other
  cases other

/-- A text that starts with a digit or a point is none of the words. -/
theorem unsigned?_of_start (s : Bool) {c : Char} (start : c.isDigit = true ∨ c = '.')
    (rest : List Char) :
    unsigned? s (c :: rest) = (Numeral.read? s (c :: rest)).map Numeral.toBinary64 := by
  have lower : c.toLower = c := by
    rcases start with digit | rfl
    · simp only [Char.isDigit, Bool.and_eq_true, decide_eq_true_eq, ge_iff_le] at digit
      have notUpper : ¬ (c.val ≥ 'A'.val ∧ c.val ≤ 'Z'.val) := fun upper =>
        absurd (UInt32.le_trans upper.1 digit.2) (by decide)
      exact dif_neg notUpper
    · rfl
  have other {word : List Char}
      (letter : (word.head?.any fun d => !d.isDigit && d != '.') = true) :
      String.ofList ((c :: rest).map Char.toLower) ≠ String.ofList word := by
    intro same
    have lists := String.ofList_injective same
    rw [List.map_cons, lower] at lists
    simp only [← lists, List.head?_cons, Option.any_some, Bool.and_eq_true, Bool.not_eq_true',
      bne_iff_ne] at letter
    obtain ⟨notDigit, notPoint⟩ := letter
    rcases start with digit | rfl
    · exact ne_of_isDigit digit notDigit rfl
    · exact notPoint rfl
  have inf := @other "inf".toList (by decide)
  have infinity := @other "infinity".toList (by decide)
  have nan := @other "nan".toList (by decide)
  simp only [String.ofList_toList] at inf infinity nan
  simp only [unsigned?, inf, infinity, nan, or_self, ↓reduceIte]

def signText (s : Bool) : List Char := if s then ['-'] else []

theorem real?_of_start (s : Bool) {c : Char} (start : c.isDigit = true ∨ c = '.')
    (rest : List Char) :
    real? (signText s ++ c :: rest) =
      (Numeral.read? s (c :: rest)).map Numeral.toBinary64 := by
  cases s with
  | true => exact unsigned?_of_start true start rest
  | false =>
    have other {d : Char} (sign : d.isDigit = false ∧ d ≠ '.') : c ≠ d := by
      rcases start with digit | rfl
      · exact ne_of_isDigit digit sign.1
      · exact sign.2.symm
    have minus := other (d := '-') (by decide)
    have plus := other (d := '+') (by decide)
    rw [← unsigned?_of_start false start rest, signText]
    simp only [Bool.false_eq_true, ↓reduceIte, List.nil_append]
    unfold real?
    split <;> simp_all

/-- What is read from digits, a point and digits. -/
def pointed (s : Bool) (whole fraction : List Char) : Numeral :=
  ⟨s, ofDigits (whole ++ fraction), -fraction.length⟩

theorem real?_pointed (s : Bool) {whole fraction : List Char} (whole_ne_nil : whole ≠ [])
    (whole_digits : ∀ c ∈ whole, c.isDigit = true)
    (fraction_digits : ∀ c ∈ fraction, c.isDigit = true) :
    real? (signText s ++ whole ++ '.' :: fraction) =
      some (pointed s whole fraction).toBinary64 := by
  obtain ⟨c, rest, rfl⟩ := List.exists_cons_of_ne_nil whole_ne_nil
  rw [List.append_assoc, List.cons_append,
    real?_of_start s (.inl (whole_digits c List.mem_cons_self)), ← List.cons_append,
    Numeral.read?_point whole_ne_nil whole_digits s fraction_digits, Option.map_some, pointed]

/-- A word is read as the number nearest to it. -/
theorem real?_digits (n : Nat) : real? (digits n) = some (Binary64.ofNat n) := by
  obtain ⟨c, rest, cons⟩ := List.exists_cons_of_ne_nil (digits_ne_nil n)
  have digit : c.isDigit = true := isDigit_of_mem_digits (n := n) (by rw [cons]; simp)
  have read := real?_of_start false (.inl digit) rest
  rw [← cons, Numeral.read?_whole (digits_ne_nil n) (fun _ => isDigit_of_mem_digits) false,
    ofDigits_digits] at read
  rw [Option.map_some, Numeral.toBinary64_eq] at read
  simpa [signText, Numeral.numerator, Numeral.denominator, Binary64.ofNat] using read

/-- Digits are a word when their number is in the range of words. -/
theorem word?_of_isNumber {text : List Char} (number : IsNumber text) :
    word? text = if ofDigits text < UInt64.size then some (UInt64.ofNat (ofDigits text)) else none := by
  obtain ⟨c, rest, rfl⟩ := List.exists_cons_of_ne_nil number.some_digit
  have plus : c ≠ '+' := ne_of_isDigit (number.all_digits c List.mem_cons_self) rfl
  have all : ((c :: rest).isEmpty || !(c :: rest).all Char.isDigit) = false := by
    rw [List.all_eq_true.2 number.all_digits]
    rfl
  unfold word?
  split
  · rename_i ds signed
    exact absurd (List.cons.inj signed).1 plus
  · exact if_neg (Bool.eq_false_iff.1 all)

theorem word?_digits {n : Nat} (small : n < 2 ^ 64) :
    word? (digits n) = some (UInt64.ofNat n) := by
  rw [word?_of_isNumber (isNumber_digits n), ofDigits_digits]
  exact if_pos small

/-- The digits behind the point, at least one. -/
def paddedFraction (places n : Nat) : List Char :=
  if (fractionDigits places n).isEmpty then ['0'] else fractionDigits places n

theorem isNumber_paddedFraction (places n : Nat) : IsNumber (paddedFraction places n) := by
  unfold paddedFraction
  split
  · exact ⟨List.cons_ne_nil _ _, List.forall_mem_singleton.2 rfl⟩
  · rename_i some
    exact ⟨by simpa using some, fun _ => isDigit_of_mem_fractionDigits⟩

theorem paddedFraction_value {places n : Nat} (small : n < 10 ^ places) :
    ofDigits (paddedFraction places n) * 10 ^ places =
      n * 10 ^ (paddedFraction places n).length := by
  have value := fractionDigits_value small
  unfold paddedFraction
  split
  · rename_i none
    rw [List.isEmpty_iff.1 none] at value
    obtain rfl : n = 0 := by simpa [ofDigits] using value.symm
    have zero : ofDigits ['0'] = 0 := ofDigits_zeros 1
    rw [zero, Nat.zero_mul, Nat.zero_mul]
  · exact value

section Positional

variable (n : Numeral)

def Numeral.wholeText : List Char :=
  digits (n.numerator / n.denominator)

/-- The digits behind the point in a positional text, at least one. -/
def Numeral.fractionText : List Char :=
  paddedFraction (-n.exponent).toNat (n.numerator % n.denominator)

theorem Numeral.isNumber_wholeText : IsNumber n.wholeText := isNumber_digits _

theorem Numeral.isNumber_fractionText : IsNumber n.fractionText := isNumber_paddedFraction _ _

/-- The coefficient may keep powers of ten when the exponent is negative, and only then is there a
fraction. -/
theorem Numeral.coefficient_mod : n.coefficient % n.denominator = n.numerator % n.denominator := by
  by_cases whole : 0 ≤ n.exponent
  · have one : (-n.exponent).toNat = 0 := by omega
    simp [denominator, one, Nat.mod_one]
  · have one : n.exponent.toNat = 0 := by omega
    simp [numerator, one]

theorem Numeral.pointed_toBinary64 :
    (pointed n.negative n.wholeText n.fractionText).toBinary64 = n.toBinary64 := by
  apply toBinary64_congr
  · rfl
  · have small : n.numerator % n.denominator < 10 ^ (-n.exponent).toNat :=
      Nat.mod_lt _ n.denominator_pos
    have fraction := paddedFraction_value small
    have split := Nat.div_add_mod n.numerator n.denominator
    change ofDigits n.fractionText * n.denominator =
      n.numerator % n.denominator * 10 ^ n.fractionText.length at fraction
    have numerator' : (pointed n.negative n.wholeText n.fractionText).numerator =
        10 ^ n.fractionText.length * (n.numerator / n.denominator) +
          ofDigits n.fractionText := by
      simp [numerator, pointed, ofDigits_append, wholeText, ofDigits_digits]
    have denominator' : (pointed n.negative n.wholeText n.fractionText).denominator =
        10 ^ n.fractionText.length := by
      simp [denominator, pointed]
    rw [numerator', denominator']
    calc _ = 10 ^ n.fractionText.length * (n.denominator * (n.numerator / n.denominator)) +
          ofDigits n.fractionText * n.denominator := by ring
      _ = (n.denominator * (n.numerator / n.denominator) + n.numerator % n.denominator) *
          10 ^ n.fractionText.length := by
        rw [fraction]
        ring
      _ = n.numerator * 10 ^ n.fractionText.length := by rw [split]

/-- A positional text ends before the point if no digit but zeros would follow. -/
theorem Numeral.text_eq : n.text = signText n.negative ++ n.wholeText ++
    (if (fractionDigits (-n.exponent).toNat (n.numerator % n.denominator)).isEmpty then []
      else '.' :: n.fractionText) := by
  have dropped : n.coefficient % Nat.pow 10 (-n.exponent).toNat = n.numerator % n.denominator :=
    n.coefficient_mod
  rw [text, dropped]
  unfold fractionText paddedFraction
  by_cases none : (fractionDigits (-n.exponent).toNat (n.numerator % n.denominator)).isEmpty
  · simp only [none, ↓reduceIte]
    rfl
  · simp only [none, Bool.false_eq_true, ↓reduceIte]
    rfl

end Positional

/-- The texts of the written numbers, always with a digit behind the point. -/
theorem realText_finite (s : Bool) {place : Nat} (h : place ≤ Binary64.infinityPlace)
    (finite : place ≠ Binary64.infinityPlace) :
    realText (.number s place h) = signText s ++ (shortest s place).wholeText ++
      '.' :: (shortest s place).fractionText := by
  have text : (Binary64.number s place h).text.toList = (shortest s place).text := by
    simp [Binary64.text, finite]
  have isFinite : (Binary64.number s place h).isFinite = true := by
    simp only [Binary64.isFinite, decide_eq_true_eq]
    omega
  have plain : '.' ∉ signText s ++ (shortest s place).wholeText := by
    intro mem
    rcases List.mem_append.1 mem with sign | digit
    · cases s <;> simp [signText] at sign
    · cases (Numeral.isNumber_wholeText _).all_digits _ digit
  simp only [realText, text, isFinite, Bool.true_and, Numeral.text_eq, (shortest_spec s place).2]
  unfold Numeral.fractionText paddedFraction
  split
  · simp [plain]
  · simp

/-- Every number but NaN reads back from its text. -/
theorem real?_realText {x : Binary64} (number : x.isNumber = true) :
    real? (realText x) = some x := by
  cases x with
  | nan => cases number
  | number s place h =>
    by_cases top : place = Binary64.infinityPlace
    · subst top
      cases s <;> decide +kernel +revert
    · have whole := (shortest s place).isNumber_wholeText
      have fraction := (shortest s place).isNumber_fractionText
      have read := real?_pointed s whole.some_digit whole.all_digits fraction.all_digits
      have value := (shortest s place).pointed_toBinary64
      rw [(shortest_spec s place).1, (shortest_spec s place).2, Binary64.ofPlace_place s h] at value
      rw [realText_finite s h top, ← value]
      exact read

end PeriodicJobs.Decimal
