import PeriodicJobs.Proofs.Decimal.Spelling

set_option autoImplicit false

/- The grammars of numbers, for all texts. A word is a number behind a plus sign or none. A real
number is spelled in decimal, or it is a word for infinity or NaN in any letter case, with a sign or
none. -/
namespace PeriodicJobs.Decimal

/-- A text of a 64-bit word. -/
def SpellsWord (text : List Char) (word : UInt64) : Prop :=
  ∃ sign digits, sign ≠ Sign.minus ∧ IsNumber digits ∧ text = sign.text ++ digits ∧
    ofDigits digits = word.toNat

/-- A text of a real number, and the number that it is read as. -/
inductive Denotes : List Char → Binary64 → Prop
  | numeral (s : Spelling) : Denotes s.text s.nearest
  | infinity (sign : Sign) {letters : List Char}
      (spelled : letters.map Char.toLower = "inf".toList ∨
        letters.map Char.toLower = "infinity".toList) :
      Denotes (sign.text ++ letters) (.infinity sign.negative)
  | nan (sign : Sign) {letters : List Char} (spelled : letters.map Char.toLower = "nan".toList) :
      Denotes (sign.text ++ letters) (.nan sign.negative)

theorem word?_eq_some {text : List Char} (number : IsNumber text) {word : UInt64} :
    word? text = some word ↔ ofDigits text = word.toNat := by
  rw [word?_of_isNumber number]
  have small : word.toNat < UInt64.size := word.toNat_lt
  constructor
  · intro read
    split at read
    · rename_i fits
      cases read
      exact (UInt64.toNat_ofNat_of_lt' fits).symm
    · cases read
  · intro same
    rw [if_pos (by omega), same, UInt64.ofNat_toNat]

theorem word?_plus {digits : List Char} (number : IsNumber digits) :
    word? ('+' :: digits) = word? digits := by
  obtain ⟨c, rest, rfl⟩ := List.exists_cons_of_ne_nil number.some_digit
  have plus : c ≠ '+' := ne_of_isDigit (number.all_digits c List.mem_cons_self) rfl
  simp [word?, plus]

theorem isNumber_of_guard {text : List Char}
    (passed : ¬ (text.isEmpty || !text.all Char.isDigit) = true) : IsNumber text := by
  simp only [Bool.or_eq_true, List.isEmpty_iff, Bool.not_eq_true', not_or, Bool.not_eq_false,
    List.all_eq_true] at passed
  exact ⟨passed.1, passed.2⟩

theorem isNumber_of_word? {digits : List Char} {word : UInt64}
    (read : (if digits.isEmpty || !digits.all Char.isDigit then none
      else if ofDigits digits < UInt64.size then some (UInt64.ofNat (ofDigits digits)) else none) =
        some word) : IsNumber digits := by
  split at read
  · cases read
  · rename_i passed
    exact isNumber_of_guard passed

/-- A text is read as a word just if it is a text of that word. -/
theorem word?_eq_some_iff {text : List Char} {word : UInt64} :
    word? text = some word ↔ SpellsWord text word := by
  constructor
  · intro read
    have parts := read
    unfold word? at parts
    split at parts
    · rename_i digits
      have number := isNumber_of_word? parts
      rw [word?_plus number, word?_eq_some number] at read
      exact ⟨.plus, digits, nofun, number, rfl, read⟩
    · have number := isNumber_of_word? parts
      rw [word?_eq_some number] at read
      exact ⟨.absent, text, nofun, number, rfl, read⟩
  · rintro ⟨sign, digits, unsigned, number, rfl, value⟩
    cases sign with
    | absent => exact (word?_eq_some number).2 value
    | plus => exact (word?_plus number).trans ((word?_eq_some number).2 value)
    | minus => exact absurd rfl unsigned

theorem exists_power {mark : Char} (marked : mark = 'e' ∨ mark = 'E') (sign : Sign)
    {ds : List Char} {e : Int}
    (read : (if ds.isEmpty || !ds.all Char.isDigit then none
      else some (if sign.negative then -(ofDigits ds : Int) else ofDigits ds)) = some e) :
    ∃ power : Power, power.text = mark :: (sign.text ++ ds) ∧ power.value = e := by
  split at read
  · cases read
  · rename_i passed
    have number := isNumber_of_guard passed
    exact ⟨⟨mark, sign, ds, marked, number.some_digit, number.all_digits⟩, rfl,
      Option.some.inj read⟩

/-- A power of ten is read from nothing, or from the text of one. -/
theorem exists_power_of_exponent? {text : List Char} {e : Int} (read : exponent? text = some e) :
    ∃ power : Option Power, (power.map Power.text).getD [] = text ∧
      (power.map Power.value).getD 0 = e := by
  cases text with
  | nil =>
    cases read
    exact ⟨none, rfl, rfl⟩
  | cons mark rest =>
    unfold exponent? at read
    simp only at read
    split at read
    · cases read
    · rename_i marked
      have marked : mark = 'e' ∨ mark = 'E' := by
        simpa only [not_and_or, not_not] using marked
      split at read
      · obtain ⟨power, text, value⟩ := exists_power marked .minus read
        exact ⟨some power, text, value⟩
      · obtain ⟨power, text, value⟩ := exists_power marked .plus read
        exact ⟨some power, text, value⟩
      · obtain ⟨power, text, value⟩ := exists_power marked .absent read
        exact ⟨some power, text, value⟩

theorem exists_spelling_of_parts (sign : Sign) {whole behind : List Char}
    {fraction : Option (List Char)} {n : Numeral} (before : AllDigits whole)
    (after : ∀ ds ∈ fraction, AllDigits ds)
    (read : (if whole.isEmpty && (fraction.getD []).isEmpty then none
      else (exponent? behind).map fun e =>
        ⟨sign.negative, ofDigits (whole ++ fraction.getD []), e - (fraction.getD []).length⟩) =
          some n) :
    ∃ s : Spelling, s.numeral = n ∧
      s.text = sign.text ++ (whole ++ ((fraction.map ('.' :: ·)).getD [] ++ behind)) := by
  split at read
  · cases read
  · rename_i some_digit
    obtain ⟨e, power, rfl⟩ := Option.map_eq_some_iff.1 read
    obtain ⟨p, rfl, rfl⟩ := exists_power_of_exponent? power
    exact ⟨⟨sign, whole, fraction, p, before, after, by simpa using some_digit⟩, rfl, rfl⟩

/-- Every numeral that is read has a spelling, whatever its sign. -/
theorem exists_spelling_of_read (sign : Sign) {body : List Char} {n : Numeral}
    (read : Numeral.read? sign.negative body = some n) :
    ∃ s : Spelling, s.numeral = n ∧ s.text = sign.text ++ body := by
  have split := (List.takeWhile_append_dropWhile (p := Char.isDigit) (l := body)).symm
  have before := allDigits_takeWhile body
  unfold Numeral.read? at read
  simp only at read
  generalize body.takeWhile Char.isDigit = whole, body.dropWhile Char.isDigit = rest at *
  subst split
  split at read
  · rename_i behind
    have after : ∀ ds ∈ some (behind.takeWhile Char.isDigit), AllDigits ds := by
      rintro ds ⟨⟩
      exact allDigits_takeWhile behind
    obtain ⟨s, numeral, text⟩ := exists_spelling_of_parts sign before after read
    refine ⟨s, numeral, text.trans ?_⟩
    exact congrArg (fun rest => sign.text ++ (whole ++ '.' :: rest)) List.takeWhile_append_dropWhile
  · have after : ∀ ds ∈ (none : Option (List Char)), AllDigits ds := nofun
    exact exists_spelling_of_parts sign before after read

/-- What stands behind a sign decides, if it does not start with one. -/
theorem real?_sign (sign : Sign) {body : List Char}
    (unsigned : ∀ c ∈ body.head?, c ≠ '-' ∧ c ≠ '+') :
    real? (sign.text ++ body) = unsigned? sign.negative body := by
  cases sign with
  | plus => rfl
  | minus => rfl
  | absent =>
    change real? body = _
    unfold real?
    split
    · exact absurd rfl (unsigned '-' rfl).1
    · exact absurd rfl (unsigned '+' rfl).2
    · rfl

theorem denotes_of_unsigned? (sign : Sign) {body : List Char} {x : Binary64}
    (read : unsigned? sign.negative body = some x) : Denotes (sign.text ++ body) x := by
  have spelled {word : String} (same : String.ofList (body.map Char.toLower) = word) :
      body.map Char.toLower = word.toList := by
    rw [← same, String.toList_ofList]
  unfold unsigned? at read
  simp only at read
  split at read
  · rename_i infinite
    cases read
    exact .infinity sign (infinite.imp spelled spelled)
  · split at read
    · rename_i undefined
      cases read
      exact .nan sign (spelled undefined)
    · obtain ⟨n, numeral, rfl⟩ := Option.map_eq_some_iff.1 read
      obtain ⟨s, rfl, text⟩ := exists_spelling_of_read sign numeral
      rw [← text]
      exact .numeral s

theorem unsigned_of_spelled {letters word : List Char} (spelled : letters.map Char.toLower = word)
    (letter : (word.head?.any fun c => c != '-' && c != '+') = true) :
    ∀ c ∈ letters.head?, c ≠ '-' ∧ c ≠ '+' := by
  subst spelled
  rintro c first
  rw [List.head?_map, show letters.head? = some c from first, Option.map_some, Option.any_some,
    Bool.and_eq_true, bne_iff_ne, bne_iff_ne] at letter
  constructor
  · rintro rfl
    exact letter.1 rfl
  · rintro rfl
    exact letter.2 rfl

/-- A text is read as a real number just if it denotes that number. -/
theorem real?_eq_some_iff {text : List Char} {x : Binary64} :
    real? text = some x ↔ Denotes text x := by
  constructor
  · intro read
    unfold real? at read
    split at read
    · exact denotes_of_unsigned? .minus read
    · exact denotes_of_unsigned? .plus read
    · exact denotes_of_unsigned? .absent read
  · intro denotes
    cases denotes with
    | numeral s => exact s.real?_text
    | @infinity sign letters spelled =>
      have unsigned := spelled.elim (fun word => unsigned_of_spelled word (by decide))
        fun word => unsigned_of_spelled word (by decide)
      rw [real?_sign sign unsigned, unsigned?]
      rcases spelled with word | word <;> simp [word]
    | @nan sign letters spelled =>
      rw [real?_sign sign (unsigned_of_spelled spelled (by decide)), unsigned?]
      simp [spelled]

theorem Denotes.unique {text : List Char} {x y : Binary64} (denotes : Denotes text x)
    (denotes' : Denotes text y) : x = y := by
  rw [← real?_eq_some_iff] at denotes denotes'
  exact Option.some.inj (denotes.symm.trans denotes')

end PeriodicJobs.Decimal
