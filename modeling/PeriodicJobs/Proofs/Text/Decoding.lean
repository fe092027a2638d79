import PeriodicJobs.Proofs.Text.Encoding

set_option autoImplicit false

/- What encodes a text decodes to it. -/
namespace PeriodicJobs.Text

theorem character?_toNat (c : Char) : character? c.toNat = some c := by
  have valid : c.toNat.isValidChar := c.valid
  rw [character?, dif_pos valid]
  exact congrArg some (Char.ext rfl)

/-- A first byte in numbers. -/
theorem lead?_ofNat {n : Nat} (small : n < 256) :
    lead? (UInt8.ofNat n) =
      if n < 0x80 then some ⟨0, n, 0⟩
      else if n < 0xC0 then none
      else if n < 0xE0 then some ⟨1, n - 0xC0, 0x80⟩
      else if n < 0xF0 then some ⟨2, n - 0xE0, 0x800⟩
      else if n < 0xF8 then some ⟨3, n - 0xF0, 0x10000⟩
      else none := by
  have value : (UInt8.ofNat n).toNat = n := UInt8.toNat_ofNat_of_lt' small
  simp only [lead?, UInt8.lt_iff_toNat_lt, value, UInt8.reduceToNat]

theorem extend?_zero (code : Nat) (rest : List UInt8) : extend? 0 code rest = some code := by
  rw [extend?]

theorem extend?_cons {bits : Nat} (small : bits < 0x40) (more code : Nat) (rest : List UInt8) :
    extend? (more + 1) code (UInt8.ofNat (bits + 0x80) :: rest) =
      extend? more (code * 64 + bits) rest := by
  have value : (UInt8.ofNat (bits + 0x80)).toNat = bits + 0x80 :=
    UInt8.toNat_ofNat_of_lt' (Nat.lt_of_lt_of_le (Nat.add_lt_add_right small 0x80) (by decide))
  simp only [extend?, UInt8.lt_iff_toNat_lt, UInt8.le_iff_toNat_le, value, UInt8.reduceToNat]
  rw [if_pos (by omega), Nat.add_sub_cancel]

theorem firstChar?_of_bits {b : UInt8} {lead : Lead} {rest : List UInt8} {c : Char}
    (first : lead? b = some lead) (code : extend? lead.more lead.bits rest = some c.toNat)
    (long : lead.least ≤ c.toNat) : firstChar? (b :: rest) = some (c, lead.more + 1) := by
  simp only [firstChar?, first, code, Option.bind_eq_bind, Option.bind_some, character?_toNat,
    Nat.not_lt.2 long, ↓reduceIte, Option.map_some]

/-- The bytes that encode a character are read as that character, whatever follows. -/
theorem firstChar?_utf8EncodeChar (c : Char) (rest : List UInt8) :
    firstChar? (String.utf8EncodeChar c ++ rest) =
      some (c, (String.utf8EncodeChar c).length) := by
  have bound : c.toNat < 0x110000 := by
    have valid : c.toNat.isValidChar := c.valid
    unfold Nat.isValidChar at valid
    omega
  have value : c.val.toNat = c.toNat := rfl
  simp only [String.utf8EncodeChar, value]
  by_cases one : c.toNat ≤ 0x7F
  · have first : lead? (UInt8.ofNat c.toNat) = some ⟨0, c.toNat, 0⟩ := by
      rw [lead?_ofNat (by omega), if_pos (by omega)]
    simp only [one, ↓reduceIte]
    exact firstChar?_of_bits first rfl (Nat.zero_le _)
  by_cases two : c.toNat ≤ 0x7FF
  · have first : lead? (UInt8.ofNat (c.toNat / 64 % 0x20 + 0xC0)) =
        some ⟨1, c.toNat / 64 % 0x20, 0x80⟩ := by
      rw [lead?_ofNat (by omega), if_neg (by omega), if_neg (by omega), if_pos (by omega),
        Nat.add_sub_cancel]
    simp only [one, two, ↓reduceIte]
    refine firstChar?_of_bits first ?_ (Nat.lt_of_not_le one)
    simp only [List.append_eq, List.cons_append, extend?_cons (Nat.mod_lt _ (Nat.zero_lt_succ _)),
      extend?_zero, Option.some.injEq]
    omega
  by_cases three : c.toNat ≤ 0xFFFF
  · have first : lead? (UInt8.ofNat (c.toNat / 4096 % 0x10 + 0xE0)) =
        some ⟨2, c.toNat / 4096 % 0x10, 0x800⟩ := by
      rw [lead?_ofNat (by omega), if_neg (by omega), if_neg (by omega), if_neg (by omega),
        if_pos (by omega), Nat.add_sub_cancel]
    simp only [one, two, three, ↓reduceIte]
    refine firstChar?_of_bits first ?_ (Nat.lt_of_not_le two)
    simp only [List.append_eq, List.cons_append, extend?_cons (Nat.mod_lt _ (Nat.zero_lt_succ _)),
      extend?_zero, Option.some.injEq]
    omega
  · have first : lead? (UInt8.ofNat (c.toNat / 262144 % 0x08 + 0xF0)) =
        some ⟨3, c.toNat / 262144 % 0x08, 0x10000⟩ := by
      rw [lead?_ofNat (by omega), if_neg (by omega), if_neg (by omega), if_neg (by omega),
        if_neg (by omega), if_pos (by omega), Nat.add_sub_cancel]
    simp only [one, two, three, ↓reduceIte]
    refine firstChar?_of_bits first ?_ (Nat.lt_of_not_le three)
    simp only [List.append_eq, List.cons_append, extend?_cons (Nat.mod_lt _ (Nat.zero_lt_succ _)),
      extend?_zero, Option.some.injEq]
    omega

/-- Decoding takes a text whole, whatever follows it within the limit. -/
theorem decodeStart_encode (text : List Char) {limit : Nat} (enough : text.length ≤ limit) :
    decodeStart limit (encode text) = ⟨text, (encode text).length⟩ := by
  induction text generalizing limit with
  | nil => cases limit <;> rfl
  | cons c rest ih =>
    cases limit with
    | zero => cases enough
    | succ limit =>
      simp only [encode_cons, decodeStart, firstChar?_utf8EncodeChar, List.drop_left,
        ih (Nat.le_of_succ_le_succ enough), List.length_append]

theorem length_le_length_encode (text : List Char) : text.length ≤ (encode text).length := by
  induction text with
  | nil => exact Nat.le_refl _
  | cons c rest ih =>
    have some := List.length_pos_iff.2 (String.utf8EncodeChar_ne_nil (c := c))
    rw [encode_cons, List.length_append, List.length_cons]
    omega

theorem decode_encode (text : List Char) : decode (encode text) = .ok text := by
  simp [decode, decodeStart_encode text (length_le_length_encode text)]

theorem toNat_of_character? {code : Nat} {c : Char} (found : character? code = some c) :
    c.toNat = code := by
  unfold character? at found
  by_cases valid : code.isValidChar
  · rw [dif_pos valid] at found
    cases found
    rfl
  · rw [dif_neg valid] at found
    cases found

theorem lead?_cases {b : UInt8} {lead : Lead} (found : lead? b = some lead) :
    b.toNat < 0x80 ∧ lead = ⟨0, b.toNat, 0⟩ ∨
    (0xC0 ≤ b.toNat ∧ b.toNat < 0xE0) ∧ lead = ⟨1, b.toNat - 0xC0, 0x80⟩ ∨
    (0xE0 ≤ b.toNat ∧ b.toNat < 0xF0) ∧ lead = ⟨2, b.toNat - 0xE0, 0x800⟩ ∨
    (0xF0 ≤ b.toNat ∧ b.toNat < 0xF8) ∧ lead = ⟨3, b.toNat - 0xF0, 0x10000⟩ := by
  have number := lead?_ofNat b.toNat_lt
  rw [UInt8.ofNat_toNat, found] at number
  split at number
  · exact .inl ⟨‹_›, Option.some.inj number⟩
  split at number
  · cases number
  split at number
  · exact .inr (.inl ⟨by omega, Option.some.inj number⟩)
  split at number
  · exact .inr (.inr (.inl ⟨by omega, Option.some.inj number⟩))
  split at number
  · exact .inr (.inr (.inr ⟨by omega, Option.some.inj number⟩))
  · cases number

theorem extend?_succ {more code result : Nat} {bytes : List UInt8}
    (found : extend? (more + 1) code bytes = some result) :
    ∃ b rest, bytes = b :: rest ∧ (0x80 ≤ b.toNat ∧ b.toNat < 0xC0) ∧
      extend? more (code * 64 + (b.toNat - 0x80)) rest = some result := by
  cases bytes with
  | nil => cases found
  | cons b rest =>
    rw [extend?] at found
    split at found
    · rename_i inside
      simp only [UInt8.le_iff_toNat_le, UInt8.lt_iff_toNat_lt, UInt8.reduceToNat] at inside
      exact ⟨b, rest, rfl, inside, found⟩
    · cases found

/-- What is read as a character is what encodes it. -/
theorem firstChar?_spec {bytes : List UInt8} {c : Char} {size : Nat}
    (read : firstChar? bytes = some (c, size)) :
    size = (String.utf8EncodeChar c).length ∧
      ∃ rest, bytes = String.utf8EncodeChar c ++ rest := by
  cases bytes with
  | nil => cases read
  | cons b rest =>
    obtain ⟨lead, first, read⟩ := Option.bind_eq_some_iff.1 read
    obtain ⟨code, extended, read⟩ := Option.bind_eq_some_iff.1 read
    split at read
    · cases read
    rename_i long
    obtain ⟨c, found, same⟩ := Option.map_eq_some_iff.1 read
    cases same
    have value : c.val.toNat = code := toNat_of_character? found
    have asByte (b : UInt8) {n : Nat} (same : n = b.toNat) : UInt8.ofNat n = b := by
      rw [same, UInt8.ofNat_toNat]
    -- The bits of the bytes make up the code point, so dividing it gives them back.
    rcases lead?_cases first with ⟨low, rfl⟩ | ⟨low, rfl⟩ | ⟨low, rfl⟩ | ⟨low, rfl⟩
    · simp only [extend?_zero, Option.some.injEq] at extended
      have bytes : String.utf8EncodeChar c = [b] := by
        rw [String.utf8EncodeChar, if_pos (by omega), asByte b (by omega)]
      rw [bytes]
      exact ⟨rfl, rest, rfl⟩
    · obtain ⟨b₁, rest, rfl, low₁, extended⟩ := extend?_succ extended
      simp only [extend?_zero, Option.some.injEq] at extended long
      have bytes : String.utf8EncodeChar c = [b, b₁] := by
        rw [String.utf8EncodeChar, if_neg (by omega), if_pos (by omega), asByte b (by omega),
          asByte b₁ (by omega)]
      rw [bytes]
      exact ⟨rfl, rest, rfl⟩
    · obtain ⟨b₁, rest, rfl, low₁, extended⟩ := extend?_succ extended
      obtain ⟨b₂, rest, rfl, low₂, extended⟩ := extend?_succ extended
      simp only [extend?_zero, Option.some.injEq] at extended long
      have bytes : String.utf8EncodeChar c = [b, b₁, b₂] := by
        rw [String.utf8EncodeChar, if_neg (by omega), if_neg (by omega), if_pos (by omega),
          asByte b (by omega), asByte b₁ (by omega), asByte b₂ (by omega)]
      rw [bytes]
      exact ⟨rfl, rest, rfl⟩
    · obtain ⟨b₁, rest, rfl, low₁, extended⟩ := extend?_succ extended
      obtain ⟨b₂, rest, rfl, low₂, extended⟩ := extend?_succ extended
      obtain ⟨b₃, rest, rfl, low₃, extended⟩ := extend?_succ extended
      simp only [extend?_zero, Option.some.injEq] at extended long
      have bytes : String.utf8EncodeChar c = [b, b₁, b₂, b₃] := by
        rw [String.utf8EncodeChar, if_neg (by omega), if_neg (by omega), if_neg (by omega),
          asByte b (by omega), asByte b₁ (by omega), asByte b₂ (by omega), asByte b₃ (by omega)]
      rw [bytes]
      exact ⟨rfl, rest, rfl⟩

/-- What decoding takes is what encodes the text it makes. -/
theorem decodeStart_spec (limit : Nat) (bytes : List UInt8) :
    (decodeStart limit bytes).taken = (encode (decodeStart limit bytes).text).length ∧
      encode (decodeStart limit bytes).text <+: bytes := by
  induction limit generalizing bytes with
  | zero => exact ⟨rfl, List.nil_prefix⟩
  | succ limit ih =>
    rw [decodeStart]
    cases read : firstChar? bytes with
    | none => exact ⟨rfl, List.nil_prefix⟩
    | some found =>
      obtain ⟨c, size⟩ := found
      obtain ⟨rfl, rest, rfl⟩ := firstChar?_spec read
      obtain ⟨length, inside⟩ := ih rest
      simp only [List.drop_left, encode_cons, List.length_append, length, true_and]
      exact (List.prefix_append_right_inj _).2 inside

/-- Bytes decode to a text just if they are what encodes it. -/
theorem decode_eq_ok {bytes : List UInt8} {text : List Char} :
    decode bytes = .ok text ↔ bytes = encode text := by
  constructor
  · intro decoded
    obtain ⟨length, inside⟩ := decodeStart_spec bytes.length bytes
    simp only [decode] at decoded
    split at decoded
    · rename_i whole
      cases decoded
      exact (inside.eq_of_length (length.symm.trans whole)).symm
    · cases decoded
  · rintro rfl
    exact decode_encode text

end PeriodicJobs.Text
