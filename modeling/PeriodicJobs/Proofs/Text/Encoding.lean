import PeriodicJobs.Proofs.Text.Trimming
import PeriodicJobs.Text.Unicode

set_option autoImplicit false

/- Texts as bytes. -/
namespace PeriodicJobs.Text

def encode (text : List Char) : List UInt8 := text.flatMap String.utf8EncodeChar

theorem toUTF8_eq_encode (text : String) : text.toUTF8.data.toList = encode text.toList := by
  rw [String.toUTF8_eq_toByteArray, ← String.ofList_toList (s := text), String.toByteArray_ofList,
    List.utf8Encode, List.data_toByteArray, String.toList_ofList]
  rfl

@[simp] theorem encode_nil : encode [] = [] := rfl

@[simp] theorem encode_cons (c : Char) (text : List Char) :
    encode (c :: text) = String.utf8EncodeChar c ++ encode text := List.flatMap_cons

theorem encode_append (first second : List Char) :
    encode (first ++ second) = encode first ++ encode second := List.flatMap_append

theorem encode_flatMap {α : Type} (items : List α) (text : α → List Char) :
    encode (items.flatMap text) = items.flatMap fun item => encode (text item) := List.flatMap_assoc

/-- A byte is an ASCII character of its own or is found in no ASCII character. -/
theorem mem_utf8EncodeChar {c : Char} {b : UInt8} (mem : b ∈ String.utf8EncodeChar c) :
    b.toNat = c.toNat ∨ 0x80 ≤ b.toNat := by
  have value : c.val.toNat = c.toNat := rfl
  have high {bits lead : Nat} (low : 0x80 ≤ lead) (small : bits + lead < 256) :
      0x80 ≤ (UInt8.ofNat (bits + lead)).toNat := by
    rw [UInt8.toNat_ofNat_of_lt' small]
    omega
  simp only [String.utf8EncodeChar, value] at mem
  split at mem
  · rw [List.mem_singleton] at mem
    rw [mem, UInt8.toNat_ofNat_of_lt' (Nat.lt_of_le_of_lt ‹_› (by decide))]
    exact Or.inl rfl
  · apply Or.inr
    split at mem
    · simp only [List.mem_cons, List.not_mem_nil, or_false] at mem
      rcases mem with rfl | rfl <;> exact high (by decide) (by omega)
    split at mem
    · simp only [List.mem_cons, List.not_mem_nil, or_false] at mem
      rcases mem with rfl | rfl | rfl <;> exact high (by decide) (by omega)
    · simp only [List.mem_cons, List.not_mem_nil, or_false] at mem
      rcases mem with rfl | rfl | rfl | rfl <;> exact high (by decide) (by omega)

theorem mem_encode {text : List Char} {b : UInt8} :
    b ∈ encode text ↔ ∃ c ∈ text, b ∈ String.utf8EncodeChar c := List.mem_flatMap

theorem head?_encode (text : List Char) :
    (encode text).head? = text.head?.bind fun c => (String.utf8EncodeChar c).head? := by
  cases text with
  | nil => rfl
  | cons c rest =>
    obtain ⟨b, more, bytes⟩ := List.exists_cons_of_ne_nil (String.utf8EncodeChar_ne_nil (c := c))
    rw [encode_cons, bytes, List.head?_cons, Option.bind_some, bytes]
    rfl

theorem getLast?_encode (text : List Char) :
    (encode text).getLast? = text.getLast?.bind fun c => (String.utf8EncodeChar c).getLast? := by
  rcases List.eq_nil_or_concat text with rfl | ⟨rest, c, rfl⟩
  · rfl
  · have single : encode [c] = String.utf8EncodeChar c := List.append_nil _
    rw [List.concat_eq_append, encode_append, single, List.getLast?_append, List.getLast?_concat,
      Option.bind_some, List.getLast?_eq_some_getLast String.utf8EncodeChar_ne_nil, Option.some_or]

/-- A text of characters that take a byte each. -/
def IsAscii (text : List Char) : Prop := ∀ c ∈ text, c.toNat < 128

instance (text : List Char) : Decidable (IsAscii text) :=
  List.decidableBAll (fun c : Char => c.toNat < 128) text

theorem IsAscii.append {first second : List Char} (left : IsAscii first)
    (right : IsAscii second) : IsAscii (first ++ second) := by
  intro c mem
  exact (List.mem_append.1 mem).elim (left c) (right c)

theorem IsAscii.intercalate {separator : List Char} {pieces : List (List Char)}
    (between : IsAscii separator) (ascii : ∀ piece ∈ pieces, IsAscii piece) :
    IsAscii (separator.intercalate pieces) := by
  intro c mem
  obtain inside | ⟨piece, inPieces, inside⟩ := mem_intercalate mem
  · exact between c inside
  · exact ascii piece inPieces c inside

theorem encode_of_ascii {text : List Char} (ascii : IsAscii text) :
    encode text = text.map fun c => UInt8.ofNat c.toNat := by
  induction text with
  | nil => rfl
  | cons c rest ih =>
    have single : String.utf8EncodeChar c = [UInt8.ofNat c.toNat] := by
      have small : c.val.toNat ≤ 127 := Nat.le_of_lt_succ (ascii c List.mem_cons_self)
      simp only [String.utf8EncodeChar, small, ↓reduceIte]
      rfl
    rw [encode_cons, single, ih fun d mem => ascii d (List.mem_cons_of_mem _ mem)]
    rfl

theorem IsAscii.toNat_lt {text : List Char} (ascii : IsAscii text) :
    ∀ b ∈ encode text, b.toNat < 128 := by
  intro b mem
  rw [encode_of_ascii ascii] at mem
  obtain ⟨c, inside, rfl⟩ := List.mem_map.1 mem
  have small := ascii c inside
  rw [UInt8.toNat_ofNat_of_lt' (Nat.lt_trans small (by decide))]
  exact small

/-- In a text of single bytes the first characters are the first bytes. -/
theorem encode_take {text : List Char} (ascii : IsAscii text) (count : Nat) :
    encode (text.take count) = (encode text).take count := by
  have start : IsAscii (text.take count) := fun c mem => ascii c (List.mem_of_mem_take mem)
  rw [encode_of_ascii ascii, encode_of_ascii start, List.map_take]

theorem length_encode {text : List Char} (ascii : IsAscii text) :
    (encode text).length = text.length := by
  rw [encode_of_ascii ascii, List.length_map]

end PeriodicJobs.Text
