set_option autoImplicit false

/- UTF-8: the characters that bytes encode, up to the first byte that starts none. -/
namespace PeriodicJobs.Text

/-- What the first byte of a character tells: how many bytes follow, the bits that it holds itself,
and the least code point that needs so many bytes. -/
structure Lead where
  more : Nat
  bits : Nat
  least : Nat

def lead? (b : UInt8) : Option Lead :=
  if b < 0x80 then some ⟨0, b.toNat, 0⟩
  else if b < 0xC0 then none
  else if b < 0xE0 then some ⟨1, b.toNat - 0xC0, 0x80⟩
  else if b < 0xF0 then some ⟨2, b.toNat - 0xE0, 0x800⟩
  else if b < 0xF8 then some ⟨3, b.toNat - 0xF0, 0x10000⟩
  else none

/-- Extends a code point by the six bits of each of the following bytes. -/
def extend? : Nat → Nat → List UInt8 → Option Nat
  | 0, code, _ => some code
  | _ + 1, _, [] => none
  | more + 1, code, b :: rest =>
    if 0x80 ≤ b ∧ b < 0xC0 then extend? more (code * 64 + (b.toNat - 0x80)) rest else none

/-- The character with a code point, if there is one. Surrogates are none. -/
def character? (code : Nat) : Option Char :=
  if h : code.isValidChar then some (Char.ofNatAux code h) else none

/-- The first character of a text and how many bytes it takes. No character may take more bytes
than it needs. -/
def firstChar? : List UInt8 → Option (Char × Nat)
  | [] => none
  | b :: rest => do
    let lead ← lead? b
    let code ← extend? lead.more lead.bits rest
    if code < lead.least then none
    else (character? code).map (·, lead.more + 1)

/-- What decoding made of some bytes: the characters, and the bytes that it took for them. -/
structure Decoded where
  text : List Char
  taken : Nat

/-- Decodes the longest start of the bytes that is valid, in at most `limit` characters. -/
def decodeStart : Nat → List UInt8 → Decoded
  | 0, _ => ⟨[], 0⟩
  | limit + 1, bytes =>
    match firstChar? bytes with
    | none => ⟨[], 0⟩
    | some (c, size) =>
      let rest := decodeStart limit (bytes.drop size)
      ⟨c :: rest.text, size + rest.taken⟩

/-- Decodes bytes, or tells how long their valid start is. -/
def decode (bytes : List UInt8) : Except Nat (List Char) :=
  let start := decodeStart bytes.length bytes
  if start.taken = bytes.length then .ok start.text else .error start.taken

end PeriodicJobs.Text
