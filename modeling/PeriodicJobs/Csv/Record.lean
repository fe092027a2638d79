set_option autoImplicit false

/- Records of comma-separated values, as bytes.

A record ends at a carriage return or a line feed, and empty lines are skipped. A field whose very
first byte is a quote runs to the next quote that is not doubled; what follows that quote up to the
end of the field still belongs to it. Everywhere else a quote is an ordinary byte. -/
namespace PeriodicJobs.Csv

def comma : UInt8 := 44
def quote : UInt8 := 34

def isLineEnd (b : UInt8) : Bool := b == 10 || b == 13

/-- The bytes that end a field which is not quoted. -/
def endsField (b : UInt8) : Bool := b == comma || isLineEnd b

/-- Splits off the bytes up to the end of a field. -/
def bare (bytes : List UInt8) : List UInt8 × List UInt8 :=
  (bytes.takeWhile fun b => !endsField b, bytes.dropWhile fun b => !endsField b)

/-- Splits off the content of a field behind its opening quote. -/
def quoted : List UInt8 → List UInt8 × List UInt8
  | [] => ([], [])
  | b :: rest =>
    if b = quote then
      match rest with
      | [] => ([], [])
      | c :: more =>
        if c = quote then
          let (content, after) := quoted more
          (quote :: content, after)
        else bare rest
    else
      let (content, after) := quoted rest
      (b :: content, after)

def field : List UInt8 → List UInt8 × List UInt8
  | [] => ([], [])
  | b :: rest => if b = quote then quoted rest else bare (b :: rest)

theorem bare_length_le (bytes : List UInt8) : (bare bytes).2.length ≤ bytes.length :=
  (List.dropWhile_sublist _).length_le

theorem quoted_length_le (bytes : List UInt8) : (quoted bytes).2.length ≤ bytes.length := by
  fun_induction quoted bytes with
  | case1 => simp
  | case2 => simp
  | case3 more content after same ih => simp_all; omega
  | case4 c more => exact Nat.le_succ_of_le (bare_length_le _)
  | case5 b rest _ content after same ih => simp_all; omega

theorem field_length_le (bytes : List UInt8) : (field bytes).2.length ≤ bytes.length := by
  cases bytes with
  | nil => simp [field]
  | cons b rest =>
    simp only [field]
    split
    · exact Nat.le_succ_of_le (quoted_length_le rest)
    · exact bare_length_le _

/-- Splits off the fields of a record and the byte that ends it. -/
def fields (bytes : List UInt8) : List (List UInt8) × List UInt8 :=
  match _ : (field bytes).2 with
  | [] => ([(field bytes).1], [])
  | b :: rest =>
    if b = comma then
      let (more, after) := fields rest
      ((field bytes).1 :: more, after)
    else ([(field bytes).1], rest)
termination_by bytes.length
decreasing_by
  rename_i same _
  have le := field_length_le bytes
  rw [same, List.length_cons] at le
  omega

/-- Where a record starts: right behind the byte that ended the one before, counting bytes and
records from zero and lines from one. -/
structure Position where
  byte : Nat
  line : Nat
  record : Nat
deriving DecidableEq

namespace Position

def start : Position := ⟨0, 1, 0⟩

def after (position : Position) (bytes : List UInt8) : Position :=
  { byte := position.byte + bytes.length
    line := position.line + bytes.count 10
    record := position.record + 1 }

end Position

structure Record where
  fields : List (List UInt8)
  position : Position
deriving DecidableEq

/-- The records in some bytes, in at most `limit` steps. -/
def recordsFrom : Nat → Position → List UInt8 → List Record
  | 0, _, _ => []
  | limit + 1, position, bytes =>
    let body := bytes.dropWhile isLineEnd
    if body.isEmpty then []
    else
      let (content, rest) := fields body
      let taken := bytes.take (bytes.length - rest.length)
      ⟨content, position⟩ :: recordsFrom limit (position.after taken) rest

/-- The mark of the byte order, which belongs to no record. -/
def byteOrderMark : List UInt8 := [0xEF, 0xBB, 0xBF]

/-- The records of a file. Every record takes at least a byte. A mark of the byte order at the very
start belongs to none but counts in the positions behind it. -/
def records (bytes : List UInt8) : List Record :=
  match byteOrderMark.isPrefixOf? bytes with
  | none => recordsFrom bytes.length .start bytes
  | some rest =>
    match recordsFrom rest.length .start rest with
    | [] => []
    | first :: more =>
      first :: more.map fun record =>
        { record with position.byte := record.position.byte + byteOrderMark.length }

end PeriodicJobs.Csv
