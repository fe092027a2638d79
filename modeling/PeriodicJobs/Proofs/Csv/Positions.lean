import PeriodicJobs.Proofs.Csv.Grammar

set_option autoImplicit false

/- Positions of records. A record is given the position behind the records before it, in front of
any empty lines and of a line feed that belongs to the end of the line before. -/
namespace PeriodicJobs.Csv

/-- The line, counted from one, of a byte that stands behind some others. -/
def lineBehind (bytes : List UInt8) : Nat := 1 + bytes.count 10

theorem lineBehind_append (bytes more : List UInt8) :
    lineBehind (bytes ++ more) = lineBehind bytes + more.count 10 := by
  rw [lineBehind, lineBehind, List.count_append, Nat.add_assoc]

/-- Bytes that start with a record, behind the ends of lines in front of it. -/
structure Opens (record : Record) (blank body : List UInt8) : Prop where
  ends : ∀ b ∈ blank, isLineEnd b = true
  starts : ∃ b more, body = b :: more ∧ isLineEnd b = false
  read : (fields body).1 = record.fields

/-- Where a record stands in some bytes: behind the bytes that the earlier records fill, and behind
ends of lines. -/
structure Stands (bytes : List UInt8) (earlier : List Record) (record : Record)
    (before blank body : List UInt8) : Prop where
  split : bytes = before ++ blank ++ body
  fills : Fills before (earlier.map Record.fields)
  opens : Opens record blank body

theorem Position.start_behind {raws : List (List UInt8)} {earlier : List Record}
    (written : List.Forall₂ IsRecord raws (earlier.map Record.fields)) :
    Position.start.behind raws =
      ⟨raws.flatten.length, lineBehind raws.flatten, earlier.length⟩ := by
  have count := written.length_eq
  rw [List.length_map] at count
  simp only [behind, start, lineBehind, Nat.zero_add, count]

/-- The first record starts behind the ends of lines in front of it. -/
theorem recordsFrom_first {limit : Nat} {position : Position} {bytes : List UInt8} {record : Record}
    {later : List Record} (read : recordsFrom limit position bytes = record :: later) :
    ∃ blank body, bytes = blank ++ body ∧ Opens record blank body ∧
      record.position = position := by
  cases limit with
  | zero => cases read
  | succ limit =>
    have first := List.head?_dropWhile_not isLineEnd bytes
    have splits := (List.takeWhile_append_dropWhile (p := isLineEnd) (l := bytes)).symm
    simp only [recordsFrom] at read
    split at read
    · cases read
    · rename_i some
      cases read
      refine ⟨_, _, splits, ⟨fun b mem => List.all_eq_true.1 List.all_takeWhile b mem, ?_, rfl⟩,
        rfl⟩
      cases body : bytes.dropWhile isLineEnd with
      | nil => simp [body] at some
      | cons b more =>
        rw [body] at first
        exact ⟨b, more, rfl, by simpa using first⟩

/-- A record behind others has the position behind them. -/
theorem recordsFrom_behind {limit : Nat} {position : Position} {bytes : List UInt8}
    {earlier later : List Record} {record : Record}
    (read : recordsFrom limit position bytes = earlier ++ record :: later) :
    ∃ raws blank body, bytes = raws.flatten ++ blank ++ body ∧
      List.Forall₂ IsRecord raws (earlier.map Record.fields) ∧ Opens record blank body ∧
      record.position = position.behind raws := by
  induction earlier generalizing limit position bytes with
  | nil =>
    obtain ⟨blank, body, rfl, opens, here⟩ := recordsFrom_first read
    exact ⟨[], blank, body, rfl, .nil, opens, here⟩
  | cons first earlier ih =>
    cases limit with
    | zero => cases read
    | succ limit =>
      obtain ⟨raw, rest, _, _, rfl, written, _⟩ :=
        isRecord_of_recordsFrom read (List.append_ne_nil_of_right_ne_nil _ (List.cons_ne_nil _ _))
      rw [recordsFrom_record written, List.cons_append] at read
      obtain ⟨raws, blank, body, rfl, others, opens, place⟩ := ih (List.cons.inj read).2
      refine ⟨raw :: raws, blank, body, ?_, .cons written others, opens, ?_⟩
      · simp only [List.flatten_cons, List.append_assoc]
      · rw [place, Position.behind_cons]

/-- The records behind the first one count a mark of the byte order. -/
theorem exists_of_shifted {all earlier later : List Record} {record : Record} (some : earlier ≠ [])
    (read : shifted all = earlier ++ record :: later) :
    ∃ earlier' record' later', all = earlier' ++ record' :: later' ∧
      earlier'.map Record.fields = earlier.map Record.fields ∧ record'.fields = record.fields ∧
      record.position =
        { record'.position with byte := record'.position.byte + byteOrderMark.length } := by
  obtain ⟨first, others, rfl⟩ := List.exists_cons_of_ne_nil some
  cases all with
  | nil => cases read
  | cons first' more =>
    rw [shifted, List.cons_append] at read
    obtain ⟨rfl, moved⟩ := List.cons.inj read
    obtain ⟨others', rest, rfl, rfl, rests⟩ := List.map_eq_append_iff.1 moved
    obtain ⟨record', later', rfl, rfl, _⟩ := List.map_eq_cons_iff.1 rests
    exact ⟨first' :: others', record', later', rfl, by simp, rfl, rfl⟩

/-- Every record but the first has the position behind the records before it. The bytes that are
counted end before the ends of lines in front of the record. -/
theorem exists_stands {bytes : List UInt8} {earlier later : List Record} {record : Record}
    (some : earlier ≠ []) (read : records bytes = earlier ++ record :: later) :
    ∃ before blank body, Stands bytes earlier record before blank body ∧
      record.position = ⟨before.length, lineBehind before, earlier.length⟩ := by
  by_cases mark : byteOrderMark <+: bytes
  · obtain ⟨rest, rfl⟩ := mark
    rw [records_marked] at read
    obtain ⟨earlier', record', later', all, same, same', place⟩ := exists_of_shifted some read
    obtain ⟨raws, blank, body, rfl, written, ⟨ends, starts, fields⟩, behind⟩ :=
      recordsFrom_behind all
    rw [same] at written
    refine ⟨byteOrderMark ++ raws.flatten, blank, body,
      ⟨by simp only [List.append_assoc], ⟨raws, written, .inl rfl⟩,
        ⟨ends, starts, fields.trans same'⟩⟩, ?_⟩
    have unfed : byteOrderMark.count 10 = 0 := by decide
    rw [place, behind, Position.start_behind written, lineBehind, lineBehind, List.length_append,
      List.count_append, unfed, Nat.zero_add, Nat.add_comm byteOrderMark.length]
  · rw [records_unmarked mark] at read
    obtain ⟨raws, blank, body, rfl, written, opens, behind⟩ := recordsFrom_behind read
    have unmarked : ¬ byteOrderMark <+: raws.flatten := fun inside =>
      mark (inside.trans (List.append_assoc .. ▸ List.prefix_append ..))
    exact ⟨raws.flatten, blank, body, ⟨rfl, ⟨raws, written, .inr ⟨rfl, unmarked⟩⟩, opens⟩,
      behind.trans (Position.start_behind written)⟩

end PeriodicJobs.Csv
