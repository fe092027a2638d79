import Mathlib.Data.List.Forall2
import PeriodicJobs.Csv.Record
import PeriodicJobs.Proofs.Text.Trimming

set_option autoImplicit false

/- The grammar of records. A field is written bare or within quotes, a record is its fields with
commas between them, and the byte behind a record decides where it ends. What is written so is read
so whatever follows, and every record that does not run into the end of its input is written so. -/
namespace PeriodicJobs.Csv

theorem endsField_of_isLineEnd {b : UInt8} (ends : isLineEnd b = true) : endsField b = true := by
  rw [endsField, ends, Bool.or_true]

/-- The content of a field as it stands within quotes: every quote in it is doubled. -/
def doubled (content : List UInt8) : List UInt8 :=
  content.flatMap fun b => if b = quote then [quote, quote] else [b]

theorem doubled_quote (content : List UInt8) :
    doubled (quote :: content) = quote :: quote :: doubled content := rfl

theorem doubled_other {b : UInt8} (other : b ≠ quote) (content : List UInt8) :
    doubled (b :: content) = b :: doubled content := by
  rw [doubled, List.flatMap_cons, if_neg other]
  rfl

theorem doubled_of_unquoted {content : List UInt8} (unquoted : quote ∉ content) :
    doubled content = content := by
  induction content with
  | nil => rfl
  | cons b content ih =>
    rw [List.mem_cons, not_or] at unquoted
    rw [doubled_other (Ne.symm unquoted.1), ih unquoted.2]

theorem mem_doubled {content : List UInt8} {b : UInt8} (mem : b ∈ doubled content) :
    b ∈ content := by
  obtain ⟨c, inside, mem⟩ := List.mem_flatMap.1 mem
  split at mem
  · rename_i isQuote
    subst isQuote
    simp only [List.mem_cons, List.not_mem_nil, or_false, or_self] at mem
    rwa [mem]
  · rwa [List.mem_singleton.1 mem]

/-- Bytes that stand for themselves where no quote is open. -/
structure IsLoose (content : List UInt8) : Prop where
  inside : ∀ b ∈ content, endsField b = false
  unquoted : content.head? ≠ some quote

theorem isLoose_iff {content : List UInt8} :
    IsLoose content ↔
      (content.all fun b => !endsField b) = true ∧ (content.head? == some quote) = false := by
  simp only [List.all_eq_true, Bool.not_eq_true', beq_eq_false_iff_ne]
  exact ⟨fun loose => ⟨loose.inside, loose.unquoted⟩, fun both => ⟨both.1, both.2⟩⟩

instance (content : List UInt8) : Decidable (IsLoose content) :=
  decidable_of_iff' _ isLoose_iff

/-- How a field is written: as it is, or within quotes, with or without bytes behind the closing
one. -/
inductive IsField : List UInt8 → List UInt8 → Prop
  | bare {content : List UInt8} (loose : IsLoose content) : IsField content content
  | quoted (content : List UInt8) {behind : List UInt8} (loose : IsLoose behind) :
      IsField (quote :: (doubled content ++ quote :: behind)) (content ++ behind)

theorem isField_of_isLoose {cells : List (List UInt8)}
    (loose : ∀ cell ∈ cells, IsLoose cell) : List.Forall₂ IsField cells cells :=
  List.forall₂_same.2 fun cell mem => .bare (loose cell mem)

section Fields

variable {content rest : List UInt8}

theorem bare_append (inside : ∀ b ∈ content, endsField b = false)
    (stop : ∀ b ∈ rest.head?, endsField b = true) : bare (content ++ rest) = (content, rest) := by
  have kept : ∀ b ∈ content, (!endsField b) = true := by
    intro b mem
    rw [inside b mem]
    rfl
  have left : ∀ b ∈ rest.head?, (!endsField b) = false := by
    intro b mem
    rw [stop b mem]
    rfl
  rw [bare, List.takeWhile_append_of_pos kept, Text.dropWhile_append kept left]
  cases rest with
  | nil => rw [List.takeWhile_nil, List.append_nil]
  | cons b rest => simp [stop b rfl]

theorem bare_spec (bytes : List UInt8) :
    (∀ b ∈ (bare bytes).1, endsField b = false) ∧ bytes = (bare bytes).1 ++ (bare bytes).2 ∧
      ∀ b ∈ (bare bytes).2.head?, endsField b = true := by
  refine ⟨?_, (List.takeWhile_append_dropWhile ..).symm, ?_⟩
  · intro b mem
    simpa using List.all_eq_true.1 List.all_takeWhile b mem
  · intro b mem
    have first := List.head?_dropWhile_not (fun b => !endsField b) bytes
    rw [show (bytes.dropWhile fun b => !endsField b).head? = some b from mem] at first
    simpa using first

theorem quoted_other {b : UInt8} (other : b ≠ quote) (rest : List UInt8) :
    quoted (b :: rest) = (b :: (quoted rest).1, (quoted rest).2) := by
  rw [quoted.eq_def]
  simp only [other, ↓reduceIte]

theorem quoted_quotes (rest : List UInt8) :
    quoted (quote :: quote :: rest) = (quote :: (quoted rest).1, (quoted rest).2) := by
  rw [quoted.eq_def]
  simp only [↓reduceIte]

/-- A quote that is not doubled closes the field. -/
theorem quoted_quote (single : rest.head? ≠ some quote) : quoted (quote :: rest) = bare rest := by
  cases rest with
  | nil => rfl
  | cons c more =>
    have other : c ≠ quote := fun same => single (congrArg some same)
    rw [quoted.eq_def]
    simp only [other, ↓reduceIte]

theorem quoted_doubled (content : List UInt8) {behind : List UInt8} (loose : IsLoose behind)
    (stop : ∀ b ∈ rest.head?, endsField b = true) :
    quoted (doubled content ++ quote :: (behind ++ rest)) = (content ++ behind, rest) := by
  induction content with
  | nil =>
    have single : (behind ++ rest).head? ≠ some quote := by
      intro first
      cases behind with
      | nil => cases stop quote first
      | cons b behind => exact loose.unquoted first
    exact (quoted_quote single).trans (bare_append loose.inside stop)
  | cons b content ih =>
    by_cases isQuote : b = quote
    · subst isQuote
      rw [doubled_quote, List.cons_append, List.cons_append, quoted_quotes, ih]
      rfl
    · rw [doubled_other isQuote, List.cons_append, quoted_other isQuote, ih]
      rfl

theorem field_append {raw : List UInt8} (written : IsField raw content)
    (stop : ∀ b ∈ rest.head?, endsField b = true) : field (raw ++ rest) = (content, rest) := by
  cases written with
  | bare loose =>
    rw [← bare_append loose.inside stop]
    cases content with
    | nil =>
      cases rest with
      | nil => rfl
      | cons b rest =>
        have other : b ≠ quote := by
          rintro rfl
          cases stop quote rfl
        exact if_neg other
    | cons b content =>
      have other : b ≠ quote := fun same => loose.unquoted (congrArg some same)
      exact if_neg other
  | quoted content loose =>
    have inside := quoted_doubled content loose stop
    simpa [field] using inside

/-- Whatever stands behind an opening quote is content in quotes, up to a quote that is not doubled
or up to the end. -/
theorem quoted_cases (bytes : List UInt8) :
    (∃ content behind, IsLoose behind ∧ (quoted bytes).1 = content ++ behind ∧
      bytes = doubled content ++ quote :: (behind ++ (quoted bytes).2) ∧
      ∀ b ∈ (quoted bytes).2.head?, endsField b = true) ∨ (quoted bytes).2 = [] := by
  fun_induction quoted bytes with
  | case1 => exact .inr rfl
  | case2 => exact .inr rfl
  | case3 more content after same ih =>
    rw [same] at ih
    refine ih.imp ?_ id
    rintro ⟨inner, behind, loose, joins, splits, stop⟩
    refine ⟨quote :: inner, behind, loose, congrArg (quote :: ·) joins, ?_, stop⟩
    rw [splits]
    rfl
  | case4 c more other =>
    obtain ⟨inside, splits, stop⟩ := bare_spec (c :: more)
    refine .inl ⟨[], _, ⟨inside, ?_⟩, rfl, congrArg (quote :: ·) splits, stop⟩
    intro first
    cases taken : (bare (c :: more)).1 with
    | nil =>
      rw [taken] at first
      cases first
    | cons d content =>
      rw [taken] at first splits
      cases first
      exact other (List.cons.inj splits).1
  | case5 b rest other content after same ih =>
    rw [same] at ih
    refine ih.imp ?_ id
    rintro ⟨inner, behind, loose, joins, splits, stop⟩
    refine ⟨b :: inner, behind, loose, congrArg (b :: ·) joins, ?_, stop⟩
    rw [splits, doubled_other other]
    rfl

theorem field_cases (bytes : List UInt8) :
    (∃ raw, IsField raw (field bytes).1 ∧ bytes = raw ++ (field bytes).2 ∧
      ∀ b ∈ (field bytes).2.head?, endsField b = true) ∨ (field bytes).2 = [] := by
  cases bytes with
  | nil => exact .inr rfl
  | cons b rest =>
    by_cases isQuote : b = quote
    · subst isQuote
      have opens : field (quote :: rest) = quoted rest := by rw [field, if_pos rfl]
      rw [opens]
      refine (quoted_cases rest).imp ?_ id
      rintro ⟨content, behind, loose, joins, splits, stop⟩
      refine ⟨_, joins ▸ IsField.quoted content loose, ?_, stop⟩
      rw [List.cons_append, List.append_assoc, List.cons_append, ← splits]
    · have stays : field (b :: rest) = bare (b :: rest) := if_neg isQuote
      rw [stays]
      obtain ⟨inside, splits, stop⟩ := bare_spec (b :: rest)
      refine .inl ⟨_, .bare ⟨inside, ?_⟩, splits, stop⟩
      intro first
      cases taken : (bare (b :: rest)).1 with
      | nil =>
        rw [taken] at first
        cases first
      | cons c content =>
        rw [taken] at first splits
        cases first
        exact isQuote (List.cons.inj splits).1

end Fields

def joined (cells : List (List UInt8)) : List UInt8 := [comma].intercalate cells

theorem fields_last {bytes content rest : List UInt8} (split : field bytes = (content, rest))
    (stop : ∀ b ∈ rest.head?, isLineEnd b = true) : fields bytes = ([content], rest.tail) := by
  rw [fields]
  split
  · rename_i done
    rw [split] at done ⊢
    simp only at done
    rw [done, List.tail_nil]
  · rename_i b after next
    rw [split] at next ⊢
    simp only at next
    subst next
    have notComma : b ≠ comma := by
      rintro rfl
      cases stop comma rfl
    rw [if_neg notComma, List.tail_cons]

theorem fields_comma {bytes content rest : List UInt8}
    (split : field bytes = (content, comma :: rest)) :
    fields bytes = (content :: (fields rest).1, (fields rest).2) := by
  rw [fields]
  split
  · rename_i done
    rw [split] at done
    cases done
  · rename_i b after next
    rw [split] at next ⊢
    cases next
    rw [if_pos rfl]

theorem fields_joined {raws contents : List (List UInt8)} (some : raws ≠ [])
    (written : List.Forall₂ IsField raws contents) {rest : List UInt8}
    (stop : ∀ b ∈ rest.head?, isLineEnd b = true) :
    fields (joined raws ++ rest) = (contents, rest.tail) := by
  induction written with
  | nil => exact absurd rfl some
  | @cons raw content raws contents first others ih =>
    cases others with
    | nil =>
      rw [joined, List.intercalate_singleton]
      exact fields_last (field_append first fun b mem => endsField_of_isLineEnd (stop b mem)) stop
    | cons second others =>
      have later := ih (List.cons_ne_nil _ _)
      rw [joined, List.intercalate_cons_cons, List.append_assoc, List.append_assoc,
        List.singleton_append]
      rw [fields_comma (field_append first (by rintro b ⟨⟩; rfl)), ← joined, later]

theorem joined_cons (raw : List UInt8) {raws : List (List UInt8)} (some : raws ≠ []) :
    joined (raw :: raws) = raw ++ comma :: joined raws := by
  obtain ⟨next, more, rfl⟩ := List.exists_cons_of_ne_nil some
  rw [joined, List.intercalate_cons_cons, List.append_assoc]
  rfl

theorem fields_ne_nil (bytes : List UInt8) : (fields bytes).1 ≠ [] := by
  fun_cases fields bytes <;> exact List.cons_ne_nil _ _

/-- The fields of a record are written one by one, up to a byte that ends a line or up to the end of
the input. -/
theorem fields_cases (bytes : List UInt8) :
    (∃ raws ending, bytes = joined raws ++ ending :: (fields bytes).2 ∧
      isLineEnd ending = true ∧ List.Forall₂ IsField raws (fields bytes).1) ∨
      (fields bytes).2 = [] := by
  fun_induction fields bytes with
  | case1 => exact .inr rfl
  | case2 bytes rest more after next behind ih =>
    rcases field_cases bytes with ⟨raw, written, splits, _⟩ | ends
    · refine ih.imp ?_ fun done => by rwa [next] at done
      rintro ⟨raws, ending, splits', ends, others⟩
      have some : raws ≠ [] := by
        rintro rfl
        exact fields_ne_nil rest (List.forall₂_nil_left_iff.1 others)
      rw [next] at splits' others
      refine ⟨raw :: raws, ending, ?_, ends, .cons written others⟩
      rw [joined_cons raw some, List.append_assoc, List.cons_append, ← splits', ← behind, ← splits]
    · rw [behind] at ends
      cases ends
  | case3 bytes b rest behind notComma =>
    rcases field_cases bytes with ⟨raw, written, splits, stop⟩ | ends
    · rw [behind] at splits stop
      have ends := stop b rfl
      rw [endsField, Bool.or_eq_true, beq_iff_eq] at ends
      refine .inl ⟨[raw], b, ?_, ends.resolve_left notComma, .cons written .nil⟩
      rw [joined, List.intercalate_singleton]
      exact splits
    · rw [behind] at ends
      cases ends

/-- How a record is written: empty lines in front of it, its fields, and the byte that ends it. -/
def IsRecord (raw : List UInt8) (contents : List (List UInt8)) : Prop :=
  ∃ blank raws ending, raw = blank ++ joined raws ++ [ending] ∧
    (∀ b ∈ blank, isLineEnd b = true) ∧ joined raws ≠ [] ∧ isLineEnd ending = true ∧
    List.Forall₂ IsField raws contents

/-- The first byte of a field or a comma ends no line. -/
theorem head?_joined {raws contents : List (List UInt8)}
    (written : List.Forall₂ IsField raws contents) :
    ∀ b ∈ (joined raws).head?, isLineEnd b = false := by
  have first {raw content : List UInt8} (written : IsField raw content) :
      ∀ b ∈ raw.head?, isLineEnd b = false := by
    intro b mem
    cases written with
    | bare loose =>
      have inside := loose.inside b (List.mem_of_head? mem)
      rw [endsField, Bool.or_eq_false_iff] at inside
      exact inside.2
    | quoted content loose =>
      cases mem
      rfl
  cases written with
  | nil =>
    rintro b ⟨⟩
  | @cons raw content raws contents here others =>
    cases others with
    | nil =>
      rw [joined, List.intercalate_singleton]
      exact first here
    | cons next others =>
      rw [joined_cons raw (List.cons_ne_nil _ _), List.head?_append]
      intro b mem
      rcases Option.or_eq_some_iff.1 mem with mem | ⟨_, ⟨⟩⟩
      · exact first here b mem
      · rfl

theorem recordsFrom_nil (limit : Nat) (position : Position) :
    recordsFrom limit position [] = [] := by
  cases limit <;> rfl

/-- A record is read with the byte that ends it, if there is one. -/
theorem recordsFrom_joined {blank : List UInt8} (ends : ∀ b ∈ blank, isLineEnd b = true)
    {raws contents : List (List UInt8)} (written : List.Forall₂ IsField raws contents)
    (some : joined raws ≠ []) {rest : List UInt8} (stop : ∀ b ∈ rest.head?, isLineEnd b = true)
    (limit : Nat) (position : Position) :
    recordsFrom (limit + 1) position (blank ++ joined raws ++ rest) =
      ⟨contents, position⟩ ::
        recordsFrom limit (position.after (blank ++ joined raws ++ rest.take 1)) rest.tail := by
  have raws_ne_nil : raws ≠ [] := by
    rintro rfl
    exact some rfl
  have body : (blank ++ joined raws ++ rest).dropWhile isLineEnd = joined raws ++ rest := by
    rw [List.append_assoc]
    apply Text.dropWhile_append ends
    obtain ⟨b, more, starts⟩ := List.exists_cons_of_ne_nil some
    have first := head?_joined written
    rw [starts] at first ⊢
    exact first
  have content : (joined raws ++ rest).isEmpty = false := by
    rw [List.isEmpty_eq_false_iff]
    exact List.append_ne_nil_of_left_ne_nil some _
  have taken : (blank ++ joined raws ++ rest).take
      ((blank ++ joined raws ++ rest).length - rest.tail.length) =
        blank ++ joined raws ++ rest.take 1 := by
    have length : (blank ++ joined raws ++ rest).length - rest.tail.length =
        (blank ++ joined raws).length + (rest.take 1).length := by
      simp only [List.length_append, List.length_tail, List.length_take]
      omega
    rw [length, List.take_length_add_append]
    cases rest <;> rfl
  simp only [recordsFrom, body, content, fields_joined raws_ne_nil written stop, taken,
    Bool.false_eq_true, ↓reduceIte]

theorem recordsFrom_record {raw : List UInt8} {contents : List (List UInt8)}
    (record : IsRecord raw contents) (rest : List UInt8) (limit : Nat) (position : Position) :
    recordsFrom (limit + 1) position (raw ++ rest) =
      ⟨contents, position⟩ :: recordsFrom limit (position.after raw) rest := by
  obtain ⟨blank, raws, ending, rfl, ends, some, stop, written⟩ := record
  have stops : ∀ b ∈ (ending :: rest).head?, isLineEnd b = true := by
    rintro b ⟨⟩
    exact stop
  have step := recordsFrom_joined ends written some stops limit position
  rw [List.append_assoc, List.singleton_append]
  exact step

/-- A record with another one behind it has been ended. -/
theorem isRecord_of_recordsFrom {limit : Nat} {position : Position} {bytes : List UInt8}
    {record : Record} {more : List Record}
    (read : recordsFrom limit position bytes = record :: more) (another : more ≠ []) :
    ∃ raw rest limit' position', bytes = raw ++ rest ∧ IsRecord raw record.fields ∧
      recordsFrom limit' position' rest = more := by
  cases limit with
  | zero => cases read
  | succ limit =>
    have splits := (List.takeWhile_append_dropWhile (p := isLineEnd) (l := bytes)).symm
    have first := List.head?_dropWhile_not isLineEnd bytes
    simp only [recordsFrom] at read
    generalize bytes.dropWhile isLineEnd = body at *
    split at read
    · cases read
    · cases read
      rcases fields_cases body with ⟨raws, ending, splits', stop, written⟩ | ends
      · have some : joined raws ≠ [] := by
          intro none
          rw [none, List.nil_append] at splits'
          rw [splits', List.head?_cons] at first
          simp [stop] at first
        refine ⟨bytes.takeWhile isLineEnd ++ joined raws ++ [ending], (fields body).2, limit, _, ?_,
          ⟨_, raws, ending, rfl, ?_, some, stop, written⟩, rfl⟩
        · rw [List.append_assoc, List.append_assoc, List.singleton_append, ← splits', ← splits]
        · exact fun b mem => List.all_eq_true.1 List.all_takeWhile b mem
      · refine absurd ?_ another
        rw [ends]
        exact recordsFrom_nil _ _

/-- A position some whole records later. -/
def Position.behind (position : Position) (raws : List (List UInt8)) : Position :=
  { byte := position.byte + raws.flatten.length
    line := position.line + raws.flatten.count 10
    record := position.record + raws.length }

theorem Position.behind_cons (position : Position) (raw : List UInt8) (raws : List (List UInt8)) :
    position.behind (raw :: raws) = (position.after raw).behind raws := by
  simp only [behind, after, List.flatten_cons, List.length_append, List.count_append,
    List.length_cons, mk.injEq]
  omega

/-- Written records are read one by one, and what follows them has no part in it. -/
theorem recordsFrom_flatten {raws : List (List UInt8)} {contents : List (List (List UInt8))}
    (written : List.Forall₂ IsRecord raws contents) (position : Position) :
    ∃ records, records.map Record.fields = contents ∧ ∀ limit rest,
      recordsFrom (contents.length + limit) position (raws.flatten ++ rest) =
        records ++ recordsFrom limit (position.behind raws) rest := by
  induction written generalizing position with
  | nil => exact ⟨[], rfl, fun limit rest => by simp [Position.behind]⟩
  | @cons raw content raws contents first others ih =>
    obtain ⟨records, same, read⟩ := ih (position.after raw)
    refine ⟨⟨content, position⟩ :: records, congrArg (content :: ·) same, ?_⟩
    intro limit rest
    rw [List.length_cons, Nat.add_right_comm, List.flatten_cons, List.append_assoc,
      recordsFrom_record first, read, List.cons_append, Position.behind_cons]

/-- All records but the last are written, and stand in front of what is left. -/
theorem isRecord_of_append {firsts : List Record} {limit : Nat} {position : Position}
    {bytes : List UInt8} {more : List Record} (another : more ≠ [])
    (read : recordsFrom limit position bytes = firsts ++ more) :
    ∃ raws rest, bytes = raws.flatten ++ rest ∧
      List.Forall₂ IsRecord raws (firsts.map Record.fields) := by
  induction firsts generalizing limit position bytes with
  | nil => exact ⟨[], bytes, rfl, .nil⟩
  | cons record firsts ih =>
    obtain ⟨raw, rest, limit', position', rfl, first, later⟩ :=
      isRecord_of_recordsFrom read (List.append_ne_nil_of_right_ne_nil _ another)
    obtain ⟨raws, rest, rfl, others⟩ := ih later
    exact ⟨raw :: raws, rest, by rw [List.flatten_cons, List.append_assoc], .cons first others⟩

/-- Records behind a mark of the byte order, which all but the first one count. -/
def shifted : List Record → List Record
  | [] => []
  | first :: more => first :: more.map fun record =>
      { record with position.byte := record.position.byte + byteOrderMark.length }

theorem map_fields_shifted (all : List Record) :
    (shifted all).map Record.fields = all.map Record.fields := by
  cases all with
  | nil => rfl
  | cons first more => simp [shifted]

theorem prefix_shifted {first second : List Record} (starts : first <+: second) :
    shifted first <+: shifted second := by
  obtain ⟨more, rfl⟩ := starts
  cases first with
  | nil => exact List.nil_prefix
  | cons record first =>
    rw [List.cons_append, shifted, shifted, List.map_append, ← List.cons_append]
    exact List.prefix_append _ _

theorem records_marked (bytes : List UInt8) :
    records (byteOrderMark ++ bytes) = shifted (recordsFrom bytes.length .start bytes) := by
  have mark := List.isPrefixOf?_eq_some_iff_append_eq.2 (rfl : byteOrderMark ++ bytes = _)
  simp only [records, mark]
  cases recordsFrom bytes.length .start bytes <;> rfl

theorem records_unmarked {bytes : List UInt8} (unmarked : ¬ byteOrderMark <+: bytes) :
    records bytes = recordsFrom bytes.length .start bytes := by
  have none : byteOrderMark.isPrefixOf? bytes = none := by
    rw [Option.eq_none_iff_forall_ne_some]
    intro rest mark
    exact unmarked ⟨rest, List.isPrefixOf?_eq_some_iff_append_eq.1 mark⟩
  simp only [records, none]

/-- Bytes that some records fill, up to the byte that ends the last of them. -/
def Fills (bytes : List UInt8) (contents : List (List (List UInt8))) : Prop :=
  ∃ raws, List.Forall₂ IsRecord raws contents ∧
    (bytes = byteOrderMark ++ raws.flatten ∨
      bytes = raws.flatten ∧ ¬ byteOrderMark <+: bytes)

theorem IsRecord.exists_mem {raw : List UInt8} {contents : List (List UInt8)}
    (written : IsRecord raw contents) : ∃ b ∈ raw, isLineEnd b = true := by
  obtain ⟨blank, raws, ending, rfl, _, _, stop, _⟩ := written
  exact ⟨ending, by simp, stop⟩

theorem length_le_length_flatten {raws : List (List UInt8)} {contents : List (List (List UInt8))}
    (written : List.Forall₂ IsRecord raws contents) :
    contents.length ≤ raws.flatten.length := by
  induction written with
  | nil => exact Nat.le_refl _
  | cons first _ ih =>
    obtain ⟨b, mem, _⟩ := first.exists_mem
    have some := List.length_pos_of_mem mem
    rw [List.flatten_cons, List.length_append, List.length_cons]
    omega

/-- Bytes that start with a mark have all of it in front of a byte that is not in the mark. -/
theorem prefix_of_not_mem {mark front rest : List UInt8} {b : UInt8} (other : b ∉ mark)
    (starts : mark <+: front ++ b :: rest) : mark <+: front := by
  rcases List.prefix_or_prefix_of_prefix starts (List.prefix_append front (b :: rest)) with
    inside | ⟨more, rfl⟩
  · exact inside
  · cases more with
    | nil => simp
    | cons c more =>
      have next := (List.prefix_append_right_inj front).1 starts
      obtain rfl := (List.cons_prefix_cons.1 next).1
      simp at other

/-- The mark of the byte order has no byte that ends a line, so no bytes behind a line complete
it. -/
theorem not_prefix_append {bytes : List UInt8} (ended : ∃ b ∈ bytes, isLineEnd b = true)
    (unmarked : ¬ byteOrderMark <+: bytes) (other : List UInt8) :
    ¬ byteOrderMark <+: bytes ++ other := by
  intro mark
  obtain ⟨b, mem, ends⟩ := ended
  have none : (byteOrderMark.all fun b => !isLineEnd b) = true := by decide
  have outside : b ∉ byteOrderMark := by
    intro inside
    have other := List.all_eq_true.1 none b inside
    rw [ends] at other
    cases other
  obtain ⟨front, rest, rfl⟩ := List.append_of_mem mem
  rw [List.append_assoc, List.cons_append] at mark
  exact unmarked ((prefix_of_not_mem outside mark).trans (List.prefix_append front _))

/-- The records that fill some bytes are the records of these bytes, and the first records of all
bytes that start with them. -/
theorem Fills.records {bytes : List UInt8} {contents : List (List (List UInt8))}
    (fills : Fills bytes contents) (some : contents ≠ []) :
    (records bytes).map Record.fields = contents ∧
      ∀ other, records bytes <+: records (bytes ++ other) := by
  obtain ⟨raws, written, shape⟩ := fills
  obtain ⟨all, same, read⟩ := recordsFrom_flatten written .start
  have enough := length_le_length_flatten written
  have alone : recordsFrom raws.flatten.length .start raws.flatten = all := by
    have step := read (raws.flatten.length - contents.length) []
    rwa [Nat.add_sub_cancel' enough, List.append_nil, recordsFrom_nil, List.append_nil] at step
  have followed (other : List UInt8) :
      all <+: recordsFrom (raws.flatten ++ other).length .start (raws.flatten ++ other) := by
    have length : (raws.flatten ++ other).length =
        contents.length + ((raws.flatten ++ other).length - contents.length) := by
      rw [List.length_append]
      omega
    rw [length, read]
    exact List.prefix_append _ _
  rcases shape with rfl | ⟨rfl, unmarked⟩
  · rw [records_marked, map_fields_shifted, alone]
    refine ⟨same, fun other => ?_⟩
    rw [List.append_assoc, records_marked]
    exact prefix_shifted (followed other)
  · rw [records_unmarked unmarked, alone]
    refine ⟨same, fun other => ?_⟩
    cases written with
    | nil => exact absurd rfl some
    | @cons raw _ raws _ first others =>
      obtain ⟨b, mem, ends⟩ := first.exists_mem
      have ended : ∃ b ∈ (raw :: raws).flatten, isLineEnd b = true :=
        ⟨b, List.mem_append_left _ mem, ends⟩
      rw [records_unmarked (not_prefix_append ended unmarked other)]
      exact followed other

/-- In front of its last record every input is filled. -/
theorem exists_fills {bytes : List UInt8} {firsts more : List Record} (another : more ≠ [])
    (read : records bytes = firsts ++ more) :
    ∃ shared, shared <+: bytes ∧ Fills shared (firsts.map Record.fields) := by
  by_cases mark : byteOrderMark <+: bytes
  · obtain ⟨rest, rfl⟩ := mark
    rw [records_marked] at read
    have fields := congrArg (List.map Record.fields) read
    rw [map_fields_shifted, List.map_append] at fields
    obtain ⟨firsts', more', splits, same, same'⟩ := List.map_eq_append_iff.1 fields
    have another' : more' ≠ [] := by
      rintro rfl
      exact another (List.map_eq_nil_iff.1 same'.symm)
    obtain ⟨raws, rest', rfl, written⟩ := isRecord_of_append another' splits
    refine ⟨byteOrderMark ++ raws.flatten, ?_, raws, same ▸ written, .inl rfl⟩
    rw [← List.append_assoc]
    exact List.prefix_append _ _
  · rw [records_unmarked mark] at read
    obtain ⟨raws, rest, rfl, written⟩ := isRecord_of_append another read
    have inside := List.prefix_append raws.flatten rest
    exact ⟨raws.flatten, inside, raws, written, .inr ⟨rfl, fun start => mark (start.trans inside)⟩⟩

end PeriodicJobs.Csv
