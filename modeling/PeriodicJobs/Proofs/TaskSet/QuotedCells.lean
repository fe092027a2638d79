import Mathlib.Logic.Function.Basic
import PeriodicJobs.Proofs.TaskSet.Pieces
import PeriodicJobs.Proofs.TaskSet.SameTexts

set_option autoImplicit false

/- Cells within quotes. A quote opens a cell only as its very first byte: blanks in front of a cell
are ignored if it is written bare, and so are quotes around it with no blank in front of them, but
behind a blank the quotes are part of the text, which is a text of no column. -/
namespace PeriodicJobs

/-- A text within quotes, with every quote in it doubled. -/
def quotedText (text : List Char) : List Char :=
  '"' :: ((text.flatMap fun c => if c = '"' then ['"', '"'] else [c]) ++ ['"'])

/-- A quote takes the one byte of a quote, which is found in no other character. -/
theorem encode_quotedText (text : List Char) :
    Text.encode (quotedText text) =
      Csv.quote :: (Csv.doubled (Text.encode text) ++ [Csv.quote]) := by
  have single (c : Char) : Text.encode (if c = '"' then ['"', '"'] else [c]) =
      Csv.doubled (String.utf8EncodeChar c) := by
    split
    · rename_i isQuote
      subst isQuote
      rfl
    · rename_i other
      have unquoted : Csv.quote ∉ String.utf8EncodeChar c := fun mem =>
        TaskSet.ne_of_mem_utf8EncodeChar mem (by decide) other rfl
      rw [Csv.doubled_of_unquoted unquoted]
      exact List.append_nil _
  have inside : Text.encode (text.flatMap fun c => if c = '"' then ['"', '"'] else [c]) =
      Csv.doubled (Text.encode text) := by
    rw [Text.encode_flatMap, Text.encode, Csv.doubled, List.flatMap_assoc]
    exact List.flatMap_congr fun c _ => single c
  rw [quotedText, Text.encode_cons, Text.encode_append, inside]
  rfl

/-- A quote is no white space. -/
theorem trim_quotedText (text : List Char) : Text.trim (quotedText text) = quotedText text := by
  have kept : Text.isBlank '"' = false := by decide
  have first : ∀ c ∈ (quotedText text).head?, Text.isBlank c = false := by simp [quotedText, kept]
  have last : ∀ c ∈ (quotedText text).getLast?, Text.isBlank c = false := by
    intro c mem
    rw [quotedText, ← List.cons_append, List.getLast?_concat] at mem
    cases mem
    exact kept
  have whole : Text.trim ([] ++ quotedText text ++ []) = quotedText text :=
    Text.stripEnds_between (List.forall_mem_nil _) (List.forall_mem_nil _) first last
  rwa [List.append_nil, List.nil_append] at whole

theorem Decimal.real?_of_quote (rest : List Char) : real? ('"' :: rest) = none := by
  have other {word : String} (start : word.toList.head? ≠ some '"') :
      String.ofList (('"' :: rest).map Char.toLower) ≠ word := by
    rintro rfl
    rw [String.toList_ofList] at start
    exact start rfl
  have inf := @other "inf" (by decide)
  have infinity := @other "infinity" (by decide)
  have nan := @other "nan" (by decide)
  change unsigned? false ('"' :: rest) = none
  simp only [unsigned?, inf, infinity, nan, or_self, ↓reduceIte]
  rfl

theorem Cell.jitter_of_quote (rest : List Char) : jitter ('"' :: rest) = .error .badRange := by
  have other : Text.trim ('"' :: rest) ≠ "none".toList := by
    intro same
    obtain ⟨before, after, split, blank, _⟩ := Text.stripEnds_spec Text.isBlank ('"' :: rest)
    rw [show Text.stripEnds Text.isBlank ('"' :: rest) = "none".toList from same] at split
    cases before with
    | nil => cases split
    | cons c before =>
      cases split
      cases blank '"' List.mem_cons_self
  rw [jitter, if_neg other]
  rfl

namespace Column

/-- Why a column refuses a text of another kind than its cells. -/
def misfit : Column → CellFault
  | .jobName => .badTaskName
  | .period | .releasePhase | .deadline | .initialExecutionTime => .notANumber
  | .wcetJitter | .releaseJitter => .badRange

/-- No column has a text that starts with a quote. -/
theorem refusal?_of_quote (column : Column) (rest : List Char) :
    column.refusal? ('"' :: rest) = some column.misfit := by
  have real : Cell.real ('"' :: rest) = .error .notANumber := by
    simp only [Cell.real, Decimal.real?_of_quote]
  cases column with
  | jobName => rfl
  | period => exact Outcome.fault?_eq_some.2 (Outcome.bind_eq_error.2 (.inl real))
  | releasePhase | deadline | initialExecutionTime => exact Outcome.fault?_eq_some.2 real
  | wcetJitter => rfl
  | releaseJitter => exact Outcome.fault?_eq_some.2 (Cell.jitter_of_quote rest)

theorem name_ne_of_quote (column : Column) (rest : List Char) :
    column.name ≠ String.ofList ('"' :: rest) := by
  intro same
  have first : column.name.toList.head? = some '"' := by rw [same, String.toList_ofList]; rfl
  have other : column.name.toList.head? ≠ some '"' := by cases column <;> decide
  exact other first

end Column

namespace TaskSet

/-- A name that starts with a quote in the place of a name of a header is the first one that is of
no column. -/
theorem header_of_quote {head other : Csv.Record} {columns : Header}
    (resolved : header head = .ok columns) {index : Nat} (inside : index < head.fields.length)
    {field : List UInt8} {rest : List Char} (holds : Holds field ('"' :: rest))
    (same : other.fields = head.fields.set index field) :
    header other = .error (.header (.unexpected (String.ofList ('"' :: rest)))) := by
  have isHead := isHead_of_header resolved
  let before := columns.columns.take index
  let after := (columns.columns.drop (index + 1)).map Column.name
  let names := before.map Column.name ++ String.ofList ('"' :: rest) :: after
  have others : List.Forall₂ Holds other.fields (names.map String.toList) := by
    rw [same, List.set_eq_take_append_cons_drop, if_pos inside, List.map_append, List.map_cons,
      String.toList_ofList]
    refine List.rel_append ?_ (.cons holds ?_)
    · simpa [before, Function.comp_def] using List.forall₂_take index isHead.names
    · simpa [after, Function.comp_def] using List.forall₂_drop (index + 1) isHead.names
  have distinct : before.Nodup := isHead.distinct.sublist (List.take_sublist ..)
  have first : Header.FirstFault names (.unexpected (String.ofList ('"' :: rest))) :=
    .unexpected distinct fun column => column.name_ne_of_quote rest
  rw [header_of_holds others, Header.ofNames_eq_error.2 first]
  rfl

/-- A record with another field in the place of one has the text of that field in one column, and
keeps the texts in the others. -/
theorem IsHead.isRow_set {head record : Csv.Record} {columns : Header} {text : Column → List Char}
    (isHead : IsHead head columns) (isRow : IsRow head record text) {index : Nat}
    (inside : index < head.fields.length) {field : List UInt8} {value : List Char}
    (holds : Holds field value) :
    ∃ name column, head.fields[index]? = some name ∧ Holds name column.name.toList ∧
      ∀ other : Csv.Record, other.fields = record.fields.set index field →
        IsRow head other (Function.update text column value) := by
  have below : index < columns.columns.length := isHead.length_eq ▸ inside
  have found := List.getElem?_eq_getElem inside
  have named : Holds head.fields[index] columns.columns[index].name.toList := by
    simpa using isHead.names.get inside (by rwa [List.length_map])
  refine ⟨head.fields[index], columns.columns[index], found, named, fun other same => ?_⟩
  refine ⟨by rw [same, List.length_set, isRow.length], fun column => ?_⟩
  by_cases here : column = columns.columns[index]
  · subst here
    have field' : other.fields[index]? = some field := by
      rw [same, List.getElem?_set_self (isRow.length ▸ inside)]
    exact ⟨index, _, field, found, named, field', by rwa [Function.update_self]⟩
  · obtain ⟨index', name, field', found', named', inside', holds'⟩ := isRow.cells column
    have apart : index ≠ index' := by
      rintro rfl
      rw [found] at found'
      cases found'
      exact here (Column.name_injective (String.toList_inj.1 (named'.unique named)))
    refine ⟨index', name, field', found', named', ?_, by rwa [Function.update_of_ne here]⟩
    rw [same, List.getElem?_set_ne apart, inside']

/-- A text that starts with a quote in the place of a text of a task is the first one that is
refused. -/
theorem refused_of_quote {head record other : Csv.Record} {columns : Header} {task : Task}
    (isHead : IsHead head columns) (reads : Reads head record task) {index : Nat}
    (inside : index < head.fields.length) {field : List UInt8} {rest : List Char}
    (holds : Holds field ('"' :: rest)) (same : other.fields = record.fields.set index field) :
    ∃ name column, head.fields[index]? = some name ∧ Holds name column.name.toList ∧
      Refused head other (.invalidCell other.position.line column (String.ofList ('"' :: rest))
        column.misfit) := by
  obtain ⟨text, isRow, made⟩ := reads
  obtain ⟨name, column, found, named, changed⟩ := isHead.isRow_set isRow inside holds
  refine ⟨name, column, found, named, ?_⟩
  obtain ⟨before, after, schema⟩ := List.append_of_mem column.mem_all
  have first : column.IsFirstRefused (Function.update text column ('"' :: rest)) column.misfit := by
    refine ⟨before, after, schema, ?_, fun earlier mem => ?_⟩
    · rw [Function.update_self]
      exact column.refusal?_of_quote rest
    · have distinct : (before ++ column :: after).Nodup := schema ▸ (by decide : Column.all.Nodup)
      have apart : earlier ≠ column :=
        (List.nodup_append.1 distinct).2.2 earlier mem column List.mem_cons_self
      rw [Function.update_of_ne apart]
      exact made.refusal?_eq_none earlier
  have refused := Refused.invalidCell (changed other same) first
  rwa [Function.update_self] at refused

section Tables

variable {bytes bytes' : List UInt8} {tasks : List Task} (read : ofBytes bytes = .ok tasks)
  {head head' : Csv.Record} {index : Nat} {field : List UInt8} {rest : List Char}
  (holds : Holds field ('"' :: rest))

include read holds

theorem ofBytes_of_quoted_name {rows rows' : List Csv.Record}
    (found : Csv.records bytes = head :: rows) (found' : Csv.records bytes' = head' :: rows')
    (inside : index < head.fields.length) (same : head'.fields = head.fields.set index field) :
    ofBytes bytes' = .error (.header (.unexpected (String.ofList ('"' :: rest)))) := by
  obtain ⟨columns, resolved, _⟩ := reads_of_ok found read
  simp only [ofBytes, found', header_of_quote resolved inside holds same]
  rfl

theorem ofBytes_of_quoted_cell {good good' later later' : List Csv.Record}
    {record record' : Csv.Record} (found : Csv.records bytes = head :: (good ++ record :: later))
    (found' : Csv.records bytes' = head' :: (good' ++ record' :: later'))
    (sameHead : head.fields = head'.fields)
    (sameGood : good.map Csv.Record.fields = good'.map Csv.Record.fields)
    (inside : index < record.fields.length)
    (same : record'.fields = record.fields.set index field) :
    ∃ name column, head'.fields[index]? = some name ∧ Holds name column.name.toList ∧
      ofBytes bytes' = .error (.invalidCell record'.position.line column
        (String.ofList ('"' :: rest)) column.misfit) := by
  obtain ⟨columns, resolved, accepted⟩ := reads_of_ok found read
  have resolved' : header head' = .ok columns := header_congr sameHead resolved
  obtain ⟨task, reads⟩ := accepted record (by simp)
  have reads' : Reads head' record task := reads_congr sameHead rfl reads
  obtain ⟨name, column, named, holdsName, refused⟩ := refused_of_quote
    (isHead_of_header resolved') reads' (reads'.length ▸ inside) holds same
  refine ⟨name, column, named, holdsName, (ofBytes_eq_error found' resolved').2
    ⟨good', record', later', rfl, fun earlier mem => ?_, refused⟩⟩
  obtain ⟨original, mem', unchanged⟩ : ∃ original ∈ good, original.fields = earlier.fields :=
    List.mem_map.1 (sameGood ▸ List.mem_map_of_mem mem)
  obtain ⟨task, reads⟩ := accepted original (by simp [mem'])
  exact ⟨task, reads_congr sameHead unchanged reads⟩

end Tables

theorem exists_record {records : List Csv.Record} {good later : List (List (List UInt8) × Nat)}
    {fields : List (List UInt8)} {line : Nat}
    (entries : records.map Csv.Record.entry = good ++ (fields, line) :: later) :
    ∃ goods record rests, records = goods ++ record :: rests ∧
      goods.map Csv.Record.fields = good.map Prod.fst ∧ record.fields = fields ∧
      record.position.line = line := by
  obtain ⟨goods, _, rfl, rfl, behind⟩ := List.map_eq_append_iff.1 entries
  obtain ⟨record, rests, rfl, here, _⟩ := List.map_eq_cons_iff.1 behind
  refine ⟨goods, record, rests, rfl, ?_, congrArg Prod.fst here, congrArg Prod.snd here⟩
  rw [List.map_map]
  rfl

/-- Tables that differ in one field, which starts with a quote in the second one. If the first one is
accepted then the second one is refused for that field. -/
theorem ofBytes_of_quote {bytes bytes' : List UInt8} {good later : List (List (List UInt8) × Nat)}
    {left right : List (List UInt8)} {field field' : List UInt8} {line : Nat} {rest : List Char}
    (entries : (Csv.records bytes).map Csv.Record.entry =
      good ++ (left ++ field :: right, line) :: later)
    (entries' : (Csv.records bytes').map Csv.Record.entry =
      good ++ (left ++ field' :: right, line) :: later)
    (holds : Holds field' ('"' :: rest)) {tasks : List Task} (read : ofBytes bytes = .ok tasks) :
    (good.map Prod.fst = [] →
      ofBytes bytes' = .error (.header (.unexpected (String.ofList ('"' :: rest))))) ∧
    ∀ names rows, good.map Prod.fst = names :: rows → ∃ name column,
      names[left.length]? = some name ∧ Holds name column.name.toList ∧
        ofBytes bytes' = .error (.invalidCell line column (String.ofList ('"' :: rest))
          column.misfit) := by
  obtain ⟨goods, record, rests, found, same, fields, _⟩ := exists_record entries
  obtain ⟨goods', record', rests', found', same', fields', rfl⟩ := exists_record entries'
  have changed : record'.fields = record.fields.set left.length field' := by
    rw [fields, fields']
    simp
  have inside : left.length < record.fields.length := by simp [fields]
  rw [← same'] at same ⊢
  constructor
  · intro none
    rw [none, List.map_eq_nil_iff] at same
    rw [same, List.nil_append] at found
    rw [List.map_eq_nil_iff.1 none, List.nil_append] at found'
    exact ofBytes_of_quoted_name read holds found found' inside changed
  · intro names rows split
    obtain ⟨head', firsts', rfl, rfl, rfl⟩ := List.map_eq_cons_iff.1 split
    obtain ⟨head, firsts, rfl, sameHead, sameFirsts⟩ := List.map_eq_cons_iff.1 same
    exact ofBytes_of_quoted_cell read holds found found' sameHead sameFirsts inside changed

section Cell

variable {text : List Char} (inside : ∀ b ∈ Text.encode text, Csv.endsField b = false)

theorem encode_blanks (blanks : Nat) :
    Text.encode (List.replicate blanks ' ' ++ text) =
      List.replicate blanks 32 ++ Text.encode text := by
  induction blanks with
  | zero => rfl
  | succ blanks ih =>
    rw [List.replicate_succ, List.cons_append, Text.encode_cons, ih]
    rfl

theorem holds_blanks (blanks : Nat) :
    Holds (Text.encode (List.replicate blanks ' ' ++ text)) (Text.trim text) := by
  have blank : ∀ c ∈ List.replicate blanks ' ', Text.isBlank c = true := by
    intro c mem
    rw [List.eq_of_mem_replicate mem]
    decide
  have trimmed : Text.trim (List.replicate blanks ' ' ++ text ++ []) = Text.trim text :=
    Text.trim_append blank (List.forall_mem_nil _)
  rw [List.append_nil] at trimmed
  exact ⟨_, rfl, trimmed.symm⟩

include inside

theorem endsField_encode_quotedText :
    ∀ b ∈ Text.encode (quotedText text), Csv.endsField b = false := by
  rw [encode_quotedText]
  intro b mem
  rcases List.mem_cons.1 mem with rfl | mem
  · rfl
  · rcases List.mem_append.1 mem with mem | mem
    · exact inside b (Csv.mem_doubled mem)
    · rw [List.mem_singleton.1 mem]
      rfl

/-- Blanks in front of a cell make it one that is written bare, whatever it starts with. -/
theorem isLoose_blanks (blanks : Nat) :
    Csv.IsLoose (Text.encode (List.replicate (blanks + 1) ' ' ++ text)) := by
  rw [encode_blanks]
  refine ⟨fun b mem => ?_, by simp [List.replicate_succ, Csv.quote]⟩
  rcases List.mem_append.1 mem with blank | mem
  · rw [List.eq_of_mem_replicate blank]
    rfl
  · exact inside b mem

end Cell

section Gap

variable {gap : Csv.Gap} {text : List Char} (loose : Csv.IsLoose (Text.encode text))
  (fits : gap.Fits (Text.encode text))

include fits

/-- A blank is no byte of the mark of the byte order. -/
theorem fits_blanks (blanks : Nat) (other : List Char) :
    gap.Fits (Text.encode (List.replicate (blanks + 1) ' ' ++ other)) :=
  fits.cons (by decide : (32 : UInt8) ∉ Csv.byteOrderMark) _

theorem fits_quotedText (other : List Char) : gap.Fits (Text.encode (quotedText other)) :=
  fits.cons (by decide : Csv.quote ∉ Csv.byteOrderMark) _

include loose

theorem ofBytes_blanks (proper : IsProper (ofBytes (gap.file (Text.encode text)))) (blanks : Nat) :
    ofBytes (gap.file (Text.encode (List.replicate blanks ' ' ++ text))) =
      ofBytes (gap.file (Text.encode text)) := by
  cases blanks with
  | zero => rfl
  | succ blanks =>
    obtain ⟨_, _, _, _, _, _, entries⟩ := gap.exists_entries
    have bare := entries _ _ (.bare loose) loose.single fits
    have isLoose := isLoose_blanks loose.inside blanks
    have spaced := entries _ _ (.bare isLoose) isLoose.single (fits_blanks fits blanks text)
    have same := SameTexts.of_holds ⟨text, rfl, rfl⟩ (holds_blanks (blanks + 1))
    exact ofBytes_of_alike (alike_of_entries same bare spaced) proper

theorem ofBytes_quotedText (proper : IsProper (ofBytes (gap.file (Text.encode text)))) :
    ofBytes (gap.file (Text.encode (quotedText text))) =
      ofBytes (gap.file (Text.encode text)) := by
  obtain ⟨_, _, _, _, _, _, entries⟩ := gap.exists_entries
  have bare := entries _ _ (.bare loose) loose.single fits
  have written : Csv.IsField (Text.encode (quotedText text)) (Text.encode text) := by
    have quoted := Csv.IsField.quoted (Text.encode text) ⟨List.forall_mem_nil _, by decide⟩
    rwa [List.append_nil, ← encode_quotedText] at quoted
  have single := Csv.not_mem_of_inside (endsField_encode_quotedText loose.inside)
  have enclosed := entries _ _ written single (fits_quotedText fits text)
  exact ofBytes_of_alike (alike_of_entries (fun _ => Iff.rfl) bare enclosed) proper

/-- Quotes behind a blank are part of the text. -/
theorem ofBytes_blanks_quotedText {tasks : List Task}
    (read : ofBytes (gap.file (Text.encode text)) = .ok tasks) (blanks : Nat) :
    (gap.earlier = [] →
      ofBytes (gap.file (Text.encode (List.replicate (blanks + 1) ' ' ++ quotedText text))) =
        .error (.header (.unexpected (String.ofList (quotedText text))))) ∧
    ∀ names rows, gap.earlier = names :: rows → ∃ name column,
      names[gap.left.length]? = some name ∧ Holds name column.name.toList ∧
      ofBytes (gap.file (Text.encode (List.replicate (blanks + 1) ' ' ++ quotedText text))) =
        .error (.invalidCell (Csv.lineBehind gap.start) column (String.ofList (quotedText text))
          column.misfit) := by
  obtain ⟨good, left, right, later, earlier, width, entries⟩ := gap.exists_entries
  have bare := entries _ _ (.bare loose) loose.single fits
  have isLoose := isLoose_blanks (endsField_encode_quotedText loose.inside) blanks
  have spaced := entries _ _ (.bare isLoose) isLoose.single
    (fits_blanks fits blanks (quotedText text))
  have holds : Holds (Text.encode (List.replicate (blanks + 1) ' ' ++ quotedText text))
      (quotedText text) := by
    have trimmed := @holds_blanks (quotedText text) (blanks + 1)
    rwa [trim_quotedText] at trimmed
  obtain ⟨inHeader, inRow⟩ := ofBytes_of_quote bare spaced holds read
  rw [earlier] at inHeader inRow
  rw [width] at inRow
  exact ⟨inHeader, inRow⟩

end Gap

/-- Blanks in front of a bare cell are ignored, and so are quotes around it with nothing in front of
them. Behind a blank the quotes are part of the text: where the bare cell is accepted, the cell in
quotes is then the name of no column in a header, and in a row no text of its column. -/
theorem quotes_behind_blanks_are_text (gap : Csv.Gap) (text : List Char)
    (loose : Csv.IsLoose (Text.encode text)) (fits : gap.Fits (Text.encode text))
    (proper : IsProper (ofBytes (gap.file (Text.encode text)))) :
    (∀ blanks, ofBytes (gap.file (Text.encode (List.replicate blanks ' ' ++ text))) =
      ofBytes (gap.file (Text.encode text))) ∧
    ofBytes (gap.file (Text.encode (quotedText text))) = ofBytes (gap.file (Text.encode text)) ∧
    ∀ tasks, ofBytes (gap.file (Text.encode text)) = .ok tasks → ∀ blanks,
      (gap.earlier = [] →
        ofBytes (gap.file (Text.encode (List.replicate (blanks + 1) ' ' ++ quotedText text))) =
          .error (.header (.unexpected (String.ofList (quotedText text))))) ∧
      ∀ names rows, gap.earlier = names :: rows → ∃ name column,
        names[gap.left.length]? = some name ∧ Holds name column.name.toList ∧
        ofBytes (gap.file (Text.encode (List.replicate (blanks + 1) ' ' ++ quotedText text))) =
          .error (.invalidCell (Csv.lineBehind gap.start) column (String.ofList (quotedText text))
            column.misfit) :=
  ⟨ofBytes_blanks loose fits proper, ofBytes_quotedText loose fits proper,
    fun _ read => ofBytes_blanks_quotedText loose fits read⟩

/-- A table of one task without its period. -/
def periodGap : Csv.Gap where
  start := schemaTable []
  earlier := [Column.all.map fun column => Text.encode column.name.toList]
  blank := []
  left := [Text.encode "T(1 1)".toList]
  right := ["0", "10", "2", "uniform params: [1 to 2]", "none"].map fun cell =>
    Text.encode cell.toList
  rest := []
  fills := by
    have names : List.Forall₂ Csv.IsField (Column.all.map fun column =>
        Text.encode column.name.toList) _ := Csv.isField_of_isLoose (by decide +kernel)
    exact ⟨[schemaTable []], .cons ⟨[], _, 10, by decide +kernel, List.forall_mem_nil _,
      by decide +kernel, rfl, names⟩ .nil, .inr ⟨by decide +kernel, by decide +kernel⟩⟩
  ends := List.forall_mem_nil _
  left_written := exists_of_forall₂ (Csv.isField_of_isLoose (by decide +kernel))
  right_written := exists_of_forall₂ (Csv.isField_of_isLoose (by decide +kernel))
  stop := by simp

/-- A period of ten is read with three blanks in front of it or within quotes, but not both. -/
theorem quotes_behind_blanks_are_text_ten : ∃ tasks,
    ofBytes (periodGap.file (Text.encode "10".toList)) = .ok tasks ∧
    ofBytes (periodGap.file (Text.encode "   10".toList)) = .ok tasks ∧
    ofBytes (periodGap.file (Text.encode "\"10\"".toList)) = .ok tasks ∧
    ∃ column, ofBytes (periodGap.file (Text.encode "   \"10\"".toList)) =
      .error (.invalidCell 2 column "\"10\"" column.misfit) := by
  have size : (ofBytes (periodGap.file (Text.encode "10".toList))).map List.length = .ok 1 := by
    decide +kernel
  obtain ⟨tasks, read, _⟩ := Outcome.map_eq_ok.1 size
  have fits : periodGap.Fits (Text.encode "10".toList) :=
    ⟨.inl (by decide), fun none => absurd none (by decide)⟩
  have proper : IsProper (ofBytes (periodGap.file (Text.encode "10".toList))) := by
    rw [read]
    intro fault other
    cases other
  obtain ⟨blanks, quotes, refused⟩ := quotes_behind_blanks_are_text _ _ (by decide) fits proper
  obtain ⟨_, column, _, _, failed⟩ := (refused tasks read 2).2 _ _ rfl
  exact ⟨tasks, read, (blanks 3).trans read, quotes.trans read, column, failed⟩

/-- With a blank in front of it, a period of ten is read bare but not within quotes. -/
theorem quoted_cells_refused :
    (ofBytes (schemaTable "T(1 1), 10,0,10,2,uniform params: [1 to 2],none".toList)).map
      List.length = .ok 1 ∧
    ofBytes (schemaTable "T(1 1), \"10\",0,10,2,uniform params: [1 to 2],none".toList) =
      .error (.invalidCell 2 .period "\"10\"" .notANumber) := by
  decide +kernel

end TaskSet

end PeriodicJobs
