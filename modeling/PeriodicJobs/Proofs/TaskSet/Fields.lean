import PeriodicJobs.Proofs.Outcome
import PeriodicJobs.Proofs.TaskSet.Agreement
import PeriodicJobs.Proofs.TaskSet.Cells

set_option autoImplicit false

/- Fields as texts. A field is stripped of blank bytes, decoded and trimmed; this is the text that
the whole field encodes, without the white space around it, so stripping first changes nothing. -/
namespace PeriodicJobs.TaskSet

/-- A field that holds a text: it encodes the text with any white space around it. -/
def Holds (field : List UInt8) (text : List Char) : Prop :=
  ∃ padded, field = Text.encode padded ∧ text = Text.trim padded

theorem Holds.unique {field : List UInt8} {text text' : List Char} (holds : Holds field text)
    (holds' : Holds field text') : text = text' := by
  obtain ⟨padded, rfl, rfl⟩ := holds
  obtain ⟨padded', same, rfl⟩ := holds'
  have decoded := Text.decode_encode padded
  rw [same, Text.decode_encode] at decoded
  rw [Except.ok.inj decoded]

theorem holds_of_decode {field : List UInt8} {text : List Char}
    (decoded : Text.decode field = .ok text) : Holds field (Text.trim text) :=
  ⟨text, Text.decode_eq_ok.1 decoded, rfl⟩

/-- Blank bytes encode blank characters. -/
theorem exists_encode_of_isBlankByte {bytes : List UInt8}
    (blank : ∀ b ∈ bytes, isBlankByte b = true) :
    ∃ text, bytes = Text.encode text ∧ ∀ c ∈ text, c ∈ asciiBlanks := by
  have single {b : UInt8} (blank : isBlankByte b = true) :
      ∃ c ∈ asciiBlanks, [b] = Text.encode [c] := by
    simp only [isBlankByte, Bool.or_eq_true, beq_iff_eq] at blank
    rcases blank with (((rfl | rfl) | rfl) | rfl) | rfl
    · exact ⟨' ', by decide, by decide⟩
    · exact ⟨'\t', by decide, by decide⟩
    · exact ⟨'\n', by decide, by decide⟩
    · exact ⟨'\x0c', by decide, by decide⟩
    · exact ⟨'\r', by decide, by decide⟩
  induction bytes with
  | nil => exact ⟨[], rfl, by simp⟩
  | cons b rest ih =>
    obtain ⟨first, others⟩ := List.forall_mem_cons.1 blank
    obtain ⟨c, mem, here⟩ := single first
    obtain ⟨text, rfl, inside⟩ := ih others
    refine ⟨c :: text, ?_, List.forall_mem_cons.2 ⟨mem, inside⟩⟩
    rw [← List.singleton_append, here, ← Text.encode_append]
    rfl

/-- Blank bytes can be stripped before decoding: white space is not lost in a text that is trimmed
behind it. -/
theorem holds_iff {field : List UInt8} {text : List Char} :
    Holds field text ↔
      ∃ core, Text.decode (Text.stripEnds isBlankByte field) = .ok core ∧
        text = Text.trim core := by
  have blank {chars : List Char} (inside : ∀ c ∈ chars, c ∈ asciiBlanks) :
      ∀ c ∈ chars, Text.isBlank c = true := fun c mem => isBlank_of_mem_asciiBlanks (inside c mem)
  constructor
  · rintro ⟨padded, rfl, rfl⟩
    obtain ⟨before, after, split, left, right, first, last⟩ :=
      Text.stripEnds_spec (fun c => decide (c ∈ asciiBlanks)) padded
    generalize Text.stripEnds (fun c => decide (c ∈ asciiBlanks)) padded = core at *
    subst split
    simp only [decide_eq_true_eq, decide_eq_false_iff_not] at left right first last
    have bytes {chars : List Char} (inside : ∀ c ∈ chars, c ∈ asciiBlanks) :
        ∀ b ∈ Text.encode chars, isBlankByte b = true := by
      have single : (asciiBlanks.all fun c =>
          (String.utf8EncodeChar c).all isBlankByte) = true := by decide
      intro b mem
      obtain ⟨c, here, mem⟩ := Text.mem_encode.1 mem
      exact List.all_eq_true.1 (List.all_eq_true.1 single c (inside c here)) b mem
    refine ⟨core, Text.decode_eq_ok.2 ?_, Text.trim_append (blank left) (blank right)⟩
    rw [Text.encode_append, Text.encode_append]
    refine Text.stripEnds_between (bytes left) (bytes right) ?_ ?_
    · intro b mem
      rw [Text.head?_encode] at mem
      obtain ⟨c, here, mem⟩ := Option.bind_eq_some_iff.1 mem
      exact isBlankByte_eq_false (first c here) (List.mem_of_head? mem)
    · intro b mem
      rw [Text.getLast?_encode] at mem
      obtain ⟨c, here, mem⟩ := Option.bind_eq_some_iff.1 mem
      exact isBlankByte_eq_false (last c here) (List.mem_of_getLast? mem)
  · rintro ⟨core, decoded, rfl⟩
    obtain ⟨before, after, split, left, right, _⟩ := Text.stripEnds_spec isBlankByte field
    rw [Text.decode_eq_ok.1 decoded] at split
    obtain ⟨before, rfl, inside⟩ := exists_encode_of_isBlankByte left
    obtain ⟨after, rfl, inside'⟩ := exists_encode_of_isBlankByte right
    refine ⟨before ++ core ++ after, ?_, (Text.trim_append (blank inside) (blank inside')).symm⟩
    rw [split, Text.encode_append, Text.encode_append]

/-- Fields become texts when all of them can be decoded. -/
theorem texts_eq_ok {start : Csv.Position} {index : Nat} {fields : List (List UInt8)}
    {cells : List (List Char)} :
    texts start index fields = .ok cells ↔
      List.Forall₂ (fun field text => ∃ core, Text.decode field = .ok core ∧ text = Text.trim core)
        fields cells := by
  induction fields generalizing index cells with
  | nil =>
    rw [List.forall₂_nil_left_iff]
    exact ⟨fun done => (Except.ok.inj done).symm, fun none => none ▸ rfl⟩
  | cons field fields ih =>
    rw [List.forall₂_cons_left_iff]
    cases decoded : Text.decode field with
    | error valid => simp [texts, decoded]
    | ok core =>
      simp only [texts, decoded]
      rw [Outcome.bind_eq_ok]
      constructor
      · rintro ⟨rest, done, made⟩
        cases made
        exact ⟨_, rest, ⟨core, rfl, rfl⟩, ih.1 done, rfl⟩
      · rintro ⟨_, rest, ⟨_, ⟨⟩, rfl⟩, others, rfl⟩
        exact ⟨rest, ih.2 others, rfl⟩

theorem holds_of_texts {start : Csv.Position} {index : Nat} {fields : List (List UInt8)}
    {cells : List (List Char)} (read : texts start index fields = .ok cells) :
    List.Forall₂ Holds fields cells := by
  refine (texts_eq_ok.1 read).imp ?_
  rintro field _ ⟨core, decoded, rfl⟩
  exact holds_of_decode decoded

theorem texts_of_invalid {start : Csv.Position} {index valid : Nat} {field : List UInt8}
    {before after : List (List UInt8)}
    (first : ∀ other ∈ before, ∃ core, Text.decode other = .ok core)
    (invalid : Text.decode field = .error valid) :
    texts start index (before ++ field :: after) =
      .error (.malformed (.invalidText start (index + before.length) valid)) := by
  induction before generalizing index with
  | nil => simp only [List.nil_append, texts, invalid, List.length_nil, Nat.add_zero]
  | cons other before ih =>
    obtain ⟨⟨core, decoded⟩, first⟩ := List.forall_mem_cons.1 first
    rw [List.cons_append, texts, decoded, List.length_cons, Nat.add_comm before.length,
      ← Nat.add_assoc]
    exact Outcome.bind_eq_error.2 (.inl (ih first))

theorem exists_invalid {start : Csv.Position} {index : Nat} {fields : List (List UInt8)}
    {fault : TaskSetFault} (failed : texts start index fields = .error fault) :
    ∃ before field after valid, fields = before ++ field :: after ∧
      (∀ other ∈ before, ∃ core, Text.decode other = .ok core) ∧
      Text.decode field = .error valid := by
  induction fields generalizing index with
  | nil => cases failed
  | cons field fields ih =>
    cases decoded : Text.decode field with
    | error valid => exact ⟨[], field, fields, valid, rfl, by simp, decoded⟩
    | ok core =>
      rw [texts, decoded] at failed
      rcases Outcome.bind_eq_error.1 failed with later | ⟨_, _, ⟨⟩⟩
      obtain ⟨before, bad, after, valid, rfl, first, invalid⟩ := ih later
      exact ⟨field :: before, bad, after, valid, rfl,
        List.forall_mem_cons.2 ⟨⟨core, decoded⟩, first⟩, invalid⟩

/-- The first field that cannot be decoded decides the fault. -/
theorem texts_eq_error {start : Csv.Position} {index : Nat} {fields : List (List UInt8)}
    {fault : TaskSetFault} :
    texts start index fields = .error fault ↔
      ∃ before field after valid, fields = before ++ field :: after ∧
        (∀ other ∈ before, ∃ core, Text.decode other = .ok core) ∧
        Text.decode field = .error valid ∧
        fault = .malformed (.invalidText start (index + before.length) valid) := by
  constructor
  · intro failed
    obtain ⟨before, field, after, valid, rfl, first, invalid⟩ := exists_invalid failed
    refine ⟨before, field, after, valid, rfl, first, invalid, ?_⟩
    exact Except.error.inj (failed.symm.trans (texts_of_invalid first invalid))
  · rintro ⟨before, field, after, valid, rfl, first, invalid, rfl⟩
    exact texts_of_invalid first invalid

end PeriodicJobs.TaskSet
