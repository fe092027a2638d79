import PeriodicJobs.Text.Basic

set_option autoImplicit false

/- Texts set apart: pieces between separators, and a text between what trimming drops. -/
namespace PeriodicJobs.Text

variable {α : Type} {drop : α → Bool} {before items after : List α}

theorem mem_intercalate {a : α} {separator : List α} {pieces : List (List α)}
    (mem : a ∈ separator.intercalate pieces) : a ∈ separator ∨ ∃ piece ∈ pieces, a ∈ piece := by
  induction pieces with
  | nil => simp at mem
  | cons piece rest ih =>
    cases rest with
    | nil => exact Or.inr ⟨piece, List.mem_cons_self, by simpa using mem⟩
    | cons next rest =>
      rw [List.intercalate_cons_cons, List.mem_append, List.mem_append] at mem
      rcases mem with (first | between) | later
      · exact Or.inr ⟨piece, List.mem_cons_self, first⟩
      · exact Or.inl between
      · obtain inside | ⟨other, mem, inside⟩ := ih later
        · exact Or.inl inside
        · exact Or.inr ⟨other, List.mem_cons_of_mem _ mem, inside⟩

theorem dropWhile_append (left : ∀ a ∈ before, drop a = true)
    (first : ∀ a ∈ items.head?, drop a = false) : (before ++ items).dropWhile drop = items := by
  rw [List.dropWhile_append_of_pos left]
  cases items with
  | nil => rfl
  | cons a rest => simp [first a rfl]

theorem dropWhile_of_all (all : ∀ a ∈ items, drop a = true) : items.dropWhile drop = [] := by
  rw [← List.append_nil items, List.dropWhile_append_of_pos all, List.dropWhile_nil]

/-- A text is found whole between what is dropped, if neither of its own ends is dropped. -/
theorem stripEnds_between (left : ∀ a ∈ before, drop a = true)
    (right : ∀ a ∈ after, drop a = true) (first : ∀ a ∈ items.head?, drop a = false)
    (last : ∀ a ∈ items.getLast?, drop a = false) :
    stripEnds drop (before ++ items ++ after) = items := by
  have right' : ∀ a ∈ after.reverse, drop a = true := fun a mem => right a (List.mem_reverse.1 mem)
  have last' : ∀ a ∈ items.reverse.head?, drop a = false := by
    rw [List.head?_reverse]
    exact last
  cases items with
  | nil =>
    have all : ∀ a ∈ before ++ after, drop a = true := fun a mem =>
      (List.mem_append.1 mem).elim (left a) (right a)
    rw [stripEnds, List.append_nil, dropWhile_of_all all]
    rfl
  | cons a rest =>
    have first' : ∀ b ∈ (a :: rest ++ after).head?, drop b = false := first
    rw [stripEnds, List.append_assoc, dropWhile_append left first', List.reverse_append,
      dropWhile_append right' last', List.reverse_reverse]

/-- What stripping leaves stands between what it drops, and starts and ends with what is kept. -/
theorem stripEnds_spec (drop : α → Bool) (items : List α) :
    ∃ before after, items = before ++ stripEnds drop items ++ after ∧
      (∀ a ∈ before, drop a = true) ∧ (∀ a ∈ after, drop a = true) ∧
      (∀ a ∈ (stripEnds drop items).head?, drop a = false) ∧
      ∀ a ∈ (stripEnds drop items).getLast?, drop a = false := by
  have first {items : List α} : ∀ a ∈ (items.dropWhile drop).head?, drop a = false := by
    intro a mem
    have kept := List.head?_dropWhile_not drop items
    rw [show (items.dropWhile drop).head? = some a from mem] at kept
    simpa using kept
  have split := (List.takeWhile_append_dropWhile (p := drop)
    (l := (items.dropWhile drop).reverse)).symm
  rw [List.reverse_eq_iff, List.reverse_append] at split
  refine ⟨items.takeWhile drop, ((items.dropWhile drop).reverse.takeWhile drop).reverse, ?_,
    fun a mem => List.all_eq_true.1 List.all_takeWhile a mem, ?_, ?_, ?_⟩
  · rw [stripEnds, List.append_assoc, ← split, List.takeWhile_append_dropWhile]
  · intro a mem
    exact List.all_eq_true.1 List.all_takeWhile a (List.mem_reverse.1 mem)
  · intro a mem
    have inside : ((items.dropWhile drop).reverse.dropWhile drop).reverse.head? = some a := mem
    refine @first items a ?_
    rw [split, List.head?_append, inside]
    rfl
  · rw [stripEnds, List.getLast?_reverse]
    exact first

theorem trim_append {before text after : List Char} (left : ∀ c ∈ before, isBlank c = true)
    (right : ∀ c ∈ after, isBlank c = true) : trim (before ++ text ++ after) = trim text := by
  obtain ⟨before', after', split, left', right', first, last⟩ := stripEnds_spec isBlank text
  unfold trim
  generalize stripEnds isBlank text = core at *
  subst split
  have whole : before ++ (before' ++ core ++ after') ++ after =
      (before ++ before') ++ core ++ (after' ++ after) := by simp only [List.append_assoc]
  rw [whole]
  refine stripEnds_between ?_ ?_ first last
  · exact fun c mem => (List.mem_append.1 mem).elim (left c) (left' c)
  · exact fun c mem => (List.mem_append.1 mem).elim (right' c) (right c)

end PeriodicJobs.Text
