import PeriodicJobs.Proofs.JobSet.Reading

set_option autoImplicit false

/- What the texts of a job tell about it. Numbers with one text are the same number, all NaNs
counting as one, and a deadline never has the text of a rank. -/
namespace PeriodicJobs

namespace Binary64

/-- The same number bit for bit, or two NaNs. -/
def Alike (x y : Binary64) : Prop := x = y ∨ x.isNumber = false ∧ y.isNumber = false

instance (x y : Binary64) : Decidable (Alike x y) := inferInstanceAs (Decidable (_ ∨ _))

theorem Alike.symm {x y : Binary64} (alike : x.Alike y) : y.Alike x :=
  alike.imp Eq.symm And.symm

/-- Every text of a number is read back as the number, or as a NaN if it is one. -/
theorem exists_reading (x : Binary64) : ∃ y, Decimal.real? (realText x) = some y ∧ y.Alike x := by
  cases x with
  | nan s => exact ⟨.nan false, by cases s <;> decide +kernel, .inr ⟨rfl, rfl⟩⟩
  | number s place h => exact ⟨_, Decimal.real?_realText rfl, .inl rfl⟩

theorem Alike.trans {x y z : Binary64} (first : x.Alike y) (second : y.Alike z) : x.Alike z := by
  rcases first with rfl | ⟨notX, notY⟩
  · exact second
  · rcases second with rfl | ⟨_, notZ⟩
    · exact .inr ⟨notX, notY⟩
    · exact .inr ⟨notX, notZ⟩

/-- A text shows everything of a number but the sign of a NaN. -/
theorem realText_eq_iff {x y : Binary64} : realText x = realText y ↔ x.Alike y := by
  constructor
  · intro same
    obtain ⟨x', read, alike⟩ := exists_reading x
    obtain ⟨y', read', alike'⟩ := exists_reading y
    rw [same, read'] at read
    cases read
    exact alike.symm.trans alike'
  · rintro (rfl | ⟨notX, notY⟩)
    · rfl
    · cases x with
      | number => cases notX
      | nan => cases y with
        | number => cases notY
        | nan => rfl

theorem exists_letter_realText (x : Binary64) : ∃ c ∈ realText x, c.isDigit = false := by
  have ofWord {text : List Char} (letter : (text.any fun c => !c.isDigit) = true) :
      ∃ c ∈ text, c.isDigit = false := by
    simpa using letter
  cases x with
  | nan s => exact ofWord (by cases s <;> decide +kernel)
  | number s place h =>
    by_cases top : place = infinityPlace
    · subst top
      exact ofWord (by cases s <;> decide +kernel +revert)
    · rw [Decimal.realText_finite s h top]
      exact ⟨'.', by simp, rfl⟩

end Binary64

theorem wordText_inj {m n : UInt64} : wordText m = wordText n ↔ m = n := by
  refine ⟨fun same => ?_, congrArg wordText⟩
  have read := word?_wordText m
  rw [same, word?_wordText] at read
  exact (Option.some.inj read).symm

/-- Windows with the same bounds, all NaNs counting as one. -/
structure Window.Alike (a b : Window) : Prop where
  min : a.min.Alike b.min
  max : a.max.Alike b.max

structure Job.Alike (a b : Job) : Prop where
  id : a.id = b.id
  taskId : a.taskId = b.taskId
  arrival : a.arrival.Alike b.arrival
  deadline : a.deadline.Alike b.deadline
  cost : a.cost.Alike b.cost

namespace Priority

/-- Priorities of one kind with the same value, all NaNs counting as one. -/
inductive Alike : Priority → Priority → Prop
  | deadline {a b : Binary64} (alike : a.Alike b) : Alike (.deadline a) (.deadline b)
  | rank (place : UInt64) : Alike (.rank place) (.rank place)

/-- The text of a rank has digits only, and that of a deadline never has. -/
theorem text_deadline_ne (instant : Binary64) (place : UInt64) :
    (deadline instant).text {} ≠ (rank place).text {} := by
  rw [text_bare, text_bare]
  intro same
  obtain ⟨c, mem, letter⟩ := instant.exists_letter_realText
  simp only at same
  rw [same] at mem
  have digit : c.isDigit = true := Decimal.isDigit_of_mem_digits mem
  rw [letter] at digit
  cases digit

theorem text_eq_iff {a b : Priority} : a.text {} = b.text {} ↔ a.Alike b := by
  constructor
  · intro same
    cases a with
    | deadline instant => cases b with
      | deadline instant' =>
        rw [text_bare, text_bare] at same
        exact .deadline (Binary64.realText_eq_iff.1 same)
      | rank place => exact absurd same (text_deadline_ne instant place)
    | rank place => cases b with
      | deadline instant => exact absurd same.symm (text_deadline_ne instant place)
      | rank place' =>
        rw [text_bare, text_bare] at same
        cases wordText_inj.1 same
        exact .rank place
  · intro alike
    cases alike with
    | deadline alike =>
      rw [text_bare, text_bare]
      exact Binary64.realText_eq_iff.2 alike
    | rank => rfl

end Priority

namespace JobSet

variable {job job' : Job} {priority priority' : Priority}

/-- The texts of the cells tell a job and its priority. -/
theorem cells_eq_iff :
    cells job priority = cells job' priority' ↔ job.Alike job' ∧ priority.Alike priority' := by
  simp only [cells, List.cons.injEq, and_true, wordText_inj, Binary64.realText_eq_iff,
    Priority.text_eq_iff]
  constructor
  · rintro ⟨taskId, id, arrivalMin, arrivalMax, costMin, costMax, deadline, priority⟩
    exact ⟨⟨id, taskId, ⟨arrivalMin, arrivalMax⟩, deadline, ⟨costMin, costMax⟩⟩, priority⟩
  · rintro ⟨⟨id, taskId, arrival, deadline, cost⟩, priority⟩
    exact ⟨taskId, id, arrival.min, arrival.max, cost.min, cost.max, deadline, priority⟩

end JobSet

end PeriodicJobs
