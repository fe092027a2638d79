import PeriodicJobs.Proofs.Outcome

set_option autoImplicit false

/- Checks in a fixed order. A computation that makes one check after another has the fault of the
first one that does not hold, and it succeeds if all of them hold. -/
namespace PeriodicJobs

variable {α β ε : Type}

/-- A condition, and the fault that is reported where it does not hold. -/
structure Check (ε : Type) where
  Holds : Prop
  fault : ε

/-- The fault of the first check that does not hold. -/
def FirstFailure (checks : List (Check ε)) (fault : ε) : Prop :=
  ∃ before check after, checks = before ++ check :: after ∧
    (∀ other ∈ before, other.Holds) ∧ ¬ check.Holds ∧ fault = check.fault

@[simp] theorem firstFailure_nil {fault : ε} : ¬ FirstFailure [] fault := by
  rintro ⟨before, check, after, split, _⟩
  cases before <;> cases split

@[simp] theorem firstFailure_cons {check : Check ε} {checks : List (Check ε)} {fault : ε} :
    FirstFailure (check :: checks) fault ↔
      (¬ check.Holds ∧ fault = check.fault) ∨ (check.Holds ∧ FirstFailure checks fault) := by
  constructor
  · rintro ⟨before, bad, after, split, good, broken, rfl⟩
    cases before with
    | nil =>
      cases split
      exact .inl ⟨broken, rfl⟩
    | cons first before =>
      cases split
      obtain ⟨holds, good⟩ := List.forall_mem_cons.1 good
      exact .inr ⟨holds, before, bad, after, rfl, good, broken, rfl⟩
  · rintro (⟨broken, rfl⟩ | ⟨holds, before, bad, after, rfl, good, broken, rfl⟩)
    · exact ⟨[], check, checks, rfl, by simp, broken, rfl⟩
    · exact ⟨check :: before, bad, after, rfl, List.forall_mem_cons.2 ⟨holds, good⟩, broken, rfl⟩

theorem firstFailure_append {checks checks' : List (Check ε)} {fault : ε} :
    FirstFailure (checks ++ checks') fault ↔
      FirstFailure checks fault ∨
        (∀ check ∈ checks, check.Holds) ∧ FirstFailure checks' fault := by
  induction checks with
  | nil => simp
  | cons check checks ih =>
    rw [List.cons_append, firstFailure_cons, firstFailure_cons, ih, List.forall_mem_cons]
    tauto

/-- A computation whose outcome the checks decide. The first one that does not hold is reported. -/
structure Decides (checks : List (Check ε)) (outcome : Except ε α) : Prop where
  ok_iff : (∃ a, outcome = .ok a) ↔ ∀ check ∈ checks, check.Holds
  error_iff : ∀ fault, outcome = .error fault ↔ FirstFailure checks fault

theorem decides_ok (a : α) : Decides (ε := ε) [] (.ok a) := ⟨by simp, by simp⟩

theorem decides_check {check : Check ε} {outcome : Except ε α}
    (passes : check.Holds → ∃ a, outcome = .ok a)
    (fails : ¬ check.Holds → outcome = .error check.fault) : Decides [check] outcome := by
  by_cases holds : check.Holds
  · obtain ⟨a, rfl⟩ := passes holds
    exact ⟨by simp [holds], by simp [holds]⟩
  · rw [fails holds]
    exact ⟨by simp [holds], by simp [holds, eq_comm]⟩

/-- What is looked up has to be found. -/
theorem decides_found {check : Check ε} {found : Option α}
    (holds : check.Holds ↔ ∃ a, found = some a) :
    Decides [check] (found.elim (.error check.fault) .ok) := by
  cases found with
  | none =>
    apply decides_check
    · intro passed
      obtain ⟨a, ⟨⟩⟩ := holds.1 passed
    · exact fun _ => rfl
  | some a =>
    apply decides_check
    · exact fun _ => ⟨a, rfl⟩
    · exact fun broken => absurd (holds.2 ⟨a, rfl⟩) broken

/-- The checks of a step come before those of what follows on its result. -/
theorem Decides.bind {checks checks' : List (Check ε)} {first : Except ε α}
    {next : α → Except ε β} (left : Decides checks first)
    (right : ∀ a, first = .ok a → Decides checks' (next a)) :
    Decides (checks ++ checks') (first >>= next) := by
  cases done : first with
  | ok a =>
    have passed := left.ok_iff.1 ⟨a, done⟩
    have later := right a done
    have silent (fault : ε) : ¬ FirstFailure checks fault := by
      rw [← left.error_iff, done]
      nofun
    constructor
    · rw [List.forall_mem_append, and_iff_right passed]
      exact later.ok_iff
    · intro fault
      rw [firstFailure_append, or_iff_right (silent fault), and_iff_right passed]
      exact later.error_iff fault
  | error fault =>
    have stopped : ¬ ∀ check ∈ checks, check.Holds := by
      rw [← left.ok_iff, done]
      nofun
    constructor
    · rw [List.forall_mem_append]
      exact iff_of_false nofun fun all => stopped all.1
    · intro other
      rw [firstFailure_append, or_iff_left fun both => stopped both.1, ← left.error_iff, done]
      constructor <;> rintro ⟨⟩ <;> rfl

/-- What is left out is not checked. -/
theorem decides_mapM {check : β → Check ε} {reader : β → Except ε α}
    (single : ∀ b, Decides [check b] (reader b)) (given : Option β) :
    Decides (given.toList.map check) (given.mapM reader) := by
  cases given with
  | none => exact decides_ok none
  | some b => exact (single b).bind fun a _ => decides_ok (some a)

end PeriodicJobs
