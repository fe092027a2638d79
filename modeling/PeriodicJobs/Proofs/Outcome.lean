import Mathlib.Data.List.Forall2

set_option autoImplicit false

/- Computations that may fail, taken apart: what has succeeded when the whole has. -/
namespace PeriodicJobs.Outcome

variable {α β ε : Type}

theorem bind_eq_ok {first : Except ε α} {next : α → Except ε β} {b : β} :
    (first >>= next) = .ok b ↔ ∃ a, first = .ok a ∧ next a = .ok b := by
  cases first with
  | error fault =>
    constructor
    · intro done
      cases done
    · rintro ⟨a, done, _⟩
      cases done
  | ok a =>
    constructor
    · intro done
      exact ⟨a, rfl, done⟩
    · rintro ⟨a', same, done⟩
      cases same
      exact done

theorem bind_eq_error {first : Except ε α} {next : α → Except ε β} {fault : ε} :
    (first >>= next) = .error fault ↔
      first = .error fault ∨ ∃ a, first = .ok a ∧ next a = .error fault := by
  cases first with
  | error other => simp [bind, Except.bind]
  | ok a => simp [bind, Except.bind]

theorem elim_eq_ok {found : Option α} {fault : ε} {a : α} :
    found.elim (.error fault) .ok = (.ok a : Except ε α) ↔ found = some a := by
  cases found <;> simp

theorem map_eq_ok {f : α → β} {outcome : Except ε α} {b : β} :
    outcome.map f = .ok b ↔ ∃ a, outcome = .ok a ∧ f a = b := by
  cases outcome <;> simp [Except.map]

theorem map_eq_error {f : α → β} {outcome : Except ε α} {fault : ε} :
    outcome.map f = .error fault ↔ outcome = .error fault := by
  cases outcome <;> simp [Except.map]

theorem mapError_eq_ok {ε' : Type} {name : ε → ε'} {outcome : Except ε α} {a : α} :
    outcome.mapError name = .ok a ↔ outcome = .ok a := by
  cases outcome <;> simp [Except.mapError]

theorem mapError_eq_error {ε' : Type} {name : ε → ε'} {outcome : Except ε α} {fault : ε'} :
    outcome.mapError name = .error fault ↔
      ∃ cause, outcome = .error cause ∧ name cause = fault := by
  cases outcome <;> simp [Except.mapError]

/-- A pass over a list succeeds when it does on every item. -/
theorem mapM_eq_ok {f : α → Except ε β} {items : List α} {results : List β} :
    items.mapM f = .ok results ↔ List.Forall₂ (fun a b => f a = .ok b) items results := by
  induction items generalizing results with
  | nil =>
    rw [List.mapM_nil, List.forall₂_nil_left_iff]
    exact ⟨fun done => (Except.ok.inj done).symm, fun none => none ▸ rfl⟩
  | cons item items ih =>
    rw [List.mapM_cons, bind_eq_ok, List.forall₂_cons_left_iff]
    constructor
    · rintro ⟨result, first, rest⟩
      obtain ⟨others, later, done⟩ := bind_eq_ok.1 rest
      exact ⟨result, others, first, ih.1 later, (Except.ok.inj done).symm⟩
    · rintro ⟨result, others, first, later, rfl⟩
      exact ⟨result, first, bind_eq_ok.2 ⟨others, ih.2 later, rfl⟩⟩

theorem mem_of_mapM {f : α → Except ε β} {items : List α} {results : List β} {result : β}
    (done : items.mapM f = .ok results) (mem : result ∈ results) :
    ∃ item ∈ items, f item = .ok result := by
  have pairs := mapM_eq_ok.1 done
  clear done
  induction pairs with
  | nil => cases mem
  | cons first rest ih =>
    rcases List.mem_cons.1 mem with rfl | later
    · exact ⟨_, List.mem_cons_self, first⟩
    · obtain ⟨item, inItems, done⟩ := ih later
      exact ⟨item, List.mem_cons_of_mem _ inItems, done⟩

/-- A pass over a list fails as the first item does on which it fails. -/
theorem mapM_eq_error {f : α → Except ε β} {items : List α} {fault : ε} :
    items.mapM f = .error fault ↔ ∃ before item after, items = before ++ item :: after ∧
      (∀ other ∈ before, ∃ b, f other = .ok b) ∧ f item = .error fault := by
  induction items with
  | nil => simp [pure, Except.pure]
  | cons item items ih =>
    rw [List.mapM_cons, bind_eq_error]
    constructor
    · rintro (failed | ⟨b, first, rest⟩)
      · exact ⟨[], item, items, rfl, by simp, failed⟩
      · rcases bind_eq_error.1 rest with later | ⟨_, _, ⟨⟩⟩
        obtain ⟨before, bad, after, rfl, good, failed⟩ := ih.1 later
        refine ⟨item :: before, bad, after, rfl, ?_, failed⟩
        exact List.forall_mem_cons.2 ⟨⟨b, first⟩, good⟩
    · rintro ⟨before, bad, after, split, good, failed⟩
      cases before with
      | nil =>
        cases split
        exact .inl failed
      | cons first before =>
        cases split
        obtain ⟨⟨b, done⟩, good⟩ := List.forall_mem_cons.1 good
        exact .inr ⟨b, done, bind_eq_error.2 (.inl (ih.2 ⟨before, bad, after, rfl, good, failed⟩))⟩

def fault? : Except ε α → Option ε
  | .ok _ => none
  | .error fault => some fault

theorem fault?_eq_some {outcome : Except ε α} {fault : ε} :
    fault? outcome = some fault ↔ outcome = .error fault := by
  cases outcome <;> simp [fault?]

theorem fault?_eq_none {outcome : Except ε α} :
    fault? outcome = none ↔ ∃ a, outcome = .ok a := by
  cases outcome <;> simp [fault?]

end PeriodicJobs.Outcome
