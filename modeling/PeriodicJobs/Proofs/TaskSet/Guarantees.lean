import PeriodicJobs.Proofs.TaskSet.Ranges
import PeriodicJobs.Proofs.TaskSet.Rows

set_option autoImplicit false

/- What a task that has been read from a table guarantees. A bound of a range is never checked to
be finite, so infinity can stand in a window, but it has no sign and the bounds are in order. -/
namespace PeriodicJobs

/-- Bounds in order, neither of them with a sign. -/
structure Window.IsForward (window : Window) : Prop where
  ordered : window.min ≤ window.max
  min_unsigned : window.min.IsUnsigned
  max_unsigned : window.max.IsUnsigned

/-- What the cells of a row guarantee together. The period can still be a zero of either sign. -/
structure Task.IsRead (task : Task) : Prop where
  period_finite : task.period.isFinite = true
  period_not_negative : ¬ task.period < .zero
  phase_finite : task.phase.isFinite = true
  deadline_finite : task.deadline.isFinite = true
  cost_forward : task.cost.IsForward
  jitter_forward : task.jitter.IsForward

namespace Cell

theorem real_ok {text : List Char} {x : Binary64} (read : real text = .ok x) :
    x.isFinite = true := by
  unfold real at read
  split at read
  · cases read
  · split at read
    · rename_i finite
      cases read
      exact finite
    · cases read

theorem nonNegative_ok {text : List Char} {x : Binary64} (read : nonNegative text = .ok x) :
    x.isFinite = true ∧ ¬ x < .zero := by
  obtain ⟨y, finite, rest⟩ := Outcome.bind_eq_ok.1 read
  split at rest
  · cases rest
  · rename_i notNegative
    cases rest
    exact ⟨real_ok finite, notNegative⟩

end Cell

theorem Window.IsSpelled.isForward {window : Window} {text : List Char}
    (spelled : window.IsSpelled text) : window.IsForward := by
  obtain ⟨low, high, ⟨lowPlain, highPlain⟩, _, ordered, rfl⟩ := spelled
  exact ⟨ordered, lowPlain.isUnsigned, highPlain.isUnsigned⟩

theorem Window.isForward_origin : (Window.point .zero).IsForward :=
  ⟨by decide, ⟨_, _, rfl⟩, ⟨_, _, rfl⟩⟩

theorem Cell.jitter_ok {text : List Char} {window : Window} (read : jitter text = .ok window) :
    window.IsForward := by
  rcases jitter_eq_ok.1 read with ⟨_, rfl⟩ | spelled
  · exact Window.isForward_origin
  · exact spelled.isForward

theorem Task.IsMadeOf.isRead {task : Task} {text : Column → List Char}
    (made : task.IsMadeOf text) : task.IsRead where
  period_finite := (Cell.nonNegative_ok made.period).1
  period_not_negative := (Cell.nonNegative_ok made.period).2
  phase_finite := Cell.real_ok made.phase
  deadline_finite := Cell.real_ok made.deadline
  cost_forward := (Cell.range_eq_ok.1 made.cost).isForward
  jitter_forward := Cell.jitter_ok made.jitter

namespace TaskSet

theorem ofBytes_ok {bytes : List UInt8} {tasks : List Task} (read : ofBytes bytes = .ok tasks) :
    ∀ t ∈ tasks, t.IsRead := by
  intro t mem
  obtain ⟨_, _, _, _, _, _, _, made⟩ := exists_row_of_mem read mem
  exact made.isRead

end TaskSet

end PeriodicJobs
