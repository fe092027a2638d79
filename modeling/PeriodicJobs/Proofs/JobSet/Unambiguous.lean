import PeriodicJobs.Proofs.JobSet.Alike
import PeriodicJobs.Proofs.Run.Lines

set_option autoImplicit false

/- Lines of a job set tell jobs apart. In either layout the texts of a job stand whole between the
commas of its line, so a line belongs to one job under one priority only. -/
namespace PeriodicJobs

namespace JobSet

variable {job job' : Job} {priority priority' : Priority}

theorem tableBody_eq_iff : tableBody (cells job priority) = tableBody (cells job' priority') ↔
    cells job priority = cells job' priority' := by
  refine ⟨fun same => ?_, congrArg tableBody⟩
  rw [← cells_of_tableBody rfl (isPlain_cells job priority), same,
    cells_of_tableBody rfl (isPlain_cells job' priority')]

/-- What stands between the commas of an expression, one piece for each cell. -/
def pieces (taskId jobId arrivalMin arrivalMax costMin costMax deadline priority : List Char) :
    List (List Char) :=
  ["Job(".toList ++ jobId, ' ' :: ("range(".toList ++ arrivalMin), ' ' :: (arrivalMax ++ [')']),
    ' ' :: ("range(".toList ++ costMin), ' ' :: (costMax ++ [')']), ' ' :: deadline,
    ' ' :: priority, ' ' :: (taskId ++ [')'])]

section

variable {taskId jobId arrivalMin arrivalMax costMin costMax deadline priority : List Char}

theorem expression_eq_intercalate :
    expression taskId jobId arrivalMin arrivalMax costMin costMax deadline priority =
      [','].intercalate
        (pieces taskId jobId arrivalMin arrivalMax costMin costMax deadline priority) := by
  have between : ", ".toList = [',', ' '] := by decide
  have closing : ")".toList = [')'] := by decide
  unfold expression rangeExpression pieces
  rw [between, closing]
  generalize "Job(".toList = job
  generalize "range(".toList = range
  simp [List.intercalate_cons_cons]

theorem splitOn_expression
    (noComma : ∀ cell ∈ [taskId, jobId, arrivalMin, arrivalMax, costMin, costMax, deadline,
      priority], ',' ∉ cell) :
    (expression taskId jobId arrivalMin arrivalMax costMin costMax deadline priority).splitOn ',' =
      pieces taskId jobId arrivalMin arrivalMax costMin costMax deadline priority := by
  have job : ',' ∉ "Job(".toList := by decide
  have range : ',' ∉ "range(".toList := by decide
  simp only [List.mem_cons, List.not_mem_nil, or_false, forall_eq_or_imp, forall_eq] at noComma
  rw [expression_eq_intercalate, List.splitOn_intercalate]
  · unfold pieces
    generalize "Job(".toList = opening at *
    generalize "range(".toList = opening' at *
    simp [noComma, job, range]
  · exact List.cons_ne_nil _ _

end

theorem jobExpression_eq_iff : jobExpression job priority = jobExpression job' priority' ↔
    cells job priority = cells job' priority' := by
  have noComma (job : Job) (priority : Priority) : ∀ cell ∈ cells job priority, ',' ∉ cell :=
    fun cell mem comma => (isPlain_cells job priority cell mem ',' comma).2 rfl
  constructor
  · intro same
    have split := congrArg (List.splitOn ',') same
    rw [jobExpression, jobExpression, splitOn_expression (noComma job priority),
      splitOn_expression (noComma job' priority')] at split
    simp only [pieces, List.cons.injEq, List.append_cancel_left_eq, List.append_cancel_right_eq,
      true_and, and_true] at split
    obtain ⟨jobId, arrivalMin, arrivalMax, costMin, costMax, deadline, number, taskId⟩ := split
    simp only [cells, List.cons.injEq, and_true]
    exact ⟨taskId, jobId, arrivalMin, arrivalMax, costMin, costMax, deadline, number⟩
  · intro same
    simp only [cells, List.cons.injEq, and_true] at same
    simp only [jobExpression, same]

end JobSet

/-- A line tells its job and its priority in either layout, up to which NaN an instant is. The same
line is never that of a deadline and of a rank. -/
theorem lines_are_unambiguous (layout : Layout) (job job' : Job) (priority priority' : Priority) :
    (layout.line job priority = layout.line job' priority' ↔
      job.Alike job' ∧ priority.Alike priority') ∧
    ∀ instant place,
      layout.line job (.deadline instant) ≠ layout.line job' (.rank place) := by
  have same {priority priority' : Priority} :
      layout.line job priority = layout.line job' priority' ↔
        job.Alike job' ∧ priority.Alike priority' := by
    rw [← JobSet.cells_eq_iff, ← String.toList_inj, Layout.toList_line, Layout.toList_line,
      List.append_cancel_right_eq]
    cases layout with
    | csv => exact JobSet.tableBody_eq_iff
    | initializer => exact JobSet.jobExpression_eq_iff
  refine ⟨same, fun instant place one => ?_⟩
  obtain ⟨_, alike⟩ := same.1 one
  cases alike

end PeriodicJobs
