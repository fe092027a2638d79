import PeriodicJobs.Proofs.JobSet.Reading
import PeriodicJobs.Proofs.Run.Writing

set_option autoImplicit false

/- The lines of a job set. In either layout its text is cut at the line feeds into the lines of the
header, if the layout has one, and a line for each job. -/
namespace PeriodicJobs

namespace JobSet

/-- The header of the table without its line feed. -/
def headerLine : List Char := tableBody (columns.map String.toList)

theorem splitOn_lines {lines : List (List Char)} (noFeed : ∀ line ∈ lines, '\n' ∉ line) :
    (lines.flatMap (· ++ ['\n'])).splitOn '\n' = lines ++ [[]] := by
  induction lines with
  | nil => rfl
  | cons line lines ih =>
    have first := noFeed line List.mem_cons_self
    have others := ih fun other mem => noFeed other (List.mem_cons_of_mem _ mem)
    rw [List.flatMap_cons, List.append_assoc, List.singleton_append,
      List.splitOn_append_cons_self_of_not_mem first, others, List.cons_append]

def rangeExpression (min max : List Char) : List Char :=
  "range(".toList ++ min ++ ", ".toList ++ max ++ ")".toList

/-- The expression that builds a job, from the texts of its cells in the order of the columns. -/
def expression (taskId jobId arrivalMin arrivalMax costMin costMax deadline priority : List Char) :
    List Char :=
  "Job(".toList ++ [',', ' '].intercalate [jobId, rangeExpression arrivalMin arrivalMax,
    rangeExpression costMin costMax, deadline, priority, taskId] ++ [')']

def jobExpression (job : Job) (priority : Priority) : List Char :=
  expression (wordText job.taskId) (wordText job.id) (realText job.arrival.min)
    (realText job.arrival.max) (realText job.cost.min) (realText job.cost.max)
    (realText job.deadline) (priority.text {})

theorem initializerLine_eq (job : Job) (priority : Priority) :
    initializerLine job priority = jobExpression job priority ++ ['\n'] :=
  (List.append_assoc _ [')'] ['\n']).symm

theorem not_mem_expression {taskId jobId arrivalMin arrivalMax costMin costMax deadline
    priority : List Char}
    (noFeed : ∀ cell ∈ [taskId, jobId, arrivalMin, arrivalMax, costMin, costMax, deadline,
      priority], '\n' ∉ cell) :
    '\n' ∉ expression taskId jobId arrivalMin arrivalMax costMin costMax deadline priority := by
  simp only [List.mem_cons, List.not_mem_nil, or_false, forall_eq_or_imp, forall_eq] at noFeed
  unfold expression rangeExpression
  simp only [List.intercalate_cons_cons, List.intercalate_singleton, List.mem_append, noFeed]
  decide

end JobSet

namespace Layout

def headerLines : Layout → List (List Char)
  | .csv => [JobSet.headerLine]
  | .initializer => []

/-- The line of a job without its line feed. -/
def body (job : Job) (priority : Priority) : Layout → List Char
  | .csv => JobSet.tableBody (JobSet.cells job priority)
  | .initializer => JobSet.jobExpression job priority

theorem toList_header (layout : Layout) :
    layout.header.toList = layout.headerLines.flatMap (· ++ ['\n']) := by
  cases layout with
  | csv => exact String.toList_ofList
  | initializer => rfl

theorem toList_line (layout : Layout) (job : Job) (priority : Priority) :
    (layout.line job priority).toList = layout.body job priority ++ ['\n'] := by
  cases layout with
  | csv => exact String.toList_ofList
  | initializer =>
    rw [line, String.toList_ofList, JobSet.initializerLine_eq]
    rfl

theorem not_mem_headerLines (layout : Layout) : ∀ line ∈ layout.headerLines, '\n' ∉ line := by
  cases layout <;> decide +kernel

theorem not_mem_body (layout : Layout) (job : Job) (priority : Priority) :
    '\n' ∉ layout.body job priority := by
  cases layout with
  | csv => exact JobSet.not_mem_tableBody (JobSet.isPlain_cells job priority)
  | initializer =>
    apply JobSet.not_mem_expression
    intro cell mem feed
    cases (JobSet.isPlain_cells job priority cell mem '\n' feed).1

def bodies (layout : Layout) (rule : PriorityRule) (jobs : List Job) : List (List Char) :=
  jobs.map fun job => layout.body job (rule.priority job)

theorem toList_lines (layout : Layout) (rule : PriorityRule) (jobs : List Job) :
    (layout.lines rule jobs).toList = (layout.bodies rule jobs).flatMap (· ++ ['\n']) := by
  simp only [lines, bodies, String.toList_join, List.flatMap_map, toList_line]

end Layout

namespace Plan

def lines (plan : Plan) : List (List Char) :=
  plan.streams.flatMap fun (releases, rule) => plan.layout.bodies rule releases.jobs

theorem toList_text_lines (plan : Plan) :
    plan.text.toList = (plan.layout.headerLines ++ plan.lines).flatMap (· ++ ['\n']) := by
  simp only [text, lines, String.toList_append, String.toList_join, List.flatMap_append,
    List.flatMap_map, List.flatMap_assoc, Layout.toList_header, Layout.toList_lines]

/-- Between its line feeds the text of a plan has the lines of the header and one for each job. -/
theorem splitOn_text_lines (plan : Plan) :
    plan.text.toList.splitOn '\n' = plan.layout.headerLines ++ plan.lines ++ [[]] := by
  rw [toList_text_lines, JobSet.splitOn_lines]
  intro line mem
  rcases List.mem_append.1 mem with mem | mem
  · exact plan.layout.not_mem_headerLines line mem
  · obtain ⟨stream, _, mem⟩ := List.mem_flatMap.1 mem
    obtain ⟨job, _, rfl⟩ := List.mem_map.1 mem
    exact plan.layout.not_mem_body job _

theorem length_lines (plan : Plan) :
    plan.lines.length = (plan.streams.map fun s => s.1.remaining.toNat).sum := by
  rw [lines, List.length_flatMap]
  congr 1
  apply List.map_congr_left
  intro stream _
  simp only [Layout.bodies, List.length_map, Releases.length_jobs]

end Plan

end PeriodicJobs
