import PeriodicJobs.Proofs.Decimal.Grammar
import PeriodicJobs.Proofs.TaskSet.Ranges

set_option autoImplicit false

/- The grammar of task names. A name frames two numbers with one space between them. The first one
is the task and has to be a 64-bit word, and of the second one only the digits are looked at. -/
namespace PeriodicJobs

open Decimal (IsNumber)

namespace Cell

def nameText (id number : List Char) : List Char :=
  "T(".toList ++ ((id ++ ([' '] ++ number)) ++ ")".toList)

/-- A text that names a task: a name whose first number is the task. -/
def Names (text : List Char) (task : UInt64) : Prop :=
  ∃ id number, (IsNumber id ∧ IsNumber number) ∧ text = nameText id number ∧
    Decimal.ofDigits id = task.toNat

theorem isDigits_iff {text : List Char} : isDigits text = true ↔ IsNumber text := by
  simp only [isDigits, Bool.and_eq_true, Bool.not_eq_true', List.isEmpty_eq_false_iff,
    List.all_eq_true]
  exact ⟨fun both => ⟨both.1, both.2⟩, fun number => ⟨number.some_digit, number.all_digits⟩⟩

/-- No digit is a space, so the first space of a name is the one between its numbers. -/
theorem split_nameText {id : List Char} (isId : IsNumber id) (number : List Char) :
    (inside? "T(".toList ")".toList (nameText id number)).bind (splitOnce? [' ']) =
      some (id, number) := by
  have framed : inside? "T(".toList ")".toList (nameText id number) =
      some (id ++ ([' '] ++ number)) := inside?_eq_some.2 rfl
  have apart : ' ' ∉ id := by
    intro mem
    cases isId.all_digits ' ' mem
  rw [framed, Option.bind_some, splitOnce?_append apart]

theorem taskId_nameText {id number : List Char} (isId : IsNumber id) (isNumber : IsNumber number)
    {task : UInt64} :
    taskId (nameText id number) = .ok task ↔ Decimal.ofDigits id = task.toNat := by
  rw [← Decimal.word?_eq_some isId]
  simp only [taskId, split_nameText isId, isDigits_iff.2 isId, isDigits_iff.2 isNumber,
    Bool.and_self, ↓reduceIte]
  cases Decimal.word? id <;> simp

theorem taskId_eq_ok {text : List Char} {task : UInt64} :
    taskId text = .ok task ↔ Names text task := by
  constructor
  · intro read
    have whole := read
    rw [taskId] at read
    split at read
    · cases read
    · rename_i id number parts
      split at read
      · rename_i digits
        obtain ⟨inner, framed, split⟩ := Option.bind_eq_some_iff.1 parts
        rw [inside?_eq_some, splitOnce?_eq_some split] at framed
        rw [Bool.and_eq_true, isDigits_iff, isDigits_iff] at digits
        subst framed
        exact ⟨id, number, digits, rfl, (taskId_nameText digits.1 digits.2).1 whole⟩
      · cases read
  · rintro ⟨id, number, ⟨isId, isNumber⟩, rfl, same⟩
    exact (taskId_nameText isId isNumber).2 same

/-- There is one fault of names. -/
theorem taskId_eq_error {text : List Char} {reason : CellFault}
    (failed : taskId text = .error reason) : reason = .badTaskName := by
  rw [taskId] at failed
  split at failed
  · cases failed
    rfl
  · split at failed
    · split at failed <;> cases failed
      rfl
    · cases failed
      rfl

/-- A task is read from a text just if the text names it, and every other text has the same fault.
A name whose first number is no word is such a text. -/
theorem names_decide_tasks (text : List Char) :
    (∀ task, taskId text = .ok task ↔ Names text task) ∧
    (∀ reason, taskId text = .error reason ↔
      reason = .badTaskName ∧ ∀ task, ¬ Names text task) ∧
    ∀ id number, IsNumber id → IsNumber number → text = nameText id number →
      2 ^ 64 ≤ Decimal.ofDigits id → taskId text = .error .badTaskName := by
  have refused (unnamed : ∀ task, ¬ Names text task) : taskId text = .error .badTaskName := by
    cases read : taskId text with
    | ok task => exact absurd (taskId_eq_ok.1 read) (unnamed task)
    | error reason => rw [taskId_eq_error read]
  refine ⟨fun task => taskId_eq_ok, fun reason => ⟨fun failed => ?_, ?_⟩, ?_⟩
  · refine ⟨taskId_eq_error failed, fun task named => ?_⟩
    rw [taskId_eq_ok.2 named] at failed
    cases failed
  · rintro ⟨rfl, unnamed⟩
    exact refused unnamed
  · rintro id number isId isNumber rfl large
    apply refused
    intro task named
    have same := (taskId_nameText isId isNumber).1 (taskId_eq_ok.2 named)
    have small := task.toNat_lt
    omega

/-- Zeros in front of both numbers, and a number that is one too large. -/
theorem names_decide_tasks_zeros :
    taskId "T(007 00)".toList = .ok 7 ∧
      taskId "T(18446744073709551616 1)".toList = .error .badTaskName := by
  have number (text : List Char) (digits : isDigits text = true) : IsNumber text :=
    isDigits_iff.1 digits
  constructor
  · apply ((names_decide_tasks _).1 7).2
    exact ⟨"007".toList, "00".toList, ⟨number _ (by decide), number _ (by decide)⟩, by decide,
      by decide⟩
  · exact (names_decide_tasks _).2.2 "18446744073709551616".toList "1".toList
      (number _ (by decide)) (number _ (by decide)) (by decide) (by decide)

end Cell

end PeriodicJobs
