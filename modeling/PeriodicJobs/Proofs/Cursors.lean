import PeriodicJobs.Proofs.Releases

set_option autoImplicit false

/- Scripts of steps over any number of cursors on the jobs of one task. A cursor is no more than a
place in one sequence of jobs: the place decides what it replies, and a step moves only the cursor
that it asks. -/
namespace PeriodicJobs

inductive Query where
  | next
  | nth (skipped : Nat)
  | take (limit : Nat)
  | length

inductive Reply where
  | job (job : Option Job)
  | jobs (jobs : List Job)
  | length (left : UInt64)
deriving DecidableEq

namespace Query

/-- The jobs that a query passes where so many are left. -/
def passes : Query → Nat
  | .next => 1
  | .nth skipped => skipped + 1
  | .take limit => limit
  | .length => 0

def reply (left : List Job) : Query → Reply
  | .next => .job left.head?
  | .nth skipped => .job left[skipped]?
  | .take limit => .jobs (left.take limit)
  | .length => .length (.ofNat left.length)

/-- The reply at a place in a sequence of jobs, and the place behind the query. -/
def replyAt (jobs : List Job) (query : Query) (place : Nat) : Reply × Nat :=
  (query.reply (jobs.drop place), min (place + query.passes) jobs.length)

def replies {σ : Type} (ask : Query → σ → Reply × σ) : List Query → σ → List Reply × σ
  | [], cursor => ([], cursor)
  | query :: queries, cursor =>
    let (reply, cursor) := ask query cursor
    let (replies, cursor) := replies ask queries cursor
    (reply :: replies, cursor)

end Query

namespace Releases

/-- The reply of a cursor, and the cursor behind the query. -/
def ask (query : Query) (r : Releases) : Reply × Releases :=
  match query with
  | .next =>
    let (job, r) := r.next?
    (.job job, r)
  | .nth skipped =>
    let (job, r) := r.nth? skipped
    (.job job, r)
  | .take limit =>
    let (jobs, r) := r.take limit
    (.jobs jobs, r)
  | .length => (.length r.remaining, r)

/-- The jobs that a cursor passes under some queries, whether it replies with them or skips them. -/
def passed : List Query → Releases → List Job
  | [], _ => []
  | query :: queries, r => (r.take query.passes).1 ++ passed queries (r.ask query).2

end Releases

/-- A step of a script. Cursors are known by the order in which they came up. -/
inductive Step where
  | ask (cursor : Nat) (query : Query)
  | clone (cursor : Nat)
  | restart

inductive Answer where
  | reply (reply : Reply)
  | cursor (index : Nat)
  | noCursor
deriving DecidableEq

namespace Step

def act {σ : Type} (ask : Query → σ → Reply × σ) (first : σ) (cursors : List σ) :
    Step → Answer × List σ
  | .ask cursor query =>
    match cursors[cursor]? with
    | some asked => (.reply (ask query asked).1, cursors.set cursor (ask query asked).2)
    | none => (.noCursor, cursors)
  | .clone cursor =>
    match cursors[cursor]? with
    | some source => (.cursor cursors.length, cursors ++ [source])
    | none => (.noCursor, cursors)
  | .restart => (.cursor cursors.length, cursors ++ [first])

def run {σ : Type} (ask : Query → σ → Reply × σ) (first : σ) :
    List Step → List σ → List Answer × List σ
  | [], cursors => ([], cursors)
  | step :: script, cursors =>
    let (answer, cursors) := step.act ask first cursors
    let (answers, cursors) := run ask first script cursors
    (answer :: answers, cursors)

def queriesTo (cursor : Nat) (script : List Step) : List Query :=
  script.filterMap fun
    | .ask asked query => if asked = cursor then some query else none
    | .clone _ => none
    | .restart => none

def repliesOf (cursor : Nat) (script : List Step) (answers : List Answer) : List Reply :=
  (script.zip answers).filterMap fun
    | (.ask asked _, .reply reply) => if asked = cursor then some reply else none
    | _ => none

end Step

namespace Releases

/-- A cursor is its task, the number of its jobs and its place among them. -/
theorem eq_of_place {r s : Releases} (task : r.task = s.task) (count : r.count = s.count)
    (place : r.next.toNat = s.next.toNat) : r = s := by
  obtain ⟨task₁, next₁, count₁, le₁⟩ := r
  obtain ⟨task₂, next₂, count₂, le₂⟩ := s
  cases task
  cases count
  cases UInt64.toNat_inj.1 place
  rfl

theorem advance_advance (r : Releases) (m n : Nat) :
    (r.advance m).advance n = r.advance (m + n) := by
  apply eq_of_place
  · simp only [task_advance]
  · simp only [count_advance]
  · simp only [toNat_next_advance, count_advance]
    omega

theorem next_le (r : Releases) : r.next.toNat ≤ r.count.toNat :=
  UInt64.le_iff_toNat_le.1 r.next_le_count

/-- Steps behind the last job do not count. -/
theorem advance_congr (r : Releases) {m n : Nat}
    (same : min m r.remaining.toNat = min n r.remaining.toNat) : r.advance m = r.advance n := by
  have left := r.remaining_toNat
  have inside := r.next_le
  apply eq_of_place
  · simp only [task_advance]
  · simp only [count_advance]
  · simp only [toNat_next_advance]
    omega

theorem advance_zero (r : Releases) : r.advance 0 = r := by
  have inside := r.next_le
  apply eq_of_place
  · exact task_advance r 0
  · exact count_advance r 0
  · rw [toNat_next_advance]
    omega

/-- A cursor behind the last job stays there. -/
theorem advance_of_ended {r : Releases} (ended : r.remaining.toNat = 0) (steps : Nat) :
    r.advance steps = r := by
  rw [r.advance_congr (n := 0) (by omega), advance_zero]

theorem getElem?_jobs (r : Releases) (k : Nat) :
    r.jobs[k]? = if k < r.remaining.toNat then
      some (r.task.job (.ofNat (r.next.toNat + k))) else none := by
  rw [jobs, take_eq _ _ (Nat.le_refl _), List.getElem?_map]
  split
  · rename_i inside
    rw [List.getElem?_range inside, Option.map_some]
  · rename_i outside
    rw [List.getElem?_eq_none (by simpa using outside), Option.map_none]

/-- A cursor that has gone on has the rest of its jobs left. -/
theorem jobs_advance (r : Releases) (steps : Nat) :
    (r.advance steps).jobs = r.jobs.drop steps := by
  have left := r.remaining_toNat
  apply List.ext_getElem?
  intro k
  rw [List.getElem?_drop, getElem?_jobs, getElem?_jobs, task_advance, toNat_remaining_advance,
    toNat_next_advance]
  by_cases inside : steps + k < r.remaining.toNat
  · rw [if_pos inside, if_pos (by omega), Nat.min_eq_left (by omega), Nat.add_assoc]
  · rw [if_neg inside, if_neg (by omega)]

theorem next?_eq (r : Releases) : r.next? = (r.jobs.head?, r.advance 1) := by
  have first := r.getElem?_jobs 0
  rw [← List.head?_eq_getElem?] at first
  by_cases more : 0 < r.remaining.toNat
  · rw [if_pos more, Nat.add_zero, UInt64.ofNat_toNat] at first
    rw [next?, if_pos (r.next_lt_iff.2 more), first]
  · rw [if_neg more] at first
    rw [next?, if_neg (mt r.next_lt_iff.1 more), first, advance_of_ended (by omega)]

theorem nth?_eq (r : Releases) (skipped : Nat) :
    r.nth? skipped = (r.jobs[skipped]?, r.advance (skipped + 1)) := by
  rw [nth?, next?_eq, jobs_advance, List.head?_drop, advance_advance]

theorem take_eq_advance (limit : Nat) (r : Releases) :
    r.take limit = (r.jobs.take limit, r.advance limit) := by
  induction limit generalizing r with
  | zero => rw [take, advance_zero, List.take_zero]
  | succ limit ih =>
    have rest := r.jobs_advance 1
    rw [take, next?_eq]
    cases left : r.jobs with
    | nil =>
      have ended : r.remaining.toNat = 0 := by rw [← length_jobs, left, List.length_nil]
      simp only [List.head?_nil, List.take_nil, advance_of_ended ended]
    | cons job jobs =>
      rw [left, List.drop_succ_cons, List.drop_zero] at rest
      simp only [List.head?_cons, ih, rest, advance_advance, List.take_succ_cons,
        Nat.add_comm 1 limit]

/-- What is left decides the reply, and the query decides how far the cursor goes. -/
theorem ask_eq (query : Query) (r : Releases) :
    r.ask query = (query.reply r.jobs, r.advance query.passes) := by
  cases query with
  | next => simp only [ask, next?_eq, Query.reply, Query.passes]
  | nth skipped => simp only [ask, nth?_eq, Query.reply, Query.passes]
  | take limit => simp only [ask, take_eq_advance, Query.reply, Query.passes]
  | length =>
    simp only [ask, Query.reply, Query.passes, advance_zero, length_jobs, UInt64.ofNat_toNat]

/-- Queries never move a cursor that is behind the last job. -/
theorem replies_of_ended {r : Releases} (ended : r.remaining.toNat = 0) (queries : List Query) :
    (Query.replies ask queries r).2 = r := by
  induction queries with
  | nil => rfl
  | cons query queries ih => simp only [Query.replies, ask_eq, advance_of_ended ended, ih]

/-- No job is lost between two queries, none comes twice, and none out of order. -/
theorem jobs_eq_passed_append (queries : List Query) (r : Releases) :
    r.jobs = passed queries r ++ (Query.replies ask queries r).2.jobs := by
  induction queries generalizing r with
  | nil => rfl
  | cons query queries ih =>
    simp only [passed, Query.replies, List.append_assoc, ← ih]
    rw [take_eq_advance, ask_eq, jobs_advance, List.take_append_drop]

/-- A cursor that has been moved from the first job replies as its place does. -/
theorem ask_advance (first : Releases) (query : Query) (place : Nat) :
    (first.advance place).ask query =
      ((query.replyAt first.jobs place).1, first.advance (query.replyAt first.jobs place).2) := by
  have behind : first.advance (place + query.passes) =
      first.advance (min (place + query.passes) first.jobs.length) := by
    apply advance_congr
    rw [length_jobs]
    omega
  rw [ask_eq, jobs_advance, advance_advance, Query.replyAt, behind]

end Releases

namespace Step

section

variable {σ τ : Type} {ask : Query → σ → Reply × σ} {ask' : Query → τ → Reply × τ} (first : σ)

/-- Cursors that stand for others and reply as they do can be put in their places. -/
theorem act_map {f : σ → τ}
    (stands : ∀ query cursor, ask' query (f cursor) = ((ask query cursor).1, f (ask query cursor).2))
    (step : Step) (cursors : List σ) :
    step.act ask' (f first) (cursors.map f) =
      ((step.act ask first cursors).1, (step.act ask first cursors).2.map f) := by
  cases step with
  | ask cursor query =>
    simp only [act, List.getElem?_map]
    cases cursors[cursor]? with
    | none => rfl
    | some asked => simp only [Option.map_some, stands, List.map_set]
  | clone cursor =>
    simp only [act, List.getElem?_map, List.length_map]
    cases cursors[cursor]? with
    | none => rfl
    | some source => simp only [Option.map_some, List.map_append, List.map_cons, List.map_nil]
  | restart => simp only [act, List.length_map, List.map_append, List.map_cons, List.map_nil]

theorem run_map {f : σ → τ}
    (stands : ∀ query cursor, ask' query (f cursor) = ((ask query cursor).1, f (ask query cursor).2))
    (script : List Step) (cursors : List σ) :
    run ask' (f first) script (cursors.map f) =
      ((run ask first script cursors).1, (run ask first script cursors).2.map f) := by
  induction script generalizing cursors with
  | nil => rfl
  | cons step script ih => simp only [run, act_map first stands, ih]

variable {first}

/-- What a query keeps holds of all cursors, as no step makes any other. -/
theorem forall_act {P : σ → Prop} (start : P first)
    (keeps : ∀ query cursor, P cursor → P (ask query cursor).2) (step : Step) {cursors : List σ}
    (before : ∀ cursor ∈ cursors, P cursor) :
    ∀ cursor ∈ (step.act ask first cursors).2, P cursor := by
  cases step with
  | ask cursor query =>
    simp only [act]
    cases found : cursors[cursor]? with
    | none => exact before
    | some asked =>
      intro c mem
      rcases List.mem_or_eq_of_mem_set mem with old | rfl
      · exact before c old
      · exact keeps query asked (before asked (List.mem_of_getElem? found))
  | clone cursor =>
    simp only [act]
    cases found : cursors[cursor]? with
    | none => exact before
    | some source =>
      rw [List.forall_mem_append, List.forall_mem_singleton]
      exact ⟨before, before source (List.mem_of_getElem? found)⟩
  | restart =>
    simp only [act]
    rw [List.forall_mem_append, List.forall_mem_singleton]
    exact ⟨before, start⟩

theorem forall_run {P : σ → Prop} (start : P first)
    (keeps : ∀ query cursor, P cursor → P (ask query cursor).2) (script : List Step)
    {cursors : List σ} (before : ∀ cursor ∈ cursors, P cursor) :
    ∀ cursor ∈ (run ask first script cursors).2, P cursor := by
  induction script generalizing cursors with
  | nil => exact before
  | cons step script ih => exact ih (forall_act start keeps step before)

variable (ask) (first)

/-- A step moves the cursor that it asks, and no other. -/
theorem getElem?_act {cursors : List σ} {cursor : Nat} {c : σ} (found : cursors[cursor]? = some c)
    (step : Step) :
    (step.act ask first cursors).2[cursor]? =
        some (Query.replies ask (queriesTo cursor [step]) c).2 ∧
      repliesOf cursor [step] [(step.act ask first cursors).1] =
        (Query.replies ask (queriesTo cursor [step]) c).1 := by
  obtain ⟨inside, _⟩ := List.getElem?_eq_some_iff.1 found
  cases step with
  | ask asked query =>
    by_cases same : asked = cursor
    · subst same
      simp only [act, found]
      simp [queriesTo, repliesOf, Query.replies, inside]
    · cases other : cursors[asked]? <;>
        simp [act, queriesTo, repliesOf, Query.replies, other, found, same]
  | clone source =>
    cases other : cursors[source]? <;>
      simp [act, queriesTo, repliesOf, Query.replies, other, found,
        List.getElem?_append_left inside]
  | restart =>
    simp [act, queriesTo, repliesOf, Query.replies, found, List.getElem?_append_left inside]

theorem replies_append (before after : List Query) (c : σ) :
    Query.replies ask (before ++ after) c =
      ((Query.replies ask before c).1 ++ (Query.replies ask after (Query.replies ask before c).2).1,
        (Query.replies ask after (Query.replies ask before c).2).2) := by
  induction before generalizing c with
  | nil => rfl
  | cons query before ih => simp only [List.cons_append, Query.replies, ih]

/-- Among all others, a cursor replies to its queries as it would alone. -/
theorem getElem?_run {cursors : List σ} {cursor : Nat} {c : σ} (found : cursors[cursor]? = some c)
    (script : List Step) :
    (run ask first script cursors).2[cursor]? =
        some (Query.replies ask (queriesTo cursor script) c).2 ∧
      repliesOf cursor script (run ask first script cursors).1 =
        (Query.replies ask (queriesTo cursor script) c).1 := by
  induction script generalizing cursors c with
  | nil => exact ⟨found, rfl⟩
  | cons step script ih =>
    obtain ⟨moved, replied⟩ := getElem?_act ask first found step
    obtain ⟨moved', replied'⟩ := ih moved
    have queries : queriesTo cursor (step :: script) =
        queriesTo cursor [step] ++ queriesTo cursor script := by
      simp only [queriesTo, ← List.filterMap_append, List.singleton_append]
    have replies (answer : Answer) (answers : List Answer) :
        repliesOf cursor (step :: script) (answer :: answers) =
          repliesOf cursor [step] [answer] ++ repliesOf cursor script answers := by
      simp only [repliesOf, ← List.filterMap_append, List.zip_cons_cons, List.zip_nil_left,
        List.singleton_append]
    simp only [run, queries, replies, replies_append, moved', replied, replied', and_self]

end

end Step

namespace Task

/-- A cursor at a place inside the sequence of all jobs has the jobs behind the place left. -/
theorem advance_start (task : Task) (count : UInt64) {place : Nat} (inside : place ≤ count.toNat) :
    ((task.start count).advance place).next.toNat = place ∧
      ((task.start count).advance place).remaining.toNat = count.toNat - place ∧
      ((task.start count).advance place).jobs = (task.start count).jobs.drop place := by
  have next : (task.start count).next.toNat = 0 := rfl
  have whole : (task.start count).count = count := rfl
  have left := (task.start count).remaining_toNat
  refine ⟨?_, ?_, Releases.jobs_advance _ _⟩
  · rw [Releases.toNat_next_advance, next, whole]
    omega
  · rw [Releases.toNat_remaining_advance, left, next, whole]
    omega

/-- Whatever steps a script takes with cursors on the jobs of a task, each cursor has a place in one
sequence of jobs, at first the start or the place of the cursor that it was cloned from. It answers
as its place does and passes the jobs behind it one after another, as if there were no other. -/
theorem cursors_walk_one_sequence {task : Task} (origin : task.phase.isZero = true)
    (span : Binary64) :
    ∃ first, task.releases span = .ok first ∧ task.IsSequence span (task.jobs span) ∧
      ∀ script : List Step,
        let (answers, cursors) := Step.run Releases.ask first script [first]
        let (answersThere, places) := Step.run (Query.replyAt (task.jobs span)) 0 script [0]
        answers = answersThere ∧ cursors.map (fun r => r.next.toNat) = places ∧
        (∀ r ∈ cursors, r.next.toNat ≤ (task.jobCount span).toNat ∧
          r.remaining.toNat = (task.jobCount span).toNat - r.next.toNat ∧
          r.jobs = (task.jobs span).drop r.next.toNat) ∧
        ∀ (cursor : Nat) (r : Releases), cursors[cursor]? = some r → ∀ later : List Step,
          let own := Step.queriesTo cursor later
          let (replies, behind) := Query.replies Releases.ask own r
          let (answers, cursors) := Step.run Releases.ask first later cursors
          cursors[cursor]? = some behind ∧ Step.repliesOf cursor later answers = replies ∧
          r.jobs = Releases.passed own r ++ behind.jobs ∧
          (r.remaining.toNat = 0 → behind = r) := by
  have released := releases_of_phase origin span
  have sequence := isSequence_jobs released
  have jobs := jobs_eq_of_releases released
  have length : (task.jobs span).length = (task.jobCount span).toNat := sequence.length
  refine ⟨_, released, sequence, fun script => ?_⟩
  -- Every cursor is the first one moved to its place, and no place is behind the last job.
  have stand := Step.run_map 0 (task.start (task.jobCount span)).ask_advance script [0]
  have start : ∀ place ∈ [0], place ≤ (task.jobs span).length :=
    List.forall_mem_singleton.2 (Nat.zero_le _)
  have keeps (query : Query) (place : Nat) (_ : place ≤ (task.jobs span).length) :
      (query.replyAt (task.jobs span) place).2 ≤ (task.jobs span).length := Nat.min_le_right _ _
  have inside := Step.forall_run (P := fun place => place ≤ (task.jobs span).length)
    (Nat.zero_le _) keeps script start
  rw [List.map_singleton, Releases.advance_zero, jobs] at stand
  rw [length] at inside
  simp only [stand, true_and]
  refine ⟨?_, ?_, fun cursor r found later => ?_⟩
  · rw [List.map_map]
    refine (List.map_congr_left fun place mem => ?_).trans (List.map_id _)
    exact (advance_start task _ (inside place mem)).1
  · intro r mem
    obtain ⟨place, inPlaces, rfl⟩ := List.mem_map.1 mem
    obtain ⟨next, remaining, left⟩ := advance_start task _ (inside place inPlaces)
    rw [next, remaining, left, jobs]
    exact ⟨inside place inPlaces, rfl, rfl⟩
  · obtain ⟨moved, replied⟩ :=
      Step.getElem?_run Releases.ask (task.start (task.jobCount span)) found later
    exact ⟨moved, replied, Releases.jobs_eq_passed_append _ r,
      fun ended => Releases.replies_of_ended ended _⟩

/-- Three jobs: a copy made behind the first does not see the original skip one and end, and a new
cursor starts over. -/
theorem cursors_walk_one_sequence_three :
    let task := Task.periodic 1 (.ofNat 3) (.point .one)
    ∃ first, task.releases (.ofNat 9) = .ok first ∧
      (Step.run Releases.ask first
        [.ask 0 .next, .clone 0, .ask 0 (.nth 1), .ask 0 .next, .ask 1 .length, .restart,
          .ask 2 (.take 2)] [first]).1 =
        [.reply (.job (some (task.job 0))), .cursor 1, .reply (.job (some (task.job 2))),
          .reply (.job none), .reply (.length 2), .cursor 2,
          .reply (.jobs [task.job 0, task.job 1])] := by
  intro task
  have origin : task.phase.isZero = true := by decide
  obtain ⟨first, released, _, walks⟩ := cursors_walk_one_sequence origin (.ofNat 9)
  exact ⟨first, released, (walks _).1.trans (by decide +kernel)⟩

end Task

end PeriodicJobs
