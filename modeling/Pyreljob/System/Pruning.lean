import Pyreljob.Lib.Amid
import Pyreljob.System.Tick

/-!
Pruning.

`prune_runs` selects the runs that finished before a given time, and deletes them and their tasks in
another transaction, by their ids. It does not look at the runs again. It need not: no statement puts a
run back in flight that has finished, and ids are not used twice. But it may meet rows of `tasks` that
name a run which somebody else has deleted in the meantime; a worker that has lost its run leaves them.
-/

namespace Pyreljob

open Lib Relation

/-- A transaction of somebody else commits, and no id is used twice. -/
def Elsewhere (db db' : DB) : Prop :=
  ∃ (c : Call) (e : Env) (y : Except Exc c.Reply), e.Fresh db ∧ c.exec db e = some (db', y)

/-- The run has finished, before the time. -/
def FinishedBefore (t : Time) (r : RunRow) : Prop := r.status.isDone ∧ r.finishedAt.any (· < t)

instance (t : Time) : DecidablePred (FinishedBefore t) :=
  fun _ => inferInstanceAs (Decidable (_ ∧ _))

def RunGoes (db db' : DB) (i : ℕ) : Prop := (db.runs.get? i).isSome ∧ db'.runs.get? i = none

/-- **What a deletion of `prune_runs` does**, where `db₀` is the database when it selected. -/
structure Prunes (t : Time) (db₀ db db' : DB) : Prop where
  /-- A run that is deleted is done, and had finished before the time when it was selected. -/
  old : ∀ i r, db.runs.get? i = some r → db'.runs.get? i = none →
    r.status.isDone ∧ ∃ r₀, db₀.runs.get? i = some r₀ ∧ FinishedBefore t r₀
  /-- A run that is not deleted stays as it is. -/
  kept : ∀ i, db'.runs.get? i = none ∨ db'.runs.get? i = db.runs.get? i
  jobs : db'.jobs = db.jobs
  /-- The tasks of a run that is deleted go with it. -/
  tasks : ∀ k t, db.tasks.get? k = some t → RunGoes db db' t.runId → db'.tasks.get? k = none
  /-- A task that is not deleted stays as it is. -/
  others : ∀ k, db'.tasks.get? k = none ∨ db'.tasks.get? k = db.tasks.get? k
  /-- No other task goes, but what is left of a selected run that somebody else has deleted. -/
  left : ∀ k t', db.tasks.get? k = some t' → db'.tasks.get? k = none → RunGoes db db' t'.runId ∨
    (db.runs.get? t'.runId = none ∧ ∃ r₀, db₀.runs.get? t'.runId = some r₀ ∧ FinishedBefore t r₀)

/-- Every task that is deleted is one of a run that is deleted with it. -/
def TasksOnlyWithRuns (db db' : DB) : Prop :=
  ∀ k t, db.tasks.get? k = some t → db'.tasks.get? k = none → RunGoes db db' t.runId

section

variable {db db' db₀ : DB} {t : Time} {i : ℕ}

lemma mem_selectPrunable : i ∈ db.selectPrunable t ↔
    ∃ r, db.runs.get? i = some r ∧ FinishedBefore t r :=
  Table.mem_keys_select

/-- **A run that is done stays done**, whatever happens elsewhere. -/
lemma done_elsewhere (h : ReflTransGen Elsewhere db₀ db) {r₀ r : RunRow}
    (hr₀ : db₀.runs.get? i = some r₀) (hd : r₀.status.isDone) (hr : db.runs.get? i = some r) :
    r.status.isDone := by
  have hstay : i < db.runs.seq ∧ ∀ r, db.runs.get? i = some r → r.status.isDone := by
    clear hr
    induction h with
    | refl =>
      refine ⟨Table.lt_seq_of_get? hr₀, fun r hr => ?_⟩
      rw [hr₀] at hr
      exact Option.some.inj hr ▸ hd
    | tail _ hmove ih =>
      obtain ⟨hseq, hdone⟩ := ih
      obtain ⟨c, e, y, hfresh, hx⟩ := hmove
      refine ⟨hseq.trans_le (exec_runs_seq hx), fun r hr => ?_⟩
      rw [RunStatus.isDone_eq_not_inFlight, Bool.not_eq_true', Bool.eq_false_iff]
      intro hfl
      have hrow := exec_run hx i
      rw [hr] at hrow
      rcases hrow.inFlight hfl with ⟨-, hi, -⟩ | ⟨r₁, hr₁, hfl₁, -⟩
      · have hnew := hfresh.2.1
        omega
      · have hdone₁ := hdone r₁ hr₁
        rw [RunStatus.isDone_eq_not_inFlight, hfl₁] at hdone₁
        cases hdone₁
  exact hstay.2 r hr

lemma get?_deleteRuns (db : DB) (ids : List ℕ) (i : ℕ) :
    (db.deleteRuns ids).runs.get? i = if i ∈ ids then none else db.runs.get? i := by
  simp only [DB.deleteRuns, Table.get?_delete]
  cases hr : db.runs.get? i with
  | none => simp
  | some r =>
    have hid := run_id_of_get? hr
    by_cases hi : i ∈ ids <;> simp [Option.filter, hid, hi]

lemma get?_deleteRuns_tasks (db : DB) (ids : List ℕ) (k : ℕ) :
    (db.deleteRuns ids).tasks.get? k = (db.tasks.get? k).filter fun t => t.runId ∉ ids := by
  simp [DB.deleteRuns]

lemma runId_of_deleted {ids : List ℕ} {k : ℕ} {task : TaskRow} (hk : db.tasks.get? k = some task)
    (hgone : (db.deleteRuns ids).tasks.get? k = none) : task.runId ∈ ids := by
  rw [get?_deleteRuns_tasks, hk] at hgone
  by_contra hne
  simp [Option.filter, hne] at hgone

/-- **A deletion of what was selected before**, whatever has happened elsewhere in between. -/
lemma deleteRuns_prunes (h : ReflTransGen Elsewhere db₀ db) :
    Prunes t db₀ db (db.deleteRuns (db₀.selectPrunable t)) := by
  have hgoes : ∀ i, RunGoes db (db.deleteRuns (db₀.selectPrunable t)) i ↔
      (db.runs.get? i).isSome ∧ i ∈ db₀.selectPrunable t := by
    intro i
    unfold RunGoes
    rw [get?_deleteRuns]
    refine and_congr_right fun hsome => ⟨fun hnone => ?_, fun hi => if_pos hi⟩
    by_contra hi
    rw [if_neg hi] at hnone
    rw [hnone] at hsome
    cases hsome
  refine ⟨fun i r hr hgone => ?_, fun i => ?_, rfl, fun k task hk hrun => ?_, fun k => ?_,
    fun k task hk hgone => ?_⟩
  · obtain ⟨-, hi⟩ := (hgoes i).1 ⟨by simp [hr], hgone⟩
    obtain ⟨r₀, hr₀, hold⟩ := mem_selectPrunable.1 hi
    exact ⟨done_elsewhere h hr₀ hold.1 hr, r₀, hr₀, hold⟩
  · rw [get?_deleteRuns]
    split
    · exact .inl rfl
    · exact .inr rfl
  · rw [get?_deleteRuns_tasks, hk]
    simp [Option.filter, ((hgoes _).1 hrun).2]
  · rw [get?_deleteRuns_tasks]
    cases db.tasks.get? k with
    | none => exact .inl rfl
    | some task =>
      by_cases hi : task.runId ∈ db₀.selectPrunable t
      · exact .inl (by simp [Option.filter, hi])
      · exact .inr (by simp [Option.filter, hi])
  · have hi := runId_of_deleted hk hgone
    cases hr : db.runs.get? task.runId with
    | none => exact .inr ⟨rfl, mem_selectPrunable.1 hi⟩
    | some r => exact .inl ((hgoes _).2 ⟨by simp [hr], hi⟩)

lemma selectPrunable_answer {a : Answer} {ids : List ℕ}
    (h : answer db (.db (.selectPrunable t)) a = some (db', .ok ids)) :
    db' = db ∧ ids = db.selectPrunable t := by
  cases a with
  | commit e =>
    cases h
    exact ⟨rfl, rfl⟩
  | _ => cases h

/-- **A deletion that a call of `prune` commits** is one of what the call has selected, with nothing but
the transactions of others in between. -/
lemma prune_deletes {age : ℤ} {log : List (Answered DB Answer Req Req.Reply Exc)} {q : Io ℕ} {s s' : DB}
    (h : (JobManager.prune age).Amid answer Elsewhere s log q s') {ids : List ℕ} {e : Env}
    {y : Except Exc Unit} (hev : ⟨.db (.deleteRuns ids), .commit e, y, db, db'⟩ ∈ log) :
    ∃ now a db₀, ⟨.db (.selectPrunable (now - age)), a, .ok ids, db₀, db₀⟩ ∈ log ∧
      ids = db₀.selectPrunable (now - age) ∧ ReflTransGen Elsewhere db₀ db ∧ db' = db.deleteRuns ids := by
  unfold JobManager.prune at h
  rcases Prog.amid_call_bind h with rfl | ⟨s₁, a₁, y₁, s₂, l₁, -, ha₁, rfl, h₁⟩
  · cases hev
  rcases h₁ with ⟨exc, rfl, rfl⟩ | ⟨now, rfl, h₁⟩
  · simp at hev
  rcases Prog.amid_call_bind h₁ with rfl | ⟨s₃, a₂, y₂, s₄, l₂, -, ha₂, rfl, h₂⟩
  · simp at hev
  rcases h₂ with ⟨exc, rfl, rfl⟩ | ⟨ids', rfl, h₂⟩
  · simp at hev
  split at h₂
  · obtain ⟨rfl, -⟩ := Prog.amid_ret.1 h₂
    simp at hev
  rcases Prog.amid_call_bind h₂ with rfl | ⟨s₅, a₃, y₃, s₆, l₃, hothers, ha₃, rfl, h₃⟩
  · simp at hev
  obtain rfl : l₃ = [] := by
    rcases h₃ with ⟨-, -, hl⟩ | ⟨-, -, h₃⟩
    · exact hl
    · exact (Prog.amid_ret.1 h₃).1
  obtain ⟨rfl, hids⟩ := selectPrunable_answer ha₂
  simp only [List.mem_cons, Answered.mk.injEq, reduceCtorEq, false_and, List.not_mem_nil, or_false,
    false_or, Req.db.injEq, Call.deleteRuns.injEq] at hev
  obtain ⟨rfl, rfl, -, rfl, rfl⟩ := hev
  refine ⟨now, a₂, _, by simp, hids, hothers, ?_⟩
  cases ha₃
  rfl

/-- Where nothing happens in between, exactly the runs that finished before the time are deleted, and
every task that goes is one of theirs. -/
lemma deleteRuns_exact (db : DB) (t : Time) :
    (∀ i, (db.deleteRuns (db.selectPrunable t)).runs.get? i =
      (db.runs.get? i).filter fun r => ¬ FinishedBefore t r) ∧
    TasksOnlyWithRuns db (db.deleteRuns (db.selectPrunable t)) := by
  refine ⟨fun i => ?_, fun k task hk hgone => ?_⟩
  · rw [get?_deleteRuns]
    cases hr : db.runs.get? i with
    | none => simp
    | some r => by_cases hold : FinishedBefore t r <;> simp [mem_selectPrunable, hr, hold, Option.filter]
  · rcases (deleteRuns_prunes (t := t) .refl).left k task hk hgone with hgoes | ⟨hnone, r₀, hr₀, -⟩
    · exact hgoes
    · rw [hnone] at hr₀
      cases hr₀

lemma prune_alone (d : Dialect) (db : DB) (age : ℤ) (now : Time) (lc : Option Time) (key : DB → ℕ) :
    (JobManager.prune age).alone (atOnce d key now lc) db =
      (db.deleteRuns (db.selectPrunable (now - age)),
        .ok (db.runs.select (FinishedBefore (now - age))).length) := by
  have hlength : (db.selectPrunable (now - age)).length =
      (db.runs.select (FinishedBefore (now - age))).length := List.length_map _
  unfold JobManager.prune
  rw [Prog.alone_call_bind (show atOnce d key now lc db .now = (db, .ok now) from rfl),
    Prog.alone_call_bind (show atOnce d key now lc db (.db (.selectPrunable (now - age))) =
      (db, .ok (db.selectPrunable (now - age))) from rfl), ← hlength]
  split
  · rename_i hnil
    have hsame : db.deleteRuns [] = db := by
      simp [DB.deleteRuns, Table.delete_of_not]
    rw [hnil, hsame]
    rfl
  · rw [Prog.alone_call_bind (show atOnce d key now lc db
      (.db (.deleteRuns (db.selectPrunable (now - age)))) =
        (db.deleteRuns (db.selectPrunable (now - age)), .ok ()) from rfl)]
    rfl

end

/-- **Pruning removes old finished runs, and no others.** Whatever transactions of others commit while
a call of `prune` is under way, from whatever state: a run that it deletes is done then, and had
finished before the time when it was selected; its tasks go with it, and no other task but what is left
of a selected run that somebody else has deleted. A call that is alone deletes every such run, no other
task, and returns how many runs they were. -/
theorem prune_removes_old :
    (∀ (age : ℤ) (s s' : DB) (log : List (Answered DB Answer Req Req.Reply Exc)) (q : Io ℕ),
      (JobManager.prune age).Amid answer Elsewhere s log q s' →
      ∀ ids e y db db', ⟨.db (.deleteRuns ids), .commit e, y, db, db'⟩ ∈ log →
        ∃ now a db₀, ⟨.db (.selectPrunable (now - age)), a, .ok ids, db₀, db₀⟩ ∈ log ∧
          Prunes (now - age) db₀ db db') ∧
    ∀ (d : Dialect) (age : ℤ) (db : DB) (now : Time) (lastClaim : Option Time) (key : DB → ℕ),
      ∃ db', (JobManager.prune age).alone (atOnce d key now lastClaim) db =
          (db', .ok (db.runs.select (FinishedBefore (now - age))).length) ∧
        (∀ i, db'.runs.get? i = (db.runs.get? i).filter fun r => ¬ FinishedBefore (now - age) r) ∧
        Prunes (now - age) db db db' ∧ TasksOnlyWithRuns db db' := by
  constructor
  · intro age s s' log q h ids e y db db' hev
    obtain ⟨now, a, db₀, hselect, rfl, hothers, rfl⟩ := prune_deletes h hev
    exact ⟨now, a, db₀, hselect, deleteRuns_prunes hothers⟩
  · intro d age db now lastClaim key
    obtain ⟨hruns, htasks⟩ := deleteRuns_exact db (now - age)
    exact ⟨_, prune_alone d db age now lastClaim key, hruns, deleteRuns_prunes .refl, htasks⟩

/-- A job that was cancelled at the fifth second, and its run, which is still being executed: the body
of its first task does not know yet. -/
def cancelledRun : DB where
  jobs := ⟨[{ id := 0, job := "m.J", status := .cancelled, createdAt := 0 }], 1, by decide, by decide⟩
  runs := ⟨[{ id := 0, jobId := 0, status := .cancelled, createdAt := 0,
              finishedAt := some (seconds 5) }], 1, by decide, by decide⟩
  tasks := ⟨[{ id := 0, runId := 0, position := 0, taskName := "T", status := .running,
               createdAt := 0 }], 1, by decide, by decide⟩

/-- A call of `prune` takes the run and its task. -/
theorem prune_removes_old_pruned :
    ∃ (s' : DB) (log : List (Answered DB Answer Req Req.Reply Exc)) (q : Io ℕ),
      (JobManager.prune 0).Amid answer Elsewhere cancelledRun log q s' ∧
      ∃ ids e y db db', ⟨.db (.deleteRuns ids), .commit e, y, db, db'⟩ ∈ log ∧
        ∃ now a db₀, ⟨.db (.selectPrunable (now - 0)), a, .ok ids, db₀, db₀⟩ ∈ log ∧
          Prunes (now - 0) db₀ db db' := by
  obtain ⟨s', log, q, hamid, hmem⟩ : ∃ (s' : DB) (log : List (Answered DB Answer Req Req.Reply Exc))
      (q : Io ℕ), (JobManager.prune 0).Amid answer Elsewhere cancelledRun log q s' ∧
        ⟨.db (.deleteRuns [0]), .commit { now := seconds 9 }, .ok (), cancelledRun,
          cancelledRun.deleteRuns [0]⟩ ∈ log :=
    ⟨_, _, _, .ask (a := Answer.time (seconds 6)) rfl
      (.ask (a := Answer.commit { now := seconds 6 }) rfl
        (.ask (a := Answer.commit { now := seconds 9 }) rfl (.rest _ _))),
      List.mem_cons_of_mem _ (List.mem_cons_of_mem _ List.mem_cons_self)⟩
  exact ⟨s', log, q, hamid, _, _, _, _, _, hmem, prune_removes_old.1 0 _ _ _ _ hamid _ _ _ _ _ hmem⟩

/-- Somebody deletes the job after a call of `prune` has selected the run; and the worker, whose task
returns, starts the next one. The record of this task is not there any more after the deletion, and was
not one of a run that was deleted. -/
theorem leftover_task_deleted : ∃ (s s' : DB) (log : List (Answered DB Answer Req Req.Reply Exc))
    (q : Io ℕ), (JobManager.prune 0).Amid answer Elsewhere s log q s' ∧
    ∃ ids e y db db', ⟨.db (.deleteRuns ids), .commit e, y, db, db'⟩ ∈ log ∧
      ¬ TasksOnlyWithRuns db db' := by
  have hdelete : Elsewhere cancelledRun (cancelledRun.deleteJob 0) :=
    ⟨.deleteJob 0, { now := seconds 7, jobId := 1, runId := 1, taskId := 1 }, .ok (), by decide, rfl⟩
  obtain ⟨left, hleft⟩ : ∃ db, (Call.startTask 0 1 "U" 1).exec (cancelledRun.deleteJob 0)
      { now := seconds 8, jobId := 1, runId := 1, taskId := 1 } = some (db, .ok ()) := ⟨_, rfl⟩
  have hstart : Elsewhere (cancelledRun.deleteJob 0) left := ⟨_, _, _, by decide, hleft⟩
  have htask : ∃ task, left.tasks.get? 1 = some task ∧ task.runId = 0 := by
    cases hleft
    exact ⟨_, rfl, rfl⟩
  have hrun : left.runs.get? 0 = none := by
    cases hleft
    rfl
  refine ⟨cancelledRun, left.deleteRuns [0], _, _, .ask (a := Answer.time (seconds 6)) rfl
    (.ask (a := Answer.commit { now := seconds 6 }) rfl (.other hdelete (.other hstart
      (.ask (a := Answer.commit { now := seconds 9 }) rfl (.rest _ _))))), [0], { now := seconds 9 },
    .ok (), left, left.deleteRuns [0],
    List.mem_cons_of_mem _ (List.mem_cons_of_mem _ List.mem_cons_self), fun honly => ?_⟩
  obtain ⟨task, htask, hzero⟩ := htask
  have hgone : (left.deleteRuns [0]).tasks.get? 1 = none := by
    rw [get?_deleteRuns_tasks, htask]
    simp [Option.filter, hzero]
  have hgoes := (honly 1 task htask hgone).1
  rw [hzero, hrun] at hgoes
  cases hgoes

end Pyreljob
