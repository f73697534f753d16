import Pyreljob.Lib.Pool
import Pyreljob.Model.Call

/-!
`start_task`, statement by statement.

Everywhere else it is one step. But its two statements are in a transaction under `READ COMMITTED`: what
the lookup has found may have changed when the `INSERT` or the `UPDATE` is executed, and there is no
unique index on `(run_id, position)` that would notice. So here they are two steps, the second one with
the commit, and the other transactions of the backend may come between them, other `start_task`s by
their statements.
-/

namespace Pyreljob

open Lib

namespace DB

/-- The lookup of `start_task`. -/
def lookupTask (db : DB) (runId position : ℕ) : Except Exc (Option ℕ) :=
  (scalarOneOrNone (db.tasks.select (At runId position))).map (Option.map TaskRow.id)

/-- The `INSERT` of `start_task`; `none` when the primary key is taken. -/
def insertTask (db : DB) (e : Env) (runId position : ℕ) (taskName : String) (attempts : ℕ) :
    Option DB := do
  let tasks ← db.tasks.insert
    { id := e.taskId, runId := runId, position := position, taskName := taskName,
      status := .running, attempts := attempts, createdAt := e.now, updatedAt := some e.now,
      startedAt := some e.now }
  some { db with tasks := tasks }

/-- The `UPDATE` of `start_task`. -/
def restartTask (db : DB) (now : Time) (runId position : ℕ) (taskName : String) (attempts : ℕ) : DB :=
  { db with tasks := db.tasks.update (At runId position) fun t =>
    { t with taskName := taskName, status := .running, result := none, error := none,
             attempts := attempts, retryAt := none, updatedAt := some now,
             startedAt := some now, finishedAt := none } }

end DB

/-- What can be executed. -/
inductive TaskStmt
  | lookup (runId position : ℕ)
  | insert (runId position : ℕ) (taskName : String) (attempts : ℕ)
  | restart (runId position : ℕ) (taskName : String) (attempts : ℕ)
  /-- Another transaction. -/
  | whole (c : Call)

namespace TaskStmt

/-- What a statement returns. -/
abbrev Reply : TaskStmt → Type
  | lookup .. => Option ℕ
  | insert .. | restart .. => Unit
  | whole c => c.Reply

/-- A statement on the database; `none` when the primary key it was given is taken. -/
def exec (db : DB) (e : Env) : (s : TaskStmt) → Option (DB × Except Exc s.Reply)
  | lookup runId position => some (db, db.lookupTask runId position)
  | insert runId position taskName attempts => do
    let db' ← db.insertTask e runId position taskName attempts
    some (db', .ok ())
  | restart runId position taskName attempts =>
    some (db.restartTask e.now runId position taskName attempts, .ok ())
  | whole c => c.exec db e

end TaskStmt

/-- The statements of a transaction. -/
def Call.statements : Call → Prog TaskStmt TaskStmt.Reply Exc Unit
  | .startTask runId position taskName attempts => do
    match ← Prog.call (TaskStmt.lookup runId position) with
    | none => Prog.call (TaskStmt.insert runId position taskName attempts)
    | some _ => Prog.call (TaskStmt.restart runId position taskName attempts)
  | c => do
    let _ ← Prog.call (TaskStmt.whole c)
    pure ()

/-- A state of a database with the transactions on it. -/
abbrev Traffic := Pool DB Call (Except Exc Env) TaskStmt TaskStmt.Reply Exc

/-- A statement that was executed, or has raised. -/
abbrev TaskEv := Event DB (Except Exc Env) TaskStmt TaskStmt.Reply Exc

namespace Traffic

/-- A statement is executed, or it raises and leaves nothing. -/
def answer (db : DB) (s : TaskStmt) : Except Exc Env → Option (DB × Except Exc s.Reply)
  | .ok e => s.exec db e
  | .error exc => some (db, .error exc)

/-- The empty migrated database, and no transaction yet. -/
def init : Traffic := { shared := {} }

/-- What can happen next. -/
abbrev Move := Label Call (Except Exc Env)

/-- No restriction on the next move. -/
def Any : Traffic → Move → Prop := fun _ _ => True

instance (p : Traffic) (l : Move) : Decidable (Any p l) := .isTrue trivial

/-- Reached from the empty database. -/
def Reached (p : Traffic) : Prop := Pool.Run answer Call.statements Any init p

/-- Moves one after the other. -/
def play (p : Traffic) (moves : List Move) : Option Traffic :=
  Pool.play answer Call.statements Any p moves

end Traffic

/-- A statement that nothing comes between; a taken key does not come about. -/
def stating (e : Env) (db : DB) (s : TaskStmt) : DB × Except Exc s.Reply :=
  (s.exec db e).getD (db, .error (.other "" ""))

section

variable {db db' : DB} {e : Env} {c : Call} {y : Except Exc c.Reply}

lemma whole_alone (h : c.exec db e = some (db', y)) :
    (Prog.call (TaskStmt.whole c) >>= fun _ => pure () :
        Prog TaskStmt TaskStmt.Reply Exc Unit).alone (stating e) db =
      (db', y.map fun _ => ()) := by
  have hstmt : stating e db (.whole c) = (db', y) := by
    rw [stating, TaskStmt.exec, h, Option.getD_some]
  cases y with
  | ok a => exact Prog.alone_call_bind hstmt
  | error exc =>
    change (Prog.bind (.ret (stating e db (.whole c)).2) _).alone (stating e)
      (stating e db (.whole c)).1 = _
    rw [hstmt]
    rfl

lemma startTask_alone {runId position attempts : ℕ} {name : String} {y : Except Exc Unit}
    (h : db.startTask e runId position name attempts = some (db', y)) :
    (Call.startTask runId position name attempts).statements.alone (stating e) db = (db', y) := by
  have hlookup : stating e db (.lookup runId position) = (db, db.lookupTask runId position) := rfl
  unfold DB.startTask at h
  unfold Call.statements
  split at h
  · rename_i exc hexc
    cases h
    have hraises : db.lookupTask runId position = .error exc := by
      rw [DB.lookupTask, hexc]
      rfl
    change (Prog.bind (.ret (stating e db (.lookup runId position)).2) _).alone (stating e)
      (stating e db (.lookup runId position)).1 = _
    rw [hlookup, hraises]
    rfl
  · rename_i hnone
    have hfound : db.lookupTask runId position = .ok none := by
      rw [DB.lookupTask, hnone]
      rfl
    rw [hfound] at hlookup
    rw [Prog.alone_call_bind hlookup]
    simp only [Option.bind_eq_bind, Option.bind_eq_some_iff, Option.some.injEq, Prod.mk.injEq] at h
    obtain ⟨tasks, htasks, rfl, rfl⟩ := h
    have hinsert : stating e db (.insert runId position name attempts) =
        ({ db with tasks := tasks }, .ok ()) := by
      rw [stating, TaskStmt.exec, DB.insertTask, htasks]
      rfl
    exact hinsert
  · rename_i t hsome
    have hfound : db.lookupTask runId position = .ok (some t.id) := by
      rw [DB.lookupTask, hsome]
      rfl
    rw [hfound] at hlookup
    rw [Prog.alone_call_bind hlookup]
    cases h
    rfl

/-- **With nothing in between, the statements do what the one step does.** -/
theorem statements_alone (h : c.exec db e = some (db', y)) :
    c.statements.alone (stating e) db = (db', y.map fun _ => ()) := by
  cases c with
  | startTask runId position name attempts =>
    rw [startTask_alone h]
    cases y <;> rfl
  | _ => exact whole_alone h

end

end Pyreljob
