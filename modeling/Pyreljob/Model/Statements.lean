import Pyreljob.Lib.Pool
import Pyreljob.Model.Manager

/-!
The batch loop of `reconcile_abandoned`, statement by statement.

Everywhere else a batch is one step. Its three statements are in one transaction, but under `READ
COMMITTED` each of them sees what others have committed by then, so here each of them is a step of its
own. A row that the transaction has written is locked until it commits, and whoever wants to write it
waits and looks at it again, so its writes count from the statement on. What others do in between are
the two transactions that meet the sweep at its rows: the `UPDATE` of a claim, and `set_next_run_at`.
-/

namespace Pyreljob

open Lib

/-- What can be executed. -/
inductive Stmt
  /-- The `SELECT` of the stale runs, of a run its id and that of its job. -/
  | selectStale (cutoff : Time) (progressCutoff : Option Time)
  /-- The `UPDATE` of the runs, with its row count. -/
  | failRuns (runIds : List ℕ) (now : Time)
  /-- The `UPDATE` of the jobs, with its row count. -/
  | reviveJobs (jobIds : List ℕ) (now : Time)
  /-- The `UPDATE` of a claim. -/
  | claimRun (runId : ℕ) (workerId : String) (now leaseExpiry : Time)
  /-- `set_next_run_at`. -/
  | setNextRunAt (jobId : ℕ) (nextRunAt : Option Time) (now : Time)

namespace Stmt

/-- What a statement returns. -/
abbrev Reply : Stmt → Type
  | selectStale .. => List (ℕ × ℕ)
  | failRuns .. | reviveJobs .. => ℕ
  | claimRun .. => Option RunRow
  | setNextRunAt .. => Unit

/-- What the `UPDATE` of the runs matches. -/
def Fails (runIds : List ℕ) (r : RunRow) : Prop := r.id ∈ runIds ∧ r.status = .ready

instance (runIds : List ℕ) : DecidablePred (Fails runIds) :=
  fun _ => inferInstanceAs (Decidable (_ ∧ _))

/-- An active maintained job that is disarmed. -/
def Disarmed (j : JobRow) : Prop := j.source = .scheduled ∧ j.status = .active ∧ j.nextRunAt = none

instance : DecidablePred Disarmed := fun _ => inferInstanceAs (Decidable (_ ∧ _ ∧ _))

/-- What the `UPDATE` of the jobs matches. -/
def Revives (jobIds : List ℕ) (j : JobRow) : Prop := j.id ∈ jobIds ∧ Disarmed j

instance (jobIds : List ℕ) : DecidablePred (Revives jobIds) :=
  fun _ => inferInstanceAs (Decidable (_ ∧ _))

lemma key_failed (now : Time) (r : RunRow) :
    Keyed.key { r with status := .failed, error := some DB.abandonedError, finishedAt := some now,
                       updatedAt := some now } = Keyed.key r :=
  rfl

lemma key_revived (now : Time) (j : JobRow) :
    Keyed.key { j with nextRunAt := some now, updatedAt := some now } = Keyed.key j :=
  rfl

/-- A statement on the database. -/
def exec (db : DB) : (s : Stmt) → DB × s.Reply
  | selectStale cutoff progressCutoff =>
    (db, (db.staleRuns cutoff progressCutoff).map fun r => (r.id, r.jobId))
  | failRuns runIds now =>
    ({ db with
      runs := db.runs.update (Fails runIds) (fun r =>
        { r with status := .failed, error := some DB.abandonedError, finishedAt := some now,
                 updatedAt := some now }) (key_failed now) },
      (db.runs.select (Fails runIds)).length)
  | reviveJobs jobIds now =>
    ({ db with
      jobs := db.jobs.update (Revives jobIds) (fun j =>
        { j with nextRunAt := some now, updatedAt := some now }) (key_revived now) },
      (db.jobs.select (Revives jobIds)).length)
  | claimRun runId workerId now leaseExpiry => db.claimRun runId workerId now leaseExpiry
  | setNextRunAt jobId nextRunAt now => (db.setNextRunAt now jobId nextRunAt, ())

end Stmt

/-- The loop of `reconcile_abandoned` by its statements, at most `fuel` batches of it. -/
def sweepStatements (now cutoff : Time) (progressCutoff : Option Time) :
    ℕ → DB.Reconciled → Prog Stmt Stmt.Reply Exc (Option DB.Reconciled)
  | 0, _ => pure none
  | fuel + 1, total => do
    let stale ← Prog.call (Stmt.selectStale cutoff progressCutoff)
    if stale = [] then pure (some total)
    else do
      let runs ← Prog.call (Stmt.failRuns (stale.map Prod.fst) now)
      let jobs ← Prog.call (Stmt.reviveJobs (stale.map Prod.snd) now)
      let total : DB.Reconciled := { runs := total.runs + runs, jobs := total.jobs + jobs }
      if stale.length < DB.reconcileBatchSize ∨ (runs = 0 ∧ jobs = 0) then pure (some total)
      else sweepStatements now cutoff progressCutoff fuel total

/-- Who takes part. -/
inductive Party
  | sweep (now cutoff : Time) (progressCutoff : Option Time) (fuel : ℕ)
  | claim (runId : ℕ) (workerId : String) (now leaseExpiry : Time)
  | setNextRunAt (jobId : ℕ) (nextRunAt : Option Time) (now : Time)

/-- The program of a party. -/
def Party.program : Party → Prog Stmt Stmt.Reply Exc Unit
  | sweep now cutoff progressCutoff fuel => do
    let _ ← sweepStatements now cutoff progressCutoff fuel {}
    pure ()
  | claim runId workerId now leaseExpiry => do
    let _ ← Prog.call (Stmt.claimRun runId workerId now leaseExpiry)
    pure ()
  | setNextRunAt jobId nextRunAt now => Prog.call (Stmt.setNextRunAt jobId nextRunAt now)

/-- A state of a database with its parties. -/
abbrev Session := Pool DB Party Unit Stmt Stmt.Reply Exc

/-- A statement that was executed. -/
abbrev StmtEvent := Event DB Unit Stmt Stmt.Reply Exc

namespace Session

/-- A statement is executed, and returns. -/
def answer (db : DB) (s : Stmt) (_ : Unit) : Option (DB × Except Exc s.Reply) :=
  some ((s.exec db).1, .ok (s.exec db).2)

/-- Any database, and no party yet. -/
def start (db : DB) : Session := { shared := db }

/-- A run in which every act obeys `C`. -/
abbrev Run (C : Session → Label Party Unit → Prop) : Session → Session → Prop :=
  Pool.Run answer Party.program C

/-- Acts one after the other, each of which must obey `C`. -/
def play (C : Session → Label Party Unit → Prop) [∀ p l, Decidable (C p l)] (p : Session)
    (acts : List (Label Party Unit)) : Option Session :=
  Pool.play answer Party.program C p acts

end Session

end Pyreljob
