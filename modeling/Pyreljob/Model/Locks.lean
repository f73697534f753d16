import Pyreljob.Model.Postgres
import Pyreljob.Model.System

/-!
Row locks, where the database is PostgreSQL.

`PostgresBackend.claim` is one transaction of two statements. What its `SELECT ... FOR UPDATE SKIP
LOCKED` returns it has locked, the run and its job, and it keeps the locks until its `UPDATE` commits.
Others commit in between, but a statement that writes to a locked row waits. The `SELECT` itself waits
for nobody: it skips what is locked, by a claim or by any other transaction that is still open.
-/

namespace Pyreljob

open Lib

instance {V : Type} [DecidableEq V] : DecidableEq (Dict V) :=
  inferInstanceAs (DecidableEq (List (String × V)))

deriving instance DecidableEq for CtxDict, RunRow, JobRow

namespace PostgresBackend

/-- The rows that other transactions have locked. -/
structure Locks where
  runs : List ℕ := []
  jobs : List ℕ := []

namespace Locks

/-- One of the two rows is locked. -/
def has (L : Locks) (x : RunRow × JobRow) : Bool := decide (x.1.id ∈ L.runs) || decide (x.2.id ∈ L.jobs)

/-- What is locked was not written. -/
def spared (L : Locks) (db db' : DB) : Bool :=
  L.runs.all (fun i => db'.runs.get? i = db.runs.get? i) &&
    L.jobs.all fun j => db'.jobs.get? j = db.jobs.get? j

end Locks

/-- The `SELECT` of `claim`. -/
def select (db : DB) (L : Locks) (queue : Option String) (now leaseExpiry : Time) : Option ℕ :=
  ((candidates db queue now leaseExpiry).find? fun x => !L.has x).map fun x => x.1.id

/-- The `UPDATE` of `claim`, and what it reads back. -/
def take (db : DB) (runId : ℕ) (workerId : String) (now : Time) : DB × Option RunRow :=
  let db' := { db with
    runs := db.runs.update (fun r => r.id = runId) (DB.claimed workerId now)
      (DB.key_claimed workerId now) }
  (db', db'.runs.get? runId)

/-- What a statement does that need not wait. All but those of `claim` are what they are elsewhere. -/
def exec (db : DB) (L : Locks) (e : Env) : (c : Call) → Option (DB × Except Exc c.Reply)
  | .selectClaimable queue now leaseExpiry => some (db, .ok (select db L queue now leaseExpiry))
  | .claimRun runId workerId now _ =>
    let (db', run) := take db runId workerId now
    some (db', .ok run)
  | c => c.exec db e

/-- An answered request; `none` while it has to wait. -/
def answer (db : DB) : (r : Req) → Answer × Locks → Option (DB × Except Exc r.Reply)
  | .db c, (.commit e, L) => (exec db L e c).filter fun x => L.spared db x.1
  | r, (a, _) => Pyreljob.answer db r a

end PostgresBackend

/-- A state of the system where the database is PostgreSQL. -/
abbrev PgSystem := Pool DB Kind (Answer × PostgresBackend.Locks) Req Req.Reply Exc

/-- What can happen next. -/
abbrev PgAct := Label Kind (Answer × PostgresBackend.Locks)

/-- An answered request of some process. -/
abbrev PgEv := Event DB (Answer × PostgresBackend.Locks) Req Req.Reply Exc

namespace PgSystem

/-- The run that a process has locked, whose claim is between its two statements. -/
def openClaim : Option Req → Option ℕ
  | some (.db (.claimRun runId _ _ _)) => some runId
  | _ => none

/-- The runs that the claims of the other processes have locked. -/
def lockedRuns (p : PgSystem) (pid : ℕ) : List ℕ :=
  ((List.range p.procs.length).filter fun q => q ≠ pid).filterMap fun q => openClaim (p.pending q)

/-- The jobs that they have locked. -/
def lockedJobs (p : PgSystem) (pid : ℕ) : List ℕ :=
  (p.lockedRuns pid).filterMap fun i => (p.shared.runs.get? i).map RunRow.jobId

/-- A statement meets the locks of the open claims, and maybe others, and keys are not used twice. -/
def Locking (p : PgSystem) : PgAct → Prop
  | .act pid (.commit e, L) =>
    p.lockedRuns pid ⊆ L.runs ∧ p.lockedJobs pid ⊆ L.jobs ∧ e.Fresh p.shared
  | _ => True

instance (p : PgSystem) : (l : PgAct) → Decidable (Locking p l)
  | .act _ (.commit e, L) =>
    inferInstanceAs (Decidable (_ ⊆ L.runs ∧ _ ⊆ L.jobs ∧ e.Fresh p.shared))
  | .spawn _ | .crash _ | .act _ (.fail _, _) | .act _ (.time _, _) | .act _ (.lastClaim _, _)
  | .act _ (.ran _ _, _) | .act _ (.undone _ _, _) | .act _ (.next _, _) => .isTrue trivial

/-- The empty migrated database, and no process yet. -/
def init : PgSystem := { shared := {} }

/-- Reached from the empty database. -/
def Reached (p : PgSystem) : Prop := Pool.Run PostgresBackend.answer Kind.program Locking init p

/-- Acts one after the other. -/
def play (p : PgSystem) (acts : List PgAct) : Option PgSystem :=
  Pool.play PostgresBackend.answer Kind.program Locking p acts

end PgSystem

end Pyreljob
