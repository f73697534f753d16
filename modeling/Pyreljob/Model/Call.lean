import Pyreljob.Lib.Prog
import Pyreljob.Model.Backend

/-!
What a component asks for: the transactions of the backend, and what lies outside the database.

A `Call` is one transaction together with its arguments, `Call.exec` is what it does when it
commits. A `Req` is anything a program waits for; besides transactions these are readings of the
clock, of the backend object's `last_claim_at` and of the backoff, and the calls of user code. An
`Answer` says what came back. `answer` puts the two together and is the only place where a program's
request reaches the database.
-/

namespace Pyreljob

open Lib

/-! ### Transactions -/

/-- A transaction of the backend. -/
inductive Call
  | findByIdempotencyKey (key : String)
  | insertJobAndRun (spec : JobSpec) (scheduledAt : Option Time)
  | findScheduled (job : String) (key : Option String)
  | insertJob (spec : JobSpec)
  | getJob (jobId : ℕ)
  | cancelJob (jobId : ℕ)
  | isJobCancelled (jobId : ℕ)
  | incrementJobAttempts (jobId : ℕ)
  | resetJobAttempts (jobId : ℕ)
  | hasActiveRun (jobId : ℕ)
  | deleteJob (jobId : ℕ)
  | selectPrunable (olderThan : Time)
  | deleteRuns (runIds : List ℕ)
  | listScheduled
  | claimScheduled (jobId : ℕ) (nextRunAt : Option Time)
  | reconcileBatch (now cutoff : Time) (progressCutoff : Option Time)
  | rearmOrphanedJobs (now cutoff : Time)
  | setNextRunAt (jobId : ℕ) (nextRunAt : Option Time)
  | selectClaimable (queue : Option String) (now leaseExpiry : Time)
  | claimRun (runId : ℕ) (workerId : String) (now leaseExpiry : Time)
  | renewLease (runId : ℕ) (workerId : String)
  | completeRun (runId : ℕ) (result : Value)
  | failRun (runId : ℕ) (error : String) (retryAt : Option Time)
  | cancelRun (runId : ℕ)
  | setRunCtx (runId : ℕ) (ctx : CtxDict)
  | setRunProgress (runId : ℕ) (progress : Option Rat)
  | getRun (runId : ℕ)
  | runsOf (jobId : ℕ)
  | createRun (jobId : ℕ) (scheduledAt : Option Time)
  | tasksOf (runId : ℕ)
  | startTask (runId position : ℕ) (taskName : String) (attempts : ℕ)
  | succeedTask (runId position : ℕ) (result : Value)
  | failTask (runId position : ℕ) (error : String) (attempts : ℕ) (retryAt : Option Time)
  | cancelTask (runId position : ℕ)
  | compensateTask (runId position : ℕ)

namespace Call

/-- What the transaction returns. -/
abbrev Reply : Call → Type
  | findByIdempotencyKey .. | findScheduled .. | getJob .. => Option JobRow
  | insertJobAndRun .. | insertJob .. => JobRow
  | isJobCancelled .. | hasActiveRun .. | claimScheduled .. | renewLease .. => Bool
  | incrementJobAttempts .. | rearmOrphanedJobs .. => ℕ
  | selectPrunable .. => List ℕ
  | listScheduled => List JobRow
  | reconcileBatch .. => ℕ × DB.Reconciled
  | selectClaimable .. => Option ℕ
  | claimRun .. | getRun .. => Option RunRow
  | runsOf .. => List RunRow
  | createRun .. => RunRow
  | tasksOf .. => List TaskRow
  | cancelJob .. | resetJobAttempts .. | deleteJob .. | deleteRuns .. | setNextRunAt ..
  | completeRun .. | failRun .. | cancelRun .. | setRunCtx .. | setRunProgress .. | startTask ..
  | succeedTask .. | failTask .. | cancelTask .. | compensateTask .. => Unit

/-- **What a committed transaction does**; `none` when the primary key it was given is taken. -/
def exec (db : DB) (e : Env) : (c : Call) → Option (DB × Except Exc c.Reply)
  | findByIdempotencyKey key => some (db, db.findByIdempotencyKey key)
  | insertJobAndRun spec scheduledAt => db.insertJobAndRun e spec scheduledAt
  | findScheduled job key => some (db, db.findScheduled job key)
  | insertJob spec => db.insertJob e spec
  | getJob jobId => some (db, .ok (db.getJob jobId))
  | cancelJob jobId => some (db.cancelJob e.now jobId, .ok ())
  | isJobCancelled jobId => some (db, .ok (db.isJobCancelled jobId))
  | incrementJobAttempts jobId =>
    let (db', n) := db.incrementJobAttempts e.now jobId
    some (db', .ok n)
  | resetJobAttempts jobId => some (db.resetJobAttempts e.now jobId, .ok ())
  | hasActiveRun jobId => some (db, .ok (db.hasActiveRun jobId))
  | deleteJob jobId => some (db.deleteJob jobId, .ok ())
  | selectPrunable olderThan => some (db, .ok (db.selectPrunable olderThan))
  | deleteRuns runIds => some (db.deleteRuns runIds, .ok ())
  | listScheduled => some (db, .ok db.listScheduled)
  | claimScheduled jobId nextRunAt =>
    let (db', won) := db.claimScheduled e.now jobId nextRunAt
    some (db', .ok won)
  | reconcileBatch now cutoff progressCutoff =>
    let (db', counts) := db.reconcileBatch now cutoff progressCutoff
    some (db', .ok counts)
  | rearmOrphanedJobs now cutoff =>
    let (db', n) := db.rearmOrphanedJobs now cutoff
    some (db', .ok n)
  | setNextRunAt jobId nextRunAt => some (db.setNextRunAt e.now jobId nextRunAt, .ok ())
  | selectClaimable queue now leaseExpiry =>
    some (db, .ok (db.selectClaimable queue now leaseExpiry))
  | claimRun runId workerId now leaseExpiry =>
    let (db', run) := db.claimRun runId workerId now leaseExpiry
    some (db', .ok run)
  | renewLease runId workerId =>
    let (db', held) := db.renewLease e.now runId workerId
    some (db', .ok held)
  | completeRun runId result => some (db.completeRun e.now runId result, .ok ())
  | failRun runId error retryAt => some (db.failRun e.now runId error retryAt, .ok ())
  | cancelRun runId => some (db.cancelRun e.now runId, .ok ())
  | setRunCtx runId ctx => some (db.setRunCtx e.now runId ctx, .ok ())
  | setRunProgress runId progress => some (db.setRunProgress e.now runId progress, .ok ())
  | getRun runId => some (db, .ok (db.getRun runId))
  | runsOf jobId => some (db, .ok (db.runsOf jobId))
  | createRun jobId scheduledAt => do
    let (db', run) ← db.createRun e jobId scheduledAt
    some (db', .ok run)
  | tasksOf runId => some (db, .ok (db.tasksOf runId))
  | startTask runId position taskName attempts => db.startTask e runId position taskName attempts
  | succeedTask runId position result => some (db.succeedTask e.now runId position result, .ok ())
  | failTask runId position error attempts retryAt =>
    some (db.failTask e.now runId position error attempts retryAt, .ok ())
  | cancelTask runId position => some (db.cancelTask e.now runId position, .ok ())
  | compensateTask runId position => some (db.compensateTask e.now runId position, .ok ())

end Call

/-! ### Requests and answers -/

/-- What a program can wait for. -/
inductive Req
  /-- A transaction of the backend. -/
  | db (c : Call)
  /-- `datetime.now(timezone.utc)`. -/
  | now
  /-- `backend.last_claim_at`. -/
  | lastClaimAt
  /-- `datetime.now(timezone.utc) + timedelta(seconds=self._backoff(attempts))`. -/
  | retryAt (attempts : ℕ)
  /-- The body of the task at a position of a run, with the context it is given. That this is the
  attempt number `attempts` is known to the worker, not to the body. -/
  | run (runId position attempts : ℕ) (ctx : TaskContext)
  /-- The `undo` of the task at a position of a run. -/
  | undo (runId position : ℕ) (ctx : TaskContext)
  /-- `Job.next_runtime`, `from_dict` included. -/
  | nextRuntime (job : String) (args : Dict Value) (run : RunRow) (ctx : TaskContext)

/-- What a request returns. A body also leaves `ctx.state` as it likes; `undo` may have raised. -/
abbrev Req.Reply : Req → Type
  | .db c => c.Reply
  | .now | .retryAt _ => Time
  | .lastClaimAt => Option Time
  | .run .. => Outcome × Dict Value
  | .undo .. => Option Exc × Dict Value
  | .nextRuntime .. => Option Time

/-- What comes back to a program that waits. -/
inductive Answer
  /-- The transaction commits. -/
  | commit (e : Env)
  /-- The request raises; a transaction that raises is rolled back. -/
  | fail (exc : Exc)
  | time (t : Time)
  | lastClaim (t : Option Time)
  | ran (outcome : Outcome) (state : Dict Value)
  | undone (raised : Option Exc) (state : Dict Value)
  | next (t : Option Time)

/-- **An answered request**: the database after it, and the reply. `none` when the answer does not
fit the request. -/
def answer (db : DB) : (r : Req) → Answer → Option (DB × Except Exc r.Reply)
  | .db c, .commit e => c.exec db e
  | .now, .time t | .retryAt _, .time t => some (db, .ok t)
  | .lastClaimAt, .lastClaim t => some (db, .ok t)
  | .run .., .ran outcome state => some (db, .ok (outcome, state))
  | .undo .., .undone raised state => some (db, .ok (raised, state))
  | .nextRuntime .., .next t => some (db, .ok t)
  | .db _, .fail exc | .retryAt _, .fail exc | .nextRuntime .., .fail exc => some (db, .error exc)
  | _, _ => none

/-- A request that is answered is a transaction that commits, a transaction that raises, or none. -/
theorem answer_cases {db : DB}
    {motive : (r : Req) → Answer → DB → Except Exc r.Reply → Prop}
    (hcommit : ∀ c e db' y, c.exec db e = some (db', y) → motive (.db c) (.commit e) db' y)
    (hraise : ∀ c exc, motive (.db c) (.fail exc) db (.error exc))
    (hask : ∀ r a y, (∀ c, r ≠ .db c) → answer db r a = some (db, y) → motive r a db y)
    {r : Req} {a : Answer} {db' : DB} {y : Except Exc r.Reply}
    (h : answer db r a = some (db', y)) : motive r a db' y := by
  cases r with
  | db c =>
    cases a <;> simp only [answer, reduceCtorEq] at h
    · exact hcommit c _ db' y h
    · cases h
      exact hraise c _
  | _ =>
    cases a <;> simp only [answer, reduceCtorEq] at h <;> cases h <;>
      exact hask _ _ _ (fun c => by simp) rfl

/-- A program of this system. -/
abbrev Io (α : Type) := Prog Req Req.Reply Exc α

/-- Ask for a transaction. -/
abbrev query (c : Call) : Io c.Reply := Prog.call (Req.db c)

end Pyreljob
