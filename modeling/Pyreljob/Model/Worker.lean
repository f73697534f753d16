import Pyreljob.Model.Call

/-!
The worker: `pyreljob/worker.py`.

`Worker.tick` is one process of the system: it claims a run and executes it. The poll loop starts
one such process for every run it claims, so the concurrency of one worker is that of the system.
The context is a mutable object in the source; here every function that may change it returns it.
-/

namespace Pyreljob

open Lib

/-- A worker: its id, its queue filter, its lease, and the classes it can resolve. -/
structure Worker where
  workerId : String
  queue : Option String := none
  leaseSeconds : ℤ := 30
  /-- `_resolve`. -/
  resolve : String → Option JobCls

namespace Worker

/-- How `_run_task` ended. -/
inductive TaskEnd
  | ok | cancel | retry | failed
  deriving DecidableEq

/-- `_task_budget`: the task's own override (neither `None` nor `0`), else the job's. -/
def taskBudget (task : TaskCls) (job : JobRow) : ℤ :=
  match task.maxAttempts with
  | none => job.maxAttempts
  | some n => if n = 0 then job.maxAttempts else n

def buildCtx (run : RunRow) (job : JobRow) : TaskContext :=
  let ctx : TaskContext := match run.ctx with
    | some d => .fromDict d
    | none => { jobId := run.jobId, job := job.job, args := job.args.getD [] }
  { ctx with jobId := run.jobId, progress := run.progress }

/-- `records_by_pos.get(pos)`: of several records at a position the last one counts. -/
def recordAt (records : List TaskRow) (pos : ℕ) : Option TaskRow :=
  records.reverse.find? fun t => t.position = pos

/-- The record at the position has succeeded. -/
def doneAt (records : List TaskRow) (pos : ℕ) : Bool :=
  (recordAt records pos).any fun t => t.status = .succeeded

/-- Where a run is resumed: the first of `n` positions that has not succeeded. -/
def start (records : List TaskRow) (n : ℕ) : ℕ :=
  ((List.range n).find? fun i => ¬ doneAt records i).getD n

/-- The record at which a prior worker had already given up. -/
def exhausted (cls : JobCls) (job : JobRow) (records : List TaskRow) (pos : ℕ) : Option TaskRow :=
  match cls.tasks[pos]? with
  | none => none
  | some task => (recordAt records pos).filter fun t =>
      t.status = .failed ∧ taskBudget task job ≤ t.attempts

def taskForRecord (record : TaskRow) (cls : JobCls) : Except Exc TaskCls :=
  match cls.tasks[record.position]? with
  | some task => .ok task
  | none => .error (.valueError
      ("task position " ++ toString record.position ++ " out of range for job " ++ cls.name))

/-- `existing.error or "task exhausted"`. -/
def errorOr (error : Option String) : String :=
  match error with
  | none => "task exhausted"
  | some s => if s = "" then "task exhausted" else s

/-! ### Running the tasks -/

/-- The loop of `_compensate` over the records, last position first. An `undo` that raises is
logged, and its record becomes compensated all the same. -/
def compensateFrom (runId : ℕ) (cls : JobCls) : List TaskRow → TaskContext → Io TaskContext
  | [], ctx => pure ctx
  | record :: records, ctx =>
    if record.status ≠ .succeeded then compensateFrom runId cls records ctx
    else match taskForRecord record cls with
      | .error exc => throw exc
      | .ok _ => do
        let (_, state) ← Prog.call (Req.undo runId record.position ctx)
        query (.compensateTask runId record.position)
        compensateFrom runId cls records { ctx with state := state }

def compensate (runId : ℕ) (cls : JobCls) (ctx : TaskContext) : Io TaskContext := do
  let records ← query (.tasksOf runId)
  compensateFrom runId cls records.reverse ctx

def finalizeFailed (job : JobRow) (runId : ℕ) (error : String) : Io Unit := do
  query (.failRun runId error none)
  if job.retries ≤ 0 then pure ()
  else do
    let attempts ← query (.incrementJobAttempts job.id)
    if attempts ≤ job.retries then do
      let retryAt ← Prog.call (Req.retryAt attempts)
      let _ ← query (.createRun job.id (some retryAt))
      pure ()
    else pure ()

def reschedule (job : JobRow) (runId : ℕ) (ctx : TaskContext) : Io Unit :=
  if job.source ≠ .scheduled then pure ()
  else do
    match ← query (.getRun runId) with
    | none => pure ()
    | some run => do
      let next ← Prog.call (Req.nextRuntime job.job (job.args.getD []) run ctx)
      query (.setNextRunAt job.id next)

def rescheduleOnError (run : RunRow) : Io Unit := do
  match ← query (.getJob run.jobId) with
  | none => pure ()
  | some job =>
    if job.source ≠ .scheduled then pure ()
    else do
      let now ← Prog.call Req.now
      query (.setNextRunAt job.id (some now))

def runTask (runId : ℕ) (cls : JobCls) (job : JobRow) (ctx : TaskContext) (pos : ℕ)
    (task : TaskCls) (existing : Option TaskRow) : Io (TaskEnd × TaskContext) := do
  let attempts := (existing.map TaskRow.attempts).getD 0 + 1
  query (.startTask runId pos task.taskName attempts)
  let (outcome, state) ← Prog.call (Req.run runId pos attempts ctx)
  let ctx := { ctx with state := state }
  match outcome with
  | .error exc =>
    if exc.isJobCancelled then do
      query (.cancelTask runId pos)
      query (.cancelRun runId)
      pure (.cancel, ctx)
    else if taskBudget task job ≤ attempts then do
      query (.setRunCtx runId ctx.asDict)
      query (.failTask runId pos exc.text attempts none)
      let ctx ← compensate runId cls ctx
      finalizeFailed job runId exc.text
      pure (.failed, ctx)
    else do
      let retryAt ← Prog.call (Req.retryAt attempts)
      query (.setRunCtx runId ctx.asDict)
      query (.failTask runId pos exc.text attempts (some retryAt))
      query (.failRun runId exc.text (some retryAt))
      pure (.retry, ctx)
  | .ok v => do
    let ctx := { ctx with results := ctx.results.set task.name v }
    query (.succeedTask runId pos v)
    query (.setRunCtx runId ctx.asDict)
    pure (.ok, ctx)

/-- The loop of `_run` over the positions from the resume point on. -/
def runTasks (runId : ℕ) (cls : JobCls) (job : JobRow) (records : List TaskRow) :
    List TaskCls → ℕ → TaskContext → Io (TaskEnd × TaskContext)
  | [], _, ctx => pure (.ok, ctx)
  | task :: tasks, pos, ctx => do
    let (ended, ctx) ← runTask runId cls job ctx pos task (recordAt records pos)
    match ended with
    | .ok => runTasks runId cls job records tasks (pos + 1) ctx
    | ended => pure (ended, ctx)

/-! ### Runs -/

/-- `_run` once the class is known. A run whose task was exhausted by a worker that did not live to
finalize it is finalized; any other one goes on at the resume point. -/
def resume (run : RunRow) (job : JobRow) (cls : JobCls) (records : List TaskRow) : Io Unit :=
  let ctx := buildCtx run job
  let pos := start records cls.tasks.length
  match exhausted cls job records pos with
  | some existing => do
    query (.setRunCtx run.id ctx.asDict)
    let ctx ← compensate run.id cls ctx
    finalizeFailed job run.id (errorOr existing.error)
    reschedule job run.id ctx
  | none => do
    let (ended, ctx) ← runTasks run.id cls job records (cls.tasks.drop pos) pos ctx
    match ended with
    | .cancel | .retry => pure ()
    | .failed => reschedule job run.id ctx
    | .ok => do
      query (.completeRun run.id (.dict ctx.results))
      query (.resetJobAttempts job.id)
      reschedule job run.id ctx

/-- `_run`. The class name in the message is quoted as `repr` quotes a dotted path. -/
def run (w : Worker) (run : RunRow) : Io Unit := do
  match ← query (.getJob run.jobId) with
  | none => query (.failRun run.id "job no longer exists" none)
  | some job =>
    if job.status = .cancelled then query (.cancelRun run.id)
    else match w.resolve job.job with
      | none => query (.failRun run.id ("No class registered for '" ++ job.job ++ "'") none)
      | some cls => do
        let records ← query (.tasksOf run.id)
        resume run job cls records

def execute (w : Worker) (run : RunRow) : Io Unit :=
  tryCatch (w.run run) fun _ => do
    query (.failRun run.id "unhandled error" none)
    rescheduleOnError run

/-- `SQLAlchemyBackend.claim`, the portable one: a `SELECT`, then a conditional `UPDATE`. -/
def claim (w : Worker) : Io (Option RunRow) := do
  let now ← Prog.call Req.now
  let now' ← Prog.call Req.now
  let leaseExpiry := now' - seconds w.leaseSeconds
  match ← query (.selectClaimable w.queue now leaseExpiry) with
  | none => pure none
  | some runId => query (.claimRun runId w.workerId now leaseExpiry)

/-- `_tick`: claim a single run and execute it. -/
def tick (w : Worker) : Io Unit := do
  match ← w.claim with
  | none => pure ()
  | some run => w.execute run

/-- One pass of `_heartbeat_loop` over the runs (with their jobs) that were active when it began. -/
def heartbeat (w : Worker) : List (ℕ × ℕ) → Io Unit
  | [] => pure ()
  | (runId, jobId) :: active => do
    if ← query (.isJobCancelled jobId) then w.heartbeat active
    else do
      let _ ← query (.renewLease runId w.workerId)
      w.heartbeat active

end Worker

end Pyreljob
