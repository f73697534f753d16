import Mathlib.Data.List.Sort
import Mathlib.Tactic
import Pyreljob.Model.Task

/-!
The atomic transactions of `pyreljob/backends/sqlalchemy.py`, as functions on the database.

A backend method that is one transaction is one function here; a method that is several (`enqueue`,
`schedule`, `delete_job`, `prune_runs`, `reconcile_abandoned`) has one function for each, and the
portable `claim` is cut into its `SELECT` and its conditional `UPDATE`. The methods themselves are
put together in `Pyreljob.Model.Worker` and `Pyreljob.Model.Manager`. Functions take the clock
reading they stamp rows with; an insertion also takes the key the database gives the row, and is
`none` if that key is taken.
-/

namespace Pyreljob

open Lib

def scalarOneOrNone {α : Type} : List α → Except Exc (Option α)
  | [] => .ok none
  | [a] => .ok (some a)
  | _ :: _ :: _ => .error .multipleResultsFound

/-- The columns a new job is given; the other ones get their defaults. -/
structure JobSpec where
  job : String
  queue : String := "default"
  args : Option (Dict Value) := none
  priority : ℤ := 0
  source : JobSource := .onDemand
  nextRunAt : Option Time := none
  maxAttempts : ℤ := 3
  retries : ℤ := 0
  idempotencyKey : Option String := none
  tags : Option (List String) := none

/-- The new row. -/
def JobSpec.row (spec : JobSpec) (e : Env) : JobRow where
  id := e.jobId
  job := spec.job
  queue := spec.queue
  args := spec.args
  priority := spec.priority
  source := spec.source
  nextRunAt := spec.nextRunAt
  maxAttempts := spec.maxAttempts
  retries := spec.retries
  idempotencyKey := spec.idempotencyKey
  tags := spec.tags
  createdAt := e.createdAt
  updatedAt := some e.now

/-- `RunModel(...)`: a new run of a job. -/
def newRun (e : Env) (jobId : ℕ) (scheduledAt : Option Time) : RunRow where
  id := e.runId
  jobId := jobId
  scheduledAt := scheduledAt
  createdAt := e.createdAt
  createdBare := e.createdBare
  updatedAt := some e.now

/-- `RunModel.created_at < t`, for a time `t` that comes from the client's clock. -/
def RunRow.CreatedBefore (r : RunRow) (t : Time) : Prop :=
  r.createdAt < t ∨ (r.createdAt = t ∧ r.createdBare = true)

instance (r : RunRow) (t : Time) : Decidable (r.CreatedBefore t) :=
  inferInstanceAs (Decidable (_ ∨ _))

namespace DB

/-! ### Jobs -/

def findByIdempotencyKey (db : DB) (key : String) : Except Exc (Option JobRow) :=
  scalarOneOrNone (db.jobs.select fun j => j.idempotencyKey = some key)

/-- The unique index `ux_jobs_idempotency_key`: `NULL`s do not conflict. -/
def keyTaken (db : DB) (key : Option String) : Bool :=
  key.isSome && db.jobs.rows.any fun j => j.idempotencyKey == key

/-- What an insert that violates the index raises. -/
def duplicateKey : Exc := .integrityError "UNIQUE constraint failed: jobs.idempotency_key"

/-- The insert of `enqueue`: the job and its first run in one transaction. -/
def insertJobAndRun (db : DB) (e : Env) (spec : JobSpec) (scheduledAt : Option Time) :
    Option (DB × Except Exc JobRow) :=
  if db.keyTaken spec.idempotencyKey then some (db, .error duplicateKey)
  else do
    let jobs ← db.jobs.insert (spec.row e)
    let runs ← db.runs.insert (newRun e e.jobId scheduledAt)
    some ({ db with jobs := jobs, runs := runs }, .ok (spec.row e))

/-- The lookup of `schedule`. -/
def findScheduled (db : DB) (job : String) (key : Option String) : Except Exc (Option JobRow) :=
  scalarOneOrNone
    (db.jobs.select fun j => j.job = job ∧ j.source = .scheduled ∧ j.idempotencyKey = key)

/-- The insert of `schedule`. -/
def insertJob (db : DB) (e : Env) (spec : JobSpec) : Option (DB × Except Exc JobRow) :=
  if db.keyTaken spec.idempotencyKey then some (db, .error duplicateKey)
  else do
    let jobs ← db.jobs.insert (spec.row e)
    some ({ db with jobs := jobs }, .ok (spec.row e))

/-- `get`. -/
def getJob (db : DB) (jobId : ℕ) : Option JobRow := db.jobs.get? jobId

/-- `cancel_job`: the job, and every run of it that has not finished. -/
def cancelJob (db : DB) (now : Time) (jobId : ℕ) : DB :=
  { db with
    jobs := db.jobs.update (fun j => j.id = jobId) fun j =>
      { j with status := .cancelled, updatedAt := some now }
    runs := db.runs.update (fun r => r.jobId = jobId ∧ r.status.inFlight) fun r =>
      { r with status := .cancelled, finishedAt := some now, lockedAt := none, updatedAt := some now } }

def isJobCancelled (db : DB) (jobId : ℕ) : Bool :=
  (db.jobs.get? jobId).any fun j => j.status = .cancelled

/-- `increment_job_attempts`; `0` when there is no such job. -/
def incrementJobAttempts (db : DB) (now : Time) (jobId : ℕ) : DB × ℕ :=
  let db' := { db with
    jobs := db.jobs.update (fun j => j.id = jobId) fun j =>
      { j with attempts := j.attempts + 1, updatedAt := some now } }
  (db', ((db'.jobs.get? jobId).map JobRow.attempts).getD 0)

def resetJobAttempts (db : DB) (now : Time) (jobId : ℕ) : DB :=
  { db with
    jobs := db.jobs.update (fun j => j.id = jobId) fun j =>
      { j with attempts := 0, updatedAt := some now } }

/-- The test of `delete_job`: some run of the job is ready or running. -/
def hasActiveRun (db : DB) (jobId : ℕ) : Bool :=
  db.runs.rows.any fun r => r.jobId = jobId ∧ r.status.inFlight

/-- The deletion of `delete_job`. -/
def deleteJob (db : DB) (jobId : ℕ) : DB :=
  let runIds := (db.runs.select fun r => r.jobId = jobId).map RunRow.id
  { jobs := db.jobs.delete fun j => j.id = jobId
    runs := if runIds = [] then db.runs else db.runs.delete fun r => r.jobId = jobId
    tasks := if runIds = [] then db.tasks else db.tasks.delete fun t => t.runId ∈ runIds }

/-- The `SELECT` of `prune_runs`. -/
def selectPrunable (db : DB) (olderThan : Time) : List ℕ :=
  (db.runs.select fun r => r.status.isDone ∧ r.finishedAt.any (· < olderThan)).map RunRow.id

/-- The deletion of `prune_runs`. -/
def deleteRuns (db : DB) (runIds : List ℕ) : DB :=
  { db with
    tasks := db.tasks.delete fun t => t.runId ∈ runIds
    runs := db.runs.delete fun r => r.id ∈ runIds }

def listScheduled (db : DB) : List JobRow :=
  (db.jobs.select fun j => j.source = .scheduled ∧ j.status = .active).insertionSort
    fun i j => i.id ≤ j.id

/-- What a job must meet for `claim_scheduled` to win: it is active and due, and none of its runs
is in flight. -/
def Fires (db : DB) (now : Time) (j : JobRow) : Prop :=
  j.status = .active ∧ j.nextRunAt.any (· ≤ now) ∧ db.hasActiveRun j.id = false

instance (db : DB) (now : Time) (j : JobRow) : Decidable (db.Fires now j) :=
  inferInstanceAs (Decidable (_ ∧ _ ∧ _))

def claimScheduled (db : DB) (now : Time) (jobId : ℕ) (nextRunAt : Option Time) : DB × Bool :=
  ({ db with
    jobs := db.jobs.update (fun j => j.id = jobId ∧ db.Fires now j) fun j =>
      { j with nextRunAt := nextRunAt, updatedAt := some now } },
    (db.jobs.get? jobId).any fun j => db.Fires now j)

/-- `Reconciled`. -/
structure Reconciled where
  runs : ℕ := 0
  jobs : ℕ := 0

/-- `_RECONCILE_BATCH`. -/
def reconcileBatchSize : ℕ := 500

def abandonedError : String := "abandoned: no worker executed this run"

/-- A run that looks abandoned: ready, created before the cutoff and before the last claim, and not
waiting for a later time. -/
def Stale (cutoff : Time) (progressCutoff : Option Time) (r : RunRow) : Prop :=
  r.status = .ready ∧ r.CreatedBefore cutoff ∧ r.scheduledAt.all (· ≤ cutoff) ∧
    progressCutoff.all fun t => r.CreatedBefore t

instance (cutoff : Time) (progressCutoff : Option Time) :
    DecidablePred (Stale cutoff progressCutoff) :=
  fun _ => inferInstanceAs (Decidable (_ ∧ _ ∧ _ ∧ _))

/-- The candidates of one batch of the sweep. -/
def staleRuns (db : DB) (cutoff : Time) (progressCutoff : Option Time) : List RunRow :=
  ((db.runs.select (Stale cutoff progressCutoff)).insertionSort fun r r' => r.id ≤ r'.id).take
    reconcileBatchSize

/-- A disarmed maintained job whose candidate run is in the batch. -/
def Revives (stale : List RunRow) (j : JobRow) : Prop :=
  j.id ∈ stale.map RunRow.jobId ∧ j.source = .scheduled ∧ j.status = .active ∧ j.nextRunAt = none

instance (stale : List RunRow) : DecidablePred (Revives stale) :=
  fun _ => inferInstanceAs (Decidable (_ ∧ _ ∧ _ ∧ _))

/-- One batch of `reconcile_abandoned`: how many candidates it selected, and what it changed. -/
def reconcileBatch (db : DB) (now cutoff : Time) (progressCutoff : Option Time) :
    DB × (ℕ × Reconciled) :=
  let stale := db.staleRuns cutoff progressCutoff
  let failing : RunRow → Prop := fun r => r.id ∈ stale.map RunRow.id ∧ r.status = .ready
  ({ db with
    runs := db.runs.update failing fun r =>
      { r with status := .failed, error := some abandonedError, finishedAt := some now,
               updatedAt := some now }
    jobs := db.jobs.update (Revives stale) fun j =>
      { j with nextRunAt := some now, updatedAt := some now } },
    stale.length,
    { runs := (db.runs.select failing).length, jobs := (db.jobs.select (Revives stale)).length })

/-- A disarmed maintained job that nothing is left to re-arm. -/
def Orphaned (db : DB) (cutoff : Time) (j : JobRow) : Prop :=
  j.source = .scheduled ∧ j.status = .active ∧ j.nextRunAt = none ∧
    j.updatedAt.any (· < cutoff) ∧ db.hasActiveRun j.id = false

instance (db : DB) (cutoff : Time) : DecidablePred (db.Orphaned cutoff) :=
  fun _ => inferInstanceAs (Decidable (_ ∧ _ ∧ _ ∧ _ ∧ _))

def rearmOrphanedJobs (db : DB) (now cutoff : Time) : DB × ℕ :=
  ({ db with
    jobs := db.jobs.update (db.Orphaned cutoff) fun j =>
      { j with nextRunAt := some now, updatedAt := some now } },
    (db.jobs.select (db.Orphaned cutoff)).length)

def setNextRunAt (db : DB) (now : Time) (jobId : ℕ) (nextRunAt : Option Time) : DB :=
  { db with
    jobs := db.jobs.update (fun j => j.id = jobId) fun j =>
      { j with nextRunAt := nextRunAt, updatedAt := some now } }

/-! ### Runs -/

/-- `_run_ready_clause`: the run is ready and due, or running on an expired lease. -/
def Claimable (now leaseExpiry : Time) (r : RunRow) : Prop :=
  (r.status = .ready ∧ r.scheduledAt.all (· ≤ now)) ∨
    (r.status = .running ∧ r.lockedAt.any (· < leaseExpiry))

instance (now leaseExpiry : Time) : DecidablePred (Claimable now leaseExpiry) :=
  fun _ => inferInstanceAs (Decidable (_ ∨ _))

/-- The rows the `SELECT` of `claim` ranges over: claimable runs joined with their active job. -/
def claimCandidates (db : DB) (queue : Option String) (now leaseExpiry : Time) :
    List (RunRow × JobRow) :=
  (db.runs.select (Claimable now leaseExpiry)).filterMap fun r =>
    ((db.jobs.get? r.jobId).filter fun j =>
      j.status = .active ∧ queue.all fun q => q = "" ∨ j.queue = q).map fun j => (r, j)

/-- The order of `claim`: higher priority first, then the lower run id. -/
def ClaimBefore (a b : RunRow × JobRow) : Prop :=
  b.2.priority < a.2.priority ∨ (a.2.priority = b.2.priority ∧ a.1.id ≤ b.1.id)

instance : DecidableRel ClaimBefore := fun _ _ => inferInstanceAs (Decidable (_ ∨ _))

/-- The `SELECT` of `claim`. -/
def selectClaimable (db : DB) (queue : Option String) (now leaseExpiry : Time) : Option ℕ :=
  (((db.claimCandidates queue now leaseExpiry).insertionSort ClaimBefore).head?).map (·.1.id)

/-- What a claim writes. -/
def claimed (workerId : String) (now : Time) (r : RunRow) : RunRow :=
  { r with
    status := .running, workerId := some workerId, error := none,
    startedAt := some (r.startedAt.getD now), lockedAt := some now, updatedAt := some now }

lemma key_claimed (workerId : String) (now : Time) (r : RunRow) :
    Keyed.key (claimed workerId now r) = Keyed.key r := rfl

/-- The conditional `UPDATE` of `claim`, and the row it returns. -/
def claimRun (db : DB) (runId : ℕ) (workerId : String) (now leaseExpiry : Time) :
    DB × Option RunRow :=
  ({ db with
    runs := db.runs.update (fun r => r.id = runId ∧ Claimable now leaseExpiry r)
      (claimed workerId now) (key_claimed workerId now) },
    ((db.runs.get? runId).filter fun r => Claimable now leaseExpiry r).map (claimed workerId now))

def renewLease (db : DB) (now : Time) (runId : ℕ) (workerId : String) : DB × Bool :=
  let holds : RunRow → Prop := fun r =>
    r.id = runId ∧ r.workerId = some workerId ∧ r.status = .running
  ({ db with runs := db.runs.update holds fun r =>
      { r with lockedAt := some now, updatedAt := some now } },
    (db.runs.get? runId).any fun r => holds r)

def completeRun (db : DB) (now : Time) (runId : ℕ) (result : Value) : DB :=
  { db with runs := db.runs.update (fun r => r.id = runId ∧ r.status = .running) fun r =>
      { r with status := .succeeded, result := some result, finishedAt := some now,
               lockedAt := none, updatedAt := some now } }

/-- `fail_run`: back to ready for a later attempt, or failed for good. -/
def failRun (db : DB) (now : Time) (runId : ℕ) (error : String) (retryAt : Option Time) : DB :=
  match retryAt with
  | some t =>
    { db with runs := db.runs.update (fun r => r.id = runId ∧ r.status = .running) fun r =>
        { r with status := .ready, error := some error, scheduledAt := some t, finishedAt := none,
                 lockedAt := none, workerId := none, updatedAt := some now } }
  | none =>
    { db with runs := db.runs.update (fun r => r.id = runId ∧ r.status = .running) fun r =>
        { r with status := .failed, error := some error, finishedAt := some now, lockedAt := none,
                 updatedAt := some now } }

/-- `cancel_run`: whatever the run's status is. -/
def cancelRun (db : DB) (now : Time) (runId : ℕ) : DB :=
  { db with runs := db.runs.update (fun r => r.id = runId) fun r =>
      { r with status := .cancelled, finishedAt := some now, lockedAt := none,
               updatedAt := some now } }

def setRunCtx (db : DB) (now : Time) (runId : ℕ) (ctx : CtxDict) : DB :=
  { db with runs := db.runs.update (fun r => r.id = runId) fun r =>
      { r with ctx := some ctx, updatedAt := some now } }

def setRunProgress (db : DB) (now : Time) (runId : ℕ) (progress : Option Rat) : DB :=
  { db with runs := db.runs.update (fun r => r.id = runId) fun r =>
      { r with progress := progress, updatedAt := some now } }

def getRun (db : DB) (runId : ℕ) : Option RunRow := db.runs.get? runId

/-- `runs`: the runs of a job, newest first. -/
def runsOf (db : DB) (jobId : ℕ) : List RunRow :=
  (db.runs.select fun r => r.jobId = jobId).insertionSort fun r r' => r'.id ≤ r.id

def createRun (db : DB) (e : Env) (jobId : ℕ) (scheduledAt : Option Time) : Option (DB × RunRow) := do
  let runs ← db.runs.insert (newRun e jobId scheduledAt)
  some ({ db with runs := runs }, newRun e jobId scheduledAt)

/-! ### Tasks -/

/-- `TaskModel.run_id == run_id, TaskModel.position == position`. -/
def At (runId position : ℕ) (t : TaskRow) : Prop := t.runId = runId ∧ t.position = position

instance (runId position : ℕ) : DecidablePred (At runId position) :=
  fun _ => inferInstanceAs (Decidable (_ ∧ _))

/-- `tasks`: the records of a run in the order of their positions. -/
def tasksOf (db : DB) (runId : ℕ) : List TaskRow :=
  (db.tasks.select fun t => t.runId = runId).insertionSort fun t t' => t.position ≤ t'.position

/-- `start_task`: insert the record, or reset the one that is there. -/
def startTask (db : DB) (e : Env) (runId position : ℕ) (taskName : String) (attempts : ℕ) :
    Option (DB × Except Exc Unit) :=
  match scalarOneOrNone (db.tasks.select (At runId position)) with
  | .error exc => some (db, .error exc)
  | .ok none => do
    let tasks ← db.tasks.insert
      { id := e.taskId, runId := runId, position := position, taskName := taskName,
        status := .running, attempts := attempts, createdAt := e.now, updatedAt := some e.now,
        startedAt := some e.now }
    some ({ db with tasks := tasks }, .ok ())
  | .ok (some _) =>
    some ({ db with tasks := db.tasks.update (At runId position) fun t =>
      { t with taskName := taskName, status := .running, result := none, error := none,
               attempts := attempts, retryAt := none, updatedAt := some e.now,
               startedAt := some e.now, finishedAt := none } }, .ok ())

def succeedTask (db : DB) (now : Time) (runId position : ℕ) (result : Value) : DB :=
  { db with tasks := db.tasks.update (At runId position) fun t =>
      { t with status := .succeeded, result := some result, error := none, finishedAt := some now,
               updatedAt := some now } }

def failTask (db : DB) (now : Time) (runId position : ℕ) (error : String) (attempts : ℕ)
    (retryAt : Option Time) : DB :=
  { db with tasks := db.tasks.update (At runId position) fun t =>
      { t with status := .failed, error := some error, attempts := attempts, retryAt := retryAt,
               finishedAt := some now, updatedAt := some now } }

def cancelTask (db : DB) (now : Time) (runId position : ℕ) : DB :=
  { db with tasks := db.tasks.update (At runId position) fun t =>
      { t with status := .cancelled, finishedAt := some now, updatedAt := some now } }

def compensateTask (db : DB) (now : Time) (runId position : ℕ) : DB :=
  { db with tasks := db.tasks.update (At runId position) fun t =>
      { t with status := .compensated, compensatedAt := some now, updatedAt := some now } }

end DB

end Pyreljob
