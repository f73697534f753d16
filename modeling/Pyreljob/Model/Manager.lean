import Pyreljob.Model.Worker

/-!
The control plane and the beat: `pyreljob/manager.py`, with the backend methods that are more than
one transaction.
-/

namespace Pyreljob

open Lib

namespace JobManager

/-! ### Clients -/

/-- `enqueue`: look the key up, insert, and look it up again if the insert lost a race. -/
def enqueue (spec : JobSpec) (scheduledAt : Option Time) : Io JobRow :=
  let spec := { spec with source := .onDemand, nextRunAt := none }
  match spec.idempotencyKey with
  | none => query (.insertJobAndRun spec scheduledAt)
  | some key => do
    match ← query (.findByIdempotencyKey key) with
    | some existing => pure existing
    | none => tryCatch (query (.insertJobAndRun spec scheduledAt)) fun exc =>
        match exc with
        | .integrityError _ => do
          match ← query (.findByIdempotencyKey key) with
          | some existing => pure existing
          | none => throw exc
        | _ => throw exc

def schedule (spec : JobSpec) : Io JobRow := do
  let spec := { spec with source := .scheduled, priority := 0 }
  match ← query (.findScheduled spec.job spec.idempotencyKey) with
  | some existing => pure existing
  | none => query (.insertJob spec)

def cancel (jobId : ℕ) : Io Unit := query (.cancelJob jobId)

def delete (jobId : ℕ) : Io Unit := do
  if ← query (.hasActiveRun jobId) then
    throw (.valueError "cannot delete a job with ready or running runs; cancel it first")
  else query (.deleteJob jobId)

def prune (age : ℤ) : Io ℕ := do
  let now ← Prog.call Req.now
  let runIds ← query (.selectPrunable (now - age))
  if runIds = [] then pure 0
  else do
    query (.deleteRuns runIds)
    pure runIds.length

/-- The loop of `undo` over the records, last position first; an `undo` that raises ends it. -/
def undoFrom (runId : ℕ) (cls : JobCls) : List TaskRow → TaskContext → Io Unit
  | [], _ => pure ()
  | record :: records, ctx =>
    if record.status ≠ .succeeded then undoFrom runId cls records ctx
    else match Worker.taskForRecord record cls with
      | .error exc => throw exc
      | .ok _ => do
        let (raised, state) ← Prog.call (Req.undo runId record.position ctx)
        match raised with
        | some exc => throw exc
        | none => do
          query (.compensateTask runId record.position)
          undoFrom runId cls records { ctx with state := state }

/-- `undo`: compensate the job's most recent run. -/
def undo (resolve : String → Option JobCls) (jobId : ℕ) : Io Unit := do
  match ← query (.getJob jobId) with
  | none => throw (.keyError ("no job with id " ++ toString jobId))
  | some record => do
    match ← query (.runsOf jobId) with
    | [] => pure ()
    | run :: _ =>
      match resolve record.job with
      | none => throw (.valueError ("cannot resolve job class '" ++ record.job ++ "'"))
      | some cls => do
        let ctx := { Worker.buildCtx run record with progress := none }
        let records ← query (.tasksOf run.id)
        undoFrom run.id cls records.reverse ctx

/-! ### The beat -/

/-- The loop of `reconcile_abandoned`, at most `fuel` batches of it; `none` if it is stopped before
its end. -/
def sweep (now cutoff : Time) (progressCutoff : Option Time) :
    ℕ → DB.Reconciled → Io (Option DB.Reconciled)
  | 0, _ => pure none
  | fuel + 1, total => do
    let (stale, changed) ← query (.reconcileBatch now cutoff progressCutoff)
    let total : DB.Reconciled :=
      { runs := total.runs + changed.runs, jobs := total.jobs + changed.jobs }
    if stale < DB.reconcileBatchSize ∨ (changed.runs = 0 ∧ changed.jobs = 0) then pure (some total)
    else sweep now cutoff progressCutoff fuel total

def reconcileAbandoned (graceSeconds : ℤ) (fuel : ℕ) : Io (Option DB.Reconciled) := do
  let now ← Prog.call Req.now
  let cutoff := now - seconds graceSeconds
  let progressCutoff ← Prog.call Req.lastClaimAt
  match ← sweep now cutoff progressCutoff fuel {} with
  | none => pure none
  | some total => do
    let rearmed ← query (.rearmOrphanedJobs now cutoff)
    pure (some { total with jobs := total.jobs + rearmed })

def isMisfired (nextRunAt : Option Time) (now : Time) (grace : Option ℤ) : Bool :=
  match grace, nextRunAt with
  | some grace, some t => seconds grace < now - t
  | _, _ => false

/-- The loop of `tick` over the listed jobs. -/
def fireDue (misfireGrace : Option ℤ) : List JobRow → Io Unit
  | [] => pure ()
  | job :: jobs => do
    let now ← Prog.call Req.now
    if job.nextRunAt.any (now < ·) then fireDue misfireGrace jobs
    else do
      if ← query (.claimScheduled job.id none) then
        if isMisfired job.nextRunAt now misfireGrace then fireDue misfireGrace jobs
        else do
          let _ ← query (.createRun job.id none)
          fireDue misfireGrace jobs
      else fireDue misfireGrace jobs

/-- `tick`; `fuel` bounds the batches of its reconcile pass. -/
def tick (graceSeconds : ℤ) (misfireGrace : Option ℤ) (fuel : ℕ) : Io Unit := do
  match ← reconcileAbandoned graceSeconds fuel with
  | none => pure ()
  | some _ => do
    let jobs ← query .listScheduled
    fireDue misfireGrace jobs

end JobManager

end Pyreljob
