import Pyreljob.Lib.Sql
import Pyreljob.Model.Migrations
import Pyreljob.Model.Rows

/-!
`pyreljob/migrations/versions.py`: the ten steps, statement by statement.

A session is the transaction of a step. The types of the columns are left out, and so are the defaults
of `ctx` and its like, which are `NULL`; both `_id_column`s count the insertions.
-/

namespace Pyreljob

open Lib Lib.Sql

/-- What a cell can hold. -/
inductive SqlValue
  | int (n : ℤ)
  | text (s : String)
  | json (v : Value)
  | time (t : Time)
  deriving DecidableEq

namespace Versions

/-! ### The tables -/

def idColumn : Column SqlValue := { default := .key, notNull := true }

/-- `... NOT NULL`. -/
def required : Column SqlValue := { notNull := true }

/-- A column that may be `NULL`. -/
def nullable : Column SqlValue := {}

/-- `... NOT NULL DEFAULT n`. -/
def number (n : ℤ) : Column SqlValue := { default := .value (some (.int n)), notNull := true }

/-- `... NOT NULL DEFAULT 's'`. -/
def literal (s : String) : Column SqlValue := { default := .value (some (.text s)), notNull := true }

/-- `TIMESTAMP NOT NULL DEFAULT CURRENT_TIMESTAMP`. -/
def createdAt : Column SqlValue := { default := .currentTimestamp, notNull := true }

def runsTable : Dict (Column SqlValue) :=
  [("id", idColumn), ("job_id", required), ("status", literal "pending"), ("result", nullable),
    ("error", nullable), ("ctx", nullable), ("worker_id", nullable), ("scheduled_at", nullable),
    ("created_at", createdAt), ("started_at", nullable), ("finished_at", nullable),
    ("locked_at", nullable)]

def tasksTable : Dict (Column SqlValue) :=
  [("id", idColumn), ("run_id", required), ("position", required), ("task_name", required),
    ("status", literal "pending"), ("result", nullable), ("error", nullable), ("attempts", number 0),
    ("retry_at", nullable), ("started_at", nullable), ("finished_at", nullable),
    ("compensated_at", nullable)]

def jobsTable : Dict (Column SqlValue) :=
  [("id", idColumn), ("name", required), ("queue", literal "default"), ("status", literal "pending"),
    ("payload", nullable), ("result", nullable), ("error", nullable), ("attempts", number 0),
    ("max_attempts", number 3), ("priority", number 0), ("worker_id", nullable),
    ("schedule", nullable), ("created_at", createdAt), ("scheduled_at", nullable),
    ("started_at", nullable), ("finished_at", nullable), ("next_run_at", nullable)]

/-! ### The steps -/

section

variable (c : Sql.Session SqlValue) (db : Database SqlValue)

def createJobsTable : Except Fault (Database SqlValue) := do
  let db := db.createTable "jobs" jobsTable
  let db ← db.createIndex
    { name := "ix_jobs_queue_status", table := "jobs", columns := ["queue", "status"] }
  let db ← db.createIndex { name := "ix_jobs_scheduled_at", table := "jobs", columns := ["scheduled_at"] }
  db.createIndex { name := "ix_jobs_next_run_at", table := "jobs", columns := ["next_run_at"] }

def createScheduleIndex : Except Fault (Database SqlValue) :=
  db.createIndex { name := "ix_jobs_name_schedule", table := "jobs", columns := ["name", "schedule"] }

def addLockedAt : Except Fault (Database SqlValue) := do
  let columns ← db.columns "jobs"
  if "locked_at" ∉ columns then db.addColumn c "jobs" "locked_at" nullable else pure db

/-- `CASE WHEN status = 'running' THEN 'pending' ELSE status END`. -/
def backfilledStatus (r : Row SqlValue) : Option SqlValue :=
  if r "status" = some (.text "running") then some (.text "pending") else r "status"

/-- `CASE WHEN status = 'cancelled' THEN 'cancelled' ELSE 'active' END`. -/
def entityStatus (r : Row SqlValue) : Option SqlValue :=
  some (.text (if r "status" = some (.text "cancelled") then "cancelled" else "active"))

/-- The `SELECT` of the backfill, with the column that each item reads. -/
def backfill : List (String × String × (Row SqlValue → Option SqlValue)) :=
  ("job_id", "id", fun r => r "id") :: ("status", "status", backfilledStatus) ::
    ["result", "error", "worker_id", "scheduled_at", "started_at", "finished_at", "locked_at",
      "created_at"].map fun column => (column, column, fun r => r column)

/-- The columns whose state moved to `runs`. -/
def moved : List String :=
  ["schedule", "result", "error", "attempts", "worker_id", "scheduled_at", "started_at",
    "finished_at", "locked_at"]

/-- The loop over the columns that moved. -/
def dropMoved (columns : List String) : List String → Database SqlValue →
    Except Fault (Database SqlValue)
  | [], db => pure db
  | column :: rest, db => do
    let db ← (if column ∈ columns then db.dropColumn c "jobs" column else pure db)
    dropMoved columns rest db

def jobRunTaskModel : Except Fault (Database SqlValue) := do
  let db := db.createTable "runs" runsTable
  let db ← db.createIndex { name := "ix_runs_job_id", table := "runs", columns := ["job_id"] }
  let db := db.createTable "tasks" tasksTable
  let db ← db.createIndex { name := "ix_tasks_run_id", table := "tasks", columns := ["run_id"] }
  let columns ← db.columns "jobs"
  let db := db.dropIndex "ix_jobs_name_schedule"
  let db := db.dropIndex "ix_jobs_name"
  let db := db.dropIndex "ix_jobs_scheduled_at"
  let db ← (if "name" ∈ columns ∧ "job" ∉ columns then db.renameColumn "jobs" "name" "job" else pure db)
  let db ← (if "payload" ∈ columns ∧ "args" ∉ columns then db.renameColumn "jobs" "payload" "args"
    else pure db)
  let db ← (if "source" ∉ columns then db.addColumn c "jobs" "source" (literal "on_demand") else pure db)
  let db ← (if "cron" ∉ columns then db.addColumn c "jobs" "cron" nullable else pure db)
  let db ← (if "idempotency_key" ∉ columns then db.addColumn c "jobs" "idempotency_key" nullable
    else pure db)
  let db ← (if "schedule" ∈ columns then
      db.update "jobs" ["schedule"] (fun r => (r "schedule").isSome)
        [("source", fun _ => some (.text "scheduled")), ("cron", fun r => r "schedule")]
    else pure db)
  let db ← (if "status" ∈ columns then db.insertSelect c "runs" "jobs" backfill else pure db)
  let db ← (if "status" ∈ columns then
      db.update "jobs" ["status"] (fun _ => true) [("status", entityStatus)]
    else pure db)
  let db ← dropMoved c columns moved db
  db.createIndex
    { name := "ux_jobs_idempotency_key", table := "jobs", columns := ["idempotency_key"], unique := true }

def addTimestamps : Except Fault (Database SqlValue) := do
  let jobs ← db.columns "jobs"
  let runs ← db.columns "runs"
  let tasks ← db.columns "tasks"
  let db ← (if "updated_at" ∉ jobs then db.addColumn c "jobs" "updated_at" nullable else pure db)
  let db ← (if "updated_at" ∉ runs then db.addColumn c "runs" "updated_at" nullable else pure db)
  let db ← (if "created_at" ∉ tasks then db.addColumn c "tasks" "created_at" createdAt else pure db)
  if "updated_at" ∉ tasks then db.addColumn c "tasks" "updated_at" nullable else pure db

def addJobRetries : Except Fault (Database SqlValue) := do
  let columns ← db.columns "jobs"
  let db ← (if "retries" ∉ columns then db.addColumn c "jobs" "retries" (number 0) else pure db)
  if "attempts" ∉ columns then db.addColumn c "jobs" "attempts" (number 0) else pure db

def dropCronColumn : Except Fault (Database SqlValue) := do
  let columns ← db.columns "jobs"
  if "cron" ∈ columns then db.dropColumn c "jobs" "cron" else pure db

/-- `status = 'pending'`. -/
def isPending (r : Row SqlValue) : Bool := r "status" = some (.text "pending")

def renamePendingToReady : Except Fault (Database SqlValue) := do
  let db ← db.update "runs" ["status"] isPending [("status", fun _ => some (.text "ready"))]
  db.update "tasks" ["status"] isPending [("status", fun _ => some (.text "ready"))]

def addRunProgress : Except Fault (Database SqlValue) := do
  let columns ← db.columns "runs"
  if "progress" ∉ columns then db.addColumn c "runs" "progress" nullable else pure db

def addJobTags : Except Fault (Database SqlValue) := do
  let columns ← db.columns "jobs"
  if "tags" ∉ columns then db.addColumn c "jobs" "tags" nullable else pure db

end

/-- What SQLAlchemy raises. -/
def raised : Fault → Exc
  | .noSuchTable table => .other "NoSuchTableError" table
  | .noSuchColumn column => .other "OperationalError" s!"no such column: {column}"
  | .duplicateColumn column => .other "OperationalError" s!"duplicate column name: {column}"
  | .indexedColumn column => .other "OperationalError" s!"error in index after drop column: {column}"
  | .nonConstantDefault _ => .other "OperationalError" "Cannot add a column with non-constant default"
  | .notNull column => .integrityError s!"NOT NULL constraint failed: {column}"
  | .notUnique index => .integrityError s!"UNIQUE constraint failed: {index}"

end Versions

open Versions

/-- `MIGRATIONS`, on this dialect. -/
def MIGRATIONS (c : Sql.Session SqlValue) : List (Migration (Database SqlValue)) :=
  [⟨1, "create jobs table", fun db => (createJobsTable db).mapError raised⟩,
    ⟨2, "index job schedule", fun db => (createScheduleIndex db).mapError raised⟩,
    ⟨3, "add job lease (locked_at)", fun db => (addLockedAt c db).mapError raised⟩,
    ⟨4, "job entities, runs, tasks", fun db => (jobRunTaskModel c db).mapError raised⟩,
    ⟨5, "add created_at/updated_at timestamps", fun db => (addTimestamps c db).mapError raised⟩,
    ⟨6, "add job-level retries", fun db => (addJobRetries c db).mapError raised⟩,
    ⟨7, "drop cron column", fun db => (dropCronColumn c db).mapError raised⟩,
    ⟨8, "rename pending runs/tasks to ready", fun db => (renamePendingToReady db).mapError raised⟩,
    ⟨9, "add run progress column", fun db => (addRunProgress c db).mapError raised⟩,
    ⟨10, "add job tags column", fun db => (addJobTags c db).mapError raised⟩]

end Pyreljob
