import Mathlib.Data.Int.Notation
import Pyreljob.Lib.Table
import Pyreljob.Lib.Dict

/-!
The three tables, after all migrations: `pyreljob/models/orm.py` and the records and statuses of
`pyreljob/job.py`.

A time is a UTC instant in microseconds. A column that may be `NULL` is an `Option`; a comparison
with `NULL` is never true in a `WHERE` clause, which is `Option.any` below, and `IS NULL OR ...` is
`Option.all`. Two times compare as the instants do, with one exception: SQLite compares them as texts,
and the text of `CURRENT_TIMESTAMP` lacks the fraction that the client's clock writes, so it is the
smaller of the two where the instants are equal. Only `runs.created_at` is both written by the server
and compared. Values of the JSON columns are `Value`s; `runs.ctx` only ever holds what
`TaskContext.as_dict` returns, so its column has that type.
-/

namespace Pyreljob

open Lib

/-- A UTC instant, in microseconds. -/
abbrev Time := ℤ

/-- `timedelta(seconds=n)`. -/
def seconds (n : ℤ) : ℤ := n * 1000000

/-- What a JSON column can hold. -/
inductive Value
  | null
  | bool (b : Bool)
  | num (n : ℤ)
  /-- A `float`, which is finite. -/
  | float (x : Rat)
  | str (s : String)
  | list (l : List Value)
  | dict (d : List (String × Value))

instance : Inhabited Value := ⟨.null⟩

namespace Value

mutual

/-- Two values are compared part by part. -/
def decEq : (v w : Value) → Decidable (v = w)
  | .null, .null => .isTrue rfl
  | .bool b, .bool b' => decidable_of_iff (b = b') (by simp)
  | .num n, .num n' => decidable_of_iff (n = n') (by simp)
  | .float x, .float x' => decidable_of_iff (x = x') (by simp)
  | .str s, .str s' => decidable_of_iff (s = s') (by simp)
  | .list l, .list l' => @decidable_of_iff _ (l = l') (by simp) (decEqs l l')
  | .dict d, .dict d' => @decidable_of_iff _ (d = d') (by simp) (decEqItems d d')
  | .null, .bool _ | .null, .num _ | .null, .float _ | .null, .str _ | .null, .list _ | .null, .dict _
  | .bool _, .null | .bool _, .num _ | .bool _, .float _ | .bool _, .str _ | .bool _, .list _
  | .bool _, .dict _ | .num _, .null | .num _, .bool _ | .num _, .float _ | .num _, .str _
  | .num _, .list _ | .num _, .dict _ | .float _, .null | .float _, .bool _ | .float _, .num _
  | .float _, .str _ | .float _, .list _ | .float _, .dict _ | .str _, .null | .str _, .bool _
  | .str _, .num _ | .str _, .float _ | .str _, .list _ | .str _, .dict _ | .list _, .null
  | .list _, .bool _ | .list _, .num _ | .list _, .float _ | .list _, .str _ | .list _, .dict _
  | .dict _, .null | .dict _, .bool _ | .dict _, .num _ | .dict _, .float _ | .dict _, .str _
  | .dict _, .list _ =>
    .isFalse nofun

def decEqs : (l l' : List Value) → Decidable (l = l')
  | [], [] => .isTrue rfl
  | [], _ :: _ | _ :: _, [] => .isFalse nofun
  | v :: l, v' :: l' => @decidable_of_iff _ (v = v' ∧ l = l') (by simp)
    (@instDecidableAnd _ _ (decEq v v') (decEqs l l'))

def decEqItems : (d d' : List (String × Value)) → Decidable (d = d')
  | [], [] => .isTrue rfl
  | [], _ :: _ | _ :: _, [] => .isFalse nofun
  | (k, v) :: d, (k', v') :: d' =>
    @decidable_of_iff _ (k = k' ∧ v = v' ∧ d = d') (by simp [and_assoc])
      (@instDecidableAnd _ _ _ (@instDecidableAnd _ _ (decEq v v') (decEqItems d d')))

end

instance : DecidableEq Value := decEq

end Value

/-! ### Statuses -/

inductive JobStatus
  | active | cancelled
  deriving DecidableEq

inductive JobSource
  | onDemand | scheduled
  deriving DecidableEq

inductive RunStatus
  | ready | running | succeeded | failed | cancelled
  deriving DecidableEq

inductive TaskStatus
  | ready | running | succeeded | failed | cancelled | compensated
  deriving DecidableEq

namespace RunStatus

/-- `status.in_([READY, RUNNING])`. -/
def inFlight : RunStatus → Bool
  | ready | running => true
  | succeeded | failed | cancelled => false

/-- `RunRecord.is_done`. -/
def isDone : RunStatus → Bool
  | succeeded | failed | cancelled => true
  | ready | running => false

lemma isDone_eq_not_inFlight (s : RunStatus) : s.isDone = !s.inFlight := by cases s <;> rfl

end RunStatus

/-! ### Rows -/

/-- The mapping `TaskContext.as_dict` returns, as stored in `runs.ctx`. -/
structure CtxDict where
  jobId : ℕ
  job : String
  args : Dict Value
  results : Dict Value
  state : Dict Value

/-- A row of `jobs`, with the defaults of `JobModel`. -/
structure JobRow where
  id : ℕ
  job : String
  queue : String := "default"
  status : JobStatus := .active
  args : Option (Dict Value) := none
  priority : ℤ := 0
  source : JobSource := .onDemand
  nextRunAt : Option Time := none
  maxAttempts : ℤ := 3
  retries : ℤ := 0
  attempts : ℕ := 0
  idempotencyKey : Option String := none
  tags : Option (List String) := none
  createdAt : Time
  updatedAt : Option Time := none

/-- A row of `runs`, with the defaults of `RunModel`. -/
structure RunRow where
  id : ℕ
  jobId : ℕ
  status : RunStatus := .ready
  result : Option Value := none
  error : Option String := none
  ctx : Option CtxDict := none
  workerId : Option String := none
  progress : Option Rat := none
  scheduledAt : Option Time := none
  createdAt : Time
  /-- `created_at` is a text without a fraction of a second, as SQLite's `CURRENT_TIMESTAMP` is. -/
  createdBare : Bool := false
  updatedAt : Option Time := none
  startedAt : Option Time := none
  finishedAt : Option Time := none
  lockedAt : Option Time := none

/-- A row of `tasks`, with the defaults of `TaskModel`. -/
structure TaskRow where
  id : ℕ
  runId : ℕ
  position : ℕ
  taskName : String
  status : TaskStatus := .ready
  result : Option Value := none
  error : Option String := none
  attempts : ℕ := 0
  retryAt : Option Time := none
  createdAt : Time
  updatedAt : Option Time := none
  startedAt : Option Time := none
  finishedAt : Option Time := none
  compensatedAt : Option Time := none

instance : Keyed JobRow := ⟨JobRow.id⟩
instance : Keyed RunRow := ⟨RunRow.id⟩
instance : Keyed TaskRow := ⟨TaskRow.id⟩

@[simp] lemma JobRow.key_eq (j : JobRow) : Keyed.key j = j.id := rfl
@[simp] lemma RunRow.key_eq (r : RunRow) : Keyed.key r = r.id := rfl
@[simp] lemma TaskRow.key_eq (t : TaskRow) : Keyed.key t = t.id := rfl

/-- The database: the only state the components share. -/
structure DB where
  jobs : Table JobRow := .empty
  runs : Table RunRow := .empty
  tasks : Table TaskRow := .empty

/-- What the rows that a transaction writes depend on: the reading of the client's clock, the server's
`CURRENT_TIMESTAMP` and whether it is written without a fraction, and the keys the database hands out.
Successive readings of the client's clock inside one transaction are taken as one. -/
structure Env where
  now : Time
  createdAt : Time := now
  createdBare : Bool := false
  jobId : ℕ := 0
  runId : ℕ := 0
  taskId : ℕ := 0

/-- The keys are above all that were handed out before. -/
def Env.Fresh (e : Env) (db : DB) : Prop :=
  db.jobs.seq ≤ e.jobId ∧ db.runs.seq ≤ e.runId ∧ db.tasks.seq ≤ e.taskId

instance (e : Env) (db : DB) : Decidable (e.Fresh db) :=
  inferInstanceAs (Decidable (_ ∧ _ ∧ _))

/-! ### The databases -/

inductive Dialect
  | sqlite
  | postgres

namespace Dialect

/-- `CURRENT_TIMESTAMP`: SQLite leaves out the fraction of the second. -/
def currentTimestamp : Dialect → Time → Time
  | sqlite, now => now - now % 1000000
  | postgres, now => now

/-- It is a text without a fraction. -/
def bare : Dialect → Bool
  | sqlite => true
  | postgres => false

end Dialect

end Pyreljob
