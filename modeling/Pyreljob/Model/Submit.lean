import Pyreljob.Model.Manager

/-!
How a `Job` becomes a row: `validate_job` of `pyreljob/task.py`, and `enqueue` and `schedule` of
`pyreljob/manager.py`.

What the methods of an instance return is part of the instance here. The manager reads the attributes
of its class and hands them to the backend, as far as the backend asks for them.
-/

namespace Pyreljob

open Lib

/-- A `Job` subclass, with the class attributes that the manager reads. -/
structure JobType extends JobCls where
  /-- `__name__`. -/
  shortName : String
  queue : String := "default"
  priority : ℤ := 0

/-- A `Job` instance: its class, and what its methods return or raise. -/
structure Job where
  cls : JobType
  /-- `as_dict`. -/
  asDict : Except Exc (Dict Value)
  /-- `next_runtime`, for a job that has not run. -/
  firstRuntime : Except Exc (Option Time) := .ok none

/-- The keyword arguments that `enqueue` and `schedule` share. -/
structure SubmitArgs where
  queue : Option String := none
  maxAttempts : ℤ := 3
  retries : ℤ := 0
  idempotencyKey : Option String := none
  tags : Option (List String) := none

namespace Job

/-- `validate_job`. -/
def validate (job : Job) : Except Exc Unit :=
  if job.cls.tasks = [] then
    .error (.valueError (job.cls.shortName ++ ".tasks must declare at least one Task"))
  else match job.asDict with
    | .ok _ => .ok ()
    | .error exc =>
      if exc.name = "TypeError" ∨ exc.name = "NotImplementedError" then
        .error (.other "TypeError" (job.cls.shortName ++
          " must be serializable: either a @dataclass or implement as_dict()/from_dict()"))
      else .error exc

/-- `queue or job.queue`. -/
def queueOr (job : Job) : Option String → String
  | none => job.cls.queue
  | some queue => if queue = "" then job.cls.queue else queue

/-- What `enqueue` passes to the backend, with the priority it is called with. -/
def enqueueSpec (job : Job) (args : Dict Value) (priority : Option ℤ) (a : SubmitArgs) : JobSpec where
  job := job.cls.name
  queue := job.queueOr a.queue
  args := some args
  priority := priority.getD job.cls.priority
  maxAttempts := a.maxAttempts
  retries := a.retries
  idempotencyKey := a.idempotencyKey
  tags := a.tags

/-- What `schedule` passes to the backend, which is not asked for a priority. -/
def scheduleSpec (job : Job) (args : Dict Value) (nextRun : Option Time) (a : SubmitArgs) : JobSpec where
  job := job.cls.name
  queue := job.queueOr a.queue
  args := some args
  nextRunAt := nextRun
  maxAttempts := a.maxAttempts
  retries := a.retries
  idempotencyKey := a.idempotencyKey
  tags := a.tags

end Job

namespace JobManager

/-- What raises ends the call. -/
def attempt {α : Type} : Except Exc α → Io α
  | .ok v => pure v
  | .error exc => throw exc

/-- `enqueue`, from the instance on. -/
def enqueueJob (job : Job) (priority : Option ℤ) (scheduledAt : Option Time) (a : SubmitArgs) :
    Io JobRow := do
  attempt job.validate
  let args ← attempt job.asDict
  enqueue (job.enqueueSpec args priority a) scheduledAt

/-- `schedule`, from the instance on. -/
def scheduleJob (job : Job) (a : SubmitArgs) : Io JobRow := do
  attempt job.validate
  let nextRun ← attempt job.firstRuntime
  let args ← attempt job.asDict
  schedule (job.scheduleSpec args nextRun a)

end JobManager

end Pyreljob
