import Pyreljob.Model.Rows

/-!
What a worker knows about user code: `pyreljob/task.py`.

A task class is its name, the name stored for it and its retry budget; what its `run` and `undo` do
is not part of the model, they answer requests. Task code may change `ctx.state`, which is what the
class offers it for; `ctx.results` is written by the worker.
-/

namespace Pyreljob

open Lib

/-! ### Exceptions -/

/-- An exception: its class, as far as the code tells classes apart, and its message. -/
inductive Exc
  | jobCancelledError (msg : String)
  | integrityError (msg : String)
  | multipleResultsFound
  | valueError (msg : String)
  | keyError (msg : String)
  | other (name msg : String)
  deriving DecidableEq

namespace Exc

/-- `isinstance(exc, JobCancelledError)`. -/
def isJobCancelled : Exc → Bool
  | jobCancelledError _ => true
  | _ => false

/-- `type(exc).__name__`. -/
def name : Exc → String
  | jobCancelledError _ => "JobCancelledError"
  | integrityError _ => "IntegrityError"
  | multipleResultsFound => "MultipleResultsFound"
  | valueError _ => "ValueError"
  | keyError _ => "KeyError"
  | other name _ => name

/-- `str(exc)`. -/
def msg : Exc → String
  | jobCancelledError m | integrityError m | valueError m | keyError m | other _ m => m
  | multipleResultsFound => "Multiple rows were found when one or none was required"

/-- The error the worker stores: `f"{type(exc).__name__}: {exc}"`. -/
def text (e : Exc) : String := e.name ++ ": " ++ e.msg

end Exc

/-! ### Job and task classes -/

/-- A `Task` subclass: `__name__`, `task_name()` and `max_attempts`. -/
structure TaskCls where
  name : String
  taskName : String := name
  maxAttempts : Option ℤ := none
  deriving DecidableEq

/-- A `Job` subclass: its dotted path and its ordered task list. -/
structure JobCls where
  name : String
  tasks : List TaskCls
  deriving DecidableEq

/-- The tasks of the class have distinct names, so that `ctx.results` keeps one entry for each. -/
def JobCls.Distinct (cls : JobCls) : Prop := (cls.tasks.map TaskCls.name).Nodup

instance (cls : JobCls) : Decidable cls.Distinct :=
  inferInstanceAs (Decidable (List.Nodup _))

/-! ### The context -/

/-- `TaskContext`: the state that flows through the task executions of a run. -/
structure TaskContext where
  jobId : ℕ
  job : String
  args : Dict Value := []
  results : Dict Value := []
  state : Dict Value := []
  cancelled : Bool := false
  progress : Option Rat := none

namespace TaskContext

/-- `as_dict`: what is stored, without the live cancel flag and the progress. -/
def asDict (ctx : TaskContext) : CtxDict where
  jobId := ctx.jobId
  job := ctx.job
  args := ctx.args
  results := ctx.results
  state := ctx.state

def fromDict (d : CtxDict) : TaskContext where
  jobId := d.jobId
  job := d.job
  args := d.args
  results := d.results
  state := d.state

end TaskContext

/-- What the body of a task did: it returned a value or raised (a timeout is one way to). -/
abbrev Outcome := Except Exc Value

end Pyreljob
