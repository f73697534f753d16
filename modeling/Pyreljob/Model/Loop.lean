import Mathlib.Logic.Relation
import Pyreljob.Model.Worker

/-!
One worker process from inside: `Worker._main` and the coroutines it starts, `pyreljob/worker.py`.

Three kinds of coroutines share `_running`, `_active` and `pending`: the main loop, which claims runs
and dispatches them, the heartbeat loop, and one `_execute` for every run dispatched. The event loop
lets one of them go on at a time, from one `await` to the next; a signal may call `stop()` between
any two of these stretches, and between the two tests of `_running` that the main loop makes in one.
What the backend replies is left open here: any reply, and any exception, at every call.
-/

namespace Pyreljob

open Lib

/-! ### The coroutine of an execution -/

/-- What `_execute` awaits, and what it does to `_active` on the way. -/
inductive Await
  /-- A request, as in the program of a worker. -/
  | io (r : Req)
  /-- `self._active[run.id] = (run.job_id, ctx)`. -/
  | enter
  /-- `self._active.pop(run.id, None)`. -/
  | leave

/-- What these return. -/
abbrev Await.Reply : Await → Type
  | .io r => r.Reply
  | .enter | .leave => Unit

/-- A coroutine of an execution. -/
abbrev Co (α : Type) := Prog Await Await.Reply Exc α

namespace Co

variable {α β : Type}

/-- A program that does not touch `_active`. -/
def io : Io α → Co α
  | .ret v => .ret v
  | .ask r k => .ask (.io r) fun y => io (k y)

/-- The program that is left when `_active` is forgotten. -/
def erase : Co α → Io α
  | .ret v => .ret v
  | .ask (.io r) k => .ask r fun y => erase (k y)
  | .ask .enter k => erase (k (.ok ()))
  | .ask .leave k => erase (k (.ok ()))

@[simp] lemma erase_io (p : Io α) : erase (io p) = p := by
  induction p with
  | ret v => rfl
  | ask r k ih => exact congrArg (Prog.ask r) (funext ih)

lemma erase_bind (p : Co α) (f : α → Co β) : erase (p >>= f) = erase p >>= fun a => erase (f a) := by
  induction p with
  | ret v => cases v <;> rfl
  | ask r k ih =>
    cases r with
    | io r => exact congrArg (Prog.ask r) (funext ih)
    | enter | leave => exact ih (.ok ())

lemma erase_tryCatch (p : Co α) (h : Exc → Co α) :
    erase (tryCatch p h) = tryCatch (erase p) fun e => erase (h e) := by
  induction p with
  | ret v => cases v <;> rfl
  | ask r k ih =>
    cases r with
    | io r => exact congrArg (Prog.ask r) (funext ih)
    | enter | leave => exact ih (.ok ())

lemma erase_tryFinally (p : Co α) {q : Co Unit} (hq : erase q = pure ()) :
    erase (p.tryFinally q) = erase p := by
  induction p with
  | ret v =>
    change erase (q >>= fun _ => .ret v) = _
    rw [erase_bind, hq]
    rfl
  | ask r k ih =>
    cases r with
    | io r => exact congrArg (Prog.ask r) (funext ih)
    | enter | leave => exact ih (.ok ())

end Co

namespace Worker

/-- `_run`, with what it does to `_active`. -/
def coRun (w : Worker) (run : RunRow) : Co Unit := do
  match ← Co.io (query (.getJob run.jobId)) with
  | none => Co.io (query (.failRun run.id "job no longer exists" none))
  | some job =>
    if job.status = .cancelled then Co.io (query (.cancelRun run.id))
    else match w.resolve job.job with
      | none => Co.io (query (.failRun run.id ("No class registered for '" ++ job.job ++ "'") none))
      | some cls => do
        let records ← Co.io (query (.tasksOf run.id))
        Prog.call Await.enter
        (Co.io (resume run job cls records)).tryFinally (Prog.call Await.leave)

/-- `_execute`, with what it does to `_active`. -/
def coExecute (w : Worker) (run : RunRow) : Co Unit :=
  tryCatch (w.coRun run) fun _ => Co.io do
    query (.failRun run.id "unhandled error" none)
    rescheduleOnError run

lemma erase_coRun (w : Worker) (run : RunRow) : (w.coRun run).erase = w.run run := by
  rw [coRun, Co.erase_bind, Co.erase_io, Worker.run]
  refine congrArg (query (.getJob run.jobId) >>= ·) (funext fun job => ?_)
  cases job with
  | none => exact Co.erase_io _
  | some job =>
    dsimp only
    split
    · exact Co.erase_io _
    cases w.resolve job.job with
    | none => exact Co.erase_io _
    | some cls =>
      dsimp only
      rw [Co.erase_bind, Co.erase_io]
      refine congrArg (query (.tasksOf run.id) >>= ·) (funext fun records => ?_)
      exact (Co.erase_tryFinally _ rfl).trans (Co.erase_io _)

/-- **The coroutine is the program of the worker** as far as the backend can tell. -/
theorem erase_coExecute (w : Worker) (run : RunRow) : (w.coExecute run).erase = w.execute run := by
  rw [coExecute, Co.erase_tryCatch, erase_coRun, Worker.execute]
  simp only [Co.erase_io]

end Worker

/-! ### The state of the process -/

/-- An entry of `_active`: a run, its job, and the execution whose context it holds. -/
structure Entry where
  runId : ℕ
  jobId : ℕ
  exec : ℕ
  deriving DecidableEq

/-- `self._active[x.runId] = …`: written in place if the run is there, at the end if not. -/
def register (x : Entry) : List Entry → List Entry
  | [] => [x]
  | y :: active => if y.runId = x.runId then x :: active else y :: register x active

/-- `self._active.pop(runId, None)`. -/
def unregister (runId : ℕ) (active : List Entry) : List Entry :=
  active.filter fun y => y.runId ≠ runId

/-- An execution: a call of `_execute`. -/
structure Execution where
  runId : ℕ
  jobId : ℕ
  co : Co Unit
  /-- It is in the `try` block of `_run`, having entered the run in `_active`. -/
  inside : Bool := false
  /-- The process was told that the job is cancelled: by `is_job_cancelled`, whereupon the context
  of the execution says so, too, or by the row of the job. -/
  cancelled : Bool := false
  /-- `renew_lease` has told that the lease is lost. -/
  lost : Bool := false

/-- It has not finished. -/
abbrev Execution.unfinished (e : Execution) : Bool := e.co.waiting

/-- Where the main loop is. -/
inductive Main
  /-- At `while self._running`. -/
  | loop
  /-- At `while self._running and len(pending) < self._max_concurrency`. -/
  | fill
  /-- It awaits `claim`. -/
  | claiming
  /-- It sleeps, having nothing pending. -/
  | sleeping
  /-- It awaits the first of the pending executions, or the timeout. -/
  | waiting
  /-- It sleeps after a failed poll. -/
  | backingOff
  /-- It awaits all that is pending. -/
  | draining
  | ended
  deriving DecidableEq

/-- Where the heartbeat loop is. -/
inductive Heartbeat
  /-- Created, and not begun. -/
  | starting
  /-- At `while self._running`. -/
  | loop
  | sleeping
  /-- It awaits `is_job_cancelled` for an entry; the rest of the pass follows. -/
  | asking (x : Entry) (rest : List Entry)
  /-- It awaits `renew_lease` for an entry; the rest of the pass follows. -/
  | renewing (x : Entry) (rest : List Entry)
  /-- It has returned, an exception has ended it, or it was cancelled. -/
  | ended
  deriving DecidableEq

/-- What is left of a pass. -/
def Heartbeat.visit : List Entry → Heartbeat
  | [] => .loop
  | x :: rest => .asking x rest

/-- The entries that are left of a pass, the one that is being asked about included. -/
def Heartbeat.todo : Heartbeat → List Entry
  | .asking x rest => x :: rest
  | .renewing _ rest => rest
  | .starting | .loop | .sleeping | .ended => []

@[simp] lemma Heartbeat.todo_visit (l : List Entry) : (visit l).todo = l := by cases l <;> rfl

/-- The state of a worker process. -/
structure Process where
  /-- `_running`. -/
  running : Bool := true
  main : Main := .loop
  heartbeat : Heartbeat := .starting
  /-- `_active`. -/
  active : List Entry := []
  /-- `pending`, as the numbers of executions. -/
  pending : List ℕ := []
  /-- Every run that was dispatched. -/
  executions : List Execution := []

/-- What happens next in a process. -/
inductive Move
  /-- `stop()`. -/
  | stop
  /-- The main loop goes on: a test of `while`, or the end of a sleep or a wait. -/
  | main
  /-- The claim that the main loop awaits returns or raises. -/
  | claim (reply : Except Exc (Option RunRow))
  /-- The heartbeat loop goes on: the test of `while`, or the end of its sleep. -/
  | heartbeat
  | isJobCancelled (reply : Except Exc Bool)
  | renewLease (reply : Except Exc Bool)
  /-- What the execution `k` awaits is answered, by some database. -/
  | execution (k : ℕ) (db : DB) (a : Answer)

namespace Process

variable (w : Worker) (maxConcurrency : ℤ)

/-! ### The main loop -/

/-- The execution with this number has not finished. -/
def unfinished (s : Process) (k : ℕ) : Bool := (s.executions[k]?).any Execution.unfinished

/-- What `_poll_once` awaits once it claims no more. -/
def await (s : Process) : Process :=
  { s with main := if s.pending = [] then .sleeping else .waiting }

/-- The `finally` of `_main`. -/
def wind (s : Process) : Process :=
  { s with
    running := false
    heartbeat := .ended
    main := if s.pending = [] then .ended else .draining }

/-- The main loop goes on. -/
def onMain (s : Process) : Option Process :=
  match s.main with
  | .loop => some (if s.running then { s with main := .fill } else s.wind)
  | .fill => some (
    if s.running ∧ s.pending.length < maxConcurrency then { s with main := .claiming } else s.await)
  | .claiming => none
  | .sleeping | .backingOff => some { s with main := .loop }
  | .waiting => some { s with main := .loop, pending := s.pending.filter s.unfinished }
  | .draining => if s.pending.any s.unfinished then none else some { s with main := .ended }
  | .ended => none

/-- `pending.add(asyncio.create_task(self._execute(run)))`. -/
def dispatch (s : Process) (run : RunRow) : Process :=
  { s with
    pending := s.pending ++ [s.executions.length]
    executions := s.executions ++
      [{ runId := run.id, jobId := run.jobId, co := w.coExecute run }] }

/-- What the main loop does with a claim. An exception leaves `_poll_once` and is swallowed. -/
def onClaim (s : Process) : Except Exc (Option RunRow) → Process
  | .ok (some run) => { s.dispatch w run with main := .fill }
  | .ok none => s.await
  | .error _ => { s with main := .backingOff }

/-! ### The heartbeat loop -/

/-- The heartbeat loop goes on. -/
def onHeartbeat (s : Process) : Option Process :=
  match s.heartbeat with
  | .starting | .loop => some { s with heartbeat := if s.running then .sleeping else .ended }
  | .sleeping => some { s with heartbeat := .visit s.active }
  | .asking .. | .renewing .. | .ended => none

/-- What a pass does with the reply of `is_job_cancelled`. Nothing catches an exception. -/
def onIsJobCancelled (s : Process) (x : Entry) (rest : List Entry) : Except Exc Bool → Process
  | .ok true =>
    { s with
      heartbeat := .visit rest
      executions := s.executions.modify x.exec fun e => { e with cancelled := true } }
  | .ok false => { s with heartbeat := .renewing x rest }
  | .error _ => { s with heartbeat := .ended }

/-- What a pass does with the reply of `renew_lease`. Nothing catches an exception. -/
def onRenewLease (s : Process) (x : Entry) (rest : List Entry) : Except Exc Bool → Process
  | .ok true => { s with heartbeat := .visit rest }
  | .ok false =>
    { s with
      heartbeat := .visit rest
      active := unregister x.runId s.active
      executions := s.executions.modify x.exec fun e => { e with lost := true } }
  | .error _ => { s with heartbeat := .ended }

/-! ### The executions -/

/-- The reply says that a job is cancelled. -/
def tellsCancelled : (r : Req) → Except Exc r.Reply → Bool
  | .db (.getJob _), .ok (some job) => job.status = .cancelled
  | _, _ => false

/-- With what an execution goes on, and whether the reply says that the job is cancelled. -/
def answered (db : DB) (a : Answer) : Co Unit → Option (Co Unit × Bool)
  | .ask (.io r) k => (answer db r a).map fun x => (k x.2, tellsCancelled r x.2)
  | _ => none

/-- What an execution does to `_active` before it awaits anything: where it is then, whether it is
in its `try` block, and `_active`. -/
def settle (x : Entry) : Co Unit → Bool → List Entry → Co Unit × Bool × List Entry
  | .ask .enter k, _, active => settle x (k (.ok ())) true (register x active)
  | .ask .leave k, _, active => settle x (k (.ok ())) false (unregister x.runId active)
  | .ask (.io r) k, inside, active => (.ask (.io r) k, inside, active)
  | .ret v, inside, active => (.ret v, inside, active)

/-- The execution `k` goes on. -/
def onExecution (s : Process) (k : ℕ) (db : DB) (a : Answer) : Option Process := do
  let e ← s.executions[k]?
  let (co, told) ← answered db a e.co
  let (co, inside, active) := settle ⟨e.runId, e.jobId, k⟩ co e.inside s.active
  some { s with
    active := active
    executions := s.executions.set k
      { e with co := co, inside := inside, cancelled := e.cancelled || told } }

/-! ### Steps -/

/-- Between two `await`s nothing but a signal comes in between. -/
def allows (s : Process) : Move → Prop
  | .stop => True
  | .main => s.heartbeat ≠ .loop
  | .heartbeat => s.main ≠ .loop ∧ s.main ≠ .fill
  | _ => s.heartbeat ≠ .loop ∧ s.main ≠ .loop ∧ s.main ≠ .fill

instance (s : Process) : DecidablePred s.allows
  | .stop => .isTrue trivial
  | .main => inferInstanceAs (Decidable (s.heartbeat ≠ .loop))
  | .heartbeat => inferInstanceAs (Decidable (s.main ≠ .loop ∧ s.main ≠ .fill))
  | .claim _ | .isJobCancelled _ | .renewLease _ | .execution .. =>
    inferInstanceAs (Decidable (s.heartbeat ≠ .loop ∧ s.main ≠ .loop ∧ s.main ≠ .fill))

/-- What a move does, where it is due. -/
def move (s : Process) : Move → Option Process
  | .stop => some { s with running := false }
  | .main => s.onMain maxConcurrency
  | .claim reply => if s.main = .claiming then some (s.onClaim w reply) else none
  | .heartbeat => s.onHeartbeat
  | .isJobCancelled reply =>
    match s.heartbeat with
    | .asking x rest => some (s.onIsJobCancelled x rest reply)
    | _ => none
  | .renewLease reply =>
    match s.heartbeat with
    | .renewing x rest => some (s.onRenewLease x rest reply)
    | _ => none
  | .execution k db a => s.onExecution k db a

/-- **One step of a worker process.** -/
def step (s : Process) (m : Move) : Option Process :=
  if s.allows m then s.move w maxConcurrency m else none

/-- Moves one after the other, each of which must obey `C`. -/
def play (C : Process → Move → Prop) [∀ s m, Decidable (C s m)] :
    Process → List Move → Option Process
  | s, [] => some s
  | s, m :: moves =>
    if C s m then (s.step w maxConcurrency m).bind fun s' => play C s' moves else none

/-- A step that obeys `C`. -/
def Steps (C : Process → Move → Prop) (s s' : Process) : Prop :=
  ∃ m, C s m ∧ s.step w maxConcurrency m = some s'

/-- A run of the process in which every move obeys `C`. -/
abbrev Run (C : Process → Move → Prop) : Process → Process → Prop :=
  Relation.ReflTransGen (Steps w maxConcurrency C)

/-- Reached from the start of `run_forever` by moves that obey `C`. -/
abbrev Reached (C : Process → Move → Prop) (s : Process) : Prop := Run w maxConcurrency C {} s

end Process

end Pyreljob
