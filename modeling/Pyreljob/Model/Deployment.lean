import Pyreljob.Model.Loop
import Pyreljob.Model.System

/-!
A deployment: worker processes, beats and clients on one database.

`Pyreljob.Model.Loop` shows a worker process from inside, and leaves open where the replies of the
backend come from. Here such processes are put on one database, next to the loops of beats and to calls
of clients. A worker process makes each call of the backend in a thread (`asyncio.to_thread`): the thread
asks one request after the other whenever it gets to it, and only once it has returned does the event
loop let the coroutine go on that awaits it. A coroutine that is cancelled meanwhile does not take what
the thread returns, but the thread is not stopped by that.
-/

namespace Pyreljob

open Lib

/-! ### A worker process on the database -/

/-- What the backend has answered, and in what state it was asked. -/
structure Receipt where
  db : DB
  ans : Answer

/-- The call that the heartbeat loop awaits. -/
def Heartbeat.call (w : Worker) : Heartbeat → Option Call
  | .asking x _ => some (.isJobCancelled x.jobId)
  | .renewing x _ => some (.renewLease x.runId w.workerId)
  | .starting | .loop | .sleeping | .ended => none

/-- A worker process, and the calls of the backend that it has under way. -/
structure Node where
  worker : Worker
  maxConcurrency : ℤ := 1
  process : Process := {}
  /-- What is left of the claim that the main loop awaits. -/
  claim : Option (Io (Option RunRow)) := none
  /-- What the call has returned that the heartbeat loop awaits. -/
  told : Option Receipt := none
  /-- What the calls have returned that the executions await. -/
  replies : ℕ → Option Receipt := fun _ => none
  /-- Where the heartbeat loop stood when it was cancelled with a call under way. -/
  stray : Heartbeat := .ended

/-- What the event loop of a process does next; the replies are those of the calls. -/
inductive NodeMove
  | stop
  | main
  | heartbeat
  /-- The main loop takes what the claim has returned. -/
  | claimed
  /-- The heartbeat loop takes what its call has returned. -/
  | beaten
  /-- An execution takes what its call has returned. -/
  | resumed (k : ℕ)

/-- A thread that a member of a deployment has under way. -/
inductive Slot
  /-- The claim of a worker process, the tick of a beat, or the call of a client. -/
  | main
  | heartbeat
  | execution (k : ℕ)
  /-- The call of a heartbeat that was cancelled. -/
  | stray
  deriving DecidableEq

namespace Node

/-- A move of the process. -/
def step (n : Node) (m : Move) : Option Process := n.process.step n.worker n.maxConcurrency m

/-- **The event loop goes on.** -/
def move (n : Node) : NodeMove → Option Node
  | .stop => (n.step .stop).map fun s => { n with process := s }
  | .main => (n.step .main).map fun s =>
    { n with
      process := s
      claim := if s.main = .claiming then some n.worker.claim else n.claim
      told := if s.heartbeat = n.process.heartbeat then n.told else none
      stray := if s.heartbeat = n.process.heartbeat ∨ n.told.isSome then n.stray
        else n.process.heartbeat }
  | .heartbeat => (n.step .heartbeat).map fun s => { n with process := s }
  | .claimed =>
    match n.claim with
    | some (.ret v) => (n.step (.claim v)).map fun s => { n with process := s, claim := none }
    | _ => none
  | .beaten =>
    match n.told, n.process.heartbeat with
    | some ⟨db, a⟩, .asking x _ => do
      let (_, y) ← answer db (.db (.isJobCancelled x.jobId)) a
      let s ← n.step (.isJobCancelled y)
      some { n with process := s, told := none }
    | some ⟨db, a⟩, .renewing x _ => do
      let (_, y) ← answer db (.db (.renewLease x.runId n.worker.workerId)) a
      let s ← n.step (.renewLease y)
      some { n with process := s, told := none }
    | _, _ => none
  | .resumed k => do
    let ⟨db, a⟩ ← n.replies k
    let s ← n.step (.execution k db a)
    some { n with process := s, replies := Function.update n.replies k none }

/-- What an execution awaits. -/
def awaits (n : Node) (k : ℕ) : Option Req :=
  match n.process.executions[k]?.map Execution.co with
  | some (.ask (.io r) _) => some r
  | _ => none

/-- **A thread of the process is answered** by the database. -/
def call (n : Node) (db : DB) (a : Answer) : Slot → Option (DB × Node)
  | .main =>
    match n.claim with
    | some (.ask r f) => (answer db r a).map fun x => (x.1, { n with claim := some (f x.2) })
    | _ => none
  | .heartbeat =>
    if n.told.isSome then none
    else do
      let c ← n.process.heartbeat.call n.worker
      let (db', _) ← answer db (.db c) a
      some (db', { n with told := some ⟨db, a⟩ })
  | .execution k =>
    if (n.replies k).isSome then none
    else do
      let r ← n.awaits k
      let (db', _) ← answer db r a
      some (db', { n with replies := Function.update n.replies k (some ⟨db, a⟩) })
  | .stray => do
    let c ← n.stray.call n.worker
    let (db', _) ← answer db (.db c) a
    some (db', { n with stray := .ended })

end Node

/-! ### The loop of a beat -/

/-- `JobManager.run_forever`: the loop around `tick`. -/
structure BeatLoop where
  graceSeconds : ℤ := 300
  misfireGrace : Option ℤ := none
  /-- `_running`. -/
  running : Bool := true
  /-- What is left of the tick under way. -/
  tick : Option (Io Unit) := none

inductive BeatMove
  | stop
  /-- The test of `while`, and `tick` is called; `fuel` bounds the batches of its reconcile pass. -/
  | tick (fuel : ℕ)
  /-- The tick has ended, also with an exception, which is swallowed; the loop has slept. -/
  | slept

/-- The loop goes on. -/
def BeatLoop.move (b : BeatLoop) : BeatMove → Option BeatLoop
  | .stop => some { b with running := false }
  | .tick fuel =>
    if b.running ∧ b.tick.isNone then
      some { b with tick := some (JobManager.tick b.graceSeconds b.misfireGrace fuel) }
    else none
  | .slept =>
    match b.tick with
    | some (.ret _) => some { b with tick := none }
    | _ => none

/-! ### Deployments -/

/-- Who takes part. -/
inductive Member
  /-- What is left of the call of a client. -/
  | client (program : Io Unit)
  | beat (b : BeatLoop)
  | node (n : Node)
  /-- Killed. -/
  | gone

/-- A call that a client makes, one tick or one claim included, but no pass of a heartbeat. -/
def Kind.isCall : Kind → Bool
  | .heartbeat .. => false
  | _ => true

/-- What happens next in a deployment. -/
inductive Happening
  | client (k : Kind)
  | beat (graceSeconds : ℤ) (misfireGrace : Option ℤ)
  | node (w : Worker) (maxConcurrency : ℤ)
  | beatMove (i : ℕ) (m : BeatMove)
  | nodeMove (i : ℕ) (m : NodeMove)
  /-- A thread of the member `i` is answered by the database. -/
  | call (i : ℕ) (slot : Slot) (a : Answer)
  | kill (i : ℕ)

/-- A thread of a member is answered by the database. -/
def Member.call (db : DB) (a : Answer) (slot : Slot) : Member → Option (DB × Member)
  | client (.ask r f) =>
    if slot = .main then (answer db r a).map fun x => (x.1, client (f x.2)) else none
  | beat b =>
    match b.tick with
    | some (.ask r f) =>
      if slot = .main then (answer db r a).map fun x => (x.1, beat { b with tick := some (f x.2) })
      else none
    | _ => none
  | node n => (n.call db a slot).map fun x => (x.1, node x.2)
  | client (.ret _) | gone => none

/-- A database and those who work on it. -/
structure Deployment where
  db : DB := {}
  members : List Member := []

namespace Deployment

/-- **One step of a deployment.** -/
def step (d : Deployment) : Happening → Option Deployment
  | .client k => if k.isCall then some { d with members := d.members ++ [.client k.program] } else none
  | .beat g m =>
    some { d with members := d.members ++ [.beat { graceSeconds := g, misfireGrace := m }] }
  | .node w n => some { d with members := d.members ++ [.node { worker := w, maxConcurrency := n }] }
  | .beatMove i m =>
    match d.members[i]? with
    | some (.beat b) => (b.move m).map fun b' => { d with members := d.members.set i (.beat b') }
    | _ => none
  | .nodeMove i m =>
    match d.members[i]? with
    | some (.node n) => (n.move m).map fun n' => { d with members := d.members.set i (.node n') }
    | _ => none
  | .call i slot a => do
    let m ← d.members[i]?
    let (db', m') ← m.call d.db a slot
    some { db := db', members := d.members.set i m' }
  | .kill i => if i < d.members.length then some { d with members := d.members.set i .gone } else none

/-- Primary keys are not used twice. -/
def NewIds (d : Deployment) : Happening → Prop
  | .call _ _ (.commit e) => e.Fresh d.db
  | _ => True

/-- A step in which no primary key is used again. -/
def Steps (d d' : Deployment) : Prop := ∃ h, d.NewIds h ∧ d.step h = some d'

/-- Reached from the empty migrated database, with nobody there yet. -/
def Reached (d : Deployment) : Prop := Relation.ReflTransGen Steps {} d

end Deployment

end Pyreljob
