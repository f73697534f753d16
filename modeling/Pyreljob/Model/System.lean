import Pyreljob.Lib.Pool
import Pyreljob.Model.Manager

/-!
The whole system: any number of clients, beats and workers on one database.

A process is one call of a client, one tick of a beat, one claim-and-execute of a worker, one pass of
a worker's heartbeat, or one progress report of a task. Loops start such processes again and again,
and a worker with a higher concurrency has several of them, so nothing is lost by letting the
schedule start any process at any time. Processes interleave between any two requests, and any of
them may stop for good while it waits.
-/

namespace Pyreljob

open Lib

/-- What a process is started as. -/
inductive Kind
  | enqueue (spec : JobSpec) (scheduledAt : Option Time)
  | schedule (spec : JobSpec)
  | cancel (jobId : ℕ)
  | delete (jobId : ℕ)
  | prune (age : ℤ)
  | undo (resolve : String → Option JobCls) (jobId : ℕ)
  | beat (graceSeconds : ℤ) (misfireGrace : Option ℤ) (fuel : ℕ)
  | worker (w : Worker)
  | heartbeat (w : Worker) (active : List (ℕ × ℕ))
  | progress (runId : ℕ) (value : Option Rat)

/-- The program of a process. -/
def Kind.program : Kind → Io Unit
  | enqueue spec scheduledAt => do
    let _ ← JobManager.enqueue spec scheduledAt
    pure ()
  | schedule spec => do
    let _ ← JobManager.schedule spec
    pure ()
  | cancel jobId => JobManager.cancel jobId
  | delete jobId => JobManager.delete jobId
  | prune age => do
    let _ ← JobManager.prune age
    pure ()
  | undo resolve jobId => JobManager.undo resolve jobId
  | beat graceSeconds misfireGrace fuel => JobManager.tick graceSeconds misfireGrace fuel
  | worker w => w.tick
  | heartbeat w active => w.heartbeat active
  | progress runId value => query (.setRunProgress runId value)

/-- A state of the system. -/
abbrev System := Pool DB Kind Answer Req Req.Reply Exc

/-- What can happen next. -/
abbrev Act := Label Kind Answer

/-- An answered request of some process. -/
abbrev Ev := Event DB Answer Req Req.Reply Exc

namespace System

/-- The empty migrated database, and no process yet. -/
def init : System := { shared := {} }

/-- Acts one after the other, each of which must obey `C`. -/
def play (C : System → Act → Prop) [∀ p l, Decidable (C p l)] (p : System) (acts : List Act) :
    Option System :=
  Pool.play answer Kind.program C p acts

/-- A run in which every act obeys `C`. -/
abbrev Run (C : System → Act → Prop) : System → System → Prop := Pool.Run answer Kind.program C

/-- Reached from the empty database by acts that obey `C`. -/
def Reached (C : System → Act → Prop) (p : System) : Prop := Run C init p

/-- No restriction on the next act. -/
def Any : System → Act → Prop := fun _ _ => True

instance (p : System) (l : Act) : Decidable (Any p l) := .isTrue trivial

/-- Primary keys are not used twice: a row gets a key above all that were handed out. -/
def NewIds (p : System) : Act → Prop
  | .act _ (.commit e) => e.Fresh p.shared
  | _ => True

instance (p : System) : (l : Act) → Decidable (NewIds p l)
  | .act _ (.commit e) => inferInstanceAs (Decidable (e.Fresh p.shared))
  | .spawn _ | .crash _ | .act _ (.fail _) | .act _ (.time _) | .act _ (.lastClaim _)
  | .act _ (.ran _ _) | .act _ (.undone _ _) | .act _ (.next _) => .isTrue trivial

/-- **One act**: the database stays, or the transaction that a process asked for commits. -/
lemma step_cases {p p' : System} {l : Act} (h : Pool.step answer Kind.program p l = some p') :
    p'.shared = p.shared ∨ ∃ pid c e y, l = .act pid (.commit e) ∧ p.pending pid = some (.db c) ∧
      c.exec p.shared e = some (p'.shared, y) ∧
      p'.log = p.log ++ [⟨pid, .db c, .commit e, y, p.shared, p'.shared⟩] := by
  cases l with
  | spawn k => exact .inl (Pool.step_spawn h).1
  | crash pid => exact .inl (Pool.step_crash h).1
  | act pid a =>
    obtain ⟨r, f, y, hact⟩ := Pool.step_act h
    obtain ⟨shared, procs, log⟩ := p'
    have hlog := hact.logged
    have hasks := hact.pending
    dsimp only at hlog ⊢
    revert hlog hasks
    refine answer_cases (motive := fun r a db' y => log = p.log ++ [⟨pid, r, a, y, p.shared, db'⟩] →
      p.pending pid = some r → (db' = p.shared ∨ ∃ pid' c e y', Label.act pid a =
        .act pid' (.commit e) ∧ p.pending pid' = some (.db c) ∧ c.exec p.shared e = some (db', y') ∧
          log = p.log ++ [⟨pid', .db c, .commit e, y', p.shared, db'⟩])) ?_ ?_ ?_ hact.answered
    · intro c e db' y hx hlog hasks
      exact .inr ⟨pid, c, e, y, rfl, hasks, hx, hlog⟩
    · exact fun _ _ _ _ => .inl rfl
    · exact fun _ _ _ _ _ _ _ => .inl rfl

lemma step_commit {p p' : System} {pid : ℕ} {e : Env}
    (h : Pool.step answer Kind.program p (.act pid (.commit e)) = some p') :
    ∃ c y, p.pending pid = some (.db c) ∧ c.exec p.shared e = some (p'.shared, y) ∧
      p'.log = p.log ++ [⟨pid, .db c, .commit e, y, p.shared, p'.shared⟩] := by
  obtain ⟨r, f, y, hact⟩ := Pool.step_act h
  cases r with
  | db c => exact ⟨c, y, hact.pending, hact.answered, hact.logged⟩
  | _ => cases hact.answered

end System

/-- A job class with one task. -/
def oneTask : JobCls where
  name := "m.J"
  tasks := [{ name := "T" }]

/-- A worker that knows this class only. -/
def Worker.named (workerId : String) : Worker where
  workerId := workerId
  resolve := fun job => if job = oneTask.name then some oneTask else none

/-- A job class with two tasks. -/
def twoTasks : JobCls where
  name := "m.J"
  tasks := [{ name := "T" }, { name := "U" }]

/-- A worker that knows one class only. -/
def Worker.knowing (cls : JobCls) (workerId : String) : Worker where
  workerId := workerId
  resolve := fun job => if job = cls.name then some cls else none

/-- A transaction commits at the second `t`, which serves for its keys, too. -/
def committed (t : ℕ) : Answer := .commit { now := seconds t, jobId := t, runId := t, taskId := t }

/-- The next `n` requests of the process are transactions that commit at the second `t`. -/
def commits (pid n t : ℕ) : List Act := List.replicate n (.act pid (committed t))

/-- The process reads the clock at the second `t`. -/
def reads (pid t : ℕ) : Act := .act pid (.time (seconds t))

/-- Worker A (process 1) starts the task of a run; its lease runs out, and worker B (process 2) claims
the run and starts the task, too. -/
def overtaken : List Act :=
  .spawn (.enqueue { job := "m.J" } none) :: commits 0 1 0 ++
  .spawn (.worker (.named "A")) :: reads 1 1 :: reads 1 1 :: commits 1 5 1 ++
  .spawn (.worker (.named "B")) :: reads 2 100 :: reads 2 100 :: commits 2 5 100

/-- Worker B finishes the run. -/
def finished : List Act := .act 2 (.ran (.ok .null) []) :: commits 2 4 101

/-- A maintained job that is due is scheduled, and a beat (process 1) wins the claim on it. -/
def firing : List Act :=
  .spawn (.schedule { job := "m.J", nextRunAt := some 0 }) :: commits 0 2 0 ++
  .spawn (.beat 300 none 1) :: reads 1 1 :: .act 1 (.lastClaim none) :: commits 1 3 1 ++
  reads 1 1 :: commits 1 1 1

/-! ### What an event says -/

/-- A claim that won: who got which run, and the row it was given. -/
structure Claim where
  pid : ℕ
  runId : ℕ
  workerId : String
  now : Time
  leaseExpiry : Time
  run : RunRow

/-- The claim that a request with this reply has won, if it is one. -/
def claimIn (pid : ℕ) : (r : Req) → Except Exc r.Reply → Option Claim
  | .db (.claimRun runId workerId now leaseExpiry), .ok (some run) =>
    some ⟨pid, runId, workerId, now, leaseExpiry, run⟩
  | _, _ => none

/-- The claim that an event won, if it is one. -/
def claimOf (ev : Ev) : Option Claim := claimIn ev.pid ev.req ev.reply

lemma claimIn_pid {pid : ℕ} {r : Req} {y : Except Exc r.Reply} {cl : Claim}
    (h : claimIn pid r y = some cl) : cl.pid = pid := by
  unfold claimIn at h
  split at h
  · cases h
    rfl
  · cases h

@[simp] lemma claimIn_error (pid : ℕ) (c : Call) (exc : Exc) :
    claimIn pid (.db c) (.error exc) = none := by cases c <;> rfl

lemma claimIn_ask {pid : ℕ} {r : Req} {y : Except Exc r.Reply} (hr : ∀ c, r ≠ .db c) :
    claimIn pid r y = none := by
  cases r with
  | db c => exact absurd rfl (hr c)
  | _ => rfl

end Pyreljob
