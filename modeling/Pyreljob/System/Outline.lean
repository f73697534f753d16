import Pyreljob.Store.View

/-!
Proof outlines for the execution of a run.

An outline says what holds of a run wherever its worker may be stopped: while nobody executes the
run, when a worker has claimed it, when it comes to a task, while the body of the task runs, while
tasks are undone. `Outline.Sound` lists what has to be shown of an outline, one condition for each
straight piece of the worker's code, and `execute_tells` says that nothing else is needed. The code
is walked through here, once; a claim about the executions of a run is an outline.

What the outline need not say, because every execution keeps to it: the tasks that have succeeded
are those before some position, which is where the worker stands.
-/

namespace Pyreljob

open Lib Relation

namespace View

/-- A worker executes the run, which may have been cancelled meanwhile. -/
def Working (v : View) : Prop := v.status = some .running ∨ v.status = some .cancelled

def Settled (v : View) : Prop := v.status.any RunStatus.isDone

def Fade : View → View → Prop := ReflTransGen Drift

lemma Working.fade {v v' : View} (h : v.Working) (hf : v.Fade v') :
    v'.Working ∧ v'.toSaga = v.toSaga ∧ v'.jobId = v.jobId := by
  induction hf with
  | refl => exact ⟨h, rfl, rfl⟩
  | tail _ hd ih =>
    obtain ⟨hw, hs, hj⟩ := ih
    cases hd with
    | same => exact ⟨hw, hs, hj⟩
    | created _ hn => rcases hw with hw | hw <;> simp [hn] at hw
    | cancelled => exact ⟨.inr rfl, hs, hj⟩
    | swept hr => rcases hw with hw | hw <;> simp [hr] at hw

lemma Settled.not_inFlight {v : View} (h : v.Settled) :
    v.status.isSome ∧ v.status.any RunStatus.inFlight = false := by
  unfold Settled at h
  cases hs : v.status with
  | none => simp [hs] at h
  | some st => simpa [hs, RunStatus.isDone_eq_not_inFlight] using h

lemma Settled.fade {v v' : View} (h : v.Settled) (hf : v.Fade v') : v' = v := by
  induction hf with
  | refl => rfl
  | tail _ hd ih =>
    obtain ⟨hsome, hnot⟩ := h.not_inFlight
    rw [← ih] at hsome hnot
    rw [← ih]
    cases hd with
    | same => rfl
    | created _ hn => simp [hn] at hsome
    | cancelled hv => simp [hv] at hnot
    | swept hr => simp [hr, RunStatus.inFlight] at hnot

def fresh (jobId : ℕ) : View where
  jobId := some jobId
  status := some .ready
  result := none
  error := none

end View

namespace Saga

def Upto (s : Saga) (k : ℕ) : Prop := ∀ pos, s.done pos ↔ pos < k

lemma Upto.stay {s s' : Saga} {k : ℕ} (h : s.Upto k)
    (hs : ∀ pos, s'.done pos = if pos = k then false else s.done pos) : s'.Upto k := by
  intro pos
  rw [hs]
  split
  · rename_i hp
    simp [hp]
  · exact h pos

lemma Upto.next {s s' : Saga} {k : ℕ} (h : s.Upto k)
    (hs : ∀ pos, s'.done pos = if pos = k then true else s.done pos) : s'.Upto (k + 1) := by
  intro pos
  rw [hs]
  split
  · rename_i hp
    simp [hp]
  · rename_i hp
    exact (h pos).trans (by omega)

lemma Upto.back {s s' : Saga} {k : ℕ} (h : s.Upto (k + 1))
    (hs : ∀ pos, s'.done pos = if pos = k then false else s.done pos) : s'.Upto k := by
  intro pos
  rw [hs]
  split
  · rename_i hp
    simp [hp]
  · rename_i hp
    exact (h pos).trans (by omega)

def Based (s : Saga) (n : ℕ) : Prop := ∃ k ≤ n, s.Upto k

/-- The context is that of the run. -/
structure Feeds (s : Saga) (ctx : TaskContext) : Prop where
  results : ctx.results = (s.ctx.map CtxDict.results).getD []
  state : ctx.state = (s.ctx.map CtxDict.state).getD []

def attempt (s : Saga) (pos : ℕ) : ℕ := ((s.mark pos).map Mark.attempts).getD 0 + 1

end Saga

def budget (m : ℤ) (task : TaskCls) : ℤ :=
  match task.maxAttempts with
  | none => m
  | some n => if n = 0 then m else n

lemma taskBudget_eq (task : TaskCls) (job : JobRow) :
    Worker.taskBudget task job = budget job.maxAttempts task := rfl

def unhandled (i : ℕ) : Call := .failRun i "unhandled error" none

/-- What a run of a job that is called `name` and allows `m` attempts tells its worker. -/
def Hears (i : ℕ) (name : String) (m : ℤ) (v : View) : (r : Req) → Except Exc r.Reply → Prop
  | .db (.getJob jobId), .ok job => v.jobId = some jobId →
    ∃ j, job = some j ∧ j.job = name ∧ j.maxAttempts = m
  | .db (.tasksOf runId), .ok records => runId = i → v.Reads records
  | .run .., .error _ | .undo .., .error _ => False
  | _, _ => True

/-- A proof outline. -/
structure Outline where
  /-- What may come back to the worker. -/
  hears : Saga → (r : Req) → Except Exc r.Reply → Prop
  /-- Nobody executes the run. -/
  rests : View → Prop
  /-- A worker that executes the run may be stopped. -/
  stops : Saga → Prop
  /-- It makes a request about the run. -/
  asks : Saga → Req → Prop
  /-- It has claimed the run. -/
  enters : Saga → Prop
  /-- It has come to the task at the position. -/
  comes : ℕ → TaskContext → Saga → Prop
  /-- It has started the task. -/
  runs : ℕ → TaskContext → Saga → Prop
  /-- It has given up, with an error, and has so many tasks to undo. -/
  undoes : String → ℕ → Saga → Prop
  /-- An exception has left `_run`. -/
  throws : Saga → Prop

namespace Outline

variable (O : Outline)

/-- The worker may be stopped here, before it makes the request. -/
def Point (s : Saga) (r : Req) : Prop := O.stops s ∧ O.asks s r

def Leaves (i : ℕ) (s : Saga) (c : Call) : Prop :=
  O.asks s (.db c) ∧
    ∀ (v : View) a, v.Working → v.toSaga = s → O.rests (v.after i (.db c) (.ok a))

/-- **What has to be shown of an outline** for a run of the class whose job allows `m` attempts. -/
structure Sound (i : ℕ) (cls : JobCls) (m : ℤ) : Prop where
  created : ∀ j, O.rests (.fresh j)
  cancelled : ∀ v, O.rests v → v.status.any RunStatus.inFlight →
    O.rests { v with status := some .cancelled }
  swept : ∀ v, O.rests v → v.status = some .ready →
    O.rests { v with status := some .failed, error := some DB.abandonedError }
  /-- A worker claims the run. -/
  claimed : ∀ v, O.rests v → v.status.any RunStatus.inFlight → O.enters v.toSaga
  enters_stops : ∀ s, O.enters s → O.stops s
  /-- The job was cancelled. -/
  halts : ∀ s, O.enters s → O.Leaves i s (.cancelRun i)
  /-- The worker goes on where the run was left. -/
  begins : ∀ s k ctx, O.enters s → s.Upto k → s.Feeds ctx →
    (∀ task mark, cls.tasks[k]? = some task → s.mark k = some mark → mark.status = .failed →
      ¬ budget m task ≤ mark.attempts) → O.comes k ctx s
  /-- The worker finds a task at which another one has given up. -/
  recovers : ∀ s k ctx task mark, O.enters s → s.Upto k → s.Feeds ctx →
    cls.tasks[k]? = some task → s.mark k = some mark → mark.status = .failed →
    budget m task ≤ mark.attempts → O.asks s (.db (.setRunCtx i ctx.asDict)) ∧
      O.undoes (Worker.errorOr mark.error) k (s.after (.db (.setRunCtx i ctx.asDict)) (.ok ()))
  comes_stops : ∀ k ctx s, O.comes k ctx s → O.stops s
  /-- The worker starts a task. -/
  starts : ∀ s pos ctx task, O.comes pos ctx s → s.Upto pos → cls.tasks[pos]? = some task →
    O.asks s (.db (.startTask i pos task.taskName (s.attempt pos))) ∧
      O.runs pos ctx (s.after (.db (.startTask i pos task.taskName (s.attempt pos))) (.ok ()))
  runs_point : ∀ s pos ctx task n, O.runs pos ctx s → s.Upto pos → cls.tasks[pos]? = some task →
    s.mark pos = some ⟨.running, n, none, none⟩ → O.Point s (.run i pos n ctx)
  /-- The task returns. -/
  succeeds : ∀ s pos ctx task n v state, O.runs pos ctx s → s.Upto pos →
    cls.tasks[pos]? = some task → s.mark pos = some ⟨.running, n, none, none⟩ →
    O.hears s (.run i pos n ctx) (.ok (.ok v, state)) →
    let ctx' : TaskContext := { ctx with state := state, results := ctx.results.set task.name v }
    let s₁ := s.after (.run i pos n ctx) (.ok (.ok v, state))
    let s₂ := s₁.after (.db (.succeedTask i pos v)) (.ok ())
    let s₃ := s₂.after (.db (.setRunCtx i ctx'.asDict)) (.ok ())
    O.Point s₁ (.db (.succeedTask i pos v)) ∧ O.Point s₂ (.db (.setRunCtx i ctx'.asDict)) ∧
      O.comes (pos + 1) ctx' s₃
  /-- The task is cancelled. -/
  cancels : ∀ s pos ctx task n exc state, O.runs pos ctx s → s.Upto pos →
    cls.tasks[pos]? = some task → s.mark pos = some ⟨.running, n, none, none⟩ →
    O.hears s (.run i pos n ctx) (.ok (.error exc, state)) → exc.isJobCancelled →
    let s₁ := s.after (.run i pos n ctx) (.ok (.error exc, state))
    let s₂ := s₁.after (.db (.cancelTask i pos)) (.ok ())
    O.Point s₁ (.db (.cancelTask i pos)) ∧ O.stops s₂ ∧ O.Leaves i s₂ (.cancelRun i)
  /-- The task raises, and has no attempt left. -/
  spends : ∀ s pos ctx task n exc state, O.runs pos ctx s → s.Upto pos →
    cls.tasks[pos]? = some task → s.mark pos = some ⟨.running, n, none, none⟩ →
    O.hears s (.run i pos n ctx) (.ok (.error exc, state)) → exc.isJobCancelled = false →
    budget m task ≤ n →
    let ctx' : TaskContext := { ctx with state := state }
    let s₁ := s.after (.run i pos n ctx) (.ok (.error exc, state))
    let s₂ := s₁.after (.db (.setRunCtx i ctx'.asDict)) (.ok ())
    let s₃ := s₂.after (.db (.failTask i pos exc.text n none)) (.ok ())
    O.Point s₁ (.db (.setRunCtx i ctx'.asDict)) ∧
      O.Point s₂ (.db (.failTask i pos exc.text n none)) ∧ O.undoes exc.text pos s₃
  /-- The task raises, and will be tried again. -/
  retries : ∀ s pos ctx task n exc state t, O.runs pos ctx s → s.Upto pos →
    cls.tasks[pos]? = some task → s.mark pos = some ⟨.running, n, none, none⟩ →
    O.hears s (.run i pos n ctx) (.ok (.error exc, state)) → exc.isJobCancelled = false →
    ¬ budget m task ≤ n →
    let ctx' : TaskContext := { ctx with state := state }
    let s₁ := s.after (.run i pos n ctx) (.ok (.error exc, state))
    let s₂ := s₁.after (.db (.setRunCtx i ctx'.asDict)) (.ok ())
    let s₃ := s₂.after (.db (.failTask i pos exc.text n (some t))) (.ok ())
    O.Point s₁ (.db (.setRunCtx i ctx'.asDict)) ∧
      O.Point s₂ (.db (.failTask i pos exc.text n (some t))) ∧ O.stops s₃ ∧
      O.Leaves i s₃ (.failRun i exc.text (some t)) ∧
      ∀ e, O.hears s₁ (.retryAt n) (.error e) → O.throws s₁
  /-- A task is undone. -/
  undo : ∀ err k s ctx y, O.undoes err (k + 1) s → s.Upto (k + 1) →
    let s₁ := s.after (.undo i k ctx) (.ok y)
    O.asks s (.undo i k ctx) ∧ O.Point s₁ (.db (.compensateTask i k)) ∧
      O.undoes err k (s₁.after (.db (.compensateTask i k)) (.ok ()))
  undoes_stops : ∀ err k s, O.undoes err k s → O.stops s
  /-- Everything is undone. -/
  fails : ∀ err s, O.undoes err 0 s → s.Upto 0 → O.Leaves i s (.failRun i err none)
  /-- All tasks have succeeded. -/
  completes : ∀ s ctx, O.comes cls.tasks.length ctx s → s.Upto cls.tasks.length →
    O.Leaves i s (.completeRun i (.dict ctx.results))
  /-- A transaction raises. -/
  raises : ∀ s c e, O.stops s → O.hears s (.db c) (.error e) →
    O.throws (if about i (.db c) then s.after (.db c) (.error e) else s)
  throws_leaves : ∀ s, O.throws s → O.stops s ∧ O.Leaves i s (unhandled i)
  /-- The handler itself raises. -/
  drops : ∀ s e, O.throws s → O.hears s (.db (unhandled i)) (.error e) → ∀ v : View, v.Working →
    v.toSaga = s → O.rests (v.after i (.db (unhandled i)) (.error e))
  /-- The handler meets a run that is done. -/
  late : ∀ v y, O.rests v → v.Settled → O.rests (v.after i (.db (unhandled i)) y)

/-! ### The judgement -/

variable (i : ℕ) (name : String) (m : ℤ) (cls : JobCls)

/-- How an answered request moves the view of a run that is executed. -/
def Step (v : View) (r : Req) (y : Except Exc r.Reply) (v' : View) : Prop :=
  ∃ v₁, v.Fade v₁ ∧ Hears i name m v₁ r y ∧ O.hears v₁.toSaga r y ∧ v' = v₁.after i r y

def Waits (v : View) (r : Req) : Prop :=
  v.Based cls.tasks.length ∧
    ((v.Working ∧ O.stops v.toSaga ∧ (about i r → O.asks v.toSaga r)) ∨
      (v.Settled ∧ O.rests v ∧ (about i r → r = .db (unhandled i))))

/-- The program keeps to the outline. -/
abbrev Tells {α : Type} (p : Io α) (Q : Except Exc α → View → Prop) (v : View) : Prop :=
  p.Keeps (O.Step i name m) (O.Waits i cls) Q v

def Closed (v : View) : Prop := v.Based cls.tasks.length ∧ v.Settled ∧ O.rests v

def Rested (v : View) : Prop := v.Based cls.tasks.length ∧ O.rests v

def Thrown (v : View) : Prop :=
  (v.Based cls.tasks.length ∧ v.Working ∧ O.throws v.toSaga) ∨ O.Closed cls v

def Post {α : Type} (P : α → View → Prop) : Except Exc α → View → Prop
  | .ok a, v => P a v
  | .error _, v => O.Thrown cls v

/-- The program keeps to the outline where the worker executes the run. -/
def Goes {α : Type} (p : Io α) (P : α → View → Prop) (s : Saga) : Prop :=
  ∀ v : View, v.Working → v.toSaga = s → O.Tells i name m cls p (O.Post cls P) v

section Rules

variable {O i name m cls} {α β : Type} {P : α → View → Prop} {s : Saga} {v : View}

lemma based_congr {s s' : Saga} {n : ℕ} (h : ∀ pos, s'.done pos = s.done pos) (hs : s.Based n) :
    s'.Based n := by
  obtain ⟨k, hk, hup⟩ := hs
  exact ⟨k, hk, fun pos => by rw [h]; exact hup pos⟩

lemma Tells.ask {r : Req} {f : r.Reply → Io β} {Q : Except Exc β → View → Prop} (hw : v.Working)
    (hb : v.Based cls.tasks.length) (hs : O.stops v.toSaga)
    (ha : about i r → O.asks v.toSaga r)
    (hraise : ∀ e v₁, v₁.Working → v₁.toSaga = v.toSaga → Hears i name m v₁ r (.error e) →
      O.hears v.toSaga r (.error e) → Q (.error e) (v₁.after i r (.error e)))
    (hreply : ∀ a v₁, v₁.Working → v₁.toSaga = v.toSaga → v₁.jobId = v.jobId →
      Hears i name m v₁ r (.ok a) → O.hears v.toSaga r (.ok a) →
        O.Tells i name m cls (f a) Q (v₁.after i r (.ok a))) :
    O.Tells i name m cls (Prog.call r >>= f) Q v := by
  refine .call_bind ⟨hb, .inl ⟨hw, hs, ha⟩⟩ ?_ ?_
  · rintro e _ ⟨v₁, hf, hh, ho, rfl⟩
    obtain ⟨hw₁, hs₁, -⟩ := hw.fade hf
    exact hraise e v₁ hw₁ hs₁ hh (hs₁ ▸ ho)
  · rintro a _ ⟨v₁, hf, hh, ho, rfl⟩
    obtain ⟨hw₁, hs₁, hj₁⟩ := hw.fade hf
    exact hreply a v₁ hw₁ hs₁ hj₁ hh (hs₁ ▸ ho)

lemma Tells.close {r : Req} {f : r.Reply → Io β} {Q : Except Exc β → View → Prop}
    (hc : O.Closed cls v) (hr : about i r = false) (hraise : ∀ e, Q (.error e) v)
    (hreply : ∀ a, O.Tells i name m cls (f a) Q v) :
    O.Tells i name m cls (Prog.call r >>= f) Q v := by
  obtain ⟨hb, hs, ho⟩ := hc
  refine .call_bind ⟨hb, .inr ⟨hs, ho, fun h => ?_⟩⟩ ?_ ?_
  · rw [hr] at h
    cases h
  · rintro e _ ⟨v₁, hf, -, -, rfl⟩
    rw [hs.fade hf, View.after_not_about hr]
    exact hraise e
  · rintro a _ ⟨v₁, hf, -, -, rfl⟩
    rw [hs.fade hf, View.after_not_about hr]
    exact hreply a

lemma Tells.close_last {r : Req} {Q : Except Exc r.Reply → View → Prop} (hc : O.Closed cls v)
    (hr : about i r = false) (h : ∀ y, Q y v) : O.Tells i name m cls (Prog.call r) Q v := by
  obtain ⟨hb, hs, ho⟩ := hc
  refine .call ⟨hb, .inr ⟨hs, ho, fun h => ?_⟩⟩ ?_
  · rw [hr] at h
    cases h
  · rintro y _ ⟨v₁, hf, -, -, rfl⟩
    rw [hs.fade hf, View.after_not_about hr]
    exact h y

lemma Goes.body {r : Req} {f : r.Reply → Io α} (hc : about i r)
    (hset : ∀ (v : View) y, v.settle r y = v)
    (hno : ∀ (v : View) e, ¬ Hears i name m v r (.error e)) (hb : s.Based cls.tasks.length)
    (hp : O.Point s r)
    (h : ∀ a, O.hears s r (.ok a) → O.Goes i name m cls (f a) P (s.after r (.ok a))) :
    O.Goes i name m cls (Prog.call r >>= f) P s := by
  rintro v hw rfl
  refine .ask hw hb hp.1 (fun _ => hp.2) ?_ ?_
  · intro e v₁ _ _ hh _
    exact absurd hh (hno v₁ e)
  · intro a v₁ hw₁ hs₁ _ _ ho
    rw [View.after_about hc, hset]
    exact h a ho _ hw₁ (by rw [hs₁])

variable (hO : O.Sound i cls m)
include hO

lemma Goes.read {c : Call} {f : c.Reply → Io α} (hc : about i (.db c) = false)
    (hb : s.Based cls.tasks.length) (hs : O.stops s)
    (h : ∀ a, (∃ v : View, v.toSaga = s ∧ Hears i name m v (.db c) (.ok a)) →
      O.Goes i name m cls (f a) P s) : O.Goes i name m cls (query c >>= f) P s := by
  rintro v hw rfl
  refine .ask hw hb hs (fun ha => ?_) ?_ ?_
  · rw [hc] at ha
    cases ha
  · intro e v₁ hw₁ hs₁ _ ho
    rw [View.after_not_about hc]
    have hthrow := hO.raises _ c e hs ho
    simp only [hc, Bool.false_eq_true, if_false] at hthrow
    exact .inl ⟨hs₁ ▸ hb, hw₁, hs₁ ▸ hthrow⟩
  · intro a v₁ hw₁ hs₁ _ hh _
    rw [View.after_not_about hc]
    exact h a ⟨v₁, hs₁, hh⟩ v₁ hw₁ hs₁

lemma Goes.say {c : Call} {f : c.Reply → Io α} (hc : about i (.db c))
    (hset : ∀ (v : View) y, v.settle (.db c) y = v) (hb : s.Based cls.tasks.length)
    (hp : O.Point s (.db c))
    (h : ∀ a, O.Goes i name m cls (f a) P (s.after (.db c) (.ok a))) :
    O.Goes i name m cls (query c >>= f) P s := by
  rintro v hw rfl
  refine .ask hw hb hp.1 (fun _ => hp.2) ?_ ?_
  · intro e v₁ hw₁ hs₁ _ ho
    rw [View.after_about hc, hset]
    have hthrow := hO.raises _ c e hp.1 ho
    rw [if_pos hc, ← hs₁] at hthrow
    exact .inl ⟨based_congr (fun _ => by rfl) (hs₁ ▸ hb), hw₁, hthrow⟩
  · intro a v₁ hw₁ hs₁ _ _ _
    rw [View.after_about hc, hset]
    exact h a _ hw₁ (by rw [hs₁])

lemma Goes.leave {c : Call} {f : c.Reply → Io α} (hc : about i (.db c))
    (hset : ∀ (v : View) e, v.settle (.db c) (.error e) = v) (hb : s.Based cls.tasks.length)
    (hwrite : ∀ a pos, (s.after (.db c) (.ok a)).done pos = s.done pos) (hs : O.stops s)
    (hl : O.Leaves i s c)
    (h : ∀ a (v : View), v.Working → v.toSaga = s →
      (v.after i (.db c) (.ok a)).Based cls.tasks.length → O.rests (v.after i (.db c) (.ok a)) →
        O.Tells i name m cls (f a) (O.Post cls P) (v.after i (.db c) (.ok a))) :
    O.Goes i name m cls (query c >>= f) P s := by
  rintro v hw rfl
  refine .call_bind ⟨hb, .inl ⟨hw, hs, fun _ => hl.1⟩⟩ ?_ ?_
  · rintro e _ ⟨v₁, hf, -, ho, rfl⟩
    obtain ⟨hw₁, hs₁, -⟩ := hw.fade hf
    rw [View.after_about hc, hset]
    have hthrow := hO.raises _ c e hs (hs₁ ▸ ho)
    rw [if_pos hc, ← hs₁] at hthrow
    exact .inl ⟨based_congr (fun _ => by rfl) (hs₁ ▸ hb), hw₁, hthrow⟩
  · rintro a _ ⟨v₁, hf, -, ho, rfl⟩
    obtain ⟨hw₁, hs₁, -⟩ := hw.fade hf
    refine h a v₁ hw₁ hs₁ ?_ (hl.2 v₁ a hw₁ hs₁)
    rw [View.after_about hc]
    exact based_congr (hs₁ ▸ hwrite a) hb

/-! ### The walk -/

omit hO

lemma reschedule_tells (job : JobRow) (runId : ℕ) (ctx : TaskContext) (hc : O.Closed cls v) :
    O.Tells i name m cls (Worker.reschedule job runId ctx) (O.Post cls fun _ v => O.Closed cls v)
      v := by
  unfold Worker.reschedule
  split
  · exact hc
  · refine .close hc rfl (fun _ => .inr hc) ?_
    rintro (_ | run)
    · exact hc
    · refine .close hc rfl (fun _ => .inr hc) fun next => ?_
      exact .close_last hc rfl fun y => by cases y <;> [exact .inr hc; exact hc]

lemma rescheduleOnError_tells (run : RunRow) (hc : O.Closed cls v) :
    O.Tells i name m cls (Worker.rescheduleOnError run) (fun _ v => O.Closed cls v) v := by
  refine .close hc rfl (fun _ => hc) ?_
  rintro (_ | job)
  · exact hc
  · change O.Tells i name m cls (if job.source ≠ .scheduled then _ else _) _ v
    split
    · exact hc
    · exact .close hc rfl (fun _ => hc) fun now => .close_last hc rfl fun _ => hc

/-- What the worker finds to undo are the tasks that have succeeded, the last first. -/
lemma succeeded_eq {records : List TaskRow} {k : ℕ} (hr : s.Reads records) (hup : s.Upto k) :
    succeeded records = (List.range k).reverse := by
  refine hr.sorted.eq_of_mem_iff (List.pairwise_reverse.2 List.pairwise_lt_range) fun pos => ?_
  rw [hr.mem, hup, List.mem_reverse, List.mem_range]

include hO

lemma compensateFrom_goes {err : String} (records : List TaskRow) {k : ℕ} (ctx : TaskContext)
    (hk : k ≤ cls.tasks.length) (hup : s.Upto k) (hu : O.undoes err k s)
    (htodo : (records.filter fun t => t.status = .succeeded).map TaskRow.position =
      (List.range k).reverse) :
    O.Goes i name m cls (Worker.compensateFrom i cls records ctx)
      (fun _ v => v.Working ∧ v.Upto 0 ∧ O.undoes err 0 v.toSaga) s := by
  induction records generalizing k ctx s with
  | nil =>
    obtain rfl : k = 0 := by
      have := congrArg List.length htodo
      simpa using this.symm
    rintro v hw rfl
    exact ⟨hw, hup, hu⟩
  | cons record records ih =>
    unfold Worker.compensateFrom
    by_cases hs : record.status = .succeeded
    · rw [if_neg (not_not.2 hs)]
      rw [List.filter_cons_of_pos (by simpa using hs), List.map_cons] at htodo
      cases k with
      | zero => cases htodo
      | succ k =>
        rw [List.range_succ, List.reverse_append] at htodo
        obtain ⟨hpos, hrest⟩ := List.cons.inj htodo
        have htask : Worker.taskForRecord record cls = .ok (cls.tasks.get ⟨k, hk⟩) := by
          simp [Worker.taskForRecord, hpos, Nat.lt_of_succ_le hk]
        rw [htask, hpos]
        have hb : s.Based cls.tasks.length := ⟨_, hk, hup⟩
        refine .body (by simp [about]) (fun _ _ => rfl) (fun _ _ => id) hb
          ⟨hO.undoes_stops _ _ _ hu, (hO.undo err k s ctx (none, []) hu hup).1⟩ ?_
        rintro ⟨raised, state⟩ -
        obtain ⟨-, hpoint, hnext⟩ := hO.undo err k s ctx (raised, state) hu hup
        refine .say hO (by simp [about]) (fun _ _ => rfl) (based_congr (fun _ => by rfl) hb) hpoint ?_
        rintro ⟨⟩
        exact ih _ (Nat.le_of_succ_le hk) (hup.back fun pos => Saga.done_compensateTask ..) hnext hrest
    · rw [if_pos hs]
      rw [List.filter_cons_of_neg (by simpa using hs)] at htodo
      exact ih ctx hk hup hu htodo

lemma compensate_goes {err : String} {k : ℕ} (ctx : TaskContext) (hk : k ≤ cls.tasks.length)
    (hup : s.Upto k) (hu : O.undoes err k s) :
    O.Goes i name m cls (Worker.compensate i cls ctx)
      (fun _ v => v.Working ∧ v.Upto 0 ∧ O.undoes err 0 v.toSaga) s := by
  refine .read hO rfl ⟨k, hk, hup⟩ (hO.undoes_stops _ _ _ hu) ?_
  rintro records ⟨v, rfl, hh⟩
  exact compensateFrom_goes hO _ ctx hk hup hu (succeeded_eq (hh rfl) hup)

omit hO in
lemma failRun_settled {v : View} {error : String} (h : v.Working ∨ v.Settled) :
    (v.after i (.db (.failRun i error none)) (.ok ())).Settled := by
  rw [View.after_about (by simp [about])]
  by_cases hs : v.status = some .running
  · simp [View.settle, View.Settled, hs, RunStatus.isDone]
  · simp only [View.settle, if_neg hs, View.Settled]
    rcases h with (hr | hc) | hd
    · exact absurd hr hs
    · simp [hc, RunStatus.isDone]
    · exact hd

omit hO in
lemma after_unhandled {v : View} (hv : v.Settled) (y : Except Exc (Req.db (unhandled i)).Reply) :
    v.after i (.db (unhandled i)) y =
      { v with toSaga := v.toSaga.after (.db (unhandled i)) y } := by
  rw [View.after_about (by simp [about, unhandled])]
  cases y with
  | error e => rfl
  | ok u =>
    have hs : v.status ≠ some .running := by
      intro hrun
      simp [View.Settled, hrun, RunStatus.isDone] at hv
    simp [View.settle, unhandled, hs]

omit hO in
/-- A run that was running or cancelled is done once it is completed. -/
lemma completeRun_settled {v : View} {result : Value} (hw : v.Working) :
    (v.after i (.db (.completeRun i result)) (.ok ())).Settled := by
  rw [View.after_about (by simp [about])]
  rcases hw with hs | hs <;> simp [View.settle, View.Settled, hs, RunStatus.isDone]

lemma finalizeFailed_goes {job : JobRow} {err : String} (hup : s.Upto 0) (hu : O.undoes err 0 s) :
    O.Goes i name m cls (Worker.finalizeFailed job i err) (fun _ v => O.Closed cls v) s := by
  refine .leave hO (by simp [about]) (fun _ _ => rfl) ⟨0, Nat.zero_le _, hup⟩ (fun _ _ => rfl)
    (hO.undoes_stops _ _ _ hu) (hO.fails err s hu hup) ?_
  rintro ⟨⟩ v hw - hb hr
  have hc : O.Closed cls (v.after i (.db (.failRun i err none)) (.ok ())) :=
    ⟨hb, failRun_settled (.inl hw), hr⟩
  change O.Tells i name m cls (if job.retries ≤ 0 then _ else _) _ _
  split
  · exact hc
  · refine .close hc rfl (fun _ => .inr hc) fun attempts => ?_
    split
    · refine .close hc rfl (fun _ => .inr hc) fun retryAt => ?_
      exact .close hc rfl (fun _ => .inr hc) fun _ => hc
    · exact hc

omit hO in
lemma Goes.bind {p : Io α} {f : α → Io β} {P : α → View → Prop} {P' : β → View → Prop}
    (hp : O.Goes i name m cls p P s)
    (h : ∀ a v, P a v → O.Tells i name m cls (f a) (O.Post cls P') v) :
    O.Goes i name m cls (p >>= f) P' s := by
  intro v hw hs
  refine .bind ((hp v hw hs).mono ?_)
  rintro (e | a) v hv
  · exact hv
  · exact h a v hv

omit hO in
/-- A run that was running or cancelled is done once it is cancelled. -/
lemma cancelRun_settled {v : View} : (v.after i (.db (.cancelRun i)) (.ok ())).Settled := by
  rw [View.after_about (by simp [about])]
  rfl

lemma cancelRun_goes {α : Type} {a : α} {P : α → View → Prop} (hb : s.Based cls.tasks.length)
    (hs : O.stops s) (hl : O.Leaves i s (.cancelRun i)) (hP : ∀ v, O.Closed cls v → P a v) :
    O.Goes i name m cls (query (.cancelRun i) >>= fun _ => pure a) P s := by
  refine .leave hO (by simp [about]) (fun _ _ => rfl) hb (fun _ _ => rfl) hs hl ?_
  rintro ⟨⟩ v _ - hb hr
  exact hP _ ⟨hb, cancelRun_settled, hr⟩

variable (O cls) in
/-- How a task leaves the run: the worker goes on at the next position, or is done with the run. -/
def Left (s : Saga) (pos : ℕ) : Worker.TaskEnd × TaskContext → View → Prop
  | (.ok, ctx), v => v.Working ∧ v.Upto pos ∧ O.comes pos ctx v.toSaga ∧
    ∀ pos' ≥ pos, v.mark pos' = s.mark pos'
  | (.failed, _), v => O.Closed cls v
  | (.cancel, _), v | (.retry, _), v => O.Rested cls v

lemma runTask_goes {job : JobRow} (hjob : job.maxAttempts = m) {pos : ℕ} {ctx : TaskContext}
    {task : TaskCls} {existing : Option TaskRow} (htask : cls.tasks[pos]? = some task)
    (hex : existing.map TaskRow.mark = s.mark pos) (hup : s.Upto pos) (hc : O.comes pos ctx s) :
    O.Goes i name m cls (Worker.runTask i cls job ctx pos task existing) (O.Left cls s (pos + 1))
      s := by
  have hlt : pos < cls.tasks.length := (List.getElem?_eq_some_iff.1 htask).1
  have hb : s.Based cls.tasks.length := ⟨pos, hlt.le, hup⟩
  have hn : (existing.map TaskRow.attempts).getD 0 + 1 = s.attempt pos := by
    rw [Saga.attempt, ← hex]
    cases existing <;> rfl
  obtain ⟨hask, hruns⟩ := hO.starts s pos ctx task hc hup htask
  unfold Worker.runTask
  dsimp only
  rw [hn, taskBudget_eq, hjob]
  refine .say hO (by simp [about]) (fun _ _ => rfl) hb ⟨hO.comes_stops _ _ _ hc, hask⟩ ?_
  rintro ⟨⟩
  -- the record is fresh, and the tasks before it are as they were
  generalize hs₀ : s.after (.db (.startTask i pos task.taskName (s.attempt pos))) (.ok ()) = s₀
    at hruns ⊢
  have hup₀ : s₀.Upto pos := hs₀ ▸ hup.stay fun pos' => Saga.done_startTask ..
  have hmark : s₀.mark pos = some ⟨.running, s.attempt pos, none, none⟩ := by
    rw [← hs₀]
    exact Function.update_self ..
  have hb₀ : s₀.Based cls.tasks.length := ⟨pos, hlt.le, hup₀⟩
  refine .body (by simp [about]) (fun _ _ => rfl) (fun _ _ => id) hb₀
    (hO.runs_point _ _ _ _ _ hruns hup₀ htask hmark) ?_
  rintro ⟨outcome, state⟩ hh
  have hup₁ : (s₀.after (.run i pos (s.attempt pos) ctx) (.ok (outcome, state))).Upto pos := hup₀
  have hb₁ : (s₀.after (.run i pos (s.attempt pos) ctx) (.ok (outcome, state))).Based
    cls.tasks.length := ⟨pos, hlt.le, hup₁⟩
  rcases outcome with exc | v
  · change O.Goes i name m cls (if exc.isJobCancelled then _ else _) _ _
    split
    · rename_i hcancel
      obtain ⟨hp₁, hs₂, hl⟩ := hO.cancels _ _ _ _ _ _ _ hruns hup₀ htask hmark hh hcancel
      refine .say hO (by simp [about]) (fun _ _ => rfl) hb₁ hp₁ ?_
      rintro ⟨⟩
      have hup₂ := hup₁.stay fun pos' => Saga.done_cancelTask _ i pos pos'
      exact cancelRun_goes hO ⟨pos, hlt.le, hup₂⟩ hs₂ hl fun v hv => ⟨hv.1, hv.2.2⟩
    · rename_i hcancel
      have hexc := Bool.eq_false_iff.2 hcancel
      split
      · rename_i hspent
        obtain ⟨hp₁, hp₂, hu⟩ :=
          hO.spends _ _ _ _ _ _ _ hruns hup₀ htask hmark hh hexc hspent
        refine .say hO (by simp [about]) (fun _ _ => rfl) hb₁ hp₁ ?_
        rintro ⟨⟩
        refine .say hO (by simp [about]) (fun _ _ => rfl) (based_congr (fun _ => by rfl) hb₁) hp₂ ?_
        rintro ⟨⟩
        refine .bind (compensate_goes hO _ hlt.le ?_ hu) ?_
        · exact Saga.Upto.stay hup₁ fun pos' => Saga.done_failTask ..
        rintro ctx' v ⟨hw, hup₃, hu₃⟩
        refine Goes.bind (finalizeFailed_goes hO hup₃ hu₃) ?_ v hw rfl
        exact fun _ v hv => hv
      · rename_i hspent
        refine fun v hw hv => Tells.ask hw (hv ▸ hb₁) ?_ (fun habout => by cases habout) ?_ ?_
        · rw [hv]
          exact (hO.retries _ _ _ _ _ _ _ 0 hruns hup₀ htask hmark hh hexc hspent).1.1
        · intro e v₁ hw₁ hs₁ _ he
          obtain ⟨-, -, -, -, hthrow⟩ :=
            hO.retries _ _ _ _ _ _ _ 0 hruns hup₀ htask hmark hh hexc hspent
          rw [View.after_not_about rfl]
          exact .inl ⟨hs₁.trans hv ▸ hb₁, hw₁, hs₁.trans hv ▸ hthrow e (hv ▸ he)⟩
        · rintro t v₁ hw₁ hs₁ - - -
          rw [View.after_not_about rfl]
          obtain ⟨hp₁, hp₂, hs₃, hl, -⟩ :=
            hO.retries _ _ _ _ _ _ _ t hruns hup₀ htask hmark hh hexc hspent
          refine Goes.say hO (by simp [about]) (fun _ _ => rfl) hb₁ hp₁ ?_ v₁ hw₁ (hs₁.trans hv)
          rintro ⟨⟩
          refine .say hO (by simp [about]) (fun _ _ => rfl) (based_congr (fun _ => by rfl) hb₁) hp₂ ?_
          rintro ⟨⟩
          refine .leave hO (by simp [about]) (fun _ _ => rfl) ?_ (fun _ _ => rfl) hs₃ hl ?_
          · exact ⟨pos, hlt.le, Saga.Upto.stay hup₁ fun pos' => Saga.done_failTask ..⟩
          · exact fun _ v _ _ hb hr => ⟨hb, hr⟩
  · obtain ⟨hp₁, hp₂, hnext⟩ := hO.succeeds _ _ _ _ _ _ _ hruns hup₀ htask hmark hh
    refine .say hO (by simp [about]) (fun _ _ => rfl) hb₁ hp₁ ?_
    rintro ⟨⟩
    have hup₂ := hup₁.next fun pos' => (Saga.done_succeedTask _ i pos v pos').trans (by
      rw [show Saga.mark _ pos = _ from hmark]
      rfl)
    refine .say hO (by simp [about]) (fun _ _ => rfl) ⟨pos + 1, hlt, hup₂⟩ hp₂ ?_
    rintro ⟨⟩ v' hw hv
    refine ⟨hw, hv ▸ hup₂, hv ▸ hnext, fun pos' hpos' => ?_⟩
    have hne : pos' ≠ pos := by omega
    rw [hv, ← hs₀]
    exact (Function.update_of_ne hne ..).trans (Function.update_of_ne hne ..)

lemma runTasks_goes {job : JobRow} (hjob : job.maxAttempts = m) {records : List TaskRow}
    (tasks : List TaskCls) {pos : ℕ} {ctx : TaskContext} (htasks : tasks = cls.tasks.drop pos)
    (hpos : pos ≤ cls.tasks.length)
    (hrec : ∀ pos' ≥ pos, (Worker.recordAt records pos').map TaskRow.mark = s.mark pos')
    (hup : s.Upto pos) (hc : O.comes pos ctx s) :
    O.Goes i name m cls (Worker.runTasks i cls job records tasks pos ctx)
      (fun a v => O.Left cls v.toSaga cls.tasks.length a v) s := by
  induction tasks generalizing pos ctx s with
  | nil =>
    obtain rfl : pos = cls.tasks.length := by
      have := List.drop_eq_nil_iff.1 htasks.symm
      omega
    rintro v hw rfl
    exact ⟨hw, hup, hc, fun _ _ => rfl⟩
  | cons task tasks ih =>
    have htask : cls.tasks[pos]? = some task := by
      rw [← Nat.add_zero pos, ← List.getElem?_drop, ← htasks]
      rfl
    have hlt : pos < cls.tasks.length := (List.getElem?_eq_some_iff.1 htask).1
    refine .bind (runTask_goes hO hjob htask (hrec pos le_rfl) hup hc) ?_
    rintro ⟨_ | _ | _ | _, ctx'⟩ v hv
    · obtain ⟨hw, hup', hc', hframe⟩ := hv
      refine ih ?_ hlt (fun pos' hpos' => ?_) hup' hc' v hw rfl
      · rw [List.drop_eq_getElem_cons hlt] at htasks
        exact (List.cons.inj htasks).2
      · rw [hrec pos' (by omega), hframe pos' hpos']
    all_goals exact hv

omit hO in
lemma doneAt_eq {records : List TaskRow} (hr : s.Reads records) (pos : ℕ) :
    Worker.doneAt records pos = s.done pos := by
  unfold Worker.doneAt Saga.done
  rw [← hr.mark, Option.any_map]
  rfl

omit hO in
/-- Where the worker goes on is the first task that has not succeeded. -/
lemma start_eq {records : List TaskRow} {k n : ℕ} (hr : s.Reads records) (hup : s.Upto k)
    (hk : k ≤ n) : Worker.start records n = k := by
  have hdone : ∀ pos, Worker.doneAt records pos ↔ pos < k := by
    intro pos
    rw [doneAt_eq hr]
    exact hup pos
  unfold Worker.start
  rcases hk.eq_or_lt with rfl | hlt
  · have hnone : (List.range k).find? (fun pos => decide (¬ Worker.doneAt records pos)) = none := by
      rw [List.find?_range_eq_none]
      intro pos hpos
      simpa using (hdone pos).2 hpos
    rw [hnone]
    rfl
  · have hsome : (List.range n).find? (fun pos => decide (¬ Worker.doneAt records pos)) =
        some k := by
      rw [List.find?_range_eq_some]
      refine ⟨?_, List.mem_range.2 hlt, fun pos hpos => ?_⟩
      · simpa using mt (hdone k).1 (lt_irrefl k)
      · simpa using (hdone pos).2 hpos
    rw [hsome]
    rfl

omit hO in
lemma feeds_buildCtx {run : RunRow} {job : JobRow} (hctx : run.ctx = s.ctx) :
    s.Feeds (Worker.buildCtx run job) := by
  constructor <;> rw [← hctx] <;> unfold Worker.buildCtx <;> cases run.ctx <;> rfl

lemma resume_goes {run : RunRow} {job : JobRow} (hi : run.id = i) (hctx : run.ctx = s.ctx)
    (hjob : job.maxAttempts = m) {records : List TaskRow} (hr : s.Reads records)
    (hb : s.Based cls.tasks.length) (he : O.enters s) :
    O.Goes i name m cls (Worker.resume run job cls records) (fun _ v => O.Rested cls v) s := by
  obtain ⟨k, hk, hup⟩ := hb
  have hfeeds : s.Feeds (Worker.buildCtx run job) := feeds_buildCtx hctx
  unfold Worker.resume
  rw [start_eq hr hup hk, hi]
  dsimp only
  split
  · rename_i existing hex
    obtain ⟨task, mark, htask, hmark, herr, hfailed, hspent⟩ : ∃ task mark,
        cls.tasks[k]? = some task ∧ s.mark k = some mark ∧ existing.error = mark.error ∧
          mark.status = .failed ∧ budget m task ≤ mark.attempts := by
      unfold Worker.exhausted at hex
      split at hex
      · cases hex
      · rename_i task htask
        obtain ⟨hrec, hp⟩ := Option.filter_eq_some_iff.1 hex
        rw [taskBudget_eq, hjob, decide_eq_true_iff] at hp
        exact ⟨task, existing.mark, htask, by rw [← hr.mark, hrec]; rfl, rfl, hp⟩
    obtain ⟨hask, hu⟩ := hO.recovers s k _ task mark he hup hfeeds htask hmark hfailed hspent
    rw [herr]
    refine .say hO (by simp [about]) (fun _ _ => rfl) ⟨k, hk, hup⟩ ⟨hO.enters_stops s he, hask⟩ ?_
    rintro ⟨⟩
    refine .bind (compensate_goes hO _ hk hup hu) ?_
    rintro ctx v ⟨hw, hup', hu'⟩
    refine Goes.bind (finalizeFailed_goes hO hup' hu') ?_ v hw rfl
    intro _ v hc
    refine (reschedule_tells job i ctx hc).mono ?_
    rintro (_ | ⟨⟩) v hv
    · exact hv
    · exact ⟨hv.1, hv.2.2⟩
  · rename_i hex
    have hcome : O.comes k (Worker.buildCtx run job) s := by
      refine hO.begins s k _ he hup hfeeds fun task mark htask hmark hfailed hspent => ?_
      rw [← hr.mark, Option.map_eq_some_iff] at hmark
      obtain ⟨t, ht, rfl⟩ := hmark
      have hp : t.status = .failed ∧ Worker.taskBudget task job ≤ t.attempts :=
        ⟨hfailed, by rwa [taskBudget_eq, hjob]⟩
      simp [Worker.exhausted, htask, ht, Option.filter, hp] at hex
    refine .bind (runTasks_goes hO hjob _ rfl hk (fun pos _ => hr.mark pos) hup hcome) ?_
    rintro ⟨_ | _ | _ | _, ctx⟩ v hv
    · obtain ⟨hw, hup', hc, -⟩ := hv
      refine Goes.leave hO (by simp [about]) (fun _ _ => rfl) ⟨_, le_rfl, hup'⟩ (fun _ _ => rfl)
        (hO.comes_stops _ _ _ hc) (hO.completes _ _ hc hup') ?_ v hw rfl
      rintro ⟨⟩ v' hw' - hb hr
      have hclosed : O.Closed cls (v'.after i (.db (.completeRun i (.dict ctx.results))) (.ok ())) :=
        ⟨hb, completeRun_settled hw', hr⟩
      refine .close hclosed rfl (fun _ => .inr hclosed) fun _ => ?_
      refine (reschedule_tells job i ctx hclosed).mono ?_
      rintro (_ | ⟨⟩) v hv
      · exact hv
      · exact ⟨hv.1, hv.2.2⟩
    · exact hv
    · exact hv
    · refine (reschedule_tells job i ctx hv).mono ?_
      rintro (_ | ⟨⟩) v hv
      · exact hv
      · exact ⟨hv.1, hv.2.2⟩

lemma run_tells {w : Worker} {run : RunRow} (hw : w.resolve name = some cls) (hi : run.id = i)
    (hctx : run.ctx = v.ctx) (hj : v.jobId = some run.jobId) (hv : v.Working)
    (hb : v.Based cls.tasks.length) (he : O.enters v.toSaga) :
    O.Tells i name m cls (w.run run) (O.Post cls fun _ v => O.Rested cls v) v := by
  refine .ask hv hb (hO.enters_stops _ he) nofun ?_ ?_
  · intro e v₁ hw₁ hs₁ _ hh
    have hthrow := hO.raises _ (.getJob run.jobId) e (hO.enters_stops _ he) hh
    rw [View.after_not_about rfl]
    exact .inl ⟨hs₁ ▸ hb, hw₁, hs₁ ▸ hthrow⟩
  · intro job v₁ hw₁ hs₁ hj₁ hh _
    obtain ⟨job, rfl, hname, hmax⟩ := hh (hj₁.trans hj)
    rw [View.after_not_about rfl]
    change O.Tells i name m cls (if job.status = .cancelled then _ else _) _ v₁
    rw [← hs₁] at hb he hctx
    split
    · rw [hi, ← Prog.bind_pure (query (.cancelRun i))]
      exact cancelRun_goes (a := ()) (P := fun _ v => O.Rested cls v) hO hb (hO.enters_stops _ he)
        (hO.halts _ he) (fun v hv => ⟨hv.1, hv.2.2⟩) v₁ hw₁ rfl
    · rw [hname, hw]
      refine Goes.read hO rfl hb (hO.enters_stops _ he) ?_ v₁ hw₁ rfl
      rintro records ⟨v₂, hs₂, hh₂⟩
      exact resume_goes hO hi hctx hmax (hs₂ ▸ hh₂ hi) hb he

/-- **A worker that has claimed a run keeps to the outline.** -/
theorem execute_tells {w : Worker} {run : RunRow} (hw : w.resolve name = some cls)
    (hi : run.id = i) (hctx : run.ctx = v.ctx) (hj : v.jobId = some run.jobId) (hv : v.Working)
    (hb : v.Based cls.tasks.length) (he : O.enters v.toSaga) :
    O.Tells i name m cls (w.execute run) (fun _ v => O.Rested cls v) v := by
  refine .tryCatch ((run_tells hO hw hi hctx hj hv hb he).mono ?_)
  subst hi
  rintro (e | ⟨⟩) v h
  · have hab : about run.id (.db (unhandled run.id)) := by simp [about, unhandled]
    have hclose : ∀ v, O.Closed cls v → O.Tells run.id name m cls (Worker.rescheduleOnError run)
        (fun _ v => O.Rested cls v) v :=
      fun v hv => (rescheduleOnError_tells run hv).mono fun _ v hv => ⟨hv.1, hv.2.2⟩
    have hbased : ∀ {v v₁ : View} {y}, v.Based cls.tasks.length → v₁.toSaga = v.toSaga →
        (v₁.after run.id (.db (unhandled run.id)) y).Based cls.tasks.length := by
      intro v v₁ y hb hs
      rw [View.after_about hab]
      refine based_congr (fun _ => ?_) (hs ▸ hb)
      cases y <;> rfl
    rcases h with ⟨hb, hw, hthrow⟩ | ⟨hb, hs, hr⟩
    · obtain ⟨hstop, hask, hleave⟩ := hO.throws_leaves _ hthrow
      refine .call_bind ⟨hb, .inl ⟨hw, hstop, fun _ => hask⟩⟩ ?_ ?_
      · rintro e _ ⟨v₁, hf, -, hh, rfl⟩
        obtain ⟨hw₁, hs₁, -⟩ := hw.fade hf
        exact ⟨hbased hb hs₁, hO.drops _ e hthrow (hs₁ ▸ hh) v₁ hw₁ hs₁⟩
      · rintro ⟨⟩ _ ⟨v₁, hf, -, -, rfl⟩
        obtain ⟨hw₁, hs₁, -⟩ := hw.fade hf
        exact hclose _ ⟨hbased hb hs₁, failRun_settled (.inl hw₁), hleave v₁ () hw₁ hs₁⟩
    · refine .call_bind ⟨hb, .inr ⟨hs, hr, fun _ => rfl⟩⟩ ?_ ?_
      · rintro e _ ⟨v₁, hf, -, -, rfl⟩
        rw [hs.fade hf]
        exact ⟨hbased hb rfl, hO.late v _ hr hs⟩
      · rintro ⟨⟩ _ ⟨v₁, hf, -, -, rfl⟩
        rw [hs.fade hf]
        exact hclose _ ⟨hbased hb rfl, failRun_settled (.inr hs), hO.late v _ hr hs⟩
  · exact h

end Rules

end Outline

end Pyreljob
