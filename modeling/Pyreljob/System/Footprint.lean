import Pyreljob.Model.System

/-!
What each kind of process may ask for.

Most transactions are asked for by one kind of process only, and a process asks for them about what it
was started with. Nothing is said here about when it does.
-/

namespace Pyreljob

open Lib

namespace Kind

/-- The requests of a worker, while it claims a run and executes it. -/
def WorkerMay : Req → Prop
  | .db (.selectClaimable ..) | .db (.claimRun ..) | .db (.getJob _) | .db (.getRun _)
  | .db (.tasksOf _) | .db (.startTask ..) | .db (.succeedTask ..) | .db (.failTask ..)
  | .db (.cancelTask ..) | .db (.compensateTask ..) | .db (.setRunCtx ..) | .db (.completeRun ..)
  | .db (.failRun ..) | .db (.cancelRun _) | .db (.incrementJobAttempts _)
  | .db (.resetJobAttempts _) | .db (.setNextRunAt ..) | .db (.createRun ..) => True
  | .now | .retryAt _ | .run .. | .undo .. | .nextRuntime .. => True
  | _ => False

def May : Kind → Req → Prop
  | enqueue _ _, .db (.findByIdempotencyKey _) => True
  | enqueue spec t, .db (.insertJobAndRun spec' t') =>
    spec' = { spec with source := .onDemand, nextRunAt := none } ∧ t' = t
  | schedule _, .db (.findScheduled ..) => True
  | schedule spec, .db (.insertJob spec') => spec' = { spec with source := .scheduled, priority := 0 }
  | cancel jobId, .db (.cancelJob i) => i = jobId
  | delete jobId, .db (.hasActiveRun i) | delete jobId, .db (.deleteJob i) => i = jobId
  | prune _, .now | prune _, .db (.selectPrunable _) | prune _, .db (.deleteRuns _) => True
  | undo _ jobId, .db (.getJob i) | undo _ jobId, .db (.runsOf i) => i = jobId
  | undo .., .db (.tasksOf _) | undo .., .undo .. | undo .., .db (.compensateTask ..) => True
  | beat .., .now | beat .., .lastClaimAt | beat .., .db (.reconcileBatch ..)
  | beat .., .db (.rearmOrphanedJobs ..) | beat .., .db .listScheduled
  | beat .., .db (.claimScheduled ..) | beat .., .db (.createRun ..) => True
  | worker _, r => WorkerMay r
  | heartbeat .., .db (.isJobCancelled _) | heartbeat .., .db (.renewLease ..) => True
  | progress runId _, .db (.setRunProgress i _) => i = runId
  | _, _ => False

/-! ### The worker -/

/-- The request is not one by which a compensation undoes a task. -/
def Plain : Req → Prop
  | .undo .. | .db (.compensateTask ..) => False
  | _ => True

/-- What lets a worker's program stay where `I` holds: nothing leads out, its plain requests are not
refused, and its compensations stay there. -/
structure Lets {C : Type} (A : C → (r : Req) → Except Exc r.Reply → C → Prop) (ok : C → Req → Prop)
    (I : C → Prop) : Prop where
  stays : ∀ c r y c', I c → A c r y c' → I c'
  plain : ∀ c r, I c → WorkerMay r → Plain r → ok c r
  compensates : ∀ runId cls ctx, (Worker.compensate runId cls ctx).Within A ok I

section

variable {C : Type} {A : C → (r : Req) → Except Exc r.Reply → C → Prop} {ok : C → Req → Prop}
  {I : C → Prop} {α : Type} (runId : ℕ) (cls : JobCls) (job : JobRow)

lemma Lets.closed (h : Lets A ok I) : Prog.Closed A ok I fun _ r => WorkerMay r ∧ Plain r where
  ok c r hc hr := h.plain c r hc hr.1 hr.2
  stays c r y c' hc _ := h.stays c r y c' hc

lemma Lets.ask (h : Lets A ok I) {r : Req} {f : r.Reply → Io α} (hr : WorkerMay r) (hplain : Plain r)
    (hf : ∀ a, (f a).Within A ok I) : (Prog.call r >>= f).Within A ok I :=
  h.closed.ask (fun _ _ => ⟨hr, hplain⟩) hf

lemma Lets.last (h : Lets A ok I) {r : Req} (hr : WorkerMay r) (hplain : Plain r) :
    (Prog.call r : Io r.Reply).Within A ok I :=
  h.closed.last fun _ _ => ⟨hr, hplain⟩

lemma finalizeFailed_within (h : Lets A ok I) (error : String) :
    (Worker.finalizeFailed job runId error).Within A ok I := by
  refine h.ask trivial trivial fun _ => ?_
  split
  · exact .ret _
  · refine h.ask trivial trivial fun attempts => ?_
    split
    · exact h.ask trivial trivial fun retryAt => h.ask trivial trivial fun _ => .ret _
    · exact .ret _

lemma reschedule_within (h : Lets A ok I) (ctx : TaskContext) :
    (Worker.reschedule job runId ctx).Within A ok I := by
  unfold Worker.reschedule
  split
  · exact .ret _
  · refine h.ask trivial trivial fun row => ?_
    cases row with
    | none => exact .ret _
    | some row => exact h.ask trivial trivial fun next => h.last trivial trivial

lemma rescheduleOnError_within (h : Lets A ok I) (run : RunRow) :
    (Worker.rescheduleOnError run).Within A ok I := by
  refine h.ask trivial trivial fun job => ?_
  cases job with
  | none => exact .ret _
  | some job =>
    change (if job.source ≠ .scheduled then _ else _ : Io Unit).Within A ok I
    split
    · exact .ret _
    · exact h.ask trivial trivial fun now => h.last trivial trivial

lemma runTask_within (h : Lets A ok I) (ctx : TaskContext) (pos : ℕ) (task : TaskCls)
    (existing : Option TaskRow) :
    (Worker.runTask runId cls job ctx pos task existing).Within A ok I := by
  refine h.ask trivial trivial fun _ => h.ask trivial trivial fun ran => ?_
  obtain ⟨exc | v, state⟩ := ran
  · dsimp only
    split
    · exact h.ask trivial trivial fun _ => h.ask trivial trivial fun _ => .ret _
    · split
      · refine h.ask trivial trivial fun _ => h.ask trivial trivial fun _ => ?_
        refine .bind (h.compensates runId cls _) fun ctx => ?_
        exact .bind (finalizeFailed_within runId job h _) fun _ => .ret _
      · exact h.ask trivial trivial fun _ => h.ask trivial trivial fun _ =>
          h.ask trivial trivial fun _ => h.ask trivial trivial fun _ => .ret _
  · exact h.ask trivial trivial fun _ => h.ask trivial trivial fun _ => .ret _

lemma runTasks_within (h : Lets A ok I) (records : List TaskRow) (tasks : List TaskCls) (pos : ℕ)
    (ctx : TaskContext) : (Worker.runTasks runId cls job records tasks pos ctx).Within A ok I := by
  induction tasks generalizing pos ctx with
  | nil => exact .ret _
  | cons task tasks ih =>
    refine .bind (runTask_within runId cls job h ctx pos task _) fun ended => ?_
    obtain ⟨_ | _ | _ | _, ctx⟩ := ended
    · exact ih _ ctx
    all_goals exact .ret _

lemma resume_within (h : Lets A ok I) (run : RunRow) (records : List TaskRow) :
    (Worker.resume run job cls records).Within A ok I := by
  unfold Worker.resume
  dsimp only
  split
  · refine h.ask trivial trivial fun _ => ?_
    refine .bind (h.compensates _ cls _) fun ctx => ?_
    exact .bind (finalizeFailed_within _ job h _) fun _ => reschedule_within _ job h ctx
  · refine .bind (runTasks_within _ cls job h records _ _ _) fun ended => ?_
    obtain ⟨_ | _ | _ | _, ctx⟩ := ended
    · exact h.ask trivial trivial fun _ => h.ask trivial trivial fun _ =>
        reschedule_within _ job h ctx
    · exact .ret _
    · exact .ret _
    · exact reschedule_within _ job h ctx

lemma execute_within (h : Lets A ok I) (w : Worker) (run : RunRow) :
    (w.execute run).Within A ok I := by
  have hrun : (w.run run).Within A ok I := by
    refine h.ask trivial trivial fun job => ?_
    cases job with
    | none => exact h.last trivial trivial
    | some job =>
      dsimp only
      split
      · exact h.last trivial trivial
      · split
        · exact h.last trivial trivial
        · exact h.ask trivial trivial fun records => resume_within _ job h run records
  refine .tryCatch hrun fun _ => ?_
  exact h.ask trivial trivial fun _ => rescheduleOnError_within h run

/-- **A worker stays within what its compensations stay within.** -/
theorem tick_within (h : Lets A ok I) (w : Worker) : w.tick.Within A ok I := by
  have hclaim : w.claim.Within A ok I := by
    refine h.ask trivial trivial fun now => h.ask trivial trivial fun now' => ?_
    refine h.ask trivial trivial fun selected => ?_
    cases selected with
    | none => exact .ret _
    | some runId => exact h.last trivial trivial
  refine .bind hclaim fun run => ?_
  cases run with
  | none => exact .ret _
  | some run => exact execute_within h w run

end

lemma compensateFrom_asks (runId : ℕ) (cls : JobCls) (records : List TaskRow) (ctx : TaskContext) :
    (Worker.compensateFrom runId cls records ctx).Asks WorkerMay := by
  induction records generalizing ctx with
  | nil => exact .ret _
  | cons record records ih =>
    unfold Worker.compensateFrom
    split
    · exact ih ctx
    · split
      · exact .ret _
      · exact Prog.Asks.ask trivial fun undone => Prog.Asks.ask trivial fun _ => ih _

lemma tick_asks (w : Worker) : w.tick.Asks WorkerMay :=
  tick_within
    { stays := fun _ _ _ _ _ _ => trivial
      plain := fun _ _ _ hr _ => hr
      compensates := fun runId cls ctx =>
        Prog.Asks.ask trivial fun _ => compensateFrom_asks runId cls _ ctx } w

/-! ### The other processes -/

section

variable {P : Req → Prop}

lemma enqueue_asks (spec : JobSpec) (t : Option Time) (hfind : ∀ key, P (.db (.findByIdempotencyKey key)))
    (hinsert : P (.db (.insertJobAndRun { spec with source := .onDemand, nextRunAt := none } t))) :
    (JobManager.enqueue spec t).Asks P := by
  unfold JobManager.enqueue
  dsimp only
  split
  · exact Prog.Asks.last hinsert
  · refine Prog.Asks.ask (hfind _) fun existing => ?_
    cases existing with
    | some existing => exact .ret _
    | none =>
      refine .tryCatch (Prog.Asks.last hinsert) fun exc => ?_
      cases exc with
      | integrityError msg =>
        refine Prog.Asks.ask (hfind _) fun existing => ?_
        cases existing <;> exact .ret _
      | _ => exact .ret _

lemma undoFrom_asks (runId : ℕ) (cls : JobCls) (records : List TaskRow) (ctx : TaskContext)
    (hundo : ∀ pos ctx, P (.undo runId pos ctx)) (hcomp : ∀ pos, P (.db (.compensateTask runId pos))) :
    (JobManager.undoFrom runId cls records ctx).Asks P := by
  induction records generalizing ctx with
  | nil => exact .ret _
  | cons record records ih =>
    unfold JobManager.undoFrom
    split
    · exact ih ctx
    · split
      · exact .ret _
      · refine Prog.Asks.ask (hundo _ _) fun undone => ?_
        obtain ⟨raised, state⟩ := undone
        cases raised with
        | some exc => exact .ret _
        | none => exact Prog.Asks.ask (hcomp _) fun _ => ih _

lemma sweep_asks (now cutoff : Time) (pc : Option Time) (fuel : ℕ) (total : DB.Reconciled)
    (hbatch : P (.db (.reconcileBatch now cutoff pc))) :
    (JobManager.sweep now cutoff pc fuel total).Asks P := by
  induction fuel generalizing total with
  | zero => exact .ret _
  | succ fuel ih =>
    refine Prog.Asks.ask hbatch fun swept => ?_
    dsimp only
    split
    · exact .ret _
    · exact ih _

lemma fireDue_asks (misfireGrace : Option ℤ) (jobs : List JobRow) (hnow : P .now)
    (hclaim : ∀ i, P (.db (.claimScheduled i none))) (hcreate : ∀ i, P (.db (.createRun i none))) :
    (JobManager.fireDue misfireGrace jobs).Asks P := by
  induction jobs with
  | nil => exact .ret _
  | cons job jobs ih =>
    refine Prog.Asks.ask hnow fun now => ?_
    split
    · exact ih
    · refine Prog.Asks.ask (hclaim _) fun won => ?_
      split
      · split
        · exact ih
        · exact Prog.Asks.ask (hcreate _) fun _ => ih
      · exact ih

lemma heartbeat_asks (w : Worker) (active : List (ℕ × ℕ)) (hlook : ∀ j, P (.db (.isJobCancelled j)))
    (hrenew : ∀ i, P (.db (.renewLease i w.workerId))) : (w.heartbeat active).Asks P := by
  induction active with
  | nil => exact .ret _
  | cons run active ih =>
    obtain ⟨runId, jobId⟩ := run
    refine Prog.Asks.ask (hlook _) fun cancelled => ?_
    split
    · exact ih
    · exact Prog.Asks.ask (hrenew _) fun _ => ih

end

/-- **Every process keeps to the requests of its kind.** -/
theorem asks_may (k : Kind) : k.program.Asks k.May := by
  cases k with
  | enqueue spec t => exact .bind (enqueue_asks spec t (fun _ => trivial) ⟨rfl, rfl⟩) fun _ => .ret _
  | schedule spec =>
    refine .bind ?_ fun _ => .ret _
    refine Prog.Asks.ask trivial fun existing => ?_
    cases existing with
    | some existing => exact .ret _
    | none => exact Prog.Asks.last rfl
  | cancel jobId => exact Prog.Asks.last rfl
  | delete jobId =>
    refine Prog.Asks.ask rfl fun active => ?_
    split
    · exact .ret _
    · exact Prog.Asks.last rfl
  | prune age =>
    refine .bind ?_ fun _ => .ret _
    refine Prog.Asks.ask trivial fun now => Prog.Asks.ask trivial fun runIds => ?_
    split
    · exact .ret _
    · exact Prog.Asks.ask trivial fun _ => .ret _
  | undo resolve jobId =>
    refine Prog.Asks.ask rfl fun record => ?_
    cases record with
    | none => exact .ret _
    | some record =>
      refine Prog.Asks.ask rfl fun runs => ?_
      cases runs with
      | nil => exact .ret _
      | cons run runs =>
        dsimp only
        split
        · exact .ret _
        · exact Prog.Asks.ask trivial fun records =>
            undoFrom_asks _ _ _ _ (fun _ _ => trivial) fun _ => trivial
  | beat g m fuel =>
    refine Prog.Within.bind (I := fun _ => True) ?_ fun swept => ?_
    · refine Prog.Asks.ask trivial fun now => Prog.Asks.ask trivial fun pc => ?_
      refine .bind (sweep_asks _ _ _ _ _ trivial) fun total => ?_
      cases total with
      | none => exact .ret _
      | some total => exact Prog.Asks.ask trivial fun _ => .ret _
    · cases swept with
      | none => exact .ret _
      | some total =>
        exact Prog.Asks.ask trivial fun jobs =>
          fireDue_asks m jobs trivial (fun _ => trivial) fun _ => trivial
  | worker w => exact (tick_asks w).mono fun _ hr => hr
  | heartbeat w active => exact heartbeat_asks w active (fun _ => trivial) fun _ => trivial
  | progress runId value => exact Prog.Asks.last rfl

end Kind

/-- **What a process waits for is what its kind may ask**, in any run. -/
theorem System.may_of_pending {C : System → Act → Prop} {p : System} (h : p.Reached C) {pid : ℕ}
    {r : Req} (hr : p.pending pid = some r) : ∃ k, p.kind? pid = some k ∧ k.May r :=
  Pool.asks_of_kind Kind.asks_may h rfl rfl hr

end Pyreljob
