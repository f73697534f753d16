import Pyreljob.System.Sequence

/-!
What the rows say has happened.

A process writes down that an attempt has failed only after the body has raised, that a run has failed
only for one of five reasons, each of which it has seen itself, and so on. So what a record or a run says
of its own past, its status, its error, its result and the number of its attempts, is true, whoever else
writes to it.
-/

namespace Pyreljob

open Lib

/-! ### What a process has grounds for -/

/-- The process executes the run; it has looked up the job of the run, and found its class. -/
def Handles (i : ℕ) (job : JobRow) (cls : JobCls) (c : Kind × List Said) : Prop :=
  ∃ w run, c.1 = .worker w ∧ ClaimedAs i run c ∧ ⟨.db (.getJob run.jobId), .ok (some job)⟩ ∈ c.2 ∧
    w.resolve job.job = some cls

/-- An attempt of the body of the task has raised the exception. -/
def BodyRaised (i pos n : ℕ) (exc : Exc) (c : Kind × List Said) : Prop :=
  ∃ ctx state, ⟨.run i pos n ctx, .ok (.error exc, state)⟩ ∈ c.2

/-- A request has raised, or the process has read a record of a task that the class does not have. -/
def Broke (i : ℕ) (c : Kind × List Said) : Prop :=
  (∃ r e, ⟨r, .error e⟩ ∈ c.2) ∨
    ∃ job cls records t, Handles i job cls c ∧ ⟨.db (.tasksOf i), .ok records⟩ ∈ c.2 ∧ t ∈ records ∧
      t.status = .succeeded ∧ cls.tasks.length ≤ t.position

def Handled (i pos : ℕ) (job : JobRow) (task : TaskCls) (c : Kind × List Said) : Prop :=
  ∃ cls, Handles i job cls c ∧ cls.tasks[pos]? = some task

/-- Why a run fails, for good or until a time. -/
inductive FailedFor (i : ℕ) (c : Kind × List Said) : String → Option Time → Prop
  | raised (pos n : ℕ) (exc : Exc) (t : Option Time) (job : JobRow) (task : TaskCls)
      (htask : Handled i pos job task c) (hraised : BodyRaised i pos n exc c)
      (hexc : exc.isJobCancelled = false) (hlast : t = none ↔ Worker.taskBudget task job ≤ n)
      (hrecorded : ⟨.db (.failTask i pos exc.text n t), .ok ()⟩ ∈ c.2) : FailedFor i c exc.text t
  | exhausted (records : List TaskRow) (t : TaskRow) (job : JobRow) (task : TaskCls)
      (htask : Handled i t.position job task c) (hread : ⟨.db (.tasksOf i), .ok records⟩ ∈ c.2)
      (ht : t ∈ records) (hs : t.status = .failed) (hlast : Worker.taskBudget task job ≤ t.attempts) :
      FailedFor i c (Worker.errorOr t.error) none
  | noJob (run : RunRow) (hrun : ClaimedAs i run c) (hjob : ⟨.db (.getJob run.jobId), .ok none⟩ ∈ c.2) :
      FailedFor i c "job no longer exists" none
  | noClass (w : Worker) (run : RunRow) (job : JobRow) (hw : c.1 = .worker w) (hrun : ClaimedAs i run c)
      (hjob : ⟨.db (.getJob run.jobId), .ok (some job)⟩ ∈ c.2) (hcls : w.resolve job.job = none) :
      FailedFor i c ("No class registered for '" ++ job.job ++ "'") none
  | broke (h : Broke i c) : FailedFor i c "unhandled error" none

def Grounded (c : Kind × List Said) : Req → Prop
  | .db (.claimRun _ workerId _ _) => ∃ w, c.1 = .worker w ∧ w.workerId = workerId
  | .db (.startTask i pos _ n) => ∃ records, ⟨.db (.tasksOf i), .ok records⟩ ∈ c.2 ∧
      n = ((Worker.recordAt records pos).map TaskRow.attempts).getD 0 + 1
  | .db (.failTask i pos error n _) => ∃ exc, BodyRaised i pos n exc c ∧ exc.isJobCancelled = false ∧
      error = exc.text
  | .db (.cancelTask i pos) => ∃ n exc, BodyRaised i pos n exc c ∧ exc.isJobCancelled = true
  | .db (.compensateTask i pos) => ReadDone i pos c.2 ∧ ∃ ctx undone, ⟨.undo i pos ctx, .ok undone⟩ ∈ c.2
  | .db (.failRun i error t) => FailedFor i c error t
  | .db (.cancelRun i) => (∃ pos n exc, BodyRaised i pos n exc c ∧ exc.isJobCancelled = true) ∨
      ∃ run job, ClaimedAs i run c ∧ ⟨.db (.getJob run.jobId), .ok (some job)⟩ ∈ c.2 ∧ job.status = .cancelled
  | _ => True

section

variable {c c' : Kind × List Said} {i pos n : ℕ} {job : JobRow} {cls : JobCls} {run : RunRow}

lemma Handles.since (h : Handles i job cls c) (hc : Since c c') : Handles i job cls c' := by
  obtain ⟨w, run, hw, hrun, hjob, hcls⟩ := h
  exact ⟨w, run, hc.1.trans hw, hrun.since hc, hc.mem hjob, hcls⟩

lemma BodyRaised.since {exc : Exc} (h : BodyRaised i pos n exc c) (hc : Since c c') :
    BodyRaised i pos n exc c' := by
  obtain ⟨ctx, state, hran⟩ := h
  exact ⟨ctx, state, hc.mem hran⟩

end

/-! ### Programs with grounds -/

/-- How a program ends: if it raises, something has gone wrong. -/
def Ends (i : ℕ) {α : Type} (c : Kind × List Said) (v : Except Exc α) (c' : Kind × List Said) : Prop :=
  Since c c' ∧ ∀ e, v = .error e → Broke i c'

section

variable {i : ℕ} {job : JobRow} {cls : JobCls} {c c' c₀ : Kind × List Said} {α β : Type}

lemma ends_ok (hs : Since c c') (a : α) : Ends i c (.ok a) c' := ⟨hs, fun e h => by cases h⟩

lemma ends_error (hs : Since c c') {e : Exc} (hb : Broke i c') : Ends i c (.error e : Except Exc α) c' :=
  ⟨hs, fun _ _ => hb⟩

lemma Ends.after {v : Except Exc α} {c'' : Kind × List Said} (h : Ends i c' v c'') (hs : Since c c') :
    Ends i c v c'' := ⟨hs.trans h.1, h.2⟩

lemma grounded_ask {r : Req} {f : r.Reply → Io β} (hs : Since c c') (hr : Grounded c' r)
    (hf : ∀ a c'', Since c c'' → Since c' c'' → (⟨r, .ok a⟩ : Said) ∈ c''.2 →
      (f a).Keeps Heard Grounded (Ends i c) c'') :
    (Prog.call r >>= f).Keeps Heard Grounded (Ends i c) c' :=
  heard_closed.then_ask (.refl c') hr
    (fun e _ hc hh => ends_error (hs.trans hc) (.inl ⟨r, e, hh.mem⟩))
    fun a c'' hc hh => hf a c'' (hs.trans hc) hc hh.mem

lemma grounded_last {r : Req} (hs : Since c c') (hr : Grounded c' r) :
    (Prog.call r : Io r.Reply).Keeps Heard Grounded (Ends i c) c' := by
  refine heard_closed.then_last hs hr fun y c'' hc hh => ⟨hc, fun e hy => ?_⟩
  subst hy
  exact .inl ⟨r, e, hh.mem⟩

lemma grounded_bind {p : Io α} {f : α → Io β} (hs : Since c c')
    (hp : p.Keeps Heard Grounded (Ends i c') c')
    (hf : ∀ a c'', Since c c'' → Since c' c'' → (f a).Keeps Heard Grounded (Ends i c) c'') :
    (p >>= f).Keeps Heard Grounded (Ends i c) c' :=
  hp.then_bind (fun e _ h => ends_error (hs.trans h.1) (h.2 e rfl))
    fun a c'' h => hf a c'' (hs.trans h.1) h.1

lemma compensateFrom_grounded {all records : List TaskRow} (ctx : TaskContext) (hs : Since c c')
    (hcls : Handles i job cls c') (hread : ⟨.db (.tasksOf i), .ok all⟩ ∈ c'.2)
    (hall : ∀ t ∈ records, t ∈ all) :
    (Worker.compensateFrom i cls records ctx).Keeps Heard Grounded (Ends i c) c' := by
  induction records generalizing ctx c' with
  | nil => exact ends_ok hs _
  | cons record records ih =>
    obtain ⟨hone, hrest⟩ := List.forall_mem_cons.1 hall
    unfold Worker.compensateFrom
    split
    · exact ih ctx hs hcls hread hrest
    · rename_i hdone
      have hdone : record.status = .succeeded := not_not.1 hdone
      cases htask : Worker.taskForRecord record cls with
      | error exc =>
        refine ends_error hs (.inr ⟨job, cls, all, record, hcls, hread, hone, hdone, ?_⟩)
        unfold Worker.taskForRecord at htask
        split at htask
        · cases htask
        · rename_i hnone
          exact List.getElem?_eq_none_iff.1 hnone
      | ok task =>
        refine grounded_ask hs trivial fun undone c₁ h₁ hs₁ hundone => ?_
        have hread₁ : ReadDone i record.position c₁.2 := ⟨all, hs₁.mem hread, record, hone, rfl, hdone⟩
        refine grounded_ask h₁ ⟨hread₁, ctx, undone, hundone⟩ fun _ c₂ h₂ hs₂ _ => ?_
        have hs' := hs₁.trans hs₂
        exact ih _ h₂ (hcls.since hs') (hs'.mem hread) hrest

lemma compensate_grounded (ctx : TaskContext) (hcls : Handles i job cls c) :
    (Worker.compensate i cls ctx).Keeps Heard Grounded (Ends i c) c := by
  refine grounded_ask (.refl c) trivial fun records c₁ h₁ _ hread => ?_
  exact compensateFrom_grounded ctx h₁ (hcls.since h₁) hread fun t ht => List.mem_reverse.1 ht

lemma finalizeFailed_grounded {error : String} (hwhy : FailedFor i c error none) :
    (Worker.finalizeFailed job i error).Keeps Heard Grounded (Ends i c) c := by
  refine grounded_ask (.refl c) hwhy fun _ c₁ h₁ _ _ => ?_
  split
  · exact ends_ok h₁ _
  · refine grounded_ask h₁ trivial fun attempts c₂ h₂ _ _ => ?_
    split
    · refine grounded_ask h₂ trivial fun retryAt c₃ h₃ _ _ => ?_
      exact grounded_ask h₃ trivial fun _ c₄ h₄ _ _ => ends_ok h₄ _
    · exact ends_ok h₂ _

lemma reschedule_grounded (ctx : TaskContext) :
    (Worker.reschedule job i ctx).Keeps Heard Grounded (Ends i c) c := by
  unfold Worker.reschedule
  split
  · exact ends_ok (.refl c) _
  · refine grounded_ask (.refl c) trivial fun row c₁ h₁ _ _ => ?_
    cases row with
    | none => exact ends_ok h₁ _
    | some row =>
      refine grounded_ask h₁ trivial fun next c₂ h₂ _ _ => ?_
      exact grounded_last h₂ trivial

lemma runTask_grounded (ctx : TaskContext) {pos : ℕ} {task : TaskCls} {records : List TaskRow}
    (hcls : Handles i job cls c) (htask : cls.tasks[pos]? = some task)
    (hread : ⟨.db (.tasksOf i), .ok records⟩ ∈ c.2) :
    (Worker.runTask i cls job ctx pos task (Worker.recordAt records pos)).Keeps Heard Grounded
      (Ends i c) c := by
  refine grounded_ask (.refl c) ⟨records, hread, rfl⟩ fun _ c₁ h₁ _ _ => ?_
  refine grounded_ask h₁ trivial fun ran c₂ h₂ _ hran => ?_
  obtain ⟨exc | v, state⟩ := ran
  · have hraised : BodyRaised i pos _ exc c₂ := ⟨_, state, hran⟩
    dsimp only
    split
    · rename_i hexc
      refine grounded_ask h₂ ⟨_, exc, hraised, hexc⟩ fun _ c₃ h₃ hs₃ _ => ?_
      refine grounded_ask h₃ (.inl ⟨pos, _, exc, hraised.since hs₃, hexc⟩) fun _ c₄ h₄ _ _ => ?_
      exact ends_ok h₄ _
    · rename_i hexc
      have hexc : exc.isJobCancelled = false := by simpa using hexc
      have hhandled : ∀ {c'}, Since c c' → Handled i pos job task c' :=
        fun hs => ⟨cls, hcls.since hs, htask⟩
      split
      · rename_i hlast
        refine grounded_ask h₂ trivial fun _ c₃ h₃ hs₃ _ => ?_
        have hraised₃ := hraised.since hs₃
        refine grounded_ask h₃ ⟨exc, hraised₃, hexc, rfl⟩ fun _ c₄ h₄ hs₄ hrecorded => ?_
        refine grounded_bind h₄ (compensate_grounded _ (hcls.since h₄)) fun ctx₁ c₅ h₅ hs₅ => ?_
        have hwhy : FailedFor i c₅ exc.text none :=
          .raised pos _ exc none job task (hhandled h₅) (hraised₃.since (hs₄.trans hs₅)) hexc
            ⟨fun _ => hlast, fun _ => rfl⟩ (hs₅.mem hrecorded)
        exact grounded_bind h₅ (finalizeFailed_grounded hwhy) fun _ c₆ h₆ _ => ends_ok h₆ _
      · rename_i hlast
        refine grounded_ask h₂ trivial fun retryAt c₃ h₃ hs₃ _ => ?_
        refine grounded_ask h₃ trivial fun _ c₄ h₄ hs₄ _ => ?_
        have hraised₄ := hraised.since (hs₃.trans hs₄)
        refine grounded_ask h₄ ⟨exc, hraised₄, hexc, rfl⟩ fun _ c₅ h₅ hs₅ hrecorded => ?_
        have hwhy : FailedFor i c₅ exc.text (some retryAt) :=
          .raised pos _ exc _ job task (hhandled h₅) (hraised₄.since hs₅) hexc
            ⟨(fun h => by cases h), fun h => absurd h hlast⟩ hrecorded
        exact grounded_ask h₅ hwhy fun _ c₆ h₆ _ _ => ends_ok h₆ _
  · refine grounded_ask h₂ trivial fun _ c₃ h₃ _ _ => ?_
    exact grounded_ask h₃ trivial fun _ c₄ h₄ _ _ => ends_ok h₄ _

lemma runTasks_grounded {records : List TaskRow} (tasks : List TaskCls) {pos : ℕ} (ctx : TaskContext)
    (hs : Since c c') (hcls : Handles i job cls c') (htasks : tasks = cls.tasks.drop pos)
    (hread : ⟨.db (.tasksOf i), .ok records⟩ ∈ c'.2) :
    (Worker.runTasks i cls job records tasks pos ctx).Keeps Heard Grounded (Ends i c) c' := by
  induction tasks generalizing pos ctx c' with
  | nil => exact ends_ok hs _
  | cons task tasks ih =>
    have htask : cls.tasks[pos]? = some task := by
      rw [← List.head?_drop, ← htasks]
      rfl
    have hrest : tasks = cls.tasks.drop (pos + 1) := by
      rw [← List.tail_drop, ← htasks]
      rfl
    refine grounded_bind hs (runTask_grounded ctx hcls htask hread) fun ran c₁ h₁ hs₁ => ?_
    obtain ⟨ended, ctx₁⟩ := ran
    cases ended with
    | ok => exact ih ctx₁ h₁ (hcls.since hs₁) hrest (hs₁.mem hread)
    | cancel | retry | failed => exact ends_ok h₁ _

lemma exhausted_spec {records : List TaskRow} {pos : ℕ} {t : TaskRow}
    (h : Worker.exhausted cls job records pos = some t) : ∃ task, cls.tasks[t.position]? = some task ∧
      t ∈ records ∧ t.status = .failed ∧ Worker.taskBudget task job ≤ t.attempts := by
  unfold Worker.exhausted at h
  split at h
  · cases h
  · rename_i task htask
    obtain ⟨hat, hfailed⟩ := Option.filter_eq_some_iff.1 h
    unfold Worker.recordAt at hat
    obtain ⟨hs, hlast⟩ := of_decide_eq_true hfailed
    have hpos := List.find?_some hat
    obtain rfl : t.position = pos := of_decide_eq_true hpos
    exact ⟨task, htask, List.mem_reverse.1 (List.mem_of_find?_eq_some hat), hs, hlast⟩

lemma resume_grounded {run : RunRow} {records : List TaskRow} (hs : Since c c')
    (hcls : Handles run.id job cls c') (hread : ⟨.db (.tasksOf run.id), .ok records⟩ ∈ c'.2) :
    (Worker.resume run job cls records).Keeps Heard Grounded (Ends run.id c) c' := by
  unfold Worker.resume
  dsimp only
  split
  · rename_i existing hexisting
    obtain ⟨task, htask, hmem, hfailed, hlast⟩ := exhausted_spec hexisting
    refine grounded_ask hs trivial fun _ c₁ h₁ hs₁ _ => ?_
    refine grounded_bind h₁ (compensate_grounded _ (hcls.since hs₁)) fun ctx c₂ h₂ hs₂ => ?_
    have hs₀ := hs₁.trans hs₂
    have hwhy : FailedFor run.id c₂ (Worker.errorOr existing.error) none :=
      .exhausted records existing job task ⟨cls, hcls.since hs₀, htask⟩ (hs₀.mem hread) hmem hfailed hlast
    refine grounded_bind h₂ (finalizeFailed_grounded hwhy) fun _ c₃ h₃ _ => ?_
    exact (reschedule_grounded ctx).mono fun v c₄ h => h.after h₃
  · refine grounded_bind hs (runTasks_grounded _ _ (.refl c') hcls rfl hread) fun ran c₁ h₁ _ => ?_
    obtain ⟨ended, ctx⟩ := ran
    cases ended with
    | cancel | retry => exact ends_ok h₁ _
    | failed => exact (reschedule_grounded ctx).mono fun v c₂ h => h.after h₁
    | ok =>
      refine grounded_ask h₁ trivial fun _ c₂ h₂ _ _ => ?_
      refine grounded_ask h₂ trivial fun _ c₃ h₃ _ _ => ?_
      exact (reschedule_grounded ctx).mono fun v c₄ h => h.after h₃

lemma execute_grounded {w : Worker} {run : RunRow} (hk : c.1 = .worker w) (hclaim : ClaimedAs run.id run c) :
    (w.execute run).Keeps Heard Grounded (Ends run.id c) c := by
  have hrun : (w.run run).Keeps Heard Grounded (Ends run.id c) c := by
    refine grounded_ask (.refl c) trivial fun job c₁ h₁ hs₁ hjob => ?_
    have hclaim₁ := hclaim.since hs₁
    have hw : c₁.1 = .worker w := h₁.1.trans hk
    cases job with
    | none => exact grounded_last h₁ (.noJob run hclaim₁ hjob)
    | some job =>
      change Prog.Keeps _ _ (if job.status = .cancelled then _ else _) _ _
      split
      · rename_i hcancelled
        exact grounded_last h₁ (.inr ⟨run, job, hclaim₁, hjob, hcancelled⟩)
      cases hres : w.resolve job.job with
      | none => exact grounded_last h₁ (.noClass w run job hw hclaim₁ hjob hres)
      | some cls =>
        refine grounded_ask h₁ trivial fun records c₂ h₂ hs₂ hread => ?_
        exact resume_grounded h₂ ⟨w, run, hs₂.1.trans hw, hclaim₁.since hs₂, hs₂.mem hjob, hres⟩ hread
  refine .tryCatch (hrun.mono ?_)
  rintro (e | a) c' h
  · refine grounded_ask h.1 (.broke (h.2 e rfl)) fun _ c₁ h₁ _ _ => ?_
    refine grounded_ask h₁ trivial fun job c₂ h₂ _ _ => ?_
    cases job with
    | none => exact ends_ok h₂ _
    | some job =>
      change Prog.Keeps _ _ (if job.source ≠ .scheduled then _ else _) _ _
      split
      · exact ends_ok h₂ _
      · exact grounded_ask h₂ trivial fun now c₃ h₃ _ _ => grounded_last h₃ trivial
  · exact h

/-- **A worker has grounds for what it writes.** -/
lemma worker_grounded (w : Worker) :
    w.tick.Keeps Heard Grounded (fun _ _ => True) (.worker w, []) := by
  refine tick_heard (fun c r hk hr => ?_) fun run c hk hclaim =>
    (execute_grounded hk hclaim).mono fun _ _ _ => trivial
  cases r with
  | db call =>
    cases call with
    | claimRun i workerId now leaseExpiry => exact ⟨w, hk, hr.symm⟩
    | selectClaimable => trivial
    | _ => cases hr
  | _ => trivial

lemma undoFrom_grounded {all records : List TaskRow} (ctx : TaskContext)
    (hread : ⟨.db (.tasksOf i), .ok all⟩ ∈ c.2) (hall : ∀ t ∈ records, t ∈ all) :
    (JobManager.undoFrom i cls records ctx).Keeps Heard Grounded (fun _ _ => True) c := by
  have hraise : ∀ (e : Exc) c', Since c c' → True := fun _ _ _ => trivial
  induction records generalizing ctx c with
  | nil => trivial
  | cons record records ih =>
    obtain ⟨hone, hrest⟩ := List.forall_mem_cons.1 hall
    unfold JobManager.undoFrom
    split
    · exact ih ctx hread hrest hraise
    · rename_i hdone
      split
      · trivial
      · refine then_ask (.refl c) trivial hraise fun undone c₁ h₁ hundone => ?_
        obtain ⟨_ | exc, state⟩ := undone
        · have hread₁ : ReadDone i record.position c₁.2 :=
            ⟨all, h₁.mem hread, record, hone, rfl, not_not.1 hdone⟩
          refine then_ask h₁ ⟨hread₁, ctx, _, hundone⟩ hraise fun _ c₂ h₂ _ => ?_
          exact ih _ (h₂.mem hread) hrest fun _ _ _ => trivial
        · trivial

lemma undo_grounded (resolve : String → Option JobCls) (jobId : ℕ) :
    (JobManager.undo resolve jobId).Keeps Heard Grounded (fun _ _ => True) c := by
  have hraise : ∀ (e : Exc) c', Since c c' → True := fun _ _ _ => trivial
  refine then_ask (.refl c) trivial hraise fun record c₁ h₁ _ => ?_
  cases record with
  | none => trivial
  | some record =>
    refine then_ask h₁ trivial hraise fun runs c₂ h₂ _ => ?_
    cases runs with
    | nil => trivial
    | cons run runs =>
      dsimp only
      split
      · trivial
      · refine then_ask h₂ trivial hraise fun records c₃ h₃ hread => ?_
        exact undoFrom_grounded _ hread fun t ht => List.mem_reverse.1 ht

/-- **Every process has grounds for what it writes.** -/
theorem kind_grounded (k : Kind) :
    Pool.InPhase Heard Grounded (fun _ => True) k.program (k, []) := by
  cases k with
  | worker w => exact worker_grounded w
  | undo resolve jobId => exact undo_grounded resolve jobId
  | _ =>
    refine heard_of_may fun c r hr => ?_
    cases r with
    | db call => cases call <;> trivial
    | _ => trivial

end

/-! ### The rows tell the truth -/

/-- The record speaks of this transaction. -/
def TaskRow.Tells (t : TaskRow) (said : Said) : Prop :=
  match t.status with
  | .ready => False
  | .running => said = ⟨.db (.startTask t.runId t.position t.taskName t.attempts), .ok ()⟩
  | .succeeded => ∃ v, t.result = some v ∧ said = ⟨.db (.succeedTask t.runId t.position v), .ok ()⟩
  | .failed => ∃ error, t.error = some error ∧
      said = ⟨.db (.failTask t.runId t.position error t.attempts t.retryAt), .ok ()⟩
  | .cancelled => said = ⟨.db (.cancelTask t.runId t.position), .ok ()⟩
  | .compensated => said = ⟨.db (.compensateTask t.runId t.position), .ok ()⟩

/-- The run speaks of this transaction: it was given back, claimed, completed, failed by its worker or by
the sweep, or cancelled by its worker or with its job. -/
def RunRow.Tells (r : RunRow) (said : Said) : Prop :=
  match r.status with
  | .ready => ∃ error t, r.error = some error ∧ r.scheduledAt = some t ∧
      said = ⟨.db (.failRun r.id error (some t)), .ok ()⟩
  | .running => ∃ workerId now leaseExpiry run, r.workerId = some workerId ∧
      said = ⟨.db (.claimRun r.id workerId now leaseExpiry), .ok (some run)⟩
  | .succeeded => ∃ v, r.result = some v ∧ said = ⟨.db (.completeRun r.id v), .ok ()⟩
  | .failed => (∃ error, r.error = some error ∧ said = ⟨.db (.failRun r.id error none), .ok ()⟩) ∨
      ∃ now cutoff progressCutoff counts,
        said = ⟨.db (.reconcileBatch now cutoff progressCutoff), .ok counts⟩ ∧
        r.error = some DB.abandonedError ∧ r.finishedAt = some now ∧
        DB.Stale cutoff progressCutoff { r with status := .ready }
  | .cancelled => said = ⟨.db (.cancelRun r.id), .ok ()⟩ ∨ said = ⟨.db (.cancelJob r.jobId), .ok ()⟩

/-- The run waits, and nothing has been said of it. -/
def RunRow.Fresh (r : RunRow) : Prop := r.status = .ready ∧ r.error = none

/-- A process has made the transaction, and had grounds for it. -/
def Grounds (p : System) (said : Said) : Prop :=
  ∃ pid k l l', p.kind? pid = some k ∧ Pool.said pid p.log = l ++ said :: l' ∧
    Sequential (k, l) said.1 ∧ Grounded (k, l) said.1

section

variable {C : System → Act → Prop} {p p' : System} {db db' : DB} {e : Env} {c : Call} {said : Said}

lemma exec_raises {exc : Exc} (hx : c.exec db e = some (db', .error exc)) : db' = db := by
  cases c with
  | insertJobAndRun spec t =>
    simp only [Call.exec, DB.insertJobAndRun] at hx
    split at hx
    · exact (congrArg Prod.fst (Option.some.inj hx)).symm
    · obtain ⟨jobs, -, hx⟩ := Option.bind_eq_some_iff.1 hx
      obtain ⟨runs, -, hx⟩ := Option.bind_eq_some_iff.1 hx
      cases hx
  | insertJob spec =>
    simp only [Call.exec, DB.insertJob] at hx
    split at hx
    · exact (congrArg Prod.fst (Option.some.inj hx)).symm
    · obtain ⟨jobs, -, hx⟩ := Option.bind_eq_some_iff.1 hx
      cases hx
  | createRun jobId t =>
    obtain ⟨inserted, -, hx⟩ := Option.bind_eq_some_iff.1 hx
    cases hx
  | startTask i pos name n =>
    simp only [Call.exec, DB.startTask] at hx
    split at hx
    · exact (congrArg Prod.fst (Option.some.inj hx)).symm
    · obtain ⟨tasks, -, hx⟩ := Option.bind_eq_some_iff.1 hx
      cases hx
    · cases hx
  | findByIdempotencyKey | findScheduled => exact (congrArg Prod.fst (Option.some.inj hx)).symm
  | _ => cases hx

lemma Grounds.later (h : Grounds p said) (hrun : System.Run C p p') : Grounds p' said := by
  obtain ⟨pid, k, l, l', hk, hsaid, hgrounds⟩ := h
  obtain ⟨log, hlog⟩ := Pool.log_prefix hrun
  refine ⟨pid, k, l, l' ++ Pool.said pid log, Pool.Run.kind? hrun hk, ?_, hgrounds⟩
  rw [hlog, said_append, hsaid, List.append_assoc, List.cons_append]

lemma grounds_of_step (h : p.Reached C) {pid : ℕ} {y : Except Exc c.Reply} {a : Act}
    (hstep : Pool.step answer Kind.program p a = some p') (hasks : p.pending pid = some (.db c))
    (hlog : p'.log = p.log ++ [⟨pid, .db c, .commit e, y, p.shared, p'.shared⟩]) :
    Grounds p' ⟨.db c, y⟩ := by
  obtain ⟨k, hk, hsequential⟩ := pending_sequential h hasks
  obtain ⟨k', hk', hgrounded⟩ := pending_heard kind_grounded h hasks
  obtain rfl : k = k' := Option.some.inj (hk.symm.trans hk')
  refine ⟨pid, k, Pool.said pid p.log, [], Pool.kind?_stays hstep hk, ?_, hsequential, hgrounded⟩
  rw [hlog, said_append]
  simp [Pool.said]

lemma TaskStep.tells {k : ℕ} {o : Option TaskRow} {t' : TaskRow} {z : c.Reply}
    (h : TaskStep e k c o (some t')) : o = some t' ∨ t'.Tells ⟨.db c, .ok z⟩ := by
  cases h with
  | same => exact .inl rfl
  | succeeded t v => exact .inr ⟨v, rfl, rfl⟩
  | failed t error n retryAt => exact .inr ⟨error, rfl, rfl⟩
  | inserted | restarted | cancelled | compensated => exact .inr rfl

/-- A run is fresh, or it speaks of the transaction, or it is and says the same as before. -/
lemma RunStep.tells {i : ℕ} {r' : RunRow} {z : c.Reply} (hx : c.exec db e = some (db', .ok z))
    (h : RunStep e i c (db.runs.get? i) (some r')) : r'.Fresh ∨ r'.Tells ⟨.db c, .ok z⟩ ∨
      ∃ r, db.runs.get? i = some r ∧ (r.Fresh → r'.Fresh) ∧ ∀ said, r.Tells said → r'.Tells said := by
  generalize ho : db.runs.get? i = o at h
  cases h with
  | same => exact .inr (.inr ⟨r', rfl, id, fun _ => id⟩)
  | enqueued | created => exact .inl ⟨rfl, rfl⟩
  | renewed r | ctxSet r | progressSet r => exact .inr (.inr ⟨r, rfl, id, fun _ => id⟩)
  | claimed r workerId now leaseExpiry hr =>
    obtain rfl := run_id_of_get? ho
    simp only [Call.exec, Option.some.injEq, Prod.mk.injEq, Except.ok.injEq] at hx
    obtain ⟨-, rfl⟩ := hx
    have hwon : (db.claimRun r.id workerId now leaseExpiry).2 = some (DB.claimed workerId now r) := by
      simp [DB.claimRun, ho, hr]
    rw [hwon]
    exact .inr (.inl ⟨workerId, now, leaseExpiry, _, rfl, rfl⟩)
  | completed r v =>
    obtain rfl := run_id_of_get? ho
    exact .inr (.inl ⟨v, rfl, rfl⟩)
  | retried r error t =>
    obtain rfl := run_id_of_get? ho
    exact .inr (.inl ⟨error, t, rfl, rfl, rfl⟩)
  | failed r error =>
    obtain rfl := run_id_of_get? ho
    exact .inr (.inl (.inl ⟨error, rfl, rfl⟩))
  | cancelled =>
    obtain rfl := run_id_of_get? ho
    exact .inr (.inl (.inl rfl))
  | jobCancelled r => exact .inr (.inl (.inr rfl))
  | swept r now cutoff progressCutoff hr =>
    exact .inr (.inl (.inr ⟨now, cutoff, progressCutoff, z, rfl, rfl, rfl, ⟨rfl, hr.2⟩⟩))

/-- **The records tell the truth**, whatever is cancelled, retried, taken over or undone: each of them
speaks of a transaction that a process has made, and that process had grounds for it. -/
theorem records_truthful (h : p.Reached C) :
    ∀ t ∈ p.shared.tasks.rows, ∃ said, t.Tells said ∧ Grounds p said := by
  induction h with
  | refl => simp [System.init, Table.empty]
  | @tail p₁ p₂ hrun hmove ih =>
    intro t ht
    have hlater : t ∈ p₁.shared.tasks.rows → ∃ said, t.Tells said ∧ Grounds p₂ said := by
      intro hmem
      obtain ⟨said, htells, hgrounds⟩ := ih t hmem
      exact ⟨said, htells, hgrounds.later (.single hmove)⟩
    obtain ⟨lab, -, hstep⟩ := hmove
    rcases System.step_cases hstep with hsame | ⟨pid, c, e, y, -, hasks, hx, hlog⟩
    · exact hlater (hsame ▸ ht)
    · cases y with
      | error exc => exact hlater (exec_raises hx ▸ ht)
      | ok z =>
        have hrow := exec_task hx t.id
        rw [show p₂.shared.tasks.get? t.id = some t from Table.get?_of_mem ht] at hrow
        rcases hrow.tells with hwas | htells
        · exact hlater (Table.mem_of_get? hwas)
        · exact ⟨_, htells, grounds_of_step hrun hstep hasks hlog⟩

/-- The only attempt of a task has raised, and its worker says so. -/
theorem records_truthful_givenUp : ∃ (p : System) (t : TaskRow) (said : Said),
    System.init.play System.Any givenUp = some p ∧ t ∈ p.shared.tasks.rows ∧ t.status = .failed ∧
      t.Tells said ∧ Grounds p said := by
  have hall : ((System.init.play System.Any givenUp).any fun p =>
      p.shared.tasks.rows.any fun t => t.status = .failed) = true := by decide
  obtain ⟨p, hp, hend⟩ := (Option.any_eq_true _ _).1 hall
  obtain ⟨t, ht, hs⟩ := List.any_eq_true.1 hend
  obtain ⟨said, htells, hgrounds⟩ := records_truthful (Pool.run_of_play hp) t ht
  exact ⟨p, t, said, hp, ht, of_decide_eq_true hs, htells, hgrounds⟩

/-- **The runs tell the truth**: every run that does not wait for its first claim speaks of a transaction
that a process has made, and that process had grounds for it. -/
theorem runs_truthful (h : p.Reached C) :
    ∀ r ∈ p.shared.runs.rows, r.Fresh ∨ ∃ said, r.Tells said ∧ Grounds p said := by
  induction h with
  | refl => simp [System.init, Table.empty]
  | @tail p₁ p₂ hrun hmove ih =>
    intro r' hr'
    have hlater : ∀ r ∈ p₁.shared.runs.rows, (r.Fresh → r'.Fresh) →
        (∀ said, r.Tells said → r'.Tells said) →
          r'.Fresh ∨ ∃ said, r'.Tells said ∧ Grounds p₂ said := by
      intro r hr hfresh htells
      refine (ih r hr).imp hfresh ?_
      rintro ⟨said, htold, hgrounds⟩
      exact ⟨said, htells said htold, hgrounds.later (.single hmove)⟩
    obtain ⟨lab, -, hstep⟩ := hmove
    rcases System.step_cases hstep with hsame | ⟨pid, c, e, y, -, hasks, hx, hlog⟩
    · exact hlater r' (hsame ▸ hr') id fun _ => id
    · cases y with
      | error exc => exact hlater r' (exec_raises hx ▸ hr') id fun _ => id
      | ok z =>
        have hrow := exec_run hx r'.id
        rw [show p₂.shared.runs.get? r'.id = some r' from Table.get?_of_mem hr'] at hrow
        rcases hrow.tells hx with hfresh | htells | ⟨r, hr, hfresh, htells⟩
        · exact .inl hfresh
        · exact .inr ⟨_, htells, grounds_of_step hrun hstep hasks hlog⟩
        · exact hlater r (Table.mem_of_get? hr) hfresh htells

theorem runs_truthful_givenUp : ∃ (p : System) (r : RunRow) (said : Said),
    System.init.play System.Any givenUp = some p ∧ r ∈ p.shared.runs.rows ∧ r.status = .failed ∧
      r.Tells said ∧ Grounds p said := by
  have hall : ((System.init.play System.Any givenUp).any fun p =>
      p.shared.runs.rows.any fun r => r.status = .failed) = true := by decide
  obtain ⟨p, hp, hend⟩ := (Option.any_eq_true _ _).1 hall
  obtain ⟨r, hr, hfailed⟩ := List.any_eq_true.1 hend
  have hs : r.status = .failed := of_decide_eq_true hfailed
  rcases runs_truthful (Pool.run_of_play hp) r hr with hfresh | ⟨said, htells, hgrounds⟩
  · have hready := hfresh.1
    rw [hs] at hready
    cases hready
  · exact ⟨p, r, said, hp, hr, hs, htells, hgrounds⟩

end

end Pyreljob
