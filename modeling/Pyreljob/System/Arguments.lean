import Pyreljob.System.Memory
import Pyreljob.System.Sequence

/-!
What a job is submitted with, and what its tasks are given.

The arguments of a job are copied into the context of a run, which is stored with the run, read again by
whoever executes it next, and handed to every task. On this way they are not changed, and not mixed up
with those of another job.
-/

namespace Pyreljob

open Lib

/-! ### Submitting a job -/

/-- By this the job comes into being, with this specification. -/
def Introduces (j : ℕ) (spec : JobSpec) : (r : Req) → Except Exc r.Reply → Prop
  | .db (.insertJobAndRun spec' _), .ok row => spec' = spec ∧ row.id = j
  | .db (.insertJob spec'), .ok row => spec' = spec ∧ row.id = j
  | _, _ => False

/-- The job has come into being with this specification. -/
def Introduced (j : ℕ) (spec : JobSpec) (log : List Ev) : Prop :=
  ∃ ev ∈ log, Introduces j spec ev.req ev.reply

/-- The class and the arguments are those that the job was submitted with. -/
def AsSubmitted (log : List Ev) (j : ℕ) (name : String) (args : Dict Value) : Prop :=
  ∃ spec, Introduced j spec log ∧ name = spec.job ∧ args = spec.args.getD []

section

variable {db db' : DB} {e : Env} {spec : JobSpec} {y : Except Exc JobRow}

lemma insertJobAndRun_reply {scheduledAt : Option Time}
    (h : db.insertJobAndRun e spec scheduledAt = some (db', y)) :
    (db' = db ∧ ∃ exc, y = .error exc) ∨
      y = .ok (spec.row e) ∧ db'.jobs.get? e.jobId = some (spec.row e) := by
  unfold DB.insertJobAndRun at h
  split at h
  · cases h
    exact .inl ⟨rfl, _, rfl⟩
  · simp only [Option.bind_eq_bind, Option.bind_eq_some_iff, Option.some.injEq, Prod.mk.injEq] at h
    obtain ⟨jobs, hjobs, runs, -, rfl, rfl⟩ := h
    exact .inr ⟨rfl, Table.get?_insert_self hjobs⟩

lemma insertJob_reply (h : db.insertJob e spec = some (db', y)) :
    (db' = db ∧ ∃ exc, y = .error exc) ∨
      y = .ok (spec.row e) ∧ db'.jobs.get? e.jobId = some (spec.row e) := by
  unfold DB.insertJob at h
  split at h
  · cases h
    exact .inl ⟨rfl, _, rfl⟩
  · simp only [Option.bind_eq_bind, Option.bind_eq_some_iff, Option.some.injEq, Prod.mk.injEq] at h
    obtain ⟨jobs, hjobs, rfl, rfl⟩ := h
    exact .inr ⟨rfl, Table.get?_insert_self hjobs⟩

end

section

variable {db db' : DB} {e : Env} {c : Call} {p p' : System} {pid i j : ℕ} {spec spec' : JobSpec}
variable {log : List Ev} {name : String} {args : Dict Value}

lemma Introduced.append (h : Introduced j spec log) (log' : List Ev) :
    Introduced j spec (log ++ log') := by
  obtain ⟨ev, hev, hin⟩ := h
  exact ⟨ev, List.mem_append_left _ hev, hin⟩

lemma AsSubmitted.append (h : AsSubmitted log j name args) (log' : List Ev) :
    AsSubmitted (log ++ log') j name args := by
  obtain ⟨spec, hin, hname, hargs⟩ := h
  exact ⟨spec, hin.append log', hname, hargs⟩

/-- A job that comes into being gets a row, with the key that it was given. -/
lemma row_of_introduces {a : Answer} {r : Req} {y : Except Exc r.Reply}
    (h : answer db r a = some (db', y)) (hin : Introduces j spec r y) :
    ∃ e, a = .commit e ∧ j = e.jobId ∧ db'.jobs.get? j = some (spec.row e) := by
  revert hin
  refine answer_cases (motive := fun r a db' y => Introduces j spec r y →
    ∃ e, a = .commit e ∧ j = e.jobId ∧ db'.jobs.get? j = some (spec.row e)) ?_ ?_ ?_ h
  · intro c e db' y hx hin
    cases c with
    | insertJobAndRun spec' t =>
      rcases insertJobAndRun_reply hx with ⟨-, exc, rfl⟩ | ⟨rfl, hrow⟩
      · cases hin
      · obtain ⟨rfl, rfl⟩ := hin
        exact ⟨e, rfl, rfl, hrow⟩
    | insertJob spec' =>
      rcases insertJob_reply hx with ⟨-, exc, rfl⟩ | ⟨rfl, hrow⟩
      · cases hin
      · obtain ⟨rfl, rfl⟩ := hin
        exact ⟨e, rfl, rfl, hrow⟩
    | _ => cases hin
  · exact fun c exc hin => by cases c <;> cases hin
  · intro r a y hr _ hin
    cases r with
    | db c => exact absurd rfl (hr c)
    | _ => cases hin

lemma introduces_unique {r : Req} {y : Except Exc r.Reply} (hin : Introduces j spec r y)
    (hin' : Introduces j spec' r y) : spec = spec' := by
  cases r with
  | db c =>
    cases c with
    | insertJobAndRun | insertJob =>
      cases y with
      | ok row => exact hin.1.symm.trans hin'.1
      | error exc => cases hin
    | _ => cases hin
  | _ => cases hin

/-- The key of a job that has come into being has been handed out. -/
lemma lt_of_introduced (h : p.Reached System.NewIds) (hin : Introduced j spec p.log) :
    j < p.shared.jobs.seq := by
  obtain ⟨ev, hev, hin⟩ := hin
  obtain ⟨l₁, l₂, hlog⟩ := List.append_of_mem hev
  obtain ⟨p₁, p₂, f, -, -, -, hact, hrest, -⟩ := Pool.event_step h rfl hlog
  obtain ⟨e, -, -, hrow⟩ := row_of_introduces hact.answered hin
  exact System.Run.stays (P := fun db => j < db.jobs.seq)
    (fun hlt hx _ => hlt.trans_le (exec_jobs_seq hx)) hrest (Table.lt_seq_of_get? hrow)

lemma not_introduced_before (h : p.Reached System.NewIds) {l₁ l₂ : List Ev} {ev : Ev}
    (hlog : p.log = l₁ ++ ev :: l₂) (hin : Introduces j spec ev.req ev.reply) :
    ¬ Introduced j spec' l₁ := by
  intro hbefore
  obtain ⟨p₁, p₂, f, h₁, hC, -, hact, -, rfl, -⟩ := Pool.event_step h rfl hlog
  obtain ⟨e, ha, rfl, -⟩ := row_of_introduces hact.answered hin
  rw [ha] at hC
  have hlt := lt_of_introduced h₁ hbefore
  have hfresh := hC.1
  omega

/-- **A job is submitted once.** -/
theorem introduced_once (h : p.Reached System.NewIds) (hin : Introduced j spec p.log)
    (hin' : Introduced j spec' p.log) : spec = spec' := by
  obtain ⟨ev, hev, hin⟩ := hin
  obtain ⟨l₁, l₂, hlog⟩ := List.append_of_mem hev
  rw [hlog] at hin'
  obtain ⟨ev', hev', hin'⟩ := hin'
  rcases List.mem_append.1 hev' with hbefore | hrest
  · exact absurd ⟨ev', hbefore, hin'⟩ (not_introduced_before h hlog hin)
  rcases List.mem_cons.1 hrest with rfl | hafter
  · exact introduces_unique hin hin'
  · obtain ⟨l₃, l₄, rfl⟩ := List.append_of_mem hafter
    have hlog' : p.log = (l₁ ++ ev :: l₃) ++ ev' :: l₄ := by simp [hlog]
    have hmem : ev ∈ l₁ ++ ev :: l₃ := List.mem_append_right _ List.mem_cons_self
    exact absurd ⟨ev, hmem, hin⟩ (not_introduced_before h hlog' hin')

end

/-! ### What a process hands on -/

def HasRead (run : RunRow) (j : ℕ) (l : List Said) : Prop :=
  (run.jobId = j ∧ ∃ workerId now leaseExpiry,
    ⟨.db (.claimRun run.id workerId now leaseExpiry), .ok (some run)⟩ ∈ l) ∨
    ∃ runs, ⟨.db (.runsOf j), .ok runs⟩ ∈ l ∧ run ∈ runs

def SameJob (ctx ctx' : TaskContext) : Prop :=
  ctx.jobId = ctx'.jobId ∧ ctx.job = ctx'.job ∧ ctx.args = ctx'.args

/-- The process has made the context of the run, from what is stored with the run or from the job. -/
def HasMade (i : ℕ) (ctx : TaskContext) (l : List Said) : Prop :=
  ∃ run j job, run.id = i ∧ HasRead run j l ∧ ⟨.db (.getJob j), .ok (some job)⟩ ∈ l ∧
    SameJob ctx (Worker.buildCtx run job)

/-- What a process keeps to that has said and heard this: it hands on what it has read. -/
def Faithful (c : Kind × List Said) : Req → Prop
  | .run i _ _ ctx | .undo i _ ctx => HasMade i ctx c.2
  | .db (.setRunCtx i d) => ∃ ctx, HasMade i ctx c.2 ∧ d = ctx.asDict
  | .nextRuntime name args run ctx => ∃ i job, HasMade i ctx c.2 ∧
      ⟨.db (.getRun i), .ok (some run)⟩ ∈ c.2 ∧ ⟨.db (.getJob ctx.jobId), .ok (some job)⟩ ∈ c.2 ∧
      name = job.job ∧ args = job.args.getD []
  | _ => True

section

variable {c c' : Kind × List Said} {i : ℕ} {ctx ctx' ctx'' : TaskContext} {α : Type}

lemma SameJob.refl (ctx : TaskContext) : SameJob ctx ctx := ⟨rfl, rfl, rfl⟩

lemma SameJob.trans (h : SameJob ctx ctx') (h' : SameJob ctx' ctx'') : SameJob ctx ctx'' :=
  ⟨h.1.trans h'.1, h.2.1.trans h'.2.1, h.2.2.trans h'.2.2⟩

lemma HasRead.since {run : RunRow} {j : ℕ} (h : HasRead run j c.2) (hc : Since c c') :
    HasRead run j c'.2 := by
  rcases h with ⟨hj, workerId, now, leaseExpiry, hclaim⟩ | ⟨runs, hruns, hmem⟩
  · exact .inl ⟨hj, workerId, now, leaseExpiry, hc.mem hclaim⟩
  · exact .inr ⟨runs, hc.mem hruns, hmem⟩

lemma HasMade.since (h : HasMade i ctx c.2) (hc : Since c c') : HasMade i ctx c'.2 := by
  obtain ⟨run, j, job, hid, hread, hjob, hsame⟩ := h
  exact ⟨run, j, job, hid, hread.since hc, hc.mem hjob, hsame⟩

lemma HasMade.same {l : List Said} (h : HasMade i ctx l) (hs : SameJob ctx' ctx) : HasMade i ctx' l := by
  obtain ⟨run, j, job, hid, hread, hjob, hsame⟩ := h
  exact ⟨run, j, job, hid, hread, hjob, hs.trans hsame⟩

/-- The program keeps the job and the arguments of the context that it is given and returns. -/
def Hands (ctx : TaskContext) (c : Kind × List Said) (out : α → TaskContext) (v : Except Exc α)
    (c' : Kind × List Said) : Prop :=
  Since c c' ∧ ∀ a, v = .ok a → SameJob (out a) ctx

lemma Hands.error {out : α → TaskContext} (e : Exc) (hs : Since c c') :
    Hands ctx c out (.error e) c' :=
  ⟨hs, fun a h => by cases h⟩

lemma Hands.ok {out : α → TaskContext} {a : α} (hs : Since c c') (h : SameJob (out a) ctx) :
    Hands ctx c out (.ok a) c' := by
  refine ⟨hs, fun a' h' => ?_⟩
  cases h'
  exact h

lemma compensateFrom_faithful (cls : JobCls) (records : List TaskRow) (h : HasMade i ctx c.2) :
    (Worker.compensateFrom i cls records ctx).Keeps Heard Faithful (Hands ctx c id) c := by
  induction records generalizing ctx c with
  | nil => exact .ok (.refl c) (.refl ctx)
  | cons record records ih =>
    unfold Worker.compensateFrom
    split
    · exact ih h
    · split
      · exact .error _ (.refl c)
      · refine then_ask (.refl c) h (fun e _ => .error e) fun undone c₁ h₁ _ => ?_
        obtain ⟨raised, state⟩ := undone
        refine then_ask h₁ trivial (fun e _ => .error e) fun _ c₂ h₂ _ => ?_
        have hsame : SameJob { ctx with state := state } ctx := ⟨rfl, rfl, rfl⟩
        refine (ih ((h.since h₂).same hsame)).mono fun v c' hv => ⟨h₂.trans hv.1, fun a ha => ?_⟩
        exact (hv.2 a ha).trans hsame

lemma compensate_faithful (cls : JobCls) (h : HasMade i ctx c.2) :
    (Worker.compensate i cls ctx).Keeps Heard Faithful (Hands ctx c id) c := by
  refine then_ask (.refl c) trivial (fun e _ => .error e) fun records c₁ h₁ _ => ?_
  refine (compensateFrom_faithful cls records.reverse (h.since h₁)).mono fun v c' hv => ?_
  exact ⟨h₁.trans hv.1, hv.2⟩

lemma finalizeFailed_faithful {c₀ : Kind × List Said} (job : JobRow) (error : String) :
    (Worker.finalizeFailed job i error).Within Heard Faithful (Since c₀) := by
  refine allowed_within (fun c r hr => ?_) (finalizeFailed_asks job i error)
  cases r with
  | db call => cases call <;> trivial
  | _ => trivial

lemma runTask_faithful (cls : JobCls) (job : JobRow) (pos : ℕ) (task : TaskCls)
    (existing : Option TaskRow) (h : HasMade i ctx c.2) :
    (Worker.runTask i cls job ctx pos task existing).Keeps Heard Faithful (Hands ctx c Prod.snd) c := by
  have hraise : ∀ (e : Exc) c', Since c c' → Hands ctx c Prod.snd
      (.error e : Except Exc (Worker.TaskEnd × TaskContext)) c' := fun e _ => .error e
  refine then_ask (.refl c) trivial hraise fun _ c₁ h₁ _ => ?_
  refine then_ask h₁ (h.since h₁) hraise fun ran c₂ h₂ _ => ?_
  obtain ⟨exc | v, state⟩ := ran
  · have hsame : SameJob { ctx with state := state } ctx := ⟨rfl, rfl, rfl⟩
    have hstore : ∀ {c'}, Since c c' → Faithful c' (.db (.setRunCtx i
        ({ ctx with state := state } : TaskContext).asDict)) :=
      fun hs => ⟨_, (h.since hs).same hsame, rfl⟩
    dsimp only
    split
    · refine then_ask h₂ trivial hraise fun _ c₃ h₃ _ => then_ask h₃ trivial hraise fun _ c₄ h₄ _ => ?_
      exact .ok h₄ hsame
    · split
      · refine then_ask h₂ (hstore h₂) hraise fun _ c₃ h₃ _ => ?_
        refine then_ask h₃ trivial hraise fun _ c₄ h₄ _ => ?_
        refine .bind ((compensate_faithful cls ((h.since h₄).same hsame)).mono ?_)
        rintro (e | ctx₁) c₅ ⟨h₅, hctx⟩
        · exact hraise e _ (h₄.trans h₅)
        refine then_bind (h₄.trans h₅) (finalizeFailed_faithful job _) hraise fun _ c₆ h₆ => ?_
        exact .ok h₆ ((hctx ctx₁ rfl).trans hsame)
      · refine then_ask h₂ trivial hraise fun _ c₃ h₃ _ => then_ask h₃ (hstore h₃) hraise
          fun _ c₄ h₄ _ => ?_
        refine then_ask h₄ trivial hraise fun _ c₅ h₅ _ => then_ask h₅ trivial hraise fun _ c₆ h₆ _ => ?_
        exact .ok h₆ hsame
  · refine then_ask h₂ trivial hraise fun _ c₃ h₃ _ => ?_
    have hmade : HasMade i { ctx with results := ctx.results.set task.name v, state := state } c₃.2 :=
      (h.since h₃).same ⟨rfl, rfl, rfl⟩
    refine then_ask h₃ ⟨_, hmade, rfl⟩ hraise fun _ c₄ h₄ _ => ?_
    exact .ok h₄ ⟨rfl, rfl, rfl⟩

lemma runTasks_faithful (cls : JobCls) (job : JobRow) (records : List TaskRow) (tasks : List TaskCls)
    (pos : ℕ) (h : HasMade i ctx c.2) :
    (Worker.runTasks i cls job records tasks pos ctx).Keeps Heard Faithful (Hands ctx c Prod.snd) c := by
  induction tasks generalizing pos ctx c with
  | nil => exact .ok (.refl c) (.refl ctx)
  | cons task tasks ih =>
    refine .bind ((runTask_faithful cls job pos task _ h).mono ?_)
    rintro (e | ⟨ended, ctx₁⟩) c₁ ⟨h₁, hctx⟩
    · exact .error e h₁
    · have hsame := hctx _ rfl
      cases ended with
      | ok =>
        refine (ih (pos + 1) ((h.since h₁).same hsame)).mono fun v c' hv => ?_
        exact ⟨h₁.trans hv.1, fun a ha => (hv.2 a ha).trans hsame⟩
      | cancel | retry | failed => exact .ok h₁ hsame

lemma reschedule_faithful {job : JobRow} (h : HasMade i ctx c.2)
    (hjob : ⟨.db (.getJob ctx.jobId), .ok (some job)⟩ ∈ c.2) :
    (Worker.reschedule job i ctx).Keeps Heard Faithful (fun _ => Since c) c := by
  have hraise : ∀ (e : Exc) c', Since c c' → Since c c' := fun _ _ => id
  unfold Worker.reschedule
  split
  · exact .refl c
  · refine then_ask (.refl c) trivial hraise fun row c₁ h₁ hrow => ?_
    cases row with
    | none => exact h₁
    | some row =>
      refine then_ask h₁ ⟨i, job, h.since h₁, hrow, h₁.mem hjob, rfl, rfl⟩ hraise
        fun next c₂ h₂ _ => ?_
      exact heard_closed.last (fun _ _ => trivial) _ h₂

lemma resume_faithful {run : RunRow} {job : JobRow} (cls : JobCls) (records : List TaskRow)
    (hread : HasRead run run.jobId c.2) (hjob : ⟨.db (.getJob run.jobId), .ok (some job)⟩ ∈ c.2) :
    (Worker.resume run job cls records).Keeps Heard Faithful (fun _ => Since c) c := by
  have hraise : ∀ (e : Exc) c', Since c c' → Since c c' := fun _ _ => id
  have hmade : HasMade run.id (Worker.buildCtx run job) c.2 :=
    ⟨run, run.jobId, job, rfl, hread, hjob, .refl _⟩
  -- the job is armed again with a context of the same job
  have hrearm : ∀ {ctx c'}, Since c c' → SameJob ctx (Worker.buildCtx run job) →
      (Worker.reschedule job run.id ctx).Keeps Heard Faithful (fun _ => Since c) c' := by
    intro ctx c' hs hsame
    have hid : ctx.jobId = run.jobId := hsame.1
    refine (reschedule_faithful ((hmade.since hs).same hsame) ?_).mono fun _ _ h => hs.trans h
    rw [hid]
    exact hs.mem hjob
  unfold Worker.resume
  dsimp only
  split
  · refine then_ask (.refl c) ⟨_, hmade, rfl⟩ hraise fun _ c₁ h₁ _ => ?_
    refine .bind ((compensate_faithful cls (hmade.since h₁)).mono ?_)
    rintro (e | ctx) c₂ ⟨h₂, hctx⟩
    · exact h₁.trans h₂
    refine then_bind (h₁.trans h₂) (finalizeFailed_faithful job _) hraise fun _ c₃ h₃ => ?_
    exact hrearm h₃ (hctx ctx rfl)
  · refine .bind ((runTasks_faithful cls job records _ _ hmade).mono ?_)
    rintro (e | ⟨ended, ctx⟩) c₁ ⟨h₁, hctx⟩
    · exact h₁
    cases ended with
    | cancel | retry => exact h₁
    | failed => exact hrearm h₁ (hctx _ rfl)
    | ok =>
      refine then_ask h₁ trivial hraise fun _ c₂ h₂ _ => then_ask h₂ trivial hraise fun _ c₃ h₃ _ => ?_
      exact hrearm h₃ (hctx _ rfl)

lemma execute_faithful (w : Worker) {run : RunRow} (hread : HasRead run run.jobId c.2) :
    (w.execute run).Keeps Heard Faithful (fun _ => Since c) c := by
  have hraise : ∀ (e : Exc) c', Since c c' → Since c c' := fun _ _ => id
  have hrun : (w.run run).Keeps Heard Faithful (fun _ => Since c) c := by
    refine then_ask (.refl c) trivial hraise fun job c₁ h₁ hjob => ?_
    have hlast : ∀ {r : Req}, (∀ c, Faithful c r) →
        (Prog.call r : Io r.Reply).Keeps Heard Faithful (fun _ => Since c) c₁ :=
      fun hr => heard_closed.last (fun c _ => hr c) _ h₁
    cases job with
    | none =>
      refine hlast ?_
      exact fun _ => trivial
    | some job =>
      change Prog.Keeps _ _ (if job.status = .cancelled then _ else _) _ _
      split
      · refine hlast ?_
        exact fun _ => trivial
      cases w.resolve job.job with
      | none =>
        refine hlast ?_
        exact fun _ => trivial
      | some cls =>
        refine .call_bind trivial (fun _ _ hh => h₁.trans hh.since) fun records c₂ hh => ?_
        have h₂ := h₁.trans hh.since
        refine (resume_faithful cls records (hread.since h₂) (hh.since.mem hjob)).mono ?_
        exact fun _ _ h => h₂.trans h
  refine .tryCatch (hrun.mono ?_)
  rintro (e | a) c' h
  · refine then_ask h trivial hraise fun _ c₁ h₁ _ => ?_
    refine (allowed_within (fun c r hr => ?_) (rescheduleOnError_asks run) _ h₁)
    cases r with
    | db call => cases call <;> trivial
    | _ => trivial
  · exact h

/-- **A worker hands on what it has read.** -/
lemma worker_faithful (w : Worker) :
    w.tick.Keeps Heard Faithful (fun _ _ => True) (.worker w, []) := by
  refine tick_heard (fun c r _ hr => ?_) fun run c _ hclaim =>
    (execute_faithful w (.inl ⟨rfl, hclaim⟩)).mono fun _ _ _ => trivial
  cases r with
  | db call => cases call <;> trivial
  | _ => trivial

lemma undoFrom_faithful (cls : JobCls) (records : List TaskRow) (h : HasMade i ctx c.2) :
    (JobManager.undoFrom i cls records ctx).Keeps Heard Faithful (fun _ => Since c) c := by
  have hraise : ∀ (e : Exc) c', Since c c' → Since c c' := fun _ _ => id
  induction records generalizing ctx c with
  | nil => exact .refl c
  | cons record records ih =>
    unfold JobManager.undoFrom
    split
    · exact ih h hraise
    · split
      · exact .refl c
      · refine then_ask (.refl c) h hraise fun undone c₁ h₁ _ => ?_
        obtain ⟨_ | exc, state⟩ := undone
        · refine then_ask h₁ trivial hraise fun _ c₂ h₂ _ => ?_
          have hmade : HasMade i { ctx with state := state } c₂.2 := (h.since h₂).same ⟨rfl, rfl, rfl⟩
          exact (ih hmade fun _ _ => id).mono fun _ _ h => h₂.trans h
        · exact h₁

lemma undo_faithful (resolve : String → Option JobCls) (jobId : ℕ) :
    (JobManager.undo resolve jobId).Keeps Heard Faithful (fun _ => Since c) c := by
  have hraise : ∀ (e : Exc) c', Since c c' → Since c c' := fun _ _ => id
  refine then_ask (.refl c) trivial hraise fun record c₁ h₁ hjob => ?_
  cases record with
  | none => exact h₁
  | some record =>
    refine .call_bind trivial (fun _ _ hh => h₁.trans hh.since) fun runs c₂ hh => ?_
    have h₂ := h₁.trans hh.since
    cases runs with
    | nil => exact h₂
    | cons run runs =>
      dsimp only
      split
      · exact h₂
      · refine .call_bind trivial (fun _ _ hh' => h₂.trans hh'.since) fun records c₃ hh' => ?_
        have hmade : HasMade run.id { Worker.buildCtx run record with progress := none } c₃.2 :=
          ⟨run, jobId, record, rfl, .inr ⟨_, hh'.since.mem hh.mem, List.mem_cons_self⟩,
            (hh.since.trans hh'.since).mem hjob, rfl, rfl, rfl⟩
        exact (undoFrom_faithful _ _ hmade).mono fun _ _ h => (h₂.trans hh'.since).trans h

/-- **Every process hands on what it has read.** -/
theorem kind_faithful (k : Kind) :
    Pool.InPhase Heard Faithful (fun _ => True) k.program (k, []) := by
  cases k with
  | worker w => exact worker_faithful w
  | undo resolve jobId => exact (undo_faithful resolve jobId).mono fun _ _ _ => trivial
  | _ =>
    refine heard_of_may fun c r hr => ?_
    cases r with
    | db call => cases call <;> trivial
    | _ => trivial

end

/-! ### What the rows hold -/

/-- The job has the class and the arguments that it was submitted with. -/
def JobKept (log : List Ev) (job : JobRow) : Prop := AsSubmitted log job.id job.job (job.args.getD [])

/-- The context that is stored with the run has the class and the arguments of its job. -/
def RunKept (log : List Ev) (run : RunRow) : Prop :=
  ∀ d, run.ctx = some d → AsSubmitted log run.jobId d.job d.args

def ReplyKept (log : List Ev) : (r : Req) → Except Exc r.Reply → Prop
  | .db (.getJob j), .ok (some job) => job.id = j ∧ JobKept log job
  | .db (.claimRun ..), .ok (some run) => RunKept log run
  | .db (.runsOf j), .ok runs => ∀ run ∈ runs, run.jobId = j ∧ RunKept log run
  | _, _ => True

/-- What holds of the rows, and of all rows that anybody has read. -/
structure ArgumentsKept (db : DB) (log : List Ev) : Prop where
  jobs : ∀ job ∈ db.jobs.rows, JobKept log job
  runs : ∀ run ∈ db.runs.rows, RunKept log run
  replies : ∀ ev ∈ log, ReplyKept log ev.req ev.reply

section

variable {db db' : DB} {e : Env} {c : Call} {p : System} {pid i : ℕ} {log : List Ev}

lemma RunKept.append {run : RunRow} (h : RunKept log run) (log' : List Ev) :
    RunKept (log ++ log') run :=
  fun d hd => (h d hd).append log'

lemma ReplyKept.append {r : Req} {y : Except Exc r.Reply} (h : ReplyKept log r y) (log' : List Ev) :
    ReplyKept (log ++ log') r y := by
  unfold ReplyKept at h ⊢
  split
  · exact ⟨h.1, AsSubmitted.append h.2 log'⟩
  · exact RunKept.append h log'
  · exact fun run hrun => ⟨(h run hrun).1, (h run hrun).2.append log'⟩
  · trivial

lemma JobStep.kept {o : Option JobRow} {job' : JobRow} (h : JobStep db e i c o (some job')) :
    (o = none ∧ ∃ spec, job' = spec.row e ∧ i = e.jobId ∧
      (c = .insertJob spec ∨ ∃ t, c = .insertJobAndRun spec t)) ∨
    ∃ job, o = some job ∧ job.id = job'.id ∧ job.job = job'.job ∧ job.args = job'.args := by
  cases h with
  | enqueued spec t hi => exact .inl ⟨rfl, spec, rfl, hi, .inr ⟨t, rfl⟩⟩
  | scheduled spec hi => exact .inl ⟨rfl, spec, rfl, hi, .inl rfl⟩
  | _ => exact .inr ⟨_, rfl, rfl, rfl, rfl⟩

/-- A run keeps the context that is stored with it, or has none, or gets one. -/
lemma RunStep.kept {o : Option RunRow} {r' : RunRow} (h : RunStep e i c o (some r')) :
    r'.ctx = none ∨ ∃ r, o = some r ∧ r.jobId = r'.jobId ∧
      (r.ctx = r'.ctx ∨ ∃ d, c = .setRunCtx i d ∧ r'.ctx = some d) := by
  cases h with
  | enqueued | created => exact .inl rfl
  | ctxSet r d => exact .inr ⟨r, rfl, rfl, .inr ⟨d, rfl, rfl⟩⟩
  | _ => exact .inr ⟨_, rfl, rfl, .inl rfl⟩

lemma ArgumentsKept.said (h : ArgumentsKept db log) {r : Req} {y : Except Exc r.Reply}
    (hsaid : (⟨r, y⟩ : Said) ∈ Pool.said pid log) : ReplyKept log r y := by
  obtain ⟨⟨pid', r', a, y', db, db'⟩, hev, rfl, heq⟩ := Pool.mem_of_said hsaid
  cases heq
  exact h.replies _ hev

def ShownOf (i j : ℕ) (log : List Ev) : Prop :=
  ∃ ev ∈ log, ∃ r, ev.pre.runs.get? i = some r ∧ r.jobId = j

lemma runOf_of_shown {j : ℕ} (h : p.Reached System.NewIds) (hshown : ShownOf i j p.log) :
    RunOf i j p.shared := by
  obtain ⟨ev, hev, r, hr, hj⟩ := hshown
  obtain ⟨l₁, l₂, hlog⟩ := List.append_of_mem hev
  obtain ⟨p₁, p₂, f, -, hC, hstep, -, hrest, -, hpre, -⟩ := Pool.event_step h rfl hlog
  have hrun : System.Run System.NewIds p₁ p := .head ⟨_, hC, hstep⟩ hrest
  rw [← hpre] at hr
  refine hrun.stays RunOf.exec ⟨Table.lt_seq_of_get? hr, fun r' hr' => ?_⟩
  rw [hr] at hr'
  exact Option.some.inj hr' ▸ hj

lemma shownOf_unique {j j' : ℕ} (h : p.Reached System.NewIds) (hshown : ShownOf i j p.log)
    (hshown' : ShownOf i j' p.log) : j = j' := by
  have hlater : ∀ {j j' l₁ l₂ ev r}, p.log = l₁ ++ ev :: l₂ → ShownOf i j l₁ →
      ev.pre.runs.get? i = some r → r.jobId = j' → j = j' := by
    intro j j' l₁ l₂ ev r hlog hbefore hr hj
    obtain ⟨p₁, p₂, f, h₁, -, -, -, -, rfl, hpre, -⟩ := Pool.event_step h rfl hlog
    exact ((runOf_of_shown h₁ hbefore).2 r (hpre ▸ hr)).symm.trans hj
  obtain ⟨ev, hev, r, hr, hj⟩ := hshown
  obtain ⟨ev', hev', r', hr', hj'⟩ := hshown'
  obtain ⟨l₁, l₂, hlog⟩ := List.append_of_mem hev'
  have hwhere := hev
  rw [hlog] at hwhere
  rcases List.mem_append.1 hwhere with hbefore | hrest
  · exact hlater hlog ⟨ev, hbefore, r, hr, hj⟩ hr' hj'
  rcases List.mem_cons.1 hrest with rfl | hafter
  · rw [hr] at hr'
    exact hj.symm.trans (Option.some.inj hr' ▸ hj')
  · obtain ⟨l₃, l₄, rfl⟩ := List.append_of_mem hafter
    have hlog' : p.log = (l₁ ++ ev' :: l₃) ++ ev :: l₄ := by simp [hlog]
    exact (hlater hlog' ⟨ev', List.mem_append_right _ List.mem_cons_self, r', hr', hj'⟩ hr hj).symm

/-- The reply holds the run. -/
def Holds (run : RunRow) : (r : Req) → Except Exc r.Reply → Prop
  | .db (.claimRun ..), .ok (some run') | .db (.getRun _), .ok (some run') => run' = run
  | .db (.runsOf _), .ok runs => run ∈ runs
  | _, _ => False

lemma Holds.row {run : RunRow} {r : Req} {a : Answer} {y : Except Exc r.Reply} (hy : Holds run r y)
    (ha : answer db r a = some (db', y)) :
    ∃ run₀, db.runs.get? run.id = some run₀ ∧ run₀.jobId = run.jobId := by
  revert hy
  refine answer_cases (motive := fun r _ _ y => Holds run r y →
    ∃ run₀, db.runs.get? run.id = some run₀ ∧ run₀.jobId = run.jobId) ?_ ?_ ?_ ha
  · intro c e db' y hx hy
    cases c with
    | claimRun i w now leaseExpiry =>
      simp only [Call.exec, Option.some.injEq, Prod.mk.injEq] at hx
      obtain ⟨-, rfl⟩ := hx
      rcases claimRun_cases db i w now leaseExpiry with ⟨r, hr, -, hreply, -⟩ | ⟨hreply, -⟩
      · rw [hreply] at hy
        obtain rfl : DB.claimed w now r = run := hy
        exact ⟨r, (run_id_of_get? hr).symm ▸ hr, rfl⟩
      · rw [hreply] at hy
        cases hy
    | getRun i =>
      cases hx
      cases hr : db.getRun i with
      | none =>
        rw [hr] at hy
        cases hy
      | some r =>
        rw [hr] at hy
        obtain rfl : r = run := hy
        exact ⟨r, (run_id_of_get? hr).symm ▸ hr, rfl⟩
    | runsOf j =>
      cases hx
      have hrun : run ∈ db.runsOf j := hy
      rw [DB.runsOf, List.mem_insertionSort] at hrun
      exact ⟨run, (Table.mem_select.1 hrun).1, rfl⟩
    | _ => cases hy
  · exact fun c exc hy => by cases c <;> cases hy
  · intro r a y hr _ hy
    cases r with
    | db c => exact absurd rfl (hr c)
    | _ => cases hy

lemma shownOf_of_said (h : p.Reached System.NewIds) {run : RunRow} {r : Req} {y : Except Exc r.Reply}
    (hsaid : (⟨r, y⟩ : Said) ∈ Pool.said pid p.log) (hy : Holds run r y) :
    ShownOf run.id run.jobId p.log := by
  obtain ⟨⟨pid', r', a, y', db, db'⟩, hev, -, heq⟩ := Pool.mem_of_said hsaid
  cases heq
  obtain ⟨run₀, hrow, hj⟩ := hy.row (Pool.log_answered h (fun _ hev => by cases hev) _ hev)
  exact ⟨_, hev, run₀, hrow, hj⟩

lemma hasRead_again (h : p.Reached System.NewIds) {run : RunRow}
    (hsaid : (⟨.db (.getRun i), .ok (some run)⟩ : Said) ∈ Pool.said pid p.log) :
    run.id = i ∧ ShownOf run.id run.jobId p.log := by
  obtain ⟨p₁, p₂, a, f, -, hact, -, -⟩ := answered_of_said h hsaid
  refine ⟨?_, shownOf_of_said h hsaid rfl⟩
  have hans := hact.answered
  cases a with
  | commit e => exact run_id_of_get? (Except.ok.inj (Prod.mk.inj (Option.some.inj hans)).2)
  | fail exc => cases (Prod.mk.inj (Option.some.inj hans)).2
  | _ => cases hans

/-- A run that a process has read is of the job that it is said to be. -/
lemma HasRead.kept (h : p.Reached System.NewIds) (hk : ArgumentsKept p.shared p.log) {run : RunRow}
    {j : ℕ} (hread : HasRead run j (Pool.said pid p.log)) :
    run.jobId = j ∧ RunKept p.log run ∧ ShownOf run.id j p.log := by
  rcases hread with ⟨rfl, workerId, now, leaseExpiry, hclaim⟩ | ⟨runs, hruns, hmem⟩
  · exact ⟨rfl, hk.said hclaim, shownOf_of_said h hclaim rfl⟩
  · obtain ⟨rfl, hkept⟩ := hk.said hruns run hmem
    exact ⟨rfl, hkept, shownOf_of_said h hruns hmem⟩

/-- A context that a process has made is that of the job of the run. -/
lemma HasMade.kept (h : p.Reached System.NewIds) (hk : ArgumentsKept p.shared p.log)
    {ctx : TaskContext} (hmade : HasMade i ctx (Pool.said pid p.log)) :
    ShownOf i ctx.jobId p.log ∧ AsSubmitted p.log ctx.jobId ctx.job ctx.args := by
  obtain ⟨run, j, job, rfl, hread, hjob, hid, hname, hargs⟩ := hmade
  obtain ⟨rfl, hrun, hshown⟩ := hread.kept h hk
  obtain ⟨hjobId, hjobKept⟩ := hk.said hjob
  rw [hid, hname, hargs]
  refine ⟨hshown, ?_⟩
  unfold Worker.buildCtx
  cases hctx : run.ctx with
  | none => exact hjobId ▸ hjobKept
  | some d => exact hrun d hctx

lemma ArgumentsKept.reply (h : ArgumentsKept db log) {r : Req} {a : Answer} {y : Except Exc r.Reply}
    (ha : answer db r a = some (db', y)) : ReplyKept log r y := by
  refine answer_cases (motive := fun r a db' y => ReplyKept log r y) ?_ ?_ ?_ ha
  · intro c e db' y hx
    cases c with
    | getJob j =>
      cases hx
      cases hjob : db.getJob j with
      | none => trivial
      | some job => exact ⟨job_id_of_get? hjob, h.jobs job (Table.mem_of_get? hjob)⟩
    | claimRun i w now leaseExpiry =>
      simp only [Call.exec, Option.some.injEq, Prod.mk.injEq] at hx
      obtain ⟨-, rfl⟩ := hx
      rcases claimRun_cases db i w now leaseExpiry with ⟨r, hr, -, hy, -⟩ | ⟨hy, -⟩
      · rw [hy]
        exact h.runs r (Table.mem_of_get? hr)
      · rw [hy]
        trivial
    | runsOf j =>
      cases hx
      intro run hrun
      rw [DB.runsOf, List.mem_insertionSort] at hrun
      obtain ⟨hrow, hjob⟩ := Table.mem_select.1 hrun
      exact ⟨hjob, h.runs run (Table.mem_of_get? hrow)⟩
    | _ => trivial
  · exact fun c exc => by cases c <;> trivial
  · intro r a y hr _
    cases r with
    | db c => exact absurd rfl (hr c)
    | _ => trivial

lemma ArgumentsKept.replies_concat (h : ArgumentsKept db log) {r : Req} {a : Answer}
    {y : Except Exc r.Reply} (ha : answer db r a = some (db', y)) :
    ∀ ev ∈ log ++ [⟨pid, r, a, y, db, db'⟩],
      ReplyKept (log ++ [⟨pid, r, a, y, db, db'⟩]) ev.req ev.reply := by
  intro ev hev
  rcases List.mem_append.1 hev with hev | hev
  · exact (h.replies ev hev).append _
  · cases List.mem_singleton.1 hev
    exact (h.reply ha).append _

lemma ArgumentsKept.commit (h : p.Reached System.NewIds) (hk : ArgumentsKept p.shared p.log)
    (hasks : p.pending pid = some (.db c)) {y : Except Exc c.Reply}
    (hx : c.exec p.shared e = some (db', y)) :
    (∀ job ∈ db'.jobs.rows,
        JobKept (p.log ++ [⟨pid, .db c, .commit e, y, p.shared, db'⟩]) job) ∧
      ∀ run ∈ db'.runs.rows, RunKept (p.log ++ [⟨pid, .db c, .commit e, y, p.shared, db'⟩]) run := by
  constructor
  · intro job hjob
    have hrow := exec_job hx job.id
    rw [show db'.jobs.get? job.id = some job from Table.get?_of_mem hjob] at hrow
    rcases hrow.kept with ⟨hnone, spec, rfl, hid, hc⟩ | ⟨job₀, hjob₀, hid, hname, hargs⟩
    · have hnew : db' ≠ p.shared := by
        rintro rfl
        cases hnone.symm.trans (Table.get?_of_mem hjob)
      have hin : Introduces e.jobId spec (.db c) y := by
        rcases hc with rfl | ⟨t, rfl⟩
        · rcases insertJob_reply hx with ⟨hsame, -⟩ | ⟨rfl, -⟩
          · exact absurd hsame hnew
          · exact ⟨rfl, rfl⟩
        · rcases insertJobAndRun_reply hx with ⟨hsame, -⟩ | ⟨rfl, -⟩
          · exact absurd hsame hnew
          · exact ⟨rfl, rfl⟩
      exact ⟨spec, ⟨_, List.mem_append_right _ List.mem_cons_self, hin⟩, rfl, rfl⟩
    · have hkept := hk.jobs job₀ (Table.mem_of_get? hjob₀)
      unfold JobKept at hkept ⊢
      rw [← hid, ← hname, ← hargs]
      exact hkept.append _
  · intro run hrun
    have hrow := exec_run hx run.id
    rw [show db'.runs.get? run.id = some run from Table.get?_of_mem hrun] at hrow
    intro d hd
    rcases hrow.kept with hnone | ⟨run₀, hrun₀, hjob, hctx | ⟨d', rfl, hd'⟩⟩
    · rw [hnone] at hd
      cases hd
    · rw [← hctx] at hd
      exact hjob ▸ (hk.runs run₀ (Table.mem_of_get? hrun₀) d hd).append _
    · rw [hd'] at hd
      cases hd
      obtain ⟨k, -, ctx, hmade, rfl⟩ := pending_heard kind_faithful h hasks
      obtain ⟨hshown, hargs⟩ := hmade.kept h hk
      rw [← hjob, (runOf_of_shown h hshown).2 run₀ hrun₀]
      exact hargs.append _

/-- **Nobody changes the arguments of a job**, nor those in the context of a run. -/
theorem arguments_of_reached (h : p.Reached System.NewIds) : ArgumentsKept p.shared p.log := by
  refine System.invariant (G := ArgumentsKept) ?_ ?_ ?_ h
  · exact ⟨by simp [Table.empty], by simp [Table.empty], by simp⟩
  · intro p pid c e db' y h _ hasks hx hk
    obtain ⟨hjobs, hruns⟩ := hk.commit h hasks hx
    exact ⟨hjobs, hruns, hk.replies_concat (r := .db c) (a := .commit e) hx⟩
  · intro p pid a r y _ _ _ ha hk
    exact ⟨fun job hjob => AsSubmitted.append (hk.jobs job hjob) _,
      fun run hrun => (hk.runs run hrun).append _, hk.replies_concat ha⟩

/-- What user code is given is of the job of the run, as it was submitted. -/
def GivenAsSubmitted (db : DB) (log : List Ev) : Req → Prop
  | .run i _ _ ctx | .undo i _ ctx =>
    RunOf i ctx.jobId db ∧ AsSubmitted log ctx.jobId ctx.job ctx.args
  | .nextRuntime name args run ctx =>
    run.jobId = ctx.jobId ∧ RunOf run.id ctx.jobId db ∧ AsSubmitted log ctx.jobId name args ∧
      AsSubmitted log ctx.jobId ctx.job ctx.args
  | _ => True

/-- **Every task gets the arguments that its job was submitted with**, by `run` and by `undo`, in every
attempt, whoever executes the run and whatever was stored in between; and so does `next_runtime`. A job
is submitted once, so there is no doubt which arguments these are. -/
theorem arguments_kept (h : p.Reached System.NewIds) {r : Req} (hr : p.pending pid = some r) :
    GivenAsSubmitted p.shared p.log r ∧ ∀ j spec spec', Introduced j spec p.log →
      Introduced j spec' p.log → spec = spec' := by
  refine ⟨?_, fun j spec spec' => introduced_once h⟩
  have hk := arguments_of_reached h
  obtain ⟨k, -, hfaithful⟩ := pending_heard kind_faithful h hr
  cases r with
  | run i pos n ctx => exact (hfaithful.kept h hk).imp_left (runOf_of_shown h)
  | undo i pos ctx => exact (hfaithful.kept h hk).imp_left (runOf_of_shown h)
  | nextRuntime name args run ctx =>
    obtain ⟨i, job, hmade, hrun, hjob, rfl, rfl⟩ := hfaithful
    obtain ⟨hshown, hargs⟩ := hmade.kept h hk
    obtain ⟨hid, hkept⟩ := hk.said hjob
    -- what is read again is the run that the context was made for
    obtain ⟨rfl, hshown'⟩ := hasRead_again h hrun
    exact ⟨shownOf_unique h hshown' hshown, runOf_of_shown h hshown, hid ▸ hkept, hargs⟩
  | _ => trivial

/-- Worker A (process 1) does the first task of a job with an argument. Its lease runs out, and worker B
(process 2) goes on with the context that A has stored. -/
def goneOn : List Act :=
  .spawn (.enqueue { job := "m.J", args := some [("n", .num 7)] } none) :: commits 0 1 0 ++
  .spawn (.worker (.knowing twoTasks "A")) :: reads 1 1 :: reads 1 1 :: commits 1 5 1 ++
  .act 1 (.ran (.ok .null) []) :: commits 1 2 2 ++
  .spawn (.worker (.knowing twoTasks "B")) :: reads 2 100 :: reads 2 100 :: commits 2 5 100

theorem arguments_kept_goneOn : ∃ (p : System) (n : ℕ) (ctx : TaskContext),
    System.init.play System.NewIds goneOn = some p ∧ p.pending 2 = some (.run 0 1 n ctx) ∧
      ctx.args = [("n", .num 7)] ∧ RunOf 0 ctx.jobId p.shared ∧
        AsSubmitted p.log ctx.jobId ctx.job ctx.args := by
  have hall : ((System.init.play System.NewIds goneOn).any fun p =>
      ((p.pending 2).bind given).map (fun g => (g.1, g.2.args)) = some (1, [("n", .num 7)]) ∧
        (p.pending 2).bind bodyOf = some (0, 1)) = true := by decide
  obtain ⟨p, hp, hend⟩ := (Option.any_eq_true _ _).1 hall
  obtain ⟨hgiven, hbody⟩ := of_decide_eq_true hend
  obtain ⟨r, hr, hbody⟩ := Option.bind_eq_some_iff.1 hbody
  cases r with
  | run i pos n ctx =>
    cases hbody
    rw [hr] at hgiven
    have hargs : ctx.args = [("n", .num 7)] := (Prod.mk.inj (Option.some.inj hgiven)).2
    exact ⟨p, n, ctx, hp, hr, hargs, (arguments_kept (Pool.run_of_play hp) hr).1⟩
  | _ => cases hbody

end

end Pyreljob
