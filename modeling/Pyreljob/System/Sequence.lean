import Pyreljob.Store.View
import Pyreljob.System.Cancelled
import Pyreljob.System.Deleting
import Pyreljob.System.Failed
import Pyreljob.System.Hearing

/-!
The order in which the tasks of a run are done.

Whatever other processes do to the run meanwhile, a worker calls the body of a task only when it knows
that every task before it has succeeded, an `undo` is called only for a task whose record says so, and a
worker completes a run only when it knows so of all its tasks. It knows it because it has recorded it
itself or because it has read it, and a record says so only if the body has returned.
-/

namespace Pyreljob

open Lib

/-! ### What a process knows -/

/-- A record that the process has read says that the task at the position has succeeded. -/
def ReadDone (i pos : ℕ) (l : List Said) : Prop :=
  ∃ records, ⟨.db (.tasksOf i), .ok records⟩ ∈ l ∧
    ∃ t ∈ records, t.position = pos ∧ t.status = .succeeded

/-- The process knows that the task at the position has succeeded. -/
def KnowsDone (i pos : ℕ) (l : List Said) : Prop :=
  (∃ v, ⟨.db (.succeedTask i pos v), .ok ()⟩ ∈ l) ∨ ReadDone i pos l

def HasClaimed (i : ℕ) (l : List Said) : Prop :=
  ∃ workerId now leaseExpiry run, ⟨.db (.claimRun i workerId now leaseExpiry), .ok (some run)⟩ ∈ l

def HasStarted (i pos : ℕ) (l : List Said) : Prop :=
  ∃ name n, ⟨.db (.startTask i pos name n), .ok ()⟩ ∈ l

/-- The process has run the body of the task, and it has returned the value. -/
def HasRun (i pos : ℕ) (v : Value) (l : List Said) : Prop :=
  ∃ n ctx state, ⟨.run i pos n ctx, .ok (.ok v, state)⟩ ∈ l

/-- The class of the job of a run, as the process has looked it up. -/
def LookedUp (k : Kind) (i : ℕ) (cls : JobCls) (l : List Said) : Prop :=
  ∃ w, k = .worker w ∧ ∃ workerId now leaseExpiry run job,
    ⟨.db (.claimRun i workerId now leaseExpiry), .ok (some run)⟩ ∈ l ∧
      ⟨.db (.getJob run.jobId), .ok (some job)⟩ ∈ l ∧ w.resolve job.job = some cls

/-- What a process keeps to that has said and heard this: it goes in order. -/
def Sequential (c : Kind × List Said) : Req → Prop
  | .run i pos _ _ => (∀ pos' < pos, KnowsDone i pos' c.2) ∧ HasStarted i pos c.2
  | .undo i pos _ => ReadDone i pos c.2
  | .db (.startTask i pos _ _) => HasClaimed i c.2 ∧ ∀ pos' < pos, KnowsDone i pos' c.2
  | .db (.succeedTask i pos v) => HasRun i pos v c.2
  | .db (.completeRun i _) =>
    ∃ cls, LookedUp c.1 i cls c.2 ∧ ∀ pos < cls.tasks.length, KnowsDone i pos c.2
  | _ => True

section

variable {c c' : Kind × List Said} {i pos : ℕ}

lemma ReadDone.since (h : ReadDone i pos c.2) (hc : Since c c') : ReadDone i pos c'.2 := by
  obtain ⟨records, hread, hdone⟩ := h
  exact ⟨records, hc.mem hread, hdone⟩

lemma HasClaimed.since (h : HasClaimed i c.2) (hc : Since c c') : HasClaimed i c'.2 := by
  obtain ⟨workerId, now, leaseExpiry, run, hclaim⟩ := h
  exact ⟨workerId, now, leaseExpiry, run, hc.mem hclaim⟩

lemma KnowsDone.since (h : KnowsDone i pos c.2) (hc : Since c c') : KnowsDone i pos c'.2 := by
  rcases h with ⟨v, hv⟩ | h
  · exact .inl ⟨v, hc.mem hv⟩
  · exact .inr (h.since hc)

end

/-! ### The worker goes in order -/

section

variable {c₀ : Kind × List Said} {α β : Type}

lemma settling_sequential {p : Io α} (hp : p.Asks Settling) : p.Within Heard Sequential (Since c₀) := by
  refine allowed_within (fun c r hr => ?_) hp
  cases r with
  | db call => cases call <;> trivial
  | _ => trivial

lemma reschedule_sequential (job : JobRow) (i : ℕ) (ctx : TaskContext) :
    (Worker.reschedule job i ctx).Within Heard Sequential (Since c₀) := by
  refine allowed_within (fun c r hr => ?_) (reschedule_asks job i ctx)
  cases r with
  | db call => cases call <;> trivial
  | _ => trivial

lemma compensateFrom_sequential {i : ℕ} (cls : JobCls) {records : List TaskRow} (ctx : TaskContext)
    (hread : ∀ t ∈ records, t.status = .succeeded → ReadDone i t.position c₀.2) :
    (Worker.compensateFrom i cls records ctx).Within Heard Sequential (Since c₀) := by
  induction records generalizing ctx with
  | nil => exact .ret _
  | cons record records ih =>
    obtain ⟨hone, hrest⟩ := List.forall_mem_cons.1 hread
    unfold Worker.compensateFrom
    split
    · exact ih ctx hrest
    · rename_i hs
      split
      · exact .ret _
      · refine .ask (fun c hc => (hone (not_not.1 hs)).since hc) (fun _ _ _ hc hh => hc.trans hh.since)
          fun undone _ _ _ _ => ?_
        exact heard_closed.ask (fun _ _ => trivial) fun _ => ih _ hrest

lemma compensate_sequential (i : ℕ) (cls : JobCls) (ctx : TaskContext) :
    (Worker.compensate i cls ctx).Within Heard Sequential (Since c₀) := by
  intro c hc
  refine .call_bind trivial (fun _ _ hh => hc.trans hh.since) fun records c' hh => ?_
  have hfrom : (Worker.compensateFrom i cls records.reverse ctx).Within Heard Sequential (Since c') :=
    compensateFrom_sequential cls ctx fun t ht hs => ⟨records, hh.mem, t, List.mem_reverse.1 ht, rfl, hs⟩
  exact (hfrom c' (.refl c')).mono fun _ _ h => (hc.trans hh.since).trans h

def EndsKnowing (i pos : ℕ) (c : Kind × List Said) (v : Except Exc (Worker.TaskEnd × TaskContext))
    (c' : Kind × List Said) : Prop :=
  Since c c' ∧ ∀ ctx, v = .ok (.ok, ctx) → KnowsDone i pos c'.2

lemma runTask_sequential {i : ℕ} (cls : JobCls) (job : JobRow) (ctx : TaskContext) {pos : ℕ}
    (task : TaskCls) (existing : Option TaskRow) {c : Kind × List Said} (hclaimed : HasClaimed i c.2)
    (hdone : ∀ pos' < pos, KnowsDone i pos' c.2) :
    (Worker.runTask i cls job ctx pos task existing).Keeps Heard Sequential (EndsKnowing i pos c) c := by
  have hraise : ∀ (e : Exc) c', Since c c' → EndsKnowing i pos c (.error e) c' :=
    fun e c' hs => ⟨hs, fun ctx' h => by cases h⟩
  refine then_ask (.refl c) ⟨hclaimed, hdone⟩ hraise fun _ c₁ h₁ hstarted => ?_
  have hready : ∀ pos' < pos, KnowsDone i pos' c₁.2 := fun pos' hpos => (hdone pos' hpos).since h₁
  refine then_ask h₁ ⟨hready, _, _, hstarted⟩ hraise fun ran c₂ h₂ hran => ?_
  obtain ⟨exc | v, state⟩ := ran
  · dsimp only
    split
    · refine then_ask h₂ trivial hraise fun _ c₃ h₃ _ => then_ask h₃ trivial hraise fun _ c₄ h₄ _ => ?_
      exact ⟨h₄, fun ctx' h => by cases h⟩
    · split
      · refine then_ask h₂ trivial hraise fun _ c₃ h₃ _ => then_ask h₃ trivial hraise fun _ c₄ h₄ _ => ?_
        refine then_bind h₄ (compensate_sequential i cls _) hraise fun ctx₁ c₅ h₅ => ?_
        refine then_bind h₅ (settling_sequential (finalizeFailed_asks job i _)) hraise fun _ c₆ h₆ => ?_
        exact ⟨h₆, fun ctx' h => by cases h⟩
      · refine then_ask h₂ trivial hraise fun _ c₃ h₃ _ => then_ask h₃ trivial hraise fun _ c₄ h₄ _ => ?_
        refine then_ask h₄ trivial hraise fun _ c₅ h₅ _ => then_ask h₅ trivial hraise fun _ c₆ h₆ _ => ?_
        exact ⟨h₆, fun ctx' h => by cases h⟩
  · refine then_ask h₂ ⟨_, _, _, hran⟩ hraise fun _ c₃ h₃ hsucceeded => ?_
    refine .call_bind trivial (fun e c' hh => hraise e c' (h₃.trans hh.since)) fun _ c₄ h₄ => ?_
    exact ⟨h₃.trans h₄.since, fun _ _ => .inl ⟨v, h₄.since.mem hsucceeded⟩⟩

lemma runTasks_sequential {i : ℕ} (cls : JobCls) (job : JobRow) (records : List TaskRow)
    (tasks : List TaskCls) {pos : ℕ} (ctx : TaskContext) {c : Kind × List Said}
    (hclaimed : HasClaimed i c.2) (hdone : ∀ pos' < pos, KnowsDone i pos' c.2) :
    (Worker.runTasks i cls job records tasks pos ctx).Keeps Heard Sequential
      (fun v c' => Since c c' ∧ ∀ ctx', v = .ok (.ok, ctx') →
        ∀ pos' < pos + tasks.length, KnowsDone i pos' c'.2) c := by
  induction tasks generalizing pos ctx c with
  | nil => exact ⟨.refl c, fun _ _ => by simpa using hdone⟩
  | cons task tasks ih =>
    refine .bind ((runTask_sequential cls job ctx task _ hclaimed hdone).mono ?_)
    rintro (e | ⟨ended, ctx₁⟩) c₁ ⟨h₁, hknows⟩
    · exact ⟨h₁, fun ctx' h => by cases h⟩
    · cases ended with
      | ok =>
        have hdone₁ : ∀ pos' < pos + 1, KnowsDone i pos' c₁.2 := by
          intro pos' hpos
          rcases Nat.lt_succ_iff_lt_or_eq.1 hpos with hlt | rfl
          · exact (hdone pos' hlt).since h₁
          · exact hknows ctx₁ rfl
        refine (ih ctx₁ (hclaimed.since h₁) hdone₁).mono fun v c' h' => ?_
        refine ⟨h₁.trans h'.1, fun ctx' hv pos' hpos => ?_⟩
        refine h'.2 ctx' hv pos' ?_
        rw [List.length_cons] at hpos
        omega
      | cancel | retry | failed => exact ⟨h₁, fun ctx' h => by cases h⟩

lemma readDone_of_doneAt {i pos : ℕ} {records : List TaskRow} {l : List Said}
    (hread : ⟨.db (.tasksOf i), .ok records⟩ ∈ l) (h : Worker.doneAt records pos) :
    ReadDone i pos l := by
  obtain ⟨t, ht, hs⟩ := (Option.any_eq_true _ _).1 h
  have hmem := List.mem_of_find?_eq_some ht
  have hpos := List.find?_some ht
  exact ⟨records, hread, t, List.mem_reverse.1 hmem, of_decide_eq_true hpos, of_decide_eq_true hs⟩

lemma doneAt_of_lt_start {records : List TaskRow} {n pos : ℕ} (h : pos < Worker.start records n) :
    Worker.doneAt records pos := by
  unfold Worker.start at h
  cases hfind : (List.range n).find? fun k => decide (¬ Worker.doneAt records k) with
  | none =>
    rw [hfind, Option.getD_none] at h
    simpa using List.find?_range_eq_none.1 hfind pos h
  | some k =>
    rw [hfind, Option.getD_some] at h
    simpa using (List.find?_range_eq_some.1 hfind).2.2 pos h

lemma start_le (records : List TaskRow) (n : ℕ) : Worker.start records n ≤ n := by
  unfold Worker.start
  cases hfind : (List.range n).find? fun k => decide (¬ Worker.doneAt records k) with
  | none => exact le_rfl
  | some k => exact (List.mem_range.1 (List.mem_of_find?_eq_some hfind)).le

lemma resume_sequential {run : RunRow} (job : JobRow) (cls : JobCls) {records : List TaskRow}
    {c : Kind × List Said} (hc : Since c₀ c) (hcls : LookedUp c.1 run.id cls c.2)
    (hread : ⟨.db (.tasksOf run.id), .ok records⟩ ∈ c.2) :
    (Worker.resume run job cls records).Keeps Heard Sequential (fun _ => Since c₀) c := by
  have hraise : ∀ (e : Exc) c', Since c₀ c' → Since c₀ c' := fun _ _ => id
  unfold Worker.resume
  dsimp only
  split
  · refine then_ask hc trivial hraise fun _ c₁ h₁ _ => ?_
    refine then_bind h₁ (compensate_sequential _ cls _) hraise fun ctx c₂ h₂ => ?_
    refine then_bind h₂ (settling_sequential (finalizeFailed_asks job _ _)) hraise fun _ c₃ h₃ => ?_
    exact (reschedule_sequential job _ ctx c₃ (.refl c₃)).mono fun _ _ h => h₃.trans h
  · have hbefore : ∀ pos < Worker.start records cls.tasks.length, KnowsDone run.id pos c.2 :=
      fun pos hpos => .inr (readDone_of_doneAt hread (doneAt_of_lt_start hpos))
    have hclaimed : HasClaimed run.id c.2 := by
      obtain ⟨w, -, workerId, now, leaseExpiry, run', job', hclaim, -⟩ := hcls
      exact ⟨workerId, now, leaseExpiry, run', hclaim⟩
    refine .bind ((runTasks_sequential cls job records _ _ hclaimed hbefore).mono ?_)
    rintro (e | ⟨ended, ctx⟩) c₁ ⟨h₁, hknows⟩
    · exact hc.trans h₁
    have hs := hc.trans h₁
    cases ended with
    | cancel | retry => exact hs
    | failed =>
      exact (reschedule_sequential job _ ctx c₁ (.refl c₁)).mono fun _ _ h => hs.trans h
    | ok =>
      have hall : ∀ pos < cls.tasks.length, KnowsDone run.id pos c₁.2 := by
        intro pos hpos
        have hle := start_le records cls.tasks.length
        refine hknows ctx rfl pos ?_
        rw [List.length_drop]
        omega
      have hcls₁ : LookedUp c₁.1 run.id cls c₁.2 := by
        obtain ⟨w, hk, workerId, now, leaseExpiry, run', job', hclaim, hjob, hres⟩ := hcls
        exact ⟨w, h₁.1.trans hk, workerId, now, leaseExpiry, run', job', h₁.mem hclaim, h₁.mem hjob,
          hres⟩
      refine then_ask hs ⟨cls, hcls₁, hall⟩ hraise fun _ c₂ h₂ _ => ?_
      refine then_ask h₂ trivial hraise fun _ c₃ h₃ _ => ?_
      exact (reschedule_sequential job _ ctx c₃ (.refl c₃)).mono fun _ _ h => h₃.trans h

lemma execute_sequential {w : Worker} {run : RunRow} {c : Kind × List Said} (hk : c.1 = .worker w)
    (hclaim : ClaimedAs run.id run c) : (w.execute run).Keeps Heard Sequential (fun _ => Since c) c := by
  have hraise : ∀ (e : Exc) c', Since c c' → Since c c' := fun _ _ => id
  have hlast : ∀ {r : Req} {c' : Kind × List Said}, (∀ c, Sequential c r) → Since c c' →
      (Prog.call r : Io r.Reply).Keeps Heard Sequential (fun _ => Since c) c' :=
    fun hr hs => heard_closed.last (fun c _ => hr c) _ hs
  have hrun : (w.run run).Keeps Heard Sequential (fun _ => Since c) c := by
    refine then_ask (.refl c) trivial hraise fun job c₁ h₁ hjob => ?_
    cases job with
    | none =>
      refine hlast ?_ h₁
      exact fun _ => trivial
    | some job =>
      change Prog.Keeps _ _ (if job.status = .cancelled then _ else _) _ _
      split
      · refine hlast ?_ h₁
        exact fun _ => trivial
      cases hres : w.resolve job.job with
      | none =>
        refine hlast ?_ h₁
        exact fun _ => trivial
      | some cls =>
        refine .call_bind trivial (fun _ _ hh => h₁.trans hh.since) fun records c₂ hh => ?_
        have h₂ := h₁.trans hh.since
        refine resume_sequential job cls h₂ ?_ hh.mem
        obtain ⟨workerId, now, leaseExpiry, hclaim₂⟩ := hclaim.since h₂
        exact ⟨w, h₂.1.trans hk, workerId, now, leaseExpiry, run, job, hclaim₂, hh.since.mem hjob, hres⟩
  refine .tryCatch (hrun.mono ?_)
  rintro (e | a) c' h
  · refine then_ask h trivial hraise fun _ c₁ h₁ _ => ?_
    exact (settling_sequential (rescheduleOnError_asks run) c₁ (.refl c₁)).mono fun _ _ hs => h₁.trans hs
  · exact h

/-- **A worker goes in order.** -/
lemma worker_sequential (w : Worker) :
    w.tick.Keeps Heard Sequential (fun _ _ => True) (.worker w, []) := by
  refine tick_heard (fun c r _ hr => ?_) fun run c hk hclaim =>
    (execute_sequential hk hclaim).mono fun _ _ _ => trivial
  cases r with
  | db call => cases call <;> trivial
  | _ => trivial

lemma undoFrom_sequential {i : ℕ} (cls : JobCls) {records : List TaskRow} (ctx : TaskContext)
    (hread : ∀ t ∈ records, t.status = .succeeded → ReadDone i t.position c₀.2) :
    (JobManager.undoFrom i cls records ctx).Within Heard Sequential (Since c₀) := by
  induction records generalizing ctx with
  | nil => exact .ret _
  | cons record records ih =>
    obtain ⟨hone, hrest⟩ := List.forall_mem_cons.1 hread
    unfold JobManager.undoFrom
    split
    · exact ih ctx hrest
    · rename_i hs
      split
      · exact .ret _
      · refine .ask (fun c hc => (hone (not_not.1 hs)).since hc) (fun _ _ _ hc hh => hc.trans hh.since)
          fun undone _ _ _ _ => ?_
        obtain ⟨_ | exc, state⟩ := undone
        · exact heard_closed.ask (fun _ _ => trivial) fun _ => ih _ hrest
        · exact .ret _

lemma undo_sequential (resolve : String → Option JobCls) (jobId : ℕ) :
    (JobManager.undo resolve jobId).Within Heard Sequential (Since c₀) := by
  refine heard_closed.ask (fun _ _ => trivial) fun record => ?_
  cases record with
  | none => exact .ret _
  | some record =>
    refine heard_closed.ask (fun _ _ => trivial) fun runs => ?_
    cases runs with
    | nil => exact .ret _
    | cons run runs =>
      dsimp only
      split
      · exact .ret _
      · intro c hc
        refine .call_bind trivial (fun _ _ hh => hc.trans hh.since) fun records c' hh => ?_
        have hs := hc.trans hh.since
        have hread : ∀ t ∈ records.reverse, t.status = .succeeded → ReadDone run.id t.position c'.2 :=
          fun t ht hdone => ⟨records, hh.mem, t, List.mem_reverse.1 ht, rfl, hdone⟩
        exact (undoFrom_sequential _ _ hread c' (.refl c')).mono fun _ _ h => hs.trans h

/-- **Every process goes in order.** -/
theorem kind_sequential (k : Kind) :
    Pool.InPhase Heard Sequential (fun _ => True) k.program (k, []) := by
  cases k with
  | worker w => exact worker_sequential w
  | undo resolve jobId => exact (undo_sequential resolve jobId _ (.refl _)).mono fun _ _ _ => trivial
  | _ =>
    refine heard_of_may fun c r hr => ?_
    cases r with
    | db call => cases call <;> trivial
    | _ => trivial

end

/-! ### What the log says -/

/-- The body of the task has returned the value, and the process that ran it has recorded so. -/
def Finished (i pos : ℕ) (v : Value) (log : List Ev) : Prop :=
  ∃ pid l l', Pool.said pid log = l ++ ⟨.db (.succeedTask i pos v), .ok ()⟩ :: l' ∧ HasRun i pos v l

section

variable {C : System → Act → Prop} {p p' : System} {pid i pos : ℕ} {v : Value} {log : List Ev}

lemma Finished.append (h : Finished i pos v log) (log' : List Ev) : Finished i pos v (log ++ log') := by
  obtain ⟨pid, l, l', hsaid, hrun⟩ := h
  refine ⟨pid, l, l' ++ Pool.said pid log', ?_, hrun⟩
  rw [said_append, hsaid, List.append_assoc, List.cons_append]

lemma pending_sequential (h : p.Reached C) {r : Req} (hr : p.pending pid = some r) :
    ∃ k, p.kind? pid = some k ∧ Sequential (k, Pool.said pid p.log) r :=
  pending_heard kind_sequential h hr

/-- A record that says its task has succeeded holds what the body has returned. -/
lemma TaskStep.succeededNow {e : Env} {k : ℕ} {c : Call} {o : Option TaskRow} {t' : TaskRow}
    (h : TaskStep e k c o (some t')) (hs : t'.status = .succeeded) :
    o = some t' ∨ ∃ v, c = .succeedTask t'.runId t'.position v ∧ t'.result = some v := by
  cases h with
  | same => exact .inl rfl
  | succeeded t v => exact .inr ⟨v, rfl, rfl⟩
  | _ => cases hs

/-- **A record is backed by the log**: if it says that its task has succeeded, the body has returned. -/
lemma records_backed (h : p.Reached C) : ∀ t ∈ p.shared.tasks.rows, t.status = .succeeded →
    ∃ v, t.result = some v ∧ Finished t.runId t.position v p.log := by
  induction h with
  | refl => simp [System.init, Table.empty]
  | @tail p₁ p₂ hrun hmove ih =>
    intro t ht hs
    obtain ⟨l, hl⟩ := Pool.log_prefix (.single hmove)
    obtain ⟨lab, -, hstep⟩ := hmove
    have hkept : t ∈ p₁.shared.tasks.rows →
        ∃ v, t.result = some v ∧ Finished t.runId t.position v p₂.log := by
      intro hmem
      obtain ⟨v, hv, hfin⟩ := ih t hmem hs
      exact ⟨v, hv, hl ▸ hfin.append l⟩
    rcases System.step_cases hstep with hsame | ⟨pid, c, e, y, -, hasks, hx, hlog⟩
    · exact hkept (hsame ▸ ht)
    · have hrow := exec_task hx t.id
      rw [show p₂.shared.tasks.get? t.id = some t from Table.get?_of_mem ht] at hrow
      rcases hrow.succeededNow hs with hwas | ⟨v, rfl, hv⟩
      · exact hkept (Table.mem_of_get? hwas)
      · obtain ⟨k, -, hbody⟩ := pending_sequential hrun hasks
        obtain rfl : .ok () = y := (Prod.mk.inj (Option.some.inj hx)).2
        refine ⟨v, hv, pid, Pool.said pid p₁.log, [], ?_, hbody⟩
        rw [hlog, Pool.said_concat, if_pos rfl]

/-- The records that a process has read are those of the database. -/
lemma records_of_answered {a : Answer} {records : List TaskRow}
    {f : Except Exc (Req.db (.tasksOf i)).Reply → Io Unit}
    (hact : Pool.Acts answer p pid a p' (.db (.tasksOf i)) f (.ok records)) :
    records = p.shared.tasksOf i := by
  have hans := hact.answered
  cases a with
  | commit e => exact (Except.ok.inj (Prod.mk.inj (Option.some.inj hans)).2).symm
  | fail exc => cases (Prod.mk.inj (Option.some.inj hans)).2
  | _ => cases hans

lemma KnowsDone.finished (h : p.Reached C) (hk : KnowsDone i pos (Pool.said pid p.log)) :
    ∃ v, Finished i pos v p.log := by
  rcases hk with ⟨v, hsaid⟩ | ⟨records, hsaid, t, ht, rfl, hs⟩
  · obtain ⟨ev, hev, rfl, heq⟩ := Pool.mem_of_said hsaid
    obtain ⟨l₁, l₂, hlog⟩ := List.append_of_mem hev
    obtain ⟨p₁, p₂, f, h₁, -, -, hact, -, rfl, -⟩ := Pool.event_step h rfl hlog
    obtain ⟨pid', r, a, y, db, db'⟩ := ev
    cases heq
    obtain ⟨k, -, hbody⟩ := pending_sequential h₁ hact.pending
    refine ⟨v, pid', Pool.said pid' p₁.log, Pool.said pid' l₂, ?_, hbody⟩
    rw [hlog, List.append_cons, said_append, Pool.said_concat, if_pos rfl, List.append_assoc]
    rfl
  · obtain ⟨p₁, p₂, a, f, h₁, hact, h₂, hrest⟩ := answered_of_said h hsaid
    rw [records_of_answered hact, DB.tasksOf, List.mem_insertionSort] at ht
    obtain ⟨hmem, rfl⟩ := Table.mem_select.1 ht
    obtain ⟨v, -, hfin⟩ := records_backed h₁ t (Table.mem_of_get? hmem) hs
    obtain ⟨l, hl⟩ := Pool.log_prefix hrest
    rw [hl, hact.logged, List.append_assoc]
    exact ⟨v, hfin.append _⟩

/-- **Tasks run in order**, whoever else executes the run meanwhile and whatever is cancelled, swept or
deleted: when the body of a task runs, that of every task before it has returned, and was recorded. -/
theorem tasks_in_order (h : p.Reached C) {n : ℕ} {ctx : TaskContext}
    (hr : p.pending pid = some (.run i pos n ctx)) :
    ∀ pos' < pos, ∃ v, Finished i pos' v p.log := by
  obtain ⟨k, -, hknows, -⟩ := pending_sequential h hr
  exact fun pos' hpos => (hknows pos' hpos).finished h

def bodyOf : Req → Option (ℕ × ℕ)
  | .run i pos _ _ => some (i, pos)
  | _ => none

def undoOf : Req → Option (ℕ × ℕ)
  | .undo i pos _ => some (i, pos)
  | _ => none

theorem tasks_in_order_firstDone : ∃ (p : System) (n : ℕ) (ctx : TaskContext),
    System.init.play System.Any (firstDone 1) = some p ∧ p.pending 1 = some (.run 0 1 n ctx) ∧
      ∀ pos' < 1, ∃ v, Finished 0 pos' v p.log := by
  have hall : ((System.init.play System.Any (firstDone 1)).any fun p =>
      (p.pending 1).bind bodyOf = some (0, 1)) = true := by decide
  obtain ⟨p, hp, hend⟩ := (Option.any_eq_true _ _).1 hall
  obtain ⟨r, hr, hbody⟩ := Option.bind_eq_some_iff.1 (of_decide_eq_true hend)
  cases r with
  | run i pos n ctx =>
    cases hbody
    exact ⟨p, n, ctx, hp, hr, tasks_in_order (Pool.run_of_play hp) hr⟩
  | _ => cases hbody

/-- **Only what has returned is undone**, by a worker or by hand: when an `undo` is called, the body of
the task has returned, and was recorded. -/
theorem undo_only_finished (h : p.Reached C) {ctx : TaskContext}
    (hr : p.pending pid = some (.undo i pos ctx)) : ∃ v, Finished i pos v p.log := by
  obtain ⟨k, -, hread⟩ := pending_sequential h hr
  exact KnowsDone.finished h (.inr hread)

/-- The second task has failed for good, and the first one is undone. -/
theorem undo_only_finished_firstDone : ∃ (p : System) (ctx : TaskContext),
    System.init.play System.Any (firstDone 1 ++ secondRaises :: commits 1 3 3) = some p ∧
      p.pending 1 = some (.undo 0 0 ctx) ∧ ∃ v, Finished 0 0 v p.log := by
  have hall : ((System.init.play System.Any (firstDone 1 ++ secondRaises :: commits 1 3 3)).any fun p =>
      (p.pending 1).bind undoOf = some (0, 0)) = true := by decide
  obtain ⟨p, hp, hend⟩ := (Option.any_eq_true _ _).1 hall
  obtain ⟨r, hr, hundo⟩ := Option.bind_eq_some_iff.1 (of_decide_eq_true hend)
  cases r with
  | undo i pos ctx =>
    cases hundo
    exact ⟨p, ctx, hp, hr, undo_only_finished (Pool.run_of_play hp) hr⟩
  | _ => cases hundo

/-! ### A run that has succeeded -/

/-- A worker has completed the run with this result, of a class that it has looked up for the job, and
by then the body of every task of the class had returned. -/
def CompletedBy (r : RunRow) (p : System) : Prop :=
  ∃ l₁ ev l₂ result w job cls, p.log = l₁ ++ ev :: l₂ ∧
    (⟨ev.req, ev.reply⟩ : Said) = ⟨.db (.completeRun r.id result), .ok ()⟩ ∧
    r.result = some result ∧ p.kind? ev.pid = some (.worker w) ∧
    ⟨.db (.getJob r.jobId), .ok (some job)⟩ ∈ Pool.said ev.pid l₁ ∧ w.resolve job.job = some cls ∧
    ∀ pos < cls.tasks.length, ∃ v, Finished r.id pos v l₁

lemma RunStep.succeededNow {e : Env} {c : Call} {o : Option RunRow} {r' : RunRow}
    (h : RunStep e i c o (some r')) (hs : r'.status = .succeeded) :
    (∃ r, o = some r ∧ r.status = .succeeded ∧ r.id = r'.id ∧ r.jobId = r'.jobId ∧
      r.result = r'.result) ∨ ∃ result, c = .completeRun i result ∧ r'.result = some result := by
  cases h with
  | same => exact .inl ⟨_, rfl, hs, rfl, rfl, rfl⟩
  | completed r result => exact .inr ⟨result, rfl, rfl⟩
  | ctxSet r | progressSet r => exact .inl ⟨r, rfl, hs, rfl, rfl, rfl⟩
  | renewed r _ _ hr => rw [hr] at hs; cases hs
  | _ => cases hs

/-- A run that a process has claimed is of the job that it has heard of. -/
lemma runOf_of_claimed (h : p.Reached System.NewIds) {workerId : String} {now leaseExpiry : Time}
    {run : RunRow} (hsaid : (⟨.db (.claimRun i workerId now leaseExpiry), .ok (some run)⟩ : Said) ∈
      Pool.said pid p.log) : RunOf i run.jobId p.shared := by
  obtain ⟨p₁, p₂, a, f, h₁, hact, -, hrest⟩ := answered_of_said h hsaid
  have hclaim : claimIn 0 (.db (.claimRun i workerId now leaseExpiry)) (.ok (some run)) =
      some ⟨0, i, workerId, now, leaseExpiry, run⟩ := rfl
  have hrow := claimed_run hact hclaim
  have hid : run.id = i := valid_of_answer hact.answered
  have hof : RunOf i run.jobId p₂.shared := by
    rw [hid] at hrow
    refine ⟨Table.lt_seq_of_get? hrow, fun r' hr' => ?_⟩
    rw [hrow] at hr'
    cases hr'
    rfl
  exact hrest.stays RunOf.exec hof

lemma CompletedBy.step {l : Act} {r r' : RunRow} (hr : CompletedBy r p)
    (hstep : Pool.step answer Kind.program p l = some p') (hl : ∃ l, p'.log = p.log ++ l)
    (hid : r.id = r'.id) (hjob : r.jobId = r'.jobId) (hres : r.result = r'.result) :
    CompletedBy r' p' := by
  obtain ⟨l₁, ev, l₂, result, w, job, cls, hlog, hreq, hresult, hkind, hread, hcls, hall⟩ := hr
  obtain ⟨l', hl'⟩ := hl
  rw [hid] at hreq hall
  rw [hjob] at hread
  rw [hres] at hresult
  refine ⟨l₁, ev, l₂ ++ l', result, w, job, cls, ?_, hreq, hresult, Pool.kind?_stays hstep hkind, hread,
    hcls, hall⟩
  rw [hl', hlog, List.append_assoc, List.cons_append]

/-- **A run succeeds only after all its work**: in every reachable state, whatever other executions,
cancellations, sweeps and crashes come in between, a run that has succeeded was completed by a worker
when the body of every task of its class had returned, and it holds the result of that completion. -/
theorem succeeded_only_finished (h : p.Reached System.NewIds) {r : RunRow}
    (hr : p.shared.runs.get? i = some r) (hs : r.status = .succeeded) : CompletedBy r p := by
  induction h generalizing r with
  | refl => cases hr
  | @tail p₁ p₂ hrun hmove ih =>
    have hl := Pool.log_prefix (.single hmove)
    have hreach : p₂.Reached System.NewIds := .tail hrun hmove
    obtain ⟨lab, hids, hstep⟩ := hmove
    rcases System.step_cases hstep with hsame | ⟨pid, c, e, y, -, hasks, hx, hlog⟩
    · exact (ih (hsame ▸ hr) hs).step hstep hl rfl rfl rfl
    · have hrow := exec_run hx i
      rw [hr] at hrow
      rcases hrow.succeededNow hs with ⟨r₁, hr₁, hs₁, hid, hjob, hres⟩ | ⟨result, rfl, hres⟩
      · exact (ih hr₁ hs₁).step hstep hl hid hjob hres
      · obtain ⟨k, hk, cls, hlooked, hall⟩ := pending_sequential hrun hasks
        obtain ⟨w, rfl, workerId, now, leaseExpiry, run, job, hclaim, hread, hcls⟩ := hlooked
        have hid : r.id = i := run_id_of_get? hr
        have hjob : run.jobId = r.jobId := by
          have hsub : Pool.said pid p₁.log ⊆ Pool.said pid p₂.log := by
            rw [hlog, said_append]
            exact List.subset_append_left _ _
          exact ((runOf_of_claimed hreach (hsub hclaim)).2 r hr).symm
        have hsaid : (⟨.db (.completeRun i result), y⟩ : Said) =
            ⟨.db (.completeRun r.id result), .ok ()⟩ := by
          obtain rfl : Except.ok () = y := (Prod.mk.inj (Option.some.inj hx)).2
          rw [hid]
        refine ⟨p₁.log, _, [], result, w, job, cls, hlog, hsaid, hres, ?_, ?_, hcls, ?_⟩
        · exact Pool.kind?_stays hstep hk
        · exact hjob ▸ hread
        · intro pos hpos
          exact hid ▸ (hall pos hpos).finished hrun

/-- A worker does both tasks, and completes the run. -/
def bothDone : List Act := firstDone 1 ++ .act 1 (.ran (.ok (.num 7)) []) :: commits 1 3 3

theorem succeeded_only_finished_bothDone : ∃ (p : System) (r : RunRow),
    System.init.play System.NewIds bothDone = some p ∧ p.shared.runs.get? 0 = some r ∧
      r.status = .succeeded ∧ CompletedBy r p := by
  have hall : ((System.init.play System.NewIds bothDone).any fun p =>
      (p.shared.runs.get? 0).map RunRow.status = some .succeeded) = true := by decide
  obtain ⟨p, hp, hend⟩ := (Option.any_eq_true _ _).1 hall
  obtain ⟨r, hr, hs⟩ := Option.map_eq_some_iff.1 (of_decide_eq_true hend)
  exact ⟨p, r, hp, hr, hs, succeeded_only_finished (Pool.run_of_play hp) hr hs⟩

end

end Pyreljob
