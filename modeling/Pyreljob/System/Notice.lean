import Pyreljob.System.Cancelled
import Pyreljob.System.Deployment
import Pyreljob.System.Hearing
import Pyreljob.System.Late

/-!
What the tasks of a worker process are told about a cancellation.

A task may give up where `ctx.check_cancelled()` raises, and it raises once the heartbeat loop has set the
flag of the context. Between what the backend answers and the flag, the threads of the process and all
other members of the deployment go on. Whatever they do, a flag is set only where the job is cancelled.
And a pass that comes to a run of a cancelled job sets its flag, unless the job is deleted or the
heartbeat loop ends.
-/

namespace Pyreljob

open Lib

/-! ### Which job an execution reads -/

def ReadsJob (j : ℕ) : Req → Prop
  | .db (.getJob i) => i = j
  | _ => True

section

variable {j : ℕ} (runId : ℕ) (cls : JobCls) (job : JobRow)

lemma finalizeFailed_reads (error : String) :
    (Worker.finalizeFailed job runId error).Asks (ReadsJob j) := by
  refine Prog.Asks.ask trivial fun _ => ?_
  split
  · exact .ret _
  · refine Prog.Asks.ask trivial fun attempts => ?_
    split
    · exact Prog.Asks.ask trivial fun retryAt => Prog.Asks.ask trivial fun _ => .ret _
    · exact .ret _

lemma reschedule_reads (ctx : TaskContext) : (Worker.reschedule job runId ctx).Asks (ReadsJob j) := by
  unfold Worker.reschedule
  split
  · exact .ret _
  · refine Prog.Asks.ask trivial fun row => ?_
    cases row with
    | none => exact .ret _
    | some row => exact Prog.Asks.ask trivial fun next => Prog.Asks.last trivial

lemma rescheduleOnError_reads (run : RunRow) :
    (Worker.rescheduleOnError run).Asks (ReadsJob run.jobId) := by
  refine Prog.Asks.ask rfl fun job => ?_
  cases job with
  | none => exact .ret _
  | some job =>
    change (if job.source ≠ .scheduled then _ else _ : Io Unit).Asks _
    split
    · exact .ret _
    · exact Prog.Asks.ask trivial fun now => Prog.Asks.last trivial

lemma compensate_reads (ctx : TaskContext) :
    (Worker.compensate runId cls ctx).Asks (ReadsJob j) := by
  have hloop : ∀ records ctx, (Worker.compensateFrom runId cls records ctx).Asks (ReadsJob j) := by
    intro records
    induction records with
    | nil => exact fun _ => .ret _
    | cons record records ih =>
      intro ctx
      unfold Worker.compensateFrom
      split
      · exact ih ctx
      · split
        · exact .ret _
        · exact Prog.Asks.ask trivial fun undone => Prog.Asks.ask trivial fun _ => ih _
  exact Prog.Asks.ask trivial fun records => hloop _ ctx

lemma runTask_reads (ctx : TaskContext) (pos : ℕ) (task : TaskCls) (existing : Option TaskRow) :
    (Worker.runTask runId cls job ctx pos task existing).Asks (ReadsJob j) := by
  refine Prog.Asks.ask trivial fun _ => Prog.Asks.ask trivial fun ran => ?_
  obtain ⟨exc | v, state⟩ := ran
  · dsimp only
    split
    · exact Prog.Asks.ask trivial fun _ => Prog.Asks.ask trivial fun _ => .ret _
    · split
      · refine Prog.Asks.ask trivial fun _ => Prog.Asks.ask trivial fun _ => ?_
        refine .bind (compensate_reads runId cls _) fun ctx => ?_
        exact .bind (finalizeFailed_reads runId job _) fun _ => .ret _
      · exact Prog.Asks.ask trivial fun _ => Prog.Asks.ask trivial fun _ =>
          Prog.Asks.ask trivial fun _ => Prog.Asks.ask trivial fun _ => .ret _
  · exact Prog.Asks.ask trivial fun _ => Prog.Asks.ask trivial fun _ => .ret _

lemma runTasks_reads (records : List TaskRow) (tasks : List TaskCls) (pos : ℕ) (ctx : TaskContext) :
    (Worker.runTasks runId cls job records tasks pos ctx).Asks (ReadsJob j) := by
  induction tasks generalizing pos ctx with
  | nil => exact .ret _
  | cons task tasks ih =>
    refine .bind (runTask_reads runId cls job ctx pos task _) fun ended => ?_
    obtain ⟨_ | _ | _ | _, ctx⟩ := ended
    · exact ih _ ctx
    all_goals exact .ret _

lemma resume_reads (run : RunRow) (records : List TaskRow) :
    (Worker.resume run job cls records).Asks (ReadsJob j) := by
  unfold Worker.resume
  dsimp only
  split
  · refine Prog.Asks.ask trivial fun _ => ?_
    refine .bind (compensate_reads _ cls _) fun ctx => ?_
    exact .bind (finalizeFailed_reads _ job _) fun _ => reschedule_reads _ job ctx
  · refine .bind (runTasks_reads _ cls job records _ _ _) fun ended => ?_
    obtain ⟨_ | _ | _ | _, ctx⟩ := ended
    · exact Prog.Asks.ask trivial fun _ => Prog.Asks.ask trivial fun _ => reschedule_reads _ job ctx
    · exact .ret _
    · exact .ret _
    · exact reschedule_reads _ job ctx

end

/-- **An execution reads the job of its run**, and no other. -/
theorem execute_reads (w : Worker) (run : RunRow) : (w.execute run).Asks (ReadsJob run.jobId) := by
  have hrun : (w.run run).Asks (ReadsJob run.jobId) := by
    refine Prog.Asks.ask rfl fun job => ?_
    cases job with
    | none => exact Prog.Asks.last trivial
    | some job =>
      dsimp only
      split
      · exact Prog.Asks.last trivial
      · split
        · exact Prog.Asks.last trivial
        · exact Prog.Asks.ask trivial fun records => resume_reads _ job run records
  exact .tryCatch hrun fun _ => Prog.Asks.ask trivial fun _ => rescheduleOnError_reads run

/-! ### What the backend tells -/

lemma jobOff_of_cancelled {db : DB} {j : ℕ} {job : JobRow} (hjob : db.jobs.get? j = some job)
    (hs : job.status = .cancelled) : JobOff j db := by
  refine ⟨Table.lt_seq_of_get? hjob, fun job' hjob' => ?_⟩
  rw [hjob] at hjob'
  cases hjob'
  exact hs

lemma asked_cancelled {db db' : DB} {a : Answer} {j : ℕ} {b : Bool}
    (h : answer db (.db (.isJobCancelled j)) a = some (db', .ok b)) :
    db' = db ∧ b = db.isJobCancelled j := by
  cases a <;> simp only [answer, Call.exec, reduceCtorEq, Option.some.injEq, Prod.mk.injEq,
    Except.ok.injEq, and_false] at h
  exact ⟨h.1.symm, h.2.symm⟩

lemma off_of_asked {db db' : DB} {a : Answer} {j : ℕ}
    (h : answer db (.db (.isJobCancelled j)) a = some (db', .ok true)) : JobOff j db := by
  obtain ⟨-, hcan⟩ := asked_cancelled h
  obtain ⟨job, hjob, hs⟩ := isJobCancelled_iff.1 hcan.symm
  exact jobOff_of_cancelled hjob hs

lemma off_of_told {db db' : DB} {r : Req} {a : Answer} {y : Except Exc r.Reply} {j : ℕ}
    (h : answer db r a = some (db', y)) (hr : ReadsJob j r)
    (ht : Process.tellsCancelled r y = true) : JobOff j db := by
  unfold Process.tellsCancelled at ht
  split at ht
  · rename_i i job
    cases a <;> simp only [answer, Call.exec, reduceCtorEq, Option.some.injEq, Prod.mk.injEq,
      Except.ok.injEq, and_false] at h
    obtain ⟨-, hjob⟩ := h
    exact hr ▸ jobOff_of_cancelled hjob (of_decide_eq_true ht)
  · cases ht

/-! ### The moves of the event loop -/

section Moves

open Process

variable {n n' : Node} {m : NodeMove}

lemma mem_register {x y : Entry} {active : List Entry} (h : y ∈ register x active) :
    y = x ∨ y ∈ active := by
  induction active with
  | nil => exact .inl (List.mem_singleton.1 h)
  | cons z active ih =>
    unfold register at h
    split at h
    · exact (List.mem_cons.1 h).imp_right fun h => List.mem_cons_of_mem _ h
    · rcases List.mem_cons.1 h with rfl | h
      · exact .inr List.mem_cons_self
      · exact (ih h).imp_right fun h => List.mem_cons_of_mem _ h

lemma mem_settle {x y : Entry} {co : Co Unit} {inside : Bool} {active : List Entry}
    (h : y ∈ (settle x co inside active).2.2) : y = x ∨ y ∈ active := by
  induction co generalizing inside active with
  | ret v => exact .inr h
  | ask r k ih =>
    cases r with
    | io r => exact .inr h
    | enter =>
      rcases ih _ h with heq | h
      · exact .inl heq
      · exact mem_register h
    | leave => exact (ih _ h).imp_right fun h => (List.mem_filter.1 h).1

lemma entries_of_beat {active : List Entry} {b b' : Heartbeat} (h : Beat active b b') {x : Entry}
    (hx : x ∈ b'.todo) : x ∈ b.todo ∨ x ∈ active := by
  cases h with
  | still => exact .inl hx
  | ends | starts | loops => cases hx
  | begins => exact .inr (by simpa using hx)
  | asked y rest => exact .inl (List.mem_cons_of_mem _ hx)
  | cancelled y rest => exact .inl (List.mem_cons_of_mem _ (by simpa using hx))
  | renewed y rest =>
    rw [Heartbeat.todo_visit] at hx
    exact .inl hx

/-- What a move of the event loop comes to. -/
inductive Moved (n n' : Node) : Prop
  | stops (process : n'.process = { n.process with running := false }) (told : n'.told = n.told)
      (replies : n'.replies = n.replies)
  | main (steps : n.step .main = some n'.process)
      (told : n'.told = if n'.process.heartbeat = n.process.heartbeat then n.told else none)
      (replies : n'.replies = n.replies)
  | heartbeat (steps : n.step .heartbeat = some n'.process) (told : n'.told = n.told)
      (replies : n'.replies = n.replies)
  | claimed (v : Except Exc (Option RunRow)) (steps : n.step (.claim v) = some n'.process)
      (told : n'.told = n.told) (replies : n'.replies = n.replies)
  /-- The heartbeat loop has its answer about the job. -/
  | asked (x : Entry) (rest : List Entry) (receipt : Receipt) (db : DB) (y : Except Exc Bool)
      (asks : n.process.heartbeat = .asking x rest) (hears : n.told = some receipt)
      (answered : answer receipt.db (.db (.isJobCancelled x.jobId)) receipt.ans = some (db, y))
      (process : n'.process = n.process.onIsJobCancelled x rest y) (told : n'.told = none)
      (replies : n'.replies = n.replies)
  /-- It has its answer about the lease. -/
  | renewed (x : Entry) (rest : List Entry) (y : Except Exc Bool)
      (renews : n.process.heartbeat = .renewing x rest)
      (process : n'.process = n.process.onRenewLease x rest y) (told : n'.told = none)
      (replies : n'.replies = n.replies)
  | resumed (k : ℕ) (receipt : Receipt) (reply : n.replies k = some receipt)
      (goes : n.process.onExecution k receipt.db receipt.ans = some n'.process)
      (told : n'.told = n.told) (replies : n'.replies = Function.update n.replies k none)

/-- **What the event loop may do.** -/
theorem moved_of_move (h : n.move m = some n') : Moved n n' := by
  cases m with
  | stop =>
    simp only [Node.move] at h
    obtain ⟨s, hs, rfl⟩ := Option.map_eq_some_iff.1 h
    obtain ⟨-, hs⟩ := step_some hs
    cases hs
    exact .stops rfl rfl rfl
  | main =>
    simp only [Node.move] at h
    obtain ⟨s, hs, rfl⟩ := Option.map_eq_some_iff.1 h
    exact .main hs rfl rfl
  | heartbeat =>
    simp only [Node.move] at h
    obtain ⟨s, hs, rfl⟩ := Option.map_eq_some_iff.1 h
    exact .heartbeat hs rfl rfl
  | claimed =>
    simp only [Node.move] at h
    split at h
    · obtain ⟨s, hs, rfl⟩ := Option.map_eq_some_iff.1 h
      exact .claimed _ hs rfl rfl
    · cases h
  | beaten =>
    simp only [Node.move] at h
    split at h
    · rename_i db a x rest ht hb
      obtain ⟨⟨db', y⟩, ha, h⟩ := Option.bind_eq_some_iff.1 h
      obtain ⟨s, hs, h⟩ := Option.bind_eq_some_iff.1 h
      cases h
      obtain ⟨-, hs⟩ := step_some hs
      simp only [Process.move, hb, Option.some.injEq] at hs
      exact .asked x rest ⟨db, a⟩ db' y hb ht ha hs.symm rfl rfl
    · rename_i db a x rest ht hb
      obtain ⟨⟨db', y⟩, ha, h⟩ := Option.bind_eq_some_iff.1 h
      obtain ⟨s, hs, h⟩ := Option.bind_eq_some_iff.1 h
      cases h
      obtain ⟨-, hs⟩ := step_some hs
      simp only [Process.move, hb, Option.some.injEq] at hs
      exact .renewed x rest y hb hs.symm rfl rfl
    · cases h
  | resumed k =>
    simp only [Node.move] at h
    obtain ⟨receipt, hreply, h⟩ := Option.bind_eq_some_iff.1 h
    obtain ⟨s, hs, h⟩ := Option.bind_eq_some_iff.1 h
    cases h
    exact .resumed k receipt hreply (step_some hs).2 rfl rfl

/-- How a move of the event loop changes an execution. -/
inductive Turn (n n' : Node) (k : ℕ) : Option Execution → Option Execution → Prop
  | same (o : Option Execution) (replies : n'.replies k = n.replies k) : Turn n n' k o o
  | begun (run : RunRow) (hk : k = n.process.executions.length) (replies : n'.replies k = n.replies k) :
      Turn n n' k none
        (some { runId := run.id, jobId := run.jobId, co := n.worker.coExecute run })
  | flagged (e : Execution) (x : Entry) (rest : List Entry) (receipt : Receipt) (db : DB)
      (hx : x.exec = k) (asks : n.process.heartbeat = .asking x rest) (told : n.told = some receipt)
      (answered : answer receipt.db (.db (.isJobCancelled x.jobId)) receipt.ans = some (db, .ok true))
      (replies : n'.replies k = n.replies k) :
      Turn n n' k (some e) (some { e with cancelled := true })
  | lost (e : Execution) (replies : n'.replies k = n.replies k) :
      Turn n n' k (some e) (some { e with lost := true })
  | resumed (e : Execution) (r : Req) (f : Except Exc r.Reply → Io Unit) (receipt : Receipt) (db : DB)
      (y : Except Exc r.Reply) (co : Co Unit) (inside : Bool) (asks : e.co.erase = .ask r f)
      (reply : n.replies k = some receipt) (answered : answer receipt.db r receipt.ans = some (db, y))
      (goes : co.erase = f y) (replies : n'.replies k = none) :
      Turn n n' k (some e) (some
        { e with co := co, inside := inside, cancelled := e.cancelled || tellsCancelled r y })

lemma turn_of_modify {l : List Execution} {k i : ℕ} {f : Execution → Execution}
    (hsame : n'.replies k = n.replies k)
    (h : i = k → ∀ e, Turn n n' k (some e) (some (f e))) : Turn n n' k l[k]? (l.modify i f)[k]? := by
  rw [List.getElem?_modify]
  by_cases hk : i = k
  · cases l[k]? with
    | none => exact .same _ hsame
    | some e => simpa [hk] using h hk e
  · simpa [hk] using Turn.same _ hsame

/-- **What a move does to an execution.** -/
theorem turn_of_move (h : n.move m = some n') (k : ℕ) :
    Turn n n' k n.process.executions[k]? n'.process.executions[k]? := by
  have hsame : n'.process.executions = n.process.executions → n'.replies = n.replies →
      Turn n n' k n.process.executions[k]? n'.process.executions[k]? :=
    fun hexec hreplies => hexec ▸ .same _ (congrFun hreplies k)
  cases moved_of_move h with
  | stops process _ replies => exact hsame (process ▸ rfl) replies
  | main steps _ replies => exact hsame (step_main_cases steps).1 replies
  | heartbeat steps _ replies => exact hsame (step_heartbeat_cases steps).1 replies
  | claimed v steps _ replies =>
    rcases (step_claim steps).2 with ⟨run, -, hexec⟩ | hexec
    · rw [hexec]
      rcases lt_trichotomy k n.process.executions.length with hlt | rfl | hgt
      · rw [List.getElem?_append_left hlt]
        exact .same _ (congrFun replies k)
      · rw [List.getElem?_concat_length, List.getElem?_eq_none_iff.2 le_rfl]
        exact .begun run rfl (congrFun replies _)
      · have hnone : (n.process.executions ++ [{
            runId := run.id, jobId := run.jobId, co := n.worker.coExecute run }])[k]? = none := by
          rw [List.getElem?_eq_none_iff, List.length_append]
          exact hgt
        rw [hnone, List.getElem?_eq_none_iff.2 hgt.le]
        exact .same _ (congrFun replies k)
    · exact hsame hexec replies
  | asked x rest receipt db y asks hears answered process _ replies =>
    rcases y with exc | _ | _
    · exact hsame (process ▸ rfl) replies
    · exact hsame (process ▸ rfl) replies
    · rw [process]
      exact turn_of_modify (congrFun replies k)
        fun hx e => .flagged e x rest receipt db hx asks hears answered (congrFun replies k)
  | renewed x rest y _ process _ replies =>
    rcases y with exc | _ | _
    · exact hsame (process ▸ rfl) replies
    · rw [process]
      exact turn_of_modify (congrFun replies k) fun _ e => .lost e (congrFun replies k)
    · exact hsame (process ▸ rfl) replies
  | resumed k' receipt hreply goes _ replies =>
    obtain ⟨e, x, he, hans, hprocess⟩ := onExecution_some goes
    have hlt := (List.getElem?_eq_some_iff.1 he).1
    rw [hprocess]
    by_cases hk : k' = k
    · subst hk
      dsimp only
      rw [List.getElem?_set_self hlt, he]
      obtain ⟨runId, jobId, co, inside, cancelled, lost⟩ := e
      cases co with
      | ret v => cases hans
      | ask r f =>
        cases r with
        | enter | leave => cases hans
        | io r =>
          obtain ⟨⟨db', y⟩, hanswer, rfl⟩ := Option.map_eq_some_iff.1 hans
          refine .resumed _ r _ receipt db' y _ _ rfl hreply hanswer (erase_settle _ _ _ _) ?_
          rw [replies, Function.update_self]
    · dsimp only
      rw [List.getElem?_set_ne hk]
      refine .same _ ?_
      rw [replies, Function.update_of_ne (Ne.symm hk)]

/-- What is active was so before, or is an execution that goes on. -/
lemma active_of_move (h : n.move m = some n') {x : Entry} (hx : x ∈ n'.process.active) :
    x ∈ n.process.active ∨
      ∃ e, n.process.executions[x.exec]? = some e ∧ e.jobId = x.jobId := by
  cases moved_of_move h with
  | stops process =>
    rw [process] at hx
    exact .inl hx
  | main steps =>
    rcases onMain_some (step_some steps).2 with ⟨-, -, hwind⟩ | ⟨-, -, hactive, -⟩
    · rw [hwind] at hx
      exact .inl hx
    · exact .inl (hactive ▸ hx)
  | heartbeat steps =>
    obtain ⟨-, hs⟩ := step_some steps
    generalize n'.process = s at hs hx
    simp only [Process.move, onHeartbeat] at hs
    split at hs <;> cases hs <;> exact .inl hx
  | claimed v steps =>
    obtain ⟨-, hs⟩ := step_some steps
    generalize n'.process = s at hs hx
    simp only [Process.move] at hs
    split at hs
    · rcases v with exc | _ | run <;> cases hs <;> exact .inl hx
    · cases hs
  | asked x' rest receipt db y _ _ _ process =>
    rw [process] at hx
    rcases y with exc | _ | _ <;> exact .inl hx
  | renewed x' rest y _ process =>
    rw [process] at hx
    rcases y with exc | _ | _
    · exact .inl hx
    · exact .inl (List.mem_filter.1 hx).1
    · exact .inl hx
  | resumed k receipt _ goes =>
    obtain ⟨e, x', he, -, hprocess⟩ := onExecution_some goes
    rw [hprocess] at hx
    rcases mem_settle hx with rfl | hx
    · exact .inr ⟨e, he, rfl⟩
    · exact .inl hx

/-- What the heartbeat loop was told, a move forgets or leaves for the call that is under way. -/
lemma told_of_move (hn : n.Sound) (h : n.move m = some n') (ht : n'.told.isSome) :
    n'.told = n.told ∧ n'.process.heartbeat = n.process.heartbeat := by
  cases moved_of_move h with
  | stops process told => exact ⟨told, process ▸ rfl⟩
  | main _ told =>
    rw [told] at ht
    split at ht
    · rename_i hsame
      exact ⟨told.trans (if_pos hsame), hsame⟩
    · cases ht
  | heartbeat steps told =>
    have hnone := hn.told (told ▸ ht)
    rw [(step_heartbeat_cases steps).2.1] at hnone
    cases hnone
  | claimed v steps told => exact ⟨told, (step_claim steps).1⟩
  | asked _ _ _ _ _ _ _ _ _ told | renewed _ _ _ _ _ told =>
    rw [told] at ht
    cases ht
  | resumed k receipt _ goes told => exact ⟨told, (onExecution_frame goes).2.1⟩

/-- **The heartbeat loop takes what it was told** about a run: it sets the flag of the execution, or it
renews the lease; or it still awaits the call, or has ended. -/
lemma asked_of_move (h : n.move m = some n') {x : Entry} {rest : List Entry}
    (hb : n.process.heartbeat = .asking x rest) :
    n'.process.heartbeat = .asking x rest ∨ n'.process.heartbeat = .ended ∨
      ∃ receipt db b, n.told = some receipt ∧
        answer receipt.db (.db (.isJobCancelled x.jobId)) receipt.ans = some (db, .ok b) ∧
        (b = true → n'.process.executions[x.exec]? =
          n.process.executions[x.exec]?.map fun e => { e with cancelled := true }) := by
  cases moved_of_move h with
  | stops process => exact .inl (process ▸ hb)
  | main steps =>
    rcases (step_main_cases steps).2 with hsame | ⟨hended, -⟩
    · exact .inl (hsame.trans hb)
    · exact .inr (.inl hended)
  | heartbeat steps =>
    have hcall := (step_heartbeat_cases steps).2.1
    rw [hb] at hcall
    cases hcall
  | claimed v steps => exact .inl ((step_claim steps).1.trans hb)
  | asked x' rest' receipt db y asks hears answered process =>
    rw [hb] at asks
    cases asks
    rcases y with exc | b
    · exact .inr (.inl (process ▸ rfl))
    · refine .inr (.inr ⟨receipt, db, b, hears, answered, fun htrue => ?_⟩)
      subst htrue
      rw [process]
      exact List.getElem?_modify_eq ..
  | renewed x' rest' y renews =>
    rw [hb] at renews
    cases renews
  | resumed k receipt _ goes => exact .inl ((onExecution_frame goes).2.1.trans hb)

/-- What a call changes: the heartbeat loop is told, or an execution has a reply, of the database as it
is then. -/
lemma told_of_call {db db' : DB} {a : Answer} {slot : Slot} (h : n.call db a slot = some (db', n')) :
    (n'.told = n.told ∨ n'.told = some ⟨db, a⟩ ∧ n.told = none) ∧
      ∀ k, n'.replies k = n.replies k ∨ n'.replies k = some ⟨db, a⟩ := by
  cases slot with
  | main =>
    simp only [Node.call] at h
    split at h
    · obtain ⟨_, -, h⟩ := Option.map_eq_some_iff.1 h
      cases h
      exact ⟨.inl rfl, fun k => .inl rfl⟩
    · cases h
  | heartbeat =>
    simp only [Node.call] at h
    split at h
    · cases h
    · rename_i ht
      obtain ⟨_, -, h⟩ := Option.bind_eq_some_iff.1 h
      obtain ⟨_, -, h⟩ := Option.bind_eq_some_iff.1 h
      cases h
      exact ⟨.inr ⟨rfl, by simpa using ht⟩, fun k => .inl rfl⟩
  | execution k' =>
    simp only [Node.call] at h
    split at h
    · cases h
    · obtain ⟨_, -, h⟩ := Option.bind_eq_some_iff.1 h
      obtain ⟨_, -, h⟩ := Option.bind_eq_some_iff.1 h
      cases h
      refine ⟨.inl rfl, fun k => ?_⟩
      by_cases hk : k = k'
      · subst hk
        exact .inr (Function.update_self ..)
      · exact .inl (Function.update_of_ne hk _ _)
  | stray =>
    simp only [Node.call] at h
    obtain ⟨_, -, h⟩ := Option.bind_eq_some_iff.1 h
    obtain ⟨_, -, h⟩ := Option.bind_eq_some_iff.1 h
    cases h
    exact ⟨.inl rfl, fun k => .inl rfl⟩

end Moves

/-! ### What a process has been told is so -/

/-- What a process tells its tasks, and what it is about to tell them, is so. -/
structure Node.Honest (n : Node) (db : DB) : Prop where
  flags : ∀ (k : ℕ) e, n.process.executions[k]? = some e → e.cancelled = true → JobOff e.jobId db
  reads : ∀ (k : ℕ) e, n.process.executions[k]? = some e → e.co.erase.Asks (ReadsJob e.jobId)
  entries : ∀ x : Entry, x ∈ n.process.active ∨ x ∈ n.process.heartbeat.todo →
    ∃ e, n.process.executions[x.exec]? = some e ∧ e.jobId = x.jobId
  told : ∀ x rest receipt db', n.process.heartbeat = .asking x rest → n.told = some receipt →
    answer receipt.db (.db (.isJobCancelled x.jobId)) receipt.ans = some (db', .ok true) →
      JobOff x.jobId db
  replies : ∀ (k : ℕ) e r f receipt db' y, n.process.executions[k]? = some e → e.co.erase = .ask r f →
    n.replies k = some receipt → answer receipt.db r receipt.ans = some (db', y) →
      Process.tellsCancelled r y = true → JobOff e.jobId db

section Honest

open Process

variable {n n' : Node} {m : NodeMove} {db db' : DB}

lemma Node.Honest.init (w : Worker) (c : ℤ) : Node.Honest { worker := w, maxConcurrency := c } db where
  flags := fun k e he => by cases he
  reads := fun k e he => by cases he
  entries := fun x hx => by rcases hx with hx | hx <;> cases hx
  told := fun x rest receipt db' hb => by cases hb
  replies := fun k e r f receipt db' y he => by cases he

lemma Node.Honest.later (h : n.Honest db) (hoff : ∀ j, JobOff j db → JobOff j db') : n.Honest db' where
  flags := fun k e he hflag => hoff _ (h.flags k e he hflag)
  reads := h.reads
  entries := h.entries
  told := fun x rest receipt db₁ hb ht ha => hoff _ (h.told x rest receipt db₁ hb ht ha)
  replies := fun k e r f receipt db₁ y he hasks hr ha hy =>
    hoff _ (h.replies k e r f receipt db₁ y he hasks hr ha hy)

lemma Turn.kept {k : ℕ} {o o' : Option Execution} (h : Turn n n' k o o') {e : Execution}
    (he : o = some e) : ∃ e', o' = some e' ∧ e'.jobId = e.jobId ∧
      (e.cancelled = true → e'.cancelled = true) := by
  cases h with
  | same => exact ⟨e, he, rfl, id⟩
  | begun => cases he
  | flagged | lost =>
    cases he
    exact ⟨_, rfl, rfl, fun h => by first | rfl | exact h⟩
  | resumed =>
    cases he
    exact ⟨_, rfl, rfl, fun h => by simp [h]⟩

/-- **A move of the event loop tells nothing that is not so.** -/
theorem Node.Honest.move (h : n.Honest db) (hn : n.Sound) (hm : n.move m = some n') :
    n'.Honest db where
  flags := by
    intro k e' he' hflag
    have hturn := turn_of_move hm k
    rw [he'] at hturn
    generalize ho : n.process.executions[k]? = o at hturn
    cases hturn with
    | same => exact h.flags k e' ho hflag
    | begun => cases hflag
    | lost e => exact h.flags k e ho hflag
    | flagged e x rest receipt db' hx hasks htold ha =>
      obtain ⟨e₀, he₀, hjob⟩ := h.entries x (.inr (hasks ▸ List.mem_cons_self))
      rw [hx, ho] at he₀
      cases he₀
      rw [hjob]
      exact h.told x rest receipt db' hasks htold ha
    | resumed e r f receipt db' y co inside hasks hreply ha =>
      rcases Bool.or_eq_true_iff.1 hflag with hflag | hy
      · exact h.flags k e ho hflag
      · exact h.replies k e r f receipt db' y ho hasks hreply ha hy
  reads := by
    intro k e' he'
    have hturn := turn_of_move hm k
    rw [he'] at hturn
    generalize ho : n.process.executions[k]? = o at hturn
    cases hturn with
    | same => exact h.reads k e' ho
    | begun run =>
      rw [Worker.erase_coExecute]
      exact execute_reads n.worker run
    | lost e | flagged e => exact h.reads k e ho
    | resumed e r f receipt db' y co inside hasks hreply ha hgoes =>
      have hrest := h.reads k e ho
      rw [hasks] at hrest
      dsimp only
      rw [hgoes]
      intro c _
      exact (hrest () trivial).2 y c trivial
  entries := by
    intro x hx
    have hwas : x ∈ n.process.active ∨ x ∈ n.process.heartbeat.todo ∨
        ∃ e, n.process.executions[x.exec]? = some e ∧ e.jobId = x.jobId := by
      rcases hx with hx | hx
      · exact (active_of_move hm hx).imp_right .inr
      · obtain ⟨-, -, m', hstep⟩ := Deployment.process_of_move hm
        rcases entries_of_beat (beat hstep) hx with hx | hx
        · exact .inr (.inl hx)
        · exact .inl hx
    obtain ⟨e, he, hjob⟩ : ∃ e, n.process.executions[x.exec]? = some e ∧ e.jobId = x.jobId := by
      rcases hwas with hx | hx | hx
      · exact h.entries x (.inl hx)
      · exact h.entries x (.inr hx)
      · exact hx
    obtain ⟨e', he', hjob', -⟩ := (turn_of_move hm x.exec).kept he
    exact ⟨e', he', hjob'.trans hjob⟩
  told := by
    intro x rest receipt db' hb ht ha
    obtain ⟨htold, hsame⟩ := told_of_move hn hm (Option.isSome_of_eq_some ht)
    exact h.told x rest receipt db' (hsame ▸ hb) (htold ▸ ht) ha
  replies := by
    intro k e' r f receipt db' y he' hasks hreply ha hy
    have hturn := turn_of_move hm k
    rw [he'] at hturn
    generalize ho : n.process.executions[k]? = o at hturn
    cases hturn with
    | same _ hsame => exact h.replies k e' r f receipt db' y ho hasks (hsame ▸ hreply) ha hy
    | lost e hsame | flagged e x rest receipt' db₁ hx hasks' htold ha' hsame =>
      exact h.replies k e r f receipt db' y ho hasks (hsame ▸ hreply) ha hy
    | begun run hk hsame =>
      rw [hsame, hn.replies k hk.ge] at hreply
      cases hreply
    | resumed e r' f' receipt' db₁ y' co inside hasks' hreply' ha' hgoes hnone =>
      rw [hnone] at hreply
      cases hreply

/-- **A call tells what is so** in the database that answers it. -/
theorem Node.Honest.call (h : n.Honest db) {a : Answer} {slot : Slot}
    (hc : n.call db a slot = some (db', n')) : n'.Honest db := by
  obtain ⟨-, -, hprocess⟩ := Deployment.process_of_call hc
  obtain ⟨htold, hreplies⟩ := told_of_call hc
  refine ⟨?_, ?_, ?_, ?_, ?_⟩
  · rw [hprocess]
    exact h.flags
  · rw [hprocess]
    exact h.reads
  · rw [hprocess]
    exact h.entries
  · intro x rest receipt db₁ hb ht ha
    rw [hprocess] at hb
    rcases htold with hsame | ⟨hnew, -⟩
    · exact h.told x rest receipt db₁ hb (hsame ▸ ht) ha
    · rw [hnew] at ht
      cases ht
      exact off_of_asked ha
  · intro k e r f receipt db₁ y he hasks hr ha hy
    rw [hprocess] at he
    rcases hreplies k with hsame | hnew
    · exact h.replies k e r f receipt db₁ y he hasks (hsame ▸ hr) ha hy
    · rw [hnew] at hr
      cases hr
      have hreads := h.reads k e he
      rw [hasks] at hreads
      exact off_of_told ha (hreads () trivial).1 hy

end Honest

/-! ### The deployment -/

namespace Deployment

variable {d d' : Deployment} {x : Happening}

lemma length_of_step (hs : d.step x = some d') : d.members.length ≤ d'.members.length := by
  cases x with
  | client k =>
    simp only [Deployment.step] at hs
    split at hs
    · cases hs
      simp
    · cases hs
  | beat | node =>
    cases hs
    simp
  | beatMove | nodeMove =>
    simp only [Deployment.step] at hs
    split at hs
    · obtain ⟨_, -, rfl⟩ := Option.map_eq_some_iff.1 hs
      simp
    · cases hs
  | call =>
    obtain ⟨_, -, hs⟩ := Option.bind_eq_some_iff.1 hs
    obtain ⟨_, -, hs⟩ := Option.bind_eq_some_iff.1 hs
    cases hs
    simp
  | kill =>
    simp only [Deployment.step] at hs
    split at hs
    · cases hs
      simp
    · cases hs

lemma sound_of_reached (h : d.Reached) {n : Node} (hn : .node n ∈ d.members) : n.Sound := by
  obtain ⟨p, -, hcarried⟩ := carried_of_reached h
  exact hcarried.sound n hn

lemma off_of_step (h : d.Reached) (hx : d.NewIds x) (hs : d.step x = some d') {j : ℕ}
    (hj : JobOff j d.db) : JobOff j d'.db := by
  obtain ⟨p, -, hcarried⟩ := carried_of_reached h
  obtain ⟨p', hrun, hcarried'⟩ := hcarried.step hx hs
  rw [← hcarried.shared] at hj
  rw [← hcarried'.shared]
  exact hrun.stays (P := JobOff j) JobOff.exec hj

lemma honest_of_reached (h : d.Reached) : ∀ n, .node n ∈ d.members → n.Honest d.db := by
  induction h with
  | refl => exact fun n hn => by cases hn
  | @tail d₁ d' hrun hstep ih =>
    obtain ⟨x, hx, hs⟩ := hstep
    intro n' hn'
    obtain ⟨i, hi⟩ := List.getElem?_of_mem hn'
    rcases node_of_step hs hi with ⟨-, w, c, rfl⟩ | hwas | ⟨n, m, hn, hm, hdb⟩ | ⟨n, slot, a, hn, hcall⟩
    · exact .init w c
    · exact (ih n' (List.mem_of_getElem? hwas)).later fun j => off_of_step hrun hx hs
    · rw [hdb]
      exact (ih n (List.mem_of_getElem? hn)).move (sound_of_reached hrun (List.mem_of_getElem? hn)) hm
    · exact ((ih n (List.mem_of_getElem? hn)).call hcall).later fun j => off_of_step hrun hx hs

/-- **No task is told wrongly that its job is cancelled**: where the flag of a context is set, or the
worker gives a run up for its job, that job is cancelled, and it has not come to life again. -/
theorem flags_sound (h : d.Reached) {n : Node} (hn : .node n ∈ d.members) {k : ℕ} {e : Execution}
    (he : n.process.executions[k]? = some e) (hflag : e.cancelled = true) :
    ∀ job, d.db.jobs.get? e.jobId = some job → job.status = .cancelled :=
  ((honest_of_reached h n hn).flags k e he hflag).2

/-- A client cancels the job whose run is executed, and the heartbeat loop begins a pass: it asks. -/
def asking : List Happening :=
  working ++ [.client (.cancel 0), .call 2 .main (committed 2), .nodeMove 1 .heartbeat]

/-- It is told that the job is cancelled, and takes that. -/
def telling : List Happening := [.call 1 .heartbeat (committed 2), .nodeMove 1 .beaten]

/-- A worker process whose first execution has its flag set. -/
def flagged : Member → Bool
  | .node n =>
    n.process.heartbeat = .loop ∧ n.process.executions[0]?.any fun e => e.cancelled ∧ e.jobId = 0
  | .client _ | .beat _ | .gone => false

theorem flags_sound_told : ∃ (d : Deployment) (n : Node) (e : Execution) (job : JobRow), d.Reached ∧
    .node n ∈ d.members ∧ n.process.executions[0]? = some e ∧ e.cancelled = true ∧
    d.db.jobs.get? e.jobId = some job ∧ job.status = .cancelled := by
  have hall : ((play {} (asking ++ telling)).any fun d =>
      (d.db.jobs.get? 0).isSome && d.members[1]?.any flagged) = true := by decide
  obtain ⟨d, hd, hstate⟩ := (Option.any_eq_true _ _).1 hall
  obtain ⟨hjob, hmember⟩ := Bool.and_eq_true_iff.1 hstate
  obtain ⟨job, hjob⟩ := Option.isSome_iff_exists.1 hjob
  obtain ⟨m, hm, hflagged⟩ := (Option.any_eq_true _ _).1 hmember
  cases m with
  | node n =>
    obtain ⟨-, hexec⟩ := of_decide_eq_true hflagged
    obtain ⟨e, he, hflag⟩ := (Option.any_eq_true _ _).1 hexec
    obtain ⟨hflag, hj⟩ := of_decide_eq_true hflag
    have hd := reached_of_play .refl hd
    have hmem : .node n ∈ d.members := List.mem_of_getElem? hm
    exact ⟨d, n, e, job, hd, hmem, he, hflag, hj ▸ hjob, flags_sound hd hmem he hflag job (hj ▸ hjob)⟩
  | client | beat | gone => cases hflagged

/-! #### A pass that comes to a cancelled job -/

def KeepsJob (j : ℕ) (d d' : Deployment) : Prop := Steps d d' ∧ (d'.db.jobs.get? j).isSome

/-- The execution of an entry has its flag set, or it will: what the heartbeat loop is told about it, if
it already is, is not that the job is alive. -/
def Heard (n : Node) (x : Entry) : Prop :=
  n.process.heartbeat = .ended ∨
    (∃ e, n.process.executions[x.exec]? = some e ∧ e.jobId = x.jobId ∧ e.cancelled = true) ∨
    x ∈ n.process.heartbeat.todo ∧ ∀ rest receipt db, n.process.heartbeat = .asking x rest →
      n.told = some receipt →
        answer receipt.db (.db (.isJobCancelled x.jobId)) receipt.ans ≠ some (db, .ok false)

lemma Heard.move {n n' : Node} {m : NodeMove} {x : Entry} (h : Heard n x) (hn : n.Sound)
    {db : DB} (hhonest : n.Honest db) (hm : n.move m = some n') : Heard n' x := by
  obtain ⟨-, -, m', hstep⟩ := process_of_move hm
  have hbeat := Process.beat hstep
  rcases h with hended | ⟨e, he, hjob, hflag⟩ | ⟨hmem, htold⟩
  · exact .inl (hbeat.ended hended)
  · obtain ⟨e', he', hjob', hflag'⟩ := (turn_of_move hm x.exec).kept he
    exact .inr (.inl ⟨e', he', hjob'.trans hjob, hflag' hflag⟩)
  have hwaits : x ∈ n'.process.heartbeat.todo → Heard n' x := by
    refine fun hmem' => .inr (.inr ⟨hmem', fun rest receipt db hb ht => ?_⟩)
    obtain ⟨hsame, hsame'⟩ := told_of_move hn hm (Option.isSome_of_eq_some ht)
    exact htold rest receipt db (hsame' ▸ hb) (hsame ▸ ht)
  rcases hbeat.todo hmem with hended | hmem' | ⟨rest, hasking⟩
  · exact .inl hended
  · exact hwaits hmem'
  rcases asked_of_move hm hasking with hsame | hended | ⟨receipt, db', b, ht, ha, hflag⟩
  · exact hwaits (hsame ▸ List.mem_cons_self)
  · exact .inl hended
  · cases b with
    | false => exact absurd ha (htold rest receipt db' hasking ht)
    | true =>
      obtain ⟨e, he, hjob⟩ := hhonest.entries x (.inr hmem)
      rw [he] at hflag
      exact .inr (.inl ⟨_, hflag rfl, hjob, rfl⟩)

lemma Heard.call {n n' : Node} {db db' : DB} {a : Answer} {slot : Slot} {x : Entry} (h : Heard n x)
    (hcan : db.isJobCancelled x.jobId = true) (hc : n.call db a slot = some (db', n')) :
    Heard n' x := by
  obtain ⟨-, -, hprocess⟩ := process_of_call hc
  unfold Heard at h ⊢
  rw [hprocess]
  refine h.imp_right (Or.imp_right fun h => ⟨h.1, fun rest receipt db₁ hb ht ha => ?_⟩)
  rcases (told_of_call hc).1 with hsame | ⟨hnew, -⟩
  · exact h.2 rest receipt db₁ hb (hsame ▸ ht) ha
  · rw [hnew] at ht
    cases ht
    have := (asked_cancelled ha).2
    rw [hcan] at this
    cases this

/-- **A cancellation is heard**: a pass of the heartbeat still has to ask about a run whose job is
cancelled. Then, as long as nobody deletes the job, once the pass is past the run the flag of the
execution is set, whatever the other threads and members do, unless the heartbeat loop has ended. -/
theorem cancel_heard (h : d.Reached) {i : ℕ} {n n' : Node} {x : Entry}
    (hi : d.members[i]? = some (.node n)) (hx : x ∈ n.process.heartbeat.todo) (ht : n.told = none)
    (hcan : d.db.isJobCancelled x.jobId = true) (hrun : Relation.ReflTransGen (KeepsJob x.jobId) d d')
    (hi' : d'.members[i]? = some (.node n')) (hpast : x ∉ n'.process.heartbeat.todo) :
    n'.process.heartbeat = .ended ∨
      ∃ e, n'.process.executions[x.exec]? = some e ∧ e.jobId = x.jobId ∧ e.cancelled = true := by
  have hinv : d'.Reached ∧ d'.db.isJobCancelled x.jobId = true ∧
      i < d'.members.length ∧ ∀ n', d'.members[i]? = some (.node n') → Heard n' x := by
    clear hi' hpast n'
    induction hrun with
    | refl =>
      refine ⟨h, hcan, (List.getElem?_eq_some_iff.1 hi).1, fun n' hi' => ?_⟩
      rw [hi] at hi'
      cases hi'
      refine .inr (.inr ⟨hx, fun rest receipt db hb hsome => ?_⟩)
      rw [ht] at hsome
      cases hsome
    | @tail d₁ d' hrun hstep ih =>
      obtain ⟨hreached, hcan₁, hthere, hheard⟩ := ih
      obtain ⟨⟨y, hy, hs⟩, hkept⟩ := hstep
      refine ⟨hreached.tail ⟨y, hy, hs⟩, ?_, hthere.trans_le (length_of_step hs), fun n' hi' => ?_⟩
      · obtain ⟨job, hjob⟩ := Option.isSome_iff_exists.1 hkept
        obtain ⟨job₁, hjob₁, hs₁⟩ := isJobCancelled_iff.1 hcan₁
        have hoff := off_of_step hreached hy hs (jobOff_of_cancelled hjob₁ hs₁)
        exact isJobCancelled_iff.2 ⟨job, hjob, hoff.2 job hjob⟩
      · rcases node_of_step hs hi' with ⟨hnone, -⟩ | hwas | ⟨n, m, hn, hm, -⟩ | ⟨n, slot, a, hn, hcall⟩
        · exact absurd (List.getElem?_eq_none_iff.1 hnone) (Nat.not_le_of_lt hthere)
        · exact hheard n' hwas
        · have hmem := List.mem_of_getElem? hn
          exact (hheard n hn).move (sound_of_reached hreached hmem)
            (honest_of_reached hreached n hmem) hm
        · exact (hheard n hn).call hcan₁ hcall
  rcases hinv.2.2.2 n' hi' with hended | hflag | ⟨hmem, -⟩
  · exact .inl hended
  · exact .inr hflag
  · exact absurd hmem hpast

lemma keepsJob_of_play {x : Happening} {j : ℕ} (h : d.play [x] = some d')
    (hkept : (d'.db.jobs.get? j).isSome = true) : KeepsJob j d d' := by
  simp only [play] at h
  split at h
  · rename_i hx
    obtain ⟨d₁, hs, hd₁⟩ := Option.bind_eq_some_iff.1 h
    cases hd₁
    exact ⟨⟨x, hx, hs⟩, hkept⟩
  · cases h

/-- The heartbeat loop of a worker process asks about the run, and has not been told. -/
def awaiting : Member → Bool
  | .node n => n.process.heartbeat = .asking ⟨0, 0, 0⟩ [] ∧ n.told.isNone
  | .client _ | .beat _ | .gone => false

theorem cancel_heard_told : ∃ (d d' : Deployment) (n n' : Node) (x : Entry) (e : Execution),
    d.Reached ∧ d.members[1]? = some (.node n) ∧ x ∈ n.process.heartbeat.todo ∧
    d.db.isJobCancelled x.jobId = true ∧ Relation.ReflTransGen (KeepsJob x.jobId) d d' ∧
    d'.members[1]? = some (.node n') ∧ n'.process.executions[x.exec]? = some e ∧
    e.jobId = x.jobId ∧ e.cancelled = true := by
  have hall : ((play {} asking).any fun d => (d.db.isJobCancelled 0 && d.members[1]?.any awaiting) &&
      (d.play [.call 1 .heartbeat (committed 2)]).any fun d₁ => (d₁.db.jobs.get? 0).isSome &&
        (d₁.play [.nodeMove 1 .beaten]).any fun d' =>
          (d'.db.jobs.get? 0).isSome && d'.members[1]?.any flagged) = true := by decide
  obtain ⟨d, hd, hstate⟩ := (Option.any_eq_true _ _).1 hall
  obtain ⟨hasks, hstate⟩ := Bool.and_eq_true_iff.1 hstate
  obtain ⟨hcan, hmember⟩ := Bool.and_eq_true_iff.1 hasks
  obtain ⟨d₁, hd₁, hstate⟩ := (Option.any_eq_true _ _).1 hstate
  obtain ⟨hkept₁, hstate⟩ := Bool.and_eq_true_iff.1 hstate
  obtain ⟨d', hd', hstate⟩ := (Option.any_eq_true _ _).1 hstate
  obtain ⟨hkept', hmember'⟩ := Bool.and_eq_true_iff.1 hstate
  obtain ⟨m, hm, hawaits⟩ := (Option.any_eq_true _ _).1 hmember
  obtain ⟨m', hm', hflagged⟩ := (Option.any_eq_true _ _).1 hmember'
  have hrun := (Relation.ReflTransGen.single (keepsJob_of_play hd₁ hkept₁)).tail
    (keepsJob_of_play hd' hkept')
  cases m with
  | node n =>
    cases m' with
    | node n' =>
      obtain ⟨hasking, htold⟩ := of_decide_eq_true hawaits
      obtain ⟨hloop, -⟩ := of_decide_eq_true hflagged
      have hx : (⟨0, 0, 0⟩ : Entry) ∈ n.process.heartbeat.todo := by
        rw [hasking]
        exact List.mem_cons_self
      have hpast : (⟨0, 0, 0⟩ : Entry) ∉ n'.process.heartbeat.todo := by
        rw [hloop]
        exact List.not_mem_nil
      have hd := reached_of_play .refl hd
      rcases cancel_heard hd hm hx (Option.isNone_iff_eq_none.1 htold) hcan hrun hm' hpast with
        hended | ⟨e, he, hj, hflag⟩
      · rw [hloop] at hended
        cases hended
      · exact ⟨d, d', n, n', _, e, hd, hm, hx, hcan, hrun, hm', he, hj, hflag⟩
    | client | beat | gone => cases hflagged
  | client | beat | gone => cases hawaits

end Deployment

end Pyreljob
