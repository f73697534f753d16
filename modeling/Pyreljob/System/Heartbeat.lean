import Pyreljob.Model.Loop
import Pyreljob.Model.System

/-!
The heartbeat of a worker process and the executions it is there for.

The heartbeat loop can end under an execution: `_main` cancels it before it drains what is pending,
its own `while` ends once `stop()` was called, and an exception of the backend ends it for good. A
pass can also miss an execution that has not entered its run in `_active`, or whose entry was removed
by another execution of the same run. `Sound` rules out these moves and nothing else.
-/

namespace Pyreljob

open Lib

namespace Process

/-! ### `_active` -/

def Listed (runId : ℕ) (active : List Entry) : Prop := ∃ x ∈ active, x.runId = runId

lemma listed_register (x : Entry) (active : List Entry) : Listed x.runId (register x active) := by
  induction active with
  | nil => exact ⟨x, List.mem_singleton_self x, rfl⟩
  | cons y active ih =>
    unfold register
    split
    · exact ⟨x, List.mem_cons_self, rfl⟩
    · obtain ⟨z, hz, hrun⟩ := ih
      exact ⟨z, List.mem_cons_of_mem _ hz, hrun⟩

lemma Listed.register {runId : ℕ} {active : List Entry} (h : Listed runId active) (x : Entry) :
    Listed runId (register x active) := by
  induction active with
  | nil => obtain ⟨_, ⟨⟩, _⟩ := h
  | cons y active ih =>
    obtain ⟨z, hz, hrun⟩ := h
    unfold Pyreljob.register
    split
    · rcases List.mem_cons.1 hz with rfl | hz
      · exact ⟨x, List.mem_cons_self, by omega⟩
      · exact ⟨z, List.mem_cons_of_mem _ hz, hrun⟩
    · rcases List.mem_cons.1 hz with rfl | hz
      · exact ⟨z, List.mem_cons_self, hrun⟩
      · obtain ⟨z', hz', hrun'⟩ := ih ⟨z, hz, hrun⟩
        exact ⟨z', List.mem_cons_of_mem _ hz', hrun'⟩

lemma Listed.unregister {runId runId' : ℕ} {active : List Entry} (h : Listed runId active)
    (hne : runId ≠ runId') : Listed runId (unregister runId' active) := by
  obtain ⟨x, hx, hrun⟩ := h
  exact ⟨x, List.mem_filter.2 ⟨hx, decide_eq_true (hrun ▸ hne)⟩, hrun⟩

/-- On its way to the next `await` the execution leaves its `try` block. -/
def leaves : Co Unit → Bool
  | .ask .enter k => leaves (k (.ok ()))
  | .ask .leave _ => true
  | .ask (.io _) _ | .ret _ => false

lemma listed_settle {x : Entry} {runId : ℕ} {co co' : Co Unit} {inside inside' : Bool}
    {active active' : List Entry} (h : settle x co inside active = (co', inside', active'))
    (hlisted : Listed runId active) (hstays : leaves co = true → runId ≠ x.runId) :
    Listed runId active' := by
  induction co generalizing inside active with
  | ret v =>
    cases h
    exact hlisted
  | ask r k ih =>
    cases r with
    | io r =>
      cases h
      exact hlisted
    | enter => exact ih _ h (hlisted.register x) hstays
    | leave => exact ih _ h (hlisted.unregister (hstays rfl)) fun _ => hstays rfl

/-- An execution has its run entered as long as it is in its `try` block, or has it lost. -/
lemma listed_inside {x : Entry} {lost : Prop} {co co' : Co Unit} {inside inside' : Bool}
    {active active' : List Entry} (h : settle x co inside active = (co', inside', active'))
    (hinside : inside = true → lost ∨ Listed x.runId active) :
    inside' = true → lost ∨ Listed x.runId active' := by
  induction co generalizing inside active with
  | ret v =>
    cases h
    exact hinside
  | ask r k ih =>
    cases r with
    | io r =>
      cases h
      exact hinside
    | enter => exact ih _ h fun _ => .inr (listed_register x active)
    | leave => exact ih _ h fun hin => by cases hin

/-! ### The moves that are ruled out -/

def Idle (s : Process) : Prop := ∀ e ∈ s.executions, e.unfinished = false

instance (s : Process) : Decidable s.Idle := inferInstanceAs (Decidable (∀ e ∈ s.executions, _))

end Process

/-- Its lease was lost, or its job cancelled. -/
def Execution.exempt (e : Execution) : Bool := e.lost || e.cancelled

namespace Process

/-- No execution but `k` is in its `try` block with the lease of this run. -/
def Alone (s : Process) (k runId : ℕ) : Prop :=
  ∀ k' < s.executions.length, k' ≠ k →
    (s.executions[k']?).all fun e => e.runId ≠ runId || !e.inside || e.lost

instance (s : Process) (k runId : ℕ) : Decidable (s.Alone k runId) :=
  inferInstanceAs (Decidable (∀ k' < s.executions.length, _))

/-- **The heartbeat is left alone.** After `stop()` neither loop comes round to its `while` while an
execution is unfinished, and a claim still under way gets no run once the heartbeat loop has ended;
no call of a pass raises, but for a process that has stopped and has nothing left to execute. A pass
begins when every unfinished execution is in its `try` block, and a run is removed from `_active`
when no other execution of it is in its own. -/
def Sound (s : Process) : Move → Prop
  | .stop => True
  | .main => s.main = .loop → s.running = false → s.Idle
  | .claim (.ok (some _)) => s.running = true ∨ s.heartbeat ≠ .ended
  | .claim (.ok none) | .claim (.error _) => True
  | .heartbeat =>
    if s.heartbeat = .sleeping then
      ∀ e ∈ s.executions, e.unfinished = true → e.inside = true ∨ e.exempt = true
    else s.running = false → s.Idle
  | .isJobCancelled (.ok _) | .renewLease (.ok true) => True
  | .renewLease (.ok false) =>
    match s.heartbeat with
    | .renewing x _ => s.Alone x.exec x.runId
    | _ => True
  | .isJobCancelled (.error _) | .renewLease (.error _) => s.running = false ∧ s.Idle
  | .execution k db a =>
    (s.executions[k]?).all fun e => (answered db a e.co).all fun x =>
      !leaves x.1 || decide (s.Alone k e.runId)

instance (s : Process) : DecidablePred s.Sound
  | .stop | .claim (.ok none) | .claim (.error _) | .isJobCancelled (.ok _)
  | .renewLease (.ok true) => .isTrue trivial
  | .main => inferInstanceAs (Decidable (s.main = .loop → s.running = false → s.Idle))
  | .claim (.ok (some _)) =>
    inferInstanceAs (Decidable (s.running = true ∨ s.heartbeat ≠ .ended))
  | .heartbeat => inferInstanceAs (Decidable (if s.heartbeat = .sleeping then
      ∀ e ∈ s.executions, e.unfinished = true → e.inside = true ∨ e.exempt = true
    else s.running = false → s.Idle))
  | .renewLease (.ok false) =>
    match h : s.heartbeat with
    | .renewing x _ => decidable_of_iff (s.Alone x.exec x.runId) (by simp [Sound, h])
    | .starting | .loop | .sleeping | .asking .. | .ended => .isTrue (by simp [Sound, h])
  | .isJobCancelled (.error _) | .renewLease (.error _) =>
    inferInstanceAs (Decidable (s.running = false ∧ s.Idle))
  | .execution k db a => inferInstanceAs (Decidable (Option.all (fun e : Execution =>
      (answered db a e.co).all fun x => !leaves x.1 || decide (s.Alone k e.runId))
        s.executions[k]? = true))

/-! ### What a step does to the executions -/

section Steps

variable {w : Worker} {maxConcurrency : ℤ} {s s' : Process} {m : Move}

lemma step_some (h : s.step w maxConcurrency m = some s') :
    s.allows m ∧ s.move w maxConcurrency m = some s' := by
  unfold step at h
  split at h
  · exact ⟨‹_›, h⟩
  · cases h

/-- How a state differs from the one before, as far as the executions are concerned. -/
inductive Change (w : Worker) (s s' : Process) : Prop
  /-- Nothing has changed about the executions and what is listed of them. -/
  | none (executions : s'.executions = s.executions) (active : s'.active = s.active)
  /-- A run was dispatched. -/
  | dispatched (run : RunRow) (executions : s'.executions = s.executions ++
      [{ runId := run.id, jobId := run.jobId, co := w.coExecute run }])
      (active : s'.active = s.active)
  /-- An execution was told that the job is cancelled. -/
  | told (k : ℕ) (executions : s'.executions = s.executions.modify k fun e =>
      { e with cancelled := true }) (active : s'.active = s.active)
  /-- An execution has lost its lease. -/
  | lost (x : Entry) (alone : s.Alone x.exec x.runId) (executions : s'.executions =
      s.executions.modify x.exec fun e => { e with lost := true })
      (active : s'.active = unregister x.runId s.active)
  /-- An execution went on. -/
  | went (k : ℕ) (e : Execution) (co co' : Co Unit) (told inside : Bool)
      (was : s.executions[k]? = some e) (waited : e.unfinished = true)
      (alone : leaves co = true → s.Alone k e.runId)
      (settled : settle ⟨e.runId, e.jobId, k⟩ co e.inside s.active = (co', inside, s'.active))
      (executions : s'.executions = s.executions.set k
        { e with co := co', inside := inside, cancelled := e.cancelled || told })

lemma unfinished_of_answered {db : DB} {a : Answer} {co : Co Unit} {x : Co Unit × Bool}
    (h : answered db a co = some x) : co.waiting = true := by
  cases co with
  | ret v => cases h
  | ask r k => rfl

/-- The main loop leaves its `while` when the process has stopped; otherwise it goes on by itself. -/
lemma onMain_some (h : s.onMain maxConcurrency = some s') :
    (s.main = .loop ∧ s.running = false ∧ s' = s.wind) ∨
      s'.running = s.running ∧ s'.heartbeat = s.heartbeat ∧ s'.active = s.active ∧
        s'.executions = s.executions := by
  unfold onMain at h
  split at h
  · rename_i hmain
    split at h <;> cases h
    · exact .inr ⟨rfl, rfl, rfl, rfl⟩
    · rename_i hrunning
      exact .inl ⟨hmain, Bool.eq_false_of_not_eq_true hrunning, rfl⟩
  · split at h <;> cases h <;> exact .inr ⟨rfl, rfl, rfl, rfl⟩
  · cases h
  · cases h
    exact .inr ⟨rfl, rfl, rfl, rfl⟩
  · cases h
    exact .inr ⟨rfl, rfl, rfl, rfl⟩
  · cases h
    exact .inr ⟨rfl, rfl, rfl, rfl⟩
  · split at h
    · cases h
    · cases h
      exact .inr ⟨rfl, rfl, rfl, rfl⟩
  · cases h

/-- An execution goes on if it has not finished and its request is answered. -/
lemma onExecution_some {k : ℕ} {db : DB} {a : Answer} (h : s.onExecution k db a = some s') :
    ∃ e x, s.executions[k]? = some e ∧ answered db a e.co = some x ∧
      let settled := settle ⟨e.runId, e.jobId, k⟩ x.1 e.inside s.active
      s' = { s with
        active := settled.2.2
        executions := s.executions.set k { e with
          co := settled.1, inside := settled.2.1, cancelled := e.cancelled || x.2 } } := by
  unfold onExecution at h
  cases he : s.executions[k]? with
  | none => simp [he] at h
  | some e =>
    cases hans : answered db a e.co with
    | none => simp [he, hans] at h
    | some x =>
      simp only [he, hans, Option.bind_eq_bind, Option.bind_some, Option.some.injEq] at h
      exact ⟨e, x, rfl, hans, h.symm⟩

lemma onExecution_change {k : ℕ} {db : DB} {a : Answer} (h : s.onExecution k db a = some s')
    (hC : s.Sound (.execution k db a)) : Change w s s' := by
  obtain ⟨e, x, he, hans, rfl⟩ := onExecution_some h
  simp only [Sound, he, hans, Option.all_some, Bool.or_eq_true, Bool.not_eq_true',
    decide_eq_true_eq] at hC
  refine .went k e x.1 _ x.2 _ he (unfinished_of_answered hans) (fun hl => ?_) rfl rfl
  exact hC.resolve_left (by simp [hl])

/-- **Every step** of a sound process changes the executions in one of these ways. -/
theorem change (h : s.step w maxConcurrency m = some s') (hC : s.Sound m) : Change w s s' := by
  obtain ⟨_, h⟩ := step_some h
  cases m with
  | stop =>
    cases h
    exact .none rfl rfl
  | main =>
    rcases onMain_some h with ⟨_, _, rfl⟩ | ⟨_, _, active, executions⟩
    · exact .none rfl rfl
    · exact .none executions active
  | claim reply =>
    simp only [move] at h
    split at h
    · cases h
      match reply with
      | .ok (some run) => exact .dispatched run rfl rfl
      | .ok none | .error _ => exact .none rfl rfl
    · cases h
  | heartbeat =>
    simp only [move, onHeartbeat] at h
    split at h <;> cases h <;> exact .none rfl rfl
  | isJobCancelled reply =>
    simp only [move] at h
    split at h
    · rename_i x rest hx
      cases h
      match reply with
      | .ok true => exact .told x.exec rfl rfl
      | .ok false | .error _ => exact .none rfl rfl
    · cases h
  | renewLease reply =>
    simp only [move] at h
    split at h
    · rename_i x rest hx
      cases h
      match reply with
      | .ok false =>
        simp only [Sound, hx] at hC
        exact .lost x hC rfl rfl
      | .ok true | .error _ => exact .none rfl rfl
    · cases h
  | execution k db a => exact onExecution_change h hC

/-! ### What holds throughout -/

/-- An execution in its `try` block has its run in `_active`, unless its lease was lost. -/
def Entered (s : Process) : Prop :=
  ∀ (k : ℕ) (e : Execution), s.executions[k]? = some e → e.inside = true →
    e.lost = true ∨ Listed e.runId s.active

/-- The heartbeat loop runs, or nothing is left for it to do and nothing will be. -/
def Beats (s : Process) : Prop := s.heartbeat = .ended → s.running = false ∧ s.Idle

/-- Where an execution of the run is in its `try` block, another one is not. -/
lemma Alone.lost {k k' : ℕ} {runId : ℕ} {e : Execution} (h : s.Alone k runId)
    (he : s.executions[k']? = some e) (hne : k' ≠ k) (hrun : e.runId = runId)
    (hin : e.inside = true) : e.lost = true := by
  have := h k' (List.getElem?_eq_some_iff.1 he).1 hne
  simpa [he, hrun, hin] using this

/-- **`_active` is kept**: what a step removes from it is not an entry that is still needed. -/
theorem Entered.change (hs : s.Entered) (h : Change w s s') : s'.Entered := by
  intro k e he hin
  cases h with
  | none executions active =>
    rw [active]
    exact hs k e (executions ▸ he) hin
  | dispatched run executions active =>
    rw [executions, List.getElem?_append] at he
    rw [active]
    split at he
    · exact hs k e he hin
    · rw [List.getElem?_singleton] at he
      split at he <;> cases he
      cases hin
  | told k' executions active =>
    rw [executions, List.getElem?_modify] at he
    rw [active]
    obtain ⟨e₀, he₀, rfl⟩ := Option.map_eq_some_iff.1 he
    split at hin <;> split <;> exact hs k e₀ he₀ hin
  | lost x alone executions active =>
    rw [executions, List.getElem?_modify] at he
    rw [active]
    obtain ⟨e₀, he₀, rfl⟩ := Option.map_eq_some_iff.1 he
    by_cases hk : x.exec = k
    · exact .inl (by simp [hk])
    · simp only [hk, if_false] at hin ⊢
      rcases hs k e₀ he₀ hin with hlost | hmem
      · exact .inl hlost
      · by_cases hrun : e₀.runId = x.runId
        · exact .inl (alone.lost he₀ (Ne.symm hk) hrun hin)
        · exact .inr (hmem.unregister hrun)
  | went k' e' co co' told inside was waited alone settled executions =>
    rw [executions, List.getElem?_set] at he
    split at he
    · rename_i hk
      subst hk
      split at he <;> cases he
      exact listed_inside settled (hs k' e' was) hin
    · rename_i hk
      rcases hs k e he hin with hlost | hmem
      · exact .inl hlost
      · by_cases hl : leaves co = true ∧ e.runId = e'.runId
        · exact .inl ((alone hl.1).lost he (Ne.symm hk) hl.2 hin)
        · exact .inr (listed_settle settled hmem fun hleaves hrun => hl ⟨hleaves, hrun⟩)

/-- An execution that goes on had not finished, and the two loops stay where they are. -/
lemma onExecution_frame {k : ℕ} {db : DB} {a : Answer} (h : s.onExecution k db a = some s') :
    s'.running = s.running ∧ s'.heartbeat = s.heartbeat ∧
      ∃ e ∈ s.executions, e.unfinished = true := by
  obtain ⟨e, x, he, hans, rfl⟩ := onExecution_some h
  exact ⟨rfl, rfl, e, List.mem_of_getElem? he, unfinished_of_answered hans⟩

lemma visit_ne_ended (l : List Entry) : Heartbeat.visit l ≠ .ended := by
  cases l <;> rintro ⟨⟩

/-- The heartbeat loop leaves its `while` when the process has stopped. -/
lemma stopped_of_turn {running : Bool}
    (h : (if running = true then Heartbeat.sleeping else .ended) = .ended) : running = false := by
  cases running with
  | true => cases h
  | false => rfl

/-- **The heartbeat is kept**: it ends only in an idle process that has stopped. -/
theorem Beats.step (hs : s.Beats) (h : s.step w maxConcurrency m = some s') (hC : s.Sound m) :
    s'.Beats := by
  intro hended
  obtain ⟨_, h⟩ := step_some h
  cases m with
  | stop =>
    cases h
    exact ⟨rfl, (hs hended).2⟩
  | main =>
    rcases onMain_some h with ⟨hmain, hstopped, rfl⟩ | ⟨hrunning, hbeats, _, hexecutions⟩
    · exact ⟨rfl, hC hmain hstopped⟩
    · obtain ⟨hstopped, hidle⟩ := hs (hbeats ▸ hended)
      exact ⟨hrunning.trans hstopped, fun e he => hidle e (hexecutions ▸ he)⟩
  | claim reply =>
    simp only [move] at h
    split at h
    · cases h
      match reply with
      | .ok (some run) =>
        have hstopped := (hs hended).1
        rcases hC with hrunning | hbeats
        · rw [hstopped] at hrunning
          cases hrunning
        · exact absurd hended hbeats
      | .ok none | .error _ => exact hs hended
    · cases h
  | heartbeat =>
    simp only [move, onHeartbeat] at h
    have hidle : s.heartbeat ≠ .sleeping → s.running = false → s.Idle := by
      intro hne
      simpa [Sound, hne] using hC
    split at h
    · rename_i hb
      cases h
      have hstopped := stopped_of_turn hended
      exact ⟨hstopped, hidle (by simp [hb]) hstopped⟩
    · rename_i hb
      cases h
      have hstopped := stopped_of_turn hended
      exact ⟨hstopped, hidle (by simp [hb]) hstopped⟩
    · cases h
      exact absurd hended (visit_ne_ended _)
    · cases h
    · cases h
    · cases h
  | isJobCancelled reply =>
    simp only [move] at h
    split at h
    · cases h
      match reply with
      | .ok true => exact absurd hended (visit_ne_ended _)
      | .ok false => cases hended
      | .error _ => exact hC
    · cases h
  | renewLease reply =>
    simp only [move] at h
    split at h
    · cases h
      match reply with
      | .ok true | .ok false => exact absurd hended (visit_ne_ended _)
      | .error _ => exact hC
    · cases h
  | execution k db a =>
    obtain ⟨hrunning, hbeats, e, he, hun⟩ := onExecution_frame h
    have hidle := (hs (hbeats ▸ hended)).2 e he
    rw [hun] at hidle
    cases hidle

end Steps

/-! ### Runs -/

section Runs

variable {w : Worker} {maxConcurrency : ℤ} {s s' : Process}

/-- In every state of a sound run the heartbeat loop runs or is not needed, and the executions that
are in their `try` blocks are in `_active`. -/
theorem guarded_of_reached (h : Reached w maxConcurrency Sound s) : s.Beats ∧ s.Entered := by
  induction h with
  | refl => exact ⟨by rintro ⟨⟩, fun k e he => by simp at he⟩
  | tail _ hstep ih =>
    obtain ⟨m, hC, hm⟩ := hstep
    exact ⟨ih.1.step hm hC, ih.2.change (change hm hC)⟩

/-- The number of an execution stays its own: it is always about the same run. -/
lemma runId_kept (h : Run w maxConcurrency Sound s s') {k : ℕ} {e : Execution}
    (he : s.executions[k]? = some e) : ∃ e', s'.executions[k]? = some e' ∧ e'.runId = e.runId := by
  induction h with
  | refl => exact ⟨e, he, rfl⟩
  | tail _ hstep ih =>
    obtain ⟨e', he', hrun⟩ := ih
    obtain ⟨m, hC, hm⟩ := hstep
    rw [← hrun]
    cases change hm hC with
    | none executions active => exact ⟨e', executions ▸ he', rfl⟩
    | dispatched run executions active =>
      have hlt := (List.getElem?_eq_some_iff.1 he').1
      exact ⟨e', by rw [executions, List.getElem?_append_left hlt, he'], rfl⟩
    | told k' executions active =>
      refine ⟨_, by rw [executions, List.getElem?_modify, he']; rfl, ?_⟩
      split <;> rfl
    | lost x alone executions active =>
      refine ⟨_, by rw [executions, List.getElem?_modify, he']; rfl, ?_⟩
      split <;> rfl
    | went k' e₀ co co' told inside was waited alone settled executions =>
      by_cases hk : k' = k
      · subst hk
        obtain rfl : e₀ = e' := Option.some.inj (was.symm.trans he')
        have hlt := (List.getElem?_eq_some_iff.1 he').1
        rw [executions, List.getElem?_set_self hlt]
        exact ⟨_, rfl, rfl⟩
      · exact ⟨e', by rw [executions, List.getElem?_set_ne hk, he'], rfl⟩

/-- How the heartbeat loop gets from one place to another. -/
inductive Beat (active : List Entry) : Heartbeat → Heartbeat → Prop
  | still (b : Heartbeat) : Beat active b b
  | ends (b : Heartbeat) : Beat active b .ended
  | starts : Beat active .starting .sleeping
  | loops : Beat active .loop .sleeping
  | begins : Beat active .sleeping (.visit active)
  | asked (x : Entry) (rest : List Entry) : Beat active (.asking x rest) (.renewing x rest)
  | cancelled (x : Entry) (rest : List Entry) : Beat active (.asking x rest) (.visit rest)
  | renewed (x : Entry) (rest : List Entry) : Beat active (.renewing x rest) (.visit rest)

/-- **What a step does to the heartbeat loop.** -/
theorem beat {m : Move} (h : s.step w maxConcurrency m = some s') :
    Beat s.active s.heartbeat s'.heartbeat := by
  obtain ⟨_, h⟩ := step_some h
  cases m with
  | stop =>
    cases h
    exact .still _
  | main =>
    rcases onMain_some h with ⟨_, _, rfl⟩ | ⟨_, hbeats, _, _⟩
    · exact .ends _
    · exact hbeats ▸ .still _
  | claim reply =>
    simp only [move] at h
    split at h
    · cases h
      match reply with
      | .ok (some run) | .ok none | .error _ => exact .still _
    · cases h
  | heartbeat =>
    simp only [move, onHeartbeat] at h
    split at h
    · rename_i hb
      cases h
      dsimp only
      rw [hb]
      split
      · exact .starts
      · exact .ends _
    · rename_i hb
      cases h
      dsimp only
      rw [hb]
      split
      · exact .loops
      · exact .ends _
    · rename_i hb
      cases h
      dsimp only
      rw [hb]
      exact .begins
    · cases h
    · cases h
    · cases h
  | isJobCancelled reply =>
    simp only [move] at h
    split at h
    · rename_i x rest hb
      cases h
      rw [hb]
      match reply with
      | .ok true => exact .cancelled x rest
      | .ok false => exact .asked x rest
      | .error _ => exact .ends _
    · cases h
  | renewLease reply =>
    simp only [move] at h
    split at h
    · rename_i x rest hb
      cases h
      rw [hb]
      match reply with
      | .ok true | .ok false => exact .renewed x rest
      | .error _ => exact .ends _
    · cases h
  | execution k db a =>
    rw [(onExecution_frame h).2.1]
    exact .still _

/-- The heartbeat loop visits the run: it asks whether the job is cancelled. -/
def Visits (s : Process) (runId : ℕ) : Prop :=
  ∃ x rest, s.heartbeat = .asking x rest ∧ x.runId = runId

lemma Beat.ended {active : List Entry} {b b' : Heartbeat} (h : Beat active b b') (hb : b = .ended) :
    b' = .ended := by
  cases h <;> first | exact hb | rfl | cases hb

/-- An entry that is left of a pass is being visited, or is left for later, or the heartbeat loop
ends. -/
lemma Beat.todo {active : List Entry} {b b' : Heartbeat} (h : Beat active b b') {x : Entry}
    (hx : x ∈ b.todo) : b' = .ended ∨ x ∈ b'.todo ∨ ∃ rest, b = .asking x rest := by
  cases h with
  | still => exact .inr (.inl hx)
  | ends => exact .inl rfl
  | starts | loops | begins => cases hx
  | asked y rest =>
    rcases List.mem_cons.1 hx with rfl | hx
    · exact .inr (.inr ⟨rest, rfl⟩)
    · exact .inr (.inl hx)
  | cancelled y rest =>
    rcases List.mem_cons.1 hx with rfl | hx
    · exact .inr (.inr ⟨rest, rfl⟩)
    · exact .inr (.inl (by simpa using hx))
  | renewed y rest =>
    rw [Heartbeat.todo_visit]
    exact .inr (.inl hx)

/-- **A pass visits every run** it was begun with, once it comes to its end. -/
theorem visited_of_todo (h : Run w maxConcurrency Sound s s') {x : Entry} (hx : x ∈ s.heartbeat.todo) :
    s'.heartbeat = .ended ∨ x ∈ s'.heartbeat.todo ∨ ∃ s₀, Run w maxConcurrency Sound s s₀ ∧
      Run w maxConcurrency Sound s₀ s' ∧ s₀.Visits x.runId := by
  induction h with
  | refl => exact .inr (.inl hx)
  | tail hrun hstep ih =>
    obtain ⟨m, hC, hm⟩ := hstep
    rcases ih with hended | hmem | ⟨s₀, hbefore, hafter, hvisit⟩
    · exact .inl ((beat hm).ended hended)
    · rcases (beat hm).todo hmem with hended | hmem | ⟨rest, hasking⟩
      · exact .inl hended
      · exact .inr (.inl hmem)
      · exact .inr (.inr ⟨_, hrun, .single ⟨m, hC, hm⟩, x, rest, hasking, rfl⟩)
    · exact .inr (.inr ⟨s₀, hbefore, hafter.tail ⟨m, hC, hm⟩, hvisit⟩)

/-- The next pass visits the execution: whenever a pass begins while it has not finished, and neither
lost its lease nor had its job cancelled, the run is visited before the pass is over. -/
def NextPassVisits (w : Worker) (maxConcurrency : ℤ) (C : Process → Move → Prop) (s : Process)
    (k runId : ℕ) : Prop :=
  ∀ s₁ s₂ s₃, Run w maxConcurrency C s s₁ → (∃ e, s₁.executions[k]? = some e ∧
      e.unfinished = true ∧ e.exempt = false) →
    s₁.heartbeat = .sleeping → C s₁ .heartbeat → s₁.step w maxConcurrency .heartbeat = some s₂ →
    Run w maxConcurrency C s₂ s₃ → s₃.heartbeat = .loop ∨ s₃.heartbeat = .sleeping →
    ∃ s₀, Run w maxConcurrency C s₂ s₀ ∧ Run w maxConcurrency C s₀ s₃ ∧ s₀.Visits runId

/-- **The heartbeat outlives every execution** of a sound process: as long as one has not finished,
the heartbeat loop has not ended, and its next pass visits the run. -/
theorem heartbeat_outlives (h : Reached w maxConcurrency Sound s) {k : ℕ} {e : Execution}
    (he : s.executions[k]? = some e) (hun : e.unfinished = true) :
    s.heartbeat ≠ .ended ∧ NextPassVisits w maxConcurrency Sound s k e.runId := by
  constructor
  · intro hended
    have hidle := ((guarded_of_reached h).1 hended).2 e (List.mem_of_getElem? he)
    rw [hun] at hidle
    cases hidle
  · rintro s₁ s₂ s₃ hrun ⟨e₁, he₁, hun₁, hexempt⟩ hsleeping hC hstep hpass hover
    obtain ⟨e₁', he₁', hrunId⟩ := runId_kept hrun he
    obtain rfl : e₁' = e₁ := Option.some.inj (he₁'.symm.trans he₁)
    have hentered := (guarded_of_reached (h.trans hrun)).2
    have hinside : e₁'.inside = true := by
      simp only [Sound, hsleeping, if_true] at hC
      exact (hC e₁' (List.mem_of_getElem? he₁) hun₁).resolve_right (by simp [hexempt])
    have hlost : e₁'.lost = false := by
      simp only [Execution.exempt, Bool.or_eq_false_iff] at hexempt
      exact hexempt.1
    obtain ⟨x, hx, hxrun⟩ := (hentered k e₁' he₁ hinside).resolve_left (by simp [hlost])
    have hbegun : x ∈ s₂.heartbeat.todo := by
      obtain ⟨_, hmove⟩ := step_some hstep
      simp only [move, onHeartbeat, hsleeping, Option.some.injEq] at hmove
      subst hmove
      simpa using hx
    rw [← hrunId, ← hxrun]
    rcases visited_of_todo hpass hbegun with hended | hmem | hvisited
    · rw [hended] at hover
      rcases hover with hover | hover <;> cases hover
    · rcases hover with hover | hover <;> simp [Heartbeat.todo, hover] at hmem
    · exact hvisited

end Runs

/-! ### The coroutines as programs of the system -/

section Programs

variable {w : Worker} {maxConcurrency : ℤ} {s s' : Process}

lemma erase_settle (x : Entry) (co : Co Unit) (inside : Bool) (active : List Entry) :
    (settle x co inside active).1.erase = co.erase := by
  induction co generalizing inside active with
  | ret v => rfl
  | ask r k ih =>
    cases r with
    | io r => rfl
    | enter => exact ih _ true _
    | leave => exact ih _ false _

/-- **An execution goes on as the program of a worker does**: `_active` apart, it asks one request of
that program and goes on with the reply. -/
theorem execution_simulates {k : ℕ} {db : DB} {a : Answer} (h : s.onExecution k db a = some s') :
    ∃ e e' r f db' y, s.executions[k]? = some e ∧ s'.executions[k]? = some e' ∧
      e.co.erase = .ask r f ∧ answer db r a = some (db', y) ∧ e'.co.erase = f y := by
  obtain ⟨e, x, he, hans, rfl⟩ := onExecution_some h
  have hlt := (List.getElem?_eq_some_iff.1 he).1
  obtain ⟨runId, jobId, co, inside, cancelled, lost⟩ := e
  cases co with
  | ret v => cases hans
  | ask r f =>
    cases r with
    | enter | leave => cases hans
    | io r =>
      obtain ⟨⟨db', y⟩, hanswer, rfl⟩ := Option.map_eq_some_iff.1 hans
      exact ⟨_, _, r, fun y => Co.erase (f y), db', y, he, List.getElem?_set_self hlt, rfl, hanswer,
        erase_settle _ _ _ _⟩

/-- The run and the job of an entry. -/
def key (x : Entry) : ℕ × ℕ := (x.runId, x.jobId)

def pass (w : Worker) : Heartbeat → Io Unit
  | .asking x rest => w.heartbeat ((x :: rest).map key)
  | .renewing x rest => do
    let _ ← query (.renewLease x.runId w.workerId)
    w.heartbeat (rest.map key)
  | .starting | .loop | .sleeping | .ended => pure ()

@[simp] lemma pass_visit (l : List Entry) : pass w (.visit l) = w.heartbeat (l.map key) := by
  cases l <;> rfl

/-- A pass begins as the program of a heartbeat over all that is active. -/
theorem pass_begins (hb : s.heartbeat = .sleeping)
    (h : s.step w maxConcurrency .heartbeat = some s') :
    pass w s'.heartbeat = w.heartbeat (s.active.map key) := by
  obtain ⟨_, h⟩ := step_some h
  simp only [move, onHeartbeat, hb, Option.some.injEq] at h
  subst h
  exact pass_visit _

/-- **A pass goes on as the program of a heartbeat does**, asking about a job, … -/
theorem pass_asked {x : Entry} {rest : List Entry} {told : Bool}
    (hb : s.heartbeat = .asking x rest)
    (h : s.step w maxConcurrency (.isJobCancelled (.ok told)) = some s') :
    ∃ f, pass w s.heartbeat = .ask (.db (.isJobCancelled x.jobId)) f ∧
      f (.ok told) = pass w s'.heartbeat := by
  obtain ⟨_, h⟩ := step_some h
  simp only [move, hb, Option.some.injEq] at h
  subst h
  rw [hb]
  refine ⟨_, rfl, ?_⟩
  cases told with
  | true => exact (pass_visit rest).symm
  | false => rfl

/-- … and renewing a lease. -/
theorem pass_renewed {x : Entry} {rest : List Entry} {held : Bool}
    (hb : s.heartbeat = .renewing x rest)
    (h : s.step w maxConcurrency (.renewLease (.ok held)) = some s') :
    ∃ f, pass w s.heartbeat = .ask (.db (.renewLease x.runId w.workerId)) f ∧
      f (.ok held) = pass w s'.heartbeat := by
  obtain ⟨_, h⟩ := step_some h
  simp only [move, hb, Option.some.injEq] at h
  subst h
  rw [hb]
  refine ⟨_, rfl, ?_⟩
  cases held <;> exact (pass_visit rest).symm

end Programs

/-! ### A run of one process -/

def claimedRun : RunRow := { id := 0, jobId := 0, status := .running, createdAt := 0 }

def oneRunDB : DB where
  jobs := ⟨[{ id := 0, job := "m.J", createdAt := 0 }], 1, by decide, by decide⟩
  runs := ⟨[claimedRun], 1, by decide, by decide⟩

/-- The execution with this number has its next transaction committed. -/
def commitsIn (k : ℕ) : Move := .execution k oneRunDB (committed 1)

/-- The worker claims a run, and is in the midst of its task. -/
def working : List Move :=
  [.main, .main, .claim (.ok (some claimedRun)), .main, .heartbeat, commitsIn 0, commitsIn 0,
    commitsIn 0]

lemma run_of_play {w : Worker} {maxConcurrency : ℤ} {C : Process → Move → Prop}
    [∀ s m, Decidable (C s m)] {moves : List Move} {s s' : Process}
    (h : play w maxConcurrency C s moves = some s') : Run w maxConcurrency C s s' := by
  induction moves generalizing s with
  | nil =>
    cases h
    exact .refl
  | cons m moves ih =>
    simp only [play] at h
    split at h
    · rename_i hC
      obtain ⟨s₁, hm, hrest⟩ := Option.bind_eq_some_iff.1 h
      exact .head ⟨m, hC, hm⟩ (ih hrest)
    · cases h

/-- No restriction on the next move. -/
def Any : Process → Move → Prop := fun _ _ => True

instance (s : Process) : DecidablePred (Any s) := fun _ => .isTrue trivial

/-- `stop()` may be called in the midst of a task. -/
theorem heartbeat_outlives_stopped : ∃ s e, Reached (.named "A") 1 Sound s ∧
    s.executions[0]? = some e ∧ e.unfinished = true ∧ s.running = false ∧
      s.heartbeat ≠ .ended ∧ NextPassVisits (.named "A") 1 Sound s 0 e.runId := by
  have hall : ((play (.named "A") 1 Sound {} (working ++ [.stop])).any fun s =>
      !s.running && (s.executions[0]?).any Execution.unfinished) = true := by decide
  obtain ⟨s, hs, hstate⟩ := (Option.any_eq_true _ _).1 hall
  obtain ⟨hstopped, hexec⟩ := Bool.and_eq_true_iff.1 hstate
  obtain ⟨e, he, hun⟩ := (Option.any_eq_true _ _).1 hexec
  have hreached := run_of_play hs
  exact ⟨s, e, hreached, he, hun, Bool.not_eq_true' .. ▸ hstopped,
    heartbeat_outlives hreached he hun⟩

/-- **The heartbeat can end under an execution**: when `stop()` is called in the midst of a task the
main loop cancels it and then drains, and an exception of `is_job_cancelled` ends it in a process
that is running. -/
theorem heartbeat_ends_early :
    (∃ s e, Reached (.named "A") 1 Any s ∧ s.executions[0]? = some e ∧ e.unfinished = true ∧
      e.exempt = false ∧ s.main = .draining ∧ s.heartbeat = .ended) ∧
    ∃ s e, Reached (.named "A") 1 Any s ∧ s.executions[0]? = some e ∧ e.unfinished = true ∧
      e.exempt = false ∧ s.running = true ∧ s.heartbeat = .ended := by
  have hdrain : ((play (.named "A") 1 Any {} (working ++ [.stop, .main, .main])).any fun s =>
      (s.executions[0]?).any fun e => e.unfinished = true ∧ e.exempt = false ∧
        s.main = .draining ∧ s.heartbeat = .ended) = true := by decide
  have hraise : ((play (.named "A") 1 Any {}
      (working ++ [.heartbeat, .isJobCancelled (.error (.other "OperationalError" ""))])).any fun s =>
      (s.executions[0]?).any fun e => e.unfinished = true ∧ e.exempt = false ∧
        s.running = true ∧ s.heartbeat = .ended) = true := by decide
  constructor
  · obtain ⟨s, hs, hstate⟩ := (Option.any_eq_true _ _).1 hdrain
    obtain ⟨e, he, hholds⟩ := (Option.any_eq_true _ _).1 hstate
    exact ⟨s, e, run_of_play hs, he, of_decide_eq_true hholds⟩
  · obtain ⟨s, hs, hstate⟩ := (Option.any_eq_true _ _).1 hraise
    obtain ⟨e, he, hholds⟩ := (Option.any_eq_true _ _).1 hstate
    exact ⟨s, e, run_of_play hs, he, of_decide_eq_true hholds⟩

end Process

end Pyreljob
