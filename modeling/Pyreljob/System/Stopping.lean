import Pyreljob.Lib.Finite
import Pyreljob.System.Polling

/-!
What `stop()` does: a worker process whose `_running` is false comes to its end.

A claim that is under way may still bring a run, and that one is executed like the others. Nothing else
is claimed, the heartbeat loop ends, and the process ends once every execution has. Each step takes it
nearer to its end, whatever is answered and in whatever order, so it cannot go on for ever, and before
its end it is never stuck.
-/

namespace Pyreljob

open Lib

/-! ### How far a process is from its end -/

/-- How far the main loop of a process that has stopped is from its end. -/
def Main.left : Main → ℕ
  | .ended => 0
  | .draining => 1
  | .loop => 2
  | .sleeping | .waiting | .backingOff => 3
  | .fill => 4
  | .claiming => 5

/-- What is left of the pass of a process that has stopped, which sees this `_active`. -/
def Heartbeat.left (active : List Entry) : Heartbeat → ℕ
  | .ended => 0
  | .starting | .loop => 1
  | .sleeping => 2 + 2 * active.length
  | .asking _ rest => 3 + 2 * rest.length
  | .renewing _ rest => 2 + 2 * rest.length

lemma Heartbeat.left_visit (active l : List Entry) : (visit l).left active = 1 + 2 * l.length := by
  cases l with
  | nil => rfl
  | cons x rest =>
    simp only [visit, left, List.length_cons]
    omega

namespace Process

variable {w : Worker} {maxConcurrency : ℤ} {s s' : Process} {m : Move}

/-! ### The main loop of a process that has stopped -/

/-- The main loop comes to its end only when it leaves its `while`, or when it has drained. -/
lemma onMain_ends (h : s.onMain maxConcurrency = some s')
    (hends : s'.main = .draining ∨ s'.main = .ended) :
    s' = s.wind ∨ s.main = .draining ∧ s.pending.any s.unfinished = false ∧
      s' = { s with main := .ended } := by
  unfold onMain at h
  split at h
  · split at h <;> cases h
    · simp at hends
    · exact .inl rfl
  · split at h <;> cases h
    · simp at hends
    · unfold await at hends
      dsimp only at hends
      split at hends <;> simp at hends
  · cases h
  · cases h
    simp at hends
  · cases h
    simp at hends
  · cases h
    simp at hends
  · rename_i hm
    split at h
    · cases h
    · rename_i hall
      cases h
      exact .inr ⟨hm, Bool.eq_false_of_not_eq_true hall, rfl⟩
  · cases h

lemma ne_claiming {a b : Main} (h : a.left < b.left) : a ≠ .claiming := by
  rintro rfl
  cases b <;> simp [Main.left] at h

lemma left_await (s : Process) : s.await.main.left = 3 := by
  unfold await
  dsimp only
  split <;> rfl

lemma left_main (h : s.onMain maxConcurrency = some s') (hstop : s.running = false) :
    s'.main.left < s.main.left := by
  unfold onMain at h
  simp only [hstop, Bool.false_eq_true, false_and, if_false] at h
  split at h
  · rename_i hm
    cases h
    rw [hm]
    unfold wind
    dsimp only
    split <;> decide
  · rename_i hm
    cases h
    rw [left_await, hm]
    decide
  · cases h
  · rename_i hm
    cases h
    simp [hm, Main.left]
  · rename_i hm
    cases h
    simp [hm, Main.left]
  · rename_i hm
    cases h
    simp [hm, Main.left]
  · rename_i hm
    split at h
    · cases h
    · cases h
      simp [hm, Main.left]
  · cases h

lemma left_claim {v : Except Exc (Option RunRow)} (h : s.step w maxConcurrency (.claim v) = some s') :
    s.main = .claiming ∧ 2 < s'.main.left ∧ s'.main.left < s.main.left ∧
      s'.heartbeat = s.heartbeat ∧ s'.executions.length ≤ s.executions.length + 1 := by
  have hmove := (step_some h).2
  simp only [move] at hmove
  split at hmove
  · rename_i hm
    cases hmove
    refine ⟨hm, ?_⟩
    rw [hm]
    rcases v with exc | _ | run
    · exact ⟨by simp [onClaim, Main.left], by simp [onClaim, Main.left], rfl, by simp [onClaim]⟩
    · have hleft : (s.onClaim w (.ok none)).main.left = 3 := left_await s
      rw [hleft]
      exact ⟨by decide, by decide, rfl, by simp [onClaim, await]⟩
    · exact ⟨by simp [onClaim, Main.left], by simp [onClaim, Main.left], rfl,
        by simp [onClaim, dispatch]⟩
  · cases hmove

/-! ### No run is claimed any more -/

/-- The executions there may be in the end: those there are, and the one a claim may bring. -/
def limit (s : Process) : ℕ := s.executions.length + if s.main = .claiming then 1 else 0

lemma limit_step (h : s.step w maxConcurrency m = some s') (hstop : s.running = false) :
    s'.limit ≤ s.limit := by
  by_cases hmain : m = .main
  · subst hmain
    have hon := (step_some h).2
    rw [limit, limit, (onMain_turn hon).2, if_neg (ne_claiming (left_main hon hstop))]
    omega
  by_cases hclaim : ∃ v, m = .claim v
  · obtain ⟨v, rfl⟩ := hclaim
    obtain ⟨hm, -, hlt, -, hlen⟩ := left_claim h
    rw [limit, limit, if_pos hm, if_neg (ne_claiming hlt)]
    omega
  · obtain ⟨hm, -, hident, -⟩ := step_aside h hmain fun v hv => hclaim ⟨v, hv⟩
    have hlen : s'.executions.length = s.executions.length := by
      simpa using congrArg List.length hident
    rw [limit, limit, hm, hlen]

lemma limit_run (h : Run w maxConcurrency Any s s') (hstop : s.running = false) :
    s'.running = false ∧ s'.limit ≤ s.limit := by
  induction h with
  | refl => exact ⟨hstop, le_rfl⟩
  | tail _ hstep ih =>
    obtain ⟨m, -, hs⟩ := hstep
    exact ⟨(running_step hs).1 ih.1, (limit_step hs ih.1).trans ih.2⟩

/-! ### It comes to its end -/

def cos (s : Process) : List (Co Unit) := s.executions.map Execution.co

/-- A process is nearer to its end: its main loop is, or with the main loop where it was one of the
executions is, or with these as they were the heartbeat loop is. -/
def Nearer : Process → Process → Prop :=
  InvImage (Prod.Lex (· < ·) (Prod.Lex Prog.Fewer (· < ·)))
    fun s => (s.main.left, s.cos, s.heartbeat.left s.active)

theorem wellFounded_nearer : WellFounded Nearer :=
  InvImage.wf _ (WellFounded.prod_lex Nat.lt_wfRel.wf
    (WellFounded.prod_lex Prog.wellFounded_fewer Nat.lt_wfRel.wf))

lemma nearer_main (h : s'.main.left < s.main.left) : Nearer s' s := .left _ _ h

lemma nearer_execution (hm : s'.main = s.main) (h : Prog.Fewer s'.cos s.cos) : Nearer s' s :=
  Prod.lex_def.2 (.inr ⟨congrArg Main.left hm, .left _ _ h⟩)

lemma nearer_heartbeat (hm : s'.main = s.main) (hco : s'.cos = s.cos)
    (h : s'.heartbeat.left s'.active < s.heartbeat.left s.active) : Nearer s' s :=
  Prod.lex_def.2 (.inr ⟨congrArg Main.left hm, Prod.lex_def.2 (.inr ⟨hco, h⟩)⟩)

lemma cos_modify (l : List Execution) (k : ℕ) {f : Execution → Execution}
    (hf : ∀ e, (f e).co = e.co) : (l.modify k f).map Execution.co = l.map Execution.co := by
  apply List.ext_getElem?
  intro n
  rw [List.getElem?_map, List.getElem?_map, List.getElem?_modify]
  by_cases hn : k = n
  · simp [hn, Function.comp_def, hf]
  · simp [hn]

lemma left_settle {x : Entry} {co : Co Unit} {inside : Bool} {active : List Entry} :
    Relation.ReflTransGen Prog.Next (settle x co inside active).1 co := by
  induction co generalizing inside active with
  | ret v => exact .refl
  | ask r k ih =>
    cases r with
    | io r => exact .refl
    | enter | leave => exact .tail (ih (.ok ())) (.answer _ k _)

lemma next_answered {db : DB} {a : Answer} {co : Co Unit} {x : Co Unit × Bool}
    (h : answered db a co = some x) : Prog.Next x.1 co := by
  unfold answered at h
  split at h
  · rename_i r k
    obtain ⟨y, -, rfl⟩ := Option.map_eq_some_iff.1 h
    exact Prog.Next.answer (Await.io r) k y.2
  · cases h

lemma nearer_pass {l : List Entry} (hm : s'.main = s.main) (hco : s'.cos = s.cos)
    (hpass : s'.heartbeat = .visit l) (h : 1 + 2 * l.length < s.heartbeat.left s.active) :
    Nearer s' s := by
  refine nearer_heartbeat hm hco ?_
  rwa [hpass, Heartbeat.left_visit]

/-- **Every step takes a process that has stopped nearer to its end**, `stop()` apart. -/
theorem nearer_step (h : s.step w maxConcurrency m = some s') (hstop : s.running = false)
    (hm : m ≠ .stop) : Nearer s' s := by
  have hmove := (step_some h).2
  cases m with
  | stop => exact absurd rfl hm
  | main => exact nearer_main (left_main hmove hstop)
  | claim v => exact nearer_main (left_claim h).2.2.1
  | heartbeat =>
    simp only [move, onHeartbeat, hstop, Bool.false_eq_true, if_false] at hmove
    split at hmove
    · rename_i hb
      cases hmove
      exact nearer_heartbeat rfl rfl (by simp [hb, Heartbeat.left])
    · rename_i hb
      cases hmove
      exact nearer_heartbeat rfl rfl (by simp [hb, Heartbeat.left])
    · rename_i hb
      cases hmove
      refine nearer_pass rfl rfl rfl ?_
      rw [hb, Heartbeat.left]
      omega
    all_goals cases hmove
  | isJobCancelled v =>
    simp only [move] at hmove
    split at hmove
    · rename_i x rest hb
      cases hmove
      rcases v with exc | _ | _
      · exact nearer_heartbeat rfl rfl (by simp [hb, onIsJobCancelled, Heartbeat.left])
      · exact nearer_heartbeat rfl rfl (by simp [hb, onIsJobCancelled, Heartbeat.left])
      · refine nearer_pass rfl (cos_modify _ _ fun _ => rfl) rfl ?_
        rw [hb, Heartbeat.left]
        omega
    · cases hmove
  | renewLease v =>
    simp only [move] at hmove
    split at hmove
    · rename_i x rest hb
      cases hmove
      have hlt : 1 + 2 * rest.length < (Heartbeat.renewing x rest).left s.active := by
        rw [Heartbeat.left]
        omega
      rcases v with exc | _ | _
      · exact nearer_heartbeat rfl rfl (by simp [hb, onRenewLease, Heartbeat.left])
      · exact nearer_pass rfl (cos_modify _ _ fun _ => rfl) rfl (hb ▸ hlt)
      · exact nearer_pass rfl rfl rfl (hb ▸ hlt)
    · cases hmove
  | execution k db a =>
    obtain ⟨e, x, he, hans, rfl⟩ := onExecution_some hmove
    refine nearer_execution rfl ?_
    rw [cos, cos, List.map_set]
    refine Prog.fewer_set (p := e.co) (by rw [List.getElem?_map, he]; rfl) ?_
    exact Relation.TransGen.tail' left_settle (next_answered hans)

/-! ### It is never stuck -/

lemma answer_exists (db : DB) (r : Req) : ∃ a x, answer db r a = some x := by
  cases r with
  | db c => exact ⟨.fail (.valueError ""), _, rfl⟩
  | now => exact ⟨.time 0, _, rfl⟩
  | lastClaimAt => exact ⟨.lastClaim none, _, rfl⟩
  | retryAt attempts => exact ⟨.time 0, _, rfl⟩
  | run runId position attempts ctx => exact ⟨.ran (.error (.valueError "")) [], _, rfl⟩
  | undo runId position ctx => exact ⟨.undone none [], _, rfl⟩
  | nextRuntime name args run ctx => exact ⟨.next none, _, rfl⟩

def Settled : Co Unit → Prop
  | .ret _ | .ask (.io _) _ => True
  | .ask .enter _ | .ask .leave _ => False

lemma settled_settle {x : Entry} {co : Co Unit} {inside : Bool} {active : List Entry} :
    Settled (settle x co inside active).1 := by
  induction co generalizing inside active with
  | ret v => trivial
  | ask r k ih =>
    cases r with
    | io r => trivial
    | enter | leave => exact ih (.ok ())

lemma onExecution_exists {k : ℕ} {e : Execution} (he : s.executions[k]? = some e)
    (hun : e.unfinished) (hset : Settled e.co) (db : DB) :
    ∃ a s', s.onExecution k db a = some s' := by
  obtain ⟨runId, jobId, co, inside, cancelled, lost⟩ := e
  dsimp only at hun hset
  cases co with
  | ret v => cases hun
  | ask r f =>
    cases r with
    | io r =>
      obtain ⟨a, x, hx⟩ := answer_exists db r
      exact ⟨a, by simp [onExecution, he, answered, hx]⟩
    | enter | leave => exact hset.elim

/-- What holds of a process throughout, as far as its end is concerned. -/
structure Closing (s : Process) : Prop where
  settled : ∀ co ∈ s.cos, Settled co
  /-- The main loop cancels the heartbeat loop before it drains. -/
  closed : s.main = .draining ∨ s.main = .ended → s.heartbeat = .ended
  drained : s.main = .ended → ∀ k, s.unfinished k = false
  /-- One of the two loops is at the test of its `while` at a time. -/
  alone : s.heartbeat = .loop → s.main ≠ .loop ∧ s.main ≠ .fill

lemma closing_start : Closing {} where
  settled := by simp [cos]
  closed := by simp
  drained := by simp
  alone := by simp

lemma settled_step (h : s.step w maxConcurrency m = some s') (hs : ∀ co ∈ s.cos, Settled co) :
    ∀ co ∈ s'.cos, Settled co := by
  have hmove := (step_some h).2
  cases m with
  | stop =>
    cases hmove
    exact hs
  | main =>
    rw [cos, (onMain_turn hmove).2]
    exact hs
  | claim v =>
    simp only [move] at hmove
    split at hmove
    · cases hmove
      rcases v with exc | _ | run
      · exact hs
      · exact hs
      · intro co hco
        change co ∈ (s.executions ++ [_]).map Execution.co at hco
        rw [List.map_append] at hco
        rcases List.mem_append.1 hco with hco | hco
        · exact hs co hco
        · rw [List.mem_singleton.1 hco]
          trivial
    · cases hmove
  | heartbeat =>
    simp only [move, onHeartbeat] at hmove
    split at hmove <;> cases hmove <;> exact hs
  | isJobCancelled v =>
    simp only [move] at hmove
    split at hmove
    · rename_i x rest _
      cases hmove
      rcases v with exc | _ | _
      · exact hs
      · exact hs
      · have hcos : cos (s.onIsJobCancelled x rest (.ok true)) = s.cos := cos_modify _ _ fun _ => rfl
        exact hcos ▸ hs
    · cases hmove
  | renewLease v =>
    simp only [move] at hmove
    split at hmove
    · rename_i x rest _
      cases hmove
      rcases v with exc | _ | _
      · exact hs
      · have hcos : cos (s.onRenewLease x rest (.ok false)) = s.cos := cos_modify _ _ fun _ => rfl
        exact hcos ▸ hs
      · exact hs
    · cases hmove
  | execution k db a =>
    obtain ⟨e, x, he, hans, rfl⟩ := onExecution_some hmove
    intro co hco
    rw [cos, List.map_set] at hco
    rcases List.mem_or_eq_of_mem_set hco with hco | rfl
    · exact hs co hco
    · exact settled_settle

lemma ended_of_ended (h : s.step w maxConcurrency m = some s') (hb : s.heartbeat = .ended) :
    s'.heartbeat = .ended := by
  have := beat h
  rw [hb] at this
  generalize s'.heartbeat = b at this
  cases this <;> rfl

/-- **Every step** keeps what holds throughout. -/
theorem Closing.step (hc : Closing s) (hcap : Capped maxConcurrency s)
    (h : s.step w maxConcurrency m = some s') : Closing s' := by
  have hset := settled_step h hc.settled
  by_cases hmain : m = .main
  · subst hmain
    obtain ⟨hb, hon⟩ := step_some h
    change s.heartbeat ≠ .loop at hb
    have hun : ∀ k, s'.unfinished k = s.unfinished k := fun k => by
      rw [unfinished, (onMain_turn hon).2]
      rfl
    refine ⟨hset, fun hends => ?_, fun hended k => ?_, fun hloop => ?_⟩
    · rcases onMain_ends hon hends with rfl | ⟨hm, -, rfl⟩
      · rfl
      · exact hc.closed (.inl hm)
    · rw [hun, ← Bool.not_eq_true]
      intro hk
      have hmem := hcap.kept k hk
      rcases onMain_ends hon (.inr hended) with rfl | ⟨-, hall, -⟩
      · change (if s.pending = [] then Main.ended else .draining) = .ended at hended
        split at hended
        · rename_i hnil
          rw [hnil] at hmem
          cases hmem
        · cases hended
      · rw [List.any_eq_false] at hall
        exact hall k hmem hk
    · rcases onMain_some hon with ⟨-, -, rfl⟩ | ⟨-, hbeat, -⟩
      · cases hloop
      · exact absurd (hbeat ▸ hloop) hb
  have hallow := (step_some h).1
  by_cases hclaim : ∃ v, m = .claim v
  · obtain ⟨v, rfl⟩ := hclaim
    obtain ⟨-, hlt, -, hbeat, -⟩ := left_claim h
    have hnot : s'.main ≠ .draining ∧ s'.main ≠ .ended := by
      constructor <;> intro hm <;> simp [hm, Main.left] at hlt
    exact ⟨hset, fun hends => (hends.elim hnot.1 hnot.2).elim, fun hended => (hnot.2 hended).elim,
      fun hloop => (hallow.1 (hbeat ▸ hloop)).elim⟩
  · obtain ⟨hm, -, -, hun⟩ := step_aside h hmain fun v hv => hclaim ⟨v, hv⟩
    refine ⟨hset, fun hends => ended_of_ended h (hc.closed (hm ▸ hends)), fun hended k => ?_, ?_⟩
    · rw [← Bool.not_eq_true]
      intro hk
      have := hc.drained (hm ▸ hended) k
      rw [hun k hk] at this
      cases this
    · rw [hm]
      cases m with
      | stop =>
        have hmove := (step_some h).2
        cases hmove
        exact hc.alone
      | main => exact absurd rfl hmain
      | heartbeat => exact fun _ => hallow
      | claim v => exact absurd ⟨v, rfl⟩ hclaim
      | isJobCancelled v | renewLease v | execution k db a => exact fun _ => hallow.2

lemma closing_run (h : Run w maxConcurrency Any s s') (hcap : Capped maxConcurrency s)
    (hc : Closing s) : Capped maxConcurrency s' ∧ Closing s' := by
  induction h with
  | refl => exact ⟨hcap, hc⟩
  | tail _ hstep ih =>
    obtain ⟨m, -, hs⟩ := hstep
    exact ⟨ih.1.step hs, ih.2.step ih.1 hs⟩

/-- **A process that has not ended can go on** without another `stop()`. -/
theorem Closing.progress (hc : Closing s) (hm : s.main ≠ .ended) :
    ∃ m s', m ≠ .stop ∧ s.step w maxConcurrency m = some s' := by
  have hgo : ∀ {m s'}, m ≠ .stop → s.allows m → s.move w maxConcurrency m = some s' →
      ∃ m s', m ≠ .stop ∧ s.step w maxConcurrency m = some s' := by
    intro m s' hne hallow hmove
    exact ⟨m, s', hne, by rw [Process.step, if_pos hallow]; exact hmove⟩
  by_cases hb : s.heartbeat = .loop
  · exact hgo (m := .heartbeat) (by simp) (hc.alone hb) (by simp only [move, onHeartbeat, hb]; rfl)
  by_cases hclaim : s.main = .claiming
  · exact hgo (m := .claim (.ok none)) (by simp) ⟨hb, by simp [hclaim], by simp [hclaim]⟩
      (by simp only [move, if_pos hclaim]; rfl)
  by_cases hwait : s.main = .draining ∧ s.pending.any s.unfinished
  · obtain ⟨hdrain, hany⟩ := hwait
    obtain ⟨k, -, hk⟩ := List.any_eq_true.1 hany
    obtain ⟨e, he, hun⟩ := (Option.any_eq_true _ _).1 hk
    have hmem : e.co ∈ s.cos := List.mem_map_of_mem (List.mem_of_getElem? he)
    obtain ⟨a, s', hmove⟩ := onExecution_exists he hun (hc.settled _ hmem) {}
    exact hgo (m := .execution k {} a) (by simp) ⟨hb, by simp [hdrain], by simp [hdrain]⟩ hmove
  · obtain ⟨s', hmove⟩ : ∃ s', s.onMain maxConcurrency = some s' := by
      unfold onMain
      cases hmain : s.main with
      | claiming => exact absurd hmain hclaim
      | ended => exact absurd hmain hm
      | draining =>
        have hall : ¬ s.pending.any s.unfinished := fun hany => hwait ⟨hmain, hany⟩
        exact ⟨_, if_neg hall⟩
      | loop | fill | sleeping | waiting | backingOff => exact ⟨_, rfl⟩
    exact hgo (m := .main) (by simp) hb hmove

lemma Closing.rests (hc : Closing s) (hrun : s.running = false) (hm : s.main = .ended)
    (h : s.step w maxConcurrency m = some s') : s' = s := by
  have hb := hc.closed (.inr hm)
  have hmove := (step_some h).2
  cases m with
  | stop =>
    cases hmove
    rw [← hrun]
  | main => simp [move, onMain, hm] at hmove
  | claim v => simp [move, hm] at hmove
  | heartbeat => simp [move, onHeartbeat, hb] at hmove
  | isJobCancelled v | renewLease v => simp [move, hb] at hmove
  | execution k db a =>
    obtain ⟨e, x, he, hans, -⟩ := onExecution_some hmove
    have hun : s.unfinished k = true := by
      rw [unfinished, he]
      exact unfinished_of_answered hans
    rw [hc.drained hm k] at hun
    cases hun

/-! ### Stopping -/

/-- **`stop()` ends a worker**, whatever it is in the midst of and whatever it is answered. From then on
it executes what it has claimed, and at most one run more, which a claim under way brings. Whatever
happens in whatever order, it does not go on for ever: it can always go on until it has ended, and there
is no infinite run of it. When it has ended every execution has finished, the heartbeat loop has ended,
and nothing happens in it any more. -/
theorem stop_ends (h : Reached w maxConcurrency Any s) (hstop : s.running = false) :
    (∀ s', Run w maxConcurrency Any s s' → s'.executions.length ≤ s.limit) ∧
    (¬ ∃ f : ℕ → Process, f 0 = s ∧
      ∀ n, Steps w maxConcurrency (fun _ m => m ≠ .stop) (f n) (f (n + 1))) ∧
    (∀ s', Run w maxConcurrency Any s s' → s'.main ≠ .ended →
      ∃ s'', Steps w maxConcurrency (fun _ m => m ≠ .stop) s' s'') ∧
    ∀ s', Run w maxConcurrency Any s s' → s'.main = .ended →
      (∀ k, s'.unfinished k = false) ∧ s'.heartbeat = .ended ∧
        ∀ s'', Steps w maxConcurrency Any s' s'' → s'' = s' := by
  obtain ⟨hcap, hc⟩ := closing_run h (capped_start maxConcurrency) closing_start
  refine ⟨fun s' hs' => ?_, ?_, fun s' hs' hm => ?_, fun s' hs' hm => ?_⟩
  · exact (Nat.le_add_right _ _).trans (limit_run hs' hstop).2
  · rintro ⟨f, rfl, hf⟩
    -- a run without another `stop()` descends for ever
    have hstopped : ∀ n, (f n).running = false := by
      intro n
      induction n with
      | zero => exact hstop
      | succ n ih =>
        obtain ⟨m, -, hs⟩ := hf n
        exact (running_step hs).1 ih
    have : IsWellFounded Process Nearer := ⟨wellFounded_nearer⟩
    obtain ⟨n, hn⟩ := WellFounded.not_rel_apply_succ (r := Nearer) f
    obtain ⟨m, hm, hs⟩ := hf n
    exact hn (nearer_step hs (hstopped n) hm)
  · have hc' := (closing_run hs' hcap hc).2
    obtain ⟨m, s'', hne, hs⟩ := hc'.progress hm
    exact ⟨s'', m, hne, hs⟩
  · have hc' := (closing_run hs' hcap hc).2
    refine ⟨hc'.drained hm, hc'.closed (.inr hm), fun s'' hstep => ?_⟩
    obtain ⟨m, -, hs⟩ := hstep
    exact hc'.rests (limit_run hs' hstop).1 hm hs

/-- A worker is stopped in the midst of a task. -/
theorem stop_ends_working : ∃ s, Reached (.named "A") 1 Any s ∧ s.unfinished 0 = true ∧
    ¬ ∃ f : ℕ → Process, f 0 = s ∧
      ∀ n, Steps (.named "A") 1 (fun _ m => m ≠ .stop) (f n) (f (n + 1)) := by
  have hall : ((play (.named "A") 1 Any {} (working ++ [.stop])).any fun s =>
      !s.running && s.unfinished 0) = true := by decide
  obtain ⟨s, hs, hstate⟩ := (Option.any_eq_true _ _).1 hall
  obtain ⟨hstopped, hun⟩ := Bool.and_eq_true_iff.1 hstate
  have hreached := run_of_play hs
  exact ⟨s, hreached, hun, (stop_ends hreached (Bool.not_eq_true' .. ▸ hstopped)).2.1⟩

end Process

end Pyreljob
