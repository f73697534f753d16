import Pyreljob.System.Heartbeat

/-!
The poll loop of a worker process: `_main` and `_poll_once`.

The main loop and the pass share one set, `pending`. A pass adds to it what it dispatches, and what
has finished is taken out only where a pass ends without an exception. An execution finishes whenever
its last request is answered, which may be at any moment, also while the main loop awaits a claim.
-/

namespace Pyreljob

open Lib

namespace Process

/-! ### What the moves do to `pending` -/

/-- The run of an execution, and its job. -/
def ident (e : Execution) : ℕ × ℕ := (e.runId, e.jobId)

/-- The run that a claim gets. -/
def got : Move → Option RunRow
  | .claim (.ok (some run)) => some run
  | _ => none

/-- A pass is over that has not raised: the main loop is back at its test, and was not backing off. -/
def PassEnds (s s' : Process) : Prop := (s.main = .sleeping ∨ s.main = .waiting) ∧ s'.main = .loop

section Moves

variable {w : Worker} {maxConcurrency : ℤ} {s s' : Process} {m : Move}

lemma map_ident_modify (l : List Execution) (k : ℕ) {f : Execution → Execution}
    (hf : ∀ e, ident (f e) = ident e) : (l.modify k f).map ident = l.map ident := by
  apply List.ext_getElem?
  intro n
  rw [List.getElem?_map, List.getElem?_map, List.getElem?_modify]
  by_cases hn : k = n
  · simp [hn, Function.comp_def, hf]
  · simp [hn]

lemma unfinished_modify {k : ℕ} (f : Execution → Execution)
    (hs : s'.executions = s.executions.modify k f) (hf : ∀ e, (f e).co = e.co) (n : ℕ) :
    s'.unfinished n = s.unfinished n := by
  have hun : ∀ e : Execution, (f e).unfinished = e.unfinished := fun e => congrArg Prog.waiting (hf e)
  unfold unfinished
  rw [hs, List.getElem?_modify]
  by_cases hn : k = n
  · cases s.executions[n]? <;> simp [hn, hun]
  · simp [hn]

/-- What an execution does leaves the other ones alone, and no execution begins by it. -/
lemma onExecution_keeps {k : ℕ} {db : DB} {a : Answer} (h : s.onExecution k db a = some s') :
    s'.main = s.main ∧ s'.pending = s.pending ∧
      s'.executions.map ident = s.executions.map ident ∧ ∀ n, s'.unfinished n → s.unfinished n := by
  obtain ⟨e, x, he, hans, rfl⟩ := onExecution_some h
  have hlt : k < s.executions.length := (List.getElem?_eq_some_iff.1 he).1
  refine ⟨rfl, rfl, ?_, fun n hn => ?_⟩
  · have hlt' : k < (s.executions.map ident).length := by simpa using hlt
    have hself : (s.executions.map ident)[k] = ident e := by
      rw [List.getElem_map, (List.getElem?_eq_some_iff.1 he).2]
    rw [List.map_set]
    exact (congrArg _ hself.symm).trans (List.set_getElem_self _)
  · by_cases hkn : k = n
    · subst hkn
      rw [unfinished, he]
      exact unfinished_of_answered hans
    · simpa [unfinished, List.getElem?_set_ne hkn] using hn

/-- Only the main loop moves itself and `pending`, and it dispatches nothing but what it claims. -/
lemma step_aside (h : s.step w maxConcurrency m = some s') (hmain : m ≠ .main)
    (hclaim : ∀ reply, m ≠ .claim reply) :
    s'.main = s.main ∧ s'.pending = s.pending ∧
      s'.executions.map ident = s.executions.map ident ∧ ∀ n, s'.unfinished n → s.unfinished n := by
  obtain ⟨-, h⟩ := step_some h
  cases m with
  | stop =>
    cases h
    exact ⟨rfl, rfl, rfl, fun n hn => hn⟩
  | main => exact absurd rfl hmain
  | claim reply => exact absurd rfl (hclaim reply)
  | heartbeat =>
    simp only [move, onHeartbeat] at h
    split at h <;> cases h <;> exact ⟨rfl, rfl, rfl, fun n hn => hn⟩
  | isJobCancelled reply =>
    simp only [move] at h
    split at h
    · rename_i x rest _
      cases h
      rcases reply with exc | _ | _
      · exact ⟨rfl, rfl, rfl, fun n hn => hn⟩
      · exact ⟨rfl, rfl, rfl, fun n hn => hn⟩
      · refine ⟨rfl, rfl, map_ident_modify _ _ fun _ => rfl, fun n hn => ?_⟩
        rwa [unfinished_modify (fun e => { e with cancelled := true }) rfl fun _ => rfl] at hn
    · cases h
  | renewLease reply =>
    simp only [move] at h
    split at h
    · rename_i x rest _
      cases h
      rcases reply with exc | _ | _
      · exact ⟨rfl, rfl, rfl, fun n hn => hn⟩
      · refine ⟨rfl, rfl, map_ident_modify _ _ fun _ => rfl, fun n hn => ?_⟩
        rwa [unfinished_modify (fun e => { e with lost := true }) rfl fun _ => rfl] at hn
      · exact ⟨rfl, rfl, rfl, fun n hn => hn⟩
    · cases h
  | execution k db a => exact onExecution_keeps h

/-- What the main loop does when nothing is claimed: it never touches an execution, and `pending` only
loses what has finished. -/
inductive Turn (maxConcurrency : ℤ) (s s' : Process) : Prop
  /-- It comes round to the claims, or to the end. -/
  | loop (was : s.main = .loop) (is : s'.main ≠ .claiming ∧ s'.main ≠ .sleeping)
      (kept : s'.pending = s.pending) (ended : s'.main = .draining ∨ s'.main = .ended → s.running = false)
  /-- It claims the next run. -/
  | claims (was : s.main = .fill) (is : s'.main = .claiming) (kept : s'.pending = s.pending)
      (room : (s.pending.length : ℤ) < maxConcurrency)
  /-- It claims no more. -/
  | awaits (was : s.main = .fill) (is : s'.main = if s.pending = [] then .sleeping else .waiting)
      (kept : s'.pending = s.pending)
  /-- It has slept. -/
  | wakes (was : s.main = .sleeping ∨ s.main = .backingOff) (is : s'.main = .loop)
      (kept : s'.pending = s.pending)
  /-- It has waited, and takes out what has finished. -/
  | clears (was : s.main = .waiting) (is : s'.main = .loop)
      (kept : s'.pending = s.pending.filter s.unfinished)
  /-- It has drained. -/
  | drained (was : s.main = .draining) (is : s'.main = .ended) (kept : s'.pending = s.pending)

/-- **What the main loop does**, wherever it is. -/
lemma onMain_turn (h : s.onMain maxConcurrency = some s') :
    Turn maxConcurrency s s' ∧ s'.executions = s.executions := by
  unfold onMain at h
  split at h
  · rename_i hm
    split at h <;> cases h
    · exact ⟨.loop hm (by simp) rfl (by simp), rfl⟩
    · rename_i hrunning
      refine ⟨.loop hm ?_ rfl fun _ => Bool.eq_false_of_not_eq_true hrunning, rfl⟩
      unfold wind
      split <;> simp
  · rename_i hm
    split at h <;> cases h
    · rename_i hroom
      exact ⟨.claims hm rfl rfl hroom.2, rfl⟩
    · exact ⟨.awaits hm rfl rfl, rfl⟩
  · cases h
  · rename_i hm
    cases h
    exact ⟨.wakes (.inl hm) rfl rfl, rfl⟩
  · rename_i hm
    cases h
    exact ⟨.wakes (.inr hm) rfl rfl, rfl⟩
  · rename_i hm
    cases h
    exact ⟨.clears hm rfl rfl, rfl⟩
  · rename_i hm
    split at h
    · cases h
    · cases h
      exact ⟨.drained hm rfl rfl, rfl⟩
  · cases h

/-- A process that has stopped stays so, and only `stop()` stops one. -/
lemma running_step (h : s.step w maxConcurrency m = some s') :
    (s.running = false → s'.running = false) ∧ (s'.running = false → s.running = false ∨ m = .stop) := by
  obtain ⟨-, h⟩ := step_some h
  have hsame : s'.running = s.running →
      (s.running = false → s'.running = false) ∧ (s'.running = false → s.running = false ∨ m = .stop) :=
    fun heq => by rw [heq]; exact ⟨id, .inl⟩
  cases m with
  | stop =>
    cases h
    exact ⟨fun _ => rfl, fun _ => .inr rfl⟩
  | main =>
    rcases onMain_some h with ⟨-, hstopped, rfl⟩ | ⟨hrunning, -⟩
    · exact ⟨fun _ => rfl, fun _ => .inl hstopped⟩
    · exact hsame hrunning
  | claim reply =>
    simp only [move] at h
    split at h
    · cases h
      rcases reply with exc | _ | run <;> exact hsame rfl
    · cases h
  | heartbeat =>
    simp only [move, onHeartbeat] at h
    split at h <;> cases h <;> exact hsame rfl
  | isJobCancelled reply =>
    simp only [move] at h
    split at h
    · cases h
      rcases reply with exc | _ | _ <;> exact hsame rfl
    · cases h
  | renewLease reply =>
    simp only [move] at h
    split at h
    · cases h
      rcases reply with exc | _ | _ <;> exact hsame rfl
    · cases h
  | execution k db a =>
    obtain ⟨e, x, -, -, rfl⟩ := onExecution_some h
    exact hsame rfl

end Moves

/-! ### What holds throughout -/

/-- **The cap is kept**, and `pending` misses nothing. -/
structure Capped (maxConcurrency : ℤ) (s : Process) : Prop where
  nodup : s.pending.Nodup
  known : ∀ k ∈ s.pending, k < s.executions.length
  kept : ∀ k, s.unfinished k → k ∈ s.pending
  cap : (s.pending.length : ℤ) ≤ max maxConcurrency 0
  /-- A claim is made only for a free slot. -/
  room : s.main = .claiming → (s.pending.length : ℤ) < maxConcurrency
  idle : s.main = .sleeping → s.pending = []
  stopped : s.main = .draining ∨ s.main = .ended → s.running = false

section Invariant

variable {w : Worker} {maxConcurrency : ℤ} {s s' : Process} {m : Move}

lemma capped_start (maxConcurrency : ℤ) : Capped maxConcurrency {} where
  nodup := List.nodup_nil
  known := by simp
  kept := by simp [unfinished]
  cap := by simp
  room := nofun
  idle := nofun
  stopped := by simp

lemma Capped.lose (h : Capped maxConcurrency s) (hexec : s'.executions = s.executions)
    (hp : s'.pending = s.pending ∨ s'.pending = s.pending.filter s.unfinished) :
    s'.pending.Nodup ∧ (∀ k ∈ s'.pending, k < s'.executions.length) ∧
      (∀ k, s'.unfinished k → k ∈ s'.pending) ∧ s'.pending.length ≤ s.pending.length := by
  have hun : ∀ k, s'.unfinished k = s.unfinished k := fun k => by rw [unfinished, hexec]; rfl
  rcases hp with hp | hp <;> rw [hp, hexec]
  · exact ⟨h.nodup, h.known, fun k hk => h.kept k (hun k ▸ hk), le_rfl⟩
  · refine ⟨h.nodup.filter _, fun k hk => h.known k (List.mem_of_mem_filter hk), fun k hk => ?_,
      List.length_filter_le _ _⟩
    rw [hun] at hk
    exact List.mem_filter.2 ⟨h.kept k hk, hk⟩

lemma Capped.turn (h : Capped maxConcurrency s) (ht : Turn maxConcurrency s s')
    (hexec : s'.executions = s.executions) (hrun : s.running = false → s'.running = false) :
    Capped maxConcurrency s' := by
  have hp : s'.pending = s.pending ∨ s'.pending = s.pending.filter s.unfinished := by
    cases ht with
    | clears _ _ kept => exact .inr kept
    | loop _ _ kept _ | claims _ _ kept _ | awaits _ _ kept | wakes _ _ kept | drained _ _ kept =>
      exact .inl kept
  obtain ⟨hnodup, hknown, hkept, hle⟩ := h.lose hexec hp
  refine ⟨hnodup, hknown, hkept, ?_, fun hmain => ?_, fun hmain => ?_, fun hmain => ?_⟩
  · have := h.cap
    omega
  · cases ht with
    | claims _ _ kept room => rwa [kept]
    | loop _ is => exact absurd hmain is.1
    | awaits _ is =>
      rw [is] at hmain
      split at hmain <;> cases hmain
    | wakes _ is | clears _ is | drained _ is =>
      rw [is] at hmain
      cases hmain
  · cases ht with
    | awaits _ is kept =>
      rw [is] at hmain
      split at hmain
      · rwa [kept]
      · cases hmain
    | loop _ is => exact absurd hmain is.2
    | claims _ is | wakes _ is | clears _ is | drained _ is =>
      rw [is] at hmain
      cases hmain
  · apply hrun
    cases ht with
    | loop _ _ _ ended => exact ended hmain
    | drained was => exact h.stopped (.inl was)
    | awaits _ is =>
      rw [is] at hmain
      split at hmain <;> simp at hmain
    | claims _ is | wakes _ is | clears _ is =>
      rw [is] at hmain
      simp at hmain

lemma Capped.dispatched (h : Capped maxConcurrency s) (hm : s.main = .claiming) (run : RunRow) :
    Capped maxConcurrency { s.dispatch w run with main := .fill } where
  nodup := by
    refine List.nodup_append.2 ⟨h.nodup, by simp, fun k hk n hn => ?_⟩
    have := h.known k hk
    rw [List.mem_singleton.1 hn]
    omega
  known := by
    intro k hk
    change k < (s.executions ++ [_]).length
    rw [List.length_append, List.length_singleton]
    rcases List.mem_append.1 hk with hk | hk
    · have := h.known k hk
      omega
    · rw [List.mem_singleton.1 hk]
      omega
  kept := by
    intro k hk
    rcases lt_trichotomy k s.executions.length with hlt | rfl | hlt
    · have hk' : s.unfinished k := by
        simpa [unfinished, dispatch, List.getElem?_append_left hlt] using hk
      exact List.mem_append_left _ (h.kept k hk')
    · exact List.mem_append_right _ (List.mem_singleton.2 rfl)
    · have hnone : ∀ e : Execution, (s.executions ++ [e])[k]? = none := by
        intro e
        rw [List.getElem?_eq_none_iff, List.length_append, List.length_singleton]
        omega
      simp [unfinished, dispatch, hnone] at hk
  cap := by
    have := h.room hm
    change (((s.pending ++ [_]).length : ℕ) : ℤ) ≤ _
    rw [List.length_append, List.length_singleton]
    omega
  room := nofun
  idle := nofun
  stopped := by simp

lemma Capped.await (h : Capped maxConcurrency s) : Capped maxConcurrency s.await where
  nodup := h.nodup
  known := h.known
  kept := h.kept
  cap := h.cap
  room := by
    unfold Process.await
    split <;> simp
  idle := by
    unfold Process.await
    split <;> simp_all
  stopped := by
    unfold Process.await
    split <;> simp

/-- **Every step keeps the cap.** -/
theorem Capped.step (h : Capped maxConcurrency s) (hs : s.step w maxConcurrency m = some s') :
    Capped maxConcurrency s' := by
  have hrun := (running_step hs).1
  by_cases hmain : m = .main
  · subst hmain
    obtain ⟨ht, hexec⟩ := onMain_turn (step_some hs).2
    exact h.turn ht hexec hrun
  by_cases hclaim : ∃ reply, m = .claim reply
  · obtain ⟨reply, rfl⟩ := hclaim
    have hmove := (step_some hs).2
    simp only [move] at hmove
    split at hmove
    · rename_i hm
      cases hmove
      rcases reply with exc | _ | run
      · exact ⟨h.nodup, h.known, h.kept, h.cap, (by simp [onClaim]), (by simp [onClaim]), by simp [onClaim]⟩
      · exact h.await
      · exact h.dispatched hm run
    · cases hmove
  · obtain ⟨hm, hp, hident, hun⟩ := step_aside hs hmain fun reply hr => hclaim ⟨reply, hr⟩
    have hlen : s'.executions.length = s.executions.length := by
      simpa using congrArg List.length hident
    refine ⟨hp ▸ h.nodup, ?_, ?_, hp ▸ h.cap, hm ▸ hp ▸ h.room, hm ▸ hp ▸ h.idle, ?_⟩
    · rw [hp, hlen]
      exact h.known
    · rw [hp]
      exact fun k hk => h.kept k (hun k hk)
    · rw [hm]
      exact fun hended => hrun (h.stopped hended)

end Invariant

/-! ### Runs -/

section Runs

variable {w : Worker} {maxConcurrency : ℤ} {s s' : Process}

lemma play_cons {m : Move} {moves : List Move} (h : play w maxConcurrency Any s (m :: moves) = some s') :
    ∃ s₁, s.step w maxConcurrency m = some s₁ ∧ play w maxConcurrency Any s₁ moves = some s' := by
  rw [play, if_pos (show Any s m from trivial)] at h
  exact Option.bind_eq_some_iff.1 h

lemma Capped.play {moves : List Move} (h : Capped maxConcurrency s)
    (hs : play w maxConcurrency Any s moves = some s') : Capped maxConcurrency s' := by
  induction moves generalizing s with
  | nil =>
    cases hs
    exact h
  | cons m moves ih =>
    obtain ⟨s₁, hs₁, hrest⟩ := play_cons hs
    exact ih (h.step hs₁) hrest

lemma ident_step {m : Move} (h : s.step w maxConcurrency m = some s') :
    s'.executions.map ident =
      s.executions.map ident ++ ((got m).map fun run => (run.id, run.jobId)).toList := by
  by_cases hmain : m = .main
  · subst hmain
    rw [(onMain_turn (step_some h).2).2]
    simp [got]
  by_cases hclaim : ∃ reply, m = .claim reply
  · obtain ⟨reply, rfl⟩ := hclaim
    have hmove := (step_some h).2
    simp only [move] at hmove
    split at hmove
    · cases hmove
      rcases reply with exc | _ | run
      · simp [onClaim, got]
      · simp [onClaim, await, got]
      · simp [onClaim, dispatch, ident, got]
    · cases hmove
  · obtain ⟨-, -, hident, -⟩ := step_aside h hmain fun reply hr => hclaim ⟨reply, hr⟩
    have hgot : got m = none := by
      unfold got
      split
      · exact absurd ⟨_, rfl⟩ hclaim
      · rfl
    rw [hident, hgot]
    simp

/-- **What is claimed is dispatched**, once each and in this order. -/
lemma ident_play {moves : List Move} (h : play w maxConcurrency Any s moves = some s') :
    s'.executions.map ident =
      s.executions.map ident ++ (moves.filterMap got).map fun run => (run.id, run.jobId) := by
  induction moves generalizing s with
  | nil =>
    cases h
    simp
  | cons m moves ih =>
    obtain ⟨s₁, hs₁, hrest⟩ := play_cons h
    rw [ih hrest, ident_step hs₁, List.append_assoc]
    cases hm : got m <;> simp [hm]

lemma stopped_play {moves : List Move} (h : play w maxConcurrency Any s moves = some s')
    (hs' : s'.running = false) : s.running = false ∨ .stop ∈ moves := by
  induction moves generalizing s with
  | nil =>
    cases h
    exact .inl hs'
  | cons m moves ih =>
    obtain ⟨s₁, hs₁, hrest⟩ := play_cons h
    rcases ih hrest with hstopped | hmem
    · rcases (running_step hs₁).2 hstopped with hs | hm
      · exact .inl hs
      · exact .inr (hm ▸ List.mem_cons_self)
    · exact .inr (List.mem_cons_of_mem _ hmem)

/-- A pass that does not raise leaves nothing in `pending` that has finished. -/
lemma Capped.pass (h : Capped maxConcurrency s) {m : Move}
    (hs : s.step w maxConcurrency m = some s') (hends : s.PassEnds s') :
    ∀ k ∈ s'.pending, s'.unfinished k := by
  obtain ⟨hwas, his⟩ := hends
  have hmain : m = .main := by
    by_contra hne
    by_cases hclaim : ∃ reply, m = .claim reply
    · obtain ⟨reply, rfl⟩ := hclaim
      have hmove := (step_some hs).2
      simp only [move] at hmove
      split at hmove
      · rename_i hm
        rw [hm] at hwas
        simp at hwas
      · cases hmove
    · obtain ⟨hm, -⟩ := step_aside hs hne fun reply hr => hclaim ⟨reply, hr⟩
      rw [← hm, his] at hwas
      simp at hwas
  subst hmain
  obtain ⟨ht, hexec⟩ := onMain_turn (step_some hs).2
  have hun : ∀ k, s'.unfinished k = s.unfinished k := fun k => by rw [unfinished, hexec]; rfl
  intro k hk
  rw [hun]
  cases ht with
  | clears _ _ kept =>
    rw [kept] at hk
    exact (List.mem_filter.1 hk).2
  | wakes was _ kept =>
    rcases was with hm | hm
    · rw [kept, h.idle hm] at hk
      cases hk
    · rw [hm] at hwas
      simp at hwas
  | loop was | claims was | awaits was | drained was =>
    rw [was] at hwas
    simp at hwas

/-! #### The loop never wedges -/

def ComesToClaim (w : Worker) (maxConcurrency : ℤ) (s : Process) : Prop :=
  ∃ n s', play w maxConcurrency Any s (List.replicate n .main) = some s' ∧ s'.main = .claiming

lemma ComesToClaim.of_step (s' : Process) (hs : s.step w maxConcurrency .main = some s')
    (h : ComesToClaim w maxConcurrency s') : ComesToClaim w maxConcurrency s := by
  obtain ⟨n, s₂, hplay, hmain⟩ := h
  refine ⟨n + 1, s₂, ?_, hmain⟩
  rw [List.replicate_succ, play, if_pos (show Any s .main from trivial), hs]
  exact hplay

lemma step_main (hb : s.heartbeat ≠ .loop) (h : s.onMain maxConcurrency = some s') :
    s.step w maxConcurrency .main = some s' := by
  rw [step, if_pos (show s.allows .main from hb)]
  exact h

/-- At the test of the pass, with a slot that nothing pending has. -/
lemma comesToClaim_fill (hm : s.main = .fill) (hrun : s.running = true) (hb : s.heartbeat ≠ .loop)
    (hroom : (s.pending.length : ℤ) < maxConcurrency) : ComesToClaim w maxConcurrency s := by
  refine .of_step { s with main := .claiming } (step_main hb ?_) ⟨0, _, rfl, rfl⟩
  simp [onMain, hm, hrun, hroom]

lemma comesToClaim_loop (hm : s.main = .loop) (hrun : s.running = true) (hb : s.heartbeat ≠ .loop)
    (hroom : (s.pending.length : ℤ) < maxConcurrency) : ComesToClaim w maxConcurrency s := by
  refine .of_step { s with main := .fill } (step_main hb ?_)
    (comesToClaim_fill rfl hrun hb hroom)
  simp [onMain, hm, hrun]

/-- Where it waits, with a slot that no unfinished execution has. -/
lemma comesToClaim_waiting (hm : s.main = .waiting) (hrun : s.running = true)
    (hb : s.heartbeat ≠ .loop) (hfree : ((s.pending.filter s.unfinished).length : ℤ) < maxConcurrency) :
    ComesToClaim w maxConcurrency s := by
  refine .of_step { s with main := .loop, pending := s.pending.filter s.unfinished }
    (step_main hb ?_) (comesToClaim_loop rfl hrun hb hfree)
  simp [onMain, hm]

/-- At the test of the pass, with a slot that no unfinished execution has. -/
lemma comesToClaim_free (hm : s.main = .fill) (hrun : s.running = true) (hb : s.heartbeat ≠ .loop)
    (hfree : ((s.pending.filter s.unfinished).length : ℤ) < maxConcurrency) :
    ComesToClaim w maxConcurrency s := by
  by_cases hroom : (s.pending.length : ℤ) < maxConcurrency
  · exact comesToClaim_fill hm hrun hb hroom
  · have hne : s.pending ≠ [] := by
      intro hnil
      rw [hnil] at hroom hfree
      exact hroom hfree
    refine .of_step { s with main := .waiting } (step_main hb ?_)
      (comesToClaim_waiting rfl hrun hb hfree)
    simp [onMain, hm, hroom, await, hne]

/-- **A slot that is free is used**, wherever the main loop is. -/
theorem comesToClaim (h : Capped maxConcurrency s) (hrun : s.running = true)
    (hb : s.heartbeat ≠ .loop)
    (hfree : ((s.pending.filter s.unfinished).length : ℤ) < maxConcurrency) :
    ComesToClaim w maxConcurrency s := by
  have hloop : ∀ {s : Process}, s.main = .loop → s.running = true → s.heartbeat ≠ .loop →
      ((s.pending.filter s.unfinished).length : ℤ) < maxConcurrency →
        ComesToClaim w maxConcurrency s := by
    intro s hm hrun hb hfree
    refine .of_step { s with main := .fill } (step_main hb ?_)
      (comesToClaim_free rfl hrun hb hfree)
    simp [onMain, hm, hrun]
  cases hm : s.main with
  | loop => exact hloop hm hrun hb hfree
  | fill => exact comesToClaim_free hm hrun hb hfree
  | claiming => exact ⟨0, s, rfl, hm⟩
  | sleeping =>
    refine .of_step { s with main := .loop } (step_main hb ?_) (hloop rfl hrun hb hfree)
    simp [onMain, hm]
  | waiting => exact comesToClaim_waiting hm hrun hb hfree
  | backingOff =>
    refine .of_step { s with main := .loop } (step_main hb ?_) (hloop rfl hrun hb hfree)
    simp [onMain, hm]
  | draining =>
    rw [h.stopped (.inl hm)] at hrun
    cases hrun
  | ended =>
    rw [h.stopped (.inr hm)] at hrun
    cases hrun

/-- **The concurrency cap is kept and never wedges**, whatever the claims bring and whenever `stop()`
is called. Every run that is claimed is dispatched once; what has not finished is in `pending`, which
never holds more than the cap; a pass that does not raise leaves nothing there that has finished; a
claim that raises leaves the loop running and `pending` as it is, and nothing but `stop()` ends the
loop. As long as fewer executions than the cap are unfinished, the loop comes to claim again. -/
theorem cap_kept {moves : List Move} (h : play w maxConcurrency Any {} moves = some s) :
    s.executions.map ident = (moves.filterMap got).map (fun run => (run.id, run.jobId)) ∧
    (∀ k, s.unfinished k → k ∈ s.pending) ∧
    s.pending.Nodup ∧ (s.pending.length : ℤ) ≤ max maxConcurrency 0 ∧
    (∀ m s', s.step w maxConcurrency m = some s' → s.PassEnds s' →
      ∀ k ∈ s'.pending, s'.unfinished k) ∧
    (∀ e s', s.step w maxConcurrency (.claim (.error e)) = some s' →
      s' = { s with main := .backingOff }) ∧
    (s.main = .draining ∨ s.main = .ended → .stop ∈ moves) ∧
    (s.running = true → s.heartbeat ≠ .loop →
      ((s.pending.filter s.unfinished).length : ℤ) < maxConcurrency →
        ComesToClaim w maxConcurrency s) := by
  have hcap := (capped_start maxConcurrency).play h
  refine ⟨by simpa using ident_play h, hcap.kept, hcap.nodup, hcap.cap,
    fun m s' hs hends => hcap.pass hs hends, fun e s' hs => ?_, fun hended => ?_,
    fun hrun hb hfree => comesToClaim hcap hrun hb hfree⟩
  · have hmove := (step_some hs).2
    simp only [move] at hmove
    split at hmove
    · cases hmove
      rfl
    · cases hmove
  · exact (stopped_play h (hcap.stopped hended)).resolve_left (by simp)

/-- A worker with a cap of one is in the midst of a task. -/
theorem cap_kept_one : ∃ s, play (.named "A") 1 Any {} working = some s ∧
    (∀ k, s.unfinished k → k ∈ s.pending) ∧ (s.pending.length : ℤ) ≤ max 1 0 := by
  have hall : (play (.named "A") 1 Any {} working).isSome = true := by decide
  obtain ⟨s, hs⟩ := Option.isSome_iff_exists.1 hall
  exact ⟨s, hs, (cap_kept hs).2.1, (cap_kept hs).2.2.2.1⟩

end Runs

end Process

end Pyreljob
