import Pyreljob.System.Claim
import Pyreljob.System.Consecutive
import Pyreljob.System.Ending

/-!
No run is started before it is due.

A run waits for a time when it was enqueued for it, when one of its tasks is to be tried again then, or
when it tries again a whole run that has failed. Nothing moves this time as long as the run waits, so
the worker that takes the run has read a later time from its clock.
-/

namespace Pyreljob

open Lib

/-- The run is due at the time and waits for it, or has ended, or is gone for good. -/
def WaitsFor (i : ℕ) (t : Time) (db : DB) : Prop :=
  i < db.runs.seq ∧ ∀ r, db.runs.get? i = some r →
    (r.status = .ready ∨ r.status.isDone) ∧ r.scheduledAt = some t

/-- The event is a claim that won the run. -/
def Claims (i : ℕ) (ev : Ev) : Prop := ∃ c, claimOf ev = some c ∧ c.runId = i

section

variable {db db' : DB} {e : Env} {c : Call} {y : Except Exc c.Reply} {pid i : ℕ} {t : Time}
variable {p p' : System}

lemma WaitsFor.exec (h : WaitsFor i t db) (hx : c.exec db e = some (db', y)) (hf : e.Fresh db) :
    WaitsFor i t db' ∨ Claims i ⟨pid, .db c, .commit e, y, db, db'⟩ := by
  obtain ⟨hseq, hwait⟩ := h
  have hseq' : i < db'.runs.seq := hseq.trans_le (exec_runs_seq hx)
  have hrow := exec_run hx i
  cases hr : db.runs.get? i with
  | none =>
    refine .inl ⟨hseq', fun r' hr' => ?_⟩
    rw [run_absent hx hf hseq hr] at hr'
    cases hr'
  | some r =>
    have hwas := hwait r hr
    have hnot : r.status ≠ .running := by
      rcases hwas.1 with hready | hdone
      · rw [hready]
        decide
      · intro hs
        rw [hs] at hdone
        cases hdone
    -- what it is enough to know of the row that is left
    have hkept : (∀ r', db'.runs.get? i = some r' → (r'.status = r.status ∨ r'.status.isDone) ∧
        r'.scheduledAt = r.scheduledAt) → WaitsFor i t db' := by
      refine fun hall => ⟨hseq', fun r' hr' => ?_⟩
      obtain ⟨hs, ht⟩ := hall r' hr'
      refine ⟨?_, ht.trans hwas.2⟩
      rcases hs with hs | hdone
      · rw [hs]
        exact hwas.1
      · exact .inr hdone
    rw [hr] at hrow
    generalize db'.runs.get? i = o' at hrow hkept
    cases hrow with
    | same | ctxSet | progressSet =>
      refine .inl (hkept ?_)
      rintro _ ⟨⟩
      exact ⟨.inl rfl, rfl⟩
    | cancelled | jobCancelled | swept =>
      refine .inl (hkept ?_)
      rintro _ ⟨⟩
      exact ⟨.inr rfl, rfl⟩
    | jobDeleted | pruned =>
      refine .inl (hkept ?_)
      rintro _ ⟨⟩
    | claimed _ w now leaseExpiry hcl =>
      simp only [Call.exec, Option.some.injEq, Prod.mk.injEq] at hx
      obtain ⟨-, rfl⟩ := hx
      have hwon : (db.claimRun i w now leaseExpiry).2 = some (DB.claimed w now r) := by
        simp [DB.claimRun, hr, hcl]
      exact .inr ⟨⟨pid, i, w, now, leaseExpiry, DB.claimed w now r⟩, by simp [claimOf, claimIn, hwon],
        rfl⟩
    | renewed _ _ _ hrun | completed _ _ hrun | retried _ _ _ hrun | failed _ _ hrun =>
      exact absurd hrun hnot

lemma WaitsFor.step {l : Act} (h : WaitsFor i t p.shared) (hids : System.NewIds p l)
    (hstep : Pool.step answer Kind.program p l = some p') :
    (p'.log = p.log ∧ WaitsFor i t p'.shared) ∨
      ∃ ev, p'.log = p.log ++ [ev] ∧ ev.post = p'.shared ∧ (WaitsFor i t p'.shared ∨ Claims i ev) := by
  rcases System.step_cases hstep with hsame | ⟨pid, c, e, y, rfl, -, hx, hlog⟩
  · rw [hsame]
    cases l with
    | spawn k => exact .inl ⟨(Pool.step_spawn hstep).2.1, h⟩
    | crash pid => exact .inl ⟨(Pool.step_crash hstep).2.1, h⟩
    | act pid a =>
      obtain ⟨r, f, y, hact⟩ := Pool.step_act hstep
      exact .inr ⟨_, hact.logged, hsame, .inl h⟩
  · exact .inr ⟨_, hlog, rfl, h.exec hx hids⟩

lemma WaitsFor.run (hrun : System.Run System.NewIds p p') (h : WaitsFor i t p.shared) {l : List Ev}
    (hl : p'.log = p.log ++ l) (hno : ∀ ev ∈ l, ¬ Claims i ev) :
    WaitsFor i t p'.shared ∧ ∀ ev ∈ l, WaitsFor i t ev.post := by
  induction hrun generalizing l with
  | refl =>
    obtain rfl := List.self_eq_append_right.1 hl
    exact ⟨h, by simp⟩
  | @tail p₁ p₂ hbefore hmove ih =>
    obtain ⟨l₁, hl₁⟩ := Pool.log_prefix hbefore
    obtain ⟨l₂, hl₂⟩ := Pool.log_prefix (.single hmove)
    obtain rfl : l = l₁ ++ l₂ := by
      rw [hl₂, hl₁, List.append_assoc] at hl
      exact (List.append_cancel_left hl).symm
    obtain ⟨hwaits, hall⟩ := ih hl₁ fun ev hev => hno ev (List.mem_append_left _ hev)
    obtain ⟨a, hids, hstep⟩ := hmove
    rcases hwaits.step hids hstep with ⟨hlog, hnext⟩ | ⟨ev, hlog, hpost, hnext⟩
    · obtain rfl := List.self_eq_append_right.1 (hlog.symm.trans hl₂)
      exact ⟨hnext, by simpa using hall⟩
    · obtain rfl := List.append_cancel_left (hl₂.symm.trans hlog)
      have hnext' := hnext.resolve_right (hno ev (by simp))
      refine ⟨hnext', fun ev' hev' => ?_⟩
      rcases List.mem_append.1 hev' with hev' | hev'
      · exact hall ev' hev'
      · rw [List.mem_singleton.1 hev', hpost]
        exact hnext'

lemma WaitsFor.due {r : RunRow} {now leaseExpiry : Time} (h : WaitsFor i t db)
    (hr : db.runs.get? i = some r) (hcan : DB.Claimable now leaseExpiry r) : t ≤ now := by
  obtain ⟨hs, ht⟩ := h.2 r hr
  rcases hcan with ⟨-, hall⟩ | ⟨hrunning, -⟩
  · rw [ht] at hall
    exact of_decide_eq_true hall
  · rw [hrunning] at hs
    rcases hs with hs | hs <;> cases hs

/-- **No run is started before it is due**: from the moment at which a run is due at `t`, for whatever
reason, until its next claim nothing makes it due at another time, and the worker that claims it has
read `t` or a later time from its clock. -/
theorem not_before_due {p : System} (h : p.Reached System.NewIds) {l₁ l₂ l₃ : List Ev} {e₁ e₂ : Ev}
    (hl : p.log = l₁ ++ e₁ :: l₂ ++ e₂ :: l₃) {r : RunRow} (hr : e₁.post.runs.get? i = some r)
    (hs : r.status = .ready) (ht : r.scheduledAt = some t) (hno : ∀ ev ∈ l₂, ¬ Claims i ev) {cl : Claim}
    (hcl : claimOf e₂ = some cl) (hi : cl.runId = i) :
    (∀ ev ∈ l₂, ∀ r', ev.post.runs.get? i = some r' →
      (r'.status = .ready ∨ r'.status.isDone) ∧ r'.scheduledAt = some t) ∧ t ≤ cl.now := by
  obtain ⟨q, q', hq, hrun, hpost, hpre, hlog⟩ := Pool.events_run h rfl hl
  have hwaits : WaitsFor i t q.shared := by
    rw [← hpost] at hr
    refine ⟨Table.lt_seq_of_get? hr, fun r' hr' => ?_⟩
    obtain rfl : r = r' := Option.some.inj (hr.symm.trans hr')
    exact ⟨.inl hs, ht⟩
  obtain ⟨hwaits', hall⟩ := hwaits.run hrun hlog hno
  refine ⟨fun ev hev => (hall ev hev).2, ?_⟩
  obtain ⟨ph, hinv⟩ := claimInv_of_reached h
  have hmem : e₂ ∈ p.log := by simp [hl]
  obtain ⟨r', -, hr', hcan, -⟩ := hinv.safe e₂ hmem cl hcl
  rw [← hpre, hi] at hr'
  exact hwaits'.due hr' hcan

/-- A task raises at the second 2, its run is to be tried again at once, and is claimed at the second 3. -/
def triedAgain : List Act :=
  .spawn (.enqueue { job := "m.J", maxAttempts := 2 } none) :: commits 0 1 0 ++
  claims 1 1 ++ attemptRaises 1 2 ++ claims 2 3

theorem not_before_due_triedAgain : ∃ (p : System) (l₁ l₂ l₃ : List Ev) (e₁ e₂ : Ev) (r : RunRow)
    (cl : Claim), System.init.play System.NewIds triedAgain = some p ∧
      p.log = l₁ ++ e₁ :: l₂ ++ e₂ :: l₃ ∧ e₁.post.runs.get? 0 = some r ∧ r.status = .ready ∧
      r.scheduledAt = some (seconds 2) ∧ claimOf e₂ = some cl ∧ cl.runId = 0 ∧ seconds 2 ≤ cl.now := by
  have hall : ((System.init.play System.NewIds triedAgain).any fun p =>
      ((p.log[12]?.bind fun ev => ev.post.runs.get? 0).any fun r =>
        r.status = .ready ∧ r.scheduledAt = some (seconds 2)) ∧
      ((p.log[16]?.bind claimOf).any fun cl => cl.runId = 0) ∧
      ((p.log.take 16).drop 13).all fun ev => (claimOf ev).isNone) = true := by decide
  obtain ⟨p, hp, hend⟩ := (Option.any_eq_true _ _).1 hall
  obtain ⟨hwaits, htakes, hnone⟩ := of_decide_eq_true hend
  obtain ⟨r, hrow, hdue⟩ := (Option.any_eq_true _ _).1 hwaits
  obtain ⟨hs, ht⟩ := of_decide_eq_true hdue
  obtain ⟨e₁, he₁, hr⟩ := Option.bind_eq_some_iff.1 hrow
  obtain ⟨cl, hclaim, hzero⟩ := (Option.any_eq_true _ _).1 htakes
  have hi : cl.runId = 0 := of_decide_eq_true hzero
  obtain ⟨e₂, he₂, hcl⟩ := Option.bind_eq_some_iff.1 hclaim
  have hl := Pool.split_between he₁ he₂ (by decide)
  have hno : ∀ ev ∈ (p.log.take 16).drop 13, ¬ Claims 0 ev := by
    rintro ev hev ⟨cl', hcl', -⟩
    have hisNone := List.all_eq_true.1 hnone ev hev
    rw [hcl'] at hisNone
    cases hisNone
  exact ⟨p, _, _, _, e₁, e₂, r, cl, hp, hl, hr, hs, ht, hcl, hi,
    (not_before_due (Pool.run_of_play hp) hl hr hs ht hno hcl hi).2⟩

end

end Pyreljob
