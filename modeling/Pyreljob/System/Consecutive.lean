import Pyreljob.Store.Integrity
import Pyreljob.System.Sequence

/-!
The records of a run.

A worker starts a task only when it knows that all tasks before it are done, and a record stays for as
long as its run does. So the records of a run are those of its first few tasks, without a gap, and the
body of each of them but the last has returned.
-/

namespace Pyreljob

open Lib

/-! ### What one transaction can do -/

section

variable {db db' : DB} {e : Env} {c : Call} {y : Except Exc c.Reply} {i pos : ℕ}

/-- A run that is not there, and whose key has been handed out, does not come back. -/
lemma run_absent (hx : c.exec db e = some (db', y)) (hf : e.Fresh db) (hi : i < db.runs.seq)
    (hnone : db.runs.get? i = none) : db'.runs.get? i = none := by
  cases hr : db'.runs.get? i with
  | none => rfl
  | some r' =>
    have hstep := exec_run hx i
    rw [hr, hnone] at hstep
    rcases hstep.jobId with ⟨-, hnew, -⟩ | ⟨r, h, -⟩
    · have := hf.2.1
      omega
    · cases h

/-- There is a record of the task, unless the run is gone for good. -/
def Lasts (i pos : ℕ) (db : DB) : Prop :=
  i < db.runs.seq ∧ (db.runs.get? i = none ∨ (db.record i pos).isSome)

lemma Lasts.exec (h : Lasts i pos db) (hx : c.exec db e = some (db', y)) (hf : e.Fresh db) :
    Lasts i pos db' := by
  refine ⟨h.1.trans_le (exec_runs_seq hx), ?_⟩
  rcases h.2 with hnone | hrec
  · exact .inl (run_absent hx hf h.1 hnone)
  · have hstep := exec_record hx i pos
    generalize db.record i pos = o, db'.record i pos = o' at hstep hrec ⊢
    cases hstep with
    | same => exact .inr hrec
    | erased _ _ hc => exact .inl (run_of_erases hx hc)
    | _ => exact .inr rfl

lemma TaskStep.origin {k : ℕ} {o : Option TaskRow} {t' : TaskRow} (h : TaskStep e k c o (some t')) :
    (∃ name n, c = .startTask t'.runId t'.position name n) ∨
      ∃ t, o = some t ∧ t.runId = t'.runId := by
  cases h with
  | inserted runId position name n => exact .inl ⟨name, n, rfl⟩
  | _ => exact .inr ⟨_, rfl, rfl⟩

lemma RecordStep.started {o o' : Option TaskRow} (h : RecordStep db e i pos c o o') (h' : o'.isSome) :
    o.isSome ∨ ∃ name n, c = .startTask i pos name n := by
  cases h with
  | same => exact .inl h'
  | inserted name n => exact .inr ⟨name, n, rfl⟩
  | erased => cases h'
  | _ => exact .inl rfl

end

/-! ### What the log says -/

section

variable {p p' : System} {pid i pos : ℕ}

lemma records_known (h : p.Reached System.NewIds) :
    ∀ t ∈ p.shared.tasks.rows, t.runId < p.shared.runs.seq := by
  induction h with
  | refl => simp [System.init, Table.empty]
  | tail hrun hmove ih =>
    intro t ht
    obtain ⟨l, hids, hstep⟩ := hmove
    rcases System.step_cases hstep with hsame | ⟨pid, c, e, y, -, hasks, hx, -⟩
    · rw [hsame] at ht ⊢
      exact ih t ht
    · have hrow := exec_task hx t.id
      rw [show Table.get? _ t.id = some t from Table.get?_of_mem ht] at hrow
      refine Nat.lt_of_lt_of_le ?_ (exec_runs_seq hx)
      rcases hrow.origin with ⟨name, n, rfl⟩ | ⟨t₀, ht₀, hid⟩
      · obtain ⟨k, -, ⟨workerId, now, leaseExpiry, run, hclaim⟩, -⟩ := pending_sequential hrun hasks
        exact (runOf_of_claimed hrun hclaim).1
      · exact hid ▸ ih t₀ (Table.mem_of_get? ht₀)

lemma lasts_of_record (h : p.Reached System.NewIds) (hrec : (p.shared.record i pos).isSome) :
    Lasts i pos p.shared := by
  obtain ⟨t, ht⟩ := Option.isSome_iff_exists.1 hrec
  have hm : t ∈ p.shared.tasks.select (DB.At i pos) := List.mem_of_mem_head? ht
  obtain ⟨hrow, hi, -⟩ := Table.mem_select.1 hm
  exact ⟨hi ▸ records_known h t (Table.mem_of_get? hrow), .inr hrec⟩

lemma HasStarted.lasts (h : p.Reached System.NewIds) (hk : HasStarted i pos (Pool.said pid p.log)) :
    Lasts i pos p.shared := by
  obtain ⟨name, n, hsaid⟩ := hk
  obtain ⟨p₁, p₂, a, f, h₁, hact, hmove, hrest⟩ := answered_of_said h hsaid
  have hans := hact.answered
  cases a with
  | commit e =>
    obtain ⟨-, ⟨t, ht, -⟩, -⟩ := startTask_record (onePer_of_reached h₁) hans
    exact hrest.stays Lasts.exec (lasts_of_record (h₁.trans hmove) (Option.isSome_of_eq_some ht))
  | fail exc => cases (Prod.mk.inj (Option.some.inj hans)).2
  | _ => cases hans

lemma KnowsDone.lasts (h : p.Reached System.NewIds) (hk : KnowsDone i pos (Pool.said pid p.log)) :
    Lasts i pos p.shared := by
  rcases hk with ⟨v, hsaid⟩ | ⟨records, hsaid, t, ht, rfl, hs⟩
  · -- its body has run, and was started before that
    obtain ⟨p₁, p₂, a, f, h₁, hact, hmove, hrest⟩ := answered_of_said h hsaid
    obtain ⟨k, -, n, ctx, state, hran⟩ := pending_sequential h₁ hact.pending
    obtain ⟨p₃, p₄, a', f', h₃, hact', hmove', hrest'⟩ := answered_of_said h₁ hran
    obtain ⟨k', -, -, hstarted⟩ := pending_sequential h₃ hact'.pending
    have hrun : System.Run System.NewIds p₃ p := hmove'.trans (hrest'.trans (hmove.trans hrest))
    exact hrun.stays Lasts.exec (hstarted.lasts h₃)
  · obtain ⟨p₁, p₂, a, f, h₁, hact, hmove, hrest⟩ := answered_of_said h hsaid
    rw [records_of_answered hact, DB.tasksOf, List.mem_insertionSort] at ht
    obtain ⟨hmem, rfl⟩ := Table.mem_select.1 ht
    have hrun : System.Run System.NewIds p₁ p := hmove.trans hrest
    exact hrun.stays Lasts.exec (lasts_of_record h₁ (record_isSome (Table.mem_of_get? hmem)))

/-- Before a task that has a record, every task has one, and its body has returned. -/
lemma records_closed (h : p.Reached System.NewIds) (hrec : (p.shared.record i pos).isSome) {pos' : ℕ}
    (hpos : pos' < pos) : Lasts i pos' p.shared ∧ ∃ v, Finished i pos' v p.log := by
  induction h with
  | refl => cases hrec
  | @tail p₁ p₂ hrun hmove ih =>
    obtain ⟨l', hl'⟩ := Pool.log_prefix (.single hmove)
    obtain ⟨l, hids, hstep⟩ := hmove
    have hlater : (Lasts i pos' p₁.shared ∧ ∃ v, Finished i pos' v p₁.log) →
        Lasts i pos' p₂.shared ∧ ∃ v, Finished i pos' v p₂.log := by
      rintro ⟨hlasts, v, hfin⟩
      have hrun' : System.Run System.NewIds p₁ p₂ := .single ⟨l, hids, hstep⟩
      exact ⟨hrun'.stays Lasts.exec hlasts, v, hl' ▸ hfin.append l'⟩
    rcases System.step_cases hstep with hsame | ⟨pid, c, e, y, -, hasks, hx, -⟩
    · exact hlater (ih (hsame ▸ hrec))
    · rcases (exec_record hx i pos).started hrec with hwas | ⟨name, n, rfl⟩
      · exact hlater (ih hwas)
      · obtain ⟨k, -, -, hknows⟩ := pending_sequential hrun hasks
        exact hlater ⟨(hknows pos' hpos).lasts hrun, (hknows pos' hpos).finished hrun⟩

end

/-! ### The records of a run -/

lemma eq_range'_of_closed {l : List ℕ} {a : ℕ} (hl : l.Pairwise (· < ·)) (ha : ∀ n ∈ l, a ≤ n)
    (hclosed : ∀ n ∈ l, ∀ m, a ≤ m → m < n → m ∈ l) : l = List.range' a l.length := by
  induction l generalizing a with
  | nil => rfl
  | cons n l ih =>
    obtain ⟨hlt, hrest⟩ := List.pairwise_cons.1 hl
    have hn : n = a := by
      by_contra hne
      have hmem : a ∈ n :: l := hclosed n List.mem_cons_self a le_rfl
        (lt_of_le_of_ne (ha n List.mem_cons_self) (Ne.symm hne))
      rcases List.mem_cons.1 hmem with rfl | hmem
      · exact hne rfl
      · have := hlt a hmem
        have := ha n List.mem_cons_self
        omega
    subst hn
    rw [List.length_cons, List.range'_succ]
    refine congrArg (List.cons n) (ih hrest (fun m hm => hlt m hm) fun m hm k hk hkm => ?_)
    have hmem := hclosed m (List.mem_cons_of_mem n hm) k (by omega) hkm
    rcases List.mem_cons.1 hmem with rfl | hmem
    · omega
    · exact hmem

end Pyreljob
