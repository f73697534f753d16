import Pyreljob.System.Compensation

/-!
The saga that a worker implements.

A script says what every attempt at every task of a run does. The reference reads off it where the
run gives up, and what is left of it then: it knows of positions and attempts only. An execution by
workers is spread over many claims, each of which begins with what is in the database, so the two are
compared where a worker stands: at a position, after so many attempts at its task.
-/

namespace Pyreljob

open Lib

/-- What the attempts at the tasks of a run do. -/
structure Script where
  /-- What the attempt with this number, at the task at this position, returns or raises. -/
  outcome : ℕ → ℕ → Outcome
  /-- The state in which it leaves the context. -/
  leaves : ℕ → ℕ → Dict Value
  /-- No body gives in to a cancellation. -/
  plain : ∀ pos n exc, outcome pos n = .error exc → exc.isJobCancelled = false

namespace Script

variable (S : Script) (i : ℕ) (m : ℤ) (cls : JobCls)

/-! ### The reference -/

/-- All attempts that the task at the position is allowed raise. -/
def Fails (pos : ℕ) : Prop :=
  ∃ task, cls.tasks[pos]? = some task ∧
    ∀ n, 1 ≤ n → n ≤ allowed m task → (S.outcome pos n).isOk = false

/-- The number of the last attempt at a task: the first that returns, or the last that is allowed. -/
def last (pos : ℕ) : ℕ :=
  match cls.tasks[pos]? with
  | none => 0
  | some task =>
    (((List.range (allowed m task)).find? fun n => (S.outcome pos (n + 1)).isOk).map (· + 1)).getD
      (allowed m task)

/-- What a task returns in the end. -/
def value (pos : ℕ) : Option Value := (S.outcome pos (S.last m cls pos)).toOption

def text (pos n : ℕ) : Option String :=
  match S.outcome pos n with
  | .ok _ => none
  | .error exc => some exc.text

/-- The results of the tasks before the position. -/
def results : ℕ → Dict Value
  | 0 => []
  | pos + 1 =>
    match cls.tasks[pos]?, S.value m cls pos with
    | some task, some v => (results pos).set task.name v
    | _, _ => results pos

/-- The state of the context after `n` attempts at the task at the position. -/
def state : ℕ → ℕ → Dict Value
  | pos, n + 1 => S.leaves pos (n + 1)
  | pos + 1, 0 => S.leaves pos (S.last m cls pos)
  | 0, 0 => []

/-- What the record of a task says after `n` attempts that have raised. -/
def left (pos : ℕ) : ℕ → Option Mark
  | 0 => none
  | n + 1 => some ⟨.failed, n + 1, none, S.text pos (n + 1)⟩

def Done (pos : ℕ) (mark : Option Mark) : Prop :=
  ∃ v, S.value m cls pos = some v ∧ mark = some ⟨.succeeded, S.last m cls pos, some v, none⟩

/-- How often the run was given back for another attempt, when the worker comes to the position. -/
def deferrals (pos : ℕ) : ℕ := ∑ pos' ∈ Finset.range pos, (S.last m cls pos' - 1)

/-- The run has failed at the task at `K`, and everything before it was undone. -/
structure FailedAt (K : ℕ) (v : View) : Prop where
  status : v.status = some .failed
  error : v.error = S.text K (S.last m cls K)
  isSome : v.error.isSome
  mark : ∃ task, cls.tasks[K]? = some task ∧ v.mark K = some ⟨.failed, allowed m task, none, v.error⟩
  /-- Each one once, from the last to the first. -/
  undone : v.undos i = (List.range K).reverse
  compensated : ∀ pos < K, ∃ mark, v.mark pos = some mark ∧ mark.status = .compensated
  beyond : ∀ pos > K, v.mark pos = none

/-- The run has succeeded. -/
structure Succeeded (v : View) : Prop where
  status : v.status = some .succeeded
  result : v.result = some (.dict (S.results m cls cls.tasks.length))
  mark : ∀ pos < cls.tasks.length, S.Done m cls pos (v.mark pos)
  undone : v.undos i = []

/-- **The run has ended as the reference says.** -/
structure Ended (v : View) : Prop where
  failed : ∀ K, S.Fails m cls K → (∀ pos < K, ¬ S.Fails m cls pos) → S.FailedAt i m cls K v
  succeeded : (∀ K, ¬ S.Fails m cls K) → S.Succeeded i m cls v

/-- What a worker hears in a history of the run: bodies do what the script says, and nothing raises
but `next_runtime`. -/
def Obeys : (r : Req) → Except Exc r.Reply → Prop
  | .run runId pos n _, .ok (outcome, state) =>
    runId = i → outcome = S.outcome pos n ∧ state = S.leaves pos n
  | .db _, .error _ | .retryAt _, .error _ => False
  | _, _ => True

end Script

def defers (i : ℕ) : Said → Bool
  | ⟨.db (.failRun i' _ (some _)), .ok _⟩ => i' = i
  | _ => false

/-- A worker has failed the run for good, other than by the handler of `_execute`. -/
def givesUp (i : ℕ) : Said → Bool
  | ⟨.db (.failRun i' error none), .ok _⟩ => i' = i ∧ error ≠ "unhandled error"
  | _ => false

section

variable (S : Script) (i : ℕ) (m : ℤ) (cls : JobCls) (s : Saga)

/-- The tasks before `k` have succeeded, and `n` attempts at the one at `k` have raised. -/
structure Saga.Stands (k n : ℕ) : Prop where
  done : ∀ pos < k, S.Done m cls pos (s.mark pos)
  tip : s.Tip k
  raised : ∀ n', 1 ≤ n' → n' ≤ n → (S.outcome k n').isOk = false
  spare : n = 0 ∨ ∃ task, cls.tasks[k]? = some task ∧ n < allowed m task
  undos : s.undos i = []
  deferred : s.story.countP (defers i) = S.deferrals m cls k + n
  kept : s.story.any (givesUp i) = false

/-- The worker has been given the context of the reference. -/
def Script.Given (k n : ℕ) (ctx : TaskContext) : Prop :=
  ctx.results = S.results m cls k ∧ ctx.state = S.state m cls k n

/-- The run may be claimed here: the database is the reference's. -/
def Saga.Ready : Prop :=
  ∃ k n, s.Stands S i m cls k n ∧ s.mark k = S.left k n ∧
    ∀ ctx, s.Feeds ctx → S.Given m cls k n ctx

/-- The task at `K` has failed for good, and the tasks from `k` on are undone. -/
structure Saga.Unwinds (error : String) (K k : ℕ) : Prop where
  fails : S.Fails m cls K
  text : S.text K (S.last m cls K) = some error
  mark : ∃ task, cls.tasks[K]? = some task ∧ s.mark K = some ⟨.failed, allowed m task, none, some error⟩
  done : ∀ pos < k, S.Done m cls pos (s.mark pos)
  undone : ∀ pos, k ≤ pos → pos < K →
    ¬ S.Fails m cls pos ∧ ∃ mark, s.mark pos = some mark ∧ mark.status = .compensated
  tip : s.Tip K
  le : k ≤ K
  undos : s.undos i = ((List.range K).drop k).reverse

/-- **The worker implements the reference.** -/
def sagaOutline : Outline where
  hears := fun _ r y => S.Obeys i r y
  rests := fun v => (v.status.any RunStatus.inFlight → v.status = some .ready ∧ v.Ready S i m cls) ∧
    (v.status = some .failed ∧ v.story.any (givesUp i) ∨ v.status = some .succeeded →
      S.Ended i m cls v)
  stops := fun _ => True
  asks := fun _ r => (∀ pos n ctx, r = .run i pos n ctx → S.Given m cls pos (n - 1) ctx) ∧
    ∀ error, r = .db (.failRun i error none) → error ≠ "unhandled error"
  enters := fun s => s.Ready S i m cls
  comes := fun k ctx s => ∃ n, s.Stands S i m cls k n ∧ s.mark k = S.left k n ∧ S.Given m cls k n ctx
  runs := fun k ctx s => ∃ n, s.Stands S i m cls k n ∧ s.mark k = some ⟨.running, n + 1, none, none⟩ ∧
    S.Given m cls k n ctx
  undoes := fun error k s => ∃ K, s.Unwinds S i m cls error K k
  throws := fun _ => False

end

section

variable {S : Script} {i : ℕ} {m : ℤ} {cls : JobCls} {s : Saga} {v : View} {k n pos : ℕ}
variable {task : TaskCls} {r : Req} {y : Except Exc r.Reply}

/-! ### The last attempt -/

lemma Script.last_of_ok {value : Value} (htask : cls.tasks[pos]? = some task) (hn : n < allowed m task)
    (hraised : ∀ n', 1 ≤ n' → n' ≤ n → (S.outcome pos n').isOk = false)
    (hok : S.outcome pos (n + 1) = .ok value) : S.last m cls pos = n + 1 := by
  have hfind : (List.range (allowed m task)).find? (fun n => (S.outcome pos (n + 1)).isOk) = some n := by
    rw [List.find?_range_eq_some]
    refine ⟨by rw [hok]; rfl, List.mem_range.2 hn, fun n' hn' => ?_⟩
    simp [hraised (n' + 1) (by omega) (by omega)]
  rw [last, htask]
  dsimp only
  rw [hfind]
  rfl

lemma Script.last_of_raised (htask : cls.tasks[pos]? = some task)
    (hraised : ∀ n, 1 ≤ n → n ≤ allowed m task → (S.outcome pos n).isOk = false) :
    S.last m cls pos = allowed m task := by
  have hfind : (List.range (allowed m task)).find? (fun n => (S.outcome pos (n + 1)).isOk) = none := by
    rw [List.find?_range_eq_none]
    intro n hn
    simp [hraised (n + 1) (by omega) (by omega)]
  rw [last, htask]
  dsimp only
  rw [hfind]
  rfl

lemma Script.Done.not_fails {mark : Option Mark} (h : S.Done m cls pos mark) : ¬ S.Fails m cls pos := by
  rintro ⟨task, htask, hraised⟩
  obtain ⟨v, hv, -⟩ := h
  have hlast := S.last_of_raised htask hraised
  have hnot := hraised _ (one_le_allowed m task) le_rfl
  rw [value, hlast] at hv
  cases hout : S.outcome pos (allowed m task) with
  | ok w =>
    rw [hout] at hnot
    cases hnot
  | error exc =>
    rw [hout] at hv
    cases hv

lemma Script.value_of_not_fails (htask : cls.tasks[pos]? = some task) (h : ¬ S.Fails m cls pos) :
    ∃ v, S.value m cls pos = some v := by
  cases hfind : (List.range (allowed m task)).find? (fun n => (S.outcome pos (n + 1)).isOk) with
  | none =>
    refine absurd ⟨task, htask, fun n h₁ h₂ => ?_⟩ h
    obtain ⟨n, rfl⟩ := Nat.exists_eq_add_of_le' h₁
    simpa using (List.find?_range_eq_none.1 hfind) n (by omega)
  | some n =>
    have hok := List.find?_some hfind
    have hlast : S.last m cls pos = n + 1 := by
      rw [last, htask]
      dsimp only
      rw [hfind]
      rfl
    unfold value
    rw [hlast]
    cases hout : S.outcome pos (n + 1) with
    | ok v => exact ⟨v, rfl⟩
    | error exc =>
      rw [hout] at hok
      cases hok

lemma Script.deferrals_mono (S : Script) (m : ℤ) (cls : JobCls) {j k : ℕ} (h : j ≤ k) :
    S.deferrals m cls j ≤ S.deferrals m cls k :=
  Finset.sum_le_sum_of_subset (Finset.range_subset_range.2 h)

lemma Script.deferrals_succ (S : Script) (m : ℤ) (cls : JobCls) (k : ℕ) :
    S.deferrals m cls (k + 1) = S.deferrals m cls k + (S.last m cls k - 1) :=
  Finset.sum_range_succ _ k

/-! ### Where a worker stands -/

lemma Saga.Stands.upto (h : s.Stands S i m cls k n) (hk : s.done k = false) : s.Upto k := by
  intro pos
  rcases lt_trichotomy pos k with hlt | rfl | hlt
  · obtain ⟨v, -, hmark⟩ := h.done pos hlt
    simp [Saga.done, hmark, hlt]
  · simp [hk]
  · simp [Saga.done, h.tip pos hlt, hlt.le]

lemma Saga.Stands.lt (h : s.Stands S i m cls k n) (htask : cls.tasks[k]? = some task) :
    n < allowed m task := by
  rcases h.spare with rfl | ⟨task', htask', hlt⟩
  · exact one_le_allowed m task
  · obtain rfl := Option.some.inj (htask.symm.trans htask')
    exact hlt

lemma Saga.Stands.deferred_le (h : s.Stands S i m cls k n) (hk : k ≤ cls.tasks.length) :
    s.story.countP (defers i) ≤ S.deferrals m cls cls.tasks.length := by
  rw [h.deferred]
  rcases h.spare with rfl | ⟨task, htask, hlt⟩
  · exact S.deferrals_mono m cls hk
  · have hlast : n < S.last m cls k := by
      rw [Script.last, htask]
      dsimp only
      cases hfind : (List.range (allowed m task)).find? (fun n => (S.outcome k (n + 1)).isOk) with
      | none => exact hlt
      | some n' =>
        have hok := List.find?_some hfind
        by_contra hle
        have hraised := h.raised (n' + 1) (by omega) (Nat.le_of_not_lt hle)
        rw [hraised] at hok
        cases hok
    calc S.deferrals m cls k + n ≤ S.deferrals m cls (k + 1) := by
          rw [S.deferrals_succ]
          omega
      _ ≤ S.deferrals m cls cls.tasks.length :=
        S.deferrals_mono m cls (List.getElem?_eq_some_iff.1 htask).1

/-- A request that writes no record, and is nothing the story is asked about. -/
lemma Saga.Stands.after (h : s.Stands S i m cls k n) (hu : undoing i r = none)
    (hd : defers i ⟨r, y⟩ = false) (hg : givesUp i ⟨r, y⟩ = false)
    (hmark : ∀ pos ≠ k, (s.after r y).mark pos = s.mark pos) : (s.after r y).Stands S i m cls k n where
  done := fun pos hpos => hmark pos hpos.ne ▸ h.done pos hpos
  tip := fun pos hpos => (hmark pos hpos.ne').trans (h.tip pos hpos)
  raised := h.raised
  spare := h.spare
  undos := (Saga.undos_after hu).trans h.undos
  deferred := by
    change (s.story ++ [(⟨r, y⟩ : Said)]).countP (defers i) = _
    rw [List.countP_append, List.countP_singleton, hd, h.deferred]
    simp
  kept := by
    change (s.story ++ [(⟨r, y⟩ : Said)]).any (givesUp i) = false
    rw [List.any_append, h.kept]
    simp [hg]

/-- The task has succeeded, and the worker comes to the next one. -/
lemma Saga.Stands.next (h : s.Stands S i m cls k n) (hlast : S.last m cls k = n + 1)
    (hdone : S.Done m cls k (s.mark k)) : s.Stands S i m cls (k + 1) 0 where
  done := by
    intro pos hpos
    rcases Nat.lt_succ_iff_lt_or_eq.1 hpos with hlt | rfl
    · exact h.done pos hlt
    · exact hdone
  tip := h.tip.succ
  raised := fun n' h₁ h₂ => absurd h₁ (by omega)
  spare := .inl rfl
  undos := h.undos
  deferred := by
    rw [h.deferred, S.deferrals_succ, hlast]
    rfl
  kept := h.kept

lemma Saga.Stands.defer {error : String} {t : Time} (h : s.Stands S i m cls k n)
    (hraise : (S.outcome k (n + 1)).isOk = false)
    (htask : cls.tasks[k]? = some task) (hspare : n + 1 < allowed m task) :
    (s.after (.db (.failRun i error (some t))) (.ok ())).Stands S i m cls k (n + 1) where
  done := h.done
  tip := h.tip
  raised := by
    intro n' h₁ h₂
    rcases Nat.le_succ_iff.1 h₂ with hle | rfl
    · exact h.raised n' h₁ hle
    · exact hraise
  spare := .inr ⟨task, htask, hspare⟩
  undos := (Saga.undos_after rfl).trans h.undos
  deferred := by
    change (s.story ++ [_]).countP (defers i) = _
    rw [List.countP_append, List.countP_singleton, h.deferred]
    simp [defers, Nat.add_assoc]
  kept := by
    change (s.story ++ [_]).any (givesUp i) = false
    rw [List.any_append, h.kept]
    rfl

lemma Saga.Stands.spent {exc : Exc} (h : s.Stands S i m cls k n) (htask : cls.tasks[k]? = some task)
    (hraise : S.outcome k (n + 1) = .error exc) (hspent : budget m task ≤ (n + 1 : ℕ)) :
    allowed m task = n + 1 ∧ S.Fails m cls k ∧ S.last m cls k = n + 1 := by
  have hlt := h.lt htask
  have hall : allowed m task = n + 1 := by
    unfold allowed at hlt ⊢
    omega
  have hraised : ∀ n', 1 ≤ n' → n' ≤ allowed m task → (S.outcome k n').isOk = false := by
    intro n' h₁ h₂
    rw [hall] at h₂
    rcases Nat.le_succ_iff.1 h₂ with hle | rfl
    · exact h.raised n' h₁ hle
    · rw [hraise]
      rfl
  exact ⟨hall, ⟨task, htask, hraised⟩, hall ▸ S.last_of_raised htask hraised⟩

lemma Saga.Stands.unwinds {error : String} (h : s.Stands S i m cls k n) (hfails : S.Fails m cls k)
    (htext : S.text k (S.last m cls k) = some error) (htask : cls.tasks[k]? = some task)
    (hmark : s.mark k = some ⟨.failed, allowed m task, none, some error⟩) :
    s.Unwinds S i m cls error k k where
  fails := hfails
  text := htext
  mark := ⟨task, htask, hmark⟩
  done := h.done
  undone := fun pos h₁ h₂ => absurd h₁ (by omega)
  tip := h.tip
  le := le_rfl
  undos := by
    rw [h.undos, List.drop_eq_nil_of_le (by simp)]
    rfl

lemma Saga.Unwinds.undo {error : String} {K : ℕ} {ctx : TaskContext}
    {y : Except Exc (Req.undo i k ctx).Reply} (h : s.Unwinds S i m cls error K (k + 1)) :
    ((s.after (.undo i k ctx) y).after (.db (.compensateTask i k)) (.ok ())).Unwinds S i m cls error
      K k := by
  have hle := h.le
  have hmark : ∀ pos ≠ k, ((s.after (.undo i k ctx) y).after (.db (.compensateTask i k))
      (.ok ())).mark pos = s.mark pos := fun pos hpos => (put_mark s k _ pos).trans (if_neg hpos)
  have hself : ((s.after (.undo i k ctx) y).after (.db (.compensateTask i k)) (.ok ())).mark k =
      (s.mark k).map fun mark => { mark with status := .compensated } :=
    (put_mark s k _ k).trans (if_pos rfl)
  constructor
  case fails => exact h.fails
  case text => exact h.text
  case mark =>
    obtain ⟨task, htask, hK⟩ := h.mark
    exact ⟨task, htask, by rw [hmark K (by omega), hK]⟩
  case done =>
    intro pos hpos
    rw [hmark pos hpos.ne]
    exact h.done pos (by omega)
  case undone =>
    intro pos h₁ h₂
    by_cases hp : pos = k
    · subst hp
      have hdone := h.done pos (Nat.lt_succ_self pos)
      refine ⟨hdone.not_fails, ?_⟩
      obtain ⟨v, -, hv⟩ := hdone
      exact ⟨_, by rw [hself, hv]; rfl, rfl⟩
    · rw [hmark pos hp]
      exact h.undone pos (by omega) h₂
  case tip =>
    intro pos hpos
    rw [hmark pos (by omega)]
    exact h.tip pos hpos
  case le => omega
  case undos =>
    have hundos : ((s.after (.undo i k ctx) y).after (.db (.compensateTask i k)) (.ok ())).undos i =
        s.undos i ++ [k] := (undos_after rfl).trans undos_undo
    have hdrop : (List.range K).drop k = k :: (List.range K).drop (k + 1) := by
      rw [List.drop_eq_getElem_cons (by simpa using hle), List.getElem_range]
    rw [hundos, h.undos, hdrop, List.reverse_cons]

/-! ### How the run ends -/

lemma Script.text_ne {error : String} (h : S.text pos n = some error) : error ≠ "unhandled error" := by
  unfold text at h
  split at h
  · cases h
  · rename_i exc _
    obtain rfl := Option.some.inj h
    intro heq
    have hcolon : ':' ∈ exc.text.toList := by simp [Exc.text]
    rw [heq] at hcolon
    revert hcolon
    decide

lemma Saga.Unwinds.failedAt {error : String} {K : ℕ} {t : Option Time}
    (h : s.Unwinds S i m cls error K 0) (hstatus : v.status = some .failed)
    (herror : v.error = some error) (hsaga : v.toSaga = s.after (.db (.failRun i error t)) (.ok ())) :
    S.FailedAt i m cls K v := by
  constructor
  case status => exact hstatus
  case error => rw [herror, h.text]
  case isSome =>
    rw [herror]
    rfl
  case mark =>
    rw [herror, hsaga]
    exact h.mark
  case undone =>
    rw [hsaga]
    exact (Saga.undos_after rfl).trans h.undos
  case compensated =>
    rw [hsaga]
    exact fun pos hpos => (h.undone pos (Nat.zero_le _) hpos).2
  case beyond =>
    rw [hsaga]
    exact h.tip

lemma Script.ended_of_failed {K : ℕ} (hfails : S.Fails m cls K)
    (hbefore : ∀ pos < K, ¬ S.Fails m cls pos) (h : S.FailedAt i m cls K v) : S.Ended i m cls v where
  failed := by
    intro K' hfails' hbefore'
    rcases lt_trichotomy K' K with hlt | rfl | hlt
    · exact absurd hfails' (hbefore K' hlt)
    · exact h
    · exact absurd hfails (hbefore' K hlt)
  succeeded := fun hnone => absurd hfails (hnone K)

lemma Script.ended_of_succeeded (h : S.Succeeded i m cls v) : S.Ended i m cls v := by
  have hnone : ∀ K, ¬ S.Fails m cls K := by
    intro K hfails
    have hlt : K < cls.tasks.length := by
      obtain ⟨task, htask, -⟩ := hfails
      exact (List.getElem?_eq_some_iff.1 htask).1
    exact (h.mark K hlt).not_fails hfails
  exact ⟨fun K hK => absurd hK (hnone K), fun _ => h⟩

lemma Script.Ended.congr {v' : View} (h : S.Ended i m cls v) (hstatus : v'.status = v.status)
    (hresult : v'.result = v.result) (herror : v'.error = v.error) (hmark : v'.mark = v.mark)
    (hundos : v'.undos i = v.undos i) : S.Ended i m cls v' where
  failed := by
    intro K hfails hbefore
    have hK := h.failed K hfails hbefore
    exact ⟨hstatus ▸ hK.status, herror ▸ hK.error, herror ▸ hK.isSome, herror ▸ hmark ▸ hK.mark,
      hundos ▸ hK.undone, hmark ▸ hK.compensated, hmark ▸ hK.beyond⟩
  succeeded := by
    intro hnone
    have hs := h.succeeded hnone
    exact ⟨hstatus ▸ hs.status, hresult ▸ hs.result, hmark ▸ hs.mark, hundos ▸ hs.undone⟩

/-! ### The outline -/

/-- A record that is left for the next attempt has not succeeded. -/
lemma Script.done_of_left (h : s.mark k = S.left k n) : s.done k = false := by
  cases n <;> simp [Saga.done, h, left]

/-- A run that nobody executes may be claimed where the reference stands. -/
lemma Saga.Ready.upto (h : s.Ready S i m cls) (hup : s.Upto k) :
    ∃ n, s.Stands S i m cls k n ∧ s.mark k = S.left k n ∧
      ∀ ctx, s.Feeds ctx → S.Given m cls k n ctx := by
  obtain ⟨k', n, hstands, hmark, hgiven⟩ := h
  obtain rfl := hup.unique (hstands.upto (Script.done_of_left hmark))
  exact ⟨n, hstands, hmark, hgiven⟩

lemma saga_open (hv : v.status = some .ready) (h : v.Ready S i m cls) :
    (sagaOutline S i m cls).rests v := by
  refine ⟨fun _ => ⟨hv, h⟩, fun hs => ?_⟩
  rw [hv] at hs
  rcases hs with ⟨hs, -⟩ | hs <;> cases hs

lemma saga_cancelled (hv : v.status = some .cancelled) : (sagaOutline S i m cls).rests v := by
  refine ⟨fun hflight => ?_, fun hs => ?_⟩
  · rw [hv] at hflight
    cases hflight
  · rw [hv] at hs
    rcases hs with ⟨hs, -⟩ | hs <;> cases hs

lemma saga_done (hs : v.Settled) (h : S.Ended i m cls v) : (sagaOutline S i m cls).rests v := by
  refine ⟨fun hflight => ?_, fun _ => h⟩
  rw [hs.not_inFlight.2] at hflight
  cases hflight

/-- A worker that writes down the context leaves it to the next one. -/
lemma Script.Given.feeds {ctx ctx' : TaskContext} (h : S.Given m cls k n ctx)
    (hctx : s.ctx = some ctx.asDict) (hfeeds : s.Feeds ctx') : S.Given m cls k n ctx' := by
  refine ⟨hfeeds.results.trans ?_, hfeeds.state.trans ?_⟩
  · rw [hctx]
    exact h.1
  · rw [hctx]
    exact h.2

lemma Script.Obeys.run (ctx : TaskContext) {outcome : Outcome} {state : Dict Value}
    (h : S.Obeys i (.run i pos n ctx) (.ok (outcome, state))) :
    S.outcome pos n = outcome ∧ S.leaves pos n = state := by
  obtain ⟨h₁, h₂⟩ := h rfl
  exact ⟨h₁.symm, h₂.symm⟩

/-- An attempt has raised, which is in the context and in its record. -/
lemma Saga.Stands.fail (h : s.Stands S i m cls k pos) (hmark : s.mark k = some ⟨.running, n, none, none⟩)
    (ctx ctx' : TaskContext) (exc : Exc) (state : Dict Value) (t : Option Time) :
    let s₁ := s.after (.run i k n ctx) (.ok (.error exc, state))
    let s₂ := s₁.after (.db (.setRunCtx i ctx'.asDict)) (.ok ())
    let s₃ := s₂.after (.db (.failTask i k exc.text n t)) (.ok ())
    s₃.Stands S i m cls k pos ∧ s₃.mark k = some ⟨.failed, n, none, some exc.text⟩ ∧
      s₃.ctx = some ctx'.asDict := by
  intro s₁ s₂ s₃
  have h₁ : s₁.Stands S i m cls k pos := h.after rfl rfl rfl fun _ _ => rfl
  have h₂ : s₂.Stands S i m cls k pos := h₁.after rfl rfl rfl fun _ _ => rfl
  refine ⟨h₂.after rfl rfl rfl fun pos' hpos' => (put_mark ..).trans (if_neg hpos'), ?_, rfl⟩
  refine (put_mark ..).trans ((if_pos rfl).trans ?_)
  rw [show s₂.mark k = _ from hmark]
  rfl

/-- The record of the attempt that is running says which attempt it is. -/
lemma Script.attempt_of_mark {a : ℕ} (h : s.mark k = some ⟨.running, a, none, none⟩)
    (hmark : s.mark k = some ⟨.running, n, none, none⟩) : a = n := by
  rw [h] at hmark
  cases hmark
  rfl

/-- An attempt has returned, which is in its record and in the context: the next task has its turn. -/
lemma Saga.Stands.succeed {value : Value} (h : s.Stands S i m cls k n)
    (hmark : s.mark k = some ⟨.running, n + 1, none, none⟩) (hlast : S.last m cls k = n + 1)
    (hvalue : S.value m cls k = some value) (ctx : TaskContext) (state : Dict Value) (d : CtxDict) :
    let s₁ := s.after (.run i k (n + 1) ctx) (.ok (.ok value, state))
    let s₂ := s₁.after (.db (.succeedTask i k value)) (.ok ())
    let s₃ := s₂.after (.db (.setRunCtx i d)) (.ok ())
    s₃.Stands S i m cls (k + 1) 0 ∧ s₃.mark (k + 1) = none := by
  intro s₁ s₂ s₃
  have hself : s₃.mark k = some ⟨.succeeded, n + 1, some value, none⟩ := by
    refine (Saga.put_mark ..).trans ((if_pos rfl).trans ?_)
    rw [show s₁.mark k = _ from hmark]
    rfl
  have h₁ : s₁.Stands S i m cls k n := h.after rfl rfl rfl fun _ _ => rfl
  have h₂ : s₂.Stands S i m cls k n :=
    h₁.after rfl rfl rfl fun pos' hpos' => (Saga.put_mark ..).trans (if_neg hpos')
  have h₃ : s₃.Stands S i m cls k n := h₂.after rfl rfl rfl fun _ _ => rfl
  exact ⟨h₃.next hlast ⟨value, hvalue, by rw [hself, hlast]⟩, h₃.tip (k + 1) (Nat.lt_succ_self k)⟩

/-- The state that the next attempt finds is the one that this one has left. -/
lemma Script.Given.next {ctx : TaskContext} {state : Dict Value} (h : S.Given m cls k n ctx)
    (hstate : S.leaves k (n + 1) = state) : S.Given m cls k (n + 1) { ctx with state := state } :=
  ⟨h.1, hstate.symm⟩

/-- The task has returned: the next one finds its result, and the state that it has left. -/
lemma Script.Given.succ {ctx : TaskContext} {state : Dict Value} {value : Value}
    (h : S.Given m cls k n ctx) (htask : cls.tasks[k]? = some task) (hlast : S.last m cls k = n + 1)
    (hvalue : S.value m cls k = some value) (hstate : S.leaves k (n + 1) = state) :
    S.Given m cls (k + 1) 0 { ctx with state := state, results := ctx.results.set task.name value } := by
  constructor
  · change ctx.results.set task.name value = S.results m cls (k + 1)
    simp only [results, htask, hvalue, h.1]
  · change state = S.leaves k (S.last m cls k)
    rw [hlast, hstate]

lemma sagaOutline_sound (S : Script) (i : ℕ) (cls : JobCls) (m : ℤ) :
    (sagaOutline S i m cls).Sound i cls m := by
  have hquiet : ∀ (s : Saga) (r : Req), (∀ pos n ctx, r ≠ .run i pos n ctx) →
      (∀ error, r ≠ .db (.failRun i error none)) → (sagaOutline S i m cls).asks s r :=
    fun s r h₁ h₂ => ⟨fun pos n ctx h => absurd h (h₁ pos n ctx), fun error h => absurd h (h₂ error)⟩
  constructor
  case created =>
    intro j
    refine saga_open rfl ⟨0, 0, ⟨(by simp), fun _ _ => rfl, fun n' h₁ h₂ => absurd h₁ (by omega), .inl rfl,
      rfl, rfl, rfl⟩, rfl, ?_⟩
    exact fun ctx hfeeds => ⟨hfeeds.results, hfeeds.state⟩
  case cancelled =>
    intro v _ _
    exact saga_cancelled rfl
  case swept =>
    intro v hv hready
    obtain ⟨-, k, n, hstands, -⟩ := hv.1 (by rw [hready]; rfl)
    refine ⟨fun hflight => (by cases hflight), ?_⟩
    rintro (⟨-, hgives⟩ | hs)
    · rw [hstands.kept] at hgives
      cases hgives
    · cases hs
  case claimed => exact fun v hv hflight => (hv.1 hflight).2
  case enters_stops | comes_stops | undoes_stops =>
    intros
    trivial
  case halts =>
    intro s _
    refine ⟨hquiet _ _ (by simp) (by simp), fun v a _ _ => saga_cancelled ?_⟩
    rw [View.after_about (by simp [about])]
    rfl
  case begins =>
    intro s k ctx h hup hfeeds _
    obtain ⟨n, hstands, hmark, hgiven⟩ := h.upto hup
    exact ⟨n, hstands, hmark, hgiven ctx hfeeds⟩
  case recovers =>
    -- a record that is left for the next attempt leaves it one
    intro s k ctx task mark h hup _ htask hmark hfailed hspent
    obtain ⟨n, hstands, hleft, -⟩ := h.upto hup
    have hlt := hstands.lt htask
    rw [hmark] at hleft
    cases n with
    | zero => cases hleft
    | succ n =>
      obtain rfl := Option.some.inj hleft
      unfold allowed at hlt
      dsimp only at hspent
      omega
  case starts =>
    rintro s pos ctx task ⟨n, hstands, hmark, hgiven⟩ _ _
    refine ⟨hquiet _ _ (by simp) (by simp), n, ?_, ?_, hgiven⟩
    · exact hstands.after rfl rfl rfl fun pos' hpos' => (Saga.put_mark ..).trans (if_neg hpos')
    · refine (Saga.put_mark ..).trans ((if_pos rfl).trans ?_)
      rw [Saga.attempt, hmark]
      cases n <;> rfl
  case runs_point =>
    rintro s pos ctx task n ⟨a, hstands, hmark, hgiven⟩ _ _ hrunning
    refine ⟨trivial, ?_, (by simp)⟩
    rintro _ _ _ ⟨⟩
    rw [hmark] at hrunning
    cases hrunning
    exact hgiven
  case succeeds =>
    rintro s pos ctx task n v state ⟨a, hstands, hrunning, hgiven⟩ _ htask hmark hh ctx' s₁ s₂ s₃
    obtain rfl := Script.attempt_of_mark hrunning hmark
    obtain ⟨hout, hleaves⟩ := Script.Obeys.run ctx hh
    have hlast := S.last_of_ok htask (hstands.lt htask) hstands.raised hout
    have hvalue : S.value m cls pos = some v := by
      rw [Script.value, hlast, hout]
      rfl
    obtain ⟨hnext, htip⟩ := hstands.succeed hmark hlast hvalue ctx state ctx'.asDict
    exact ⟨⟨trivial, hquiet _ _ (by simp) (by simp)⟩, ⟨trivial, hquiet _ _ (by simp) (by simp)⟩, 0,
      hnext, htip, hgiven.succ htask hlast hvalue hleaves⟩
  case cancels =>
    intro s pos ctx task n exc state _ _ _ _ hh hcancel
    obtain ⟨hout, -⟩ := Script.Obeys.run ctx hh
    rw [S.plain pos n exc hout] at hcancel
    cases hcancel
  case spends =>
    rintro s pos ctx task n exc state ⟨a, hstands, hrunning, hgiven⟩ _ htask hmark hh _ hspent
      ctx' s₁ s₂ s₃
    obtain rfl := Script.attempt_of_mark hrunning hmark
    obtain ⟨hout, -⟩ := Script.Obeys.run ctx hh
    obtain ⟨hall, hfails, hlast⟩ := hstands.spent htask hout hspent
    obtain ⟨h₃, hself, -⟩ := hstands.fail hmark ctx ctx' exc state none
    refine ⟨⟨trivial, hquiet _ _ (by simp) (by simp)⟩, ⟨trivial, hquiet _ _ (by simp) (by simp)⟩, pos, ?_⟩
    refine h₃.unwinds hfails ?_ htask (by rw [hall]; exact hself)
    rw [hlast, Script.text, hout]
  case retries =>
    rintro s pos ctx task n exc state t ⟨a, hstands, hrunning, hgiven⟩ _ htask hmark hh _ hspent
      ctx' s₁ s₂ s₃
    obtain rfl := Script.attempt_of_mark hrunning hmark
    obtain ⟨hout, hleaves⟩ := Script.Obeys.run ctx hh
    obtain ⟨h₃, hself, hctx⟩ := hstands.fail hmark ctx ctx' exc state (some t)
    refine ⟨⟨trivial, hquiet _ _ (by simp) (by simp)⟩, ⟨trivial, hquiet _ _ (by simp) (by simp)⟩, trivial,
      ⟨hquiet _ _ (by simp) (by simp), fun v _ hw hs => ?_⟩, fun e he => he⟩
    rw [View.after_about (by simp [about])]
    rcases hw with hrunning | hcancelled
    · refine saga_open (by simp [View.settle, hrunning]) ⟨pos, a + 1, ?_, ?_, fun ctx'' hfeeds => ?_⟩
      · rw [hs]
        exact h₃.defer (by rw [hout]; rfl) htask (succ_le_allowed hspent)
      · rw [hs]
        refine hself.trans ?_
        rw [Script.left, Script.text, hout]
      · exact (hgiven.next hleaves).feeds (hs ▸ hctx) hfeeds
    · exact saga_cancelled (by simp [View.settle, hcancelled])
  case undo =>
    rintro error k s ctx y ⟨K, h⟩ _
    exact ⟨hquiet _ _ (by simp) (by simp), ⟨trivial, hquiet _ _ (by simp) (by simp)⟩, K, h.undo⟩
  case fails =>
    rintro error s ⟨K, h⟩ _
    refine ⟨⟨(by simp), ?_⟩, fun v _ hw hs => ?_⟩
    · rintro _ ⟨⟩
      exact Script.text_ne h.text
    · rw [View.after_about (by simp [about])]
      rcases hw with hrunning | hcancelled
      · refine saga_done (by simp [View.Settled, View.settle, hrunning, RunStatus.isDone]) ?_
        refine Script.ended_of_failed h.fails (fun pos hpos => (h.undone pos (Nat.zero_le _) hpos).1) ?_
        exact h.failedAt (by simp [View.settle, hrunning]) (by simp [View.settle, hrunning]) (by rw [hs])
      · exact saga_cancelled (by simp [View.settle, hcancelled])
  case completes =>
    rintro s ctx ⟨n, hstands, -, hgiven⟩ _
    refine ⟨hquiet _ _ (by simp) (by simp), fun v _ hw hs => ?_⟩
    rw [View.after_about (by simp [about])]
    rcases hw with hrunning | hcancelled
    · refine saga_done (by simp [View.Settled, View.settle, hrunning, RunStatus.isDone]) ?_
      refine Script.ended_of_succeeded ⟨by simp [View.settle, hrunning], ?_, hs ▸ hstands.done, ?_⟩
      · simp [View.settle, hrunning, hgiven.1]
      · exact hs ▸ (Saga.undos_after rfl).trans hstands.undos
    · exact saga_cancelled (by simp [View.settle, hcancelled])
  case raises => exact fun s c e _ he => he
  case throws_leaves => exact fun s h => h.elim
  case drops => exact fun s e h => h.elim
  case late =>
    intro v y hv hs
    rw [Outline.after_unhandled hs]
    have hgives : (v.toSaga.after (.db (unhandled i)) y).story.any (givesUp i) =
        v.story.any (givesUp i) := by
      change (v.story ++ [_]).any (givesUp i) = _
      rw [List.any_append]
      cases y <;> simp [givesUp, unhandled]
    refine ⟨fun hflight => ?_, fun hdone => ?_⟩
    · rw [hs.not_inFlight.2] at hflight
      cases hflight
    · have hmark : (v.toSaga.after (.db (unhandled i)) y).mark = v.mark := by
        cases y <;> rfl
      exact (hv.2 (hgives ▸ hdone)).congr rfl rfl rfl hmark (Saga.undos_after rfl)

end

end Pyreljob
