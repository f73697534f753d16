import Pyreljob.Lib.Pool

/-!
Histories of a pool that go on forever, and what comes about in them.

A history names the state of the pool at every moment. From one moment to the next the pool makes a
step that obeys the condition, or none, so a run that is over is a history, too. What is enabled from
some moment on need not happen in it; that it does is an assumption, `WeaklyFair`. A program is a
tree without infinite paths, so a process that goes on being answered comes to its end.
-/

namespace Pyreljob.Lib

open Relation

/-- **Weak fairness**: what stays enabled happens. -/
def WeaklyFair (enabled happens : ℕ → Prop) : Prop :=
  ∀ n, (∀ m ≥ n, enabled m) → ∃ m ≥ n, happens m

lemma exists_first {P : ℕ → Prop} {n m : ℕ} (hnm : n ≤ m) (h : P m) :
    ∃ k ≥ n, P k ∧ ∀ j, n ≤ j → j < k → ¬ P j := by
  classical
  have hex : ∃ k, n ≤ k ∧ P k := ⟨m, hnm, h⟩
  refine ⟨Nat.find hex, (Nat.find_spec hex).1, (Nat.find_spec hex).2, fun j hj hlt hP => ?_⟩
  exact Nat.find_min hex hlt ⟨hj, hP⟩

namespace Pool

variable {S K Ans : Type} {Req : Type} {Reply : Req → Type} {Exc : Type}
variable {answer : S → (r : Req) → Ans → Option (S × Except Exc (Reply r))}
variable {program : K → Prog Req Reply Exc Unit}
variable {C : Pool S K Ans Req Reply Exc → Label K Ans → Prop}
variable {f : ℕ → Pool S K Ans Req Reply Exc} {pid : ℕ}

/-- Each moment of a history follows from the one before. -/
def History (answer : S → (r : Req) → Ans → Option (S × Except Exc (Reply r)))
    (program : K → Prog Req Reply Exc Unit)
    (C : Pool S K Ans Req Reply Exc → Label K Ans → Prop) (f : ℕ → Pool S K Ans Req Reply Exc) :
    Prop :=
  ∀ n, f (n + 1) = f n ∨ Move answer program C (f n) (f (n + 1))

/-- The process is answered at this moment. -/
def Answered (answer : S → (r : Req) → Ans → Option (S × Except Exc (Reply r)))
    (program : K → Prog Req Reply Exc Unit) (f : ℕ → Pool S K Ans Req Reply Exc) (pid n : ℕ) : Prop :=
  ∃ a, (f n).step answer program (.act pid a) = some (f (n + 1))

/-- What has come about in a history was reached from the earlier moments. -/
lemma History.run (h : History answer program C f) {n m : ℕ} (hnm : n ≤ m) :
    Run answer program C (f n) (f m) := by
  induction m, hnm using Nat.le_induction with
  | base => exact .refl
  | succ m _ ih =>
    rcases h m with hsame | hmove
    · rwa [hsame]
    · exact ih.tail hmove

lemma history_of_play [∀ p l, Decidable (C p l)] {p p' : Pool S K Ans Req Reply Exc}
    {ls : List (Label K Ans)} (h : p.play answer program C ls = some p') :
    ∃ f, History answer program C f ∧ f 0 = p ∧ ∀ n ≥ ls.length, f n = p' := by
  induction ls generalizing p with
  | nil =>
    obtain rfl : p = p' := Option.some.inj h
    exact ⟨fun _ => p, fun _ => .inl rfl, rfl, fun _ _ => rfl⟩
  | cons l ls ih =>
    unfold play at h
    split at h
    · rename_i hl
      obtain ⟨p₁, hp₁, hls⟩ := Option.bind_eq_some_iff.1 h
      obtain ⟨f, hf, hfirst, hlast⟩ := ih hls
      refine ⟨fun n => n.casesOn p f, fun n => ?_, rfl, fun n hn => ?_⟩
      · cases n with
        | zero => exact .inr ⟨l, hl, hp₁.trans (congrArg some hfirst.symm)⟩
        | succ n => exact hf n
      · cases n with
        | zero => cases hn
        | succ n => exact hlast n (Nat.le_of_succ_le_succ hn)
    · cases h

/-! ### Processes that live and die -/

section Step

variable {p p' : Pool S K Ans Req Reply Exc} {l : Label K Ans}

/-- A process that still lives after a step has made it, or has not moved. -/
lemma prog?_of_step (h : p.step answer program l = some p') (hpid : p.lives pid) (hpid' : p'.lives pid) :
    (∃ a, l = .act pid a) ∨ p'.prog? pid = p.prog? pid := by
  cases l with
  | spawn k =>
    obtain ⟨-, -, -, hprog⟩ := step_spawn h
    exact .inr (by rw [hprog, if_neg (lt_of_lives hpid).ne])
  | crash q =>
    obtain ⟨-, -, -, -, hprog⟩ := step_crash h
    rw [lives, hprog] at hpid'
    split at hpid'
    · cases hpid'
    · rename_i hne
      exact .inr (by rw [hprog, if_neg hne])
  | act q a =>
    by_cases hq : pid = q
    · exact .inl ⟨a, by rw [hq]⟩
    · obtain ⟨r, g, y, hact⟩ := step_act h
      exact .inr (by rw [hact.resumed, if_neg hq])

lemma gone_step (h : p.step answer program l = some p') (hlt : pid < p.procs.length)
    (hpid : p.lives pid = false) : pid < p'.procs.length ∧ p'.lives pid = false := by
  have hnone : p.prog? pid = none := by simpa [lives] using hpid
  unfold lives
  cases l with
  | spawn k =>
    obtain ⟨-, -, hlen, hprog⟩ := step_spawn h
    exact ⟨by omega, by rw [hprog, if_neg hlt.ne, hnone]; rfl⟩
  | crash q =>
    obtain ⟨-, -, hlen, -, hprog⟩ := step_crash h
    refine ⟨by omega, ?_⟩
    rw [hprog, hnone]
    split <;> rfl
  | act q a =>
    obtain ⟨r, g, y, hact⟩ := step_act h
    have hq : pid ≠ q := by
      rintro rfl
      rw [hact.waiting] at hnone
      cases hnone
    exact ⟨by rwa [hact.procs], by rw [hact.resumed, if_neg hq, hnone]; rfl⟩

lemma Run.gone (h : Run answer program C p p') (hlt : pid < p.procs.length)
    (hpid : p.lives pid = false) : pid < p'.procs.length ∧ p'.lives pid = false := by
  induction h with
  | refl => exact ⟨hlt, hpid⟩
  | tail _ hmove ih =>
    obtain ⟨l, -, hstep⟩ := hmove
    exact gone_step hstep ih.1 ih.2

end Step

lemma History.prog?_stays (h : History answer program C f) {n m : ℕ} (hnm : n ≤ m)
    (hlives : ∀ k ≥ n, (f k).lives pid)
    (hnot : ∀ k, n ≤ k → k < m → ¬ Answered answer program f pid k) :
    (f m).prog? pid = (f n).prog? pid := by
  induction m, hnm using Nat.le_induction with
  | base => rfl
  | succ m hnm ih =>
    have hsame := ih fun k hk hlt => hnot k hk (hlt.trans (Nat.lt_succ_self m))
    rcases h m with hstay | ⟨l, -, hstep⟩
    · rw [hstay, hsame]
    · rcases prog?_of_step hstep (hlives m hnm) (hlives (m + 1) (by omega)) with ⟨a, rfl⟩ | hprog
      · exact absurd ⟨a, hstep⟩ (hnot m hnm (Nat.lt_succ_self m))
      · rw [hprog, hsame]

/-- **A process that goes on being answered comes to its end.** -/
theorem History.ends (h : History answer program C f) (pid n : ℕ)
    (hfair : ∀ m ≥ n, (∀ k ≥ m, (f k).lives pid) → ∃ k ≥ m, Answered answer program f pid k) :
    ∃ m ≥ n, (f m).lives pid = false := by
  by_contra hnever
  have hlives : ∀ m ≥ n, (f m).lives pid := fun m hm => by
    by_contra hdead
    exact hnever ⟨m, hm, Bool.eq_false_iff.2 hdead⟩
  -- its program gets smaller each time
  suffices hend : ∀ (q : Prog Req Reply Exc Unit) (m : ℕ), m ≥ n → (f m).prog? pid ≠ some q by
    obtain ⟨q, hq⟩ := Option.isSome_iff_exists.1 (hlives n le_rfl)
    exact hend q n le_rfl hq
  have hnext : ∀ m ≥ n, ∃ k ≥ m, ∃ r g y,
      (f m).prog? pid = some (.ask r g) ∧ (f (k + 1)).prog? pid = live (g y) := by
    intro m hm
    obtain ⟨k', hk', hanswered⟩ := hfair m hm fun k hk => hlives k (hm.le.trans hk)
    obtain ⟨k, hk, ⟨a, hstep⟩, hfirst⟩ := exists_first hk' hanswered
    obtain ⟨r, g, y, hact⟩ := step_act hstep
    have hsame := h.prog?_stays hk (fun k hk => hlives k (hm.le.trans hk)) hfirst
    exact ⟨k, hk, r, g, y, hsame ▸ hact.waiting, by rw [hact.resumed, if_pos rfl]⟩
  intro q
  induction q with
  | ret v =>
    intro m hm hq
    obtain ⟨k, -, r, g, y, hask, -⟩ := hnext m hm
    rw [hq] at hask
    cases hask
  | ask r g ih =>
    intro m hm hq
    obtain ⟨k, hk, r', g', y, hask, hprog⟩ := hnext m hm
    obtain ⟨rfl, rfl⟩ : r = r' ∧ HEq g g' := by
      rw [hq] at hask
      cases hask
      exact ⟨rfl, .rfl⟩
    obtain ⟨q', hq'⟩ := Option.isSome_iff_exists.1 (hlives (k + 1) (by omega))
    have hlive := hprog.symm.trans hq'
    exact ih y (k + 1) (by omega) (hq'.trans (by rw [(ask_of_live hlive).1]))

end Pool

end Pyreljob.Lib
