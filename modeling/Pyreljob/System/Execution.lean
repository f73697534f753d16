import Pyreljob.System.Roles
import Pyreljob.System.Claim

/-!
Who executes which run, read off the log.

A process that executes a run has won exactly one claim, that of the run, and a process that does
anything else has won none. The claim that holds a run is the last that was won on it; a running run
carries the worker of that claim.
-/

namespace Pyreljob

open Lib

def claimsBy (pid : ℕ) (log : List Ev) : List Claim :=
  (log.filterMap claimOf).filter fun c => c.pid = pid

/-- The last claim that was won on the run. -/
def lastClaim (i : ℕ) (log : List Ev) : Option Claim :=
  ((log.filterMap claimOf).filter fun c => c.runId = i).getLast?

lemma claimsBy_concat (pid : ℕ) (log : List Ev) (ev : Ev) :
    claimsBy pid (log ++ [ev]) =
      claimsBy pid log ++ ((claimOf ev).filter fun c => c.pid = pid).toList := by
  unfold claimsBy
  cases h : claimOf ev with
  | none => simp [List.filterMap_append, h]
  | some c =>
    by_cases hc : c.pid = pid <;>
      simp [List.filterMap_append, List.filter_append, Option.filter, h, hc]

lemma lastClaim_concat (i : ℕ) (log : List Ev) (ev : Ev) :
    lastClaim i (log ++ [ev]) =
      ((claimOf ev).filter fun c => c.runId = i).or (lastClaim i log) := by
  unfold lastClaim
  cases h : claimOf ev with
  | none => simp [List.filterMap_append, h]
  | some c =>
    by_cases hc : c.runId = i <;>
      simp [List.filterMap_append, List.filter_append, Option.filter, h, hc]

/-- Phases and claims fit together. -/
structure Executing (log : List Ev) (ph : ℕ → Phase) : Prop where
  /-- What a process executes is the one claim it has won. -/
  exec : ∀ pid i j w s, ph pid = .exec i j w s →
    ∃ c, claimsBy pid log = [c] ∧ c.runId = i ∧ c.run.jobId = j ∧ c.workerId = w
  /-- A process that does something else has won none. -/
  idle : ∀ pid, ¬ (ph pid).Executes → ph pid ≠ .gone → claimsBy pid log = []

lemma executing_init : Executing [] fun _ => .rest where
  exec := by
    rintro _ _ _ _ _ ⟨⟩
  idle := fun _ _ _ => rfl

lemma Executing.gone {log : List Ev} {ph : ℕ → Phase} {pid : ℕ} (h : Executing log ph) :
    Executing log (Function.update ph pid .gone) where
  exec := by
    intro q i j w s hq
    by_cases hqp : q = pid
    · subst hqp
      rw [Function.update_self] at hq
      cases hq
    · rw [Function.update_of_ne hqp] at hq
      exact h.exec q i j w s hq
  idle := by
    intro q hx hg
    by_cases hqp : q = pid
    · subst hqp
      rw [Function.update_self] at hg
      exact absurd rfl hg
    · rw [Function.update_of_ne hqp] at hx hg
      exact h.idle q hx hg

lemma claimIn_of_exec {may : Leave} {pid i j : ℕ} {w : String} {s : Stage} {r : Req}
    {y : Except Exc r.Reply} (hok : (Phase.exec i j w s).ok may r) : claimIn pid r y = none := by
  unfold claimIn
  split
  · cases hok
  · rfl

lemma Executing.step {may : Leave} {log : List Ev} {ph : ℕ → Phase} {pid : ℕ} {r : Req}
    {a : Answer} {y : Except Exc r.Reply} {db db' : DB} (h : Executing log ph)
    (hok : (ph pid).ok may r) (hv : Valid r y) :
    Executing (log ++ [⟨pid, r, a, y, db, db'⟩])
      (Function.update ph pid ((ph pid).next r y)) := by
  have hother : ∀ q, q ≠ pid → claimsBy q (log ++ [⟨pid, r, a, y, db, db'⟩]) = claimsBy q log := by
    intro q hqp
    rw [claimsBy_concat]
    cases hcl : claimOf ⟨pid, r, a, y, db, db'⟩ with
    | none => simp
    | some c =>
      have : c.pid ≠ q := (claimIn_pid hcl).trans_ne (Ne.symm hqp)
      simp [Option.filter, this]
  constructor
  case exec =>
    intro q i j w s hq
    by_cases hqp : q = pid
    · subst hqp
      rw [Function.update_self] at hq
      rw [claimsBy_concat]
      rcases Phase.exec_of_next hok hq with ⟨s', hs'⟩ | ⟨pid', cl, hcl, rfl, rfl, rfl⟩
      · rw [hs'] at hok
        have hnone : claimOf ⟨q, r, a, y, db, db'⟩ = none := claimIn_of_exec hok
        rw [hnone]
        simpa using h.exec q i j w s' hs'
      · unfold claimIn at hcl
        split at hcl
        · rename_i i w now le run
          cases hcl
          have hsel : ph q = .selected i now le := hok
          have hnone := h.idle q (by simp [hsel, Phase.Executes]) (by simp [hsel])
          exact ⟨⟨q, i, w, now, le, run⟩, by simp [hnone, claimOf, claimIn, Option.filter],
            Eq.symm hv, rfl, rfl⟩
        · cases hcl
    · rw [Function.update_of_ne hqp] at hq
      rw [hother q hqp]
      exact h.exec q i j w s hq
  case idle =>
    intro q hx hg
    by_cases hqp : q = pid
    · subst hqp
      rw [Function.update_self] at hx hg
      rw [claimsBy_concat]
      have hwas : ¬ (ph q).Executes := by
        intro hex
        obtain ⟨i, j, w, s, hs⟩ : ∃ i j w s, ph q = .exec i j w s := by
          revert hex
          cases ph q <;> simp [Phase.Executes]
        rw [hs] at hok hx
        obtain ⟨s', hs'⟩ := Phase.next_exec y hok
        rw [hs'] at hx
        exact hx trivial
      rw [h.idle q hwas (Phase.ne_gone_of_ok hok)]
      cases hcl : claimOf ⟨q, r, a, y, db, db'⟩ with
      | none => simp
      | some c =>
        exfalso
        have hcl' : claimIn q r y = some c := hcl
        unfold claimIn at hcl'
        split at hcl'
        · exact hx trivial
        · cases hcl'
    · rw [Function.update_of_ne hqp] at hx hg
      rw [hother q hqp]
      exact h.idle q hx hg

lemma lastClaim_mem {i : ℕ} {log : List Ev} {c : Claim} (h : lastClaim i log = some c) :
    c ∈ log.filterMap claimOf ∧ c.runId = i := by
  have hm := List.mem_of_getLast? h
  simpa using List.mem_filter.1 hm

lemma mem_claimsBy {pid : ℕ} {log : List Ev} {c : Claim} :
    c ∈ claimsBy pid log ↔ c ∈ log.filterMap claimOf ∧ c.pid = pid := by
  simp [claimsBy, List.mem_filter]

/-! ### The worker that a run carries -/

/-- A running run carries the worker of the claim that holds it. -/
def HeldBy (db : DB) (log : List Ev) : Prop :=
  ∀ i r, db.runs.get? i = some r → r.status = .running →
    ∃ c, lastClaim i log = some c ∧ r.workerId = some c.workerId

lemma heldBy_commit {db db' : DB} {e : Env} {c : Call} {y : Except Exc c.Reply} {log : List Ev}
    {pid : ℕ} (h : HeldBy db log) (hx : c.exec db e = some (db', y)) :
    HeldBy db' (log ++ [⟨pid, .db c, .commit e, y, db, db'⟩]) := by
  intro i r' hr' hs
  have hstep := exec_run hx i
  rw [hr'] at hstep
  rw [lastClaim_concat]
  cases hcl : claimOf ⟨pid, .db c, .commit e, y, db, db'⟩ with
  | some cl =>
    obtain ⟨rfl, r, hr, -, hpost⟩ := claimIn_commit hx hcl
    by_cases hi : cl.runId = i
    · subst hi
      rw [hpost] at hr'
      cases hr'
      exact ⟨cl, by simp [Option.filter], rfl⟩
    · rcases hstep.running hs with ⟨r, hr, hrs, hw, -⟩ | ⟨r, w, now, le, -, hc, -⟩ | ⟨r, w, -, hc, -⟩
      · simpa [Option.filter, hi, hw] using h i r hr hrs
      · cases hc
        exact absurd rfl hi
      · cases hc
  | none =>
    rcases hstep.running hs with ⟨r, hr, hrs, hw, -⟩ | ⟨r, w, now, le, hr, rfl, -⟩ |
        ⟨r, w, hr, -, hrs, hw⟩
    · simpa [hw] using h i r hr hrs
    · simp only [Call.exec, Option.some.injEq, Prod.mk.injEq] at hx
      obtain ⟨rfl, rfl⟩ := hx
      rcases claimRun_cases db i w now le with ⟨r₀, -, -, hy, -⟩ | ⟨-, hpost⟩
      · simp [claimOf, claimIn, hy] at hcl
      · rw [hpost] at hr'
        simpa using h i r' hr' hs
    · simpa [hw] using h i r hr hrs

lemma HeldBy.quiet {db : DB} {log : List Ev} {ev : Ev} (h : HeldBy db log)
    (hev : claimOf ev = none) : HeldBy db (log ++ [ev]) := by
  intro i r hr hs
  rw [lastClaim_concat, hev]
  simpa using h i r hr hs

end Pyreljob
