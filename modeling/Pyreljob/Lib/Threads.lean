import Mathlib.Logic.Function.Basic
import Mathlib.Data.Set.Function
import Pyreljob.Lib.Pool

/-!
Components that run several programs at once, seen as a pool of processes.

A component with a state of its own has a number of threads: each is what is left of some program that
talks to the shared state. Whatever the component is, as long as a move of it does no more than answer
one of its threads, start one, end some or rename them, a pool can do the same. `Carries` is the relation
that is kept: every thread is a process of the pool.
-/

namespace Pyreljob.Lib

open Function

variable {S K Ans : Type} {Req : Type} {Reply : Req → Type} {Exc : Type} {T T' : Type}

namespace Prog

variable {α : Type} (answer : S → (r : Req) → Ans → Option (S × Except Exc (Reply r)))

def hear (s : S) (a : Ans) : Prog Req Reply Exc α → Option (Prog Req Reply Exc α)
  | .ret _ => none
  | .ask r f => (answer s r a).map fun x => f x.2

end Prog

namespace Pool

/-- **Every thread is a process of the pool**, and no two are the same one. -/
structure Carries (threads : T → Option (Prog Req Reply Exc Unit)) (pid : T → ℕ)
    (p : Pool S K Ans Req Reply Exc) : Prop where
  prog : ∀ t q, threads t = some q → p.prog? (pid t) = some q
  inj : ∀ t t', (threads t).isSome → (threads t').isSome → pid t = pid t' → t = t'

section

variable {answer : S → (r : Req) → Ans → Option (S × Except Exc (Reply r))}
variable {threads : T → Option (Prog Req Reply Exc Unit)} {pid : T → ℕ}
variable {p : Pool S K Ans Req Reply Exc}

lemma Carries.comap (h : Carries threads pid p) {threads' : T' → Option (Prog Req Reply Exc Unit)}
    (ρ : T' → T) (hprog : ∀ t q, threads' t = some q → threads (ρ t) = some q)
    (hinj : ∀ t t', (threads' t).isSome → (threads' t').isSome → ρ t = ρ t' → t = t') :
    Carries threads' (pid ∘ ρ) p where
  prog t q ht := h.prog (ρ t) q (hprog t q ht)
  inj t t' ht ht' heq := by
    have hlive : ∀ t, (threads' t).isSome → (threads (ρ t)).isSome := by
      intro t ht
      obtain ⟨q, hq⟩ := Option.isSome_iff_exists.1 ht
      rw [hprog t q hq]
      rfl
    exact hinj t t' ht ht' (h.inj _ _ (hlive t ht) (hlive t' ht') heq)

lemma Carries.mono (h : Carries threads pid p) {threads' : T → Option (Prog Req Reply Exc Unit)}
    (hprog : ∀ t q, threads' t = some q → threads t = some q) : Carries threads' pid p :=
  h.comap id hprog fun _ _ _ _ heq => heq

/-- **A thread is answered.** -/
theorem Carries.act (program : K → Prog Req Reply Exc Unit) (h : Carries threads pid p) {t : T} {r : Req}
    {f : Except Exc (Reply r) → Prog Req Reply Exc Unit} (ht : threads t = some (.ask r f)) {a : Ans}
    {s : S} {y : Except Exc (Reply r)} (ha : answer p.shared r a = some (s, y))
    {threads' : T → Option (Prog Req Reply Exc Unit)}
    (hself : ∀ q, threads' t = some q → live (f y) = some q)
    (hother : ∀ t' ≠ t, ∀ q, threads' t' = some q → threads t' = some q) :
    ∃ p', p.step answer program (.act (pid t) a) = some p' ∧ p'.shared = s ∧
      Carries threads' pid p' := by
  have hwait := h.prog t _ ht
  obtain ⟨proc, hproc, hq⟩ := Option.bind_eq_some_iff.1 hwait
  obtain ⟨kind, prog⟩ := proc
  dsimp only at hq
  subst hq
  have hset : ∀ q, prog? ⟨s, p.procs.set (pid t) ⟨kind, live (f y)⟩,
      p.log ++ [⟨pid t, r, a, y, p.shared, s⟩]⟩ q = if q = pid t then live (f y) else p.prog? q :=
    prog?_set hproc
  refine ⟨{ shared := s
            procs := p.procs.set (pid t) ⟨kind, live (f y)⟩
            log := p.log ++ [⟨pid t, r, a, y, p.shared, s⟩] }, ?_, rfl, ?_, ?_⟩
  · simp only [step, hproc, ha]
  · intro t' q ht'
    by_cases heq : t' = t
    · subst heq
      rw [hset, if_pos rfl]
      exact hself q ht'
    · have hne : pid t' ≠ pid t := by
        intro hpid
        refine heq (h.inj t' t ?_ ?_ hpid)
        · rw [hother t' heq q ht']
          rfl
        · rw [ht]
          rfl
      rw [hset, if_neg hne]
      exact h.prog t' q (hother t' heq q ht')
  · have hlive : ∀ t', (threads' t').isSome → (threads t').isSome := by
      intro t' ht'
      obtain ⟨q, hq⟩ := Option.isSome_iff_exists.1 ht'
      by_cases heq : t' = t
      · rw [heq, ht]
        rfl
      · rw [hother t' heq q hq]
        rfl
    exact fun t₁ t₂ h₁ h₂ heq => h.inj t₁ t₂ (hlive t₁ h₁) (hlive t₂ h₂) heq

/-- **A thread is started.** -/
theorem Carries.spawn [DecidableEq T] (answer : S → (r : Req) → Ans → Option (S × Except Exc (Reply r)))
    (program : K → Prog Req Reply Exc Unit) (h : Carries threads pid p) (t : T) (k : K)
    {threads' : T → Option (Prog Req Reply Exc Unit)}
    (hself : ∀ q, threads' t = some q → live (program k) = some q)
    (hother : ∀ t' ≠ t, ∀ q, threads' t' = some q → threads t' = some q) :
    ∃ p' pid', p.step answer program (.spawn k) = some p' ∧ p'.shared = p.shared ∧
      Carries threads' pid' p' := by
  have hold : ∀ t' ≠ t, (threads' t').isSome → pid t' < p.procs.length := by
    intro t' hne ht'
    obtain ⟨q, hq⟩ := Option.isSome_iff_exists.1 ht'
    apply lt_of_lives
    rw [lives, h.prog t' q (hother t' hne q hq)]
    rfl
  refine ⟨_, update pid t p.procs.length, rfl, rfl, ?_, ?_⟩
  · intro t' q ht'
    rw [prog?_append]
    by_cases heq : t' = t
    · subst heq
      rw [update_self, if_pos rfl]
      exact hself q ht'
    · have hlt := hold t' heq (by rw [ht']; rfl)
      rw [update_of_ne heq, if_neg hlt.ne]
      exact h.prog t' q (hother t' heq q ht')
  · intro t₁ t₂ h₁ h₂ heq
    have hlive : ∀ t' ≠ t, (threads' t').isSome → (threads t').isSome := by
      intro t' hne ht'
      obtain ⟨q, hq⟩ := Option.isSome_iff_exists.1 ht'
      rw [hother t' hne q hq]
      rfl
    by_cases ht₁ : t₁ = t <;> by_cases ht₂ : t₂ = t
    · rw [ht₁, ht₂]
    · have hlt := hold t₂ ht₂ h₂
      rw [ht₁, update_self, update_of_ne ht₂] at heq
      omega
    · have hlt := hold t₁ ht₁ h₁
      rw [ht₂, update_self, update_of_ne ht₁] at heq
      omega
    · rw [update_of_ne ht₁, update_of_ne ht₂] at heq
      exact h.inj t₁ t₂ (hlive t₁ ht₁ h₁) (hlive t₂ ht₂ h₂) heq

end

end Pool

end Pyreljob.Lib
