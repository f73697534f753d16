import Mathlib.Logic.Relation
import Pyreljob.Lib.Prog

/-!
One program amid others.

The others are not programs here, but whatever may happen to the state between two answers: a relation
`R`, which is all that a property of the program then rests on. Where nothing may happen, the program
is alone.
-/

namespace Pyreljob.Lib

open Relation

variable {S Ans : Type} {Req : Type} {Reply : Req → Type} {Exc : Type} {α β : Type}

/-- An answered request of the program, and the state before and after. -/
structure Answered (S Ans : Type) (Req : Type) (Reply : Req → Type) (Exc : Type) where
  req : Req
  ans : Ans
  reply : Except Exc (Reply req)
  pre : S
  post : S

namespace Prog

variable (answer : S → (r : Req) → Ans → Option (S × Except Exc (Reply r))) (R : S → S → Prop)

/-- **The program amid others.** It begins in `s`, is answered as the log says, and goes on as `q` in
`s'`; at any time the state may have moved by `R`. -/
inductive Amid : Prog Req Reply Exc α → S → List (Answered S Ans Req Reply Exc) →
    Prog Req Reply Exc α → S → Prop
  | rest (p : Prog Req Reply Exc α) (s : S) : Amid p s [] p s
  | other {p q : Prog Req Reply Exc α} {s s₁ s' : S} {l : List (Answered S Ans Req Reply Exc)}
      (hR : R s s₁) (h : Amid p s₁ l q s') : Amid p s l q s'
  | ask {r : Req} {k : Except Exc (Reply r) → Prog Req Reply Exc α} {q : Prog Req Reply Exc α}
      {s s₁ s' : S} {a : Ans} {y : Except Exc (Reply r)} {l : List (Answered S Ans Req Reply Exc)}
      (ha : answer s r a = some (s₁, y)) (h : Amid (k y) s₁ l q s') :
      Amid (.ask r k) s (⟨r, a, y, s, s₁⟩ :: l) q s'

variable {answer R}
variable {q : Prog Req Reply Exc α} {s s' : S} {l : List (Answered S Ans Req Reply Exc)}

lemma Amid.later {p : Prog Req Reply Exc α} {s₀ : S} (hs : ReflTransGen R s₀ s)
    (h : Amid answer R p s l q s') : Amid answer R p s₀ l q s' := by
  induction hs using ReflTransGen.head_induction_on with
  | refl => exact h
  | head hR _ ih => exact .other hR ih

lemma amid_ret {v : Except Exc α} : Amid answer R (.ret v) s l q s' ↔
    l = [] ∧ q = .ret v ∧ ReflTransGen R s s' := by
  constructor
  · intro h
    generalize hp : (Prog.ret v : Prog Req Reply Exc α) = p at h
    induction h with
    | rest p s => exact ⟨rfl, rfl, .refl⟩
    | other hR h ih =>
      obtain ⟨rfl, hq, hs⟩ := ih hp
      exact ⟨rfl, hq, .head hR hs⟩
    | ask ha h ih => cases hp
  · rintro ⟨rfl, rfl, hs⟩
    exact .later hs (.rest _ _)

/-- A program that waits is answered in a state that the others have led to. -/
lemma amid_ask {r : Req} {k : Except Exc (Reply r) → Prog Req Reply Exc α} :
    Amid answer R (.ask r k) s l q s' ↔ (l = [] ∧ q = .ask r k ∧ ReflTransGen R s s') ∨
      ∃ s₁ a y s₂ l', ReflTransGen R s s₁ ∧ answer s₁ r a = some (s₂, y) ∧
        l = ⟨r, a, y, s₁, s₂⟩ :: l' ∧ Amid answer R (k y) s₂ l' q s' := by
  constructor
  · intro h
    generalize hp : Prog.ask r k = p at h
    induction h with
    | rest p s => exact .inl ⟨rfl, rfl, .refl⟩
    | other hR h ih =>
      rcases ih hp with ⟨rfl, hq, hs⟩ | ⟨s₁, a, y, s₂, l', hs, ha, rfl, hrest⟩
      · exact .inl ⟨rfl, hq, .head hR hs⟩
      · exact .inr ⟨s₁, a, y, s₂, l', .head hR hs, ha, rfl, hrest⟩
    | ask ha h ih =>
      cases hp
      exact .inr ⟨_, _, _, _, _, .refl, ha, rfl, h⟩
  · rintro (⟨rfl, rfl, hs⟩ | ⟨s₁, a, y, s₂, l', hs, ha, rfl, h⟩)
    · exact .later hs (.rest _ _)
    · exact .later hs (.ask ha h)

lemma amid_call_bind {r : Req} {f : Reply r → Prog Req Reply Exc α}
    (h : Amid answer R (call r >>= f) s l q s') : l = [] ∨
      ∃ s₁ a y s₂ l', ReflTransGen R s s₁ ∧ answer s₁ r a = some (s₂, y) ∧
        l = ⟨r, a, y, s₁, s₂⟩ :: l' ∧
        ((∃ e, y = .error e ∧ l' = []) ∨ ∃ b, y = .ok b ∧ Amid answer R (f b) s₂ l' q s') := by
  rcases amid_ask.1 h with ⟨rfl, -, -⟩ | ⟨s₁, a, y, s₂, l', hs, ha, rfl, hrest⟩
  · exact .inl rfl
  · refine .inr ⟨s₁, a, y, s₂, l', hs, ha, rfl, ?_⟩
    cases y with
    | error e => exact .inl ⟨e, rfl, (amid_ret.1 hrest).1⟩
    | ok b => exact .inr ⟨b, rfl, hrest⟩

end Prog

end Pyreljob.Lib
