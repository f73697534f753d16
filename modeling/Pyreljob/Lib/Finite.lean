import Mathlib.Logic.Hydra
import Mathlib.Tactic.Abel
import Pyreljob.Lib.Prog

/-!
Programs end, however many of them take turns.

A `Prog` is a tree with no infinite branch, although a request may have infinitely many replies: what
is left of it after an answer is smaller than it was. So are several programs of which one is answered
at a time, in whatever order.
-/

namespace Pyreljob.Lib.Prog

variable {Req : Type} {Reply : Req → Type} {Exc : Type} {α : Type}

/-- What is left of a program after one answer. -/
inductive Next : Prog Req Reply Exc α → Prog Req Reply Exc α → Prop
  | answer (r : Req) (k : Except Exc (Reply r) → Prog Req Reply Exc α) (y : Except Exc (Reply r)) :
    Next (k y) (.ask r k)

/-- What is left of a program after some answers, at least one. -/
abbrev Left : Prog Req Reply Exc α → Prog Req Reply Exc α → Prop := Relation.TransGen Next

lemma wellFounded_next : WellFounded (@Next Req Reply Exc α) := by
  refine ⟨fun p => ?_⟩
  induction p with
  | ret v => exact ⟨_, fun q hq => by cases hq⟩
  | ask r k ih =>
    refine ⟨_, fun q hq => ?_⟩
    cases hq
    exact ih _

/-- **A program ends.** -/
theorem wellFounded_left : WellFounded (@Left Req Reply Exc α) :=
  wellFounded_next.transGen

def Fewer (l l' : List (Prog Req Reply Exc α)) : Prop :=
  Relation.CutExpand Left (l : Multiset (Prog Req Reply Exc α)) l'

/-- **Several programs end**, whichever of them is answered next. -/
theorem wellFounded_fewer : WellFounded (@Fewer Req Reply Exc α) :=
  InvImage.wf _ wellFounded_left.cutExpand

lemma fewer_set {l : List (Prog Req Reply Exc α)} {k : ℕ} {p q : Prog Req Reply Exc α}
    (hp : l[k]? = some p) (h : Left q p) : Fewer (l.set k q) l := by
  obtain ⟨hk, rfl⟩ := List.getElem?_eq_some_iff.1 hp
  refine ⟨{q}, l[k], fun a ha => Multiset.mem_singleton.1 ha ▸ h, ?_⟩
  have hset : (l.set k q).Perm (q :: l.eraseIdx k) := by
    rw [List.eraseIdx_eq_take_drop_succ, List.set_eq_take_append_cons_drop, if_pos hk]
    exact List.perm_middle
  have hself : l.Perm (l[k] :: l.eraseIdx k) := (List.getElem_cons_eraseIdx_perm hk).symm
  rw [Multiset.coe_eq_coe.2 hset, Multiset.coe_eq_coe.2 hself]
  simp only [← Multiset.cons_coe, ← Multiset.singleton_add]
  abel

end Pyreljob.Lib.Prog
