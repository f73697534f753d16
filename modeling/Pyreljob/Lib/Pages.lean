import Mathlib.Data.List.Sort
import Mathlib.Data.List.Perm.Subperm
import Mathlib.Tactic.Linarith

/-!
Reading a list page by page while it grows.

The list is sorted by a key, the greatest one first, and each page is read from the list as it is at
that time, at an offset that counts from its beginning. What comes in meanwhile moves what is there
towards the end, never towards the beginning, so it may be read twice, but not missed.
-/

namespace Pyreljob.Lib

section

variable {α κ : Type} [LinearOrder κ] (key : α → κ)

def Descending (l : List α) : Prop := l.Pairwise fun a b => key b < key a

def rank (k : κ) (l : List α) : ℕ := l.countP fun a => k < key a

def page (limit offset : ℕ) (l : List α) : List α := (l.drop offset).take limit

end

section

variable {α κ : Type} [LinearOrder κ] {key : α → κ} {l l' : List α} {a : α} {limit offset : ℕ}

lemma getElem?_rank (h : Descending key l) (ha : a ∈ l) : l[rank key (key a) l]? = some a := by
  induction l with
  | nil => cases ha
  | cons b l ih =>
    obtain ⟨hb, hl⟩ := List.pairwise_cons.1 h
    unfold rank
    rcases List.mem_cons.1 ha with rfl | ha
    · have hzero : l.countP (fun b => key a < key b) = 0 := by
        rw [List.countP_eq_zero]
        intro b hmem
        simpa using (hb b hmem).le
      simp [hzero]
    · have hone := ih hl ha
      unfold rank at hone
      simpa [List.countP_cons, hb a ha] using hone

lemma rank_le (h : Descending key l) (hkeys : ∀ a ∈ l, ∃ b ∈ l', key b = key a) (k : κ) :
    rank key k l ≤ rank key k l' := by
  have hrank : ∀ l : List α, rank key k l = ((l.map key).filter fun k' => k < k').length := by
    intro l
    rw [← List.countP_eq_length_filter, List.countP_map]
    rfl
  have hnodup : (l.map key).Nodup := List.pairwise_map.2 (h.imp fun hlt => hlt.ne')
  have hsub : ((l.map key).filter fun k' => k < k') ⊆ (l'.map key).filter fun k' => k < k' := by
    intro k' hk'
    obtain ⟨hmem, hlt⟩ := List.mem_filter.1 hk'
    obtain ⟨a, ha, rfl⟩ := List.mem_map.1 hmem
    obtain ⟨b, hb, heq⟩ := hkeys a ha
    exact List.mem_filter.2 ⟨heq ▸ List.mem_map_of_mem hb, hlt⟩
  rw [hrank, hrank]
  exact (List.subperm_of_subset (hnodup.filter _) hsub).length_le

lemma mem_page (h : Descending key l) (ha : a ∈ l) (hlow : offset ≤ rank key (key a) l)
    (hhigh : rank key (key a) l < offset + limit) : a ∈ page limit offset l := by
  refine List.mem_of_getElem? (i := rank key (key a) l - offset) ?_
  unfold page
  rw [List.getElem?_take_of_lt (by omega), List.getElem?_drop, Nat.add_sub_cancel' hlow]
  exact getElem?_rank h ha

/-- **A walk over the pages misses nothing that was there when it began**, if nothing is taken away
until it ends: the page `m` is read from `L m`, and the last one is not full. -/
theorem pages_cover {L : ℕ → List α} (hL : ∀ m, Descending key (L m))
    (hkeys : ∀ m, ∀ a ∈ L m, ∃ b ∈ L (m + 1), key b = key a) {n : ℕ}
    (hlast : (page limit (n * limit) (L n)).length < limit) (ha : a ∈ L 0) :
    ∃ m ≤ n, ∃ b ∈ page limit (m * limit) (L m), key b = key a := by
  by_contra hmissed
  -- the element is there all the time, behind all pages that have been read
  have hbehind : ∀ m ≤ n, ∃ b ∈ L m, key b = key a ∧ (m + 1) * limit ≤ rank key (key a) (L m) := by
    intro m
    induction m with
    | zero =>
      intro hm
      refine ⟨a, ha, rfl, ?_⟩
      by_contra hlt
      exact hmissed ⟨0, hm, a, mem_page (hL 0) ha (by omega) (by omega), rfl⟩
    | succ m ih =>
      intro hm
      obtain ⟨b, hb, hkey, hrank⟩ := ih (by omega)
      obtain ⟨b', hb', hkey'⟩ := hkeys m b hb
      have hlow : (m + 1) * limit ≤ rank key (key a) (L (m + 1)) :=
        hrank.trans (rank_le (hL m) (hkeys m) _)
      refine ⟨b', hb', hkey'.trans hkey, ?_⟩
      by_contra hlt
      have hsucc : (m + 1 + 1) * limit = (m + 1) * limit + limit := Nat.succ_mul (m + 1) limit
      refine hmissed ⟨m + 1, hm, b', mem_page (hL (m + 1)) hb' ?_ ?_, hkey'.trans hkey⟩
      · rwa [hkey', hkey]
      · rw [hkey', hkey]
        omega
  obtain ⟨b, hb, hkey, hrank⟩ := hbehind n le_rfl
  have hlt : rank key (key a) (L n) < (L n).length := by
    have hat := getElem?_rank (hL n) hb
    rw [hkey] at hat
    exact (List.getElem?_eq_some_iff.1 hat).1
  have hsucc : (n + 1) * limit = n * limit + limit := Nat.succ_mul n limit
  unfold page at hlast
  rw [List.length_take, List.length_drop] at hlast
  omega

end

end Pyreljob.Lib
