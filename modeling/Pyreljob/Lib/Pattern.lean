import Mathlib.Data.List.Forall2
import Mathlib.Data.List.Infix

/-!
Patterns with wildcards, and what stands between two marks of a text.

A pattern matches a whole text. Everything about patterns rests on `fits_append`: a pattern in two
parts matches what can be cut in two parts that they match.

The second half is about looking for a word between two marks. If the word holds no mark itself, the
two marks are next to each other, and the text can be searched one mark after the other.
-/

namespace Pyreljob.Lib

/-- A piece of a pattern. -/
inductive Glob (α : Type)
  /-- Any text, also the empty one. -/
  | any
  /-- Any one character. -/
  | one
  | lit (a : α)

namespace Glob

variable {α : Type}

/-- **The pattern matches the text.** When a character of the text is as good as one of the pattern is
given from outside. -/
def fits (same : α → α → Bool) : List (Glob α) → List α → Bool
  | [], s => s.isEmpty
  | any :: p, s => s.tails.any fun s' => fits same p s'
  | one :: p, s =>
    match s with
    | [] => false
    | _ :: s => fits same p s
  | lit a :: p, s =>
    match s with
    | [] => false
    | b :: s => same a b && fits same p s

variable {same : α → α → Bool}

lemma fits_any {p : List (Glob α)} {s : List α} :
    fits same (any :: p) s ↔ ∃ a b, s = a ++ b ∧ fits same p b := by
  rw [fits, List.any_eq_true]
  constructor
  · rintro ⟨b, hb, hfits⟩
    obtain ⟨a, rfl⟩ := (List.mem_tails _ _).1 hb
    exact ⟨a, b, rfl, hfits⟩
  · rintro ⟨a, b, rfl, hfits⟩
    exact ⟨b, (List.mem_tails _ _).2 (List.suffix_append a b), hfits⟩

lemma fits_one {p : List (Glob α)} {s : List α} :
    fits same (one :: p) s ↔ ∃ b s', s = b :: s' ∧ fits same p s' := by
  cases s <;> simp [fits]

lemma fits_lit {a : α} {p : List (Glob α)} {s : List α} :
    fits same (lit a :: p) s ↔ ∃ b s', s = b :: s' ∧ same a b ∧ fits same p s' := by
  cases s <;> simp [fits]

lemma fits_any_nil (s : List α) : fits same [any] s :=
  fits_any.2 ⟨s, [], by simp, rfl⟩

/-- **A pattern in two parts.** -/
theorem fits_append {p p' : List (Glob α)} {s : List α} :
    fits same (p ++ p') s ↔ ∃ a b, s = a ++ b ∧ fits same p a ∧ fits same p' b := by
  induction p generalizing s with
  | nil =>
    simp only [List.nil_append, fits, List.isEmpty_iff]
    constructor
    · exact fun h => ⟨[], s, rfl, rfl, h⟩
    · rintro ⟨_, b, rfl, rfl, h⟩
      exact h
  | cons g p ih =>
    cases g with
    | any =>
      simp only [List.cons_append, fits_any, ih]
      constructor
      · rintro ⟨a, _, rfl, b, c, rfl, hp, hp'⟩
        exact ⟨a ++ b, c, by simp, ⟨a, b, rfl, hp⟩, hp'⟩
      · rintro ⟨_, c, rfl, ⟨a, b, rfl, hp⟩, hp'⟩
        exact ⟨a, b ++ c, by simp, b, c, rfl, hp, hp'⟩
    | one =>
      simp only [List.cons_append, fits_one, ih]
      constructor
      · rintro ⟨x, _, rfl, a, b, rfl, hp, hp'⟩
        exact ⟨x :: a, b, rfl, ⟨x, a, rfl, hp⟩, hp'⟩
      · rintro ⟨_, b, rfl, ⟨x, a, rfl, hp⟩, hp'⟩
        exact ⟨x, a ++ b, rfl, a, b, rfl, hp, hp'⟩
    | lit y =>
      simp only [List.cons_append, fits_lit, ih]
      constructor
      · rintro ⟨x, _, rfl, hxy, a, b, rfl, hp, hp'⟩
        exact ⟨x :: a, b, rfl, ⟨x, a, rfl, hxy, hp⟩, hp'⟩
      · rintro ⟨_, b, rfl, ⟨x, a, rfl, hxy, hp⟩, hp'⟩
        exact ⟨x, a ++ b, rfl, hxy, a, b, rfl, hp, hp'⟩

/-- A pattern without wildcards matches what agrees with it character by character. -/
lemma fits_lits {t s : List α} :
    fits same (t.map lit) s ↔ List.Forall₂ (fun a b => same a b = true) t s := by
  induction t generalizing s with
  | nil => simp [fits]
  | cons a t ih =>
    simp only [List.map_cons, fits_lit, ih]
    constructor
    · rintro ⟨b, s', rfl, hab, hs'⟩
      exact .cons hab hs'
    · rintro (_ | ⟨hab, hs'⟩)
      exact ⟨_, _, rfl, hab, hs'⟩

lemma fits_within {p : List (Glob α)} {s : List α} :
    fits same (any :: (p ++ [any])) s ↔ ∃ a w b, s = a ++ (w ++ b) ∧ fits same p w := by
  rw [fits_any]
  simp only [fits_append]
  constructor
  · rintro ⟨a, _, rfl, w, b, rfl, hw, -⟩
    exact ⟨a, w, b, rfl, hw⟩
  · rintro ⟨a, w, b, rfl, hw⟩
    exact ⟨a, w ++ b, rfl, w, b, rfl, hw, fits_any_nil b⟩

/-! ### Patterns as they are written -/

section Parse

variable [DecidableEq α] (many single : α) (escape : Option α)

/-- What a character stands for that no escape character precedes. -/
def token (c : α) : Glob α := if c = many then any else if c = single then one else lit c

/-- A pattern as it is written; behind the escape character a character stands for itself. -/
def parse : List α → List (Glob α)
  | [] => []
  | [c] => [token many single c]
  | c :: c' :: cs =>
    if escape = some c then lit c' :: parse cs else token many single c :: parse (c' :: cs)

variable {many single escape}

lemma parse_cons {c : α} (hc : escape ≠ some c) (cs : List α) :
    parse many single escape (c :: cs) = token many single c :: parse many single escape cs := by
  cases cs with
  | nil => rfl
  | cons c' cs => rw [parse, if_neg hc]

lemma parse_eq_map {p : List α} (h : ∀ c ∈ p, escape ≠ some c) :
    parse many single escape p = p.map (token many single) := by
  induction p with
  | nil => rfl
  | cons c cs ih =>
    rw [parse_cons (h c List.mem_cons_self), ih fun c' hc' => h c' (List.mem_cons_of_mem _ hc')]
    rfl

lemma token_eq_lit {c : α} (h : c ≠ many) (h' : c ≠ single) : token many single c = lit c := by
  rw [token, if_neg h, if_neg h']

/-- A wildcard matches any character, and each other character matches itself. -/
lemma fits_tokens (hsame : ∀ a, same a a) {t s : List α}
    (h : List.Forall₂ (fun a b => a = b ∨ a = many ∨ a = single) t s) :
    fits same (t.map (token many single)) s := by
  induction h with
  | nil => rfl
  | @cons a b t s hab _ ih =>
    rw [List.map_cons, token]
    split
    · exact fits_any.2 ⟨[b], s, rfl, ih⟩
    · split
      · exact fits_one.2 ⟨b, s, rfl, ih⟩
      · rename_i hmany hsingle
        obtain rfl : a = b := by
          rcases hab with h | h | h
          · exact h
          · exact absurd h hmany
          · exact absurd h hsingle
        exact fits_lit.2 ⟨a, s, rfl, hsame a, ih⟩

end Parse

end Glob

/-! ### Between two marks -/

section Marks

variable {α : Type} {q : α} {w e xs ys : List α}

def Between (q : α) (w s : List α) : Prop := ∃ a b, s = a ++ q :: (w ++ q :: b)

/-- `w` is the end of `s`, from its beginning on or after a mark. -/
def EndsIn (q : α) (w s : List α) : Prop := s = w ∨ ∃ a, s = a ++ q :: w

lemma between_skip (hxs : q ∉ xs) : Between q w (xs ++ ys) ↔ Between q w ys := by
  constructor
  · rintro ⟨a, b, h⟩
    rcases List.append_eq_append_iff.1 h with ⟨a', -, rfl⟩ | ⟨c, rfl, hc⟩
    · exact ⟨a', b, rfl⟩
    · cases c with
      | nil => exact ⟨[], b, hc.symm⟩
      | cons x c =>
        obtain ⟨rfl, -⟩ := List.cons.inj hc
        simp at hxs
  · rintro ⟨a, b, rfl⟩
    exact ⟨xs ++ a, b, by simp⟩

/-- **A word without marks stands before a mark or after it.** -/
theorem between_append (hw : q ∉ w) :
    Between q w (xs ++ q :: ys) ↔ Between q w (xs ++ [q]) ∨ Between q w (q :: ys) := by
  constructor
  · rintro ⟨a, b, h⟩
    rcases List.append_eq_append_iff.1 h with ⟨a', -, ha'⟩ | ⟨c, rfl, hc⟩
    · exact .inr ⟨a', b, ha'⟩
    · cases c with
      | nil => exact .inr ⟨[], b, hc.symm⟩
      | cons x c =>
        obtain ⟨rfl, hcut⟩ := List.cons.inj hc
        left
        rcases List.append_eq_append_iff.1 hcut with ⟨d, rfl, hd⟩ | ⟨d, rfl, hd⟩
        · cases d with
          | nil => exact ⟨a, [], by simp⟩
          | cons y d =>
            obtain ⟨rfl, -⟩ := List.cons.inj hd
            exact ⟨a, d ++ [q], by simp⟩
        · cases d with
          | nil => exact ⟨a, [], by simp⟩
          | cons y d =>
            obtain ⟨rfl, -⟩ := List.cons.inj hd
            simp at hw
  · rintro (⟨a, b, h⟩ | ⟨a, b, h⟩)
    · refine ⟨a, b ++ ys, ?_⟩
      calc xs ++ q :: ys = (xs ++ [q]) ++ ys := by simp
        _ = _ := by rw [h]; simp
    · exact ⟨xs ++ a, b, by rw [h]; simp⟩

lemma between_last : Between q w (q :: e ++ [q]) ↔ EndsIn q w e ∨ Between q w (q :: e) := by
  constructor
  · rintro ⟨a, b, h⟩
    rcases List.eq_nil_or_concat b with rfl | ⟨b, x, rfl⟩
    · left
      have hlast : (q :: e) ++ [q] = (a ++ q :: w) ++ [q] := h.trans (by simp)
      have hcut := List.append_cancel_right hlast
      cases a with
      | nil => exact .inl (List.cons.inj hcut).2
      | cons y a => exact .inr ⟨a, (List.cons.inj hcut).2⟩
    · right
      refine ⟨a, b, ?_⟩
      have hcut : (q :: e) ++ [q] = (a ++ q :: (w ++ q :: b)) ++ [x] := by
        rw [h]
        simp
      exact (List.append_inj' hcut rfl).1
  · rintro ((rfl | ⟨a, rfl⟩) | ⟨a, b, h⟩)
    · exact ⟨[], [], rfl⟩
    · exact ⟨q :: a, [], by simp⟩
    · exact ⟨a, b ++ [q], by rw [h]; simp⟩

def Guarded (g q : α) (e : List α) : Prop := ∀ a b, e = a ++ q :: b → ∃ a', a = a' ++ [g]

lemma Guarded.of_not_mem {g : α} (h : q ∉ e) : Guarded g q e := by
  rintro a b rfl
  simp at h

lemma Guarded.append {g : α} (hxs : Guarded g q xs) (hys : Guarded g q ys) :
    Guarded g q (xs ++ ys) := by
  intro a b h
  rcases List.append_eq_append_iff.1 h with ⟨a', rfl, hcut⟩ | ⟨c, hcut, hc⟩
  · obtain ⟨a'', rfl⟩ := hys a' b hcut
    exact ⟨xs ++ a'', by simp⟩
  · cases c with
    | nil =>
      obtain ⟨a', ha'⟩ := hys [] b hc.symm
      simp at ha'
    | cons y c =>
      obtain ⟨rfl, -⟩ := List.cons.inj hc
      exact hxs a c hcut

lemma Guarded.not_between {g : α} (h : Guarded g q e) (hgq : g ≠ q) (hw : g ∉ w) :
    ¬ Between q w (q :: e) := by
  rintro ⟨a, b, hcut⟩
  have hend : ∃ a₀ a', a₀ ++ q :: w = q :: (a' ++ [g]) := by
    cases a with
    | nil =>
      obtain ⟨a', ha'⟩ := h w b (List.cons.inj hcut).2
      exact ⟨[], a', by rw [ha']; rfl⟩
    | cons y a =>
      obtain ⟨a', ha'⟩ := h (a ++ q :: w) b (by rw [(List.cons.inj hcut).2]; simp)
      exact ⟨q :: a, a', by rw [← ha']; rfl⟩
  obtain ⟨a₀, a', hend⟩ := hend
  rcases List.eq_nil_or_concat w with rfl | ⟨w, x, rfl⟩
  · have := (List.append_inj' (show a₀ ++ [q] = (q :: a') ++ [g] from hend) rfl).2
    exact hgq (List.cons.inj this).1.symm
  · have hlast : (a₀ ++ q :: w) ++ [x] = (q :: a') ++ [g] := by
      rw [List.cons_append, ← hend]
      simp
    obtain rfl := (List.cons.inj (List.append_inj' hlast rfl).2).1
    simp at hw

/-- **A guarded text between two marks**: a word without marks and guards stands at its end, or behind
it. -/
theorem Guarded.between_iff {g : α} (h : Guarded g q e) (hgq : g ≠ q) (hg : g ∉ w) (hq : q ∉ w) :
    Between q w (q :: (e ++ q :: ys)) ↔ EndsIn q w e ∨ Between q w (q :: ys) := by
  rw [← List.cons_append, between_append hq, between_last, or_iff_left (h.not_between hgq hg)]

end Marks

end Pyreljob.Lib
