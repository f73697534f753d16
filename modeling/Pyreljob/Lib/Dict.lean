import Mathlib.Data.List.Basic

/-!
Dictionaries with string keys, in insertion order: looking a key up and writing one.
-/

namespace Pyreljob.Lib

/-- A dictionary with string keys; a key is written in place if it is there, at the end if not. -/
abbrev Dict (V : Type) := List (String × V)

namespace Dict

variable {V : Type}

/-- `d.get(k)`. -/
def get? (d : Dict V) (k : String) : Option V := (d.find? fun e => e.1 = k).map Prod.snd

def set : Dict V → String → V → Dict V
  | [], k, v => [(k, v)]
  | e :: d, k, v => if e.1 = k then (k, v) :: d else e :: set d k v

lemma get?_cons (e : String × V) (d : Dict V) (k : String) :
    get? (e :: d) k = if e.1 = k then some e.2 else get? d k := by
  by_cases h : e.1 = k <;> simp [get?, h]

lemma get?_append (d d' : Dict V) (k : String) : get? (d ++ d') k = (get? d k).or (get? d' k) := by
  induction d with
  | nil => rfl
  | cons e d ih =>
    rw [List.cons_append, get?_cons, get?_cons, ih]
    split <;> rfl

/-- Where the keys are distinct, what is in a dictionary is found. -/
lemma get?_of_mem {d : Dict V} (hd : (d.map Prod.fst).Nodup) {k : String} {v : V} (h : (k, v) ∈ d) :
    get? d k = some v := by
  induction d with
  | nil => cases h
  | cons e d ih =>
    obtain ⟨hnot, hd'⟩ := List.nodup_cons.1 hd
    rw [get?_cons]
    rcases List.mem_cons.1 h with rfl | h'
    · exact if_pos rfl
    · rw [if_neg, ih hd' h']
      rintro rfl
      exact hnot (List.mem_map.2 ⟨_, h', rfl⟩)

lemma get?_filter_ne (d : Dict V) {k k' : String} (h : k' ≠ k) :
    get? (d.filter fun e => e.1 ≠ k) k' = get? d k' := by
  induction d with
  | nil => rfl
  | cons e d ih =>
    by_cases he : e.1 = k
    · simp only [List.filter_cons, he, ne_eq, not_true_eq_false, decide_false, get?_cons, h.symm,
        if_false, Bool.false_eq_true]
      exact ih
    · simp only [List.filter_cons, ne_eq, he, not_false_eq_true, decide_true, get?_cons, if_true]
      rw [← ih]

@[simp] lemma get?_set_self (d : Dict V) (k : String) (v : V) : (d.set k v).get? k = some v := by
  induction d with
  | nil => simp [set, get?_cons]
  | cons e d ih =>
    by_cases h : e.1 = k
    · simp [set, h, get?_cons]
    · simp [set, h, get?_cons, ih]

lemma get?_set_ne (d : Dict V) {k k' : String} (v : V) (h : k' ≠ k) :
    (d.set k v).get? k' = d.get? k' := by
  induction d with
  | nil => simp [set, get?_cons, h.symm]
  | cons e d ih =>
    by_cases he : e.1 = k
    · simp [set, he, get?_cons, h.symm]
    · simp only [set, he, if_false, get?_cons, ih]

end Dict

end Pyreljob.Lib
