import Mathlib.Data.List.Nodup
import Mathlib.Data.List.Perm.Subperm

/-!
Tables with an integer primary key, and what the four SQL statements do to them.

A table carries its own well-formedness: no key occurs twice, and `seq` is above every key that was
ever handed out. An `UPDATE` never writes the key column, which `Table.update` asks for as a proof,
so every statement below returns a table again and nothing has to be re-proved about keys.

`get?` is the view by primary key. Each statement has one lemma saying what it does to that view;
statements about a table are proved through them and never unfold a statement.
-/

namespace Pyreljob.Lib

/-- Rows with an integer primary key. -/
class Keyed (α : Type) where
  /-- The primary key of a row. -/
  key : α → ℕ

/-- A table: its rows in the order they were inserted, and the sequence of its key. -/
structure Table (α : Type) [Keyed α] where
  rows : List α
  /-- Every key handed out so far is below `seq`. -/
  seq : ℕ
  nodup : (rows.map Keyed.key).Nodup
  lt_seq : ∀ r ∈ rows, Keyed.key r < seq

namespace Table

variable {α : Type} [Keyed α]

def empty : Table α := ⟨[], 0, by simp, by simp⟩

/-- A table with one row, whose key was the last one handed out. -/
def single (r : α) : Table α := ⟨[r], Keyed.key r + 1, by simp, by simp⟩

/-- `SELECT ... WHERE id = i`. -/
def get? (t : Table α) (i : ℕ) : Option α := t.rows.find? fun r => Keyed.key r = i

/-- `SELECT ... WHERE p`, in insertion order. -/
def select (t : Table α) (p : α → Prop) [DecidablePred p] : List α := t.rows.filter fun r => p r

/-- `UPDATE ... SET f WHERE p`; the statement does not write the primary key. -/
def update (t : Table α) (p : α → Prop) [DecidablePred p] (f : α → α)
    (hf : ∀ r, Keyed.key (f r) = Keyed.key r := by intro r; rfl) : Table α where
  rows := t.rows.map fun r => if p r then f r else r
  seq := t.seq
  nodup := by
    rw [List.map_map]
    convert t.nodup using 2
    funext r
    by_cases h : p r <;> simp [h, hf]
  lt_seq := by
    intro r hr
    obtain ⟨r₀, h₀, rfl⟩ := List.mem_map.1 hr
    have := t.lt_seq r₀ h₀
    by_cases h : p r₀ <;> simpa [h, hf] using this

/-- `DELETE ... WHERE p`. The sequence does not go back. -/
def delete (t : Table α) (p : α → Prop) [DecidablePred p] : Table α where
  rows := t.rows.filter fun r => ¬ p r
  seq := t.seq
  nodup := t.nodup.sublist (List.filter_sublist.map _)
  lt_seq := fun r hr => t.lt_seq r (List.mem_of_mem_filter hr)

def insert (t : Table α) (r : α) : Option (Table α) :=
  if h : ∀ r' ∈ t.rows, Keyed.key r' ≠ Keyed.key r then
    some
      { rows := t.rows ++ [r]
        seq := max t.seq (Keyed.key r + 1)
        nodup := by
          rw [List.map_append, List.nodup_append]
          refine ⟨t.nodup, by simp, ?_⟩
          intro a ha b hb
          obtain ⟨r', hr', rfl⟩ := List.mem_map.1 ha
          simp only [List.map_cons, List.map_nil, List.mem_singleton] at hb
          rw [hb]
          exact h r' hr'
        lt_seq := by
          intro r' hr'
          rcases List.mem_append.1 hr' with hr' | hr'
          · exact Nat.lt_of_lt_of_le (t.lt_seq r' hr') (Nat.le_max_left _ _)
          · rw [List.mem_singleton.1 hr']
            exact Nat.lt_of_lt_of_le (Nat.lt_succ_self _) (Nat.le_max_right _ _) }
  else none

/-! ### The view by primary key -/

lemma key_of_get? {t : Table α} {i : ℕ} {r : α} (h : t.get? i = some r) : Keyed.key r = i := by
  simpa using List.find?_some h

lemma mem_of_get? {t : Table α} {i : ℕ} {r : α} (h : t.get? i = some r) : r ∈ t.rows :=
  List.mem_of_find?_eq_some h

lemma lt_seq_of_get? {t : Table α} {i : ℕ} {r : α} (h : t.get? i = some r) : i < t.seq :=
  key_of_get? h ▸ t.lt_seq r (mem_of_get? h)

lemma get?_of_mem {t : Table α} {r : α} (h : r ∈ t.rows) : t.get? (Keyed.key r) = some r := by
  unfold get?
  cases hf : t.rows.find? (fun r' => Keyed.key r' = Keyed.key r) with
  | none => simpa using List.find?_eq_none.1 hf r h
  | some r' =>
    have hk : Keyed.key r' = Keyed.key r := by simpa using List.find?_some hf
    rw [List.inj_on_of_nodup_map t.nodup (List.mem_of_find?_eq_some hf) h hk]

lemma mem_rows_iff {t : Table α} {r : α} : r ∈ t.rows ↔ t.get? (Keyed.key r) = some r :=
  ⟨get?_of_mem, mem_of_get?⟩

lemma mem_select {t : Table α} {p : α → Prop} [DecidablePred p] {r : α} :
    r ∈ t.select p ↔ t.get? (Keyed.key r) = some r ∧ p r := by
  simp [select, List.mem_filter, mem_rows_iff]

@[simp] lemma get?_update (t : Table α) (p : α → Prop) [DecidablePred p] (f : α → α) (hf) (i : ℕ) :
    (t.update p f hf).get? i = (t.get? i).map fun r => if p r then f r else r := by
  have hk : ∀ r, Keyed.key (if p r then f r else r) = Keyed.key r := by
    intro r
    by_cases h : p r <;> simp [h, hf]
  simp only [get?, update, List.find?_map, Function.comp_def, hk]

@[simp] lemma get?_delete (t : Table α) (p : α → Prop) [DecidablePred p] (i : ℕ) :
    (t.delete p).get? i = (t.get? i).filter fun r => ¬ p r := by
  cases h : t.get? i with
  | none =>
    cases h' : (t.delete p).get? i with
    | none => rfl
    | some r =>
      have hr : r ∈ t.rows := List.mem_of_mem_filter (mem_of_get? h')
      have := get?_of_mem hr
      rw [key_of_get? h', h] at this
      cases this
  | some r =>
    by_cases hp : p r
    · simp only [Option.filter, hp, not_true_eq_false, decide_false, Bool.false_eq_true, if_false]
      cases h' : (t.delete p).get? i with
      | none => rfl
      | some r' =>
        obtain ⟨hr, hp'⟩ := List.mem_filter.1 (mem_of_get? h')
        have := get?_of_mem hr
        rw [key_of_get? h', h] at this
        cases this
        simp [hp] at hp'
    · have hm : r ∈ (t.delete p).rows := List.mem_filter.2 ⟨mem_of_get? h, by simpa using hp⟩
      have := get?_of_mem hm
      rw [key_of_get? h] at this
      simp [this, Option.filter, hp]

lemma update_congr {t : Table α} {p q : α → Prop} [DecidablePred p] [DecidablePred q] {f g : α → α}
    (hf hg) (h : ∀ r ∈ t.rows, (if p r then f r else r) = if q r then g r else r) :
    t.update p f hf = t.update q g hg := by
  simp only [update, mk.injEq, and_true]
  exact List.map_congr_left h

lemma update_of_not {t : Table α} {p : α → Prop} [DecidablePred p] {f : α → α} (hf)
    (h : ∀ r ∈ t.rows, ¬ p r) : t.update p f hf = t := by
  have hrows : t.rows.map (fun r => if p r then f r else r) = t.rows := by
    rw [List.map_congr_left (g := id)]
    · simp
    · intro r hr
      simp [h r hr]
  cases t
  simp only [update, mk.injEq, and_true]
  exact hrows

lemma delete_of_not {t : Table α} {p : α → Prop} [DecidablePred p] (h : ∀ r ∈ t.rows, ¬ p r) :
    t.delete p = t := by
  have hrows : t.rows.filter (fun r => ¬ p r) = t.rows :=
    List.filter_eq_self.2 fun r hr => by simpa using h r hr
  cases t
  simp only [delete, mk.injEq, and_true]
  exact hrows

/-- An `UPDATE` that asks for one key, and finds no row there that it matches. -/
lemma update_of_get? {t : Table α} {p : α → Prop} [DecidablePred p] {f : α → α} (hf) {i : ℕ}
    (hp : ∀ r, p r → Keyed.key r = i) (h : ∀ r, t.get? i = some r → ¬ p r) :
    t.update p f hf = t :=
  update_of_not hf fun r hr hpr => h r (hp r hpr ▸ get?_of_mem hr) hpr

lemma length_select_key (t : Table α) (i : ℕ) :
    (t.select fun r => Keyed.key r = i).length ≤ 1 := by
  have hkeys : (t.select fun r => Keyed.key r = i).map Keyed.key =
      List.replicate (t.select fun r => Keyed.key r = i).length i := by
    refine List.eq_replicate_iff.2 ⟨by simp, fun k hk => ?_⟩
    obtain ⟨r, hr, rfl⟩ := List.mem_map.1 hk
    exact (mem_select.1 hr).2
  have hnodup : ((t.select fun r => Keyed.key r = i).map Keyed.key).Nodup :=
    t.nodup.sublist (List.filter_sublist.map _)
  rw [hkeys] at hnodup
  exact List.nodup_replicate.1 hnodup

lemma nodup_select (t : Table α) (p : α → Prop) [DecidablePred p] :
    ((t.select p).map Keyed.key).Nodup :=
  t.nodup.sublist (List.filter_sublist.map _)

lemma mem_keys_select {t : Table α} {p : α → Prop} [DecidablePred p] {i : ℕ} :
    i ∈ (t.select p).map Keyed.key ↔ ∃ r, t.get? i = some r ∧ p r := by
  rw [List.mem_map]
  constructor
  · rintro ⟨r, hr, rfl⟩
    exact ⟨r, mem_select.1 hr⟩
  · rintro ⟨r, hr, hp⟩
    exact ⟨r, mem_select.2 ⟨(key_of_get? hr).symm ▸ hr, hp⟩, key_of_get? hr⟩

/-- A `SELECT` finds no more rows than there are keys under which it may find one. -/
lemma length_select_le {t : Table α} {p : α → Prop} [DecidablePred p] {l : List ℕ}
    (h : ∀ i r, t.get? i = some r → p r → i ∈ l) : (t.select p).length ≤ l.length := by
  have hsub : (t.select p).map Keyed.key ⊆ l := by
    intro i hi
    obtain ⟨r, hr, hp⟩ := mem_keys_select.1 hi
    exact h i r hr hp
  simpa using (List.subperm_of_subset (nodup_select t p) hsub).length_le

lemma length_select_lt {t t' : Table α} {p q : α → Prop} [DecidablePred p] [DecidablePred q] {i : ℕ}
    {r' : α} (h : ∀ i r, t.get? i = some r → p r → ∃ r', t'.get? i = some r' ∧ q r')
    (hr' : t'.get? i = some r') (hq : q r') (hnot : ∀ r, t.get? i = some r → ¬ p r) :
    (t.select p).length < (t'.select q).length := by
  have hnodup : (i :: (t.select p).map Keyed.key).Nodup := by
    refine List.nodup_cons.2 ⟨fun hi => ?_, nodup_select t p⟩
    obtain ⟨r, hr, hp⟩ := mem_keys_select.1 hi
    exact hnot r hr hp
  have hsub : i :: (t.select p).map Keyed.key ⊆ (t'.select q).map Keyed.key := by
    refine List.cons_subset.2 ⟨mem_keys_select.2 ⟨r', hr', hq⟩, fun k hk => ?_⟩
    obtain ⟨r, hr, hp⟩ := mem_keys_select.1 hk
    exact mem_keys_select.2 (h k r hr hp)
  have hle := (List.subperm_of_subset hnodup hsub).length_le
  simp only [List.length_cons, List.length_map] at hle
  omega

lemma select_isEmpty {t : Table α} {p : α → Prop} [DecidablePred p] :
    (t.select p).isEmpty ↔ ∀ r ∈ t.rows, ¬ p r := by
  simp [select]

lemma get?_insert {t t' : Table α} {r : α} (h : t.insert r = some t') (i : ℕ) :
    t'.get? i = if i = Keyed.key r then some r else t.get? i := by
  unfold insert at h
  split at h
  · rename_i hfresh
    cases h
    simp only [get?, List.find?_append, List.find?_cons, List.find?_nil]
    by_cases hi : i = Keyed.key r
    · have hnone : t.rows.find? (fun r' => Keyed.key r' = i) = none := by
        rw [List.find?_eq_none]
        intro r' hr'
        simpa [hi] using hfresh r' hr'
      simp [hnone, ← hi]
    · simp [hi, Ne.symm hi]
  · cases h

lemma get?_insert_key {t t' : Table α} {r : α} (h : t.insert r = some t') :
    t.get? (Keyed.key r) = none := by
  unfold insert at h
  split at h
  · rename_i hfresh
    rw [get?, List.find?_eq_none]
    intro r' hr'
    simpa using hfresh r' hr'
  · cases h

lemma get?_insert_self {t t' : Table α} {r : α} (h : t.insert r = some t') :
    t'.get? (Keyed.key r) = some r :=
  (get?_insert h _).trans (if_pos rfl)

lemma get?_insert_stays {t t' : Table α} {r r' : α} (h : t.insert r = some t') {i : ℕ}
    (hr' : t.get? i = some r') : t'.get? i = some r' := by
  rw [get?_insert h, if_neg, hr']
  rintro rfl
  rw [get?_insert_key h] at hr'
  cases hr'

lemma get?_insert_cases {t t' : Table α} {r : α} (h : t.insert r = some t') (i : ℕ) :
    t'.get? i = t.get? i ∨ (i = Keyed.key r ∧ t.get? i = none ∧ t'.get? i = some r) := by
  rw [get?_insert h]
  by_cases hi : i = Keyed.key r
  · exact .inr ⟨hi, hi ▸ get?_insert_key h, by simp [hi]⟩
  · exact .inl (by simp [hi])

lemma exists_insert {t : Table α} {r : α} (h : t.get? (Keyed.key r) = none) :
    ∃ t', t.insert r = some t' := by
  have hfree : ∀ r' ∈ t.rows, Keyed.key r' ≠ Keyed.key r := by
    intro r' hr' heq
    have hget := get?_of_mem hr'
    rw [heq, h] at hget
    cases hget
  exact ⟨_, dif_pos hfree⟩

lemma seq_insert {t t' : Table α} {r : α} (h : t.insert r = some t') :
    t'.seq = max t.seq (Keyed.key r + 1) := by
  unfold insert at h
  split at h
  · cases h; rfl
  · cases h

lemma rows_insert {t t' : Table α} {r : α} (h : t.insert r = some t') : t'.rows = t.rows ++ [r] := by
  unfold insert at h
  split at h
  · cases h; rfl
  · cases h

/-! ### The view by any other column -/

/-- An `UPDATE` that does not write what a `SELECT` looks at acts on its result row by row. -/
lemma select_update (t : Table α) {p q : α → Prop} [DecidablePred p] [DecidablePred q] {f : α → α}
    (hf) (hq : ∀ r, p r → (q (f r) ↔ q r)) :
    (t.update p f hf).select q = (t.select q).map fun r => if p r then f r else r := by
  simp only [select, update, List.filter_map]
  congr 1
  refine List.filter_congr fun r _ => ?_
  by_cases hp : p r <;> simp [hp, hq]

/-- An `UPDATE` that takes the rows it matches out of a `SELECT`. -/
lemma select_update_out (t : Table α) {p q : α → Prop} [DecidablePred p] [DecidablePred q]
    {f : α → α} (hf) (hq : ∀ r, p r → ¬ q (f r)) :
    (t.update p f hf).select q = (t.select q).filter fun r => ¬ p r := by
  simp only [select, update, List.filter_map, List.filter_filter]
  have hkeep : ∀ r, decide (q (if p r then f r else r)) = (!decide (p r) && decide (q r)) := by
    intro r
    by_cases hp : p r <;> simp [hp, hq]
  simp only [Function.comp_def, hkeep, decide_not]
  refine (List.map_congr_left fun r hr => ?_).trans (List.map_id _)
  have hkept := (List.mem_filter.1 hr).2
  rw [Bool.and_eq_true, Bool.not_eq_true', decide_eq_false_iff_not] at hkept
  exact if_neg hkept.1

/-- One `UPDATE` after the other, where the first one takes its rows out of the second: together they
do what one `UPDATE` of all these rows does. -/
lemma update_update_out (t : Table α) {p q r : α → Prop} [DecidablePred p] [DecidablePred q]
    [DecidablePred r] {f : α → α} (hf) (hq : ∀ x, p x → ¬ q (f x))
    (hr : ∀ x ∈ t.rows, r x ↔ p x ∨ q x) :
    (t.update p f hf).update q f hf = t.update r f hf := by
  simp only [update, List.map_map, mk.injEq, and_true]
  refine List.map_congr_left fun x hx => ?_
  by_cases hp : p x
  · simp [hp, hq, hr x hx]
  · simp [hp, hr x hx]

lemma length_select_out (t : Table α) {p q r : α → Prop} [DecidablePred p] [DecidablePred q]
    [DecidablePred r] {f : α → α} (hf) (hq : ∀ x, p x → ¬ q (f x))
    (hr : ∀ x ∈ t.rows, r x ↔ p x ∨ q x) :
    (t.select p).length + ((t.update p f hf).select q).length = (t.select r).length := by
  rw [select_update_out t hf hq]
  simp only [select, List.filter_filter, ← List.countP_eq_length_filter]
  rw [List.countP_eq_countP_filter_add t.rows (fun x => decide (r x)) (fun x => decide (p x)),
    List.countP_filter, List.countP_filter]
  congr 1
  · refine List.countP_congr fun x hx => ?_
    simp only [decide_eq_true_eq, Bool.and_eq_true, hr x hx]
    exact ⟨fun h => ⟨.inl h, h⟩, And.right⟩
  · refine List.countP_congr fun x hx => ?_
    by_cases hp : p x <;> simp [hp, hr x hx]

lemma select_delete (t : Table α) (p q : α → Prop) [DecidablePred p] [DecidablePred q] :
    (t.delete p).select q = (t.select q).filter fun r => ¬ p r := by
  simp only [select, delete, List.filter_filter]
  exact List.filter_congr fun r _ => by simp [Bool.and_comm]

lemma select_insert {t t' : Table α} {r : α} (h : t.insert r = some t') (q : α → Prop)
    [DecidablePred q] : t'.select q = t.select q ++ if q r then [r] else [] := by
  simp only [select, rows_insert h, List.filter_append]
  by_cases hq : q r <;> simp [hq]

end Table

end Pyreljob.Lib
