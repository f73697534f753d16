import Pyreljob.Model.Listing
import Pyreljob.Store.Lifecycle

/-!
What the queries by tag return.

`tagLike_iff` says what `LIKE` finds for a tag without special characters: the query looks for the
tag between two quotation marks, and these are next to each other, so it finds what an element of the
list ends in behind its last quotation mark, and what stands between two elements.
-/

namespace Pyreljob

open Lib Relation

/-! ### Strings in JSON -/

lemma digitChar_ne_quote (n : ℕ) : (n % 16).digitChar ≠ quote := by
  have h : ∀ d < 16, Nat.digitChar d ≠ quote := by decide
  exact h _ (Nat.mod_lt n (by omega))

lemma quote_not_mem_hex4 (n : ℕ) : quote ∉ hex4 n := by
  have h := digitChar_ne_quote
  simp [hex4, fun n => (h n).symm]

/-- The characters that stand for themselves in a JSON string. -/
def Verbatim (c : Char) : Prop := Printable c ∧ c ≠ quote ∧ c ≠ '\\'

instance (c : Char) : Decidable (Verbatim c) := inferInstanceAs (Decidable (_ ∧ _))

lemma escapeChar_of_verbatim {c : Char} (h : Verbatim c) : escapeChar c = [c] := by
  obtain ⟨hprintable, hquote, hslash⟩ := h
  have hne : ∀ c' : Char, ¬ Printable c' → c ≠ c' := by
    rintro c' hc' rfl
    exact hc' hprintable
  rw [escapeChar, if_neg hquote, if_neg hslash, if_neg (hne _ (by decide)), if_neg (hne _ (by decide)),
    if_neg (hne _ (by decide)), if_neg (hne _ (by decide)), if_neg (hne _ (by decide)),
    if_pos hprintable]

/-- Every other character but the quotation mark takes at least two, none of them a quotation mark. -/
lemma escapeChar_spec {c : Char} (hverbatim : ¬ Verbatim c) (hquote : c ≠ quote) :
    quote ∉ escapeChar c ∧ 2 ≤ (escapeChar c).length := by
  have hhex := quote_not_mem_hex4
  have hslash : quote ≠ '\\' := by decide
  have hu : quote ≠ 'u' := by decide
  unfold escapeChar
  rw [if_neg hquote]
  split_ifs with hbackslash _ _ _ _ _ hprintable
  -- the escapes of two characters
  any_goals decide
  · exact absurd ⟨hprintable, hquote, hbackslash⟩ hverbatim
  · simp [hhex, hslash, hu]
  · simp [hhex, hslash, hu]

lemma count_escape (s : List Char) : (escape s).count quote = s.count quote := by
  induction s with
  | nil => rfl
  | cons c s ih =>
    have hc : (escapeChar c).count quote = [c].count quote := by
      by_cases hverbatim : Verbatim c
      · rw [escapeChar_of_verbatim hverbatim]
      · by_cases hquote : c = quote
        · rw [hquote]
          decide
        · rw [List.count_eq_zero.2 (escapeChar_spec hverbatim hquote).1,
            List.count_eq_zero.2 (by simpa using Ne.symm hquote)]
    rw [escape, List.flatMap_cons, List.count_append, hc, ← escape, ih, ← List.count_append]
    rfl

lemma length_le_escape (s : List Char) : s.length ≤ (escape s).length := by
  induction s with
  | nil => simp
  | cons c s ih =>
    have hc : 1 ≤ (escapeChar c).length := by
      by_cases hverbatim : Verbatim c
      · rw [escapeChar_of_verbatim hverbatim]
        simp
      · by_cases hquote : c = quote
        · rw [hquote]
          decide
        · have := (escapeChar_spec hverbatim hquote).2
          omega
    rw [escape, List.flatMap_cons, List.length_append, ← escape, List.length_cons]
    omega

/-- A string is longer when it is written, if some character does not stand for itself. -/
lemma length_lt_escape {s : List Char} (h : ∃ c ∈ s, ¬ Verbatim c) :
    s.length < (escape s).length := by
  obtain ⟨c, hmem, hverbatim⟩ := h
  obtain ⟨s₁, s₂, rfl⟩ := List.append_of_mem hmem
  have hc : 2 ≤ (escapeChar c).length := by
    by_cases hquote : c = quote
    · rw [hquote]
      decide
    · exact (escapeChar_spec hverbatim hquote).2
  have h₁ := length_le_escape s₁
  have h₂ := length_le_escape s₂
  have hcut : escape (s₁ ++ c :: s₂) = escape s₁ ++ (escapeChar c ++ escape s₂) := by
    simp [escape]
  rw [hcut]
  simp only [List.length_append, List.length_cons]
  omega

lemma escape_of_verbatim {s : List Char} (h : ∀ c ∈ s, Verbatim c) : escape s = s := by
  induction s with
  | nil => rfl
  | cons c s ih =>
    rw [escape, List.flatMap_cons, escapeChar_of_verbatim (h c List.mem_cons_self), ← escape,
      ih fun c' hc' => h c' (List.mem_cons_of_mem _ hc')]
    rfl

lemma guarded_escape (s : List Char) : Guarded '\\' quote (escape s) := by
  induction s with
  | nil => exact .of_not_mem (by simp [escape])
  | cons c s ih =>
    have hc : Guarded '\\' quote (escapeChar c) := by
      by_cases hquote : c = quote
      · have h₁ : Guarded '\\' quote ['\\', quote] := by
          intro a b h
          cases a with
          | nil => exact absurd (List.cons.inj h).1 (by decide)
          | cons x a =>
            obtain ⟨rfl, h⟩ := List.cons.inj h
            cases a with
            | nil => exact ⟨[], rfl⟩
            | cons y a => simp at h
        rw [hquote]
        exact h₁
      · refine .of_not_mem ?_
        by_cases hverbatim : Verbatim c
        · rw [escapeChar_of_verbatim hverbatim]
          simpa using Ne.symm hquote
        · exact (escapeChar_spec hverbatim hquote).1
    rw [escape, List.flatMap_cons]
    exact hc.append ih

/-! ### What stands between two quotation marks -/

section

variable {w : List Char}

lemma dumpElements_nil (s : List Char) :
    dumpElements s [] = quote :: (escape s ++ quote :: [']']) := rfl

lemma dumpElements_cons (s s' : List Char) (ss : List (List Char)) :
    dumpElements s (s' :: ss) =
      quote :: (escape s ++ quote :: ([',', ' '] ++ dumpElements s' ss)) := by
  simp [dumpElements]

lemma between_separator (hquote : quote ∉ w) (hslash : '\\' ∉ w) (s : List Char)
    (ss : List (List Char)) :
    Between quote w (quote :: ([',', ' '] ++ dumpElements s ss)) ↔
      w = [',', ' '] ∨ Between quote w (dumpElements s ss) := by
  have hfree : quote ∉ [',', ' '] := by decide
  have hguarded : Guarded '\\' quote [',', ' '] := .of_not_mem hfree
  obtain ⟨rest, hrest⟩ : ∃ rest, dumpElements s ss = quote :: rest := by
    cases ss <;> exact ⟨_, rfl⟩
  rw [hrest, hguarded.between_iff (by decide) hslash hquote]
  refine or_congr_left ⟨?_, fun h => .inl h.symm⟩
  rintro (h | ⟨a, h⟩)
  · exact h.symm
  · rw [h] at hfree
    simp at hfree

lemma between_dumpElements (hquote : quote ∉ w) (hslash : '\\' ∉ w) (ss : List (List Char))
    (s : List Char) :
    Between quote w (dumpElements s ss) ↔
      (∃ s' ∈ s :: ss, EndsIn quote w (escape s')) ∨ w = [',', ' '] ∧ 1 ≤ ss.length := by
  induction ss generalizing s with
  | nil =>
    have hend : ¬ Between quote w [quote, ']'] := by
      rintro ⟨a, b, h⟩
      have hone : [quote, ']'].count quote = 1 := by decide
      rw [h, List.count_append, List.count_cons_self, List.count_append, List.count_cons_self] at hone
      omega
    rw [dumpElements_nil, (guarded_escape s).between_iff (by decide) hslash hquote,
      or_iff_left hend]
    simp
  | cons s' ss ih =>
    rw [dumpElements_cons, (guarded_escape s).between_iff (by decide) hslash hquote,
      between_separator hquote hslash, ih]
    simp only [List.exists_mem_cons_iff, List.length_cons]
    constructor
    · rintro (h | h | (h | h) | ⟨h, -⟩)
      · exact .inl (.inl h)
      · exact .inr ⟨h, by omega⟩
      · exact .inl (.inr (.inl h))
      · exact .inl (.inr (.inr h))
      · exact .inr ⟨h, by omega⟩
    · rintro ((h | h | h) | ⟨h, -⟩)
      · exact .inl h
      · exact .inr (.inr (.inl (.inl h)))
      · exact .inr (.inr (.inl (.inr h)))
      · exact .inr (.inl h)

/-- **A word in the text of a list**: an element ends in it, or it separates two elements. -/
theorem between_dumps (hquote : quote ∉ w) (hslash : '\\' ∉ w) (tags : List String) :
    Between quote w (dumps tags) ↔
      (∃ s ∈ tags, EndsIn quote w (escape s.toList)) ∨ w = [',', ' '] ∧ 2 ≤ tags.length := by
  cases tags with
  | nil =>
    have hnone : ¬ Between quote w ['[', ']'] := by
      rintro ⟨a, b, h⟩
      have hfree : quote ∉ ['[', ']'] := by decide
      rw [h] at hfree
      simp at hfree
    simp [dumps, hnone]
  | cons s ss =>
    change Between quote w (['['] ++ dumpElements s.toList (ss.map String.toList)) ↔ _
    rw [between_skip (by decide), between_dumpElements hquote hslash]
    simp

end

/-! ### What `LIKE` finds -/

abbrev Dialect.Alike (d : Dialect) (t w : List Char) : Prop :=
  List.Forall₂ (fun a b => d.same a b = true) t w

lemma toNat_toLower (c : Char) :
    c.toLower.toNat = if 65 ≤ c.toNat ∧ c.toNat ≤ 90 then c.toNat + 32 else c.toNat := by
  unfold Char.toLower
  by_cases h : c.val ≥ 'A'.val ∧ c.val ≤ 'Z'.val
  · have h' : 65 ≤ c.toNat ∧ c.toNat ≤ 90 := h
    rw [dif_pos h, if_pos h']
    change (c.toNat + 32) % 2 ^ 32 = c.toNat + 32
    omega
  · have h' : ¬ (65 ≤ c.toNat ∧ c.toNat ≤ 90) := h
    rw [dif_neg h, if_neg h']

def Uncased (c : Char) : Prop := ¬ (65 ≤ c.toNat ∧ c.toNat ≤ 90) ∧ ¬ (97 ≤ c.toNat ∧ c.toNat ≤ 122)

instance (c : Char) : Decidable (Uncased c) := inferInstanceAs (Decidable (_ ∧ _))

namespace Dialect

variable {d : Dialect}

lemma same_self (d : Dialect) (a : Char) : d.same a a = true := by
  cases d <;> simp [same]

lemma same_uncased {a c : Char} (hc : Uncased c) : d.same a c = true ↔ a = c := by
  refine ⟨fun h => ?_, fun h => h ▸ d.same_self a⟩
  cases d with
  | postgres => exact of_decide_eq_true h
  | sqlite =>
    have hlower : a.toLower.toNat = c.toLower.toNat := congrArg Char.toNat (of_decide_eq_true h)
    rw [toNat_toLower, toNat_toLower] at hlower
    obtain ⟨hupper, hlow⟩ := hc
    refine Char.toNat_inj.1 ?_
    split_ifs at hlower <;> omega

lemma uncased_same {a c : Char} (hc : Uncased c) : d.same c a = true ↔ a = c := by
  rw [← same_uncased (d := d) hc]
  cases d <;> simp [same, eq_comm]

lemma Alike.refl (d : Dialect) (t : List Char) : d.Alike t t :=
  List.forall₂_same.2 fun a _ => d.same_self a

/-- A character that is no letter is in both texts or in neither. -/
lemma Alike.mem_iff {t w : List Char} (h : d.Alike t w) {c : Char} (hc : Uncased c) :
    c ∈ w ↔ c ∈ t := by
  induction h with
  | nil => simp
  | @cons a b t w hab _ ih =>
    have hhead : c = b ↔ c = a := by
      constructor
      · rintro rfl
        exact ((same_uncased hc).1 hab).symm
      · rintro rfl
        exact ((uncased_same hc).1 hab).symm
    rw [List.mem_cons, List.mem_cons, ih, hhead]

lemma Alike.count_eq {t w : List Char} (h : d.Alike t w) {c : Char} (hc : Uncased c) :
    w.count c = t.count c := by
  induction h with
  | nil => rfl
  | @cons a b t w hab _ ih =>
    have hhead : b = c ↔ a = c := by
      constructor
      · rintro rfl
        exact (same_uncased hc).1 hab
      · rintro rfl
        exact (uncased_same hc).1 hab
    rw [List.count_cons, List.count_cons, ih]
    simp only [beq_iff_eq, hhead]

lemma alike_uncased {t w : List Char} (hw : ∀ c ∈ w, Uncased c) : d.Alike t w ↔ t = w := by
  refine ⟨fun h => ?_, fun h => h ▸ .refl d t⟩
  induction h with
  | nil => rfl
  | @cons a b t w hab _ ih =>
    rw [(same_uncased (hw b List.mem_cons_self)).1 hab,
      ih fun c hc => hw c (List.mem_cons_of_mem _ hc)]

end Dialect

lemma uncased_quote : Uncased quote := by decide

lemma uncased_backslash : Uncased '\\' := by decide

lemma uncased_separator : ∀ c ∈ [',', ' '], Uncased c := by
  intro c hc
  rcases List.mem_pair.1 hc with rfl | rfl <;> decide

/-- A tag without characters that JSON or `LIKE` treat in a special way. -/
def Plain (t : String) : Prop := ∀ c ∈ t.toList, Verbatim c ∧ c ≠ '%' ∧ c ≠ '_'

/-- Some element ends in the tag, from its beginning on or after a quotation mark; or the tag is what
separates two elements. -/
def LooksLike (d : Dialect) (t : String) (tags : List String) : Prop :=
  (∃ s ∈ tags, ∃ w, d.Alike t.toList w ∧ EndsIn quote w (escape s.toList)) ∨
    t.toList = [',', ' '] ∧ 2 ≤ tags.length

/-- A pattern without special characters is the text it looks for. -/
lemma parse_tagPattern (d : Dialect) {t : String} (h : ∀ c ∈ t.toList, c ≠ '\\') :
    Glob.parse '%' '_' d.escape (tagPattern t) =
      .any :: ((quote :: (t.toList ++ [quote])).map (Glob.token '%' '_') ++ [.any]) := by
  have hescape : ∀ c ∈ tagPattern t, d.escape ≠ some c := by
    intro c hc
    cases d with
    | sqlite => rintro ⟨⟩
    | postgres =>
      rintro ⟨⟩
      simp only [tagPattern, List.mem_cons, List.mem_append, List.not_mem_nil, or_false] at hc
      rcases hc with hc | hc | hc | hc | hc
      · exact absurd hc (by decide)
      · exact absurd hc (by decide)
      · exact h _ hc rfl
      · exact absurd hc (by decide)
      · exact absurd hc (by decide)
  rw [Glob.parse_eq_map hescape]
  simp [tagPattern, Glob.token]

/-- A text that begins and ends anywhere around a word between two quotation marks. -/
lemma fits_quoted {d : Dialect} {p : List (Glob Char)} {text : List Char} :
    Glob.fits d.same (.any :: ((.lit quote :: (p ++ [.lit quote])) ++ [.any])) text ↔
      ∃ w, Glob.fits d.same p w ∧ Between quote w text := by
  rw [Glob.fits_within]
  simp only [Glob.fits_lit, Glob.fits_append, Dialect.uncased_same uncased_quote]
  constructor
  · rintro ⟨a, _, b, rfl, _, _, rfl, rfl, w, _, rfl, hw, _, s, rfl, rfl, hs⟩
    obtain rfl := List.isEmpty_iff.1 hs
    exact ⟨w, hw, a, b, by simp⟩
  · rintro ⟨w, hw, a, b, rfl⟩
    exact ⟨a, quote :: (w ++ [quote]), b, by simp, quote, _, rfl, rfl, w, [quote], rfl, hw, quote, [],
      rfl, rfl, rfl⟩

/-- **What `LIKE` finds for a plain tag.** -/
theorem tagLike_iff {d : Dialect} {t : String} (ht : Plain t) {j : JobRow} {tags : List String}
    (htags : j.tags = some tags) : j.tagLike d t = true ↔ LooksLike d t tags := by
  have hpattern : Glob.parse '%' '_' d.escape (tagPattern t) =
      .any :: ((.lit quote :: (t.toList.map .lit ++ [.lit quote])) ++ [.any]) := by
    have hlits : t.toList.map (Glob.token '%' '_') = t.toList.map Glob.lit :=
      List.map_congr_left fun c hc => Glob.token_eq_lit (ht c hc).2.1 (ht c hc).2.2
    rw [parse_tagPattern d fun c hc => (ht c hc).1.2.2, List.map_cons, List.map_append, hlits]
    rfl
  have hquote : ∀ w, d.Alike t.toList w → quote ∉ w := by
    intro w hw hmem
    exact (ht _ ((hw.mem_iff uncased_quote).1 hmem)).1.2.1 rfl
  have hslash : ∀ w, d.Alike t.toList w → '\\' ∉ w := by
    intro w hw hmem
    exact (ht _ ((hw.mem_iff uncased_backslash).1 hmem)).1.2.2 rfl
  rw [JobRow.tagLike, htags]
  change d.like (dumps tags) (tagPattern t) = true ↔ _
  rw [Dialect.like, hpattern, fits_quoted]
  simp only [Glob.fits_lits]
  constructor
  · rintro ⟨w, hw, hbetween⟩
    rcases (between_dumps (hquote w hw) (hslash w hw) tags).1 hbetween with ⟨s, hs, hend⟩ | ⟨hsep, h2⟩
    · exact .inl ⟨s, hs, w, hw, hend⟩
    · rw [hsep] at hw
      exact .inr ⟨(Dialect.alike_uncased uncased_separator).1 hw, h2⟩
  · rintro (⟨s, hs, w, hw, hend⟩ | ⟨hsep, h2⟩)
    · exact ⟨w, hw, (between_dumps (hquote w hw) (hslash w hw) tags).2 (.inl ⟨s, hs, hend⟩)⟩
    · have hself := Dialect.Alike.refl d t.toList
      exact ⟨_, hself, (between_dumps (hquote _ hself) (hslash _ hself) tags).2 (.inr ⟨hsep, h2⟩)⟩

/-! ### The queries -/

def JobRow.HasTag (j : JobRow) (t : String) : Prop := ∃ tags, j.tags = some tags ∧ t ∈ tags

/-- **Tag scoping is exact**: the queries return the jobs that have the tag and the runs of these jobs,
and no others. -/
def TagScoped (d : Dialect) (db : DB) (t : String) : Prop :=
  (∀ limit, db.jobs.rows.length ≤ limit → ∀ j,
    j ∈ db.listJobs d limit 0 (some t) ↔ j ∈ db.jobs.rows ∧ j.HasTag t) ∧
  ∀ limit, db.runs.rows.length ≤ limit → ∀ r j,
    (r, j) ∈ db.listRuns d limit 0 (some t) ↔
      r ∈ db.runs.rows ∧ j ∈ db.jobs.rows ∧ j.id = r.jobId ∧ j.HasTag t

/-- No job without the tag has tags that look like it. -/
def Distinct (d : Dialect) (db : DB) (t : String) : Prop :=
  ∀ j ∈ db.jobs.rows, ∀ tags, j.tags = some tags → LooksLike d t tags → t ∈ tags

lemma mem_listJobs {d : Dialect} {db : DB} {limit : ℕ} {t : String} {j : JobRow}
    (hlimit : db.jobs.rows.length ≤ limit) :
    j ∈ db.listJobs d limit 0 (some t) ↔ j ∈ db.jobs.rows ∧ j.tagLike d t = true := by
  have hlength : ((db.jobs.rows.insertionSort fun j j' => j'.id ≤ j.id).filter fun j =>
      (some t).all fun t => j.tagLike d t).length ≤ limit := by
    refine le_trans (List.length_filter_le _ _) ?_
    rw [List.length_insertionSort]
    exact hlimit
  rw [DB.listJobs, List.drop_zero, List.take_of_length_le hlength, List.mem_filter,
    List.mem_insertionSort]
  rfl

/-- A run has one owner at most, so a page that has room for all runs has room for all pairs. -/
lemma length_joined (db : DB) (runs : List RunRow) :
    (runs.flatMap fun r => (db.jobs.select fun j => j.id = r.jobId).map fun j => (r, j)).length ≤
      runs.length := by
  induction runs with
  | nil => simp
  | cons r runs ih =>
    have hr := db.jobs.length_select_key r.jobId
    simp only [JobRow.key_eq] at hr
    rw [List.flatMap_cons, List.length_append, List.length_map, List.length_cons]
    omega

lemma mem_listRuns {d : Dialect} {db : DB} {limit : ℕ} {t : String} {r : RunRow} {j : JobRow}
    (hlimit : db.runs.rows.length ≤ limit) :
    (r, j) ∈ db.listRuns d limit 0 (some t) ↔
      r ∈ db.runs.rows ∧ j ∈ db.jobs.rows ∧ j.id = r.jobId ∧ j.tagLike d t = true := by
  have hlength := length_joined db (db.runs.rows.insertionSort fun r r' => r'.id ≤ r.id)
  rw [List.length_insertionSort] at hlength
  rw [DB.listRuns, List.drop_zero, List.take_of_length_le
    (le_trans (List.length_filter_le _ _) (le_trans hlength hlimit)), List.mem_filter]
  simp only [List.mem_flatMap, List.mem_insertionSort, List.mem_map, Table.select, List.mem_filter,
    decide_eq_true_eq, Option.all_some]
  constructor
  · rintro ⟨⟨r', hr, j', ⟨hj, hid⟩, heq⟩, hlike⟩
    cases heq
    exact ⟨hr, hj, hid, hlike⟩
  · rintro ⟨hr, hj, hid, hlike⟩
    exact ⟨⟨r, hr, j, ⟨hj, hid⟩, rfl⟩, hlike⟩

/-- The queries are exact where `LIKE` finds the tags that the jobs have. -/
lemma tagScoped_iff {d : Dialect} {db : DB} {t : String} :
    TagScoped d db t ↔ ∀ j ∈ db.jobs.rows, j.tagLike d t = true ↔ j.HasTag t := by
  constructor
  · rintro ⟨hjobs, -⟩ j hj
    have h := hjobs _ le_rfl j
    rw [mem_listJobs le_rfl, and_congr_right_iff] at h
    exact h hj
  · intro h
    refine ⟨fun limit hlimit j => ?_, fun limit hlimit r j => ?_⟩
    · rw [mem_listJobs hlimit, and_congr_right_iff]
      exact h j
    · rw [mem_listRuns hlimit]
      refine and_congr_right fun _ => and_congr_right fun hj => and_congr_right fun _ => h j hj

lemma looksLike_of_mem {d : Dialect} {t : String} (ht : Plain t) {tags : List String}
    (h : t ∈ tags) : LooksLike d t tags :=
  .inl ⟨t, h, t.toList, .refl d _, .inl (escape_of_verbatim fun c hc => (ht c hc).1)⟩

/-- **A query for a plain tag.** -/
theorem tagScoped_plain {d : Dialect} {t : String} (ht : Plain t) (db : DB) :
    TagScoped d db t ↔ Distinct d db t := by
  rw [tagScoped_iff]
  constructor
  · intro h j hj tags htags hlike
    obtain ⟨tags', htags', hmem⟩ := (h j hj).1 ((tagLike_iff ht htags).2 hlike)
    rw [htags] at htags'
    cases htags'
    exact hmem
  · intro h j hj
    cases htags : j.tags with
    | none => simp [JobRow.tagLike, JobRow.HasTag, htags]
    | some tags =>
      rw [tagLike_iff ht htags]
      constructor
      · exact fun hlike => ⟨tags, htags, h j hj tags htags hlike⟩
      · rintro ⟨tags', htags', hmem⟩
        rw [htags] at htags'
        cases htags'
        exact looksLike_of_mem ht hmem

/-! ### Tags with special characters -/

lemma exists_tagged (t : String) : ∃ db j, Reachable db ∧ db.jobs.rows = [j] ∧ j.tags = some [t] := by
  have hexec : (Call.insertJobAndRun { job := "Sum", tags := some [t] } none).exec {} { now := 0 } =
      some _ := rfl
  exact ⟨_, _, .single ⟨_, _, _, hexec⟩, rfl, rfl⟩

/-- A query is not exact where it misses the only job, which has the tag. -/
lemma missed {d : Dialect} {t : String} {db : DB} {j : JobRow} (hrows : db.jobs.rows = [j])
    (htags : j.tags = some [t]) (hlike : j.tagLike d t = false) :
    Distinct d db t ∧ ¬ TagScoped d db t := by
  constructor
  · intro j' hj' tags htags' _
    obtain rfl : j' = j := by simpa [hrows] using hj'
    rw [htags] at htags'
    cases htags'
    exact List.mem_singleton_self t
  · intro h
    have hfound := (tagScoped_iff.1 h j (by simp [hrows])).2 ⟨_, htags, List.mem_singleton_self t⟩
    rw [hlike] at hfound
    cases hfound

/-- A query is not exact where it finds the only job, which has another tag. -/
lemma mistaken {d : Dialect} {t s : String} {db : DB} {j : JobRow} (hrows : db.jobs.rows = [j])
    (htags : j.tags = some [s]) (hlike : j.tagLike d t = true) (hne : t ≠ s)
    (hlooks : ∀ w, d.Alike t.toList w → ¬ EndsIn quote w (escape s.toList)) :
    Distinct d db t ∧ ¬ TagScoped d db t := by
  constructor
  · intro j' hj' tags htags' hlooks'
    obtain rfl : j' = j := by simpa [hrows] using hj'
    rw [htags] at htags'
    cases htags'
    rcases hlooks' with ⟨s', hs', w, hw, hend⟩ | ⟨-, hlength⟩
    · obtain rfl := List.mem_singleton.1 hs'
      exact absurd hend (hlooks w hw)
    · simp at hlength
  · intro h
    obtain ⟨tags, htags', hmem⟩ := (tagScoped_iff.1 h j (by simp [hrows])).1 hlike
    rw [htags] at htags'
    cases htags'
    exact hne (List.mem_singleton.1 hmem)

/-- A pattern that fits behind something goes on fitting behind more. -/
lemma like_longer {d : Dialect} {t : String} {text : List Char}
    (h : d.like ('[' :: text) (tagPattern t) = true) (more : List Char) :
    d.like (more ++ text) (tagPattern t) = true := by
  have hparse : ∃ p, Glob.parse '%' '_' d.escape (tagPattern t) = .any :: .lit quote :: p := by
    refine ⟨Glob.parse '%' '_' d.escape (t.toList ++ [quote, '%']), ?_⟩
    have hne : d.escape ≠ some '%' ∧ d.escape ≠ some quote := by cases d <;> decide
    rw [tagPattern, Glob.parse_cons hne.1, Glob.parse_cons hne.2]
    rfl
  obtain ⟨p, hp⟩ := hparse
  rw [Dialect.like, hp, Glob.fits_any] at h ⊢
  obtain ⟨a, b, hcut, hfits⟩ := h
  cases a with
  | nil =>
    -- the text begins with a bracket, the pattern with a quotation mark
    obtain ⟨c, s, rfl, hc, -⟩ := Glob.fits_lit.1 hfits
    obtain rfl := (Dialect.uncased_same uncased_quote).1 hc
    exact absurd (List.cons.inj hcut).1 (by decide)
  | cons x a =>
    refine ⟨more ++ a, b, ?_, hfits⟩
    rw [List.append_assoc]
    exact congrArg (more ++ ·) (List.cons.inj hcut).2

/-- What JSON writes differently does not look like what it has become. -/
lemma not_endsIn_quoted {d : Dialect} {t w : List Char} (hlonger : t.length < (escape t).length)
    (hw : d.Alike t w) : ¬ EndsIn quote w (escape (quote :: t)) := by
  have hlength := hw.length_eq
  have hcut : escape (quote :: t) = '\\' :: quote :: escape t := rfl
  rw [hcut]
  rintro (h | ⟨a, h⟩)
  · have := congrArg List.length h
    simp only [List.length_cons] at this
    omega
  · -- the quotation mark before `w` is the first one of all
    have hcount := congrArg (List.count quote) h
    have hslash : ('\\' == quote) = false := rfl
    rw [List.count_cons, hslash, List.count_cons_self, count_escape, List.count_append,
      List.count_cons_self, hw.count_eq uncased_quote] at hcount
    have hfree : quote ∉ a := List.count_eq_zero.1 (by simpa using hcount)
    cases a with
    | nil => exact absurd (List.cons.inj h).1 (by decide)
    | cons x a =>
      have htail := (List.cons.inj h).2
      cases a with
      | nil =>
        have hw' : escape t = w := (List.cons.inj htail).2
        rw [hw'] at hlonger
        omega
      | cons y a =>
        obtain rfl := (List.cons.inj htail).1
        simp at hfree

/-- A tag that JSON writes differently: it is missed, or its pattern finds other tags, too. -/
lemma not_scoped_of_escaped (d : Dialect) {t : String} (h : ∃ c ∈ t.toList, ¬ Verbatim c) :
    ∃ db, Reachable db ∧ Distinct d db t ∧ ¬ TagScoped d db t := by
  have hlonger := length_lt_escape h
  obtain ⟨db, j, hdb, hrows, htags⟩ := exists_tagged t
  cases hlike : j.tagLike d t with
  | false => exact ⟨db, hdb, missed hrows htags hlike⟩
  | true =>
    obtain ⟨db', j', hdb', hrows', htags'⟩ := exists_tagged (String.ofList (quote :: t.toList))
    rw [JobRow.tagLike, htags] at hlike
    have htext : d.like ('[' :: (quote :: (escape t.toList ++ [quote, ']']))) (tagPattern t) = true :=
      hlike
    have hlike' : j'.tagLike d t = true := by
      rw [JobRow.tagLike, htags']
      simp only [dumps, List.map_nil, dumpElements, String.toList_ofList]
      exact like_longer htext ['[', quote, '\\']
    refine ⟨db', hdb', mistaken hrows' htags' hlike' ?_ fun w hw => ?_⟩
    · intro heq
      have := congrArg (fun s : String => s.toList.length) heq
      simp at this
    · rw [String.toList_ofList]
      exact not_endsIn_quoted hlonger hw

def withoutWildcards (s : List Char) : List Char :=
  s.map fun c => if c = '%' ∨ c = '_' then '!' else c

lemma not_scoped_of_wildcard (d : Dialect) {t : String} (h : ∀ c ∈ t.toList, Verbatim c)
    (hwild : ∃ c ∈ t.toList, c = '%' ∨ c = '_') :
    ∃ db, Reachable db ∧ Distinct d db t ∧ ¬ TagScoped d db t := by
  obtain ⟨c, hc, hspecial⟩ := hwild
  have hchanged : (if c = '%' ∨ c = '_' then '!' else c) = '!' := if_pos hspecial
  have hne : c ≠ '!' := by
    rcases hspecial with rfl | rfl <;> decide
  have hverbatim : ∀ c ∈ withoutWildcards t.toList, Verbatim c := by
    intro c' hc'
    obtain ⟨c₀, hc₀, rfl⟩ := List.mem_map.1 hc'
    split
    · decide
    · exact h c₀ hc₀
  have hescape := escape_of_verbatim hverbatim
  have hquote : quote ∉ withoutWildcards t.toList := fun hmem => (hverbatim _ hmem).2.1 rfl
  have hslash : '\\' ∉ withoutWildcards t.toList := fun hmem => (hverbatim _ hmem).2.2 rfl
  have halike : ¬ d.Alike t.toList (withoutWildcards t.toList) := by
    intro hall
    have hsame := List.forall₂_same.1 (List.forall₂_map_right_iff.1 hall) c hc
    rw [hchanged, Dialect.same_uncased (by decide)] at hsame
    exact hne hsame
  obtain ⟨db, j, hdb, hrows, htags⟩ := exists_tagged (String.ofList (withoutWildcards t.toList))
  have hlike : j.tagLike d t = true := by
    rw [JobRow.tagLike, htags]
    change Glob.fits d.same (Glob.parse '%' '_' d.escape (tagPattern t)) _ = true
    rw [parse_tagPattern d fun c' hc' => (h c' hc').2.2]
    have htokens : (quote :: (t.toList ++ [quote])).map (Glob.token '%' '_') =
        .lit quote :: (t.toList.map (Glob.token '%' '_') ++ [.lit quote]) := by
      rw [List.map_cons, List.map_append]
      rfl
    rw [htokens, fits_quoted]
    refine ⟨withoutWildcards t.toList, Glob.fits_tokens d.same_self ?_,
      (between_dumps hquote hslash _).2 (.inl ⟨_, List.mem_singleton_self _, .inl ?_⟩)⟩
    · refine List.forall₂_map_right_iff.2 (List.forall₂_same.2 fun c' _ => ?_)
      by_cases hc' : c' = '%' ∨ c' = '_'
      · exact .inr hc'
      · exact .inl (if_neg hc').symm
    · rw [String.toList_ofList, hescape]
  refine ⟨db, hdb, mistaken hrows htags hlike ?_ fun w hw hend => ?_⟩
  · intro heq
    have hlist := congrArg String.toList heq
    rw [String.toList_ofList] at hlist
    rw [← hlist] at halike
    exact halike (.refl d _)
  · rw [String.toList_ofList, hescape] at hend
    rcases hend with rfl | ⟨a, ha⟩
    · exact halike hw
    · rw [ha] at hquote
      simp at hquote

/-- **No tag with a special character is safe.** -/
theorem not_tagScoped_special (d : Dialect) {t : String} (ht : ¬ Plain t) :
    ∃ db, Reachable db ∧ Distinct d db t ∧ ¬ TagScoped d db t := by
  by_cases h : ∀ c ∈ t.toList, Verbatim c
  · refine not_scoped_of_wildcard d h ?_
    by_contra hwild
    refine ht fun c hc => ⟨h c hc, fun heq => hwild ⟨c, hc, .inl heq⟩,
      fun heq => hwild ⟨c, hc, .inr heq⟩⟩
  · refine not_scoped_of_escaped d ?_
    simpa only [not_forall, exists_prop] using h

/-- **Exactly when tag scoping is exact.** A query for a tag that is made of printable ASCII characters
other than quotation mark, backslash, `%` and `_` is exact if and only if no job without the tag has
tags that look like it. A query for any other tag is not safe even then. -/
theorem tagScoped_exactly (d : Dialect) (t : String) :
    (Plain t → ∀ db, TagScoped d db t ↔ Distinct d db t) ∧
      (¬ Plain t → ∃ db, Reachable db ∧ Distinct d db t ∧ ¬ TagScoped d db t) :=
  ⟨fun ht => tagScoped_plain ht, not_tagScoped_special d⟩

/-- Whoever asks for `user:_` gets the jobs of `user:2`. -/
theorem tag_not_scoped :
    ∃ db j, Reachable db ∧ db.jobs.rows = [j] ∧ j.tags = some ["user:2"] ∧
      j ∈ db.listJobs .postgres 100 0 (some "user:_") ∧ ¬ TagScoped .postgres db "user:_" ∧
      j ∈ db.listJobs .sqlite 100 0 (some "user:_") ∧ ¬ TagScoped .sqlite db "user:_" := by
  obtain ⟨db, j, hdb, hrows, htags⟩ := exists_tagged "user:2"
  have hlike : ∀ d, j.tagLike d "user:_" = true := by
    intro d
    rw [JobRow.tagLike, htags]
    cases d <;> decide
  have hfound : ∀ d, j ∈ db.listJobs d 100 0 (some "user:_") := fun d =>
    (mem_listJobs (by simp [hrows])).2 ⟨by simp [hrows], hlike d⟩
  have hwrong : ∀ d, ¬ TagScoped d db "user:_" := by
    intro d h
    obtain ⟨tags, htags', hmem⟩ := (tagScoped_iff.1 h j (by simp [hrows])).1 (hlike d)
    rw [htags] at htags'
    cases htags'
    simp at hmem
  exact ⟨db, j, hdb, hrows, htags, hfound _, hwrong _, hfound _, hwrong _⟩

end Pyreljob
