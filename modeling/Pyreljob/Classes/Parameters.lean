import Pyreljob.Model.Params

/-!
What job parameters survive.

`asdict` goes all the way down, and the constructor takes top level keys only. So the constructor that
the decorator makes gives back what went into the JSON column exactly if every field is a parameter of
it, every other parameter has a default, and no value is a dataclass instance or holds one, or
`__post_init__` makes up for that. A constructor that somebody has written has to do it all by itself.
-/

namespace Pyreljob

open Lib

/-! ### Values -/

namespace Obj

mutual

/-- **A value comes back as it was, exactly if there is no dataclass instance in it.** -/
theorem ofValue_asdict : (v : Obj) → (ofValue v.asdict = v ↔ v.holdsInstance = false)
  | null | bool _ | num _ | float _ | str _ => by simp [asdict, ofValue, holdsInstance]
  | list l => by simpa [asdict, ofValue, holdsInstance] using ofValues_asdictList l
  | dict d => by simpa [asdict, ofValue, holdsInstance] using ofItems_asdictItems d
  | inst _ _ => by simp [asdict, ofValue, holdsInstance]

lemma ofValues_asdictList : (l : List Obj) → (ofValues (asdictList l) = l ↔ anyHolds l = false)
  | [] => by simp [asdictList, ofValues, anyHolds]
  | v :: l => by
    simp [asdictList, ofValues, anyHolds, ofValue_asdict v, ofValues_asdictList l]

lemma ofItems_asdictItems :
    (d : List (String × Obj)) → (ofItems (asdictItems d) = d ↔ itemsHold d = false)
  | [] => by simp [asdictItems, ofItems, itemsHold]
  | (k, v) :: d => by
    simp [asdictItems, ofItems, itemsHold, ofValue_asdict v, ofItems_asdictItems d]

end

end Obj

/-! ### The constructor -/

def stored (vals : List (FieldDecl × Obj)) : Dict Value := vals.map fun a => (a.1.name, a.2.asdict)

lemma JobInstance.items_ok {name : String} {attrs : List (FieldDecl × Option Obj)} {data : Dict Value}
    (h : items name attrs = .ok data) :
    ∃ vals, attrs = vals.map (fun a => (a.1, some a.2)) ∧ data = stored vals := by
  induction attrs generalizing data with
  | nil =>
    cases h
    exact ⟨[], rfl, rfl⟩
  | cons a attrs ih =>
    obtain ⟨f, _ | v⟩ := a
    · cases h
    · cases hitems : items name attrs with
      | error exc =>
        rw [items, hitems] at h
        cases h
      | ok data' =>
        rw [items, hitems] at h
        cases h
        obtain ⟨vals, rfl, rfl⟩ := ih hitems
        exact ⟨(f, v) :: vals, rfl, rfl⟩

section

variable {cls : Dataclass} {vals : List (FieldDecl × Obj)}

lemma keys_stored (hvals : vals.map Prod.fst = cls.fields.attrs) :
    (stored vals).map Prod.fst = cls.fields.attrs.map FieldDecl.name := by
  simp [stored, ← hvals, Function.comp_def]

lemma Fields.nodup_attrs (F : Fields) : (F.attrs.map FieldDecl.name).Nodup :=
  F.distinct.sublist (List.filter_sublist.map _)

lemma Fields.mem_attrs {F : Fields} {f : FieldDecl} : f ∈ F.attrs ↔ f ∈ F.decls ∧ f.initVar = false := by
  simp [Fields.attrs]

lemma Fields.mem_initVars {F : Fields} {f : FieldDecl} :
    f ∈ F.initVars ↔ f ∈ F.decls ∧ f.initVar = true := by
  simp [Fields.initVars]

lemma get?_stored (hvals : vals.map Prod.fst = cls.fields.attrs) {a : FieldDecl × Obj} (ha : a ∈ vals) :
    (stored vals).get? a.1.name = some a.2.asdict := by
  refine Dict.get?_of_mem ?_ (List.mem_map_of_mem ha)
  rw [keys_stored hvals]
  exact cls.fields.nodup_attrs

lemma get?_stored_initVar (hvals : vals.map Prod.fst = cls.fields.attrs) {f : FieldDecl}
    (hf : f ∈ cls.fields.initVars) : (stored vals).get? f.name = none := by
  rw [Dict.get?, Option.map_eq_none_iff, List.find?_eq_none]
  intro e he hname
  have hkey : f.name ∈ cls.fields.attrs.map FieldDecl.name := by
    rw [← keys_stored hvals]
    exact List.mem_map.2 ⟨e, he, of_decide_eq_true hname⟩
  obtain ⟨f', hf', hsame⟩ := List.mem_map.1 hkey
  obtain ⟨hdecl, hvar⟩ := Fields.mem_initVars.1 hf
  obtain ⟨hdecl', hattr⟩ := Fields.mem_attrs.1 hf'
  obtain rfl := List.inj_on_of_nodup_map cls.fields.distinct hdecl' hdecl hsame
  rw [hvar] at hattr
  cases hattr

lemma unexpected_stored (hvals : vals.map Prod.fst = cls.fields.attrs) :
    cls.unexpected (stored vals) = none ↔ ∀ f ∈ cls.fields.attrs, f.init := by
  simp only [Dataclass.unexpected, keys_stored hvals, List.find?_eq_none, List.mem_map,
    forall_exists_index, and_imp, forall_apply_eq_imp_iff₂, Bool.not_eq_true', Bool.not_eq_false,
    List.any_eq_true, Bool.and_eq_true, decide_eq_true_eq]
  refine forall₂_congr fun f hf => ⟨?_, fun hinit => ⟨f, (Fields.mem_attrs.1 hf).1, hinit, rfl⟩⟩
  rintro ⟨f', hf', hinit, hname⟩
  obtain rfl := List.inj_on_of_nodup_map cls.fields.distinct hf' (Fields.mem_attrs.1 hf).1 hname
  exact hinit

/-- No parameter is missing exactly if every `InitVar` has a default. -/
lemma missing_stored (hvals : vals.map Prod.fst = cls.fields.attrs) :
    cls.missing (stored vals) = [] ↔ ∀ f ∈ cls.fields.initVars, f.default.isSome := by
  simp only [Dataclass.missing, List.map_eq_nil_iff, List.filter_eq_nil_iff]
  constructor
  · intro h f hf
    obtain ⟨hdecl, hvar⟩ := Fields.mem_initVars.1 hf
    have hno := h f hdecl
    rw [get?_stored_initVar hvals hf, cls.fields.params f hdecl hvar] at hno
    simpa [← Option.isSome_iff_ne_none] using hno
  · intro h f hdecl
    cases hvar : f.initVar with
    | true => simp [Option.isSome_iff_ne_none.1 (h f (Fields.mem_initVars.2 ⟨hdecl, hvar⟩))]
    | false =>
      have hf : f ∈ cls.fields.attrs := Fields.mem_attrs.2 ⟨hdecl, hvar⟩
      rw [← hvals] at hf
      obtain ⟨a, ha, rfl⟩ := List.mem_map.1 hf
      simp [get?_stored hvals ha]

/-- The instance, with a `dict` in place of every dataclass instance among its values. -/
def JobInstance.plain {F : Fields} (j : JobInstance F) : JobInstance F where
  attrs := j.attrs.map fun a => (a.1, a.2.map fun v => Obj.ofValue v.asdict)
  declared := by
    rw [List.map_map, ← j.declared]
    rfl

variable {j : JobInstance cls.fields}

lemma fields_of_attrs (hj : j.attrs = vals.map fun a => (a.1, some a.2)) :
    vals.map Prod.fst = cls.fields.attrs := by
  rw [← j.declared, hj, List.map_map]
  rfl

lemma assigned_stored (hj : j.attrs = vals.map fun a => (a.1, some a.2))
    (hinit : ∀ f ∈ cls.fields.attrs, f.init) : cls.assigned (stored vals) = j.plain := by
  have hvals := fields_of_attrs hj
  refine JobInstance.ext ?_
  simp only [Dataclass.assigned, JobInstance.plain, hj]
  rw [← hvals, List.map_map, List.map_map]
  refine List.map_congr_left fun a ha => ?_
  have hparam : a.1.init = true := hinit a.1 (hvals ▸ List.mem_map_of_mem ha)
  simp [Dataclass.initial, hparam, get?_stored hvals ha]

lemma initVars_stored (hvals : vals.map Prod.fst = cls.fields.attrs) :
    cls.fields.initVars.filterMap (Dataclass.initial (stored vals)) =
      cls.fields.initVars.filterMap FieldDecl.default := by
  refine List.filterMap_congr fun f hf => ?_
  simp [Dataclass.initial, get?_stored_initVar hvals hf]

/-- The values are as they were, exactly if there is no dataclass instance among them. -/
lemma plain_eq_iff : j.plain = j ↔ ∀ f v, (f, some v) ∈ j.attrs → v.holdsInstance = false := by
  have hmap : ∀ g : FieldDecl × Option Obj → FieldDecl × Option Obj,
      j.attrs.map g = j.attrs ↔ ∀ a ∈ j.attrs, g a = a := by
    intro g
    conv_lhs => rhs; rw [← List.map_id j.attrs]
    exact List.map_inj_left
  rw [JobInstance.ext_iff]
  refine (hmap _).trans ?_
  constructor
  · intro h f v hv
    have hsame := h _ hv
    simpa [Obj.ofValue_asdict] using hsame
  · rintro h ⟨f, _ | v⟩ hv
    · rfl
    · simpa [Obj.ofValue_asdict] using h f v hv

/-- What the class has to do for the instance to come back: its constructor gets the values as they
are stored, and has to set the fields to those of the instance. -/
def Dataclass.Restores (cls : Dataclass) (j : JobInstance cls.fields) (data : Dict Value) : Prop :=
  match cls.constructor with
  | .written call => call data = .ok j
  | .generated postInit =>
    (∀ f ∈ cls.fields.attrs, f.init) ∧ (∀ f ∈ cls.fields.initVars, f.default.isSome) ∧
      match postInit with
      | none => ∀ f v, (f, some v) ∈ j.attrs → v.holdsInstance = false
      | some post => post j.plain (cls.fields.initVars.filterMap FieldDecl.default) = .ok j

/-- **When the constructor makes the instance again.** -/
theorem fromDict_stored (hj : j.attrs = vals.map fun a => (a.1, some a.2)) :
    cls.fromDict (stored vals) = .ok j ↔ cls.Restores j (stored vals) := by
  have hvals := fields_of_attrs hj
  unfold Dataclass.fromDict Dataclass.Restores
  cases cls.constructor with
  | written call => rfl
  | generated postInit =>
    dsimp only
    by_cases hinit : ∀ f ∈ cls.fields.attrs, f.init
    swap
    · obtain ⟨k, hk⟩ := Option.ne_none_iff_exists'.1 (mt (unexpected_stored hvals).1 hinit)
      simp [Dataclass.generatedInit, hk, hinit]
    have hexpected := (unexpected_stored hvals).2 hinit
    by_cases hdefaults : ∀ f ∈ cls.fields.initVars, f.default.isSome
    swap
    · have hmissing := mt (missing_stored hvals).1 hdefaults
      unfold Dataclass.generatedInit
      rw [hexpected]
      refine iff_of_false ?_ fun h => hdefaults h.2.1
      dsimp only
      split
      · exact fun _ => hmissing ‹_›
      all_goals
        intro h
        cases h
    unfold Dataclass.generatedInit
    rw [hexpected, (missing_stored hvals).2 hdefaults, assigned_stored hj hinit,
      initVars_stored hvals]
    dsimp only
    cases postInit with
    | none => exact (Except.ok.injEq ..).to_iff.trans (plain_eq_iff.trans
        ⟨fun h => ⟨hinit, hdefaults, h⟩, fun h => h.2.2⟩)
    | some post => exact ⟨fun h => ⟨hinit, hdefaults, h⟩, fun h => h.2.2⟩

end

/-! ### Storage -/

/-- The parameters survive: what the worker makes of the row has the parameters of the instance that was
scheduled, the two are equal, and so `next_runtime` sees the same parameters. -/
structure Survives {cls : Dataclass} (nextRuntime : JobInstance.NextRuntime cls)
    (j : JobInstance cls.fields) (job : JobRow) : Prop where
  same : cls.fromDict (job.args.getD []) = .ok j
  equal : cls.eq j j = true
  next : ∀ run ctx, cls.nextRuntimeOf nextRuntime job run ctx = nextRuntime j (some run) ctx

lemma Job.asDict_of_validate {job : Job} (h : job.validate = .ok ()) : ∃ data, job.asDict = .ok data := by
  unfold Job.validate at h
  split at h
  · cases h
  · split at h
    · exact ⟨_, ‹_›⟩
    · split at h <;> cases h

def reportCls (fields : Fields) : Dataclass where
  name := "m.Report"
  tasks := [{ name := "T" }]
  shortName := "Report"
  fields := fields

/-- `Job.next_runtime`. -/
def baseRuntime (cls : Dataclass) : JobInstance.NextRuntime cls := fun _ _ _ => .ok none

/-- A report with a title and columns. -/
def plainCls : Dataclass :=
  reportCls ⟨[{ name := "title" }, { name := "columns" }], by decide, by decide⟩

/-- `Report(title="t", columns=["a", 2])`. -/
def plainReport : JobInstance plainCls.fields where
  attrs := [({ name := "title" }, some (.str "t")),
    ({ name := "columns" }, some (.list [.str "a", .num 2]))]
  declared := rfl

/-- A report on a span. -/
def spanCls : Dataclass := reportCls ⟨[{ name := "span" }], by decide, by decide⟩

/-- `Report(span=Span(lo=1, hi=2))`, where `Span` is a dataclass. -/
def spanReport : JobInstance spanCls.fields where
  attrs := [({ name := "span" }, some (.inst "Span" [("lo", .num 1), ("hi", .num 2)]))]
  declared := rfl

/-- A report with the field `rows: int = field(init=False, default=0)`. -/
def countingCls : Dataclass :=
  reportCls ⟨[{ name := "rows", init := false, default := some (.num 0) }], by decide, by decide⟩

def countingReport : JobInstance countingCls.fields where
  attrs := [({ name := "rows", init := false, default := some (.num 0) }, some (.num 0))]
  declared := rfl

end Pyreljob
