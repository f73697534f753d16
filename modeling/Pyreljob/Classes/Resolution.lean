import Mathlib.Algebra.Order.Ring.Nat
import Pyreljob.Model.Resolve

/-!
The name of a class finds the class.

`_resolve` finds what is under the longest part of the name that can be imported. That is the module
of the class, unless some module has a longer part of the name for its own.
-/

namespace Pyreljob

open Lib

namespace Interpreter

variable {Obj Base : Type} {W : Interpreter Obj Base}

/-! ### The longest prefix -/

/-- The longest proper prefix of the path that can be imported has `i` parts, and is the module `m`. -/
structure LongestImport (W : Interpreter Obj Base) (parts : List String) (i : ℕ) (m : Obj) : Prop where
  pos : 0 < i
  proper : i < parts.length
  imported : W.importModule (Dotted.join (parts.take i)) = .ok m
  longest : ∀ j, i < j → j < parts.length →
    W.importModule (Dotted.join (parts.take j)) = .error .importError

section

variable {base : Base} {parts : List String} {i n : ℕ} {m cls : Obj}

lemma resolveFrom_skip (hi : i ≤ n) (h : ∀ j, i < j → j ≤ n →
    W.importModule (Dotted.join (parts.take j)) = .error .importError) :
    W.resolveFrom base parts n = W.resolveFrom base parts i := by
  induction n with
  | zero =>
    obtain rfl : i = 0 := by omega
    rfl
  | succ n ih =>
    by_cases hin : i = n + 1
    · rw [hin]
    · rw [resolveFrom, h (n + 1) (by omega) (Nat.le_refl _)]
      exact ih (by omega) fun j h₁ h₂ => h j h₁ (by omega)

/-- What the loop finds is under a module that it has imported, and longer ones cannot be imported. -/
lemma imported_of_resolveFrom (h : W.resolveFrom base parts n = .ok (some cls)) :
    ∃ i m, 0 < i ∧ i ≤ n ∧ W.importModule (Dotted.join (parts.take i)) = .ok m ∧
      (∀ j, i < j → j ≤ n → W.importModule (Dotted.join (parts.take j)) = .error .importError) ∧
      W.getattrs m (parts.drop i) = .ok cls ∧ W.isSubclass cls base := by
  induction n with
  | zero => cases h
  | succ n ih =>
    rw [resolveFrom] at h
    split at h
    · rename_i himport
      obtain ⟨i, m, hpos, hle, hm, hlong, hrest⟩ := ih h
      refine ⟨i, m, hpos, by omega, hm, fun j h₁ h₂ => ?_, hrest⟩
      by_cases hj : j = n + 1
      · rw [hj]
        exact himport
      · exact hlong j h₁ (by omega)
    · cases h
    · rename_i m hm
      split at h
      · cases h
      · cases h
      · rename_i obj hobj
        split at h
        · rename_i hsub
          cases h
          refine ⟨n + 1, m, n.succ_pos, Nat.le_refl _, hm, fun j h₁ h₂ => ?_, hobj, hsub⟩
          omega
        · cases h

/-- **What `_resolve` returns**: what is under the longest prefix that can be imported, if it is a
subclass of the base. -/
theorem resolve_iff {name : String} : W.resolve name base = .ok (some cls) ↔
    ∃ i m, W.LongestImport (Dotted.split name) i m ∧
      W.getattrs m ((Dotted.split name).drop i) = .ok cls ∧ W.isSubclass cls base := by
  constructor
  · intro h
    obtain ⟨i, m, hpos, hle, hm, hlong, hrest⟩ := imported_of_resolveFrom h
    exact ⟨i, m, ⟨hpos, by omega, hm, fun j h₁ h₂ => hlong j h₁ (by omega)⟩, hrest⟩
  · rintro ⟨i, m, h, hcls, hsub⟩
    obtain ⟨hpos, hproper, himport, hlong⟩ := h
    obtain ⟨k, rfl⟩ : ∃ k, i = k + 1 := ⟨i - 1, by omega⟩
    rw [resolve, resolveFrom_skip (show k + 1 ≤ (Dotted.split name).length - 1 by omega)
      fun j h₁ h₂ => hlong j h₁ (by omega), resolveFrom, himport]
    simp only [hcls, hsub, if_true]

/-! ### The name of a class -/

/-- The module of a class is the longest import of its name, unless another module is in the way. -/
lemma longestImport_jobName (hm : W.importModule (W.moduleName cls) = .ok m)
    (hnone : ∀ i, 0 < i → i < (Dotted.split (W.qualname cls)).length →
      W.importModule (W.moduleName cls ++ "." ++
        Dotted.join ((Dotted.split (W.qualname cls)).take i)) = .error .importError) :
    W.LongestImport (Dotted.split (W.jobName cls)) (Dotted.split (W.moduleName cls)).length m := by
  have hM := Dotted.split_ne_nil (W.moduleName cls)
  have hQ := Dotted.split_ne_nil (W.qualname cls)
  unfold jobName
  rw [Dotted.split_dot]
  refine ⟨List.length_pos_of_ne_nil hM, ?_, ?_, fun j h₁ h₂ => ?_⟩
  · rw [List.length_append]
    have := List.length_pos_of_ne_nil hQ
    omega
  · rw [List.take_left', Dotted.join_split, hm]
    rfl
  · obtain ⟨i, rfl⟩ : ∃ i, j = (Dotted.split (W.moduleName cls)).length + i :=
      ⟨j - (Dotted.split (W.moduleName cls)).length, by omega⟩
    rw [List.length_append] at h₂
    have hpos : 0 < i := by omega
    have hne : (Dotted.split (W.qualname cls)).take i ≠ [] := by
      simp [Nat.pos_iff_ne_zero.1 hpos, hQ]
    rw [List.take_append, List.take_of_length_le (by omega), Nat.add_sub_cancel_left,
      Dotted.join_append hM hne, Dotted.join_split]
    exact hnone i hpos (by omega)

end

/-- **Dotted names are resolved.** A class that is reached from its module by its qualified name is
found again under its name, if no module is named by its module and a proper part of the qualified
name. Whatever is found, under any name, is a subclass of the base, and is reached from the longest
proper prefix of the name that can be imported, by all that is left of the name. -/
theorem resolve_jobName (W : Interpreter Obj Base) (base : Base) :
    (∀ (cls m : Obj), W.importModule (W.moduleName cls) = .ok m →
      W.getattrs m (Dotted.split (W.qualname cls)) = .ok cls → W.isSubclass cls base →
      (∀ i, 0 < i → i < (Dotted.split (W.qualname cls)).length →
        W.importModule (W.moduleName cls ++ "." ++
          Dotted.join ((Dotted.split (W.qualname cls)).take i)) = .error .importError) →
      W.resolve (W.jobName cls) base = .ok (some cls)) ∧
    ∀ (name : String) (cls : Obj), W.resolve name base = .ok (some cls) →
      W.isSubclass cls base ∧ ∃ i m, W.LongestImport (Dotted.split name) i m ∧
        W.getattrs m ((Dotted.split name).drop i) = .ok cls := by
  refine ⟨fun cls m hm hcls hsub hnone => ?_, fun name cls h => ?_⟩
  · refine resolve_iff.2 ⟨_, m, longestImport_jobName hm hnone, ?_, hsub⟩
    rw [jobName, Dotted.split_dot, List.drop_left', hcls]
    rfl
  · obtain ⟨i, m, hlong, hcls, hsub⟩ := resolve_iff.1 h
    exact ⟨hsub, i, m, hlong, hcls⟩

/-! ### The registry -/

section

variable {job : Base} {registry registry' : Dict Obj}

/-- What a registry makes of a name: the class that is registered, else the one that is resolved. -/
def answerOf (W : Interpreter Obj Base) (job : Base) (registry : Dict Obj) (name : String) :
    Except Raised (Option Obj) :=
  match registry.get? name with
  | some cls => .ok (some cls)
  | none => W.resolve name job

/-- A lookup gives this answer, and leaves every answer as it is. -/
lemma lookup_spec {name : String} {found : Option Obj}
    (h : W.lookup job registry name = .ok (found, registry')) :
    W.answerOf job registry name = .ok found ∧
      ∀ name', W.answerOf job registry' name' = W.answerOf job registry name' := by
  unfold lookup at h
  split at h
  · rename_i cls hcls
    cases h
    refine ⟨?_, fun _ => rfl⟩
    rw [answerOf, hcls]
  · rename_i hnone
    split at h
    · cases h
    · rename_i hres
      cases h
      refine ⟨?_, fun _ => rfl⟩
      rw [answerOf, hnone]
      exact hres
    · rename_i cls hres
      cases h
      refine ⟨by rw [answerOf, hnone]; exact hres, fun name' => ?_⟩
      by_cases hname : name' = name
      · rw [hname, answerOf, answerOf, Dict.get?_set_self, hnone]
        exact hres.symm
      · rw [answerOf, answerOf, Dict.get?_set_ne _ _ hname]

/-- **The registry is a cache**: to a worker a name stands for one class, however many names it has
looked up before. -/
theorem answerOf_lookups (W : Interpreter Obj Base) (job : Base) (names : List String)
    (registry : Dict Obj) (name : String) :
    W.answerOf job (W.lookups job registry names) name = W.answerOf job registry name := by
  induction names generalizing registry with
  | nil => rfl
  | cons n names ih =>
    rw [lookups]
    split
    · rename_i found registry' h
      rw [ih, (lookup_spec h).2]
    · exact ih registry

end

end Interpreter

/-! ### A nested class -/

/-- An interpreter with a package, a module in it, and a class in a class of that. Objects are their
own dotted names. -/
def nested : Interpreter String Unit where
  importModule := fun name => if name ∈ ["app", "app.jobs"] then .ok name else .error .importError
  getattr := fun obj attr =>
    if obj ++ "." ++ attr ∈ ["app.jobs", "app.jobs.Outer", "app.jobs.Outer.Booking"] then
      .ok (obj ++ "." ++ attr)
    else .error .attributeError
  isSubclass := fun obj _ => obj = "app.jobs.Outer.Booking"
  moduleName := fun _ => "app.jobs"
  qualname := fun _ => "Outer.Booking"

theorem resolve_jobName_nested :
    nested.resolve "app.jobs.Outer.Booking" () = .ok (some "app.jobs.Outer.Booking") := by
  have hsplit : Dotted.split "Outer.Booking" = ["Outer", "Booking"] := by decide
  refine (Interpreter.resolve_jobName nested ()).1 "app.jobs.Outer.Booking" "app.jobs" (by decide) ?_
    (by decide) fun i h₁ h₂ => ?_
  · decide
  · change i < (Dotted.split "Outer.Booking").length at h₂
    rw [hsplit] at h₂
    obtain rfl : i = 1 := by
      simp at h₂
      omega
    change nested.importModule ("app.jobs" ++ "." ++ Dotted.join
      ((Dotted.split "Outer.Booking").take 1)) = _
    rw [hsplit]
    decide

end Pyreljob
