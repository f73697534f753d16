import Pyreljob.Model.Migrations

/-!
Migrations are applied once each, in order, whatever fails.

A runner computes once what is pending, and others may have got ahead of it by the time it applies the
first of it. It then meets a version that is recorded, and stops: what it has computed begins where the
record ended at that time, and the record only grows.
-/

namespace Pyreljob

open Lib

section

variable {Schema : Type}

/-- What running these functions one after the other makes of a schema. -/
def runAll (schema : Schema) (ms : List (Migration Schema)) : Except Exc Schema :=
  ms.foldlM (fun schema m => m.fn schema) schema

/-! ### A runner's plan -/

/-- What a runner is about to apply. -/
inductive Plan (Schema : Type)
  | unknown
  | ahead (ms : List (Migration Schema))

namespace Plan

def next (ms : List (Migration Schema)) (c : Plan Schema) :
    (r : MigrationReq Schema) → Except Exc r.Reply → Plan Schema
  | .tableExists, .ok false => ahead (ms.filter fun m => 0 < m.version)
  | .maxVersion, .ok v => ahead (ms.filter fun m => v.getD 0 < m.version)
  | .apply _, .ok _ =>
    match c with
    | ahead (_ :: rest) => ahead rest
    | c => c
  | _, _ => c

/-- A runner applies what comes next. -/
def ok (c : Plan Schema) : MigrationReq Schema → Prop
  | .apply m => ∃ rest, c = ahead (m :: rest)
  | _ => True

abbrev Moves (ms : List (Migration Schema)) (c : Plan Schema) (r : MigrationReq Schema)
    (y : Except Exc r.Reply) (c' : Plan Schema) : Prop := c' = c.next ms r y

end Plan

variable {ms : List (Migration Schema)}

lemma upFrom_keeps (steps : Option ℤ) (rest applied : List (Migration Schema)) :
    (MigrationRunner.upFrom steps rest applied).Keeps (Plan.Moves ms) Plan.ok (fun _ _ => True)
      (.ahead rest) := by
  induction rest generalizing applied with
  | nil => trivial
  | cons m rest ih =>
    unfold MigrationRunner.upFrom
    split
    · trivial
    · refine .call_bind ⟨rest, rfl⟩ (fun _ _ _ => trivial) ?_
      rintro _ _ rfl
      exact ih _

/-- What a runner reads as its version is what its plan is made from. -/
lemma version_keeps : (@MigrationRunner.version Schema).Keeps (Plan.Moves ms) Plan.ok
    (fun v c => ∀ cur, v = .ok cur → c = .ahead (ms.filter fun m => cur.getD 0 < m.version))
    .unknown := by
  refine .call_bind trivial (fun _ _ _ => by rintro _ ⟨⟩) ?_
  rintro (_ | _) _ rfl
  · rintro cur h
    cases h
    rfl
  · refine .call trivial fun y c' hmove cur hy => ?_
    subst hy
    exact hmove

lemma up_inPhase (migrations : List (Migration Schema)) (steps : Option ℤ) :
    Pool.InPhase (Plan.Moves (MigrationRunner.sorted migrations)) Plan.ok (fun _ => True)
      (Migrators.program migrations steps) .unknown := by
  have hpending : (MigrationRunner.pending migrations).Keeps
      (Plan.Moves (MigrationRunner.sorted migrations)) Plan.ok
      (fun v c => ∀ rest, v = .ok rest → c = .ahead rest) .unknown := by
    refine .bind (version_keeps.mono ?_)
    rintro (_ | cur) c hc
    · rintro _ ⟨⟩
    · rintro rest h
      cases h
      exact hc cur rfl
  have hup : (MigrationRunner.up migrations steps).Keeps
      (Plan.Moves (MigrationRunner.sorted migrations)) Plan.ok (fun _ _ => True) .unknown := by
    refine .bind (hpending.mono ?_)
    rintro (_ | rest) c hc
    · trivial
    · obtain rfl := hc rest rfl
      exact upFrom_keeps steps rest []
  refine .bind (hup.mono ?_)
  rintro (_ | _) c - <;> trivial

/-! ### The record -/

/-- The versions in the order of the list, each of them once. -/
def Increasing (ms : List (Migration Schema)) : Prop :=
  ms.Pairwise fun m m' => m.version < m'.version

lemma increasing_sorted {migrations : List (Migration Schema)}
    (hdistinct : (migrations.map Migration.version).Nodup) :
    Increasing (MigrationRunner.sorted migrations) := by
  have : Std.Total fun m m' : Migration Schema => m.version ≤ m'.version :=
    ⟨fun m m' => le_total m.version m'.version⟩
  have : IsTrans (Migration Schema) fun m m' => m.version ≤ m'.version :=
    ⟨fun _ _ _ => le_trans⟩
  have hle := List.pairwise_insertionSort (fun m m' : Migration Schema => m.version ≤ m'.version)
    migrations
  have hne : ((MigrationRunner.sorted migrations).map Migration.version).Nodup :=
    ((List.perm_insertionSort _ migrations).map Migration.version).nodup_iff.2 hdistinct
  rw [List.Nodup, List.pairwise_map] at hne
  exact hle.imp₂ (fun _ _ hle hne => lt_of_le_of_ne hle hne) hne

lemma filter_above {done rest : List (Migration Schema)} (h : Increasing (done ++ rest))
    (hpos : ∀ m ∈ done ++ rest, 1 ≤ m.version) :
    (done ++ rest).filter (fun m => ((done.map Migration.version).max?).getD 0 < m.version) = rest := by
  obtain ⟨-, -, hcross⟩ := List.pairwise_append.1 h
  have hsplit : (∀ m ∈ done, m.version ≤ ((done.map Migration.version).max?).getD 0) ∧
      ∀ m ∈ rest, ((done.map Migration.version).max?).getD 0 < m.version := by
    cases hmax : (done.map Migration.version).max? with
    | none =>
      obtain rfl : done = [] := List.map_eq_nil_iff.1 (List.max?_eq_none_iff.1 hmax)
      refine ⟨by simp, fun m hm => ?_⟩
      have := hpos m hm
      rw [Option.getD_none]
      omega
    | some v =>
      obtain ⟨hmem, hle⟩ := List.max?_eq_some_iff.1 hmax
      obtain ⟨m', hm', rfl⟩ := List.mem_map.1 hmem
      exact ⟨fun m hm => hle _ (List.mem_map_of_mem hm), fun m hm => hcross m' hm' m hm⟩
  have hnone : done.filter (fun m => ((done.map Migration.version).max?).getD 0 < m.version) = [] := by
    refine List.filter_eq_nil_iff.2 fun m hm => ?_
    simpa using hsplit.1 m hm
  have hall : rest.filter (fun m => ((done.map Migration.version).max?).getD 0 < m.version) = rest := by
    refine List.filter_eq_self.2 fun m hm => ?_
    simpa using hsplit.2 m hm
  rw [List.filter_append, hnone, hall, List.nil_append]

/-- The migrations that are done are the first of the list, they are recorded, and the schema is what
their functions have made of it. -/
structure InOrder (ms : List (Migration Schema)) (schema : Schema) (db : Migrated Schema)
    (done rest : List (Migration Schema)) : Prop where
  split : ms = done ++ rest
  recorded : db.versions = done.map Migration.version
  schema : runAll schema done = .ok db.schema

def Behind (ms done : List (Migration Schema)) (ph : ℕ → Plan Schema) : Prop :=
  ∀ pid rest, ph pid = .ahead rest → ∃ k ≤ done.length, rest = ms.drop k

def MigrationInv (ms : List (Migration Schema)) (schema : Schema) (db : Migrated Schema)
    (ph : ℕ → Plan Schema) : Prop :=
  ∃ done rest, InOrder ms schema db done rest ∧ Behind ms done ph

variable {schema : Schema} {db : Migrated Schema} {done rest : List (Migration Schema)}
  {ph : ℕ → Plan Schema}

lemma Behind.update (h : Behind ms done ph) {pid : ℕ} {c : Plan Schema}
    (hc : ∀ rest, c = .ahead rest → ∃ k ≤ done.length, rest = ms.drop k) :
    Behind ms done (Function.update ph pid c) := by
  intro q rest hq
  by_cases hqp : q = pid
  · subst hqp
    rw [Function.update_self] at hq
    exact hc rest hq
  · rw [Function.update_of_ne hqp] at hq
    exact h q rest hq

/-- What a runner computes as pending at any time is what is not recorded then. -/
lemma pending_of_recorded (hsplit : ms = done ++ rest)
    (hrecorded : db.versions = done.map Migration.version) (hms : Increasing ms)
    (hpos : ∀ m ∈ ms, 1 ≤ m.version) :
    ms.filter (fun m => (db.versions.max?).getD 0 < m.version) = rest := by
  rw [hrecorded, hsplit]
  rw [hsplit] at hms hpos
  exact filter_above hms hpos

lemma InOrder.pending (h : InOrder ms schema db done rest) (hms : Increasing ms)
    (hpos : ∀ m ∈ ms, 1 ≤ m.version) :
    ms.filter (fun m => (db.versions.max?).getD 0 < m.version) = rest :=
  pending_of_recorded h.split h.recorded hms hpos

/-- A transaction that commits has run the function and recorded the version, which is new. -/
lemma apply_ok {m : Migration Schema} {db' : Migrated Schema} (h : db.apply m = (db', .ok ())) :
    m.fn db.schema = .ok db'.schema ∧ m.version ∉ db.versions ∧
      db'.versions = db.versions ++ [m.version] := by
  unfold Migrated.apply at h
  dsimp only at h
  split at h
  · cases h
  · rename_i schema' hfn
    split at h
    · cases h
    · rename_i hnew
      cases h
      exact ⟨hfn, hnew, by simp [Migrated.versions]⟩

lemma apply_error {m : Migration Schema} {db' : Migrated Schema} {exc : Exc}
    (h : db.apply m = (db', .error exc)) : db' = db := by
  unfold Migrated.apply at h
  dsimp only at h
  split at h
  · cases h
    rfl
  · split at h
    · cases h
      rfl
    · cases h

lemma InOrder.drop (h : InOrder ms schema db done rest) : ms.drop done.length = rest := by
  rw [h.split, List.drop_left]

/-- **A migration that is planned and applied is the next one.** -/
lemma InOrder.applied (h : InOrder ms schema db done rest) {m : Migration Schema}
    {rest' : List (Migration Schema)} {k : ℕ} (hk : k ≤ done.length) (hdrop : m :: rest' = ms.drop k)
    {db' : Migrated Schema} (happly : db.apply m = (db', .ok ())) :
    InOrder ms schema db' (done ++ [m]) rest' := by
  obtain ⟨hfn, hnew, hversions⟩ := apply_ok happly
  have hdone : ms.drop k = done.drop k ++ rest := by
    rw [h.split, List.drop_append_of_le_length hk]
  cases hrest : done.drop k with
  | cons d tail =>
    -- it was applied by another runner in the meantime, and is recorded
    rw [hdone, hrest] at hdrop
    obtain ⟨rfl, -⟩ := List.cons.inj hdrop
    have hmem : m ∈ done := List.mem_of_mem_drop (hrest ▸ List.mem_cons_self)
    rw [h.recorded] at hnew
    exact absurd (List.mem_map_of_mem hmem) hnew
  | nil =>
    rw [hdone, hrest, List.nil_append] at hdrop
    refine ⟨?_, ?_, ?_⟩
    · rw [h.split, ← hdrop, List.append_assoc]
      rfl
    · rw [hversions, h.recorded, List.map_append]
      rfl
    · have hrun := h.schema
      unfold runAll at hrun ⊢
      rw [List.foldlM_append, hrun]
      change (m.fn db.schema >>= fun schema => pure schema) = _
      rw [hfn]
      rfl

/-- **A request keeps what holds in every state.** -/
lemma MigrationInv.step (h : MigrationInv ms schema db ph) (hms : Increasing ms)
    (hpos : ∀ m ∈ ms, 1 ≤ m.version) {pid : ℕ} {r : MigrationReq Schema} (hok : (ph pid).ok r)
    {a : MigrationAnswer} {db' : Migrated Schema} {y : Except Exc r.Reply}
    (hans : db.answer r a = some (db', y)) :
    MigrationInv ms schema db' (Function.update ph pid ((ph pid).next ms r y)) := by
  obtain ⟨done, rest, horder, hbehind⟩ := h
  -- a request that raises, or only reads, leaves the record as it is
  have hread : ∀ c : Plan Schema, db' = db →
      (∀ rest', c = .ahead rest' → ∃ k ≤ done.length, rest' = ms.drop k) →
      MigrationInv ms schema db' (Function.update ph pid c) := by
    rintro c rfl hc
    exact ⟨done, rest, horder, hbehind.update hc⟩
  have hraise : ∀ exc, (ph pid).next ms r (.error exc) = ph pid := by
    intro exc
    cases r <;> rfl
  cases a with
  | fail exc =>
    cases hans
    exact hread _ rfl fun rest' hc => hbehind pid rest' (hraise exc ▸ hc)
  | done =>
    cases r with
    | tableExists =>
      cases hans
      cases htable : db.table with
      | some rows => exact hread _ rfl fun rest' hc => hbehind pid rest' hc
      | none =>
        have hnone : db.versions = [] := by simp [Migrated.versions, htable]
        have hpending := horder.pending hms hpos
        rw [hnone] at hpending
        refine hread _ rfl fun rest' hc => ⟨done.length, le_rfl, ?_⟩
        cases hc
        exact hpending.trans horder.drop.symm
    | maxVersion =>
      have hpending := horder.pending hms hpos
      cases htable : db.table with
      | none =>
        simp only [Migrated.answer, Migrated.exec, htable, Option.some.injEq, Prod.mk.injEq] at hans
        obtain ⟨rfl, rfl⟩ := hans
        exact hread _ rfl fun rest' hc => hbehind pid rest' hc
      | some rows =>
        simp only [Migrated.answer, Migrated.exec, htable, Option.some.injEq, Prod.mk.injEq] at hans
        obtain ⟨rfl, rfl⟩ := hans
        refine hread _ rfl fun rest' hc => ⟨done.length, le_rfl, ?_⟩
        cases hc
        rw [horder.drop, ← hpending, Migrated.versions, htable]
        rfl
    | apply m =>
      have happly : db.apply m = (db', y) := Option.some.inj hans
      cases y with
      | error exc =>
        exact hread _ (apply_error happly) fun rest' hc => hbehind pid rest' (hraise exc ▸ hc)
      | ok v =>
        obtain ⟨rest', hph⟩ := hok
        obtain ⟨k, hk, hdrop⟩ := hbehind pid _ hph
        have horder' := horder.applied hk hdrop happly
        have hlonger : Behind ms (done ++ [m]) ph := by
          intro q rest₁ hq
          obtain ⟨k₁, hk₁, hrest₁⟩ := hbehind q rest₁ hq
          refine ⟨k₁, ?_, hrest₁⟩
          rw [List.length_append]
          omega
        refine ⟨done ++ [m], rest', horder', hlonger.update fun rest₁ hc => ⟨_, le_rfl, ?_⟩⟩
        rw [hph] at hc
        cases hc
        exact horder'.drop.symm

/-! ### What a later call of `up` does -/

/-- The loop applies what it can and stops where a function raises. -/
lemma upFrom_alone {more after : List (Migration Schema)} (applied : List (Migration Schema))
    {schema' : Schema}
    (hrun : runAll db.schema more = .ok schema') (hnew : ∀ m ∈ more, m.version ∉ db.versions)
    (hdistinct : (more.map Migration.version).Nodup)
    (hafter : ∀ m ∈ after.head?, ∃ exc, m.fn schema' = .error exc) :
    ∃ db' y, (MigrationRunner.upFrom none (more ++ after) applied).alone Migrated.exec db = (db', y) ∧
      db'.versions = db.versions ++ more.map Migration.version ∧ db'.schema = schema' ∧
      (after = [] → y = .ok (applied ++ more)) := by
  induction more generalizing db applied with
  | nil =>
    obtain rfl : db.schema = schema' := by
      cases hrun
      rfl
    cases after with
    | nil => exact ⟨db, .ok applied, rfl, by simp, rfl, by simp⟩
    | cons m after =>
      obtain ⟨exc, hexc⟩ := hafter m rfl
      have happly : db.apply m = (db, .error exc) := by
        simp [Migrated.apply, hexc]
      refine ⟨db, .error exc, ?_, by simp, rfl, nofun⟩
      change ((Prog.ret (db.apply m).2).bind _).alone Migrated.exec (db.apply m).1 = _
      rw [happly]
      rfl
  | cons m more ih =>
    obtain ⟨hm, hmore⟩ := List.nodup_cons.1 hdistinct
    cases hfn : m.fn db.schema with
    | error exc =>
      unfold runAll at hrun
      rw [List.foldlM_cons, hfn] at hrun
      cases hrun
    | ok schema₁ =>
      have hfresh : m.version ∉ (db.table.getD []).map Prod.fst := hnew m List.mem_cons_self
      obtain ⟨db₁, happly, hschema₁, hversions₁⟩ : ∃ db₁, db.apply m = (db₁, .ok ()) ∧
          db₁.schema = schema₁ ∧ db₁.versions = db.versions ++ [m.version] := by
        refine ⟨{ schema := schema₁, table := some (db.table.getD [] ++ [(m.version, m.description)]) },
          by simp only [Migrated.apply, hfn, if_neg hfresh], rfl, ?_⟩
        simp [Migrated.versions]
      have hrun₁ : runAll db₁.schema more = .ok schema' := by
        unfold runAll at hrun ⊢
        rw [List.foldlM_cons, hfn] at hrun
        rw [hschema₁]
        exact hrun
      have hnew₁ : ∀ m' ∈ more, m'.version ∉ db₁.versions := by
        intro m' hm' hmem
        rw [hversions₁, List.mem_append, List.mem_singleton] at hmem
        rcases hmem with hmem | heq
        · exact hnew m' (List.mem_cons_of_mem _ hm') hmem
        · exact hm (heq ▸ List.mem_map_of_mem hm')
      obtain ⟨db', y, hloop, hversions, hschema, hall⟩ := ih (applied ++ [m]) hrun₁ hnew₁ hmore
      refine ⟨db', y, ?_, ?_, hschema, fun h => by simpa using hall h⟩
      · rw [List.cons_append, MigrationRunner.upFrom, if_neg (by simp),
          Prog.alone_call_bind (show db.exec (.apply m) = (db₁, .ok ()) from happly)]
        exact hloop
      · rw [hversions, hversions₁]
        simp

lemma pending_alone {migrations : List (Migration Schema)}
    (hsplit : MigrationRunner.sorted migrations = done ++ rest)
    (hrecorded : db.versions = done.map Migration.version)
    (hms : Increasing (MigrationRunner.sorted migrations))
    (hpos : ∀ m ∈ MigrationRunner.sorted migrations, 1 ≤ m.version) :
    (MigrationRunner.pending migrations).alone Migrated.exec db = (db, .ok rest) := by
  have hpending := pending_of_recorded hsplit hrecorded hms hpos
  have hversion : (@MigrationRunner.version Schema).alone Migrated.exec db =
      (db, .ok db.versions.max?) := by
    unfold MigrationRunner.version
    rw [Prog.alone_call_bind (show db.exec .tableExists = (db, .ok db.table.isSome) from rfl)]
    cases htable : db.table with
    | none =>
      have hnone : db.versions = [] := by simp [Migrated.versions, htable]
      rw [hnone]
      rfl
    | some rows =>
      change (db.exec .maxVersion) = _
      simp [Migrated.exec, Migrated.versions, htable]
  unfold MigrationRunner.pending
  rw [Prog.alone_bind hversion]
  simp only [Prog.pure_eq, Prog.alone_ret, hpending]

end

/-- **Migrations are applied once each, in order, whatever fails.** Any number of runners call `up`,
each with as many steps as it likes, their requests interleave, and any of them may raise or be killed.
At every moment the recorded versions are the first ones of the sorted list, and the schema is what
running exactly their functions, in this order, has made of it. What is pending then is the rest, and a
call of `up` that nobody disturbs goes on from there: it applies the functions of the rest up to the
first one that raises. -/
theorem migrations_in_order {Schema : Type} {migrations : List (Migration Schema)}
    (hpos : ∀ m ∈ migrations, 1 ≤ m.version)
    (hdistinct : (migrations.map Migration.version).Nodup) {schema : Schema} {p : Migrators Schema}
    (h : Migrators.Reached migrations schema p) :
    ∃ done rest, MigrationRunner.sorted migrations = done ++ rest ∧
      p.shared.versions = done.map Migration.version ∧ runAll schema done = .ok p.shared.schema ∧
      (MigrationRunner.pending migrations).alone Migrated.exec p.shared = (p.shared, .ok rest) ∧
      ∀ more after schema', rest = more ++ after → runAll p.shared.schema more = .ok schema' →
        (∀ m ∈ after.head?, ∃ exc, m.fn schema' = .error exc) →
        ∃ db' y, (MigrationRunner.up migrations none).alone Migrated.exec p.shared = (db', y) ∧
          db'.versions = (done ++ more).map Migration.version ∧ db'.schema = schema' := by
  have hms := increasing_sorted hdistinct
  have hpos' : ∀ m ∈ MigrationRunner.sorted migrations, 1 ≤ m.version := fun m hm =>
    hpos m ((List.mem_insertionSort _).1 hm)
  have hstart : Pool.Phased (Plan.Moves (MigrationRunner.sorted migrations)) Plan.ok (fun _ => True)
      .unknown .unknown (Migrators.init schema) fun _ => .unknown := by
    intro pid
    simp [Migrators.init, Pool.prog?]
  have hinit : MigrationInv (MigrationRunner.sorted migrations) schema (Migrators.init schema).shared
      fun _ => .unknown :=
    ⟨[], _, ⟨rfl, rfl, rfl⟩, fun _ _ => by rintro ⟨⟩⟩
  have hgone : ∀ db (ph : ℕ → Plan Schema) pid,
      MigrationInv (MigrationRunner.sorted migrations) schema db ph →
        MigrationInv (MigrationRunner.sorted migrations) schema db
          (Function.update ph pid .unknown) := by
    rintro db ph pid ⟨done, rest, horder, hbehind⟩
    exact ⟨done, rest, horder, hbehind.update fun _ => by rintro ⟨⟩⟩
  have hphases : ∃ ph, Pool.Phased (Plan.Moves (MigrationRunner.sorted migrations)) Plan.ok
      (fun _ => True) .unknown .unknown p ph ∧
      MigrationInv (MigrationRunner.sorted migrations) schema p.shared ph := by
    refine Pool.phases (G := fun db _ ph => MigrationInv (MigrationRunner.sorted migrations) schema db ph)
      (fun _ steps _ => up_inPhase migrations steps) (fun _ _ pid _ _ hG => hgone _ _ pid hG)
      (fun _ _ _ pid _ hG => hgone _ _ pid hG) ?_ h hstart hinit
    intro p p' ph pid a r f y _ _ _ hG hacts hok
    exact ⟨_, rfl, hG.step hms hpos' hok hacts.answered⟩
  obtain ⟨ph, -, done, rest, horder, -⟩ := hphases
  have hpending := pending_alone horder.split horder.recorded hms hpos'
  refine ⟨done, rest, horder.split, horder.recorded, horder.schema, hpending, ?_⟩
  rintro more after schema' rfl hrun hafter
  have hnodup : ((done ++ (more ++ after)).map Migration.version).Nodup := by
    rw [← horder.split, List.Nodup, List.pairwise_map]
    exact hms.imp fun h => ne_of_lt h
  rw [← List.append_assoc, List.map_append, List.nodup_append] at hnodup
  obtain ⟨hrecorded, -, -⟩ := hnodup
  rw [List.map_append, List.nodup_append] at hrecorded
  obtain ⟨-, hmore, hdisjoint⟩ := hrecorded
  have hnew : ∀ m ∈ more, m.version ∉ p.shared.versions := by
    intro m hm hmem
    rw [horder.recorded] at hmem
    exact hdisjoint _ hmem _ (List.mem_map_of_mem hm) rfl
  obtain ⟨db', y, hloop, hversions, hschema, -⟩ :=
    upFrom_alone [] hrun hnew hmore hafter
  refine ⟨db', y, ?_, ?_, hschema⟩
  · unfold MigrationRunner.up
    rw [Prog.alone_bind hpending]
    exact hloop
  · rw [hversions, horder.recorded, List.map_append]

/-- Two runners plan both migrations; one of them applies the first, and the other one meets its version
and stops. -/
theorem migrations_in_order_overtaken :
    let migrations : List (Migration ℕ) :=
      [⟨2, "double", fun n => .ok (2 * n)⟩, ⟨1, "one more", fun n => .ok (n + 1)⟩]
    ∃ p, Migrators.Reached migrations 5 p ∧ p.shared.schema = 6 ∧ p.lives 1 = false ∧
      ∃ done rest, MigrationRunner.sorted migrations = done ++ rest ∧
        p.shared.versions = done.map Migration.version ∧ runAll 5 done = .ok p.shared.schema ∧
        (MigrationRunner.pending migrations).alone Migrated.exec p.shared = (p.shared, .ok rest) ∧
        ∀ more after schema', rest = more ++ after → runAll p.shared.schema more = .ok schema' →
          (∀ m ∈ after.head?, ∃ exc, m.fn schema' = .error exc) →
          ∃ db' y, (MigrationRunner.up migrations none).alone Migrated.exec p.shared = (db', y) ∧
            db'.versions = (done ++ more).map Migration.version ∧ db'.schema = schema' := by
  intro migrations
  have hrun : Migrators.Reached migrations 5 _ := Pool.run_of_play
    (show Pool.play Migrated.answer (Migrators.program migrations) (fun _ _ => True)
      (Migrators.init 5) [.spawn none, .spawn none, .act 0 .done, .act 1 .done, .act 0 .done,
        .act 1 .done] = some _ from rfl)
  exact ⟨_, hrun, rfl, rfl, migrations_in_order (by decide) (by decide) hrun⟩

end Pyreljob
