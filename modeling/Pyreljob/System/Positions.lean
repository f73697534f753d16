import Pyreljob.Model.StartTask
import Pyreljob.Store.Records

/-!
One record for each position.

What keeps a position from getting a second record is the lookup of `start_task` alone. It does as long
as nobody inserts a record there between the lookup and the `INSERT`; else there are two from then on, and
every later `start_task` at the position raises, since its lookup expects one at most.
-/

namespace Pyreljob

open Lib

/-! ### What a statement does to the records -/

def AddedIn (k : ℕ) (ev : TaskEv) : Prop :=
  ev.pre.tasks.get? k = none ∧ (ev.post.tasks.get? k).isSome

section

variable {db db' : DB} {e : Env} {s : TaskStmt} {y : Except Exc s.Reply} {i pos : ℕ}

lemma exec_place (h : s.exec db e = some (db', y)) {k : ℕ} {t' : TaskRow}
    (ht' : db'.tasks.get? k = some t') : db.tasks.get? k = none ∨
      ∃ t, db.tasks.get? k = some t ∧ t.runId = t'.runId ∧ t.position = t'.position := by
  cases s with
  | lookup =>
    cases h
    exact .inr ⟨t', ht', rfl, rfl⟩
  | insert runId position name attempts =>
    simp only [TaskStmt.exec, DB.insertTask, Option.bind_eq_bind, Option.bind_eq_some_iff,
      Option.some.injEq, Prod.mk.injEq] at h
    obtain ⟨_, ⟨tasks, htasks, rfl⟩, rfl, -⟩ := h
    rcases Table.get?_insert_cases htasks k with hsame | ⟨-, hnone, -⟩
    · exact .inr ⟨t', hsame.symm.trans ht', rfl, rfl⟩
    · exact .inl hnone
  | restart runId position name attempts =>
    cases h
    simp only [DB.restartTask, Table.get?_update, Option.map_eq_some_iff] at ht'
    obtain ⟨t, ht, heq⟩ := ht'
    refine .inr ⟨t, ht, ?_⟩
    split at heq <;> exact heq ▸ ⟨rfl, rfl⟩
  | whole c =>
    have hrow := exec_task h k
    rw [ht'] at hrow
    exact hrow.place

/-- An `INSERT` where there is no record gives no position a second one. -/
lemma exec_one (h : s.exec db e = some (db', y)) (h₁ : db.OnePer i)
    (hfree : ∀ pos name n, s = .insert i pos name n → db.tasks.select (DB.At i pos) = []) :
    db'.OnePer i := by
  cases s with
  | lookup =>
    cases h
    exact h₁
  | insert runId position name attempts =>
    simp only [TaskStmt.exec, DB.insertTask, Option.bind_eq_bind, Option.bind_eq_some_iff,
      Option.some.injEq, Prod.mk.injEq] at h
    obtain ⟨_, ⟨tasks, htasks, rfl⟩, rfl, -⟩ := h
    intro pos
    rw [Table.select_insert htasks]
    by_cases hat : runId = i ∧ position = pos
    · obtain ⟨rfl, rfl⟩ := hat
      rw [hfree _ _ _ rfl, List.nil_append]
      split <;> simp
    · rw [if_neg, List.append_nil]
      · exact h₁ pos
      · exact hat
  | restart runId position name attempts =>
    cases h
    intro pos
    have hone := h₁ pos
    rw [DB.restartTask, select_update_at runId position (fun _ => by rfl) (fun _ => by exact ⟨rfl, rfl⟩)]
    split
    · rwa [List.length_map]
    · exact hone
  | whole c => exact exec_onePer h h₁

/-- An `INSERT` where there is a record already adds a second one. -/
lemma insert_twice {name : String} {n : ℕ} {y : Except Exc Unit}
    (h : (TaskStmt.insert i pos name n).exec db e = some (db', y)) {t : TaskRow}
    (ht : t ∈ db.tasks.select (DB.At i pos)) : ¬ db'.OnePer i := by
  simp only [TaskStmt.exec, DB.insertTask, Option.bind_eq_bind, Option.bind_eq_some_iff,
    Option.some.injEq, Prod.mk.injEq] at h
  obtain ⟨_, ⟨tasks, htasks, rfl⟩, rfl, -⟩ := h
  intro hone
  have hlength := hone pos
  have hpos := List.length_pos_of_mem ht
  rw [Table.select_insert htasks, if_pos ⟨rfl, rfl⟩, List.length_append, List.length_singleton] at hlength
  omega

lemma insert_returns {name : String} {n : ℕ} {y : Except Exc Unit}
    (h : (TaskStmt.insert i pos name n).exec db e = some (db', y)) : y = .ok () := by
  simp only [TaskStmt.exec, Option.bind_eq_bind, Option.bind_eq_some_iff, Option.some.injEq,
    Prod.mk.injEq] at h
  obtain ⟨_, -, -, rfl⟩ := h
  rfl

lemma lookup_found (h₁ : db.OnePer i) : ∃ found, db.lookupTask i pos = .ok found := by
  have hone := h₁ pos
  unfold DB.lookupTask
  rcases hrows : db.tasks.select (DB.At i pos) with _ | ⟨t, _ | ⟨t', rows⟩⟩
  · exact ⟨none, rfl⟩
  · exact ⟨some t.id, rfl⟩
  · rw [hrows] at hone
    simp at hone

lemma lookup_none (h : db.lookupTask i pos = .ok none) : db.tasks.select (DB.At i pos) = [] := by
  unfold DB.lookupTask at h
  rcases hrows : db.tasks.select (DB.At i pos) with _ | ⟨t, _ | ⟨t', rows⟩⟩
  · rfl
  · rw [hrows] at h
    cases h
  · rw [hrows] at h
    cases h

/-- An `INSERT` comes after a lookup of the same transaction, which has found nothing. -/
lemma Call.insert_goes {c : Call} {name : String} {n : ℕ} {l : List (Σ r, Except Exc (TaskStmt.Reply r))}
    {f : Except Exc Unit → Prog TaskStmt TaskStmt.Reply Exc Unit}
    (h : c.statements.Goes l (.ask (.insert i pos name n) f)) : l = [⟨.lookup i pos, .ok none⟩] := by
  cases c with
  | startTask runId position taskName attempts =>
    rcases Prog.goes_call_bind h with ⟨-, hq⟩ | ⟨exc, -, hq⟩ | ⟨found, l', rfl, h'⟩
    · cases hq
    · cases hq
    · cases found with
      | none =>
        rcases Prog.goes_ask.1 h' with ⟨rfl, hq⟩ | ⟨y, l'', rfl, h''⟩
        · cases hq
          rfl
        · cases (Prog.goes_ret.1 h'').2
      | some k =>
        rcases Prog.goes_ask.1 h' with ⟨rfl, hq⟩ | ⟨y, l'', rfl, h''⟩
        · cases hq
        · cases (Prog.goes_ret.1 h'').2
  | _ =>
    rcases Prog.goes_call_bind h with ⟨-, hq⟩ | ⟨exc, -, hq⟩ | ⟨y, l', rfl, h'⟩
    · cases hq
    · cases hq
    · cases (Prog.goes_ret.1 h').2

end

/-! ### What a run does -/

/-- **Nobody comes between.** Where a `start_task` inserts a record, there is none at its position that
was added after its lookup. -/
def NobodyBetween (log : List TaskEv) : Prop :=
  ∀ l₁ l₂ l₃ pid i pos name n e e' db₀ db₁ db db',
    log = l₁ ++ ⟨pid, .lookup i pos, .ok e, .ok none, db₀, db₁⟩ :: l₂ ++
      ⟨pid, .insert i pos name n, .ok e', .ok (), db, db'⟩ :: l₃ →
    ∀ t ∈ db.tasks.select (DB.At i pos), ∀ ev ∈ l₂, ¬ AddedIn t.id ev

/-- No position has had two records, and no lookup of a `start_task` has met two. -/
structure OneEach (p : Traffic) : Prop where
  now : ∀ i, p.shared.OnePer i
  before : ∀ ev ∈ p.log, ∀ i, ev.pre.OnePer i ∧ ev.post.OnePer i
  found : ∀ pid i pos e y db db', (⟨pid, .lookup i pos, .ok e, y, db, db'⟩ : TaskEv) ∈ p.log →
    ∃ found, y = .ok found

section

variable {p p' q : Traffic} {i pos : ℕ}

lemma place_before (hrun : Pool.Run Traffic.answer Call.statements Traffic.Any p q) {l : List TaskEv}
    (hlog : q.log = p.log ++ l) {k : ℕ} (hl : ∀ ev ∈ l, ¬ AddedIn k ev) {t : TaskRow}
    (ht : q.shared.tasks.get? k = some t) : ∃ t₀, p.shared.tasks.get? k = some t₀ ∧
      t₀.runId = t.runId ∧ t₀.position = t.position := by
  refine Pool.Run.before (P := fun db => ∃ t₀, db.tasks.get? k = some t₀ ∧ t₀.runId = t.runId ∧
    t₀.position = t.position) ?_ hrun hlog hl ⟨t, ht, rfl, rfl⟩
  rintro p₁ p₂ act hstep ⟨t₂, ht₂, hi₂, hpos₂⟩
  have hsame : p₂.shared = p₁.shared → ∃ t₀, p₁.shared.tasks.get? k = some t₀ ∧ t₀.runId = t.runId ∧
      t₀.position = t.position := fun heq => ⟨t₂, heq ▸ ht₂, hi₂, hpos₂⟩
  cases act with
  | spawn c => exact .inl (hsame (Pool.step_spawn hstep).1)
  | crash pid => exact .inl (hsame (Pool.step_crash hstep).1)
  | act pid a =>
    obtain ⟨r, f, y, hact⟩ := Pool.step_act hstep
    cases a with
    | error exc => exact .inl (hsame (Prod.mk.inj (Option.some.inj hact.answered)).1.symm)
    | ok e =>
      rcases exec_place hact.answered ht₂ with hnone | ⟨t₁, ht₁, hi₁, hpos₁⟩
      · exact .inr ⟨_, hact.logged, hnone, by simp [ht₂]⟩
      · exact .inl ⟨t₁, ht₁, hi₁.trans hi₂, hpos₁.trans hpos₂⟩

lemma lookup_before (h : p.Reached) {l₀ l₃ : List TaskEv} {pid n : ℕ} {name : String} {a : Except Exc Env}
    {y : Except Exc Unit} {db db' : DB}
    (hlog : p.log = l₀ ++ ⟨pid, .insert i pos name n, a, y, db, db'⟩ :: l₃) :
    ∃ l₁ l₂ e db₀, l₀ = l₁ ++ ⟨pid, .lookup i pos, .ok e, .ok none, db₀, db₀⟩ :: l₂ ∧
      db₀.tasks.select (DB.At i pos) = [] := by
  obtain ⟨c, f, -, hgoes⟩ := Pool.event_kind h rfl rfl hlog
  have hsaid := Call.insert_goes hgoes
  obtain ⟨⟨pid', r, a', y', db₀, db₁⟩, hev, rfl, heq⟩ := Pool.mem_of_said
    (hsaid ▸ List.mem_singleton_self _)
  cases heq
  have hmem : (⟨pid', .lookup i pos, a', .ok none, db₀, db₁⟩ : TaskEv) ∈ p.log := by
    rw [hlog]
    exact List.mem_append_left _ hev
  have hanswered : Traffic.answer db₀ (.lookup i pos) a' = some (db₁, .ok none) :=
    Pool.log_answered h (by simp [Traffic.init]) _ hmem
  obtain ⟨l₁, l₂, rfl⟩ := List.append_of_mem hev
  cases a' with
  | error exc => cases hanswered
  | ok e =>
    obtain ⟨rfl, hnone⟩ := Prod.mk.inj (Option.some.inj hanswered)
    exact ⟨l₁, l₂, e, db₀, rfl, lookup_none hnone⟩

/-- Where nobody comes between, an `INSERT` finds no record at its position. -/
lemma free_before (h : p.Reached) {l₀ l₃ : List TaskEv} {pid n : ℕ} {name : String} {e : Env}
    {db db' : DB} (hlog : p.log = l₀ ++ ⟨pid, .insert i pos name n, .ok e, .ok (), db, db'⟩ :: l₃)
    (hb : NobodyBetween p.log) : db.tasks.select (DB.At i pos) = [] := by
  obtain ⟨l₁, l₂, e₀, db₀, rfl, hnone⟩ := lookup_before h hlog
  obtain ⟨q, q', -, hrun, hpost, hpre, hl⟩ := Pool.events_run h rfl hlog
  by_contra hsome
  obtain ⟨t, ht⟩ := List.exists_mem_of_ne_nil _ hsome
  obtain ⟨hmem, hat⟩ := Table.mem_select.1 ht
  have ht' : q'.shared.tasks.get? t.id = some t := by
    rw [hpre]
    exact hmem
  obtain ⟨t₀, ht₀, hi, hpos⟩ := place_before hrun hl (hb _ _ _ _ _ _ _ _ _ _ _ _ _ _ hlog t ht) ht'
  rw [hpost] at ht₀
  have hin : t₀ ∈ db₀.tasks.select (DB.At i pos) :=
    Table.mem_select.2 ⟨(Table.key_of_get? ht₀).symm ▸ ht₀, hi.trans hat.1, hpos.trans hat.2⟩
  rw [hnone] at hin
  cases hin

lemma NobodyBetween.earlier {l l' : List TaskEv} (h : NobodyBetween (l ++ l')) : NobodyBetween l := by
  intro l₁ l₂ l₃ pid i pos name n e e' db₀ db₁ db db' hlog
  refine h l₁ l₂ (l₃ ++ l') pid i pos name n e e' db₀ db₁ db db' ?_
  rw [hlog, List.append_assoc, List.cons_append]

lemma oneEach_of_nobody (h : p.Reached) (hb : NobodyBetween p.log) : OneEach p := by
  induction h with
  | refl =>
    refine ⟨fun i pos => by simp [Traffic.init, Table.select, Table.empty], fun ev hev => ?_,
      fun _ _ _ _ _ _ _ hev => ?_⟩ <;> exact absurd hev List.not_mem_nil
  | @tail p₁ p₂ hrun hmove ih =>
    obtain ⟨act, hC, hstep⟩ := hmove
    have h₂ : Traffic.Reached p₂ := hrun.tail ⟨act, hC, hstep⟩
    have hquiet : p₂.shared = p₁.shared → p₂.log = p₁.log → OneEach p₂ := by
      intro hshared hlog
      have hone := ih (hlog ▸ hb)
      exact ⟨hshared ▸ hone.now, hlog ▸ hone.before, hlog ▸ hone.found⟩
    cases act with
    | spawn c =>
      obtain ⟨hshared, hlog, -⟩ := Pool.step_spawn hstep
      exact hquiet hshared hlog
    | crash pid =>
      obtain ⟨hshared, hlog, -⟩ := Pool.step_crash hstep
      exact hquiet hshared hlog
    | act pid a =>
      obtain ⟨r, f, y, hact⟩ := Pool.step_act hstep
      have hlog := hact.logged
      have hone := ih (NobodyBetween.earlier (hlog ▸ hb))
      have hnow : ∀ i, p₂.shared.OnePer i := by
        intro i
        cases a with
        | error exc =>
          rw [← (Prod.mk.inj (Option.some.inj hact.answered)).1]
          exact hone.now i
        | ok e =>
          refine exec_one hact.answered (hone.now i) ?_
          rintro pos name n rfl
          obtain rfl := insert_returns hact.answered
          exact free_before h₂ hlog hb
      refine ⟨hnow, fun ev hev => ?_, fun pid' i pos e y' db db' hev => ?_⟩
      · rw [hlog] at hev
        rcases List.mem_append.1 hev with hev | hev
        · exact hone.before ev hev
        · rw [List.mem_singleton.1 hev]
          exact fun i => ⟨hone.now i, hnow i⟩
      · rw [hlog] at hev
        rcases List.mem_append.1 hev with hev | hev
        · exact hone.found pid' i pos e y' db db' hev
        · cases List.mem_singleton.1 hev
          have hlookup : ∃ found, p₁.shared.lookupTask i pos = .ok found := lookup_found (hone.now i)
          obtain ⟨found, hfound⟩ := hlookup
          exact ⟨found, (Prod.mk.inj (Option.some.inj hact.answered)).2.symm.trans hfound⟩

end

/-- **A position has one record exactly as long as nobody comes between.** For every traffic of
transactions on the database, with any number of `start_task`s among them that are executed statement by
statement: no position has ever had two records, and no lookup of a `start_task` has raised because there
are two, if and only if none has inserted its record where another one had been added since its lookup. -/
theorem one_record_each {p : Traffic} (h : p.Reached) : OneEach p ↔ NobodyBetween p.log := by
  refine ⟨fun hone l₁ l₂ l₃ pid i pos name n e e' db₀ db₁ db db' hlog t ht ev _ _ => ?_,
    oneEach_of_nobody h⟩
  have hmem : (⟨pid, .insert i pos name n, .ok e', .ok (), db, db'⟩ : TaskEv) ∈ p.log := by
    rw [hlog]
    exact List.mem_append_right _ List.mem_cons_self
  have hinsert : (TaskStmt.insert i pos name n).exec db e' = some (db', .ok ()) :=
    Pool.log_answered h (by simp [Traffic.init]) _ hmem
  exact insert_twice hinsert ht ((hone.before _ hmem i).2)

/-- A statement of the transaction `pid` is executed at the second `t`, which serves for its keys, too. -/
def executed (pid t : ℕ) : Traffic.Move :=
  .act pid (.ok { now := seconds t, jobId := t, runId := t, taskId := t })

/-- A run is claimed by worker A, its lease runs out, and worker B claims it. -/
def claimedTwice : List Traffic.Move :=
  [.spawn (.insertJobAndRun { job := "m.J" } none), executed 0 0,
    .spawn (.claimRun 0 "A" (seconds 1) (seconds (1 - 60))), executed 1 1,
    .spawn (.claimRun 0 "B" (seconds 100) (seconds (100 - 60))), executed 2 100]

/-- Worker A (transaction 3) has looked up the record of the first task, and so has worker B (transaction
4). Both insert it. -/
def bothInsert : List Traffic.Move :=
  [.spawn (.startTask 0 0 "T" 1), executed 3 101, .spawn (.startTask 0 0 "T" 1), executed 4 101,
    executed 3 102, executed 4 103]

/-- Worker A has inserted the record before worker B looks it up. -/
def oneInserts : List Traffic.Move :=
  [.spawn (.startTask 0 0 "T" 1), executed 3 101, executed 3 102, .spawn (.startTask 0 0 "T" 1),
    executed 4 102, executed 4 103]

theorem one_record_each_oneInserts : ∃ p : Traffic,
    Traffic.init.play (claimedTwice ++ oneInserts) = some p ∧ (OneEach p ↔ NobodyBetween p.log) := by
  have hall : (Traffic.init.play (claimedTwice ++ oneInserts)).isSome = true := by decide
  obtain ⟨p, hp⟩ := Option.isSome_iff_exists.1 hall
  exact ⟨p, hp, one_record_each (Pool.run_of_play hp)⟩

/-- There are two records, and when the task is started once more (transaction 5), `start_task` raises. -/
theorem second_record_inserted : ∃ p : Traffic,
    Traffic.init.play (claimedTwice ++ bothInsert ++ [.spawn (.startTask 0 0 "T" 2), executed 5 104]) =
      some p ∧
    (p.shared.tasks.select (DB.At 0 0)).length = 2 ∧
    (Call.startTask 0 0 "T" 2).statements.Ends (Pool.said 5 p.log) (.error .multipleResultsFound) ∧
    ¬ OneEach p := by
  have hall : (Traffic.init.play (claimedTwice ++ bothInsert ++
      [.spawn (.startTask 0 0 "T" 2), executed 5 104])).map
        (fun p => ((p.shared.tasks.select (DB.At 0 0)).length, Pool.said 5 p.log)) =
      some (2, [⟨.lookup 0 0, .error .multipleResultsFound⟩]) := by rfl
  obtain ⟨p, hp, heq⟩ := Option.map_eq_some_iff.1 hall
  obtain ⟨htwo, hsaid⟩ := Prod.mk.inj heq
  refine ⟨p, hp, htwo, ?_, fun hone => ?_⟩
  · rw [hsaid]
    exact .ask (.ret _)
  · have hle := hone.now 0 0
    omega

end Pyreljob
