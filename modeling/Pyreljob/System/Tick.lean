import Pyreljob.System.Sweep

/-!
What one tick of a beat does, where nobody else acts.

After the reconcile pass the beat goes through the active maintained jobs. Whether it fires a job
depends on that job's row and on the runs of that job alone, and firing it touches nothing else, so
what it does to each of them is decided in the state after the pass.
-/

namespace Pyreljob

open Lib

/-! ### A job fires -/

/-- The clocks stand at `now`, and the database hands out the keys of `key`. -/
def atOnce (d : Dialect) (key : DB → ℕ) (now : Time) (lastClaim : Option Time) (db : DB) (r : Req) :
    DB × Except Exc r.Reply :=
  (answer db r (match r with
    | .db _ => .commit
      { now := now, createdAt := d.currentTimestamp now, createdBare := d.bare, runId := key db }
    | .lastClaimAt => .lastClaim lastClaim
    | _ => .time now)).getD (db, .error (.other "" ""))

/-- The job is due: it is a maintained one, active, armed for a time that has come, and at rest. -/
def Due (db : DB) (now : Time) (j : JobRow) : Prop :=
  j.source = .scheduled ∧ j.status = .active ∧ j.nextRunAt.any (· ≤ now) ∧
    db.hasActiveRun j.id = false

instance (db : DB) (now : Time) : DecidablePred (Due db now) :=
  fun _ => inferInstanceAs (Decidable (_ ∧ _ ∧ _ ∧ _))

def JobRow.disarmed (now : Time) (j : JobRow) : JobRow :=
  { j with nextRunAt := none, updatedAt := some now }

def firedRun (d : Dialect) (id jobId : ℕ) (now : Time) : RunRow :=
  { id := id, jobId := jobId, createdAt := d.currentTimestamp now, createdBare := d.bare
    updatedAt := some now }

def Runs (db : DB) (now : Time) (m : Option ℤ) (j : JobRow) : Prop :=
  db.Fires now j ∧ JobManager.isMisfired j.nextRunAt now m = false

instance (db : DB) (now : Time) (m : Option ℤ) : DecidablePred (Runs db now m) :=
  fun _ => inferInstanceAs (Decidable (_ ∧ _))

/-- From `db` to `db'` the jobs of the list that win are disarmed, and those that are not skipped have
got a run. -/
structure FiredAmong (d : Dialect) (db : DB) (now : Time) (m : Option ℤ) (ids : List ℕ) (db' : DB) :
    Prop where
  jobs : ∀ i, db'.jobs.get? i = (db.jobs.get? i).map fun j =>
    if i ∈ ids ∧ db.Fires now j then j.disarmed now else j
  runs : ∃ new, db'.runs.rows = db.runs.rows ++ new ∧
    new.map RunRow.jobId = ids.filter (fun i => (db.jobs.get? i).any fun j => Runs db now m j) ∧
    ∀ r ∈ new, r = firedRun d r.id r.jobId now
  tasks : db'.tasks = db.tasks

section

variable {d : Dialect} {db db' db'' : DB} {now : Time} {m : Option ℤ} {i : ℕ} {ids : List ℕ}

lemma FiredAmong.nil (d : Dialect) (db : DB) (now : Time) (m : Option ℤ) :
    FiredAmong d db now m [] db where
  jobs i := by simp
  runs := ⟨[], by simp⟩
  tasks := rfl

lemma FiredAmong.fires_iff (h : FiredAmong d db now m ids db') {j : JobRow} (hj : j.id ∉ ids) :
    db'.Fires now j ↔ db.Fires now j := by
  obtain ⟨new, hrows, hids, -⟩ := h.runs
  have hactive : db'.hasActiveRun j.id = db.hasActiveRun j.id := by
    unfold DB.hasActiveRun
    rw [hrows, List.any_append]
    have hnew : (new.any fun r => r.jobId = j.id ∧ r.status.inFlight) = false := by
      refine List.any_eq_false.2 fun r hr hmatch => ?_
      have hmem : r.jobId ∈ new.map RunRow.jobId := List.mem_map_of_mem hr
      rw [hids, (of_decide_eq_true hmatch).1] at hmem
      exact hj (List.mem_of_mem_filter hmem)
    rw [hnew, Bool.or_false]
  simp only [DB.Fires, hactive]

lemma FiredAmong.cons (h : FiredAmong d db now m [i] db') (hrest : FiredAmong d db' now m ids db'')
    (hi : i ∉ ids) : FiredAmong d db now m (i :: ids) db'' := by
  have hget : ∀ i' ∈ ids, db'.jobs.get? i' = db.jobs.get? i' := by
    intro i' hi'
    have hne : i' ≠ i := fun heq => hi (heq ▸ hi')
    rw [h.jobs i']
    simp [hne]
  have hfires : ∀ i' ∈ ids, ∀ j, db.jobs.get? i' = some j → (db'.Fires now j ↔ db.Fires now j) := by
    intro i' hi' j hj
    refine h.fires_iff ?_
    rw [job_id_of_get? hj, List.mem_singleton]
    exact fun heq => hi (heq ▸ hi')
  refine ⟨fun i' => ?_, ?_, hrest.tasks.trans h.tasks⟩
  · rw [hrest.jobs i', h.jobs i']
    cases hj : db.jobs.get? i' with
    | none => rfl
    | some j =>
      by_cases hi' : i' ∈ ids
      · have hne : i' ≠ i := fun heq => hi (heq ▸ hi')
        simp [hi', hne, hfires i' hi' j hj]
      · simp [hi', List.mem_cons]
  · obtain ⟨new, hrows, hids, hnew⟩ := h.runs
    obtain ⟨new', hrows', hids', hnew'⟩ := hrest.runs
    refine ⟨new ++ new', ?_, ?_, ?_⟩
    · rw [hrows', hrows, List.append_assoc]
    · have hsame : ids.filter (fun i' => (db'.jobs.get? i').any fun j => Runs db' now m j) =
          ids.filter (fun i' => (db.jobs.get? i').any fun j => Runs db now m j) := by
        refine List.filter_congr fun i' hi' => ?_
        rw [hget i' hi']
        cases hj : db.jobs.get? i' with
        | none => rfl
        | some j =>
          exact decide_eq_decide.2 (and_congr_left fun _ => hfires i' hi' j hj)
      rw [List.map_append, hids, hids', hsame, ← List.filter_append]
      rfl
    · intro r hr
      rcases List.mem_append.1 hr with hr | hr
      · exact hnew r hr
      · exact hnew' r hr

/-! ### The loop -/

lemma FiredAmong.lost (hlost : ∀ j, db.jobs.get? i = some j → ¬ db.Fires now j) :
    FiredAmong d db now m [i] db where
  jobs i' := by
    cases hj : db.jobs.get? i' with
    | none => rfl
    | some j =>
      by_cases hi : i' = i
      · subst hi
        simp [hlost j hj]
      · simp [hi]
  runs := by
    refine ⟨[], by simp, ?_, by simp⟩
    cases hj : db.jobs.get? i with
    | none => simp [hj]
    | some j => simp [hj, Runs, hlost j hj]
  tasks := rfl

variable {key : DB → ℕ} {cutoff : Time} {lc : Option Time}

lemma get?_jobs_claimScheduled (i' : ℕ) : (db.claimScheduled now i none).1.jobs.get? i' =
    (db.jobs.get? i').map fun j => if i' ∈ [i] ∧ db.Fires now j then j.disarmed now else j := by
  rw [DB.claimScheduled, Table.get?_update]
  cases hj' : db.jobs.get? i' with
  | none => rfl
  | some j' =>
    have hid := job_id_of_get? hj'
    simp [hid, JobRow.disarmed]

lemma FiredAmong.won {j : JobRow} (hj : db.jobs.get? i = some j) (hruns : Runs db now m j)
    {e : Env} {r : RunRow} (hnow : e.now = now) (hcreated : e.createdAt = d.currentTimestamp now)
    (hbare : e.createdBare = d.bare)
    (hrun : (db.claimScheduled now i none).1.createRun e i none = some (db', r)) :
    FiredAmong d db now m [i] db' := by
  obtain ⟨runs, hinsert, -, rfl⟩ := createRun_cases hrun
  have hrow : newRun e i none = firedRun d e.runId i now := by
    rw [newRun, firedRun, hcreated, hbare, hnow]
  refine ⟨get?_jobs_claimScheduled, ⟨[firedRun d e.runId i now], ?_, ?_, ?_⟩, rfl⟩
  · rw [← hrow]
    exact Table.rows_insert hinsert
  · simp [firedRun, hj, hruns]
  · simp [firedRun]

lemma FiredAmong.skipped {j : JobRow} (hj : db.jobs.get? i = some j)
    (hmis : JobManager.isMisfired j.nextRunAt now m = true) :
    FiredAmong d db now m [i] (db.claimScheduled now i none).1 := by
  refine ⟨get?_jobs_claimScheduled, ⟨[], ?_, ?_, ?_⟩, rfl⟩
  · exact (List.append_nil _).symm
  · simp [hj, Runs, hmis]
  · simp

lemma createRun_of_free (db : DB) (e : Env) (i : ℕ) (t : Option Time)
    (h : db.runs.get? e.runId = none) : ∃ db' r, db.createRun e i t = some (db', r) := by
  have hkey : Keyed.key (newRun e i t) = e.runId := rfl
  obtain ⟨runs, hruns⟩ := Table.exists_insert (hkey ▸ h)
  exact ⟨{ db with runs := runs }, newRun e i t, by rw [DB.createRun, hruns]; rfl⟩

/-- **One turn of the loop.** -/
lemma fireDue_turn (d : Dialect) (now : Time) (lc : Option Time) (m : Option ℤ)
    (hkey : ∀ db : DB, db.runs.get? (key db) = none) {job : JobRow}
    (hjob : db.jobs.get? job.id = some job) (jobs : List JobRow) :
    ∃ db', FiredAmong d db now m [job.id] db' ∧
      (JobManager.fireDue m (job :: jobs)).alone (atOnce d key now lc) db =
        (JobManager.fireDue m jobs).alone (atOnce d key now lc) db' := by
  have hlost : ¬ db.Fires now job → FiredAmong d db now m [job.id] db := by
    intro hnot
    refine FiredAmong.lost fun j hj => ?_
    rw [hjob] at hj
    exact Option.some.inj hj ▸ hnot
  rw [JobManager.fireDue,
    Prog.alone_call_bind (show atOnce d key now lc db .now = (db, .ok now) from rfl)]
  by_cases hlater : job.nextRunAt.any (now < ·)
  · -- the beat does not even try
    rw [if_pos hlater]
    refine ⟨db, hlost fun hfires => ?_, rfl⟩
    obtain ⟨t, ht, hlt⟩ := (Option.any_eq_true _ _).1 hlater
    have hle : t ≤ now := by simpa [ht] using hfires.2.1
    exact absurd (of_decide_eq_true hlt) (not_lt.2 hle)
  · rw [if_neg hlater, Prog.alone_call_bind (show atOnce d key now lc db
      (.db (.claimScheduled job.id none)) = ((db.claimScheduled now job.id none).1,
        .ok (db.claimScheduled now job.id none).2) from rfl)]
    by_cases hfires : db.Fires now job
    · have hwon : (db.claimScheduled now job.id none).2 = true := by
        simp [DB.claimScheduled, hjob, hfires]
      rw [hwon, if_pos rfl]
      generalize hdb : (db.claimScheduled now job.id none).1 = db₁
      cases hmis : JobManager.isMisfired job.nextRunAt now m with
      | true => exact ⟨db₁, hdb ▸ FiredAmong.skipped hjob hmis, by rw [if_pos rfl]⟩
      | false =>
        obtain ⟨db', r, hrun⟩ := createRun_of_free db₁
          { now := now, createdAt := d.currentTimestamp now, createdBare := d.bare, runId := key db₁ }
          job.id none (hkey db₁)
        have hcreate : atOnce d key now lc db₁ (.db (.createRun job.id none)) = (db', .ok r) := by
          change (Call.exec db₁ _ (.createRun job.id none)).getD _ = _
          simp only [Call.exec, hrun]
          rfl
        rw [if_neg Bool.false_ne_true, Prog.alone_call_bind hcreate]
        exact ⟨db', FiredAmong.won hjob ⟨hfires, hmis⟩ rfl rfl rfl (hdb.symm ▸ hrun), rfl⟩
    · have hwon : (db.claimScheduled now job.id none).2 = false := by
        simp [DB.claimScheduled, hjob, hfires]
      have hsame : (db.claimScheduled now job.id none).1 = db := by
        have hjobs : (db.claimScheduled now job.id none).1.jobs = db.jobs := by
          refine Table.update_of_get? (p := fun j => j.id = job.id ∧ db.Fires now j)
            (f := JobRow.disarmed now) (fun _ => rfl) (fun j hp => hp.1) fun j hj hp => hfires ?_
          rw [hjob] at hj
          exact Option.some.inj hj ▸ hp.2
        exact congrArg (fun jobs => { db with jobs := jobs }) hjobs
      rw [hwon, hsame]
      exact ⟨db, hlost hfires, rfl⟩

/-- **The whole loop.** -/
lemma fireDue_alone (d : Dialect) (now : Time) (lc : Option Time) (m : Option ℤ)
    (hkey : ∀ db : DB, db.runs.get? (key db) = none) {jobs : List JobRow}
    (hjobs : ∀ job ∈ jobs, db.jobs.get? job.id = some job) (hnodup : (jobs.map JobRow.id).Nodup) :
    ∃ db', FiredAmong d db now m (jobs.map JobRow.id) db' ∧
      (JobManager.fireDue m jobs).alone (atOnce d key now lc) db = (db', .ok ()) := by
  induction jobs generalizing db with
  | nil => exact ⟨db, .nil d db now m, rfl⟩
  | cons job jobs ih =>
    obtain ⟨hfst, hrest⟩ := List.nodup_cons.1 hnodup
    obtain ⟨db₁, hone, hturn⟩ := fireDue_turn d now lc m hkey (hjobs job List.mem_cons_self) jobs
    have hjobs₁ : ∀ job' ∈ jobs, db₁.jobs.get? job'.id = some job' := by
      intro job' hjob'
      have hne : job'.id ≠ job.id := fun heq => hfst (heq ▸ List.mem_map_of_mem hjob')
      rw [hone.jobs, hjobs job' (List.mem_cons_of_mem _ hjob')]
      simp [hne]
    obtain ⟨db₂, hmany, hloop⟩ := ih hjobs₁ hrest
    exact ⟨db₂, hone.cons hmany hfst, hturn.trans hloop⟩

/-! ### The tick -/

lemma due_iff {j : JobRow} : Due db now j ↔ j.source = .scheduled ∧ db.Fires now j := Iff.rfl

lemma mem_listScheduled {j : JobRow} : j ∈ db.listScheduled ↔
    db.jobs.get? j.id = some j ∧ j.source = .scheduled ∧ j.status = .active := by
  rw [DB.listScheduled, List.mem_insertionSort, Table.mem_select]
  rfl

lemma mem_listed {j : JobRow} (hj : db.jobs.get? i = some j) :
    i ∈ db.listScheduled.map JobRow.id ↔ j.source = .scheduled ∧ j.status = .active := by
  have hid := job_id_of_get? hj
  constructor
  · rintro hi
    obtain ⟨j', hj', heq⟩ := List.mem_map.1 hi
    obtain ⟨hget, hsrc, hact⟩ := mem_listScheduled.1 hj'
    rw [heq, hj] at hget
    cases hget
    exact ⟨hsrc, hact⟩
  · rintro ⟨hsrc, hact⟩
    exact hid ▸ List.mem_map_of_mem (mem_listScheduled.2 ⟨by rw [hid, hj], hsrc, hact⟩)

lemma nodup_listScheduled (db : DB) : (db.listScheduled.map JobRow.id).Nodup := by
  have hperm := (List.perm_insertionSort (fun i j : JobRow => i.id ≤ j.id)
    (db.jobs.select fun j => j.source = .scheduled ∧ j.status = .active)).map JobRow.id
  exact hperm.nodup_iff.2 (db.jobs.nodup.sublist (List.filter_sublist.map _))

/-- All due jobs have fired, once each, and nothing else has happened. -/
structure FiredDue (d : Dialect) (db : DB) (now : Time) (db' : DB) : Prop where
  /-- The due jobs are disarmed, and the others are as before. -/
  jobs : ∀ i, db'.jobs.get? i = (db.jobs.get? i).map fun j =>
    if Due db now j then j.disarmed now else j
  /-- Every due job has a new run, which is ready and not waiting for a later time. -/
  runs : ∃ new, db'.runs.rows = db.runs.rows ++ new ∧ (new.map RunRow.jobId).Nodup ∧
    (∀ i, i ∈ new.map RunRow.jobId ↔ ∃ j, db.jobs.get? i = some j ∧ Due db now j) ∧
    ∀ r ∈ new, r.status = .ready ∧ r.scheduledAt = none ∧ r = firedRun d r.id r.jobId now
  tasks : db'.tasks = db.tasks

lemma FiredAmong.due (h : FiredAmong d db now none (db.listScheduled.map JobRow.id) db') :
    FiredDue d db now db' := by
  have hruns : ∀ j, Runs db now none j ↔ db.Fires now j := fun j => and_iff_left rfl
  have hdue : ∀ i j, db.jobs.get? i = some j →
      (i ∈ db.listScheduled.map JobRow.id ∧ db.Fires now j ↔ Due db now j) := by
    intro i j hj
    rw [mem_listed hj, due_iff, and_assoc]
    exact and_congr_right fun _ => ⟨And.right, fun hfires => ⟨hfires.1, hfires⟩⟩
  obtain ⟨new, hrows, hids, hnew⟩ := h.runs
  refine ⟨fun i => ?_, ⟨new, hrows, ?_, fun i => ?_, fun r hr => ?_⟩, h.tasks⟩
  · rw [h.jobs i]
    cases hj : db.jobs.get? i with
    | none => rfl
    | some j => exact congrArg some (if_congr (hdue i j hj) rfl rfl)
  · rw [hids]
    exact (nodup_listScheduled db).filter _
  · rw [hids, List.mem_filter]
    cases hj : db.jobs.get? i with
    | none => simp
    | some j => simpa [hruns] using hdue i j hj
  · have hrow := hnew r hr
    rw [hrow]
    exact ⟨rfl, rfl, rfl⟩

/-- The database that answers the tick answers its reconcile pass. -/
lemma atOnce_undisturbed (d : Dialect) (key : DB → ℕ) (now : Time) (lc : Option Time) :
    Undisturbed (atOnce d key now lc) now lc :=
  ⟨fun _ => rfl, fun _ => rfl, fun _ _ _ _ => rfl, fun _ _ _ => rfl⟩

lemma tick_alone (d : Dialect) (db : DB) (grace : ℤ) (m : Option ℤ) (now : Time) (lc : Option Time)
    (hkey : ∀ db : DB, db.runs.get? (key db) = none) :
    let S := db.reconciled now (now - seconds grace) lc
    ∃ db', FiredAmong d S now m (S.listScheduled.map JobRow.id) db' ∧
      ∀ fuel, db.runs.rows.length < fuel →
        (JobManager.tick grace m fuel).alone (atOnce d key now lc) db = (db', .ok ()) := by
  intro S
  obtain ⟨db', hfired, hloop⟩ := fireDue_alone d now lc m hkey
    (fun job (hjob : job ∈ S.listScheduled) => (mem_listScheduled.1 hjob).1) (nodup_listScheduled S)
  refine ⟨db', hfired, fun fuel hfuel => ?_⟩
  rw [JobManager.tick, Prog.alone_bind (reconcileAbandoned_eq (atOnce_undisturbed d key now lc) hfuel)]
  dsimp only
  rw [Prog.alone_call_bind (show atOnce d key now lc S (.db .listScheduled) = (S, .ok _) from rfl)]
  exact hloop

/-- A run that was in flight before is in flight after all due jobs have fired. -/
lemma FiredDue.active (h : FiredDue d db now db') {j : ℕ} (hrest : db'.hasActiveRun j = false) :
    db.hasActiveRun j = false := by
  obtain ⟨new, hrows, -⟩ := h.runs
  unfold DB.hasActiveRun at hrest ⊢
  rw [hrows, List.any_append, Bool.or_eq_false_iff] at hrest
  exact hrest.1

lemma FiredDue.not_due (h : FiredDue d db now db') {j : JobRow} (hj : db'.jobs.get? i = some j) :
    ¬ Due db' now j := by
  rintro ⟨hsrc, hact, hdue, hrest⟩
  rw [h.jobs] at hj
  obtain ⟨j₀, hj₀, rfl⟩ := Option.map_eq_some_iff.1 hj
  by_cases hfired : Due db now j₀
  · rw [if_pos hfired] at hdue
    cases hdue
  · rw [if_neg hfired] at hsrc hact hdue hrest
    exact hfired ⟨hsrc, hact, hdue, h.active hrest⟩

/-- The sweep would fail the run of a fire at once: `created_at` leaves out the fraction of the second,
and the bounds are not smaller. -/
def SweepsFresh (d : Dialect) (now cutoff : Time) (lastClaim : Option Time) : Prop :=
  d = .sqlite ∧ d.currentTimestamp now ≤ cutoff ∧ lastClaim.all (d.currentTimestamp now ≤ ·)

lemma stale_firedRun (hcutoff : cutoff ≤ now) {id jobId : ℕ} :
    DB.Stale cutoff lc (firedRun d id jobId now) ↔ SweepsFresh d now cutoff lc := by
  have hbefore : ∀ t, (firedRun .sqlite id jobId now).CreatedBefore t ↔
      Dialect.sqlite.currentTimestamp now ≤ t := fun t => by
    simp [RunRow.CreatedBefore, firedRun, Dialect.bare, le_iff_lt_or_eq]
  cases d with
  | sqlite =>
    simp only [DB.Stale, SweepsFresh, hbefore]
    exact ⟨fun h => ⟨trivial, h.2.1, h.2.2.2⟩, fun h => ⟨rfl, h.2.1, rfl, h.2.2⟩⟩
  | postgres =>
    constructor
    · rintro ⟨-, hlt | ⟨-, hbare⟩, -⟩
      · exact absurd hlt (not_lt.2 hcutoff)
      · cases hbare
    · rintro ⟨hd, -⟩
      cases hd

/-- A reconcile pass at once after a tick finds nothing to do, where it leaves the new runs alone. -/
lemma FiredDue.reconciled {S : DB} (hcutoff : cutoff ≤ now)
    (hS : S = db.reconciled now cutoff lc) (h : FiredDue d S now db')
    (hfresh : ∀ i j, S.jobs.get? i = some j → Due S now j → ¬ SweepsFresh d now cutoff lc) :
    db'.reconciled now cutoff lc = db' := by
  have hstale : ∀ r ∈ db'.runs.rows, ¬ DB.Stale cutoff lc r := by
    obtain ⟨new, hrows, -, hids, hnew⟩ := h.runs
    intro r hr hs
    rw [hrows] at hr
    rcases List.mem_append.1 hr with hr | hr
    · have hmem := mem_allStale.2 ⟨hr, hs⟩
      rw [hS, allStale_reconciled] at hmem
      cases hmem
    · obtain ⟨j, hj, hdue⟩ := (hids r.jobId).1 (List.mem_map_of_mem hr)
      rw [(hnew r hr).2.2, stale_firedRun hcutoff] at hs
      exact hfresh r.jobId j hj hdue hs
  have hrearm : ∀ j ∈ db'.jobs.rows, ¬ db'.Rearms cutoff lc j := by
    rintro j hj (⟨hmem, -⟩ | ⟨hsrc, hact, hnone, hold, hrest⟩)
    · obtain ⟨r, hr, -⟩ := List.mem_map.1 hmem
      exact hstale r (mem_allStale.1 hr).1 (mem_allStale.1 hr).2
    · have hget : db'.jobs.get? j.id = some j := Table.get?_of_mem hj
      rw [h.jobs] at hget
      obtain ⟨j₀, hj₀, heq⟩ := Option.map_eq_some_iff.1 hget
      by_cases hfired : Due S now j₀
      · -- the tick has just written it
        rw [if_pos hfired] at heq
        have hupdated : j.updatedAt = some now := congrArg JobRow.updatedAt heq.symm
        rw [hupdated] at hold
        exact absurd (of_decide_eq_true hold) (not_lt.2 hcutoff)
      · rw [if_neg hfired] at heq
        obtain rfl := heq
        have horphan : S.Orphaned cutoff j₀ := ⟨hsrc, hact, hnone, hold, h.active hrest⟩
        have hrow := Table.mem_of_get? hj₀
        rw [hS] at hrow horphan
        exact not_rearms_reconciled hrow (.inr horphan)
  exact congrArg₂ (fun runs jobs => { db' with runs := runs, jobs := jobs })
    (Table.update_of_not _ hstale) (Table.update_of_not _ hrearm)

/-- A job that has fired is due again after the next reconcile pass, if that pass fails its new run. -/
lemma FiredDue.due_again {S : DB} (hcutoff : cutoff ≤ now) (h : FiredDue d S now db')
    (hfresh : SweepsFresh d now cutoff lc) {j : JobRow} (hj : S.jobs.get? i = some j)
    (hdue : Due S now j) : ∃ j', (db'.reconciled now cutoff lc).jobs.get? i = some j' ∧
      Due (db'.reconciled now cutoff lc) now j' := by
  have hid := job_id_of_get? hj
  have ⟨hsrc, hact, _, hrest⟩ := hdue
  obtain ⟨new, hrows, -, hids, hnew⟩ := h.runs
  have hfails : ∀ r ∈ new, DB.Stale cutoff lc r := by
    intro r hr
    rw [(hnew r hr).2.2, stale_firedRun hcutoff]
    exact hfresh
  have hrearms : db'.Rearms cutoff lc (j.disarmed now) := by
    obtain ⟨r, hr, hrj⟩ := List.mem_map.1 ((hids i).2 ⟨j, hj, hdue⟩)
    have hmem := mem_allStale.2 ⟨hrows ▸ List.mem_append_right _ hr, hfails r hr⟩
    exact .inl ⟨List.mem_map.2 ⟨r, hmem, hrj.trans hid.symm⟩, hsrc, hact, rfl⟩
  refine ⟨DB.rearmed now (j.disarmed now), ?_, hsrc, hact, decide_eq_true le_rfl, ?_⟩
  · rw [get?_jobs_reconciled, h.jobs, hj, Option.map_some, Option.map_some,
      if_pos hdue, if_pos hrearms]
  · -- what was in flight before the tick is not the job's, and the pass fails what is new
    refine List.any_eq_false.2 fun r' hr' => ?_
    obtain ⟨r, hr, rfl⟩ := List.mem_map.1 hr'
    rw [hrows] at hr
    rcases List.mem_append.1 hr with hr | hr
    · have hno := List.any_eq_false.1 hrest r hr
      split
      · simp [DB.abandoned, RunStatus.inFlight]
      · exact hno
    · simp [hfails r hr, DB.abandoned, RunStatus.inFlight]

/-! ### Which jobs the reconcile pass leaves due -/

/-- The job will be due after a reconcile pass: it is a maintained one, active, the pass fails all its
runs in flight, and it is armed for a time that has come or the pass arms it. -/
def ComesDue (db : DB) (now cutoff : Time) (lastClaim : Option Time) (j : JobRow) : Prop :=
  j.source = .scheduled ∧ j.status = .active ∧
    (∀ r ∈ db.runs.rows, r.jobId = j.id → r.status.inFlight → DB.Stale cutoff lastClaim r) ∧
    (j.nextRunAt.any (· ≤ now) ∨ j.nextRunAt = none ∧
      ((∃ r ∈ db.runs.rows, r.jobId = j.id ∧ DB.Stale cutoff lastClaim r) ∨
        j.updatedAt.any (· < cutoff)))

/-- A job is at rest after a pass that fails all its runs in flight. -/
lemma rest_reconciled_iff {j : ℕ} : (db.reconciled now cutoff lc).hasActiveRun j = false ↔
    ∀ r ∈ db.runs.rows, r.jobId = j → r.status.inFlight → DB.Stale cutoff lc r := by
  unfold DB.hasActiveRun DB.reconciled Table.update
  rw [List.any_map, List.any_eq_false]
  refine forall₂_congr fun r _ => ?_
  by_cases hs : DB.Stale cutoff lc r
  · simp [hs, DB.abandoned, RunStatus.inFlight]
  · simp [hs]

lemma due_reconciled_iff {j : JobRow} : Due (db.reconciled now cutoff lc) now
    (if db.Rearms cutoff lc j then DB.rearmed now j else j) ↔ ComesDue db now cutoff lc j := by
  by_cases hr : db.Rearms cutoff lc j
  · obtain ⟨hsrc, hact, hnone⟩ := nextRunAt_of_rearms hr
    have hwhy : (∃ r ∈ db.runs.rows, r.jobId = j.id ∧ DB.Stale cutoff lc r) ∨
        j.updatedAt.any (· < cutoff) := by
      rcases hr with ⟨hmem, -⟩ | horphan
      · obtain ⟨r, hr, hrj⟩ := List.mem_map.1 hmem
        exact .inl ⟨r, (mem_allStale.1 hr).1, hrj, (mem_allStale.1 hr).2⟩
      · exact .inr horphan.2.2.2.1
    rw [if_pos hr]
    constructor
    · rintro ⟨-, -, -, hrest⟩
      exact ⟨hsrc, hact, rest_reconciled_iff.1 hrest, .inr ⟨hnone, hwhy⟩⟩
    · rintro ⟨-, -, hrest, -⟩
      exact ⟨hsrc, hact, decide_eq_true le_rfl, rest_reconciled_iff.2 hrest⟩
  · rw [if_neg hr]
    constructor
    · rintro ⟨hsrc, hact, harmed, hrest⟩
      exact ⟨hsrc, hact, rest_reconciled_iff.1 hrest, .inl harmed⟩
    · rintro ⟨hsrc, hact, hrest, hwhen⟩
      have hstale : ¬ ∃ r ∈ db.runs.rows, r.jobId = j.id ∧ DB.Stale cutoff lc r ∧ j.nextRunAt = none := by
        rintro ⟨r, hrow, hrj, hs, hnone⟩
        exact hr (.inl ⟨hrj ▸ List.mem_map_of_mem (mem_allStale.2 ⟨hrow, hs⟩), hsrc, hact, hnone⟩)
      refine ⟨hsrc, hact, hwhen.resolve_right ?_, rest_reconciled_iff.2 hrest⟩
      rintro ⟨hnone, ⟨r, hrow, hrj, hs⟩ | hold⟩
      · exact hstale ⟨r, hrow, hrj, hs, hnone⟩
      · refine hr (.inr ⟨hsrc, hact, hnone, hold, List.any_eq_false.2 fun r hrow hmatch => ?_⟩)
        obtain ⟨hrj, hflight⟩ := of_decide_eq_true hmatch
        exact hstale ⟨r, hrow, hrj, hrest r hrow hrj hflight, hnone⟩

lemma exists_due_reconciled : (∃ i j, (db.reconciled now cutoff lc).jobs.get? i = some j ∧
    Due (db.reconciled now cutoff lc) now j) ↔ ∃ j ∈ db.jobs.rows, ComesDue db now cutoff lc j := by
  constructor
  · rintro ⟨i, j, hj, hdue⟩
    rw [get?_jobs_reconciled] at hj
    obtain ⟨j₀, hj₀, rfl⟩ := Option.map_eq_some_iff.1 hj
    exact ⟨j₀, Table.mem_of_get? hj₀, due_reconciled_iff.1 hdue⟩
  · rintro ⟨j, hj, hcomes⟩
    refine ⟨j.id, _, ?_, due_reconciled_iff.2 hcomes⟩
    rw [get?_jobs_reconciled, show db.jobs.get? j.id = some j from Table.get?_of_mem hj]
    rfl

end

/-- A tick without misfire grace, where nobody else acts and the clocks stand at `now`, as it should be.
Let `S` be the database after its reconcile pass. Every maintained job that is due in `S` gets one new
run, however long it was overdue, and is disarmed. Every other job, and every run and task that was
there, is as in `S`. A second tick at the same time creates no run. -/
def FiresOnce (d : Dialect) (db : DB) (grace : ℤ) (now : Time) (lastClaim : Option Time)
    (key : DB → ℕ) : Prop :=
  ∃ S total db',
    (∀ fuel, db.runs.rows.length < fuel →
      (JobManager.reconcileAbandoned grace fuel).alone (atOnce d key now lastClaim) db =
          (S, .ok (some total)) ∧
        (JobManager.tick grace none fuel).alone (atOnce d key now lastClaim) db = (db', .ok ())) ∧
    FiredDue d S now db' ∧
    ∀ fuel, db'.runs.rows.length < fuel → ∃ db'',
      (JobManager.tick grace none fuel).alone (atOnce d key now lastClaim) db' = (db'', .ok ()) ∧
        db''.runs.rows.map RunRow.id = db'.runs.rows.map RunRow.id

/-- **A tick fires every due job once and nothing else**, unless it is one on SQLite without a grace
period, where `last_claim_at` is `None` or not before the second of the tick: the sweep of the second
tick fails the runs that the first one has created, and the jobs fire again. -/
theorem tick_fires_due (d : Dialect) (db : DB) (grace : ℤ) (hgrace : 0 ≤ grace) (now : Time)
    (lastClaim : Option Time) (key : DB → ℕ) (hkey : ∀ db : DB, db.runs.get? (key db) = none) :
    FiresOnce d db grace now lastClaim key ↔
      ¬ (d = .sqlite ∧ grace = 0 ∧ lastClaim.all (d.currentTimestamp now ≤ ·) ∧
        ∃ j ∈ db.jobs.rows, ComesDue db now (now - seconds grace) lastClaim j) := by
  obtain ⟨db', hamong, htick⟩ := tick_alone d db grace none now lastClaim hkey
  obtain ⟨db'', hagain, htick'⟩ := tick_alone d db' grace none now lastClaim hkey
  have hfired := hamong.due
  have hcutoff : now - seconds grace ≤ now := sub_le_self _ (by unfold seconds; positivity)
  have hzero : Dialect.sqlite.currentTimestamp now ≤ now - seconds grace ↔ grace = 0 := by
    have h : ∀ n : ℤ, n - n % 1000000 ≤ n - grace * 1000000 ↔ grace = 0 := fun n => by omega
    exact h now
  rw [← exists_due_reconciled]
  constructor
  · rintro ⟨S, total, db₁, hfirst, -, hsecond⟩ ⟨rfl, hgrace, hclaim, i, j, hj, hdue⟩
    have hrun := (hfirst _ (Nat.lt_succ_self _)).2
    rw [htick _ (Nat.lt_succ_self _)] at hrun
    cases hrun
    obtain ⟨db₂, hrun, hsame⟩ := hsecond _ (Nat.lt_succ_self _)
    rw [htick' _ (Nat.lt_succ_self _)] at hrun
    cases hrun
    obtain ⟨j', hj', hdue'⟩ := hfired.due_again hcutoff ⟨rfl, hzero.2 hgrace, hclaim⟩ hj hdue
    obtain ⟨new, hrows, -, hids, -⟩ := hagain.due.runs
    obtain ⟨r, hr, -⟩ := List.mem_map.1 ((hids i).2 ⟨j', hj', hdue'⟩)
    have hlength := congrArg List.length hsame
    rw [hrows] at hlength
    simp only [DB.reconciled, Table.update, List.length_map, List.length_append,
      Nat.add_eq_left, List.length_eq_zero_iff] at hlength
    rw [hlength] at hr
    cases hr
  · intro hnot
    refine ⟨_, _, db', fun fuel hfuel => ⟨reconcileAbandoned_eq (atOnce_undisturbed ..) hfuel,
      htick fuel hfuel⟩, hfired, fun fuel hfuel => ⟨db'', htick' fuel hfuel, ?_⟩⟩
    have hstays : ∀ i j, (db.reconciled now (now - seconds grace) lastClaim).jobs.get? i = some j →
        Due (db.reconciled now (now - seconds grace) lastClaim) now j →
        ¬ SweepsFresh d now (now - seconds grace) lastClaim := by
      rintro i j hj hdue ⟨rfl, hold, hclaim⟩
      exact hnot ⟨rfl, hzero.1 hold, hclaim, i, j, hj, hdue⟩
    rw [hfired.reconciled hcutoff rfl hstays] at hagain
    obtain ⟨new, hrows, -, hids, -⟩ := hagain.due.runs
    have hnil : new.map RunRow.jobId = [] := by
      refine List.eq_nil_iff_forall_not_mem.2 fun i hi => ?_
      obtain ⟨j, hj, hdue⟩ := (hids i).1 hi
      exact hfired.not_due hj hdue
    rw [hrows, List.map_eq_nil_iff.1 hnil, List.append_nil]

lemma get?_seq (db : DB) : db.runs.get? db.runs.seq = none := by
  cases hget : db.runs.get? db.runs.seq with
  | none => rfl
  | some r => exact absurd (Table.lt_seq_of_get? hget) (lt_irrefl _)

/-- One of two maintained jobs is due, and a run of an on-demand job is there. -/
def oneDue : DB where
  jobs := ⟨[{ id := 0, job := "Poll", source := .scheduled, nextRunAt := some 0, createdAt := 0 },
    { id := 1, job := "Poll", source := .scheduled, nextRunAt := some (seconds 2000), createdAt := 0 },
    { id := 2, job := "Greet", createdAt := 0 }], 3, by decide, by decide⟩
  runs := ⟨[{ id := 0, jobId := 2, createdAt := 0 }], 1, by decide, by decide⟩

/-- Ticks on these jobs, with the keys that come next: all is well on SQLite with a grace period of
five minutes, and without one on PostgreSQL. -/
theorem tick_fires_due_oneDue :
    FiresOnce .sqlite oneDue 300 (seconds 1000) none (fun db => db.runs.seq) ∧
      FiresOnce .postgres oneDue 0 (seconds 1000) none (fun db => db.runs.seq) := by
  rw [tick_fires_due .sqlite oneDue 300 (by decide) _ _ _ get?_seq,
    tick_fires_due .postgres oneDue 0 (by decide) _ _ _ get?_seq]
  exact ⟨fun h => absurd h.2.1 (by decide), fun h => by cases h.1⟩

/-- Without a grace period a second tick on SQLite at the same time fires the job again. -/
theorem ticks_fire_twice :
    ¬ FiresOnce .sqlite oneDue 0 (seconds 1000) none (fun db => db.runs.seq) := by
  rw [tick_fires_due .sqlite oneDue 0 (by decide) _ _ _ get?_seq, not_not]
  refine ⟨rfl, rfl, rfl, _, List.mem_cons_self, rfl, rfl, fun r hr hrj => ?_, .inl (by decide)⟩
  obtain rfl := List.mem_singleton.1 hr
  cases hrj

end Pyreljob
