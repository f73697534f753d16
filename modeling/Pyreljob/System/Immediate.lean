import Pyreljob.System.Tick

/-!
When the next tick fires a job that is at rest.

`next_runtime` may return `None`, which is documented to fire the job immediately. It is stored as the
`NULL` that also says that a job is disarmed, and a claim never wins a job that is disarmed. What fires
such a job is the orphan pass, once the job has not been written for longer than the grace period.
-/

namespace Pyreljob

open Lib

section

variable {d : Dialect} {db : DB} {now : Time} {grace : ℤ} {m : Option ℤ} {lc : Option Time}
  {key : DB → ℕ} {j : ℕ} {job : JobRow}

/-- The next tick, at this time and where nobody else acts, creates a run of the job. -/
def FiresNext (d : Dialect) (db : DB) (j : ℕ) (grace : ℤ) (m : Option ℤ) (now : Time)
    (lastClaim : Option Time) (key : DB → ℕ) : Prop :=
  ∀ fuel, db.runs.rows.length < fuel →
    ∃ db', (JobManager.tick grace m fuel).alone (atOnce d key now lastClaim) db = (db', .ok ()) ∧
      ∃ r ∈ db'.runs.rows, r.jobId = j ∧ db.runs.get? r.id = none

/-- Its `next_run_at` is `NULL` and has been for longer than the grace period, or it is a time that has
come; and it is not skipped as misfired. -/
def Comes (job : JobRow) (grace : ℤ) (m : Option ℤ) (now : Time) : Prop :=
  (job.nextRunAt = none ∧ job.updatedAt.any (· < now - seconds grace) ∧
      JobManager.isMisfired (some now) now m = false) ∨
    (job.nextRunAt.any (· ≤ now) ∧ JobManager.isMisfired job.nextRunAt now m = false)

lemma rest_reconciled {cutoff : Time} (hrest : db.hasActiveRun j = false) :
    (db.reconciled now cutoff lc).hasActiveRun j = false := by
  refine List.any_eq_false.2 fun r' hr' => ?_
  obtain ⟨r, hr, rfl⟩ := List.mem_map.1 hr'
  have hno := List.any_eq_false.1 hrest r hr
  split
  · simp [DB.abandoned, RunStatus.inFlight]
  · exact hno

lemma rearms_of_rest {cutoff : Time} (hjob : db.jobs.get? j = some job)
    (hrest : db.hasActiveRun j = false) : db.Rearms cutoff lc job ↔ db.Orphaned cutoff job := by
  refine ⟨fun h => h.resolve_left ?_, .inr⟩
  rintro ⟨hmem, -⟩
  obtain ⟨r, hr, hrj⟩ := List.mem_map.1 hmem
  obtain ⟨hrow, hready, -⟩ := mem_allStale.1 hr
  have hno := not_inFlight_of_hasActiveRun hrest (Table.get?_of_mem hrow)
    (hrj.trans (job_id_of_get? hjob))
  rw [hready] at hno
  exact hno rfl

lemma runs_reconciled (hjob : db.jobs.get? j = some job) (hsrc : job.source = .scheduled)
    (hact : job.status = .active) (hrest : db.hasActiveRun j = false) :
    ((db.reconciled now (now - seconds grace) lc).jobs.get? j).any (fun job' =>
      Runs (db.reconciled now (now - seconds grace) lc) now m job') ↔ Comes job grace m now := by
  have hid := job_id_of_get? hjob
  have hrest' : (db.reconciled now (now - seconds grace) lc).hasActiveRun j = false :=
    rest_reconciled hrest
  have hrearms : db.Rearms (now - seconds grace) lc job ↔
      job.nextRunAt = none ∧ job.updatedAt.any (· < now - seconds grace) := by
    rw [rearms_of_rest hjob hrest]
    exact ⟨fun h => ⟨h.2.2.1, h.2.2.2.1⟩, fun h => ⟨hsrc, hact, h.1, h.2, hid.symm ▸ hrest⟩⟩
  rw [get?_jobs_reconciled, hjob]
  by_cases hr : db.Rearms (now - seconds grace) lc job
  · obtain ⟨hnone, hold⟩ := hrearms.1 hr
    simp [hr, Runs, DB.Fires, DB.rearmed, hact, hid, hrest', Comes, hnone, hold]
  · have hnot : ¬ (job.nextRunAt = none ∧ job.updatedAt.any (· < now - seconds grace) ∧
        JobManager.isMisfired (some now) now m = false) := fun h => hr (hrearms.2 ⟨h.1, h.2.1⟩)
    have hcomes : Comes job grace m now ↔
        (job.nextRunAt.any (· ≤ now) ∧ JobManager.isMisfired job.nextRunAt now m = false) :=
      or_iff_right hnot
    rw [hcomes]
    simp [hr, Runs, DB.Fires, hact, hid, hrest']

lemma FiredAmong.created {S db' : DB} {ids : List ℕ} (h : FiredAmong d S now m ids db') :
    (∃ r ∈ db'.runs.rows, r.jobId = j ∧ S.runs.get? r.id = none) ↔
      j ∈ ids ∧ (S.jobs.get? j).any fun job => Runs S now m job := by
  obtain ⟨new, hrows, hids, -⟩ := h.runs
  have hiff : j ∈ ids ∧ (S.jobs.get? j).any (fun job => Runs S now m job) ↔
      j ∈ new.map RunRow.jobId := by
    rw [hids, List.mem_filter]
  rw [hiff]
  constructor
  · rintro ⟨r, hr, hrj, hfree⟩
    rw [hrows] at hr
    rcases List.mem_append.1 hr with hr | hr
    · have hget : S.runs.get? r.id = some r := Table.get?_of_mem hr
      rw [hfree] at hget
      cases hget
    · exact hrj ▸ List.mem_map_of_mem hr
  · intro hj
    obtain ⟨r, hr, hrj⟩ := List.mem_map.1 hj
    refine ⟨r, hrows ▸ List.mem_append_right _ hr, hrj, ?_⟩
    -- the keys of the old rows are not used again
    cases hget : S.runs.get? r.id with
    | none => rfl
    | some r' =>
      have hnodup := db'.runs.nodup
      rw [hrows, List.map_append, List.nodup_append] at hnodup
      exact absurd (run_id_of_get? hget) (hnodup.2.2 _
        (List.mem_map_of_mem (Table.mem_of_get? hget)) _ (List.mem_map_of_mem hr))

end

/-- **When a job at rest fires at the next tick.** A job whose `next_runtime` has returned `None`, and
which therefore has `NULL` in its `next_run_at`, does not fire until it has not been written for longer
than the grace period. One that was armed all the same fires where its time has come. -/
theorem fires_next_iff (d : Dialect) (db : DB) (j : ℕ) (job : JobRow) (hjob : db.jobs.get? j = some job)
    (hsrc : job.source = .scheduled) (hact : job.status = .active)
    (hrest : db.hasActiveRun j = false) (grace : ℤ) (m : Option ℤ) (now : Time)
    (lastClaim : Option Time) (key : DB → ℕ) (hkey : ∀ db : DB, db.runs.get? (key db) = none) :
    FiresNext d db j grace m now lastClaim key ↔ Comes job grace m now := by
  obtain ⟨db', hfired, htick⟩ := tick_alone d db grace m now lastClaim hkey
  have hlisted : j ∈ (db.reconciled now (now - seconds grace) lastClaim).listScheduled.map
      JobRow.id := by
    by_cases hr : db.Rearms (now - seconds grace) lastClaim job
    · refine (mem_listed (j := DB.rearmed now job) ?_).2 ⟨hsrc, hact⟩
      simp [get?_jobs_reconciled, hjob, hr]
    · refine (mem_listed (j := job) ?_).2 ⟨hsrc, hact⟩
      simp [get?_jobs_reconciled, hjob, hr]
  have hfree : ∀ i, (db.reconciled now (now - seconds grace) lastClaim).runs.get? i = none ↔
      db.runs.get? i = none := by
    intro i
    rw [get?_runs_reconciled, Option.map_eq_none_iff]
  have hcreated := hfired.created (j := j)
  simp only [hfree, hlisted, true_and, runs_reconciled hjob hsrc hact hrest] at hcreated
  rw [← hcreated]
  constructor
  · intro h
    obtain ⟨db'', hrun, hnew⟩ := h _ (Nat.lt_succ_self _)
    rw [htick _ (Nat.lt_succ_self _)] at hrun
    cases hrun
    exact hnew
  · intro h fuel hfuel
    exact ⟨db', htick fuel hfuel, h⟩

/-- A maintained job whose `next_runtime` has returned `None` at time 0. -/
def storedNone : DB where
  jobs := ⟨[{ id := 0, job := "Poll", source := .scheduled, createdAt := 0, updatedAt := some 0 }], 1,
    by decide, by decide⟩

/-- On SQLite it does not fire for five minutes. -/
theorem fires_next_iff_storedNone :
    ¬ FiresNext .sqlite storedNone 0 300 none (seconds 300) none (fun db => db.runs.seq) ∧
      FiresNext .sqlite storedNone 0 300 none (seconds 301) none (fun db => db.runs.seq) := by
  constructor
  · rw [fires_next_iff .sqlite storedNone 0 _ rfl rfl rfl rfl 300 none _ none _ get?_seq]
    simp [Comes, seconds]
  · rw [fires_next_iff .sqlite storedNone 0 _ rfl rfl rfl rfl 300 none _ none _ get?_seq]
    simp [Comes, seconds, JobManager.isMisfired]

/-- A job is scheduled, its `next_runtime` returns `None`, and the tick one second later creates no
run. -/
theorem none_does_not_fire : ∃ db job,
    (JobManager.schedule { job := "Poll", nextRunAt := none }).alone
      (atOnce .postgres (fun db => db.runs.seq) 0 none) {} = (db, .ok job) ∧
    db.jobs.get? job.id = some job ∧ job.source = .scheduled ∧ job.status = .active ∧
    db.hasActiveRun job.id = false ∧
    ¬ FiresNext .postgres db job.id 300 none (seconds 1) none (fun db => db.runs.seq) := by
  refine ⟨_, _, rfl, rfl, rfl, rfl, rfl, fun h => ?_⟩
  obtain ⟨db', hrun, r, hr, -⟩ := h 1 (by decide)
  obtain rfl := congrArg Prod.fst hrun
  have hnone : r ∈ ([] : List RunRow) := hr
  cases hnone

end Pyreljob
