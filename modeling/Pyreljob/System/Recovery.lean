import Pyreljob.Model.System
import Pyreljob.Store.Lifecycle

/-!
No maintained job is dead for good.

A fire disarms a job, and what re-arms it may never come: the beat or the worker stops, the class is
gone, `next_runtime` says so. What is left then is one of three things. A run of the job is in flight,
and will be due or lose its lease; the job is armed, and will be due; or it is neither, and the beat's
reconcile pass finds it orphaned. For the first and the last nothing may be missing in the columns
that are compared, which is what the invariants are for.
-/

namespace Pyreljob

open Lib Relation

/-! ### Stamps -/

lemma JobStep.stamped {db : DB} {e : Env} {i : ℕ} {c : Call} {o o' : Option JobRow}
    (h : JobStep db e i c o o') (ho : ∀ j, o = some j → j.updatedAt.isSome) :
    ∀ j, o' = some j → j.updatedAt.isSome := by
  cases h with
  | same => exact ho
  | deleted => rintro _ ⟨⟩
  | _ =>
    rintro _ ⟨⟩
    rfl

lemma reachable_stamped {db : DB} (h : Reachable db) : ∀ j ∈ db.jobs.rows, j.updatedAt.isSome := by
  induction h with
  | refl => simp [Table.empty]
  | tail _ hstep ih =>
    obtain ⟨c, e, y, hc⟩ := hstep
    intro j hj
    refine (exec_job hc j.id).stamped (fun j' hj' => ih j' (Table.mem_of_get? hj')) j ?_
    exact Table.get?_of_mem hj

lemma reachable_of_reached {C : System → Act → Prop} {p : System} (h : p.Reached C) :
    Reachable p.shared := by
  induction h with
  | refl => exact .refl
  | tail _ hmove ih =>
    obtain ⟨l, -, hl⟩ := hmove
    rcases System.step_cases hl with hsame | ⟨pid, c, e, y, -, -, hx, -⟩
    · exact hsame ▸ ih
    · exact ih.tail ⟨c, e, y, hx⟩

/-! ### The reconcile pass alone -/

/-- The answer that a request gets when nobody else acts and the clock stands at `now`. -/
def calm (now : Time) (lastClaim : Option Time) : Req → Answer
  | .db _ => .commit { now := now }
  | .lastClaimAt => .lastClaim lastClaim
  | _ => .time now

/-- The database and the replies when nobody else acts. -/
def calmly (now : Time) (lastClaim : Option Time) (db : DB) (r : Req) : DB × Except Exc r.Reply :=
  (answer db r (calm now lastClaim r)).getD (db, .error (.other "" ""))

section

variable {db : DB} {now cutoff : Time} {lc pc : Option Time} {j : ℕ}

def readyRuns (db : DB) : List RunRow := db.runs.select fun r => r.status = .ready

/-- A batch that finds a stale run leaves fewer runs that are ready. -/
lemma readyRuns_lt (now : Time) (h : db.staleRuns cutoff pc ≠ []) :
    (readyRuns (db.reconcileBatch now cutoff pc).1).length < (readyRuns db).length := by
  have hout : readyRuns (db.reconcileBatch now cutoff pc).1 = (readyRuns db).filter fun r =>
      ¬ (r.id ∈ (db.staleRuns cutoff pc).map RunRow.id ∧ r.status = .ready) :=
    Table.select_update_out _ (fun _ => by rfl) fun r _ => by simp
  obtain ⟨r, hr⟩ := List.exists_mem_of_ne_nil _ h
  obtain ⟨hget, hs⟩ := stale_of_mem_staleRuns hr
  rw [hout, List.length_filter_lt_length_iff_exists]
  refine ⟨r, Table.mem_select.2 ⟨hget, hs.1⟩, ?_⟩
  simp [List.mem_map_of_mem hr, hs.1]

lemma reconcileBatch_spares (now cutoff : Time) (pc : Option Time)
    (hj : db.hasActiveRun j = false) :
    (db.reconcileBatch now cutoff pc).1.jobs.get? j = db.jobs.get? j ∧
      (db.reconcileBatch now cutoff pc).1.hasActiveRun j = false := by
  have hstale : ∀ r ∈ db.staleRuns cutoff pc, r.jobId ≠ j := by
    intro r hr hrj
    obtain ⟨hget, hs⟩ := stale_of_mem_staleRuns hr
    have hno := not_inFlight_of_hasActiveRun hj hget hrj
    rw [hs.1] at hno
    exact hno rfl
  constructor
  · rw [DB.reconcileBatch, Table.get?_update]
    cases hjob : db.jobs.get? j with
    | none => rfl
    | some job =>
      have hnot : ¬ DB.Revives (db.staleRuns cutoff pc) job := by
        rintro ⟨hm, -⟩
        obtain ⟨r, hr, hrj⟩ := List.mem_map.1 hm
        exact hstale r hr (hrj.trans (job_id_of_get? hjob))
      simp [hnot]
  · refine List.any_eq_false.2 fun r' hr' => ?_
    obtain ⟨r, hr, rfl⟩ := List.mem_map.1 hr'
    have hno := List.any_eq_false.1 hj r hr
    split
    · simp [RunStatus.inFlight]
    · exact hno

/-- **The sweep comes to its end**, and passes over a job without active runs. -/
lemma sweep_alone (now cutoff : Time) (lc pc : Option Time) {fuel : ℕ} (total : DB.Reconciled)
    (hfuel : (readyRuns db).length < fuel) (hj : db.hasActiveRun j = false) :
    ∃ db' total', (JobManager.sweep now cutoff pc fuel total).alone (calmly now lc) db =
      (db', .ok (some total')) ∧ db'.jobs.get? j = db.jobs.get? j ∧ db'.hasActiveRun j = false := by
  induction fuel generalizing db total with
  | zero => omega
  | succ fuel ih =>
    obtain ⟨hjob, hrest⟩ := reconcileBatch_spares now cutoff pc hj
    unfold JobManager.sweep
    rw [Prog.alone_call_bind (show calmly now lc db (.db (.reconcileBatch now cutoff pc)) =
      ((db.reconcileBatch now cutoff pc).1, .ok (db.reconcileBatch now cutoff pc).2) from rfl)]
    dsimp only
    split
    · exact ⟨_, _, rfl, hjob, hrest⟩
    · rename_i hgo
      have hfull : ¬ (db.staleRuns cutoff pc).length < DB.reconcileBatchSize := fun h => hgo (.inl h)
      have hne : db.staleRuns cutoff pc ≠ [] := by
        intro hnil
        rw [hnil] at hfull
        exact hfull (by decide)
      have hless := readyRuns_lt now hne
      obtain ⟨db', total', hrun, hjob', hrest'⟩ := ih _ (by omega) hrest
      exact ⟨db', total', hrun, hjob'.trans hjob, hrest'⟩

/-- **A reconcile pass re-arms an orphaned job.** -/
lemma reconcileAbandoned_alone {job : JobRow} {grace : ℤ} {fuel : ℕ}
    (hfuel : (readyRuns db).length < fuel) (hjob : db.jobs.get? j = some job)
    (ho : db.Orphaned (now - seconds grace) job) :
    ∃ db' total, (JobManager.reconcileAbandoned grace fuel).alone (calmly now lc) db =
      (db', .ok (some total)) ∧ (db'.jobs.get? j).bind JobRow.nextRunAt = some now := by
  obtain ⟨hsrc, hact, hnone, hold, hrest⟩ := ho
  have hid := job_id_of_get? hjob
  rw [hid] at hrest
  obtain ⟨db', total, hsweep, hjob', hrest'⟩ := sweep_alone now (now - seconds grace) lc lc {} hfuel hrest
  rw [hjob] at hjob'
  unfold JobManager.reconcileAbandoned
  rw [Prog.alone_call_bind (show calmly now lc db .now = (db, .ok now) from rfl),
    Prog.alone_call_bind (show calmly now lc db .lastClaimAt = (db, .ok lc) from rfl),
    Prog.alone_bind hsweep]
  refine ⟨_, _, rfl, ?_⟩
  have horphan : db'.Orphaned (now - seconds grace) job := ⟨hsrc, hact, hnone, hold, hid ▸ hrest'⟩
  change ((db'.rearmOrphanedJobs now (now - seconds grace)).1.jobs.get? j).bind _ = _
  rw [DB.rearmOrphanedJobs, Table.get?_update, hjob']
  simp [horphan]

end

/-! ### What is left of a maintained job -/

/-- At this time the job comes back to life: a beat that claims it wins, or a worker with these lease
seconds may claim a run of it, or a reconcile pass with these grace seconds arms it. -/
def Recovers (db : DB) (j : ℕ) (grace lease : ℤ) (now : Time) : Prop :=
  (db.claimScheduled now j none).2 = true ∨
  (∃ r ∈ db.runs.rows, r.jobId = j ∧ r.status.inFlight ∧
    DB.Claimable now (now - seconds lease) r) ∨
  ∀ (lastClaim : Option Time) (fuel : ℕ), db.runs.rows.length < fuel →
    ∃ db' total t, (JobManager.reconcileAbandoned grace fuel).alone (calmly now lastClaim) db =
      (db', .ok (some total)) ∧ (db'.jobs.get? j).bind JobRow.nextRunAt = some t

lemma claimable_later {r : RunRow} (h : Lifecycle r) (hr : r.status.inFlight) (lease : ℤ) :
    ∃ T : Time, ∀ now ≥ T, DB.Claimable now (now - seconds lease) r := by
  cases hs : r.status with
  | ready =>
    refine ⟨r.scheduledAt.getD 0, fun now hnow => .inl ⟨hs, ?_⟩⟩
    cases ht : r.scheduledAt with
    | none => rfl
    | some t => simpa [ht] using hnow
  | running =>
    obtain ⟨t, ht⟩ := Option.isSome_iff_exists.1 (h.locked.2 hs)
    refine ⟨t + seconds lease + 1, fun now hnow => .inr ⟨hs, ?_⟩⟩
    have hlt : t < now - seconds lease := by linarith
    simpa [ht] using hlt
  | succeeded | failed | cancelled => simp [hs, RunStatus.inFlight] at hr

/-- **No maintained job is dead for good.** Whatever clients, beats and workers have done, and
wherever they were killed, an active maintained job comes back to life at every time from some time
on, if nobody touches the database. -/
theorem maintained_job_recovers {p : System} (h : p.Reached System.Any) {j : ℕ} {job : JobRow}
    (hjob : p.shared.jobs.get? j = some job) (hsrc : job.source = .scheduled)
    (hact : job.status = .active) (grace lease : ℤ) :
    ∃ T : Time, ∀ now ≥ T, Recovers p.shared j grace lease now := by
  have hreach := reachable_of_reached h
  have hid := job_id_of_get? hjob
  cases hrest : p.shared.hasActiveRun j with
  | true =>
    obtain ⟨r, hr, hp⟩ := List.any_eq_true.1 hrest
    obtain ⟨hrj, hfl⟩ := of_decide_eq_true hp
    obtain ⟨T, hT⟩ := claimable_later ((reachable_lifecycle hreach).1 r hr) hfl lease
    exact ⟨T, fun now hnow => .inr (.inl ⟨r, hr, hrj, hfl, hT now hnow⟩)⟩
  | false =>
    cases hnext : job.nextRunAt with
    | some t =>
      refine ⟨t, fun now hnow => .inl ?_⟩
      have hfires : p.shared.Fires now job := ⟨hact, by simpa [hnext] using hnow, hid ▸ hrest⟩
      simp [DB.claimScheduled, hjob, hfires]
    | none =>
      obtain ⟨t, ht⟩ :=
        Option.isSome_iff_exists.1 (reachable_stamped hreach job (Table.mem_of_get? hjob))
      refine ⟨t + seconds grace + 1, fun now hnow => .inr (.inr fun lc fuel hfuel => ?_)⟩
      have hold : t < now - seconds grace := by linarith
      have hle : (readyRuns p.shared).length ≤ p.shared.runs.rows.length := List.length_filter_le ..
      obtain ⟨db', total, hrun, hnext'⟩ := reconcileAbandoned_alone (hle.trans_lt hfuel) hjob
        ⟨hsrc, hact, hnext, by simpa [ht] using hold, hid ▸ hrest⟩
      exact ⟨db', total, now, hrun, hnext'⟩

/-- A beat is killed after it has disarmed a job and before it has created the run. -/
theorem maintained_job_recovers_fired : ∃ (p : System) (T : Time),
    System.init.play System.Any (firing ++ [.crash 1]) = some p ∧ p.shared.runs.rows = [] ∧
    (p.shared.jobs.get? 0).any (fun job => job.nextRunAt.isNone) ∧
    ∀ now ≥ T, Recovers p.shared 0 300 30 now := by
  have hall : ((System.init.play System.Any (firing ++ [.crash 1])).any fun p =>
      p.shared.runs.rows.length = 0 ∧ (p.shared.jobs.get? 0).any fun job =>
        job.source = .scheduled ∧ job.status = .active ∧ job.nextRunAt.isNone) = true := by decide
  obtain ⟨p, hp, hend⟩ := (Option.any_eq_true _ _).1 hall
  obtain ⟨hruns, hjobs⟩ := of_decide_eq_true hend
  obtain ⟨job, hjob, hcols⟩ := (Option.any_eq_true _ _).1 hjobs
  obtain ⟨hsrc, hact, hnext⟩ := of_decide_eq_true hcols
  obtain ⟨T, hT⟩ := maintained_job_recovers (Pool.run_of_play hp) hjob hsrc hact 300 30
  exact ⟨p, T, hp, List.length_eq_zero_iff.1 hruns, by simp [hjob, hnext], hT⟩

end Pyreljob
