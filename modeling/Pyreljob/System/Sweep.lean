import Pyreljob.System.Recovery

/-!
What one reconcile pass does, from its first batch to its last statement.

The batches work off the stale runs in the order of their ids. Every batch takes its candidates out of
the next one, and the jobs that it arms out of those that are still disarmed, so however many batches
there are they do what one pair of `UPDATE`s would do, and nothing is counted twice. The orphan pass
only finds jobs that had no run in flight to begin with: where a sweep failed the last one of a
disarmed job, it has armed the job as well.
-/

namespace Pyreljob

open Lib

/-! ### All batches as one -/

namespace DB

def abandoned (now : Time) (r : RunRow) : RunRow :=
  { r with
    status := .failed, error := some abandonedError, finishedAt := some now, updatedAt := some now }

def rearmed (now : Time) (j : JobRow) : JobRow :=
  { j with nextRunAt := some now, updatedAt := some now }

def Failing (stale : List RunRow) (r : RunRow) : Prop :=
  r.id ∈ stale.map RunRow.id ∧ r.status = .ready

instance (stale : List RunRow) : DecidablePred (Failing stale) :=
  fun _ => inferInstanceAs (Decidable (_ ∧ _))

def allStale (db : DB) (cutoff : Time) (progressCutoff : Option Time) : List RunRow :=
  db.runs.select (Stale cutoff progressCutoff)

def Rearms (db : DB) (cutoff : Time) (progressCutoff : Option Time) (j : JobRow) : Prop :=
  Revives (db.allStale cutoff progressCutoff) j ∨ db.Orphaned cutoff j

instance (db : DB) (cutoff : Time) (progressCutoff : Option Time) :
    DecidablePred (db.Rearms cutoff progressCutoff) :=
  fun _ => inferInstanceAs (Decidable (_ ∨ _))

def swept (db : DB) (now cutoff : Time) (progressCutoff : Option Time) : DB :=
  { db with
    runs := db.runs.update (Stale cutoff progressCutoff) (abandoned now)
    jobs := db.jobs.update (Revives (db.allStale cutoff progressCutoff)) (rearmed now) }

def reconciled (db : DB) (now cutoff : Time) (progressCutoff : Option Time) : DB :=
  { db with
    runs := db.runs.update (Stale cutoff progressCutoff) (abandoned now)
    jobs := db.jobs.update (db.Rearms cutoff progressCutoff) (rearmed now) }

end DB

section

variable {db : DB} {now cutoff : Time} {lc pc : Option Time}

lemma not_stale_abandoned (r : RunRow) : ¬ DB.Stale cutoff pc (DB.abandoned now r) := by
  rintro ⟨hready, -⟩
  cases hready

lemma not_revives_rearmed {stale : List RunRow} (j : JobRow) :
    ¬ DB.Revives stale (DB.rearmed now j) := by
  rintro ⟨-, -, -, hnone⟩
  cases hnone

lemma mem_allStale {r : RunRow} : r ∈ db.allStale cutoff pc ↔
    r ∈ db.runs.rows ∧ DB.Stale cutoff pc r := by
  simp [DB.allStale, Table.select]

lemma mem_allStale_of_staleRuns {r : RunRow} (h : r ∈ db.staleRuns cutoff pc) :
    r ∈ db.allStale cutoff pc :=
  (List.mem_insertionSort _).1 (List.mem_of_mem_take h)

lemma failing_iff {r : RunRow} (hr : r ∈ db.runs.rows) :
    DB.Failing (db.staleRuns cutoff pc) r ↔ r ∈ db.staleRuns cutoff pc := by
  constructor
  · rintro ⟨hid, -⟩
    obtain ⟨r', hr', heq⟩ := List.mem_map.1 hid
    have hrow' := (mem_allStale.1 (mem_allStale_of_staleRuns hr')).1
    rwa [← List.inj_on_of_nodup_map db.runs.nodup hrow' hr heq]
  · intro h
    exact ⟨List.mem_map_of_mem h, (mem_allStale.1 (mem_allStale_of_staleRuns h)).2.1⟩

lemma mem_staleRuns_of_short (h : (db.staleRuns cutoff pc).length < DB.reconcileBatchSize)
    {r : RunRow} : r ∈ db.staleRuns cutoff pc ↔ r ∈ db.allStale cutoff pc := by
  refine ⟨mem_allStale_of_staleRuns, fun hr => ?_⟩
  have hlen : ((db.runs.select (DB.Stale cutoff pc)).insertionSort
      fun r r' => r.id ≤ r'.id).length ≤ DB.reconcileBatchSize := by
    rw [DB.staleRuns, List.length_take] at h
    omega
  rw [DB.staleRuns, List.take_of_length_le hlen, List.mem_insertionSort]
  exact hr

lemma mem_allStale_batch {r : RunRow} :
    r ∈ (db.reconcileBatch now cutoff pc).1.allStale cutoff pc ↔
      r ∈ db.allStale cutoff pc ∧ r ∉ db.staleRuns cutoff pc := by
  have hout : (db.reconcileBatch now cutoff pc).1.allStale cutoff pc =
      (db.allStale cutoff pc).filter fun r => ¬ DB.Failing (db.staleRuns cutoff pc) r :=
    Table.select_update_out _ (fun _ => by rfl) fun r _ => not_stale_abandoned r
  rw [hout, List.mem_filter, decide_eq_true_eq]
  refine and_congr_right fun hr => not_congr ?_
  exact failing_iff (mem_allStale.1 hr).1

/-- A job whose run is stale has a candidate in this batch or in what is left. -/
lemma revives_batch (j : JobRow) : DB.Revives (db.allStale cutoff pc) j ↔
    DB.Revives (db.staleRuns cutoff pc) j ∨
      DB.Revives ((db.reconcileBatch now cutoff pc).1.allStale cutoff pc) j := by
  unfold DB.Revives
  rw [← or_and_right]
  refine and_congr_left fun _ => ?_
  simp only [List.mem_map, mem_allStale_batch]
  constructor
  · rintro ⟨r, hr, hj⟩
    by_cases hb : r ∈ db.staleRuns cutoff pc
    · exact .inl ⟨r, hb, hj⟩
    · exact .inr ⟨r, ⟨hr, hb⟩, hj⟩
  · rintro (⟨r, hr, hj⟩ | ⟨r, ⟨hr, -⟩, hj⟩)
    · exact ⟨r, mem_allStale_of_staleRuns hr, hj⟩
    · exact ⟨r, hr, hj⟩

lemma swept_batch : (db.reconcileBatch now cutoff pc).1.swept now cutoff pc =
    db.swept now cutoff pc := by
  have hruns : ((db.runs.update (DB.Failing (db.staleRuns cutoff pc)) (DB.abandoned now)).update
      (DB.Stale cutoff pc) (DB.abandoned now)) =
      db.runs.update (DB.Stale cutoff pc) (DB.abandoned now) := by
    refine Table.update_update_out _ _ (fun r _ => not_stale_abandoned r) fun r hr => ?_
    rw [failing_iff hr]
    refine ⟨.inr, ?_⟩
    rintro (h | h)
    · exact (mem_allStale.1 (mem_allStale_of_staleRuns h)).2
    · exact h
  have hjobs : ((db.jobs.update (DB.Revives (db.staleRuns cutoff pc)) (DB.rearmed now)).update
      (DB.Revives ((db.reconcileBatch now cutoff pc).1.allStale cutoff pc)) (DB.rearmed now)) =
      db.jobs.update (DB.Revives (db.allStale cutoff pc)) (DB.rearmed now) :=
    Table.update_update_out _ _ (fun j _ => not_revives_rearmed j) fun j _ => revives_batch j
  exact congrArg₂ (fun runs jobs => { db with runs := runs, jobs := jobs }) hruns hjobs

/-- Runs and jobs are counted once, in whichever batch they are met. -/
lemma counts_batch (db : DB) (now cutoff : Time) (pc : Option Time) :
    (db.reconcileBatch now cutoff pc).2.2.runs +
        ((db.reconcileBatch now cutoff pc).1.allStale cutoff pc).length =
      (db.allStale cutoff pc).length ∧
    (db.reconcileBatch now cutoff pc).2.2.jobs +
        ((db.reconcileBatch now cutoff pc).1.jobs.select
          (DB.Revives ((db.reconcileBatch now cutoff pc).1.allStale cutoff pc))).length =
      (db.jobs.select (DB.Revives (db.allStale cutoff pc))).length := by
  constructor
  · refine Table.length_select_out db.runs (p := DB.Failing (db.staleRuns cutoff pc))
      (f := DB.abandoned now) (fun _ => rfl) (fun r _ => not_stale_abandoned r) fun r hr => ?_
    rw [failing_iff hr]
    refine ⟨.inr, ?_⟩
    rintro (h | h)
    · exact (mem_allStale.1 (mem_allStale_of_staleRuns h)).2
    · exact h
  · exact Table.length_select_out db.jobs (p := DB.Revives (db.staleRuns cutoff pc))
      (f := DB.rearmed now) (fun _ => rfl) (fun j _ => not_revives_rearmed j) fun j _ =>
        revives_batch j

def DB.sweptCounts (db : DB) (cutoff : Time) (progressCutoff : Option Time) : DB.Reconciled :=
  { runs := (db.allStale cutoff progressCutoff).length
    jobs := (db.jobs.select (DB.Revives (db.allStale cutoff progressCutoff))).length }

lemma allStale_batch_of_short (now : Time)
    (h : (db.staleRuns cutoff pc).length < DB.reconcileBatchSize) :
    (db.reconcileBatch now cutoff pc).1.allStale cutoff pc = [] := by
  refine List.eq_nil_iff_forall_not_mem.2 fun r hr => ?_
  obtain ⟨hall, hnot⟩ := mem_allStale_batch.1 hr
  exact hnot ((mem_staleRuns_of_short h).2 hall)

lemma swept_of_nil (now : Time) (h : db.allStale cutoff pc = []) : db.swept now cutoff pc = db := by
  have hruns : db.runs.update (DB.Stale cutoff pc) (DB.abandoned now) = db.runs := by
    refine Table.update_of_not _ fun r hr hs => ?_
    have := mem_allStale.2 ⟨hr, hs⟩
    rw [h] at this
    cases this
  have hjobs : db.jobs.update (DB.Revives (db.allStale cutoff pc)) (DB.rearmed now) = db.jobs := by
    refine Table.update_of_not _ fun j _ hrev => ?_
    rw [h] at hrev
    cases hrev.1
  exact congrArg₂ (fun runs jobs => { db with runs := runs, jobs := jobs }) hruns hjobs

lemma short_of_unchanged (now : Time) (h : (db.reconcileBatch now cutoff pc).2.2.runs = 0) :
    (db.staleRuns cutoff pc).length < DB.reconcileBatchSize := by
  have hnil : db.staleRuns cutoff pc = [] := by
    refine List.eq_nil_iff_forall_not_mem.2 fun r hr => ?_
    have hrow := (mem_allStale.1 (mem_allStale_of_staleRuns hr)).1
    have hmem : r ∈ db.runs.select (DB.Failing (db.staleRuns cutoff pc)) :=
      List.mem_filter.2 ⟨hrow, decide_eq_true ((failing_iff hrow).2 hr)⟩
    exact List.ne_nil_of_mem hmem (List.length_eq_zero_iff.1 h)
  rw [hnil]
  decide

/-! ### The loop -/

/-- What answers a reconcile pass, where nobody else acts and the clock stands at `now`. -/
structure Undisturbed (h : DB → (r : Req) → DB × Except Exc r.Reply) (now : Time)
    (lastClaim : Option Time) : Prop where
  clock : ∀ db, h db .now = (db, .ok now)
  lastClaimAt : ∀ db, h db .lastClaimAt = (db, .ok lastClaim)
  batch : ∀ db now cutoff pc, h db (.db (.reconcileBatch now cutoff pc)) =
    ((db.reconcileBatch now cutoff pc).1, .ok (db.reconcileBatch now cutoff pc).2)
  orphans : ∀ db now cutoff, h db (.db (.rearmOrphanedJobs now cutoff)) =
    ((db.rearmOrphanedJobs now cutoff).1, .ok (db.rearmOrphanedJobs now cutoff).2)

lemma calmly_undisturbed : Undisturbed (calmly now lc) now lc :=
  ⟨fun _ => rfl, fun _ => rfl, fun _ _ _ _ => rfl, fun _ _ _ => rfl⟩

variable {h : DB → (r : Req) → DB × Except Exc r.Reply}

/-- **The sweep comes to its end**, and does what it would do without batches. -/
theorem sweep_eq (hh : Undisturbed h now lc) {fuel : ℕ} (total : DB.Reconciled)
    (hfuel : (db.allStale cutoff pc).length < fuel) :
    (JobManager.sweep now cutoff pc fuel total).alone h db =
      (db.swept now cutoff pc, .ok (some
        { runs := total.runs + (db.sweptCounts cutoff pc).runs
          jobs := total.jobs + (db.sweptCounts cutoff pc).jobs })) := by
  induction fuel generalizing db total with
  | zero => omega
  | succ fuel ih =>
    obtain ⟨hruns, hjobs⟩ := counts_batch db now cutoff pc
    unfold JobManager.sweep
    rw [Prog.alone_call_bind (hh.batch ..)]
    dsimp only
    split
    · rename_i hstop
      have hshort : (db.staleRuns cutoff pc).length < DB.reconcileBatchSize := by
        rcases hstop with h | h
        · exact h
        · exact short_of_unchanged now h.1
      have hnil := allStale_batch_of_short now hshort
      have hswept := swept_of_nil now hnil
      rw [swept_batch] at hswept
      rw [hnil] at hruns hjobs
      have hnone : ((db.reconcileBatch now cutoff pc).1.jobs.select (DB.Revives [])).length = 0 := by
        refine List.length_eq_zero_iff.2 (List.filter_eq_nil_iff.2 fun j _ => ?_)
        simp [DB.Revives]
      rw [hnone] at hjobs
      simp only [Prog.pure_eq, Prog.alone_ret, DB.sweptCounts, hswept, ← hruns, ← hjobs,
        List.length_nil, Nat.add_zero]
    · rename_i hgo
      have hless : ((db.reconcileBatch now cutoff pc).1.allStale cutoff pc).length < fuel := by
        have hpos : (db.reconcileBatch now cutoff pc).2.2.runs ≠ 0 := fun h =>
          hgo (.inl (short_of_unchanged now h))
        omega
      refine (ih _ hless).trans ?_
      rw [swept_batch]
      simp only [DB.sweptCounts, ← hruns, ← hjobs, Nat.add_assoc]

/-- An orphan after the sweep is one before it: a job whose last run was failed is armed. -/
lemma orphaned_swept (now : Time) (j : JobRow)
    (hrev : ¬ DB.Revives (db.allStale cutoff pc) j) :
    (db.swept now cutoff pc).Orphaned cutoff j ↔ db.Orphaned cutoff j := by
  have hactive : j.source = .scheduled → j.status = .active → j.nextRunAt = none →
      ((db.swept now cutoff pc).hasActiveRun j.id = db.hasActiveRun j.id) := by
    intro hsrc hact hnone
    simp only [DB.hasActiveRun, DB.swept, Table.update, List.any_map]
    rw [Bool.eq_iff_iff, List.any_eq_true, List.any_eq_true]
    refine exists_congr fun r => and_congr_right fun hr => ?_
    by_cases hs : DB.Stale cutoff pc r
    · have hne : r.jobId ≠ j.id := fun heq =>
        hrev ⟨heq ▸ List.mem_map_of_mem (mem_allStale.2 ⟨hr, hs⟩), hsrc, hact, hnone⟩
      simp [hs, DB.abandoned, hne]
    · simp [hs]
  constructor
  · rintro ⟨hsrc, hact, hnone, hold, hrest⟩
    exact ⟨hsrc, hact, hnone, hold, hactive hsrc hact hnone ▸ hrest⟩
  · rintro ⟨hsrc, hact, hnone, hold, hrest⟩
    exact ⟨hsrc, hact, hnone, hold, (hactive hsrc hact hnone).trans hrest⟩

def DB.reconciledCounts (db : DB) (cutoff : Time) (progressCutoff : Option Time) : DB.Reconciled :=
  { runs := (db.allStale cutoff progressCutoff).length
    jobs := (db.jobs.select (db.Rearms cutoff progressCutoff)).length }

lemma rearmOrphanedJobs_swept (db : DB) (now cutoff : Time) (pc : Option Time) :
    (db.swept now cutoff pc).rearmOrphanedJobs now cutoff =
      (db.reconciled now cutoff pc, (db.reconciledCounts cutoff pc).jobs -
        (db.sweptCounts cutoff pc).jobs) ∧
    (db.sweptCounts cutoff pc).jobs ≤ (db.reconciledCounts cutoff pc).jobs := by
  have hout : ∀ j, DB.Revives (db.allStale cutoff pc) j →
      ¬ (db.swept now cutoff pc).Orphaned cutoff (DB.rearmed now j) := by
    rintro j - ⟨-, -, hnone, -⟩
    cases hnone
  have hor : ∀ j ∈ db.jobs.rows, db.Rearms cutoff pc j ↔
      DB.Revives (db.allStale cutoff pc) j ∨ (db.swept now cutoff pc).Orphaned cutoff j := by
    intro j _
    by_cases hrev : DB.Revives (db.allStale cutoff pc) j
    · simp [DB.Rearms, hrev]
    · simp [DB.Rearms, hrev, orphaned_swept now j hrev]
  have hcount := Table.length_select_out db.jobs (f := DB.rearmed now) (fun _ => rfl) hout hor
  have hjobs := Table.update_update_out db.jobs (f := DB.rearmed now) (fun _ => rfl) hout hor
  have hsum : (db.sweptCounts cutoff pc).jobs + ((db.swept now cutoff pc).jobs.select
      ((db.swept now cutoff pc).Orphaned cutoff)).length = (db.reconciledCounts cutoff pc).jobs :=
    hcount
  refine ⟨Prod.ext ?_ ?_, by omega⟩
  · exact congrArg (fun jobs => { (db.swept now cutoff pc) with jobs := jobs }) hjobs
  · change ((db.swept now cutoff pc).jobs.select _).length = _
    omega

/-- **A reconcile pass comes to its end**, and this is what it does. -/
theorem reconcileAbandoned_eq (hh : Undisturbed h now lc) {grace : ℤ} {fuel : ℕ}
    (hfuel : db.runs.rows.length < fuel) :
    (JobManager.reconcileAbandoned grace fuel).alone h db =
      (db.reconciled now (now - seconds grace) lc,
        .ok (some (db.reconciledCounts (now - seconds grace) lc))) := by
  have hle : (db.allStale (now - seconds grace) lc).length ≤ db.runs.rows.length :=
    List.length_filter_le ..
  obtain ⟨horphans, hcount⟩ := rearmOrphanedJobs_swept db now (now - seconds grace) lc
  unfold JobManager.reconcileAbandoned
  rw [Prog.alone_call_bind (hh.clock db), Prog.alone_call_bind (hh.lastClaimAt db),
    Prog.alone_bind (sweep_eq hh {} (hle.trans_lt hfuel))]
  dsimp only
  rw [Prog.alone_call_bind (hh.orphans ..), horphans]
  simp only [Prog.pure_eq, Prog.alone_ret, DB.reconciledCounts, DB.sweptCounts, Nat.zero_add] at hcount ⊢
  rw [Nat.add_sub_cancel' hcount]

/-! ### Exactness -/

def DB.failedSince (db db' : DB) : List RunRow :=
  db.runs.rows.filter fun r => r.status = .ready ∧ (db'.runs.get? r.id).any fun r' => r'.status = .failed

def DB.armedSince (db db' : DB) (t : Time) : List JobRow :=
  db.jobs.rows.filter fun j => j.nextRunAt = none ∧
    (db'.jobs.get? j.id).any fun j' => j'.nextRunAt = some t

lemma get?_runs_reconciled (i : ℕ) : (db.reconciled now cutoff pc).runs.get? i =
    (db.runs.get? i).map fun r => if DB.Stale cutoff pc r then DB.abandoned now r else r :=
  Table.get?_update _ _ (DB.abandoned now) (fun _ => rfl) i

lemma get?_jobs_reconciled (i : ℕ) : (db.reconciled now cutoff pc).jobs.get? i =
    (db.jobs.get? i).map fun j => if db.Rearms cutoff pc j then DB.rearmed now j else j :=
  Table.get?_update _ _ (DB.rearmed now) (fun _ => rfl) i

lemma failedSince_reconciled :
    db.failedSince (db.reconciled now cutoff pc) = db.allStale cutoff pc := by
  refine List.filter_congr fun r hr => decide_eq_decide.2 ?_
  rw [get?_runs_reconciled, show db.runs.get? r.id = some r from Table.get?_of_mem hr]
  by_cases hs : DB.Stale cutoff pc r
  · simp [hs, hs.1, DB.abandoned]
  · simp only [hs, Option.map_some, if_false, Option.any_some, decide_eq_true_eq, iff_false]
    rintro ⟨hready, hfailed⟩
    rw [hready] at hfailed
    cases hfailed

lemma nextRunAt_of_rearms {j : JobRow} (h : db.Rearms cutoff pc j) :
    j.source = .scheduled ∧ j.status = .active ∧ j.nextRunAt = none := by
  rcases h with ⟨-, hsrc, hact, hnone⟩ | ⟨hsrc, hact, hnone, -⟩
  all_goals exact ⟨hsrc, hact, hnone⟩

lemma armedSince_reconciled :
    db.armedSince (db.reconciled now cutoff pc) now = db.jobs.select (db.Rearms cutoff pc) := by
  refine List.filter_congr fun j hj => decide_eq_decide.2 ?_
  rw [get?_jobs_reconciled, show db.jobs.get? j.id = some j from Table.get?_of_mem hj]
  by_cases hs : db.Rearms cutoff pc j
  · simp [hs, (nextRunAt_of_rearms hs).2.2, DB.rearmed]
  · simp only [hs, Option.map_some, if_false, Option.any_some, decide_eq_true_eq, iff_false]
    rintro ⟨hnone, hsome⟩
    rw [hnone] at hsome
    cases hsome

lemma allStale_reconciled : (db.reconciled now cutoff pc).allStale cutoff pc = [] := by
  have hout : (db.reconciled now cutoff pc).allStale cutoff pc =
      (db.allStale cutoff pc).filter fun r => ¬ DB.Stale cutoff pc r :=
    Table.select_update_out _ (fun _ => by rfl) fun r _ => not_stale_abandoned r
  rw [hout, List.filter_eq_nil_iff]
  intro r hr
  simpa using (mem_allStale.1 hr).2

lemma not_rearms_reconciled {j : JobRow} (hj : j ∈ (db.reconciled now cutoff pc).jobs.rows) :
    ¬ (db.reconciled now cutoff pc).Rearms cutoff pc j := by
  obtain ⟨j₀, hj₀, rfl⟩ := List.mem_map.1 hj
  rintro (⟨hmem, -⟩ | horphan)
  · rw [allStale_reconciled] at hmem
    cases hmem
  · by_cases hs : db.Rearms cutoff pc j₀
    · rw [if_pos hs] at horphan
      cases horphan.2.2.1
    · rw [if_neg hs] at horphan
      -- its runs are those that the sweep has left
      have hrev : ¬ DB.Revives (db.allStale cutoff pc) j₀ := fun h => hs (.inl h)
      exact hs (.inr ((orphaned_swept now j₀ hrev).1 horphan))

lemma reconciled_again (db : DB) (now cutoff : Time) (pc : Option Time) :
    (db.reconciled now cutoff pc).reconciled now cutoff pc =
      db.reconciled now cutoff pc ∧
    (db.reconciled now cutoff pc).reconciledCounts cutoff pc = { runs := 0, jobs := 0 } := by
  have hstale : ∀ r ∈ (db.reconciled now cutoff pc).runs.rows, ¬ DB.Stale cutoff pc r := by
    intro r hr hs
    have := mem_allStale.2 ⟨hr, hs⟩
    rw [allStale_reconciled] at this
    cases this
  constructor
  · exact congrArg₂ (fun runs jobs => { (db.reconciled now cutoff pc) with runs := runs, jobs := jobs })
      (Table.update_of_not _ hstale) (Table.update_of_not _ fun _ => not_rearms_reconciled)
  · have hjobs : (db.reconciled now cutoff pc).jobs.select
        ((db.reconciled now cutoff pc).Rearms cutoff pc) = [] := by
      refine List.filter_eq_nil_iff.2 fun j hj => ?_
      simpa using not_rearms_reconciled hj
    simp only [DB.reconciledCounts, allStale_reconciled, hjobs, List.length_nil]

end

/-- A reconcile pass at which nobody else acts, as it should be: it comes to its end on every database,
however many batches that takes. It returns how many runs it has failed and how many jobs it has armed.
It fails only runs that were ready, created before the cutoff and not waiting for a later time; it arms
only active maintained jobs that were disarmed, each of which had a run failed by this pass, or had none
in flight and was last written before the cutoff. Nothing else changes, and a second pass at the same
time finds nothing to do. -/
def ReconcilesExactly (db : DB) (grace : ℤ) (now : Time) (lastClaim : Option Time) : Prop :=
  let cutoff := now - seconds grace
  ∃ db' total,
    (∀ fuel, db.runs.rows.length < fuel →
      (JobManager.reconcileAbandoned grace fuel).alone (calmly now lastClaim) db =
        (db', .ok (some total))) ∧
    total.runs = (db.failedSince db').length ∧ total.jobs = (db.armedSince db' now).length ∧
    (∀ i, db'.runs.get? i = db.runs.get? i ∨ ∃ r, db.runs.get? i = some r ∧
      db'.runs.get? i = some (DB.abandoned now r) ∧ r.status = .ready ∧ r.createdAt < cutoff ∧
      r.scheduledAt.all (· ≤ cutoff)) ∧
    (∀ i, db'.jobs.get? i = db.jobs.get? i ∨ ∃ j, db.jobs.get? i = some j ∧
      db'.jobs.get? i = some (DB.rearmed now j) ∧
      j.source = .scheduled ∧ j.status = .active ∧ j.nextRunAt = none ∧
      ((∃ r ∈ db.failedSince db', r.jobId = i) ∨
        db.hasActiveRun i = false ∧ j.updatedAt.any (· < cutoff))) ∧
    db'.tasks = db.tasks ∧
    ∀ fuel, db'.runs.rows.length < fuel →
      (JobManager.reconcileAbandoned grace fuel).alone (calmly now lastClaim) db' =
        (db', .ok (some { runs := 0, jobs := 0 }))

/-- A ready run that is just as old as the grace period, which the sweep takes for an older one: its
`created_at` is a text without a fraction. -/
def JustAsOld (cutoff : Time) (lastClaim : Option Time) (r : RunRow) : Prop :=
  r.status = .ready ∧ r.createdAt = cutoff ∧ r.createdBare = true ∧ r.scheduledAt.all (· ≤ cutoff) ∧
    lastClaim.all (cutoff ≤ ·)

instance (cutoff : Time) (lastClaim : Option Time) : DecidablePred (JustAsOld cutoff lastClaim) :=
  fun _ => inferInstanceAs (Decidable (_ ∧ _ ∧ _ ∧ _ ∧ _))

lemma stale_iff_of_not_lt {cutoff : Time} {lc : Option Time} {r : RunRow} (h : ¬ r.createdAt < cutoff) :
    DB.Stale cutoff lc r ↔ JustAsOld cutoff lc r := by
  unfold DB.Stale JustAsOld RunRow.CreatedBefore
  constructor
  · rintro ⟨hready, hold, hdue, hclaim⟩
    obtain ⟨rfl, hbare⟩ := hold.resolve_left h
    refine ⟨hready, rfl, hbare, hdue, ?_⟩
    cases lc with
    | none => rfl
    | some t => simpa [hbare, le_iff_lt_or_eq] using hclaim
  · rintro ⟨hready, rfl, hbare, hdue, hclaim⟩
    refine ⟨hready, .inr ⟨rfl, hbare⟩, hdue, ?_⟩
    cases lc with
    | none => rfl
    | some t => simpa [hbare, le_iff_lt_or_eq] using hclaim

/-- **A reconcile pass is complete, idempotent, exactly counted and framed** where no run is just as old
as the grace period. Such a run it fails as well, where `created_at` is a text without a fraction. -/
theorem reconcile_exact (db : DB) (grace : ℤ) (now : Time) (lastClaim : Option Time) :
    ReconcilesExactly db grace now lastClaim ↔
      ∀ r ∈ db.runs.rows, ¬ JustAsOld (now - seconds grace) lastClaim r := by
  constructor
  · rintro ⟨db', total, hpass, -, -, hruns, -⟩ r hr hjust
    have hold : ¬ r.createdAt < now - seconds grace := not_lt.2 hjust.2.1.ge
    have hstale := (stale_iff_of_not_lt hold).2 hjust
    have hend := hpass _ (Nat.lt_succ_self _)
    rw [reconcileAbandoned_eq calmly_undisturbed (Nat.lt_succ_self _)] at hend
    obtain rfl := congrArg Prod.fst hend
    have hget : db.runs.get? r.id = some r := Table.get?_of_mem hr
    have hfailed : (db.reconciled now (now - seconds grace) lastClaim).runs.get? r.id = _ :=
      get?_runs_reconciled r.id
    rw [hget, Option.map_some, if_pos hstale] at hfailed
    rcases hruns r.id with hsame | ⟨r', hget', -, -, hlt, -⟩
    · rw [hfailed, hget] at hsame
      have hstatus := congrArg RunRow.status (Option.some.inj hsame)
      rw [hjust.1] at hstatus
      cases hstatus
    · rw [hget] at hget'
      cases hget'
      exact hold hlt
  · intro hnone
    refine ⟨db.reconciled now (now - seconds grace) lastClaim,
      db.reconciledCounts (now - seconds grace) lastClaim,
      fun fuel hfuel => reconcileAbandoned_eq calmly_undisturbed hfuel, ?_, ?_, fun i => ?_,
      fun i => ?_, rfl, fun fuel hfuel => ?_⟩
    · rw [failedSince_reconciled]
      rfl
    · rw [armedSince_reconciled]
      rfl
    · rw [get?_runs_reconciled]
      cases hrow : db.runs.get? i with
      | none => exact .inl rfl
      | some r =>
        by_cases hs : DB.Stale (now - seconds grace) lastClaim r
        · have hlt : r.createdAt < now - seconds grace := by
            by_contra hnot
            exact hnone r (Table.mem_of_get? hrow) ((stale_iff_of_not_lt hnot).1 hs)
          exact .inr ⟨r, rfl, by simp [hs], hs.1, hlt, hs.2.2.1⟩
        · exact .inl (by simp [hs])
    · rw [get?_jobs_reconciled, failedSince_reconciled]
      cases hrow : db.jobs.get? i with
      | none => exact .inl rfl
      | some j =>
        by_cases hs : db.Rearms (now - seconds grace) lastClaim j
        · obtain ⟨hsrc, hact, hnone⟩ := nextRunAt_of_rearms hs
          have hid := job_id_of_get? hrow
          refine .inr ⟨j, rfl, by simp [hs], hsrc, hact, hnone, ?_⟩
          rcases hs with ⟨hmem, -⟩ | ⟨-, -, -, hold, hrest⟩
          · obtain ⟨r, hr, hrj⟩ := List.mem_map.1 hmem
            exact .inl ⟨r, hr, hrj.trans hid⟩
          · exact .inr ⟨hid ▸ hrest, hold⟩
        · exact .inl (by simp [hs])
    · obtain ⟨hdb, hcounts⟩ := reconciled_again db now (now - seconds grace) lastClaim
      rw [reconcileAbandoned_eq calmly_undisturbed hfuel, hdb, hcounts]

/-- On SQLite a run was created 700 seconds after the epoch. -/
def justAsOld : DB where
  runs := .single { id := 0, jobId := 0, createdAt := seconds 700, createdBare := true }

/-- A pass with a grace period of 300 seconds fails it at 1000 seconds. -/
theorem reconcile_fails_justAsOld : ¬ ReconcilesExactly justAsOld 300 (seconds 1000) none := by
  rw [reconcile_exact]
  intro h
  exact h _ List.mem_cons_self (by decide)

/-! ### Which runs are lost -/

def Aged (cutoff : Time) (r : RunRow) : Prop :=
  r.status = .ready ∧ r.createdAt < cutoff ∧ r.scheduledAt.all (· ≤ cutoff)

/-- A lost run: it has waited for long, and no worker has claimed anything since it was created. -/
def Lost (cutoff : Time) (lastClaim : Option Time) (r : RunRow) : Prop :=
  Aged cutoff r ∧ lastClaim.all (· ≤ r.createdAt)

instance (cutoff : Time) (lastClaim : Option Time) : DecidablePred (Lost cutoff lastClaim) :=
  fun _ => inferInstanceAs (Decidable ((_ ∧ _ ∧ _) ∧ _))

/-- Where nobody else acts, a reconcile pass comes to its end and has failed the lost runs, and no
others. -/
def FailsLost (db : DB) (grace : ℤ) (now : Time) (lastClaim : Option Time) : Prop :=
  ∀ fuel, db.runs.rows.length < fuel →
    ∃ db' total, (JobManager.reconcileAbandoned grace fuel).alone (calmly now lastClaim) db =
        (db', .ok (some total)) ∧
      ∀ r ∈ db.runs.rows, (r.status ≠ .failed ∧ (db'.runs.get? r.id).any fun r' => r'.status = .failed) ↔
        Lost (now - seconds grace) lastClaim r

lemma fails_reconciled {db : DB} {now cutoff : Time} {pc : Option Time} {r : RunRow}
    (hr : r ∈ db.runs.rows) :
    (r.status ≠ .failed ∧ ((db.reconciled now cutoff pc).runs.get? r.id).any fun r' =>
      r'.status = .failed) ↔ DB.Stale cutoff pc r := by
  rw [get?_runs_reconciled, show db.runs.get? r.id = some r from Table.get?_of_mem hr]
  by_cases hs : DB.Stale cutoff pc r
  · simp [hs, hs.1, DB.abandoned]
  · simp only [hs, Option.map_some, if_false, Option.any_some, decide_eq_true_eq, iff_false]
    rintro ⟨hne, hfailed⟩
    exact hne hfailed

lemma failsLost_iff {db : DB} {grace : ℤ} {now : Time} {lc : Option Time} :
    FailsLost db grace now lc ↔ ∀ r ∈ db.runs.rows,
      (DB.Stale (now - seconds grace) lc r ↔ Lost (now - seconds grace) lc r) := by
  constructor
  · intro h r hr
    obtain ⟨db', total, hrun, hfails⟩ := h _ (Nat.lt_succ_self _)
    rw [reconcileAbandoned_eq calmly_undisturbed (Nat.lt_succ_self _)] at hrun
    cases hrun
    rw [← hfails r hr, fails_reconciled hr]
  · intro h fuel hfuel
    refine ⟨_, _, reconcileAbandoned_eq calmly_undisturbed hfuel, fun r hr => ?_⟩
    rw [fails_reconciled hr, h r hr]

/-- Where the sweep tells whether a run is lost that has been ready for long: no claim is known, or the
last one was at the very time at which the run was created, as a text without a fraction. -/
def Told (cutoff : Time) (lastClaim : Option Time) (r : RunRow) : Prop :=
  (r.createdAt < cutoff → ∀ t, lastClaim = some t → t = r.createdAt ∧ r.createdBare = true) ∧
    -- a run that is just as old as the grace period is not lost, and a later claim saves none
    (r.createdAt = cutoff → r.createdBare = true → ∃ t, lastClaim = some t ∧ t < cutoff)

lemma stale_iff_lost {cutoff : Time} {lc : Option Time} {r : RunRow} :
    (DB.Stale cutoff lc r ↔ Lost cutoff lc r) ↔
      (r.status = .ready → r.scheduledAt.all (· ≤ cutoff) → Told cutoff lc r) := by
  by_cases hready : r.status = .ready
  swap
  · simp [DB.Stale, Lost, Aged, hready]
  by_cases hdue : r.scheduledAt.all (· ≤ cutoff) = true
  swap
  · simp [DB.Stale, Lost, Aged, hdue]
  simp only [DB.Stale, Lost, Aged, Told, RunRow.CreatedBefore, hready, hdue, true_and, and_true,
    true_imp_iff]
  rcases lt_trichotomy r.createdAt cutoff with hlt | rfl | hgt
  · -- the run is old enough
    cases lc with
    | none => simp [hlt, hlt.ne]
    | some t =>
      rcases lt_trichotomy r.createdAt t with hlt' | rfl | hgt'
      · simp [hlt, hlt.ne, hlt', hlt'.ne', not_le.2 hlt']
      · simp [hlt, hlt.ne]
      · simp [hlt, hlt.ne, hgt'.ne, hgt'.ne', hgt'.le, not_lt.2 hgt'.le]
  · -- it is just as old
    cases lc with
    | none => simp
    | some t =>
      have hlater : ¬ (r.createdAt < t ∨ r.createdAt = t) ↔ t < r.createdAt := by
        rw [← le_iff_lt_or_eq, not_le]
      by_cases hbare : r.createdBare = true
      · simpa [hbare] using hlater
      · simp [hbare]
  · simp [not_lt.2 hgt.le, hgt.ne']

/-- **The sweep fails exactly the lost runs only before the first claim**, or where no run has waited
for long. The last claim is compared the wrong way round: of the runs that have waited for long, the
sweep fails those that were created before it, which are queued behind real work, and spares those that
were created after it, which are lost. On SQLite a run that was created in the very second is the
smaller one in both comparisons. -/
theorem sweep_fails_lost (db : DB) (grace : ℤ) (now : Time) (lastClaim : Option Time) :
    FailsLost db grace now lastClaim ↔
      ∀ r ∈ db.runs.rows, r.status = .ready → r.scheduledAt.all (· ≤ now - seconds grace) →
        Told (now - seconds grace) lastClaim r := by
  rw [failsLost_iff]
  exact forall₂_congr fun _ _ => stale_iff_lost

/-- A run that is queued behind real work: it is older than the grace period of five minutes, and a
worker has claimed another run since it was created. -/
def queuedRun : DB := { runs := ⟨[{ id := 0, jobId := 0, createdAt := 0 }], 1, by decide, by decide⟩ }

/-- The sweep fails it. -/
theorem sweep_fails_queued_run : ¬ FailsLost queuedRun 300 (seconds 1000) (some (seconds 900)) := by
  rw [failsLost_iff]
  intro h
  have hlost := (h _ List.mem_cons_self).1 (by decide)
  exact absurd hlost (by decide)

end Pyreljob
