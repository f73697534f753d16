import Pyreljob.Model.Call

/-!
What one transaction can do to one row.

`RunStep`, `JobStep` and `TaskStep` list every way in which a transaction can change a row of `runs`,
`jobs` or `tasks`, with the guard under which it does and the row it leaves. `exec_run`, `exec_job` and
`exec_task` say that there is no other way; invariants about rows are proved from them by cases and
look at no statement again.
-/

namespace Pyreljob

open Lib

/-- How a transaction changes the run with the key `i`. -/
inductive RunStep (e : Env) (i : ℕ) : Call → Option RunRow → Option RunRow → Prop
  | same (c : Call) (o : Option RunRow) : RunStep e i c o o
  | enqueued (spec : JobSpec) (scheduledAt : Option Time) (hi : i = e.runId) :
      RunStep e i (.insertJobAndRun spec scheduledAt) none (some (newRun e e.jobId scheduledAt))
  | created (jobId : ℕ) (scheduledAt : Option Time) (hi : i = e.runId) :
      RunStep e i (.createRun jobId scheduledAt) none (some (newRun e jobId scheduledAt))
  | claimed (r : RunRow) (workerId : String) (now leaseExpiry : Time)
      (hr : DB.Claimable now leaseExpiry r) :
      RunStep e i (.claimRun i workerId now leaseExpiry) (some r) (some (DB.claimed workerId now r))
  | renewed (r : RunRow) (workerId : String) (hw : r.workerId = some workerId)
      (hr : r.status = .running) :
      RunStep e i (.renewLease i workerId) (some r)
        (some { r with lockedAt := some e.now, updatedAt := some e.now })
  | completed (r : RunRow) (result : Value) (hr : r.status = .running) :
      RunStep e i (.completeRun i result) (some r)
        (some { r with status := .succeeded, result := some result, finishedAt := some e.now,
                       lockedAt := none, updatedAt := some e.now })
  | retried (r : RunRow) (error : String) (t : Time) (hr : r.status = .running) :
      RunStep e i (.failRun i error (some t)) (some r)
        (some { r with status := .ready, error := some error, scheduledAt := some t,
                       finishedAt := none, lockedAt := none, workerId := none,
                       updatedAt := some e.now })
  | failed (r : RunRow) (error : String) (hr : r.status = .running) :
      RunStep e i (.failRun i error none) (some r)
        (some { r with status := .failed, error := some error, finishedAt := some e.now,
                       lockedAt := none, updatedAt := some e.now })
  | cancelled (r : RunRow) :
      RunStep e i (.cancelRun i) (some r)
        (some { r with status := .cancelled, finishedAt := some e.now, lockedAt := none,
                       updatedAt := some e.now })
  | jobCancelled (r : RunRow) (hr : r.status.inFlight) :
      RunStep e i (.cancelJob r.jobId) (some r)
        (some { r with status := .cancelled, finishedAt := some e.now, lockedAt := none,
                       updatedAt := some e.now })
  | swept (r : RunRow) (now cutoff : Time) (progressCutoff : Option Time)
      (hr : DB.Stale cutoff progressCutoff r) :
      RunStep e i (.reconcileBatch now cutoff progressCutoff) (some r)
        (some { r with status := .failed, error := some DB.abandonedError, finishedAt := some now,
                       updatedAt := some now })
  | ctxSet (r : RunRow) (ctx : CtxDict) :
      RunStep e i (.setRunCtx i ctx) (some r)
        (some { r with ctx := some ctx, updatedAt := some e.now })
  | progressSet (r : RunRow) (progress : Option Rat) :
      RunStep e i (.setRunProgress i progress) (some r)
        (some { r with progress := progress, updatedAt := some e.now })
  | jobDeleted (r : RunRow) : RunStep e i (.deleteJob r.jobId) (some r) none
  | pruned (r : RunRow) (runIds : List ℕ) (hi : i ∈ runIds) :
      RunStep e i (.deleteRuns runIds) (some r) none

/-- How a transaction on `db` changes the job with the key `i`. -/
inductive JobStep (db : DB) (e : Env) (i : ℕ) : Call → Option JobRow → Option JobRow → Prop
  | same (c : Call) (o : Option JobRow) : JobStep db e i c o o
  | enqueued (spec : JobSpec) (scheduledAt : Option Time) (hi : i = e.jobId) :
      JobStep db e i (.insertJobAndRun spec scheduledAt) none (some (spec.row e))
  | scheduled (spec : JobSpec) (hi : i = e.jobId) :
      JobStep db e i (.insertJob spec) none (some (spec.row e))
  | cancelled (j : JobRow) :
      JobStep db e i (.cancelJob i) (some j)
        (some { j with status := .cancelled, updatedAt := some e.now })
  | incremented (j : JobRow) :
      JobStep db e i (.incrementJobAttempts i) (some j)
        (some { j with attempts := j.attempts + 1, updatedAt := some e.now })
  | reset (j : JobRow) :
      JobStep db e i (.resetJobAttempts i) (some j)
        (some { j with attempts := 0, updatedAt := some e.now })
  | fired (j : JobRow) (nextRunAt : Option Time) (hj : db.Fires e.now j) :
      JobStep db e i (.claimScheduled i nextRunAt) (some j)
        (some { j with nextRunAt := nextRunAt, updatedAt := some e.now })
  | revived (j : JobRow) (now cutoff : Time) (progressCutoff : Option Time)
      (hj : DB.Revives (db.staleRuns cutoff progressCutoff) j) :
      JobStep db e i (.reconcileBatch now cutoff progressCutoff) (some j)
        (some { j with nextRunAt := some now, updatedAt := some now })
  | rearmed (j : JobRow) (now cutoff : Time) (hj : db.Orphaned cutoff j) :
      JobStep db e i (.rearmOrphanedJobs now cutoff) (some j)
        (some { j with nextRunAt := some now, updatedAt := some now })
  | armed (j : JobRow) (nextRunAt : Option Time) :
      JobStep db e i (.setNextRunAt i nextRunAt) (some j)
        (some { j with nextRunAt := nextRunAt, updatedAt := some e.now })
  | deleted (j : JobRow) : JobStep db e i (.deleteJob i) (some j) none

/-- How a transaction changes the record with the key `k`. -/
inductive TaskStep (e : Env) (k : ℕ) : Call → Option TaskRow → Option TaskRow → Prop
  | same (c : Call) (o : Option TaskRow) : TaskStep e k c o o
  | inserted (runId position : ℕ) (name : String) (attempts : ℕ) (hk : k = e.taskId) :
      TaskStep e k (.startTask runId position name attempts) none (some
        { id := e.taskId, runId := runId, position := position, taskName := name, status := .running,
          attempts := attempts, createdAt := e.now, updatedAt := some e.now,
          startedAt := some e.now })
  | restarted (t : TaskRow) (name : String) (attempts : ℕ) :
      TaskStep e k (.startTask t.runId t.position name attempts) (some t) (some
        { t with taskName := name, status := .running, result := none, error := none,
                 attempts := attempts, retryAt := none, updatedAt := some e.now,
                 startedAt := some e.now, finishedAt := none })
  | succeeded (t : TaskRow) (result : Value) :
      TaskStep e k (.succeedTask t.runId t.position result) (some t) (some
        { t with status := .succeeded, result := some result, error := none,
                 finishedAt := some e.now, updatedAt := some e.now })
  | failed (t : TaskRow) (error : String) (attempts : ℕ) (retryAt : Option Time) :
      TaskStep e k (.failTask t.runId t.position error attempts retryAt) (some t) (some
        { t with status := .failed, error := some error, attempts := attempts, retryAt := retryAt,
                 finishedAt := some e.now, updatedAt := some e.now })
  | cancelled (t : TaskRow) :
      TaskStep e k (.cancelTask t.runId t.position) (some t) (some
        { t with status := .cancelled, finishedAt := some e.now, updatedAt := some e.now })
  | compensated (t : TaskRow) :
      TaskStep e k (.compensateTask t.runId t.position) (some t) (some
        { t with status := .compensated, compensatedAt := some e.now, updatedAt := some e.now })
  | jobDeleted (t : TaskRow) (jobId : ℕ) : TaskStep e k (.deleteJob jobId) (some t) none
  | pruned (t : TaskRow) (runIds : List ℕ) (hi : t.runId ∈ runIds) :
      TaskStep e k (.deleteRuns runIds) (some t) none

section

variable {db db' : DB} {e : Env} {c : Call} {y : Except Exc c.Reply}

lemma run_id_of_get? {t : Table RunRow} {i : ℕ} {r : RunRow} (h : t.get? i = some r) : r.id = i :=
  Table.key_of_get? h

lemma job_id_of_get? {t : Table JobRow} {i : ℕ} {j : JobRow} (h : t.get? i = some j) : j.id = i :=
  Table.key_of_get? h

lemma stale_of_mem_staleRuns {cutoff : Time} {pc : Option Time} {r : RunRow}
    (h : r ∈ db.staleRuns cutoff pc) : db.runs.get? r.id = some r ∧ DB.Stale cutoff pc r := by
  have h := List.mem_of_mem_take h
  rw [List.mem_insertionSort] at h
  exact Table.mem_select.1 h

/-! ### The three insertions -/

lemma insertJobAndRun_cases {spec : JobSpec} {scheduledAt : Option Time} {y : Except Exc JobRow}
    (h : db.insertJobAndRun e spec scheduledAt = some (db', y)) :
    db' = db ∨ ∃ jobs runs, db.jobs.insert (spec.row e) = some jobs ∧
      db.runs.insert (newRun e e.jobId scheduledAt) = some runs ∧
      db' = { db with jobs := jobs, runs := runs } := by
  unfold DB.insertJobAndRun at h
  split at h
  · cases h
    exact .inl rfl
  · simp only [Option.bind_eq_bind, Option.bind_eq_some_iff, Option.some.injEq, Prod.mk.injEq] at h
    obtain ⟨jobs, hj, runs, hr, rfl, -⟩ := h
    exact .inr ⟨jobs, runs, hj, hr, rfl⟩

lemma insertJob_cases {spec : JobSpec} {y : Except Exc JobRow}
    (h : db.insertJob e spec = some (db', y)) :
    db' = db ∨ ∃ jobs, db.jobs.insert (spec.row e) = some jobs ∧ db' = { db with jobs := jobs } := by
  unfold DB.insertJob at h
  split at h
  · cases h
    exact .inl rfl
  · simp only [Option.bind_eq_bind, Option.bind_eq_some_iff, Option.some.injEq, Prod.mk.injEq] at h
    obtain ⟨jobs, hj, rfl, -⟩ := h
    exact .inr ⟨jobs, hj, rfl⟩

lemma createRun_cases {jobId : ℕ} {scheduledAt : Option Time} {r : RunRow}
    (h : db.createRun e jobId scheduledAt = some (db', r)) :
    ∃ runs, db.runs.insert (newRun e jobId scheduledAt) = some runs ∧
      r = newRun e jobId scheduledAt ∧ db' = { db with runs := runs } := by
  simp only [DB.createRun, Option.bind_eq_bind, Option.bind_eq_some_iff, Option.some.injEq,
    Prod.mk.injEq] at h
  obtain ⟨runs, hr, rfl, rfl⟩ := h
  exact ⟨runs, hr, rfl, rfl⟩

lemma startTask_frame {runId position attempts : ℕ} {name : String} {y : Except Exc Unit}
    (h : db.startTask e runId position name attempts = some (db', y)) :
    db'.jobs = db.jobs ∧ db'.runs = db.runs := by
  unfold DB.startTask at h
  split at h
  · cases h
    exact ⟨rfl, rfl⟩
  · simp only [Option.bind_eq_bind, Option.bind_eq_some_iff, Option.some.injEq, Prod.mk.injEq] at h
    obtain ⟨tasks, -, rfl, -⟩ := h
    exact ⟨rfl, rfl⟩
  · cases h
    exact ⟨rfl, rfl⟩

/-! ### There is no other way -/

lemma RunStep.of_update {o : Option RunRow} {i : ℕ} {p : RunRow → Prop} [DecidablePred p]
    {f : RunRow → RunRow} (h : ∀ r, o = some r → p r → RunStep e i c (some r) (some (f r))) :
    RunStep e i c o (o.map fun r => if p r then f r else r) := by
  cases o with
  | none => exact .same _ _
  | some r =>
    by_cases hp : p r
    · simpa only [Option.map_some, hp, if_true] using h r rfl hp
    · simpa only [Option.map_some, hp, if_false] using .same _ _

lemma RunStep.of_delete {o : Option RunRow} {i : ℕ} {p : RunRow → Prop} [DecidablePred p]
    (h : ∀ r, o = some r → p r → RunStep e i c (some r) none) :
    RunStep e i c o (o.filter fun r => ¬ p r) := by
  cases o with
  | none => exact .same _ _
  | some r =>
    by_cases hp : p r
    · simpa [Option.filter, hp] using h r rfl hp
    · simpa [Option.filter, hp] using RunStep.same c (some r)

lemma RunStep.of_insert {t t' : Table RunRow} {r : RunRow} (ht : t.insert r = some t') (i : ℕ)
    (h : i = r.id → RunStep e i c none (some r)) : RunStep e i c (t.get? i) (t'.get? i) := by
  rcases Table.get?_insert_cases ht i with hs | ⟨hi, hn, hs⟩
  · rw [hs]
    exact .same _ _
  · rw [hn, hs]
    exact h hi

/-- **The only ways a transaction changes a run.** -/
theorem exec_run (h : c.exec db e = some (db', y)) (i : ℕ) :
    RunStep e i c (db.runs.get? i) (db'.runs.get? i) := by
  cases c with
  | insertJobAndRun spec scheduledAt =>
    rcases insertJobAndRun_cases h with rfl | ⟨jobs, runs, -, hr, rfl⟩
    · exact .same _ _
    · exact .of_insert hr i fun hi => .enqueued spec scheduledAt hi
  | insertJob spec =>
    rcases insertJob_cases h with rfl | ⟨jobs, -, rfl⟩ <;> exact .same _ _
  | createRun jobId scheduledAt =>
    simp only [Call.exec, Option.bind_eq_bind, Option.bind_eq_some_iff, Option.some.injEq,
      Prod.mk.injEq, Prod.exists] at h
    obtain ⟨_, _, h, rfl, -⟩ := h
    obtain ⟨runs, hr, -, rfl⟩ := createRun_cases h
    exact .of_insert hr i fun hi => .created jobId scheduledAt hi
  | startTask runId position name attempts =>
    rw [(startTask_frame h).2]
    exact .same _ _
  | cancelJob jobId =>
    cases h
    simp only [DB.cancelJob, Table.get?_update]
    exact .of_update fun r _ hm => hm.1 ▸ .jobCancelled r hm.2
  | deleteJob jobId =>
    cases h
    simp only [DB.deleteJob]
    split
    · exact .same _ _
    · rw [Table.get?_delete]
      exact .of_delete fun r _ hj => hj ▸ .jobDeleted r
  | deleteRuns runIds =>
    cases h
    simp only [DB.deleteRuns, Table.get?_delete]
    exact .of_delete fun r hr hi => .pruned r runIds (run_id_of_get? hr ▸ hi)
  | reconcileBatch now cutoff progressCutoff =>
    cases h
    rw [Table.get?_update]
    refine .of_update fun r hr hm => ?_
    obtain ⟨r', hr', hid⟩ := List.mem_map.1 hm.1
    obtain ⟨hg, hs⟩ := stale_of_mem_staleRuns hr'
    rw [hid, run_id_of_get? hr, hr] at hg
    cases hg
    exact .swept r now cutoff progressCutoff hs
  | claimRun runId workerId now leaseExpiry =>
    cases h
    rw [Table.get?_update]
    refine .of_update fun r hr hm => ?_
    obtain ⟨hi, hc⟩ := hm
    obtain rfl : i = runId := (run_id_of_get? hr).symm.trans hi
    exact .claimed r workerId now leaseExpiry hc
  | renewLease runId workerId =>
    cases h
    rw [Table.get?_update]
    refine .of_update fun r hr hm => ?_
    obtain ⟨hi, hw, hs⟩ := hm
    obtain rfl : i = runId := (run_id_of_get? hr).symm.trans hi
    exact .renewed r workerId hw hs
  | completeRun runId result =>
    cases h
    simp only [DB.completeRun, Table.get?_update]
    refine .of_update fun r hr hm => ?_
    obtain ⟨hi, hs⟩ := hm
    obtain rfl : i = runId := (run_id_of_get? hr).symm.trans hi
    exact .completed r result hs
  | failRun runId error retryAt =>
    cases h
    cases retryAt with
    | some t =>
      simp only [DB.failRun, Table.get?_update]
      refine .of_update fun r hr hm => ?_
      obtain ⟨hi, hs⟩ := hm
      obtain rfl : i = runId := (run_id_of_get? hr).symm.trans hi
      exact .retried r error t hs
    | none =>
      simp only [DB.failRun, Table.get?_update]
      refine .of_update fun r hr hm => ?_
      obtain ⟨hi, hs⟩ := hm
      obtain rfl : i = runId := (run_id_of_get? hr).symm.trans hi
      exact .failed r error hs
  | cancelRun runId =>
    cases h
    simp only [DB.cancelRun, Table.get?_update]
    refine .of_update fun r hr hi => ?_
    obtain rfl : i = runId := (run_id_of_get? hr).symm.trans hi
    exact .cancelled r
  | setRunCtx runId ctx =>
    cases h
    simp only [DB.setRunCtx, Table.get?_update]
    refine .of_update fun r hr hi => ?_
    obtain rfl : i = runId := (run_id_of_get? hr).symm.trans hi
    exact .ctxSet r ctx
  | setRunProgress runId progress =>
    cases h
    simp only [DB.setRunProgress, Table.get?_update]
    refine .of_update fun r hr hi => ?_
    obtain rfl : i = runId := (run_id_of_get? hr).symm.trans hi
    exact .progressSet r progress
  | _ =>
    cases h
    exact .same _ _

lemma JobStep.of_update {o : Option JobRow} {i : ℕ} {p : JobRow → Prop} [DecidablePred p]
    {f : JobRow → JobRow} (h : ∀ j, o = some j → p j → JobStep db e i c (some j) (some (f j))) :
    JobStep db e i c o (o.map fun j => if p j then f j else j) := by
  cases o with
  | none => exact .same _ _
  | some j =>
    by_cases hp : p j
    · simpa only [Option.map_some, hp, if_true] using h j rfl hp
    · simpa only [Option.map_some, hp, if_false] using .same _ _

lemma JobStep.of_insert {t t' : Table JobRow} {j : JobRow} (ht : t.insert j = some t') (i : ℕ)
    (h : i = j.id → JobStep db e i c none (some j)) :
    JobStep db e i c (t.get? i) (t'.get? i) := by
  rcases Table.get?_insert_cases ht i with hs | ⟨hi, hn, hs⟩
  · rw [hs]
    exact .same _ _
  · rw [hn, hs]
    exact h hi

/-- **The only ways a transaction changes a job.** -/
theorem exec_job (h : c.exec db e = some (db', y)) (i : ℕ) :
    JobStep db e i c (db.jobs.get? i) (db'.jobs.get? i) := by
  cases c with
  | insertJobAndRun spec scheduledAt =>
    rcases insertJobAndRun_cases h with rfl | ⟨jobs, runs, hj, -, rfl⟩
    · exact .same _ _
    · exact .of_insert hj i fun hi => .enqueued spec scheduledAt hi
  | insertJob spec =>
    rcases insertJob_cases h with rfl | ⟨jobs, hj, rfl⟩
    · exact .same _ _
    · exact .of_insert hj i fun hi => .scheduled spec hi
  | createRun jobId scheduledAt =>
    simp only [Call.exec, Option.bind_eq_bind, Option.bind_eq_some_iff, Option.some.injEq,
      Prod.mk.injEq, Prod.exists] at h
    obtain ⟨_, _, h, rfl, -⟩ := h
    obtain ⟨runs, -, -, rfl⟩ := createRun_cases h
    exact .same _ _
  | startTask runId position name attempts =>
    rw [(startTask_frame h).1]
    exact .same _ _
  | cancelJob jobId =>
    cases h
    simp only [DB.cancelJob, Table.get?_update]
    refine .of_update fun j hj hi => ?_
    obtain rfl : i = jobId := (job_id_of_get? hj).symm.trans hi
    exact .cancelled j
  | incrementJobAttempts jobId =>
    cases h
    rw [Table.get?_update]
    refine .of_update fun j hj hi => ?_
    obtain rfl : i = jobId := (job_id_of_get? hj).symm.trans hi
    exact .incremented j
  | resetJobAttempts jobId =>
    cases h
    simp only [DB.resetJobAttempts, Table.get?_update]
    refine .of_update fun j hj hi => ?_
    obtain rfl : i = jobId := (job_id_of_get? hj).symm.trans hi
    exact .reset j
  | claimScheduled jobId nextRunAt =>
    cases h
    rw [Table.get?_update]
    refine .of_update fun j hj ⟨hi, hf⟩ => ?_
    obtain rfl : i = jobId := (job_id_of_get? hj).symm.trans hi
    exact .fired j nextRunAt hf
  | reconcileBatch now cutoff progressCutoff =>
    cases h
    rw [Table.get?_update]
    exact .of_update fun j _ hj => .revived j now cutoff progressCutoff hj
  | rearmOrphanedJobs now cutoff =>
    cases h
    rw [Table.get?_update]
    exact .of_update fun j _ hj => .rearmed j now cutoff hj
  | setNextRunAt jobId nextRunAt =>
    cases h
    simp only [DB.setNextRunAt, Table.get?_update]
    refine .of_update fun j hj hi => ?_
    obtain rfl : i = jobId := (job_id_of_get? hj).symm.trans hi
    exact .armed j nextRunAt
  | deleteJob jobId =>
    cases h
    simp only [DB.deleteJob, Table.get?_delete]
    cases hj : db.jobs.get? i with
    | none => exact .same _ _
    | some j =>
      by_cases hi : j.id = jobId
      · obtain rfl : i = jobId := (job_id_of_get? hj).symm.trans hi
        simpa [Option.filter, hi] using JobStep.deleted j
      · simpa [Option.filter, hi] using JobStep.same _ (some j)
  | failRun runId error retryAt =>
    cases h
    cases retryAt <;> exact .same _ _
  | _ =>
    cases h
    exact .same _ _

lemma TaskStep.of_update {o : Option TaskRow} {k : ℕ} {runId position : ℕ} {f : TaskRow → TaskRow}
    (h : ∀ t, t.runId = runId → t.position = position → TaskStep e k c (some t) (some (f t))) :
    TaskStep e k c o (o.map fun t => if DB.At runId position t then f t else t) := by
  cases o with
  | none => exact .same _ _
  | some t =>
    by_cases hat : DB.At runId position t
    · simpa only [Option.map_some, hat, if_true] using h t hat.1 hat.2
    · simpa only [Option.map_some, hat, if_false] using .same _ _

/-- **The only ways a transaction changes a record.** -/
theorem exec_task (h : c.exec db e = some (db', y)) (k : ℕ) :
    TaskStep e k c (db.tasks.get? k) (db'.tasks.get? k) := by
  cases c with
  | insertJobAndRun spec scheduledAt =>
    rcases insertJobAndRun_cases h with rfl | ⟨jobs, runs, -, -, rfl⟩ <;> exact .same _ _
  | insertJob spec =>
    rcases insertJob_cases h with rfl | ⟨jobs, -, rfl⟩ <;> exact .same _ _
  | createRun jobId scheduledAt =>
    simp only [Call.exec, Option.bind_eq_bind, Option.bind_eq_some_iff, Option.some.injEq,
      Prod.mk.injEq, Prod.exists] at h
    obtain ⟨_, _, h, rfl, -⟩ := h
    obtain ⟨runs, -, -, rfl⟩ := createRun_cases h
    exact .same _ _
  | startTask runId position name attempts =>
    simp only [Call.exec] at h
    unfold DB.startTask at h
    split at h
    · cases h
      exact .same _ _
    · simp only [Option.bind_eq_bind, Option.bind_eq_some_iff, Option.some.injEq, Prod.mk.injEq] at h
      obtain ⟨tasks, ht, rfl, -⟩ := h
      rcases Table.get?_insert_cases ht k with hs | ⟨hk, hn, hs⟩
      · rw [hs]
        exact .same _ _
      · rw [hn, hs]
        exact .inserted runId position name attempts hk
    · cases h
      rw [Table.get?_update]
      refine .of_update ?_
      rintro t rfl rfl
      exact .restarted t name attempts
  | succeedTask runId position result =>
    cases h
    simp only [DB.succeedTask, Table.get?_update]
    refine .of_update ?_
    rintro t rfl rfl
    exact .succeeded t result
  | failTask runId position error attempts retryAt =>
    cases h
    simp only [DB.failTask, Table.get?_update]
    refine .of_update ?_
    rintro t rfl rfl
    exact .failed t error attempts retryAt
  | cancelTask runId position =>
    cases h
    simp only [DB.cancelTask, Table.get?_update]
    refine .of_update ?_
    rintro t rfl rfl
    exact .cancelled t
  | compensateTask runId position =>
    cases h
    simp only [DB.compensateTask, Table.get?_update]
    refine .of_update ?_
    rintro t rfl rfl
    exact .compensated t
  | deleteJob jobId =>
    cases h
    simp only [DB.deleteJob]
    split
    · exact .same _ _
    · rw [Table.get?_delete]
      cases db.tasks.get? k with
      | none => exact .same _ _
      | some t =>
        simp only [Option.filter_some]
        split
        · exact .same _ _
        · exact .jobDeleted t jobId
  | deleteRuns runIds =>
    cases h
    simp only [DB.deleteRuns, Table.get?_delete]
    cases db.tasks.get? k with
    | none => exact .same _ _
    | some t =>
      by_cases hi : t.runId ∈ runIds
      · simpa [Option.filter, hi] using TaskStep.pruned t runIds hi
      · simpa [Option.filter, hi] using TaskStep.same _ (some t)
  | failRun runId error retryAt =>
    cases h
    cases retryAt <;> exact .same _ _
  | _ =>
    cases h
    exact .same _ _

/-! ### What follows about the columns others rely on -/

lemma TaskStep.place {k : ℕ} {o : Option TaskRow} {t' : TaskRow} (h : TaskStep e k c o (some t')) :
    o = none ∨ ∃ t, o = some t ∧ t.runId = t'.runId ∧ t.position = t'.position := by
  cases h with
  | inserted => exact .inl rfl
  | _ => exact .inr ⟨_, rfl, rfl, rfl⟩

lemma TaskStep.marked {k : ℕ} {o : Option TaskRow} {t' : TaskRow} (h : TaskStep e k c o (some t'))
    (ht' : t'.status = .compensated) :
    (∃ t, o = some t ∧ t.status = .compensated) ∨ c = .compensateTask t'.runId t'.position := by
  cases h with
  | same => exact .inl ⟨t', rfl, ht'⟩
  | compensated t => exact .inr rfl
  | _ => cases ht'

/-- The transaction creates a run of the job, under the key it was given. -/
def Creates (e : Env) (i j : ℕ) (c : Call) : Prop :=
  i = e.runId ∧ ((j = e.jobId ∧ ∃ spec t, c = .insertJobAndRun spec t) ∨ ∃ t, c = .createRun j t)

lemma RunStep.jobId {i : ℕ} {o : Option RunRow} {r' : RunRow} (h : RunStep e i c o (some r')) :
    (o = none ∧ Creates e i r'.jobId c) ∨ ∃ r, o = some r ∧ r.jobId = r'.jobId := by
  cases h with
  | enqueued spec t hi => exact .inl ⟨rfl, hi, .inl ⟨rfl, spec, t, rfl⟩⟩
  | created jobId t hi => exact .inl ⟨rfl, hi, .inr ⟨t, rfl⟩⟩
  | _ => exact .inr ⟨_, rfl, rfl⟩

/-- A run in flight was in flight before, for the same job, or is new. -/
lemma RunStep.inFlight {i : ℕ} {o : Option RunRow} {r' : RunRow} (h : RunStep e i c o (some r'))
    (hr' : r'.status.inFlight) :
    (o = none ∧ Creates e i r'.jobId c) ∨
      ∃ r, o = some r ∧ r.status.inFlight ∧ r.jobId = r'.jobId := by
  cases h with
  | same => exact .inr ⟨r', rfl, hr', rfl⟩
  | enqueued spec t hi => exact .inl ⟨rfl, hi, .inl ⟨rfl, spec, t, rfl⟩⟩
  | created jobId t hi => exact .inl ⟨rfl, hi, .inr ⟨t, rfl⟩⟩
  | claimed r workerId now leaseExpiry hr =>
    refine .inr ⟨r, rfl, ?_, rfl⟩
    rcases hr with ⟨hs, -⟩ | ⟨hs, -⟩ <;> simp [hs, RunStatus.inFlight]
  | renewed r | retried r | ctxSet r | progressSet r =>
    first
      | exact .inr ⟨r, rfl, hr', rfl⟩
      | exact .inr ⟨r, rfl, by simp [RunStatus.inFlight, *], rfl⟩
  | completed | failed | cancelled | jobCancelled | swept => cases hr'

/-- A ready run was ready before, is new, or was given back by `fail_run`. -/
lemma RunStep.ready {i : ℕ} {o : Option RunRow} {r' : RunRow} (h : RunStep e i c o (some r'))
    (hr' : r'.status = .ready) : (o = none ∧ i = e.runId) ∨ (∃ r, o = some r ∧ r.status = .ready) ∨
      ∃ r error t, o = some r ∧ r.status = .running ∧ c = .failRun i error (some t) := by
  cases h with
  | same => exact .inr (.inl ⟨r', rfl, hr'⟩)
  | enqueued spec scheduledAt hi => exact .inl ⟨rfl, hi⟩
  | created jobId scheduledAt hi => exact .inl ⟨rfl, hi⟩
  | retried r error t hr => exact .inr (.inr ⟨r, error, t, rfl, hr, rfl⟩)
  | renewed r | ctxSet r | progressSet r => exact .inr (.inl ⟨r, rfl, hr'⟩)
  | claimed | completed | failed | cancelled | jobCancelled | swept => cases hr'

/-- A running run was running before, for the same worker and on the same lock, or this is a claim
of it or a renewal. -/
lemma RunStep.running {i : ℕ} {o : Option RunRow} {r' : RunRow} (h : RunStep e i c o (some r'))
    (hr' : r'.status = .running) :
    (∃ r, o = some r ∧ r.status = .running ∧ r.workerId = r'.workerId ∧ r.lockedAt = r'.lockedAt) ∨
      (∃ r w now le, o = some r ∧ c = .claimRun i w now le ∧ r' = DB.claimed w now r) ∨
      ∃ r w, o = some r ∧ c = .renewLease i w ∧ r.status = .running ∧ r.workerId = r'.workerId := by
  cases h with
  | same => exact .inl ⟨r', rfl, hr', rfl, rfl⟩
  | claimed r w now le hr => exact .inr (.inl ⟨r, w, now, le, rfl, rfl, rfl⟩)
  | renewed r w hw hr => exact .inr (.inr ⟨r, w, rfl, rfl, hr, rfl⟩)
  | ctxSet r | progressSet r => exact .inl ⟨r, rfl, hr', rfl, rfl⟩
  | enqueued | created | completed | retried | failed | cancelled | jobCancelled | swept =>
    cases hr'

/-- A run that is done keeps its status, result and error, unless it is deleted, or is cancelled
although it has succeeded or failed. -/
lemma RunStep.done {i : ℕ} {r : RunRow} {o' : Option RunRow} (h : RunStep e i c (some r) o')
    (hd : r.status.isDone) :
    (∃ r', o' = some r' ∧ r'.status = r.status ∧ r'.result = r.result ∧ r'.error = r.error) ∨
      (o' = none ∧ ((∃ j, c = .deleteJob j) ∨ ∃ ids, c = .deleteRuns ids)) ∨
      (c = .cancelRun i ∧ (r.status = .succeeded ∨ r.status = .failed)) := by
  cases h with
  | same => exact .inl ⟨r, rfl, rfl, rfl, rfl⟩
  | claimed _ w now le hr => rcases hr with ⟨hs, -⟩ | ⟨hs, -⟩ <;> simp [hs, RunStatus.isDone] at hd
  | renewed _ w hw hr => simp [hr, RunStatus.isDone] at hd
  | completed _ result hr => simp [hr, RunStatus.isDone] at hd
  | retried _ error t hr => simp [hr, RunStatus.isDone] at hd
  | failed _ error hr => simp [hr, RunStatus.isDone] at hd
  | swept _ now cutoff pc hr => simp [hr.1, RunStatus.isDone] at hd
  | jobCancelled _ hr =>
    rw [RunStatus.isDone_eq_not_inFlight, hr] at hd
    cases hd
  | cancelled =>
    cases hs : r.status with
    | ready | running => simp [hs, RunStatus.isDone] at hd
    | succeeded => exact .inr (.inr ⟨rfl, .inl rfl⟩)
    | failed => exact .inr (.inr ⟨rfl, .inr rfl⟩)
    | cancelled => exact .inl ⟨_, rfl, rfl, rfl, rfl⟩
  | ctxSet | progressSet => exact .inl ⟨_, rfl, rfl, rfl, rfl⟩
  | jobDeleted => exact .inr (.inl ⟨rfl, .inl ⟨_, rfl⟩⟩)
  | pruned _ runIds hi => exact .inr (.inl ⟨rfl, .inr ⟨_, rfl⟩⟩)

lemma JobStep.status {i : ℕ} {j : JobRow} {o' : Option JobRow} (h : JobStep db e i c (some j) o') :
    (∃ j', o' = some j' ∧ j'.status = j.status) ∨ c = .cancelJob i ∨ c = .deleteJob i := by
  cases h with
  | cancelled => exact .inr (.inl rfl)
  | deleted => exact .inr (.inr rfl)
  | _ => exact .inl ⟨_, rfl, rfl⟩

lemma JobStep.known {i : ℕ} {o : Option JobRow} {j' : JobRow} (h : JobStep db e i c o (some j')) :
    (∃ j, o = some j) ∨ i = e.jobId := by
  cases h with
  | enqueued _ _ hi | scheduled _ hi => exact .inr hi
  | _ => exact .inl ⟨_, rfl⟩

lemma JobStep.active {i : ℕ} {j j' : JobRow} (h : JobStep db e i c (some j) (some j'))
    (hj' : j'.status = .active) : j.status = .active := by
  cases h with
  | cancelled => cases hj'
  | _ => exact hj'

lemma JobStep.cancelled_before {i : ℕ} {o : Option JobRow} {j' : JobRow}
    (h : JobStep db e i c o (some j')) (hj' : j'.status = .cancelled) :
    (∃ j, o = some j ∧ j.status = .cancelled) ∨ c = .cancelJob i := by
  cases h with
  | cancelled => exact .inr rfl
  | enqueued | scheduled => cases hj'
  | _ => exact .inl ⟨_, rfl, hj'⟩

/-- A job that is disarmed stays so, and is stamped at worst with the time of the transaction,
unless one of the four statements that arm a job meets it. -/
lemma JobStep.timer {i : ℕ} {j j' : JobRow} (h : JobStep db e i c (some j) (some j')) :
    (j'.nextRunAt = j.nextRunAt ∧ (j'.updatedAt = j.updatedAt ∨ j'.updatedAt = some e.now)) ∨
      (db.Fires e.now j ∧ ∃ t, c = .claimScheduled i t ∧ j'.nextRunAt = t ∧
        j'.updatedAt = some e.now) ∨
      (∃ now cutoff pc, c = .reconcileBatch now cutoff pc ∧
        DB.Revives (db.staleRuns cutoff pc) j) ∨
      (∃ now cutoff, c = .rearmOrphanedJobs now cutoff ∧ db.Orphaned cutoff j) ∨
      ∃ t, c = .setNextRunAt i t := by
  cases h with
  | same => exact .inl ⟨rfl, .inl rfl⟩
  | cancelled | incremented | reset => exact .inl ⟨rfl, .inr rfl⟩
  | fired _ t hj => exact .inr (.inl ⟨hj, t, rfl, rfl, rfl⟩)
  | revived _ now cutoff pc hj => exact .inr (.inr (.inl ⟨now, cutoff, pc, rfl, hj⟩))
  | rearmed _ now cutoff hj => exact .inr (.inr (.inr (.inl ⟨now, cutoff, rfl, hj⟩)))
  | armed _ t => exact .inr (.inr (.inr (.inr ⟨t, rfl⟩)))

/-- A run that has failed, was given back, completed or cancelled does not run any more. -/
lemma exec_settles {i : ℕ} {r : RunRow} (h : c.exec db e = some (db', y))
    (hc : (∃ error t, c = .failRun i error t) ∨ (∃ v, c = .completeRun i v) ∨ c = .cancelRun i)
    (hr : db'.runs.get? i = some r) : r.status ≠ .running := by
  rcases hc with ⟨error, _ | t, rfl⟩ | ⟨v, rfl⟩ | rfl
  all_goals
    cases h
    simp only [DB.failRun, DB.completeRun, DB.cancelRun, Table.get?_update,
      Option.map_eq_some_iff] at hr
    obtain ⟨r₀, hr₀, rfl⟩ := hr
    have hi := run_id_of_get? hr₀
    by_cases hs : r₀.status = .running <;> simp [hi, hs]

lemma not_inFlight_of_hasActiveRun {i j : ℕ} {r : RunRow} (h : db.hasActiveRun j = false)
    (hr : db.runs.get? i = some r) (hj : r.jobId = j) : ¬ r.status.inFlight := by
  intro hfl
  have := List.any_eq_false.1 h r (Table.mem_of_get? hr)
  simp [hj, hfl] at this

lemma cancelJob_settles {now : Time} {j i : ℕ} {r : RunRow}
    (h : (db.cancelJob now j).runs.get? i = some r) (hj : r.jobId = j) : ¬ r.status.inFlight := by
  simp only [DB.cancelJob, Table.get?_update, Option.map_eq_some_iff] at h
  obtain ⟨r₀, -, rfl⟩ := h
  by_cases hp : r₀.jobId = j ∧ r₀.status.inFlight
  · rw [if_pos hp]
    simp [RunStatus.inFlight]
  · rw [if_neg hp] at hj ⊢
    exact fun hf => hp ⟨hj, hf⟩

lemma deleteJob_removes {j i : ℕ} {r : RunRow} (h : (db.deleteJob j).runs.get? i = some r) :
    r.jobId ≠ j := by
  intro hj
  simp only [DB.deleteJob] at h
  split at h
  · rename_i hnil
    have hm : r ∈ db.runs.select fun r => r.jobId = j := by
      rw [Table.mem_select, RunRow.key_eq, run_id_of_get? h]
      exact ⟨h, hj⟩
    rw [List.map_eq_nil_iff.1 hnil] at hm
    cases hm
  · simp only [Table.get?_delete, Option.filter_eq_some_iff] at h
    simp [hj] at h

/-- The sequence of the run keys does not go back, and stays above every key in use. -/
lemma exec_runs_seq (h : c.exec db e = some (db', y)) : db.runs.seq ≤ db'.runs.seq := by
  cases c with
  | insertJobAndRun spec scheduledAt =>
    rcases insertJobAndRun_cases h with rfl | ⟨jobs, runs, -, hr, rfl⟩
    · exact le_rfl
    · simpa only [Table.seq_insert hr] using Nat.le_max_left _ _
  | insertJob spec =>
    rcases insertJob_cases h with rfl | ⟨jobs, -, rfl⟩ <;> exact le_rfl
  | createRun jobId scheduledAt =>
    simp only [Call.exec, Option.bind_eq_bind, Option.bind_eq_some_iff, Option.some.injEq,
      Prod.mk.injEq, Prod.exists] at h
    obtain ⟨_, _, h, rfl, -⟩ := h
    obtain ⟨runs, hr, -, rfl⟩ := createRun_cases h
    simpa only [Table.seq_insert hr] using Nat.le_max_left _ _
  | startTask runId position name attempts => rw [(startTask_frame h).2]
  | deleteJob jobId =>
    cases h
    simp only [DB.deleteJob]
    split <;> exact le_rfl
  | failRun runId error retryAt =>
    cases h
    cases retryAt <;> exact le_rfl
  | _ =>
    cases h
    exact le_rfl

lemma exec_jobs_seq (h : c.exec db e = some (db', y)) : db.jobs.seq ≤ db'.jobs.seq := by
  cases c with
  | insertJobAndRun spec scheduledAt =>
    rcases insertJobAndRun_cases h with rfl | ⟨jobs, runs, hj, -, rfl⟩
    · exact le_rfl
    · simpa only [Table.seq_insert hj] using Nat.le_max_left _ _
  | insertJob spec =>
    rcases insertJob_cases h with rfl | ⟨jobs, hj, rfl⟩
    · exact le_rfl
    · simpa only [Table.seq_insert hj] using Nat.le_max_left _ _
  | createRun jobId scheduledAt =>
    simp only [Call.exec, Option.bind_eq_bind, Option.bind_eq_some_iff, Option.some.injEq,
      Prod.mk.injEq, Prod.exists] at h
    obtain ⟨_, _, h, rfl, -⟩ := h
    obtain ⟨runs, -, -, rfl⟩ := createRun_cases h
    exact le_rfl
  | startTask runId position name attempts => rw [(startTask_frame h).1]
  | failRun runId error retryAt =>
    cases h
    cases retryAt <;> exact le_rfl
  | _ =>
    cases h
    exact le_rfl

/-! ### The two updates that say whether they won -/

/-- The conditional update of a claim wins the run, or finds nothing to win and changes nothing. -/
lemma claimRun_cases (db : DB) (i : ℕ) (workerId : String) (now leaseExpiry : Time) :
    (∃ r, db.runs.get? i = some r ∧ DB.Claimable now leaseExpiry r ∧
      (db.claimRun i workerId now leaseExpiry).2 = some (DB.claimed workerId now r) ∧
      (db.claimRun i workerId now leaseExpiry).1.runs.get? i = some (DB.claimed workerId now r)) ∨
    ((db.claimRun i workerId now leaseExpiry).2 = none ∧
      (db.claimRun i workerId now leaseExpiry).1 = db) := by
  have hmiss : (∀ r, db.runs.get? i = some r → ¬ DB.Claimable now leaseExpiry r) →
      (db.claimRun i workerId now leaseExpiry).1 = db := by
    intro h
    simp only [DB.claimRun]
    rw [Table.update_of_not]
    rintro r hr ⟨rfl, hc⟩
    exact h r (Table.get?_of_mem hr) hc
  cases hr : db.runs.get? i with
  | none =>
    refine .inr ⟨by simp [DB.claimRun, hr], hmiss fun r h => ?_⟩
    rw [hr] at h
    cases h
  | some r =>
    by_cases hc : DB.Claimable now leaseExpiry r
    · refine .inl ⟨r, rfl, hc, by simp [DB.claimRun, hr, hc, Option.filter], ?_⟩
      simp [DB.claimRun, hr, hc, run_id_of_get? hr]
    · refine .inr ⟨by simp [DB.claimRun, hr, hc, Option.filter], hmiss fun r' h => ?_⟩
      rw [hr] at h
      cases h
      exact hc

/-- A renewal finds the run in the worker's hands, or changes nothing. -/
lemma renewLease_cases (db : DB) (now : Time) (i : ℕ) (workerId : String) :
    (∃ r, db.runs.get? i = some r ∧ r.workerId = some workerId ∧ r.status = .running ∧
      (db.renewLease now i workerId).2 = true ∧
      (db.renewLease now i workerId).1.runs.get? i =
        some { r with lockedAt := some now, updatedAt := some now }) ∨
    ((db.renewLease now i workerId).2 = false ∧ (db.renewLease now i workerId).1 = db) := by
  have hmiss : (∀ r, db.runs.get? i = some r →
      ¬ (r.workerId = some workerId ∧ r.status = .running)) →
      (db.renewLease now i workerId).1 = db := by
    intro h
    simp only [DB.renewLease]
    rw [Table.update_of_not]
    rintro r hr ⟨rfl, hc⟩
    exact h r (Table.get?_of_mem hr) hc
  cases hr : db.runs.get? i with
  | none =>
    refine .inr ⟨by simp [DB.renewLease, hr], hmiss fun r h => ?_⟩
    rw [hr] at h
    cases h
  | some r =>
    have hid := run_id_of_get? hr
    by_cases hc : r.workerId = some workerId ∧ r.status = .running
    · refine .inl ⟨r, rfl, hc.1, hc.2, by simp [DB.renewLease, hr, hc, hid], ?_⟩
      simp [DB.renewLease, hr, hc, hid]
    · refine .inr ⟨?_, hmiss fun r' h => ?_⟩
      · simp [DB.renewLease, hr, hid]
        simpa using hc
      · rw [hr] at h
        cases h
        exact hc

end

end Pyreljob
