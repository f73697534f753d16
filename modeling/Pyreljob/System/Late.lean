import Pyreljob.Model.System
import Pyreljob.Store.Integrity

/-!
Writes that come too late.

`create_run` and `start_task` insert a row for an id that their component was given earlier, in
another transaction. Between the two a client may have cancelled or deleted the job, and neither
statement looks at it again. So a cancelled job can get a run, and a row can name one that is gone.
Nothing else can do this, as the two theorems here say.
-/

namespace Pyreljob

open Lib Relation

/-! ### The transaction of an act -/

def committing (p : System) : Act → Option Call
  | .act pid (.commit _) =>
    match p.pending pid with
    | some (.db c) => some c
    | _ => none
  | _ => none

section

variable {p p' : System} {l : Act}

/-- One act: the database stays, or the transaction that commits is executed. -/
lemma committing_cases (h : Pool.step answer Kind.program p l = some p') :
    p'.shared = p.shared ∨
      ∃ c e y, committing p l = some c ∧ c.exec p.shared e = some (p'.shared, y) := by
  rcases System.step_cases h with hsame | ⟨pid, c, e, y, rfl, hasks, hx, -⟩
  · exact .inl hsame
  · exact .inr ⟨c, e, y, by simp [committing, hasks], hx⟩

lemma exec_of_committing (h : Pool.step answer Kind.program p l = some p') {c : Call}
    (hc : committing p l = some c) :
    ∃ (e : Env) (y : Except Exc c.Reply), c.exec p.shared e = some (p'.shared, y) := by
  unfold committing at hc
  split at hc
  · split at hc
    · rename_i hasks
      cases hc
      obtain ⟨c, y, hasks', hx, -⟩ := System.step_commit h
      rw [hasks] at hasks'
      cases hasks'
      exact ⟨_, y, hx⟩
    · cases hc
  · cases hc

end

/-! ### Cancelled jobs -/

/-- No run of a cancelled job is ready or running. -/
def Stopped (db : DB) : Prop :=
  ∀ j, db.isJobCancelled j → ∀ r ∈ db.runs.rows, r.jobId = j → ¬ r.status.inFlight

/-- The transaction creates a run for a job that is cancelled. -/
def DB.restarts (db : DB) : Call → Bool
  | .createRun jobId _ => db.isJobCancelled jobId
  | _ => false

lemma isJobCancelled_iff {db : DB} {j : ℕ} :
    db.isJobCancelled j ↔ ∃ job, db.jobs.get? j = some job ∧ job.status = .cancelled := by
  simp [DB.isJobCancelled, Option.any_eq_true]

section

variable {db db' : DB} {e : Env} {c : Call} {y : Except Exc c.Reply}

lemma Stopped.step (hs : Stopped db) (h : c.exec db e = some (db', y))
    (hc : db.restarts c = false) : Stopped db' := by
  intro j hj r hr hrj hfl
  obtain ⟨job', hjob', hst'⟩ := isJobCancelled_iff.1 hj
  have hjobs := exec_job h j
  rw [hjob'] at hjobs
  have hruns := exec_run h r.id
  rw [show db'.runs.get? r.id = some r from Table.get?_of_mem hr] at hruns
  rcases hjobs.cancelled_before hst' with ⟨job, hjob, hst⟩ | rfl
  · have hcan : db.isJobCancelled j := isJobCancelled_iff.2 ⟨job, hjob, hst⟩
    rcases hruns.inFlight hfl with ⟨-, -, ⟨hid, spec, t, rfl⟩ | ⟨t, rfl⟩⟩ | ⟨r₀, hr₀, hfl₀, hj₀⟩
    · -- the key of a job that is inserted was free
      rcases insertJobAndRun_cases h with rfl | ⟨jobs, runs, hjobs', -, rfl⟩
      · exact hs j hcan r hr hrj hfl
      · have hfree := Table.get?_insert_key hjobs'
        rw [show Keyed.key (spec.row e) = j from hid.symm.trans hrj, hjob] at hfree
        cases hfree
    · simp [DB.restarts, hrj, hcan] at hc
    · exact hs j hcan r₀ (Table.mem_of_get? hr₀) (hj₀.trans hrj) hfl₀
  · cases h
    exact cancelJob_settles (Table.get?_of_mem hr) hrj hfl

lemma Stopped.broken (h : c.exec db e = some (db', y)) (hc : db.restarts c) : ¬ Stopped db' := by
  intro hs'
  unfold DB.restarts at hc
  split at hc
  · rename_i jobId scheduledAt
    simp only [Call.exec, Option.bind_eq_bind, Option.bind_eq_some_iff, Option.some.injEq,
      Prod.mk.injEq, Prod.exists] at h
    obtain ⟨_, _, h, rfl, -⟩ := h
    obtain ⟨runs, hruns, -, rfl⟩ := createRun_cases h
    have hnew : newRun e jobId scheduledAt ∈ runs.rows := by
      rw [Table.rows_insert hruns]
      simp
    exact hs' jobId hc _ hnew rfl rfl
  · cases hc

/-- **Which transactions keep cancelled jobs stopped**: those that create no run for one. -/
theorem exec_stopped (hs : Stopped db) (h : c.exec db e = some (db', y)) :
    Stopped db' ↔ db.restarts c = false := by
  refine ⟨fun hs' => ?_, hs.step h⟩
  by_contra hc
  exact Stopped.broken h (by simpa using hc) hs'

end

/-- No `create_run` commits for a job that is cancelled. -/
def NoRestart (p : System) (l : Act) : Prop := (committing p l).any p.shared.restarts = false

instance (p : System) (l : Act) : Decidable (NoRestart p l) :=
  inferInstanceAs (Decidable (_ = false))

/-- **Cancelled jobs stay stopped, but for a late `create_run`.** In every run of the system in which
no `create_run` commits for a cancelled job, no run of a cancelled job is ready or running; and from
any state in which this is so, an act leads to one in which it is not exactly if it commits such a
`create_run`. -/
theorem cancelled_jobs_stop (p : System) : (p.Reached NoRestart → Stopped p.shared) ∧
    ∀ (p' : System) (l : Act), Stopped p.shared → Pool.step answer Kind.program p l = some p' →
      (Stopped p'.shared ↔ NoRestart p l) := by
  have hstep : ∀ (p p' : System) (l : Act), Stopped p.shared →
      Pool.step answer Kind.program p l = some p' → (Stopped p'.shared ↔ NoRestart p l) := by
    intro p p' l hs hl
    unfold NoRestart
    cases hc : committing p l with
    | none =>
      rcases committing_cases hl with hsame | ⟨c, e, y, hc', -⟩
      · simpa [hsame] using hs
      · rw [hc] at hc'
        cases hc'
    | some c =>
      obtain ⟨e, y, hx⟩ := exec_of_committing hl hc
      exact exec_stopped hs hx
  refine ⟨fun h => ?_, hstep p⟩
  induction h with
  | refl => intro j hj r hr; cases hr
  | tail _ hmove ih =>
    obtain ⟨l, hC, hl⟩ := hmove
    exact (hstep _ _ l ih hl).2 hC

/-- A beat (process 1) has won the claim on a maintained job, and a client cancels the job before the
beat creates the run. -/
def cancelledWhileFiring : List Act := firing ++ .spawn (.cancel 0) :: commits 2 1 2

/-- The beat is killed before it creates the run. -/
theorem cancelled_jobs_stop_killed : ∃ p : System,
    System.init.play NoRestart (cancelledWhileFiring ++ [.crash 1]) = some p ∧
    p.shared.isJobCancelled 0 ∧ Stopped p.shared := by
  have hall : ((System.init.play NoRestart (cancelledWhileFiring ++ [.crash 1])).any fun p =>
      p.shared.isJobCancelled 0) = true := by decide
  obtain ⟨p, hp, hj⟩ := (Option.any_eq_true _ _).1 hall
  exact ⟨p, hp, hj, (cancelled_jobs_stop p).1 (Pool.run_of_play hp)⟩

/-- The beat goes on, and the cancelled job has a run that is ready. -/
theorem cancelled_job_restarted : ∃ p : System,
    System.init.play System.Any (cancelledWhileFiring ++ commits 1 1 3) = some p ∧
    p.shared.isJobCancelled 0 ∧ (p.shared.runs.get? 3).map RunRow.status = some .ready ∧
    ¬ Stopped p.shared := by
  have hall : ((System.init.play System.Any (cancelledWhileFiring ++ commits 1 1 3)).any fun p =>
      p.shared.isJobCancelled 0 ∧ (p.shared.runs.get? 3).map RunRow.status = some .ready ∧
        (p.shared.runs.get? 3).map RunRow.jobId = some 0) = true := by decide
  obtain ⟨p, hp, hend⟩ := (Option.any_eq_true _ _).1 hall
  obtain ⟨hj, hs, hjob⟩ := of_decide_eq_true hend
  refine ⟨p, hp, hj, hs, fun hstop => ?_⟩
  obtain ⟨r, hr, hrs⟩ := Option.map_eq_some_iff.1 hs
  rw [hr] at hjob
  refine hstop 0 hj r (Table.mem_of_get? hr) (Option.some.inj hjob) ?_
  rw [hrs]
  rfl

/-! ### References -/

/-- No transaction commits that inserts a row for an id that is gone. -/
def NoDangling (p : System) (l : Act) : Prop := (committing p l).any p.shared.dangles = false

instance (p : System) (l : Act) : Decidable (NoDangling p l) :=
  inferInstanceAs (Decidable (_ = false))

/-- **References stay in order, but for a late `create_run` or `start_task`.** In every run of the
system in which `create_run` only commits for a job, and `start_task` for a run, that is still there,
every run names a job that exists, every task a run that exists, and a run that was just created has
no tasks, whatever keys the database hands out; and from any state in which the references are in
order, an act breaks them exactly if it commits one of those two too late. -/
theorem references_stay (p : System) : (p.Reached NoDangling → Integrity p.shared) ∧
    (∀ (p' : System) (l : Act) (i : ℕ), p.Reached NoDangling →
      Pool.step answer Kind.program p l = some p' → p.shared.runs.get? i = none →
      (p'.shared.runs.get? i).isSome → ∀ t ∈ p'.shared.tasks.rows, t.runId ≠ i) ∧
    ∀ (p' : System) (l : Act), Integrity p.shared →
      Pool.step answer Kind.program p l = some p' → (Integrity p'.shared ↔ NoDangling p l) := by
  have hstep : ∀ (p p' : System) (l : Act), Integrity p.shared →
      Pool.step answer Kind.program p l = some p' → (Integrity p'.shared ↔ NoDangling p l) := by
    intro p p' l hi hl
    unfold NoDangling
    cases hc : committing p l with
    | none =>
      rcases committing_cases hl with hsame | ⟨c, e, y, hc', -⟩
      · simpa [hsame] using hi
      · rw [hc] at hc'
        cases hc'
    | some c =>
      obtain ⟨e, y, hx⟩ := exec_of_committing hl hc
      exact exec_integrity hi hx
  have hrun : ∀ p : System, p.Reached NoDangling → Integrity p.shared := by
    intro p h
    induction h with
    | refl => exact integrity_empty
    | tail _ hmove ih =>
      obtain ⟨l, hC, hl⟩ := hmove
      exact (hstep _ _ l ih hl).2 hC
  refine ⟨hrun p, fun p' l i h hl hnone hsome t ht hti => ?_, hstep p⟩
  rcases committing_cases hl with hsame | ⟨c, e, y, -, hx⟩
  · rw [hsame, hnone] at hsome
    cases hsome
  · have hrec := record_isSome ht
    rw [hti, (hrun p h).no_record hx hnone hsome] at hrec
    cases hrec

/-- A worker (process 1) has claimed a run and read its records, when a client cancels the job. -/
def cancelledWhileRunning : List Act :=
  .spawn (.enqueue { job := "m.J" } none) :: commits 0 1 0 ++
  .spawn (.worker (.named "A")) :: reads 1 1 :: reads 1 1 :: commits 1 4 1 ++
  .spawn (.cancel 0) :: commits 2 1 2

/-- A job is enqueued, and the database gives it and its run the ids of rows that were deleted. -/
def reused : List Act :=
  [.spawn (.enqueue { job := "m.J" } none), .act 4 (.commit { now := seconds 5 })]

/-- If the worker is killed before the job is deleted, the run that gets the old id is a clean one. -/
theorem references_stay_killed : ∃ p : System,
    System.init.play NoDangling (cancelledWhileRunning ++
      [.crash 1, .spawn (.delete 0)] ++ commits 3 2 3 ++ reused) = some p ∧
    (p.shared.runs.get? 0).map RunRow.status = some .ready ∧ Integrity p.shared := by
  have hall : ((System.init.play NoDangling (cancelledWhileRunning ++
      [.crash 1, .spawn (.delete 0)] ++ commits 3 2 3 ++ reused)).any fun p =>
        (p.shared.runs.get? 0).map RunRow.status = some .ready) = true := by decide
  obtain ⟨p, hp, hs⟩ := (Option.any_eq_true _ _).1 hall
  exact ⟨p, hp, of_decide_eq_true hs, (references_stay p).1 (Pool.run_of_play hp)⟩

/-- If it goes on and starts its task, the task names a run that is gone, and the run that gets the
old id finds it there. -/
theorem reference_dangles : ∃ p p' : System,
    System.init.play System.Any (cancelledWhileRunning ++
      .spawn (.delete 0) :: commits 3 2 3 ++ commits 1 1 4) = some p ∧
    p.play System.Any reused = some p' ∧ ¬ Integrity p.shared ∧
    (p'.shared.runs.get? 0).map RunRow.status = some .ready ∧
    (p'.shared.record 0 0).map TaskRow.status = some .running := by
  have hall : ((System.init.play System.Any (cancelledWhileRunning ++
      .spawn (.delete 0) :: commits 3 2 3 ++ commits 1 1 4)).any fun p =>
        (p.shared.runs.get? 0).isNone ∧ (p.shared.record 0 0).isSome ∧
        (p.play System.Any reused).any fun p' =>
          (p'.shared.runs.get? 0).map RunRow.status = some .ready ∧
          (p'.shared.record 0 0).map TaskRow.status = some .running) = true := by decide
  obtain ⟨p, hp, hend⟩ := (Option.any_eq_true _ _).1 hall
  obtain ⟨hgone, hrec, hall'⟩ := of_decide_eq_true hend
  obtain ⟨p', hp', hend'⟩ := (Option.any_eq_true _ _).1 hall'
  obtain ⟨hready, hrunning⟩ := of_decide_eq_true hend'
  refine ⟨p, p', hp, hp', fun hi => ?_, hready, hrunning⟩
  obtain ⟨t, ht⟩ := Option.isSome_iff_exists.1 hrec
  have := hi.run_of_record ht
  rw [Option.isNone_iff_eq_none.1 hgone] at this
  cases this

end Pyreljob
