import Pyreljob.Store.Integrity
import Pyreljob.System.Execution

/-!
What an execution does to its run after another worker has claimed it.

The lease is checked by `renew_lease` alone. The writes of an execution name the run, and
`complete_run` and `fail_run` ask that it is running, but none asks whose it is; so an execution that
has been overtaken goes on writing. It does no harm only as long as its writes find no row.
-/

namespace Pyreljob

open Lib

/-! ### The property -/

/-- The run of the claim, its records, its job and the set of runs are the same as before. -/
structure Untouched (c : Claim) (db db' : DB) : Prop where
  run : db'.runs.get? c.runId = db.runs.get? c.runId
  tasks : db'.tasksOf c.runId = db.tasksOf c.runId
  job : db'.jobs.get? c.run.jobId = db.jobs.get? c.run.jobId
  runs : ∀ i, (db'.runs.get? i).isSome = (db.runs.get? i).isSome

/-- An execution whose run has been claimed by another one since leaves it all untouched, and a run
that an execution takes out of `running` carries the worker of that execution. -/
def OnlyHolderActs (log : List Ev) : Prop :=
  ∀ l₁ ev l₂ c, log = l₁ ++ ev :: l₂ → c ∈ claimsBy ev.pid l₁ →
    ((∃ c', lastClaim c.runId l₁ = some c' ∧ c'.pid ≠ ev.pid) → Untouched c ev.pre ev.post) ∧
    ∀ i r r', ev.pre.runs.get? i = some r → r.status = .running →
      ev.post.runs.get? i = some r' → r'.status ≠ .running → r.workerId = some c.workerId

/-- The run that the process executes has been claimed by another process since. -/
def superseded (log : List Ev) (pid : ℕ) : Bool :=
  (claimsBy pid log).any fun c => (lastClaim c.runId log).any fun c' => c'.pid ≠ pid

/-! ### What comes too late -/

/-- The transaction ends the run, gives it back or deletes it. -/
def DB.ends (db : DB) (i : ℕ) : Call → Bool
  | .completeRun k _ | .failRun k _ _ | .cancelRun k => k = i
  | .cancelJob j => (db.runs.get? i).any fun r => r.jobId = j
  | c => db.erases i c

/-- The transaction makes a run with this key, or starts a task of it. -/
def makesRun (i : ℕ) (e : Env) : Call → Bool
  | .insertJobAndRun .. | .createRun .. => e.runId = i
  | .startTask k .. => k = i
  | _ => false

def deletesJob (j : ℕ) : Call → Bool
  | .deleteJob k => k = j
  | _ => false

def makesJob (j : ℕ) (e : Env) : Call → Bool
  | .insertJobAndRun .. | .insertJob _ => e.jobId = j
  | _ => false

def commitsA (f : DB → Env → Call → Bool) (ev : Ev) : Bool :=
  match ev.req, ev.ans with
  | .db c, .commit e => f ev.pre e c
  | _, _ => false

/-- Since the run was last claimed it has been completed, failed, cancelled, given back or deleted. -/
def endedSince (i : ℕ) : List Ev → Bool :=
  Pool.since (commitsA fun db _ c => db.ends i c) (commitsA fun db _ c => db.wins i c)

/-- The run has been deleted, and nobody has made one with its key or started a task of it since. -/
def runGone (i : ℕ) : List Ev → Bool :=
  Pool.since (commitsA fun db _ c => db.erases i c) (commitsA fun _ e c => makesRun i e c)

/-- The job has been deleted, and nobody has made one with its key since. -/
def jobGone (j : ℕ) : List Ev → Bool :=
  Pool.since (commitsA fun _ _ c => deletesJob j c) (commitsA fun _ e c => makesJob j e c)

/-- The transaction comes too late to do anything: it completes or fails a run that has been ended since
it was last claimed, or updates a run, a record or a job that is gone. Or it only reads. -/
def tooLate (log : List Ev) : Call → Bool
  | .completeRun i _ | .failRun i _ _ => endedSince i log
  | .cancelRun i | .setRunCtx i _ | .succeedTask i _ _ | .failTask i _ _ _ _ | .cancelTask i _
  | .compensateTask i _ => runGone i log
  | .incrementJobAttempts j | .resetJobAttempts j | .setNextRunAt j _ => jobGone j log
  | .findByIdempotencyKey _ | .findScheduled .. | .getJob _ | .isJobCancelled _ | .hasActiveRun _
  | .selectPrunable _ | .listScheduled | .selectClaimable .. | .getRun _ | .runsOf _
  | .tasksOf _ => true
  | _ => false

/-- A superseded execution commits a write that does not come too late. -/
def unfenced (p : System) : Act → Bool
  | .act pid (.commit _) =>
    superseded p.log pid &&
      match p.pending pid with
      | some (.db c) => !tooLate p.log c
      | _ => false
  | _ => false

/-- What superseded executions commit comes too late. -/
def Fenced (p : System) (l : Act) : Prop := unfenced p l = false

instance (p : System) (l : Act) : Decidable (Fenced p l) :=
  inferInstanceAs (Decidable (unfenced p l = false))

/-! ### Writes that find no row -/

/-- The transaction writes nothing, because it only reads or because no row matches it. -/
def Call.misses (db : DB) : Call → Bool
  | .completeRun i _ | .failRun i _ _ => !(db.runs.get? i).any fun r => r.status = .running
  | .cancelRun i | .setRunCtx i _ => (db.runs.get? i).isNone
  | .succeedTask i pos _ | .failTask i pos _ _ _ | .cancelTask i pos | .compensateTask i pos =>
    (db.tasks.select (DB.At i pos)).isEmpty
  | .incrementJobAttempts j | .resetJobAttempts j | .setNextRunAt j _ => (db.jobs.get? j).isNone
  | .findByIdempotencyKey _ | .findScheduled .. | .getJob _ | .isJobCancelled _ | .hasActiveRun _
  | .selectPrunable _ | .listScheduled | .selectClaimable .. | .getRun _ | .runsOf _
  | .tasksOf _ => true
  | _ => false

section

variable {db db' : DB} {e : Env} {c : Call} {y : Except Exc c.Reply}

lemma misses_exec (hm : c.misses db) (hx : c.exec db e = some (db', y)) : db' = db := by
  cases c with
  | completeRun i v =>
    cases hx
    simp only [DB.completeRun]
    rw [Table.update_of_get? _ (fun r hr => hr.1)]
    rintro r hr ⟨-, hs⟩
    simp [Call.misses, hr, hs] at hm
  | failRun i error retryAt =>
    cases hx
    cases retryAt
    all_goals
      simp only [DB.failRun]
      rw [Table.update_of_get? _ (fun r hr => hr.1)]
      rintro r hr ⟨-, hs⟩
      simp [Call.misses, hr, hs] at hm
  | cancelRun i =>
    cases hx
    simp only [DB.cancelRun]
    rw [Table.update_of_get? (i := i)]
    · exact fun r hr => hr
    · rintro r hr -
      simp [Call.misses, hr] at hm
  | setRunCtx i ctx =>
    cases hx
    simp only [DB.setRunCtx]
    rw [Table.update_of_get? (i := i)]
    · exact fun r hr => hr
    · rintro r hr -
      simp [Call.misses, hr] at hm
  | incrementJobAttempts j =>
    cases hx
    rw [Table.update_of_get? (i := j)]
    · exact fun r hr => hr
    · rintro r hr -
      simp [Call.misses, hr] at hm
  | resetJobAttempts j =>
    cases hx
    simp only [DB.resetJobAttempts]
    rw [Table.update_of_get? (i := j)]
    · exact fun r hr => hr
    · rintro r hr -
      simp [Call.misses, hr] at hm
  | setNextRunAt j t =>
    cases hx
    simp only [DB.setNextRunAt]
    rw [Table.update_of_get? (i := j)]
    · exact fun r hr => hr
    · rintro r hr -
      simp [Call.misses, hr] at hm
  | succeedTask i pos v =>
    cases hx
    simp only [DB.succeedTask]
    rw [Table.update_of_not _ (Table.select_isEmpty.1 hm)]
  | failTask i pos error attempts retryAt =>
    cases hx
    simp only [DB.failTask]
    rw [Table.update_of_not _ (Table.select_isEmpty.1 hm)]
  | cancelTask i pos =>
    cases hx
    simp only [DB.cancelTask]
    rw [Table.update_of_not _ (Table.select_isEmpty.1 hm)]
  | compensateTask i pos =>
    cases hx
    simp only [DB.compensateTask]
    rw [Table.update_of_not _ (Table.select_isEmpty.1 hm)]
  | findByIdempotencyKey | findScheduled | getJob | isJobCancelled | hasActiveRun | selectPrunable
  | listScheduled | selectClaimable | getRun | runsOf | tasksOf =>
    cases hx
    rfl
  | _ => cases hm

end

/-! ### What comes too late finds no row -/

section

variable {C : System → Act → Prop} {p : System} {i j : ℕ}

/-- What one kind of transaction brings about, and only another kind undoes. -/
lemma System.since_holds {P : DB → Prop} {starts ends : DB → Env → Call → Bool}
    (hstarts : ∀ db e c db' y, c.exec db e = some (db', y) → starts db e c → P db')
    (hkept : ∀ db e c db' y, c.exec db e = some (db', y) → ends db e c = false → P db → P db')
    (h : p.Reached C) (hlog : Pool.since (commitsA starts) (commitsA ends) p.log) : P p.shared := by
  refine Pool.since_holds ?_ ?_ h rfl hlog
  · rintro ⟨pid, r, a, y, db, db'⟩ hans hstart
    revert hstart
    refine answer_cases (motive := fun r a db' y => commitsA starts ⟨pid, r, a, y, db, db'⟩ → P db')
      (fun c e db' y hx hstart => hstarts db e c db' y hx hstart) ?_ ?_ hans
    · intro c exc hstart
      cases hstart
    · intro r a y hr _ hstart
      cases r with
      | db c => exact absurd rfl (hr c)
      | _ => cases hstart
  · rintro ⟨pid, r, a, y, db, db'⟩ hans hend
    revert hend
    exact answer_cases (motive := fun r a db' y => commitsA ends ⟨pid, r, a, y, db, db'⟩ = false →
      P db → P db') (fun c e db' y hx hend => hkept db e c db' y hx hend) (fun _ _ _ => id)
      (fun _ _ _ _ _ _ => id) hans

/-- A run that has been ended since it was last claimed does not run. -/
lemma not_running_of_ended (h : p.Reached C) (hlog : endedSince i p.log) :
    ∀ r, p.shared.runs.get? i = some r → r.status ≠ .running := by
  refine System.since_holds (P := fun db => ∀ r, db.runs.get? i = some r → r.status ≠ .running)
    ?_ ?_ h hlog
  · intro db e c db' y hx hends r hr
    cases c with
    | completeRun k v =>
      obtain rfl : k = i := of_decide_eq_true hends
      exact exec_settles hx (.inr (.inl ⟨v, rfl⟩)) hr
    | failRun k error t =>
      obtain rfl : k = i := of_decide_eq_true hends
      exact exec_settles hx (.inl ⟨error, t, rfl⟩) hr
    | cancelRun k =>
      obtain rfl : k = i := of_decide_eq_true hends
      exact exec_settles hx (.inr (.inr rfl)) hr
    | cancelJob j =>
      obtain ⟨r₀, hr₀, hj⟩ := (Option.any_eq_true _ _).1 hends
      have hstep := exec_run hx i
      rw [hr₀, hr] at hstep
      have hjob : r.jobId = j := by
        rcases hstep.jobId with ⟨hnone, -⟩ | ⟨r₁, hr₁, hsame⟩
        · cases hnone
        · cases hr₁
          exact hsame.symm.trans (of_decide_eq_true hj)
      cases hx
      intro hs
      exact cancelJob_settles hr hjob (by rw [hs]; rfl)
    | deleteJob j =>
      rw [run_of_erases hx hends] at hr
      cases hr
    | deleteRuns ids =>
      rw [run_of_erases hx hends] at hr
      cases hr
    | _ => cases hends
  · intro db e c db' y hx hwins hrest r' hr' hs
    have hstep := exec_run hx i
    rw [hr'] at hstep
    rcases hstep.running hs with ⟨r, hr, hrun, -⟩ | ⟨r, w, now, le, hr, rfl, -⟩ | ⟨r, w, hr, -, hrun, -⟩
    · exact hrest r hr hrun
    · -- a claim that has won is excluded, and one that has lost has changed nothing
      rcases claimRun_cases db i w now le with ⟨_, _, _, hwon, -⟩ | ⟨-, hsame⟩
      · simp [DB.wins, hwon] at hwins
      · obtain rfl : (db.claimRun i w now le).1 = db' := (Prod.mk.inj (Option.some.inj hx)).1
        rw [hsame] at hr'
        exact hrest _ hr' hs
    · exact hrest r hr hrun

lemma absent_of_gone (h : p.Reached C) (hlog : runGone i p.log) :
    p.shared.runs.get? i = none ∧ ∀ pos, p.shared.record i pos = none := by
  refine System.since_holds (P := fun db => db.runs.get? i = none ∧ ∀ pos, db.record i pos = none)
    ?_ ?_ h hlog
  · exact fun db e c db' y hx herase => ⟨run_of_erases hx herase, record_of_erases hx herase⟩
  · rintro db e c db' y hx hmakes ⟨hrun, hrecords⟩
    constructor
    · cases hr : db'.runs.get? i with
      | none => rfl
      | some r =>
        have hstep := exec_run hx i
        rw [hrun, hr] at hstep
        cases hstep with
        | enqueued | created => simp_all [makesRun]
    · intro pos
      cases ht : db'.record i pos with
      | none => rfl
      | some t =>
        have hstep := exec_record hx i pos
        rw [hrecords, ht] at hstep
        cases hstep with
        | inserted => simp [makesRun] at hmakes

lemma job_absent_of_gone (h : p.Reached C) (hlog : jobGone j p.log) :
    p.shared.jobs.get? j = none := by
  refine System.since_holds (P := fun db => db.jobs.get? j = none) ?_ ?_ h hlog
  · intro db e c db' y hx hdeletes
    cases c with
    | deleteJob k =>
      obtain rfl : k = j := of_decide_eq_true hdeletes
      cases hx
      simp only [DB.deleteJob, Table.get?_delete, Option.filter_eq_none_iff]
      intro job hjob
      simp [job_id_of_get? hjob]
    | _ => cases hdeletes
  · intro db e c db' y hx hmakes hnone
    cases hj : db'.jobs.get? j with
    | none => rfl
    | some job =>
      have hstep := exec_job hx j
      rw [hnone, hj] at hstep
      cases hstep with
      | enqueued | scheduled => simp_all [makesJob]

/-- **What comes too late finds no row.** -/
lemma misses_of_tooLate (h : p.Reached C) {c : Call} (hlate : tooLate p.log c) :
    c.misses p.shared := by
  have hended : ∀ i, endedSince i p.log →
      (!(p.shared.runs.get? i).any fun r => r.status = .running) = true := by
    intro i hlog
    cases hr : p.shared.runs.get? i with
    | none => rfl
    | some r => simpa using not_running_of_ended h hlog r hr
  have hrun : ∀ i, runGone i p.log → (p.shared.runs.get? i).isNone = true := by
    intro i hlog
    rw [(absent_of_gone h hlog).1]
    rfl
  have hrecord : ∀ i pos, runGone i p.log → (p.shared.tasks.select (DB.At i pos)).isEmpty = true := by
    intro i pos hlog
    rw [List.isEmpty_iff]
    exact List.head?_eq_none_iff.1 ((absent_of_gone h hlog).2 pos)
  have hjob : ∀ j, jobGone j p.log → (p.shared.jobs.get? j).isNone = true := by
    intro j hlog
    rw [job_absent_of_gone h hlog]
    rfl
  cases c with
  | completeRun i | failRun i => exact hended i hlate
  | cancelRun i | setRunCtx i => exact hrun i hlate
  | succeedTask i pos | failTask i pos | cancelTask i pos | compensateTask i pos =>
    exact hrecord i pos hlate
  | incrementJobAttempts j | resetJobAttempts j | setNextRunAt j => exact hjob j hlate
  | findByIdempotencyKey | findScheduled | getJob | isJobCancelled | hasActiveRun | selectPrunable
  | listScheduled | selectClaimable | getRun | runsOf | tasksOf => rfl
  | _ => cases hlate

end

/-! ### Only the holder acts -/

/-- What holds between the runs, the log and the executions, whatever happens. -/
structure HoldInv (db : DB) (log : List Ev) (ph : ℕ → Phase) : Prop where
  executing : Executing log ph
  heldBy : HeldBy db log

lemma holdInv_of_reached {C : System → Act → Prop} {p : System} (h : p.Reached C) :
    ∃ ph, InPhases {} p ph ∧ HoldInv p.shared p.log ph := by
  refine System.phases (fun _ => True) HoldInv (fun _ _ _ _ _ => trivial) ?_ ?_ ?_ ?_ ?_ h
  · exact ⟨executing_init, by rintro _ _ ⟨⟩⟩
  · exact fun _ _ _ _ h => ⟨h.executing.gone, h.heldBy⟩
  · intro p ph pid c e db' y _ _ _ hok hx hG
    have hans : answer p.shared (.db c) (.commit e) = some (db', y) := hx
    exact ⟨hG.executing.step hok (valid_of_answer hans), heldBy_commit hG.heldBy hx⟩
  · intro p ph pid c exc _ hG hok
    exact ⟨hG.executing.step hok (valid_error c exc), hG.heldBy.quiet (claimIn_error pid c exc)⟩
  · intro p ph pid r a y _ hr _ hok _ hG
    exact ⟨hG.executing.step hok (valid_ask hr), hG.heldBy.quiet (claimIn_ask hr)⟩

lemma OnlyHolderActs.quiet {log : List Ev} {ev : Ev} (h : OnlyHolderActs log)
    (hev : ev.post = ev.pre) : OnlyHolderActs (log ++ [ev]) := by
  intro l₁ ev' l₂ c hl hc
  rcases Pool.split_concat hl with ⟨-, rfl, rfl⟩ | ⟨l₂', -, hl'⟩
  · rw [hev]
    refine ⟨fun _ => ⟨rfl, rfl, rfl, fun _ => rfl⟩, fun i r r' hr hs hr' hs' => ?_⟩
    rw [hr] at hr'
    cases hr'
    exact absurd hs hs'
  · exact h l₁ ev' l₂' c hl' hc

/-- A write of an execution that takes a run out of `running` is one to its own run. -/
lemma own_run {may : Leave} {db db' : DB} {e : Env} {c : Call} {y : Except Exc c.Reply}
    {i j k : ℕ} {w : String} {s : Stage} (hok : (Phase.exec i j w s).ok may (.db c))
    (hx : c.exec db e = some (db', y)) {r r' : RunRow} (hr : db.runs.get? k = some r)
    (hs : r.status = .running) (hr' : db'.runs.get? k = some r') (hs' : r'.status ≠ .running) :
    k = i := by
  have hstep := exec_run hx k
  rw [hr, hr'] at hstep
  cases hstep with
  | same => exact absurd hs hs'
  | claimed | renewed | ctxSet | progressSet => first | exact absurd rfl hs' | exact absurd hs hs'
  | completed | retried | cancelled =>
    obtain ⟨j', w', h⟩ := hok
    cases h
    rfl
  | failed =>
    obtain ⟨j', w', s', h, -⟩ := hok
    cases h
    rfl
  | jobCancelled => exact hok.elim
  | swept _ now cutoff pc hst =>
    rw [hst.1] at hs
    cases hs

/-- A transaction of a process respects the holder, if it comes too late where the process has been
superseded. -/
lemma OnlyHolderActs.commit {p : System} {pid : ℕ} {c : Call} {e : Env} {db' : DB}
    {y : Except Exc c.Reply} (h : OnlyHolderActs p.log) (hreach : p.Reached Fenced)
    (hC : Fenced p (.act pid (.commit e))) (hasks : p.pending pid = some (.db c))
    (hx : c.exec p.shared e = some (db', y)) :
    OnlyHolderActs (p.log ++ [⟨pid, .db c, .commit e, y, p.shared, db'⟩]) := by
  obtain ⟨ph, hph, hinv⟩ := holdInv_of_reached hreach
  obtain ⟨f, hf⟩ := Pool.prog?_of_pending hasks
  have hok : (ph pid).ok {} (.db c) := (hph.of_prog? hf).1
  intro l₁ ev l₂ cl hl hcl
  rcases Pool.split_concat hl with ⟨-, rfl, rfl⟩ | ⟨l₂', -, hl'⟩
  swap
  · exact h l₁ ev l₂' cl hl' hcl
  dsimp only at hcl ⊢
  -- what a superseded execution writes comes too late, so it changes nothing at all
  have hsame : (∃ c', lastClaim cl.runId p.log = some c' ∧ c'.pid ≠ pid) → db' = p.shared := by
    rintro ⟨c', hlast, hne⟩
    have hsup : superseded p.log pid := by
      simp only [superseded, List.any_eq_true]
      exact ⟨cl, hcl, by simp [hlast, hne]⟩
    have hlate : tooLate p.log c := by
      simpa [Fenced, unfenced, hsup, hasks] using hC
    exact misses_exec (misses_of_tooLate hreach hlate) hx
  refine ⟨fun hsup => ?_, fun i r r' hr hs hr' hs' => ?_⟩
  · rw [hsame hsup]
    exact ⟨rfl, rfl, rfl, fun _ => rfl⟩
  · have hexec : (ph pid).Executes := by
      by_contra hn
      have hnone := hinv.executing.idle pid hn (Phase.ne_gone_of_ok hok)
      rw [hnone] at hcl
      cases hcl
    obtain ⟨i', j, w, s, hpid⟩ : ∃ i j w s, ph pid = .exec i j w s := by
      revert hexec
      cases ph pid <;> simp [Phase.Executes]
    obtain ⟨cl', hone, rfl, rfl, rfl⟩ := hinv.executing.exec pid i' j w s hpid
    rw [hone, List.mem_singleton] at hcl
    subst hcl
    rw [hpid] at hok
    obtain rfl := own_run hok hx hr hs hr' hs'
    obtain ⟨c', hlast, hw⟩ := hinv.heldBy _ r hr hs
    by_cases hown : c'.pid = pid
    · have hmem : c' ∈ claimsBy pid p.log := mem_claimsBy.2 ⟨(lastClaim_mem hlast).1, hown⟩
      rw [hone, List.mem_singleton] at hmem
      rw [hw, hmem]
    · rw [hsame ⟨c', hlast, hown⟩, hr] at hr'
      cases hr'
      exact absurd hs hs'

/-- **Only the lease holder acts on a run, as long as superseded executions come too late.** In every
run of the system in which an execution whose run another process has claimed since commits nothing but
reads, the end of a run that has been ended since its last claim, and updates of what has been deleted,
such executions leave run, records, job and the set of runs untouched, and only the worker that a
running run carries takes it out of `running`. -/
theorem only_holder_acts {p : System} (h : p.Reached Fenced) : OnlyHolderActs p.log := by
  induction h with
  | refl =>
    intro l₁ _ _ _ hl
    cases l₁ <;> cases hl
  | @tail p₁ p₂ hrun hmove ih =>
    obtain ⟨l, hC, hstep⟩ := hmove
    cases l with
    | spawn k => exact (Pool.step_spawn hstep).2.1 ▸ ih
    | crash pid => exact (Pool.step_crash hstep).2.1 ▸ ih
    | act pid a =>
      rcases System.step_cases hstep with hsame | ⟨pid', c, e, y, heq, hasks, hx, hlog⟩
      · obtain ⟨r, f, y, hact⟩ := Pool.step_act hstep
        rw [hact.logged]
        exact ih.quiet hsame
      · cases heq
        rw [hlog]
        exact ih.commit hrun hC hasks hx

/-- Worker A (process 1) has done the task of a run and is about to complete it when its lease runs out.
Worker B (process 2) claims the run. -/
def overtakenLate : List Act :=
  .spawn (.enqueue { job := "m.J" } none) :: commits 0 1 0 ++
  .spawn (.worker (.named "A")) :: reads 1 1 :: reads 1 1 :: commits 1 5 1 ++
  .act 1 (.ran (.ok .null) []) :: commits 1 2 2 ++
  .spawn (.worker (.named "B")) :: reads 2 100 :: reads 2 100 :: commits 2 4 100

/-- B completes the run. Then A completes it, too, but its connection breaks before it sets back the
attempts of the job, and it fails the run. -/
def bothComplete : List Act :=
  overtakenLate ++ commits 2 2 101 ++ commits 1 1 102 ++
  .act 1 (.fail (.other "OperationalError" "")) :: commits 1 2 103

/-- What A has written after it was superseded has done nothing. -/
theorem only_holder_acts_bothComplete : ∃ p p' : System,
    System.init.play Fenced overtakenLate = some p ∧ superseded p.log 1 ∧
      System.init.play Fenced bothComplete = some p' ∧ p'.lives 1 = false ∧
        (p'.shared.runs.get? 0).map RunRow.status = some .succeeded ∧ OnlyHolderActs p'.log := by
  have hfirst : ((System.init.play Fenced overtakenLate).any fun p => superseded p.log 1) = true := by
    decide
  have hall : ((System.init.play Fenced bothComplete).any fun p => p.lives 1 = false ∧
      (p.shared.runs.get? 0).map RunRow.status = some .succeeded) = true := by decide
  obtain ⟨p, hp, hsup⟩ := (Option.any_eq_true _ _).1 hfirst
  obtain ⟨p', hp', hend⟩ := (Option.any_eq_true _ _).1 hall
  obtain ⟨hgone, hs⟩ := of_decide_eq_true hend
  exact ⟨p, p', hp, hsup, hp', hgone, hs, only_holder_acts (Pool.run_of_play hp')⟩

/-- If its task returns while the other one still runs it, the worker that was overtaken completes the
run in the name of the other. -/
theorem overtaken_worker_completes : ∃ p p' : System,
    System.init.play System.Any (overtaken ++ .act 1 (.ran (.ok .null) []) :: commits 1 2 102) =
      some p ∧
    p.play System.Any (commits 1 1 103) = some p' ∧
    (p.shared.runs.get? 0).map RunRow.workerId = some (some "B") ∧
    (p'.shared.runs.get? 0).map RunRow.status = some .succeeded ∧ ¬ OnlyHolderActs p'.log := by
  have hall : ((System.init.play System.Any (overtaken ++
      .act 1 (.ran (.ok .null) []) :: commits 1 2 102)).any fun p =>
        (p.shared.runs.get? 0).map RunRow.workerId = some (some "B") ∧
        (p.shared.runs.get? 0).map RunRow.status = some .running ∧
        (claimsBy 1 p.log).map Claim.workerId = ["A"] ∧
        (p.play System.Any (commits 1 1 103)).any fun p' =>
          (p'.shared.runs.get? 0).map RunRow.status = some .succeeded) = true := by decide
  obtain ⟨p, hp, hp'⟩ := (Option.any_eq_true _ _).1 hall
  simp only [Bool.decide_and, Bool.and_eq_true, decide_eq_true_eq, Option.any_eq_true] at hp'
  obtain ⟨hw, hs, hc, p', hp', hs'⟩ := hp'
  refine ⟨p, p', hp, hp', hw, hs', fun hfence => ?_⟩
  have hstep : Pool.step answer Kind.program p (.act 1 (committed 103)) =
      some p' := by
    simpa [System.play, Pool.play, System.Any, commits] using hp'
  obtain ⟨c, y, -, -, hlog⟩ := System.step_commit hstep
  obtain ⟨r, hr, hrw⟩ := Option.map_eq_some_iff.1 hw
  obtain ⟨r', hr', hrs'⟩ := Option.map_eq_some_iff.1 hs'
  rw [hr] at hs
  obtain ⟨cl, hcl, hclw⟩ := List.map_eq_singleton_iff.1 hc
  have := (hfence p.log _ [] cl hlog (by simp [hcl])).2 0 r r' hr (by simpa using hs) hr'
    (by simp [hrs'])
  rw [hrw, hclw] at this
  simp at this

end Pyreljob
