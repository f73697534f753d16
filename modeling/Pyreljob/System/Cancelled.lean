import Pyreljob.Store.Records
import Pyreljob.System.Claim

/-!
Cancelled jobs and compensation.

`cancel` is not meant to undo anything, and a worker that reads a cancelled job stops. But one that
has read the job before goes on, and reacts to what its tasks raise. `Course` is what a process has
learnt so far; an execution compensates once it has `lost` the run, at a task that has no attempt
left. So a cancelled run is compensated exactly by executions that lose it, and those that read the
job after the cancel do not.
-/

namespace Pyreljob

open Lib

/-! ### What an execution has learnt -/

/-- Where a process stands between its claim and a compensation. -/
inductive Course
  /-- Neither a worker nor a client that undoes. -/
  | apart
  /-- A client that undoes the last run of a job. -/
  | undoes
  /-- A worker that has claimed nothing. -/
  | seeks (w : Worker)
  /-- It has claimed the run. -/
  | holds (w : Worker) (run : RunRow)
  /-- It has read the job, which was not cancelled. The run may be lost since. -/
  | knows (w : Worker) (run : RunRow) (job : JobRow) (lost : Bool)

/-- The reply says that the run is lost: the body of a task has raised an ordinary exception on the
last attempt of its budget, or the records say that this has happened to a former execution. -/
def losing (w : Worker) (run : RunRow) (job : JobRow) : (r : Req) → Except Exc r.Reply → Bool
  | .run i pos attempts _, .ok (.error exc, _) => i = run.id ∧ exc.isJobCancelled = false ∧
    (w.resolve job.job).any fun cls => cls.tasks[pos]?.any fun task =>
      Worker.taskBudget task job ≤ attempts
  | .db (.tasksOf i), .ok records => i = run.id ∧ (w.resolve job.job).any fun cls =>
      (Worker.exhausted cls job records (Worker.start records cls.tasks.length)).isSome
  | _, _ => false

/-- The job that a request with this reply has read, if it is not cancelled. -/
def activeIn (i : ℕ) : (r : Req) → Except Exc r.Reply → Option JobRow
  | .db (.getJob j), .ok (some job) => if j = i ∧ job.status ≠ .cancelled then some job else none
  | _, _ => none

namespace Course

def first : Kind → Course
  | .worker w => seeks w
  | .undo .. => undoes
  | _ => apart

def next : Course → (r : Req) → Except Exc r.Reply → Course
  | seeks w, r, y =>
    match claimIn 0 r y with
    | some claim => holds w claim.run
    | none => seeks w
  | holds w run, r, y =>
    match activeIn run.jobId r y with
    | some job => knows w run job false
    | none => holds w run
  | knows w run job lost, r, y => knows w run job (lost || losing w run job r y)
  | apart, _, _ => apart
  | undoes, _, _ => undoes

/-- Only a client that undoes, or an execution of the run that has lost it, compensates. -/
def ok (c : Course) : Req → Prop
  | .undo i _ _ | .db (.compensateTask i _) =>
    c = undoes ∨ ∃ w run job, c = knows w run job true ∧ run.id = i
  | _ => True

def Lost (i : ℕ) : Course → Prop
  | knows _ run _ lost => run.id = i ∧ lost
  | _ => False

instance (i : ℕ) : DecidablePred (Lost i)
  | knows _ run _ lost => inferInstanceAs (Decidable (run.id = i ∧ lost))
  | apart | undoes | seeks _ | holds .. => .isFalse id

variable {c : Course} {r : Req} {y : Except Exc r.Reply} {w : Worker} {run : RunRow} {job : JobRow}
  {lost : Bool}

lemma eq_undoes_of_next (h : c.next r y = undoes) : c = undoes := by
  cases c with
  | undoes => rfl
  | apart | knows => cases h
  | seeks | holds =>
    simp only [next] at h
    split at h <;> cases h

/-- A process that holds a run did so before, or has just claimed it. -/
lemma holds_of_next (h : c.next r y = holds w run) :
    c = holds w run ∨ ∃ claim, claimIn 0 r y = some claim ∧ claim.run = run := by
  cases c with
  | undoes | apart | knows => cases h
  | seeks w' =>
    simp only [next] at h
    split at h
    · rename_i claim hclaim
      cases h
      exact .inr ⟨claim, hclaim, rfl⟩
    · cases h
  | holds w' run' =>
    simp only [next] at h
    split at h <;> cases h
    exact .inl rfl

/-- A process that knows a job did so before, or has just read it. -/
lemma knows_of_next (h : c.next r y = knows w run job lost) :
    (∃ was, c = knows w run job was ∧ lost = (was || losing w run job r y)) ∨
      (c = holds w run ∧ activeIn run.jobId r y = some job ∧ lost = false) := by
  cases c with
  | undoes | apart => cases h
  | seeks w' =>
    simp only [next] at h
    split at h <;> cases h
  | holds w' run' =>
    simp only [next] at h
    split at h
    · rename_i job' hjob
      cases h
      exact .inr ⟨rfl, hjob, rfl⟩
    · cases h
  | knows w' run' job' was =>
    cases h
    exact .inl ⟨was, rfl, rfl⟩

end Course

def Harmless : Req → Prop
  | .undo .. | .db (.compensateTask ..) => False
  | _ => True

lemma Course.ok_of_harmless (c : Course) {r : Req} (hr : Harmless r) : c.ok r := by
  unfold ok
  split
  · exact hr.elim
  · exact hr.elim
  · trivial

abbrev Course.Moves (c : Course) (r : Req) (y : Except Exc r.Reply) (c' : Course) : Prop :=
  c' = c.next r y

/-- The program compensates only as its course allows, and stays in `I`. -/
abbrev Stays {α : Type} (I : Course → Prop) (p : Io α) : Prop :=
  p.Within Course.Moves Course.ok I

/-! ### Processes that do not execute -/

section Harmless

lemma sweep_harmless (now cutoff : Time) (pc : Option Time) (fuel : ℕ) (total : DB.Reconciled) :
    (JobManager.sweep now cutoff pc fuel total).Asks Harmless := by
  induction fuel generalizing total with
  | zero => exact .ret _
  | succ fuel ih =>
    refine Prog.Asks.ask trivial fun swept => ?_
    obtain ⟨stale, changed⟩ := swept
    dsimp only
    split
    · exact .ret _
    · exact ih _

lemma reconcileAbandoned_harmless (graceSeconds : ℤ) (fuel : ℕ) :
    (JobManager.reconcileAbandoned graceSeconds fuel).Asks Harmless := by
  refine Prog.Asks.ask trivial fun now => Prog.Asks.ask trivial fun pc => ?_
  refine .bind (sweep_harmless now _ pc fuel {}) fun total => ?_
  cases total with
  | none => exact .ret _
  | some total => exact Prog.Asks.ask trivial fun _ => .ret _

lemma fireDue_harmless (misfireGrace : Option ℤ) (jobs : List JobRow) :
    (JobManager.fireDue misfireGrace jobs).Asks Harmless := by
  induction jobs with
  | nil => exact .ret _
  | cons job jobs ih =>
    refine Prog.Asks.ask trivial fun now => ?_
    split
    · exact ih
    · refine Prog.Asks.ask trivial fun won => ?_
      split
      · split
        · exact ih
        · exact Prog.Asks.ask trivial fun _ => ih
      · exact ih

lemma tick_harmless (graceSeconds : ℤ) (misfireGrace : Option ℤ) (fuel : ℕ) :
    (JobManager.tick graceSeconds misfireGrace fuel).Asks Harmless := by
  refine .bind (reconcileAbandoned_harmless graceSeconds fuel) fun total => ?_
  cases total with
  | none => exact .ret _
  | some total => exact Prog.Asks.ask trivial fun jobs => fireDue_harmless misfireGrace jobs

lemma enqueue_harmless (spec : JobSpec) (scheduledAt : Option Time) :
    (JobManager.enqueue spec scheduledAt).Asks Harmless := by
  unfold JobManager.enqueue
  dsimp only
  split
  · exact Prog.Asks.last trivial
  · refine Prog.Asks.ask trivial fun existing => ?_
    cases existing with
    | some existing => exact .ret _
    | none =>
      refine .tryCatch (Prog.Asks.last trivial) fun exc => ?_
      cases exc with
      | integrityError msg =>
        refine Prog.Asks.ask trivial fun existing => ?_
        cases existing <;> exact .ret _
      | _ => exact .ret _

lemma schedule_harmless (spec : JobSpec) : (JobManager.schedule spec).Asks Harmless := by
  refine Prog.Asks.ask trivial fun existing => ?_
  cases existing with
  | some existing => exact .ret _
  | none => exact Prog.Asks.last trivial

lemma heartbeat_harmless (w : Worker) (active : List (ℕ × ℕ)) : (w.heartbeat active).Asks Harmless := by
  induction active with
  | nil => exact .ret _
  | cons run active ih =>
    refine Prog.Asks.ask trivial fun cancelled => ?_
    split
    · exact ih
    · exact Prog.Asks.ask trivial fun _ => ih

/-- A process that is neither a worker nor a client that undoes compensates nothing. -/
lemma others_harmless (k : Kind) (hk : Course.first k = .apart) : k.program.Asks Harmless := by
  cases k with
  | enqueue spec t => exact .bind (enqueue_harmless spec t) fun _ => .ret _
  | schedule spec => exact .bind (schedule_harmless spec) fun _ => .ret _
  | cancel i => exact Prog.Asks.last trivial
  | delete i =>
    refine Prog.Asks.ask trivial fun active => ?_
    split
    · exact .ret _
    · exact Prog.Asks.last trivial
  | prune age =>
    refine .bind ?_ fun _ => .ret _
    refine Prog.Asks.ask trivial fun now => Prog.Asks.ask trivial fun runIds => ?_
    split
    · exact .ret _
    · exact Prog.Asks.ask trivial fun _ => .ret _
  | undo resolve i => cases hk
  | beat g m fuel => exact tick_harmless g m fuel
  | worker w => cases hk
  | heartbeat w active => exact heartbeat_harmless w active
  | progress i v => exact Prog.Asks.last trivial

end Harmless

/-! ### An execution -/

section Execution

variable {w : Worker} {run : RunRow} {job : JobRow} {cls : JobCls}

def Knows (w : Worker) (run : RunRow) (job : JobRow) (c : Course) : Prop := ∃ lost, c = .knows w run job lost

def HasLost (w : Worker) (run : RunRow) (job : JobRow) (c : Course) : Prop := c = .knows w run job true

lemma knows_next {c : Course} {r : Req} {y : Except Exc r.Reply} (h : Knows w run job c) :
    Knows w run job (c.next r y) := by
  obtain ⟨lost, rfl⟩ := h
  exact ⟨_, rfl⟩

lemma hasLost_next {c : Course} {r : Req} {y : Except Exc r.Reply} (h : HasLost w run job c) :
    HasLost w run job (c.next r y) := by
  obtain rfl := h
  simp [HasLost, Course.next]

lemma knows_closed : Prog.Closed Course.Moves Course.ok (Knows w run job) Course.ok where
  ok _ _ _ hr := hr
  stays _ _ _ _ hc _ hmove := hmove ▸ knows_next hc

lemma hasLost_closed : Prog.Closed Course.Moves Course.ok (HasLost w run job) Course.ok where
  ok _ _ _ hr := hr
  stays _ _ _ _ hc _ hmove := hmove ▸ hasLost_next hc

lemma harmless_stays {α : Type} {p : Io α} (hp : p.Asks Harmless) : Stays (Knows w run job) p :=
  hp.within (fun c _ _ hr => c.ok_of_harmless hr) fun _ _ _ _ hc hmove => hmove ▸ knows_next hc

lemma harmless_lost {α : Type} {p : Io α} (hp : p.Asks Harmless) : Stays (HasLost w run job) p :=
  hp.within (fun c _ _ hr => c.ok_of_harmless hr) fun _ _ _ _ hc hmove => hmove ▸ hasLost_next hc

lemma lost_ask {r : Req} {β : Type} {f : r.Reply → Io β}
    (hr : (Course.knows w run job true).ok r) (hf : ∀ a, Stays (HasLost w run job) (f a)) :
    Stays (HasLost w run job) (Prog.call r >>= f) := by
  refine hasLost_closed.ask ?_ hf
  rintro c rfl
  exact hr

lemma compensateFrom_lost (records : List TaskRow) (ctx : TaskContext) :
    Stays (HasLost w run job) (Worker.compensateFrom run.id cls records ctx) := by
  have hok : ∃ w' run' job', Course.knows w run job true = .knows w' run' job' true ∧
      run'.id = run.id := ⟨w, run, job, rfl, rfl⟩
  induction records generalizing ctx with
  | nil => exact .ret _
  | cons record records ih =>
    unfold Worker.compensateFrom
    split
    · exact ih ctx
    · split
      · exact .ret _
      · refine lost_ask (.inr hok) fun undone => ?_
        exact lost_ask (.inr hok) fun _ => ih _

lemma compensate_lost (ctx : TaskContext) :
    Stays (HasLost w run job) (Worker.compensate run.id cls ctx) :=
  lost_ask trivial fun _ => compensateFrom_lost _ ctx

lemma finalizeFailed_harmless (error : String) :
    (Worker.finalizeFailed job run.id error).Asks Harmless := by
  refine Prog.Asks.ask trivial fun _ => ?_
  split
  · exact .ret _
  · refine Prog.Asks.ask trivial fun attempts => ?_
    split
    · exact Prog.Asks.ask trivial fun retryAt => Prog.Asks.ask trivial fun _ => .ret _
    · exact .ret _

lemma reschedule_harmless (ctx : TaskContext) :
    (Worker.reschedule job run.id ctx).Asks Harmless := by
  unfold Worker.reschedule
  split
  · exact .ret _
  · refine Prog.Asks.ask trivial fun row => ?_
    cases row with
    | none => exact .ret _
    | some row => exact Prog.Asks.ask trivial fun next => Prog.Asks.last trivial

lemma rescheduleOnError_harmless (run : RunRow) :
    (Worker.rescheduleOnError run).Asks Harmless := by
  refine Prog.Asks.ask trivial fun job => ?_
  cases job with
  | none => exact .ret _
  | some job =>
    change (if job.source ≠ .scheduled then _ else _ : Io Unit).Asks Harmless
    split
    · exact .ret _
    · exact Prog.Asks.ask trivial fun now => Prog.Asks.last trivial

lemma HasLost.knows {α : Type} {p : Io α} (hp : Stays (HasLost w run job) p) :
    p.Keeps Course.Moves Course.ok (fun _ c => Knows w run job c)
      (.knows w run job true) :=
  (hp _ rfl).mono fun _ _ hc => ⟨true, hc⟩

lemma knows_of_stays {α : Type} {p : Io α} {lost : Bool} (hp : Stays (Knows w run job) p) :
    p.Keeps Course.Moves Course.ok (fun _ c => Knows w run job c)
      (.knows w run job lost) :=
  hp _ ⟨lost, rfl⟩

/-- **A task that fails is compensated only if that was its last attempt.** -/
lemma runTask_stays (hcls : w.resolve job.job = some cls) (ctx : TaskContext) {pos : ℕ}
    {task : TaskCls} (htask : cls.tasks[pos]? = some task) (existing : Option TaskRow) :
    Stays (Knows w run job) (Worker.runTask run.id cls job ctx pos task existing) := by
  refine knows_closed.ask (fun c _ => c.ok_of_harmless trivial) fun _ => ?_
  rintro c ⟨lost, rfl⟩
  refine .call_bind trivial ?_ ?_
  · rintro e c' rfl
    exact ⟨_, rfl⟩
  rintro ⟨exc | v, state⟩ c' rfl
  · dsimp only
    split
    · refine harmless_stays ?_ _ ⟨_, rfl⟩
      exact Prog.Asks.ask trivial fun _ => Prog.Asks.ask trivial fun _ => .ret _
    · rename_i hexc
      split
      · rename_i hbudget
        -- the run is lost here
        have hlost : (lost || losing w run job (.run run.id pos
            ((existing.map TaskRow.attempts).getD 0 + 1) ctx) (.ok (.error exc, state))) = true := by
          simpa [losing, hexc, hcls, htask] using Or.inr hbudget
        change Prog.Keeps _ _ _ _ (Course.knows w run job (lost || _))
        rw [hlost]
        refine HasLost.knows (lost_ask trivial fun _ => lost_ask trivial fun _ => ?_)
        refine .bind (compensate_lost _) fun ctx => ?_
        exact .bind (harmless_lost (finalizeFailed_harmless _)) fun _ => .ret _
      · refine harmless_stays ?_ _ ⟨_, rfl⟩
        exact Prog.Asks.ask trivial fun _ => Prog.Asks.ask trivial fun _ =>
          Prog.Asks.ask trivial fun _ => Prog.Asks.ask trivial fun _ => .ret _
  · refine harmless_stays ?_ _ ⟨_, rfl⟩
    exact Prog.Asks.ask trivial fun _ => Prog.Asks.ask trivial fun _ => .ret _

lemma runTasks_stays (hcls : w.resolve job.job = some cls) (records : List TaskRow)
    {tasks : List TaskCls} {pos : ℕ} (htasks : cls.tasks.drop pos = tasks) (ctx : TaskContext) :
    Stays (Knows w run job) (Worker.runTasks run.id cls job records tasks pos ctx) := by
  induction tasks generalizing pos ctx with
  | nil => exact .ret _
  | cons task tasks ih =>
    have htask : cls.tasks[pos]? = some task := by
      have := congrArg (·[0]?) htasks
      simpa using this
    have hrest : cls.tasks.drop (pos + 1) = tasks := by
      rw [← List.drop_drop, htasks, List.drop_one, List.tail_cons]
    refine .bind (runTask_stays hcls ctx htask _) fun ended => ?_
    obtain ⟨_ | _ | _ | _, ctx⟩ := ended
    · exact ih hrest ctx
    all_goals exact .ret _

lemma resume_stays (hcls : w.resolve job.job = some cls) (records : List TaskRow) {lost : Bool}
    (hlost : (Worker.exhausted cls job records (Worker.start records cls.tasks.length)).isSome →
      lost) : (Worker.resume run job cls records).Keeps Course.Moves Course.ok
      (fun _ c => Knows w run job c) (.knows w run job lost) := by
  unfold Worker.resume
  dsimp only
  split
  · rename_i existing hex
    rw [hlost (by rw [hex]; rfl)]
    refine HasLost.knows (lost_ask trivial fun _ => ?_)
    refine .bind (compensate_lost _) fun ctx => ?_
    exact .bind (harmless_lost (finalizeFailed_harmless _)) fun _ =>
      harmless_lost (reschedule_harmless ctx)
  · refine knows_of_stays (.bind (runTasks_stays hcls records rfl _) fun ended => ?_)
    obtain ⟨_ | _ | _ | _, ctx⟩ := ended
    · exact knows_closed.ask (fun c _ => c.ok_of_harmless trivial) fun _ =>
        knows_closed.ask (fun c _ => c.ok_of_harmless trivial) fun _ =>
        harmless_stays (reschedule_harmless ctx)
    · exact .ret _
    · exact .ret _
    · exact harmless_stays (reschedule_harmless ctx)

def Executed (w : Worker) (run : RunRow) (c : Course) : Prop :=
  c = .holds w run ∨ ∃ job, Knows w run job c

lemma executed_next {c : Course} {r : Req} {y : Except Exc r.Reply} (h : Executed w run c) :
    Executed w run (c.next r y) := by
  rcases h with rfl | ⟨job, h⟩
  · cases hjob : activeIn run.jobId r y with
    | some job => exact .inr ⟨job, false, by simp [Course.next, hjob]⟩
    | none => exact .inl (by simp [Course.next, hjob])
  · exact .inr ⟨job, knows_next h⟩

lemma harmless_executed {α : Type} {p : Io α} (hp : p.Asks Harmless) : Stays (Executed w run) p :=
  hp.within (fun c _ _ hr => c.ok_of_harmless hr) fun _ _ _ _ hc hmove => hmove ▸ executed_next hc

lemma run_stays : (w.run run).Keeps Course.Moves Course.ok
    (fun _ c => Executed w run c) (.holds w run) := by
  refine .call_bind trivial ?_ ?_
  · rintro e c' rfl
    exact executed_next (.inl rfl)
  rintro (_ | job) c' rfl
  · refine harmless_executed ?_ _ (executed_next (.inl rfl))
    exact Prog.Asks.last trivial
  · dsimp only
    split
    · refine harmless_executed ?_ _ (executed_next (.inl rfl))
      exact Prog.Asks.last trivial
    · rename_i hactive
      have hnext : Course.next (.holds w run) (.db (.getJob run.jobId)) (.ok (some job)) =
          .knows w run job false := by
        simp [Course.next, activeIn, hactive]
      rw [hnext]
      split
      · refine harmless_executed ?_ _ (.inr ⟨job, false, rfl⟩)
        exact Prog.Asks.last trivial
      · rename_i cls hcls
        refine .call_bind trivial ?_ ?_
        · rintro e c' rfl
          exact .inr ⟨job, _, rfl⟩
        rintro records c' rfl
        refine (resume_stays hcls records fun hex => ?_).mono fun _ c hc => .inr ⟨job, hc⟩
        simp [losing, hcls, hex]

lemma execute_stays : (w.execute run).Keeps Course.Moves Course.ok
    (fun _ c => Executed w run c) (.holds w run) := by
  refine .tryCatch (run_stays.mono ?_)
  rintro (e | ⟨⟩) c hc
  · refine harmless_executed ?_ c hc
    exact Prog.Asks.ask trivial fun _ => rescheduleOnError_harmless run
  · exact hc

end Execution

/-- **Every process keeps to its course**: a worker compensates only a run that it has lost. -/
lemma course_kept (k : Kind) : Pool.InPhase (fun c r y c' => c' = Course.next c r y) Course.ok
    (fun _ => True) k.program (Course.first k) := by
  cases hk : Course.first k with
  | apart =>
    exact ((others_harmless k hk).within (I := fun _ => True) (fun c _ _ hr => c.ok_of_harmless hr)
      (fun _ _ _ _ _ _ => trivial)) _ trivial
  | undoes =>
    cases k with
    | undo resolve i =>
      refine (Prog.Keeps.of_inv (I := fun c => c = .undoes) ?_ ?_ _ rfl).mono fun _ _ _ => trivial
      · rintro c r rfl
        unfold Course.ok
        split <;> first | exact .inl rfl | trivial
      · rintro c r y c' rfl rfl
        rfl
    | _ => cases hk
  | seeks w =>
    cases k with
    | worker w' =>
      cases hk
      refine .bind (.call_bind trivial (fun _ _ _ => trivial) ?_)
      rintro now _ rfl
      refine .call_bind trivial (fun _ _ _ => trivial) ?_
      rintro now' _ rfl
      refine .call_bind trivial (fun _ _ _ => trivial) ?_
      rintro (_ | runId) _ rfl
      · trivial
      · refine Prog.Keeps.call trivial ?_
        rintro (e | _ | run) _ rfl
        · trivial
        · trivial
        · exact execute_stays.mono fun _ _ _ => trivial
    | _ => cases hk
  | _ => cases k <;> cases hk

/-! ### Where the processes stand -/

/-- The course of a process, read off what it has said and heard. -/
def System.course (p : System) (pid : ℕ) : Option Course := Pool.watch Course.next Course.first p pid

section Courses

variable {C : System → Act → Prop} {p p' : System} {l : Act} {i : ℕ}

lemma course_ok (h : p.Reached C) {pid : ℕ} {r : Req} (hr : p.pending pid = some r) :
    ∃ c, p.course pid = some c ∧ c.ok r := by
  unfold Pool.pending at hr
  split at hr
  · rename_i r' f hwait
    cases hr
    obtain ⟨c, hc, hkeeps⟩ := Pool.watched
      (fun {_ _ _ _ r _ y} c _ _ => (rfl : c.next r y = c.next r y)) (fun _ k _ => course_kept k) h
      rfl rfl hwait
    exact ⟨c, hc, hkeeps.1⟩
  · cases hr

/-- **How a course may change.** After an act a living process is where it was, or has been started,
or has been answered. -/
lemma course_cases (h : p.Reached C) (hstep : Pool.step answer Kind.program p l = some p') {q : ℕ}
    (hq : p'.lives q) {c' : Course} (hc' : p'.course q = some c') :
    (p.lives q ∧ p.course q = some c') ∨ (∃ k, c' = .first k) ∨
      ∃ a r f y c, l = .act q a ∧ Pool.Acts answer p q a p' r f y ∧ p.course q = some c ∧
        c' = c.next r y := by
  refine (Pool.watch_cases (Pool.pid_lt h rfl) hstep hq hc').imp_left ?_
  rintro ⟨-, hsame, hc⟩
  exact ⟨by rwa [Pool.lives, ← hsame], hc⟩

lemma kind_of_undoes {pid : ℕ} (h : p.course pid = some .undoes) :
    ∃ resolve j, p.kind? pid = some (.undo resolve j) := by
  obtain ⟨k, hk, hfold⟩ := Option.map_eq_some_iff.1 h
  have hfirst : ∀ (l : List (Σ r : Req, Except Exc r.Reply)) (c : Course),
      l.foldl (fun c x => c.next x.1 x.2) c = .undoes → c = .undoes := by
    intro l
    induction l with
    | nil => exact fun c hc => hc
    | cons x l ih =>
      intro c hc
      exact Course.eq_undoes_of_next (ih _ hc)
  have := hfirst _ _ hfold
  cases k with
  | undo resolve j => exact ⟨resolve, j, hk⟩
  | _ => cases this

end Courses

/-! ### The run and its job -/

/-- The run is that of the job, if it is there, and its key has been handed out. -/
def RunOf (i j : ℕ) (db : DB) : Prop :=
  i < db.runs.seq ∧ ∀ r, db.runs.get? i = some r → r.jobId = j

/-- The job is cancelled, if it is there, and its key has been handed out. -/
def JobOff (j : ℕ) (db : DB) : Prop :=
  j < db.jobs.seq ∧ ∀ job, db.jobs.get? j = some job → job.status = .cancelled

section

variable {db db' : DB} {e : Env} {c : Call} {y : Except Exc c.Reply} {i j : ℕ}

lemma RunOf.exec (h : RunOf i j db) (hx : c.exec db e = some (db', y)) (hf : e.Fresh db) :
    RunOf i j db' := by
  refine ⟨h.1.trans_le (exec_runs_seq hx), fun r' hr' => ?_⟩
  have hstep := exec_run hx i
  rw [hr'] at hstep
  rcases hstep.jobId with ⟨-, hi, -⟩ | ⟨r, hr, hj⟩
  · have := h.1
    have := hf.2.1
    omega
  · exact hj ▸ h.2 r hr

lemma JobOff.exec (h : JobOff j db) (hx : c.exec db e = some (db', y)) (hf : e.Fresh db) :
    JobOff j db' := by
  refine ⟨h.1.trans_le (exec_jobs_seq hx), fun job' hjob' => ?_⟩
  have hstep := exec_job hx j
  rw [hjob'] at hstep
  rcases hstep.known with ⟨job, hjob⟩ | hj
  · rw [hjob] at hstep
    cases hs : job'.status with
    | cancelled => rfl
    | active =>
      have hwas := hstep.active hs
      rw [h.2 job hjob] at hwas
      cases hwas
  · have := h.1
    have := hf.1
    omega

lemma activeIn_commit (hx : c.exec db e = some (db', y)) {job : JobRow}
    (h : activeIn j (.db c) y = some job) : db.jobs.get? j = some job ∧ job.status ≠ .cancelled := by
  cases c with
  | getJob i =>
    cases hx
    cases hjob : db.getJob i with
    | none => rw [hjob] at h; cases h
    | some job' =>
      rw [hjob] at h
      simp only [activeIn] at h
      split at h
      · rename_i hj
        cases h
        exact ⟨hj.1 ▸ hjob, hj.2⟩
      · cases h
  | _ => cases h

end

def loses (i q : ℕ) (p : System) : Act → Bool
  | .act pid a =>
    match p.course pid, p.pending pid with
    | some (.knows w run job _), some r => pid = q ∧ run.id = i ∧
      ((answer p.shared r a).any fun answered => losing w run job r answered.2)
    | _, _ => false
  | _ => false

def informed (i q : ℕ) (p : System) : Bool :=
  match p.course q with
  | some (.knows _ run _ _) => run.id = i
  | _ => false

/-- Keys are not used twice, and no execution that had read the job of the run in the state `p₀` loses
the run. -/
def Spares (i : ℕ) (p₀ p : System) (l : Act) : Prop :=
  System.NewIds p l ∧ ∀ q, q < p₀.procs.length → informed i q p₀ → loses i q p l = false

instance (i : ℕ) (p₀ p : System) (l : Act) : Decidable (Spares i p₀ p l) :=
  inferInstanceAs (Decidable (_ ∧ ∀ q, q < p₀.procs.length → _))

/-- What holds of the executions of the run from the cancel on. -/
structure Calmed (i j : ℕ) (p₀ p : System) : Prop where
  run : RunOf i j p.shared
  job : JobOff j p.shared
  holds : ∀ q w run, p.lives q → p.course q = some (.holds w run) → run.id = i → run.jobId = j
  /-- Who knows the job has read it before. -/
  knows : ∀ q w run job lost, p.lives q → p.course q = some (.knows w run job lost) → run.id = i →
    q < p₀.procs.length ∧ informed i q p₀
  kept : ∀ q c, p.lives q → p.course q = some c → ¬ c.Lost i

section

variable {C : System → Act → Prop} {p₀ p p' : System} {l : Act} {i j : ℕ}

lemma RunOf.step (h : RunOf i j p.shared) (hstep : Pool.step answer Kind.program p l = some p')
    (hids : System.NewIds p l) : RunOf i j p'.shared := by
  rcases System.step_cases hstep with hsame | ⟨pid, c, e, y, rfl, -, hx, -⟩
  · rwa [hsame]
  · exact h.exec hx hids

lemma JobOff.step (h : JobOff j p.shared) (hstep : Pool.step answer Kind.program p l = some p')
    (hids : System.NewIds p l) : JobOff j p'.shared := by
  rcases System.step_cases hstep with hsame | ⟨pid, c, e, y, rfl, -, hx, -⟩
  · rwa [hsame]
  · exact h.exec hx hids

lemma claimed_run {q : ℕ} {a : Answer} {r : Req} {f : Except Exc r.Reply → Io Unit}
    {y : Except Exc r.Reply} (hact : Pool.Acts answer p q a p' r f y) {claim : Claim}
    (h : claimIn 0 r y = some claim) : p'.shared.runs.get? claim.run.id = some claim.run := by
  have hans := hact.answered
  cases r with
  | db c =>
    cases a with
    | commit e =>
      have hrow := claimIn_row hans h
      have hid : claim.run.id = claim.runId := Table.key_of_get? hrow
      rwa [hid]
    | fail exc =>
      obtain rfl : Except.error exc = y := (Prod.mk.inj (Option.some.inj hans)).2
      rw [claimIn_error] at h
      cases h
    | _ => cases hans
  | _ => cases h

lemma holds_of_reached (h : p.Reached System.NewIds) : ∀ q w run, p.lives q →
    p.course q = some (.holds w run) → RunOf run.id run.jobId p.shared := by
  induction h with
  | refl => exact fun q w run hq => absurd hq (by simp [Pool.lives, Pool.prog?, System.init])
  | @tail p₁ p₂ hrun hmove ih =>
    obtain ⟨l, hids, hstep⟩ := hmove
    intro q w run hq hc
    rcases course_cases hrun hstep hq hc with ⟨hq', hc'⟩ | ⟨k, hk⟩ | ⟨a, r, f, y, c, rfl, hact, hc', hn⟩
    · exact (ih q w run hq' hc').step hstep hids
    · cases k <;> cases hk
    · rcases Course.holds_of_next hn.symm with rfl | ⟨claim, hclaim, rfl⟩
      · have hq' : p₁.lives q := by simp [Pool.lives, hact.waiting]
        exact (ih q w run hq' hc').step hstep hids
      · have hrow := claimed_run hact hclaim
        refine ⟨Table.lt_seq_of_get? hrow, fun r' hr' => ?_⟩
        rw [hrow] at hr'
        cases hr'
        rfl

lemma read_job {q : ℕ} {a : Answer} {r : Req} {f : Except Exc r.Reply → Io Unit}
    {y : Except Exc r.Reply} (hact : Pool.Acts answer p q a p' r f y) {job : JobRow}
    (h : activeIn j r y = some job) : ¬ JobOff j p.shared := by
  intro hoff
  have hans := hact.answered
  cases r with
  | db c =>
    cases a with
    | commit e =>
      obtain ⟨hjob, hne⟩ := activeIn_commit hans h
      exact hne (hoff.2 job hjob)
    | fail exc =>
      obtain rfl : Except.error exc = y := (Prod.mk.inj (Option.some.inj hans)).2
      cases c <;> cases h
    | _ => cases hans
  | _ => cases h

/-- **What one act preserves.** -/
lemma Calmed.step (h : Calmed i j p₀ p) (hreach : p.Reached C)
    (hstep : Pool.step answer Kind.program p l = some p') (hC : Spares i p₀ p l) :
    Calmed i j p₀ p' where
  run := h.run.step hstep hC.1
  job := h.job.step hstep hC.1
  holds := by
    intro q w run hq hc hi
    rcases course_cases hreach hstep hq hc with ⟨hq', hc'⟩ | ⟨k, hk⟩ | ⟨a, r, f, y, c, rfl, hact, hc', hn⟩
    · exact h.holds q w run hq' hc' hi
    · cases k <;> cases hk
    · rcases Course.holds_of_next hn.symm with rfl | ⟨claim, hclaim, rfl⟩
      · exact h.holds q w run (by simp [Pool.lives, hact.waiting]) hc' hi
      · refine (h.run.step hstep hC.1).2 claim.run ?_
        rw [← hi]
        exact claimed_run hact hclaim
  knows := by
    intro q w run job lost hq hc hi
    rcases course_cases hreach hstep hq hc with ⟨hq', hc'⟩ | ⟨k, hk⟩ | ⟨a, r, f, y, c, rfl, hact, hc', hn⟩
    · exact h.knows q w run job lost hq' hc' hi
    · cases k <;> cases hk
    · have hq' : p.lives q := by simp [Pool.lives, hact.waiting]
      rcases Course.knows_of_next hn.symm with ⟨was, rfl, -⟩ | ⟨rfl, hjob, -⟩
      · exact h.knows q w run job was hq' hc' hi
      · have hj := h.holds q w run hq' hc' hi
        rw [hj] at hjob
        exact absurd h.job (read_job hact hjob)
  kept := by
    intro q c' hq hc hlost
    rcases course_cases hreach hstep hq hc with ⟨hq', hc'⟩ | ⟨k, rfl⟩ | ⟨a, r, f, y, c, rfl, hact, hc', hn⟩
    · exact h.kept q c' hq' hc' hlost
    · cases k <;> exact hlost
    · have hq' : p.lives q := by simp [Pool.lives, hact.waiting]
      cases c' with
      | knows w run job lost =>
        obtain ⟨hi, hl⟩ := hlost
        rcases Course.knows_of_next hn.symm with ⟨was, rfl, hwas⟩ | ⟨-, -, hfalse⟩
        · rw [hl] at hwas
          rcases Bool.or_eq_true_iff.1 hwas.symm with hbefore | hnow
          · exact h.kept q _ hq' hc' ⟨hi, hbefore⟩
          · obtain ⟨hlt, hinf⟩ := h.knows q w run job was hq' hc' hi
            have hspared := hC.2 q hlt hinf
            simp [loses, hc', hact.pending, hi, hact.answered, hnow] at hspared
        · rw [hl] at hfalse
          cases hfalse
      | _ => exact hlost

end

/-! ### The cancel, and what comes after -/

/-- The event invokes an undo of the run, or makes a record of it compensated. -/
def Compensates (i : ℕ) (ev : Ev) : Prop :=
  (∃ pos ctx, ev.req = .undo i pos ctx) ∨
    ∃ pos t, ev.post.record i pos = some t ∧ t.status = .compensated ∧
      ∀ t₀, ev.pre.record i pos = some t₀ → t₀.status ≠ .compensated

/-- The run and the position whose undo the process has invoked, and waits for. -/
def System.undoing (p : System) (pid : ℕ) : Option (ℕ × ℕ) :=
  match p.pending pid with
  | some (.undo i pos _) => some (i, pos)
  | _ => none

/-- The process is a client that undoes. -/
def System.Undoes (p : System) (pid : ℕ) : Prop := ∃ resolve j, p.kind? pid = some (.undo resolve j)

section

variable {C : System → Act → Prop} {p p' p₁ p₂ : System} {i j : ℕ}

lemma compensates_cases {db db' : DB} {r : Req} {a : Answer} {y : Except Exc r.Reply} {pid : ℕ}
    (hans : answer db r a = some (db', y)) (h : Compensates i ⟨pid, r, a, y, db, db'⟩) :
    (∃ pos ctx, r = .undo i pos ctx) ∨ ∃ pos, r = .db (.compensateTask i pos) := by
  have hquiet : ∀ r a y, Compensates i ⟨pid, r, a, y, db, db⟩ → ∃ pos ctx, r = .undo i pos ctx := by
    rintro r a y (hundo | ⟨pos, t, ht, hs, hnew⟩)
    · exact hundo
    · exact absurd hs (hnew t ht)
  revert h
  refine answer_cases (motive := fun r a db' y => Compensates i ⟨pid, r, a, y, db, db'⟩ →
    (∃ pos ctx, r = .undo i pos ctx) ∨ ∃ pos, r = .db (.compensateTask i pos)) ?_ ?_ ?_ hans
  · rintro c e db' y hx (⟨pos, ctx, hr⟩ | ⟨pos, t, ht, hs, hnew⟩)
    · cases hr
    · dsimp only at ht hnew
      have hstep := exec_record hx i pos
      rw [ht] at hstep
      generalize ho : db.record i pos = o at hstep
      cases hstep with
      | same => exact absurd hs (hnew t ho)
      | compensated t₀ => exact .inr ⟨pos, rfl⟩
      | _ => cases hs
  · exact fun c exc h => .inl (hquiet _ _ _ h)
  · exact fun r a y _ _ h => .inl (hquiet _ _ _ h)

/-- As long as no execution has lost the run, nobody but a client that undoes compensates it. -/
lemma not_lost_pending (h : p.Reached C)
    (hkept : ∀ q c, p.lives q → p.course q = some c → ¬ c.Lost i) {q : ℕ} {r : Req}
    (hr : p.pending q = some r)
    (hcomp : (∃ pos ctx, r = .undo i pos ctx) ∨ ∃ pos, r = .db (.compensateTask i pos)) :
    p.Undoes q := by
  obtain ⟨c, hc, hok⟩ := course_ok h hr
  have hcase : c = .undoes ∨ ∃ w run job, c = .knows w run job true ∧ run.id = i := by
    rcases hcomp with ⟨pos, ctx, rfl⟩ | ⟨pos, rfl⟩ <;> exact hok
  rcases hcase with rfl | ⟨w, run, job, rfl, hi⟩
  · exact kind_of_undoes hc
  · have hlives : p.lives q := by
      unfold Pool.pending at hr
      split at hr
      · rename_i hwait
        simp [Pool.lives, hwait]
      · cases hr
    exact absurd ⟨hi, rfl⟩ (hkept q _ hlives hc)

lemma calmed_start (h : p₁.Reached System.NewIds) {pid : ℕ} {e : Env}
    (hcancel : p₁.pending pid = some (.db (.cancelJob j)))
    (hids : System.NewIds p₁ (.act pid (.commit e)))
    (hstep : Pool.step answer Kind.program p₁ (.act pid (.commit e)) = some p₂) {r : RunRow}
    (hr : p₁.shared.runs.get? i = some r) (hrj : r.jobId = j)
    (hjob : (p₁.shared.jobs.get? j).isSome)
    (hkept : ∀ q c, p₁.lives q → p₁.course q = some c → ¬ c.Lost i) : Calmed i j p₁ p₂ := by
  have hrun : RunOf i j p₁.shared := by
    refine ⟨Table.lt_seq_of_get? hr, fun r' hr' => ?_⟩
    rw [hr] at hr'
    cases hr'
    exact hrj
  have hown : ∀ q w run, p₁.lives q → p₁.course q = some (.holds w run) → run.id = i →
      run.jobId = j := by
    intro q w run hq hc hi
    have := (holds_of_reached h q w run hq hc).2 r (by rw [hi, hr])
    rw [← this, hrj]
  obtain ⟨c, y, hasks, hx, -⟩ := System.step_commit hstep
  rw [hcancel] at hasks
  cases hasks
  have hcases : ∀ {q c'}, p₂.lives q → p₂.course q = some c' → (p₁.lives q ∧ p₁.course q = some c') ∨
      (∃ k, c' = .first k) ∨ ∃ y c, p₁.lives q ∧ p₁.course q = some c ∧
        c' = c.next (.db (.cancelJob j)) y := by
    intro q c' hq hc'
    rcases course_cases h hstep hq hc' with hsame | hk | ⟨a, r, f, y, c, hl, hact, hc, hn⟩
    · exact .inl hsame
    · exact .inr (.inl hk)
    · cases hl
      have hr' := hact.pending
      rw [hcancel] at hr'
      cases hr'
      exact .inr (.inr ⟨y, c, by simp [Pool.lives, hact.waiting], hc, hn⟩)
  constructor
  case run => exact hrun.step hstep hids
  case job =>
    obtain ⟨job, hjob⟩ := Option.isSome_iff_exists.1 hjob
    refine ⟨(Table.lt_seq_of_get? hjob).trans_le (exec_jobs_seq hx), fun job' hjob' => ?_⟩
    have hdb : p₂.shared = p₁.shared.cancelJob e.now j := (Prod.mk.inj (Option.some.inj hx)).1.symm
    rw [hdb, DB.cancelJob, Table.get?_update, hjob, Option.map_some,
      if_pos (job_id_of_get? hjob)] at hjob'
    exact (Option.some.inj hjob') ▸ rfl
  case holds =>
    intro q w run hq hc hi
    rcases hcases hq hc with ⟨hq', hc'⟩ | ⟨k, hk⟩ | ⟨y, c, hq', hc', hn⟩
    · exact hown q w run hq' hc' hi
    · cases k <;> cases hk
    · rcases Course.holds_of_next hn.symm with rfl | ⟨claim, hclaim, -⟩
      · exact hown q w run hq' hc' hi
      · cases hclaim
  case knows =>
    intro q w run job lost hq hc hi
    have hinf : ∀ was, p₁.lives q → p₁.course q = some (.knows w run job was) →
        q < p₁.procs.length ∧ informed i q p₁ := fun was hq' hc' =>
      ⟨Pool.lt_of_lives hq', by simp [informed, hc', hi]⟩
    rcases hcases hq hc with ⟨hq', hc'⟩ | ⟨k, hk⟩ | ⟨y, c, hq', hc', hn⟩
    · exact hinf lost hq' hc'
    · cases k <;> cases hk
    · rcases Course.knows_of_next hn.symm with ⟨was, rfl, -⟩ | ⟨rfl, hread, -⟩
      · exact hinf was hq' hc'
      · cases hread
  case kept =>
    intro q c' hq hc hlost
    rcases hcases hq hc with ⟨hq', hc'⟩ | ⟨k, rfl⟩ | ⟨y, c, hq', hc', hn⟩
    · exact hkept q c' hq' hc' hlost
    · cases k <;> exact hlost
    · cases c' with
      | knows w run job lost =>
        obtain ⟨hi, hl⟩ := hlost
        rcases Course.knows_of_next hn.symm with ⟨was, rfl, hwas⟩ | ⟨-, hread, -⟩
        · rw [hl] at hwas
          rcases Bool.or_eq_true_iff.1 hwas.symm with hbefore | hnow
          · exact hkept q _ hq' hc' ⟨hi, hbefore⟩
          · cases hnow
        · cases hread
      | _ => exact hlost

/-- **The run from the cancel on**: nobody but a client compensates. -/
lemma Calmed.run_after (h : Calmed i j p₁ p₂) (h₂ : p₂.Reached System.NewIds)
    (hrun : System.Run (Spares i p₁) p₂ p) : Calmed i j p₁ p ∧ p.Reached System.NewIds ∧
      ∃ later, p.log = p₂.log ++ later ∧ ∀ ev ∈ later, Compensates i ev → p.Undoes ev.pid := by
  induction hrun with
  | refl => exact ⟨h, h₂, [], by simp, by simp⟩
  | @tail q₁ q₂ _ hmove ih =>
    obtain ⟨hcalm, hreach, later, hlog, hlater⟩ := ih
    obtain ⟨l, hC, hstep⟩ := hmove
    have hstays : ∀ q, q₁.Undoes q → q₂.Undoes q := by
      rintro q ⟨resolve, j', hk⟩
      exact ⟨resolve, j', Pool.kind?_stays hstep hk⟩
    have hquiet : q₂.log = q₁.log →
        ∃ later, q₂.log = p₂.log ++ later ∧ ∀ ev ∈ later, Compensates i ev → q₂.Undoes ev.pid :=
      fun hsame => ⟨later, hsame.trans hlog, fun ev hev hc => hstays _ (hlater ev hev hc)⟩
    refine ⟨hcalm.step hreach hstep hC, hreach.tail ⟨l, hC.1, hstep⟩, ?_⟩
    cases l with
    | spawn k => exact hquiet (Pool.step_spawn hstep).2.1
    | crash q => exact hquiet (Pool.step_crash hstep).2.1
    | act q a =>
      obtain ⟨r, f, y, hact⟩ := Pool.step_act hstep
      refine ⟨later ++ [⟨q, r, a, y, q₁.shared, q₂.shared⟩], ?_, fun ev hev hc => ?_⟩
      · rw [hact.logged, hlog, List.append_assoc]
      · rcases List.mem_append.1 hev with hev | hev
        · exact hstays _ (hlater ev hev hc)
        · obtain rfl := List.mem_singleton.1 hev
          exact hstays _ (not_lost_pending hreach hcalm.kept hact.pending
            (compensates_cases hact.answered hc))

end

/-- Some execution of the run has lost it. -/
def System.lost (i : ℕ) (p : System) : Bool :=
  (List.range p.procs.length).any fun q => p.lives q && (p.course q).any fun c => c.Lost i

lemma not_lost {p : System} {i : ℕ} (h : p.lost i = false) :
    ∀ q c, p.lives q → p.course q = some c → ¬ c.Lost i := by
  intro q c hq hc hlost
  have hany : p.lost i = true := by
    refine List.any_eq_true.2 ⟨q, List.mem_range.2 (Pool.lt_of_lives hq), ?_⟩
    simpa [hq, hc] using hlost
  rw [h] at hany
  cases hany

/-- **A cancelled run is not compensated, unless a worker that knew the job loses it.** When the
cancel of a run's job commits while no execution of the run has lost it, and none of those that had
read the job loses it afterwards: no worker invokes an undo of the run or makes a record of it
compensated any more, whatever happens. -/
theorem cancel_never_compensates {p₁ p₂ p : System} {pid i : ℕ} {e : Env} {r : RunRow}
    (h₁ : p₁.Reached System.NewIds) (hr : p₁.shared.runs.get? i = some r)
    (hjob : (p₁.shared.jobs.get? r.jobId).isSome)
    (hcancel : p₁.pending pid = some (.db (.cancelJob r.jobId)))
    (hids : System.NewIds p₁ (.act pid (.commit e)))
    (hstep : Pool.step answer Kind.program p₁ (.act pid (.commit e)) = some p₂)
    (hlost : p₁.lost i = false) (h : System.Run (Spares i p₁) p₂ p) :
    (∀ q pos, p.undoing q = some (i, pos) → p.Undoes q) ∧
    ∃ later, p.log = p₂.log ++ later ∧ ∀ ev ∈ later, Compensates i ev → p.Undoes ev.pid := by
  have hstart := calmed_start h₁ hcancel hids hstep hr rfl hjob (not_lost hlost)
  obtain ⟨hcalm, hreach, hlater⟩ := hstart.run_after (h₁.tail ⟨_, hids, hstep⟩) h
  refine ⟨fun q pos hq => ?_, hlater⟩
  unfold System.undoing at hq
  split at hq
  · rename_i i' pos' ctx hasks
    cases hq
    exact not_lost_pending hreach hcalm.kept hasks (.inl ⟨pos, ctx, rfl⟩)
  · cases hq

/-- A worker (process 1) has done the first of two tasks, and the second one works on its only
attempt, when a client (process 2) is about to cancel the job. -/
def halfDone : List Act :=
  .spawn (.enqueue { job := "m.J", maxAttempts := 1 } none) :: commits 0 1 0 ++
  .spawn (.worker (.knowing twoTasks "A")) :: reads 1 1 :: reads 1 1 :: commits 1 5 1 ++
  .act 1 (.ran (.ok .null) []) :: commits 1 3 2 ++ [.spawn (.cancel 0)]

/-- The task says that it was cancelled. -/
def givesIn : List Act := .act 1 (.ran (.error (.jobCancelledError "")) []) :: commits 1 2 4

/-- The task raises. -/
def raisesOn : List Act := .act 1 (.ran (.error (.other "RuntimeError" "")) []) :: commits 1 3 4

lemma halfDone_pending : (System.init.play System.NewIds halfDone).map (fun p => p.pending 2) =
    some (some (.db (.cancelJob 0))) := by
  rfl

theorem cancel_never_compensates_givesIn : ∃ p₁ p₂ p : System,
    System.init.play System.NewIds halfDone = some p₁ ∧
    Pool.step answer Kind.program p₁ (.act 2 (committed 3)) = some p₂ ∧
    System.play (Spares 0 p₁) p₂ givesIn = some p ∧
    (p.shared.tasksOf 0).map TaskRow.status = [.succeeded, .cancelled] ∧
    (∀ q pos, p.undoing q = some (0, pos) → p.Undoes q) ∧
    ∃ later, p.log = p₂.log ++ later ∧ ∀ ev ∈ later, Compensates 0 ev → p.Undoes ev.pid := by
  have hall : ((System.init.play System.NewIds halfDone).any fun p₁ =>
      ((p₁.shared.runs.get? 0).map RunRow.jobId = some 0 ∧ (p₁.shared.jobs.get? 0).isSome ∧
        System.NewIds p₁ (.act 2 (committed 3)) ∧ p₁.lost 0 = false) ∧
      (Pool.step answer Kind.program p₁ (.act 2 (committed 3))).any fun p₂ =>
        (System.play (Spares 0 p₁) p₂ givesIn).any fun p =>
          (p.shared.tasksOf 0).map TaskRow.status = [.succeeded, .cancelled]) = true := by
    decide
  obtain ⟨p₁, hp₁, h₁⟩ := (Option.any_eq_true _ _).1 hall
  obtain ⟨⟨hrun, hjob, hids, hlost⟩, h₁⟩ := of_decide_eq_true h₁
  obtain ⟨p₂, hp₂, h₂⟩ := (Option.any_eq_true _ _).1 h₁
  obtain ⟨p, hp, hend⟩ := (Option.any_eq_true _ _).1 h₂
  obtain ⟨r, hr, hrj⟩ := Option.map_eq_some_iff.1 hrun
  have hcancel : p₁.pending 2 = some (.db (.cancelJob r.jobId)) := by
    have hpend := halfDone_pending
    rw [hp₁, Option.map_some] at hpend
    rw [hrj, Option.some.inj hpend]
  refine ⟨p₁, p₂, p, hp₁, hp₂, hp, of_decide_eq_true hend, ?_⟩
  exact cancel_never_compensates (Pool.run_of_play hp₁) hr (by rwa [hrj]) hcancel hids hp₂ hlost
    (Pool.run_of_play hp)

/-- The cancel commits while the last attempt of a task works. The task raises, and the worker
invokes the undo of the task before it, whose record becomes compensated. -/
theorem cancelled_run_compensated : ∃ p₁ p₂ p p' : System,
    System.init.play System.NewIds halfDone = some p₁ ∧
    p₁.kind? 1 = some (.worker (.knowing twoTasks "A")) ∧
    p₁.pending 2 = some (.db (.cancelJob 0)) ∧
    (p₁.shared.tasksOf 0).map TaskRow.status = [.succeeded, .running] ∧
    Pool.step answer Kind.program p₁ (.act 2 (committed 3)) = some p₂ ∧
    System.play System.NewIds p₂ raisesOn = some p ∧ p.undoing 1 = some (0, 0) ∧
    System.play System.NewIds p (.act 1 (.undone none []) :: commits 1 1 5) = some p' ∧
    (p'.shared.tasksOf 0).map TaskRow.status = [.compensated, .failed] := by
  have hall : ((System.init.play System.NewIds halfDone).any fun p₁ =>
      (p₁.shared.tasksOf 0).map TaskRow.status = [.succeeded, .running] ∧
      (Pool.step answer Kind.program p₁ (.act 2 (committed 3))).any fun p₂ =>
        (System.play System.NewIds p₂ raisesOn).any fun p => p.undoing 1 = some (0, 0) ∧
          (System.play System.NewIds p (.act 1 (.undone none []) :: commits 1 1 5)).any fun p' =>
            (p'.shared.tasksOf 0).map TaskRow.status = [.compensated, .failed]) = true := by
    decide
  obtain ⟨p₁, hp₁, h₁⟩ := (Option.any_eq_true _ _).1 hall
  obtain ⟨hbefore, h₁⟩ := of_decide_eq_true h₁
  obtain ⟨p₂, hp₂, h₂⟩ := (Option.any_eq_true _ _).1 h₁
  obtain ⟨p, hp, h₃⟩ := (Option.any_eq_true _ _).1 h₂
  obtain ⟨hundo, h₃⟩ := of_decide_eq_true h₃
  obtain ⟨p', hp', hend⟩ := (Option.any_eq_true _ _).1 h₃
  have hpend := halfDone_pending
  have hkind : (System.init.play System.NewIds halfDone).map (fun p => p.kind? 1) =
      some (some (.worker (.knowing twoTasks "A"))) := by rfl
  rw [hp₁, Option.map_some] at hpend hkind
  exact ⟨p₁, p₂, p, p', hp₁, Option.some.inj hkind, Option.some.inj hpend, hbefore, hp₂, hp, hundo,
    hp', of_decide_eq_true hend⟩

end Pyreljob
