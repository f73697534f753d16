import Pyreljob.Model.System

/-!
What each process of the system may ask, and when.

`Phase` is where a process stands, as far as others need to know: it has read the clock, it has
selected a run to claim, it executes a run it has claimed, it has won the right to fire a job.
`Phase.ok` says which transactions a process issues in which phase. Every program of the system keeps
to it (`Kind.inPhase`), whatever the replies and wherever exceptions are raised.
-/

namespace Pyreljob

open Lib

/-- How far the execution of a run has come. -/
inductive Stage
  /-- It may issue any of a worker's writes. -/
  | working
  /-- The run has been given up; a retry of the whole run may still be created. -/
  | failed
  /-- What is left concerns the job only. -/
  | closing
  /-- The run has been given back for another attempt; nothing is left. -/
  | returned
  deriving DecidableEq

/-- Where a process stands. -/
inductive Phase
  | rest
  /-- It is no more. -/
  | gone
  /-- It has read the clock. -/
  | read (now : Time)
  /-- The `SELECT` of a claim has returned the run. -/
  | selected (runId : ℕ) (now leaseExpiry : Time)
  /-- It executes the run of the job, as the worker. -/
  | exec (runId jobId : ℕ) (workerId : String) (stage : Stage)
  /-- It has won the job's `claim_scheduled`, and has not created the run yet. -/
  | fired (jobId : ℕ)

/-- What depends on what a process was started as: which grace period a beat may have, and whether the
process claims runs at all. -/
structure Leave where
  grace : ℤ → Prop := fun _ => True
  claim : Prop := True

namespace Phase

def Idle : Phase → Prop
  | rest | read _ => True
  | _ => False

def Executes : Phase → Prop
  | exec .. => True
  | _ => False

/-- The execution goes on to a stage; any other process holds nothing any more. -/
def goOn (s : Stage) : Phase → Phase
  | exec runId jobId workerId _ => exec runId jobId workerId s
  | _ => rest

def next (c : Phase) : (r : Req) → Except Exc r.Reply → Phase
  | .now, .ok t =>
    match c with
    | exec .. => c
    | _ => read t
  | .db (.selectClaimable _ now leaseExpiry), .ok (some runId) => selected runId now leaseExpiry
  | .db (.claimRun _ workerId _ _), .ok (some run) => exec run.id run.jobId workerId .working
  | .db (.claimRun ..), _ => rest
  | .db (.claimScheduled jobId _), .ok true => fired jobId
  | .db (.createRun ..), .ok _ => c.goOn .closing
  | .db (.failRun _ _ none), .ok _ =>
    match c with
    | exec runId jobId workerId .working => exec runId jobId workerId .failed
    | c => c
  | .db (.failRun _ _ (some _)), .ok _ => c.goOn .returned
  | .db (.completeRun ..), .ok _ | .db (.cancelRun _), .ok _ => c.goOn .closing
  | _, _ => c

/-- What a process may ask where it stands. -/
def ok (may : Leave) (c : Phase) : Req → Prop
  | .db (.selectClaimable ..) => c.Idle ∧ may.claim
  | .db (.claimRun runId _ now leaseExpiry) => c = selected runId now leaseExpiry
  | .db (.claimScheduled _ nextRunAt) => nextRunAt = none ∧ c.Idle
  | .db (.createRun jobId _) => c = fired jobId ∨ ∃ i w, c = exec i jobId w .failed
  | .db (.reconcileBatch now cutoff _) | .db (.rearmOrphanedJobs now cutoff) =>
    c = read now ∧ ∃ g, may.grace g ∧ cutoff = now - seconds g
  | .db (.failRun runId _ none) => ∃ j w s, c = exec runId j w s ∧ s ≠ .returned
  | .db (.failRun runId _ (some _)) | .db (.completeRun runId _) | .db (.cancelRun runId)
  | .db (.setRunCtx runId _) | .db (.startTask runId _ _ _) | .db (.succeedTask runId _ _)
  | .db (.failTask runId _ _ _ _) | .db (.cancelTask runId _) => ∃ j w, c = exec runId j w .working
  | .db (.compensateTask runId _) | .undo runId _ _ => c.Idle ∨ ∃ j w, c = exec runId j w .working
  | .run runId _ _ _ => ∃ j w, c = exec runId j w .working
  | .db (.incrementJobAttempts jobId) | .db (.resetJobAttempts jobId)
  | .db (.setNextRunAt jobId _) => ∃ i w s, c = exec i jobId w s
  | .db (.insertJobAndRun spec _) => c.Idle ∧ spec.source = .onDemand ∧ spec.nextRunAt = none
  | .db (.insertJob spec) => c.Idle ∧ spec.source = .scheduled
  | .db (.cancelJob _) | .db (.deleteJob _) | .db (.deleteRuns _) | .db (.setRunProgress ..)
  | .db (.renewLease ..) => c.Idle
  | _ => c ≠ gone

end Phase

namespace Phase

/-- The ways in which a process moves. -/
inductive Turn : Phase → (r : Req) → Except Exc r.Reply → Phase → Prop
  | stays (c : Phase) (r : Req) (y : Except Exc r.Reply) : Turn c r y c
  | reads (c : Phase) (t : Time) (hc : ¬ c.Executes) : Turn c .now (.ok t) (read t)
  | selects (c : Phase) (queue : Option String) (now leaseExpiry : Time) (i : ℕ) (hc : c.Idle) :
      Turn c (.db (.selectClaimable queue now leaseExpiry)) (.ok (some i))
        (selected i now leaseExpiry)
  | claims (i : ℕ) (w : String) (now leaseExpiry : Time) (run : RunRow) :
      Turn (selected i now leaseExpiry) (.db (.claimRun i w now leaseExpiry)) (.ok (some run))
        (exec run.id run.jobId w .working)
  | misses (i : ℕ) (w : String) (now leaseExpiry : Time) (y : Except Exc (Option RunRow)) :
      Turn (selected i now leaseExpiry) (.db (.claimRun i w now leaseExpiry)) y rest
  | fires (c : Phase) (j : ℕ) (nextRunAt : Option Time) (hc : c.Idle) :
      Turn c (.db (.claimScheduled j nextRunAt)) (.ok true) (fired j)
  | creates (j : ℕ) (scheduledAt : Option Time) (run : RunRow) :
      Turn (fired j) (.db (.createRun j scheduledAt)) (.ok run) rest
  | retries (i j : ℕ) (w : String) (scheduledAt : Option Time) (run : RunRow) :
      Turn (exec i j w .failed) (.db (.createRun j scheduledAt)) (.ok run) (exec i j w .closing)
  | givesUp (i j : ℕ) (w : String) (error : String) :
      Turn (exec i j w .working) (.db (.failRun i error none)) (.ok ()) (exec i j w .failed)
  | givesBack (i j : ℕ) (w : String) (error : String) (t : Time) :
      Turn (exec i j w .working) (.db (.failRun i error (some t))) (.ok ()) (exec i j w .returned)
  | completes (i j : ℕ) (w : String) (result : Value) :
      Turn (exec i j w .working) (.db (.completeRun i result)) (.ok ()) (exec i j w .closing)
  | cancels (i j : ℕ) (w : String) :
      Turn (exec i j w .working) (.db (.cancelRun i)) (.ok ()) (exec i j w .closing)

/-- **There is no other move.** -/
theorem turn {may : Leave} {c : Phase} {r : Req} (y : Except Exc r.Reply)
    (h : c.ok may r) : Turn c r y (c.next r y) := by
  unfold next
  split
  · split
    · exact .stays _ _ _
    · rename_i hc
      refine .reads _ _ fun hx => ?_
      cases c <;> first | exact hx | exact hc _ _ _ _ rfl
  · exact .selects _ _ _ _ _ h.1
  · obtain rfl : c = _ := h
    exact .claims _ _ _ _ _
  · obtain rfl : c = _ := h
    exact .misses _ _ _ _ _
  · exact .fires _ _ _ h.2
  · rcases h with rfl | ⟨i, w, rfl⟩
    · exact .creates _ _ _
    · exact .retries _ _ _ _ _
  · obtain ⟨j, w, s, rfl, hs⟩ := h
    cases s with
    | working => exact .givesUp _ _ _ _
    | _ => exact .stays _ _ _
  · obtain ⟨j, w, rfl⟩ := h
    exact .givesBack _ _ _ _ _
  · obtain ⟨j, w, rfl⟩ := h
    exact .completes _ _ _ _
  · obtain ⟨j, w, rfl⟩ := h
    exact .cancels _ _ _
  · exact .stays _ _ _

lemma next_exec {may : Leave} {i j : ℕ} {w : String} {s : Stage} {r : Req}
    (y : Except Exc r.Reply) (h : (exec i j w s).ok may r) :
    ∃ s', (exec i j w s).next r y = .exec i j w s' := by
  have hturn := turn y h
  generalize (exec i j w s).next r y = c' at hturn
  cases hturn with
  | reads _ _ hc => exact absurd trivial hc
  | selects _ _ _ _ _ hc | fires _ _ _ hc => exact hc.elim
  | _ => exact ⟨_, rfl⟩

/-- A process that executes a run after a reply did so before, or has just won the run. -/
lemma exec_of_next {may : Leave} {c : Phase} {i j : ℕ} {w : String} {s : Stage} {r : Req}
    {y : Except Exc r.Reply} (hok : c.ok may r) (h : c.next r y = .exec i j w s) :
    (∃ s', c = .exec i j w s') ∨ ∃ pid cl, claimIn pid r y = some cl ∧ cl.run.id = i ∧
      cl.run.jobId = j ∧ cl.workerId = w := by
  have hturn := turn y hok
  rw [h] at hturn
  cases hturn with
  | claims i' _ now le run => exact .inr ⟨0, _, rfl, rfl, rfl, rfl⟩
  | _ => exact .inl ⟨_, rfl⟩

lemma ne_gone_of_ok {may : Leave} {c : Phase} {r : Req} (h : c.ok may r) : c ≠ gone := by
  rintro rfl
  unfold ok at h
  split at h <;> simp_all [Idle]

end Phase

def Valid : (r : Req) → Except Exc r.Reply → Prop
  | .db (.getJob jobId), .ok (some job) => job.id = jobId
  | .db (.claimRun runId _ _ _), .ok (some run) => run.id = runId
  | _, _ => True

lemma valid_of_answer {db db' : DB} {r : Req} {a : Answer} {y : Except Exc r.Reply}
    (h : answer db r a = some (db', y)) : Valid r y := by
  unfold Valid
  split
  · rename_i jobId job
    cases a <;> simp only [answer, reduceCtorEq] at h
    · simp only [Call.exec, Option.some.injEq, Prod.mk.injEq, Except.ok.injEq] at h
      exact Table.key_of_get? h.2
    · cases h
  · rename_i runId workerId now leaseExpiry run
    cases a <;> simp only [answer, reduceCtorEq] at h
    · simp only [Call.exec, DB.claimRun, Option.some.injEq, Prod.mk.injEq, Except.ok.injEq,
        Option.map_eq_some_iff, Option.filter_eq_some_iff] at h
      obtain ⟨-, r, ⟨hr, -⟩, rfl⟩ := h
      exact Table.key_of_get? hr
    · cases h
  · trivial

lemma valid_error (c : Call) (exc : Exc) : Valid (.db c) (.error exc) := by cases c <;> trivial

lemma valid_ask {r : Req} {y : Except Exc r.Reply} (hr : ∀ c, r ≠ .db c) : Valid r y := by
  cases r with
  | db c => exact absurd rfl (hr c)
  | _ => trivial

/-- A reply that can come back moves a process to the next phase. -/
abbrev Phase.Moves : Phase → (r : Req) → Except Exc r.Reply → Phase → Prop :=
  Prog.Moving (fun _ r y => Valid r y) Phase.next

/-- The program, from the phase on, asks only what its phases allow, and ends where `Q` holds. -/
abbrev Obeys {α : Type} (may : Leave) (p : Io α) (Q : Except Exc α → Phase → Prop)
    (c : Phase) : Prop :=
  p.Keeps Phase.Moves (Phase.ok may) Q c

/-! ### Executing a run -/

def Anyhow {α : Type} : Except Exc α → Phase → Prop := fun _ _ => True

def Own {α : Type} (i j : ℕ) (w : String) : Except Exc α → Phase → Prop :=
  fun _ c => ∃ s, c = .exec i j w s ∧ s ≠ .returned

def Working {α : Type} (i j : ℕ) (w : String) : Except Exc α → Phase → Prop :=
  fun _ c => c = .exec i j w .working

/-- As `_run` leaves it: who raises an exception still has the run. -/
def Raising (i j : ℕ) (w : String) : Except Exc Unit → Phase → Prop
  | .ok _, _ => True
  | .error _, c => ∃ s, c = .exec i j w s ∧ s ≠ .returned

/-- As `_run_task` leaves it: a task that succeeded leaves everything open. -/
def Ended (i j : ℕ) (w : String) : Except Exc (Worker.TaskEnd × TaskContext) → Phase → Prop
  | .ok (.ok, _), c => c = .exec i j w .working
  | .ok (.cancel, _), _ | .ok (.retry, _), _ => True
  | .ok (.failed, _), c | .error _, c => ∃ s, c = .exec i j w s ∧ s ≠ .returned

section Executing

variable {may : Leave} {i j : ℕ} {w : String} {s : Stage} {cls : JobCls} {job : JobRow}

lemma compensateFrom_obeys (records : List TaskRow) (ctx : TaskContext) :
    Obeys may (Worker.compensateFrom i cls records ctx) (Working i j w)
      (.exec i j w .working) := by
  induction records generalizing ctx with
  | nil => rfl
  | cons record records ih =>
    unfold Worker.compensateFrom
    split
    · exact ih ctx
    · split
      · rfl
      · refine .ask (.inr ⟨j, w, rfl⟩) (fun _ => rfl) ?_
        rintro ⟨_, state⟩ -
        refine .ask (.inr ⟨j, w, rfl⟩) (fun _ => rfl) ?_
        rintro - -
        exact ih _

lemma compensate_obeys (ctx : TaskContext) :
    Obeys may (Worker.compensate i cls ctx) (Working i j w) (.exec i j w .working) := by
  refine .ask nofun (fun _ => rfl) ?_
  rintro records -
  exact compensateFrom_obeys _ ctx

lemma finalizeFailed_obeys (error : String) :
    Obeys may (Worker.finalizeFailed job i error) (Own i job.id w)
      (.exec i job.id w .working) := by
  refine .ask ⟨job.id, w, _, rfl, nofun⟩ (fun _ => ⟨_, rfl, nofun⟩) ?_
  rintro - -
  change Obeys may (if job.retries ≤ 0 then _ else _) _ (.exec i job.id w .failed)
  split
  · exact ⟨_, rfl, nofun⟩
  · refine .ask ⟨i, w, _, rfl⟩ (fun _ => ⟨_, rfl, nofun⟩) ?_
    rintro attempts -
    split
    · refine .ask nofun (fun _ => ⟨_, rfl, nofun⟩) ?_
      rintro retryAt -
      refine .ask (.inr ⟨i, w, rfl⟩) (fun _ => ⟨_, rfl, nofun⟩) ?_
      rintro - -
      exact ⟨_, rfl, nofun⟩
    · exact ⟨_, rfl, nofun⟩

lemma reschedule_obeys (hs : s ≠ .returned) (ctx : TaskContext) :
    Obeys may (Worker.reschedule job i ctx) (Own i job.id w) (.exec i job.id w s) := by
  unfold Worker.reschedule
  split
  · exact ⟨s, rfl, hs⟩
  · refine .ask nofun (fun _ => ⟨s, rfl, hs⟩) ?_
    rintro (_ | run) -
    · exact ⟨s, rfl, hs⟩
    · refine .ask nofun (fun _ => ⟨s, rfl, hs⟩) ?_
      rintro t -
      exact .last ⟨i, w, s, rfl⟩ fun y => ⟨s, rfl, hs⟩

lemma rescheduleOnError_obeys {run : RunRow} :
    Obeys may (Worker.rescheduleOnError run) Anyhow (.exec i run.jobId w s) := by
  refine .ask nofun (fun _ => trivial) ?_
  rintro (_ | job) hv
  · trivial
  · have hj : job.id = run.jobId := hv
    rw [← hj]
    change Obeys may (if job.source ≠ .scheduled then _ else _) _ (.exec i job.id w s)
    split
    · trivial
    · refine .ask nofun (fun _ => trivial) ?_
      rintro now -
      exact .last ⟨i, w, s, rfl⟩ fun y => trivial

lemma runTask_obeys (ctx : TaskContext) (pos : ℕ) (task : TaskCls) (existing : Option TaskRow) :
    Obeys may (Worker.runTask i cls job ctx pos task existing) (Ended i job.id w)
      (.exec i job.id w .working) := by
  refine .ask ⟨_, _, rfl⟩ (fun _ => ⟨_, rfl, nofun⟩) ?_
  rintro - -
  refine .ask ⟨_, _, rfl⟩ (fun _ => ⟨_, rfl, nofun⟩) ?_
  rintro ⟨exc | v, state⟩ -
  · change Obeys may (if exc.isJobCancelled then _ else _) _ (.exec i job.id w .working)
    split
    · refine .ask ⟨_, _, rfl⟩ (fun _ => ⟨_, rfl, nofun⟩) ?_
      rintro - -
      refine .ask ⟨_, _, rfl⟩ (fun _ => ⟨_, rfl, nofun⟩) ?_
      rintro - -
      trivial
    · split
      · refine .ask ⟨_, _, rfl⟩ (fun _ => ⟨_, rfl, nofun⟩) ?_
        rintro - -
        refine .ask ⟨_, _, rfl⟩ (fun _ => ⟨_, rfl, nofun⟩) ?_
        rintro - -
        refine .bind ((compensate_obeys _).mono ?_)
        rintro (_ | ctx) c (rfl : c = _)
        · exact ⟨_, rfl, nofun⟩
        · refine .bind ((finalizeFailed_obeys _).mono ?_)
          rintro (_ | ⟨⟩) c ⟨s, rfl, hs⟩ <;> exact ⟨s, rfl, hs⟩
      · refine .ask nofun (fun _ => ⟨_, rfl, nofun⟩) ?_
        rintro retryAt -
        refine .ask ⟨_, _, rfl⟩ (fun _ => ⟨_, rfl, nofun⟩) ?_
        rintro - -
        refine .ask ⟨_, _, rfl⟩ (fun _ => ⟨_, rfl, nofun⟩) ?_
        rintro - -
        refine .ask ⟨_, _, rfl⟩ (fun _ => ⟨_, rfl, nofun⟩) ?_
        rintro - -
        trivial
  · refine .ask ⟨_, _, rfl⟩ (fun _ => ⟨_, rfl, nofun⟩) ?_
    rintro - -
    refine .ask ⟨_, _, rfl⟩ (fun _ => ⟨_, rfl, nofun⟩) ?_
    rintro - -
    rfl

lemma runTasks_obeys (records : List TaskRow) (tasks : List TaskCls) (pos : ℕ) (ctx : TaskContext) :
    Obeys may (Worker.runTasks i cls job records tasks pos ctx) (Ended i job.id w)
      (.exec i job.id w .working) := by
  induction tasks generalizing pos ctx with
  | nil => rfl
  | cons task tasks ih =>
    refine .bind ((runTask_obeys ctx pos task _).mono ?_)
    rintro (_ | ⟨_ | _ | _ | _, ctx⟩) c h
    · exact h
    · obtain rfl : c = _ := h
      exact ih (pos + 1) ctx
    all_goals exact h

lemma resume_obeys (run : RunRow) (records : List TaskRow) :
    Obeys may (Worker.resume run job cls records) (Raising run.id job.id w)
      (.exec run.id job.id w .working) := by
  have hresched : ∀ {s : Stage} (ctx : TaskContext), s ≠ .returned →
      Obeys may (Worker.reschedule job run.id ctx) (Raising run.id job.id w)
        (.exec run.id job.id w s) := by
    intro s ctx hs
    refine (reschedule_obeys hs ctx).mono ?_
    rintro (_ | ⟨⟩) c hc
    · exact hc
    · trivial
  unfold Worker.resume
  dsimp only
  split
  · refine .ask ⟨_, _, rfl⟩ (fun _ => ⟨_, rfl, nofun⟩) ?_
    rintro - -
    refine .bind ((compensate_obeys _).mono ?_)
    rintro (_ | ctx) c (rfl : c = _)
    · exact ⟨_, rfl, nofun⟩
    · refine .bind ((finalizeFailed_obeys _).mono ?_)
      rintro (_ | ⟨⟩) c ⟨s, rfl, hs⟩
      · exact ⟨s, rfl, hs⟩
      · exact hresched ctx hs
  · refine .bind ((runTasks_obeys records _ _ _).mono ?_)
    rintro (_ | ⟨_ | _ | _ | _, ctx⟩) c h
    · exact h
    · obtain rfl : c = _ := h
      refine Prog.Keeps.ask ⟨_, _, rfl⟩ (fun _ => ⟨_, rfl, nofun⟩) ?_
      rintro - -
      refine .ask ⟨run.id, w, _, rfl⟩ (fun _ => ⟨_, rfl, nofun⟩) ?_
      rintro - -
      exact hresched ctx nofun
    · trivial
    · trivial
    · obtain ⟨s, rfl, hs⟩ := h
      exact hresched ctx hs

lemma run_obeys (worker : Worker) (run : RunRow) :
    Obeys may (worker.run run) (Raising run.id run.jobId w)
      (.exec run.id run.jobId w .working) := by
  refine .ask nofun (fun _ => ⟨_, rfl, nofun⟩) ?_
  rintro (_ | job) hv
  · exact .last ⟨_, _, _, rfl, nofun⟩ fun y => by
      cases y
      · exact ⟨_, rfl, nofun⟩
      · trivial
  · have hj : job.id = run.jobId := hv
    change Obeys may (if job.status = .cancelled then _ else _) _
      (.exec run.id run.jobId w .working)
    split
    · exact .last ⟨_, _, rfl⟩ fun y => by
        cases y
        · exact ⟨_, rfl, nofun⟩
        · trivial
    · split
      · exact .last ⟨_, _, _, rfl, nofun⟩ fun y => by
          cases y
          · exact ⟨_, rfl, nofun⟩
          · trivial
      · refine .ask nofun (fun _ => ⟨_, rfl, nofun⟩) ?_
        rintro records -
        rw [← hj]
        exact resume_obeys run records

lemma execute_obeys (worker : Worker) (run : RunRow) :
    Obeys may (worker.execute run) Anyhow (.exec run.id run.jobId w .working) := by
  refine .tryCatch ((run_obeys worker run).mono ?_)
  rintro (e | ⟨⟩) c h
  · obtain ⟨s, rfl, hs⟩ := h
    refine Prog.Keeps.ask ⟨_, _, s, rfl, hs⟩ (fun _ => trivial) ?_
    rintro - -
    cases s <;> exact rescheduleOnError_obeys
  · trivial

end Executing

/-! ### Every process -/

section Others

variable {may : Leave} {c : Phase}

/-- As `claim` leaves it: a run that was won is executed from here on. -/
def Won : Except Exc (Option RunRow) → Phase → Prop
  | .ok (some run), c => ∃ w, c = .exec run.id run.jobId w .working
  | _, _ => True

lemma claim_obeys (hclaim : may.claim) (worker : Worker) : Obeys may worker.claim Won .rest := by
  refine .ask nofun (fun _ => trivial) ?_
  rintro now -
  refine .ask nofun (fun _ => trivial) ?_
  rintro now' -
  refine .ask ⟨trivial, hclaim⟩ (fun _ => trivial) ?_
  rintro (_ | runId) -
  · trivial
  · refine Prog.Keeps.last rfl ?_
    rintro (_ | _ | run)
    · trivial
    · trivial
    · exact ⟨worker.workerId, rfl⟩

lemma tick_obeys (hclaim : may.claim) (worker : Worker) : Obeys may worker.tick Anyhow .rest := by
  refine .bind ((claim_obeys hclaim worker).mono ?_)
  rintro (_ | _ | run) c h
  · trivial
  · trivial
  · obtain ⟨w, rfl⟩ := h
    exact execute_obeys worker run

lemma heartbeat_obeys (worker : Worker) (active : List (ℕ × ℕ)) :
    Obeys may (worker.heartbeat active) Anyhow .rest := by
  induction active with
  | nil => trivial
  | cons p active ih =>
    refine .ask nofun (fun _ => trivial) ?_
    rintro (_ | _) -
    · refine .ask trivial (fun _ => trivial) ?_
      rintro held -
      exact ih
    · exact ih

lemma enqueue_obeys (spec : JobSpec) (scheduledAt : Option Time) :
    Obeys may (JobManager.enqueue spec scheduledAt) Anyhow .rest := by
  unfold JobManager.enqueue
  dsimp only
  split
  · exact .last ⟨trivial, rfl, rfl⟩ fun _ => trivial
  · refine .ask nofun (fun _ => trivial) ?_
    rintro (_ | existing) -
    · refine .tryCatch (Prog.Keeps.last ⟨trivial, rfl, rfl⟩ ?_)
      rintro (exc | job)
      · cases exc with
        | integrityError msg =>
          refine Prog.Keeps.ask nofun (fun _ => trivial) ?_
          rintro (_ | existing) - <;> trivial
        | _ => trivial
      · trivial
    · trivial

lemma schedule_obeys (spec : JobSpec) : Obeys may (JobManager.schedule spec) Anyhow .rest := by
  refine .ask nofun (fun _ => trivial) ?_
  rintro (_ | existing) -
  · exact .last ⟨trivial, rfl⟩ fun _ => trivial
  · trivial

lemma delete_obeys (jobId : ℕ) : Obeys may (JobManager.delete jobId) Anyhow .rest := by
  refine .ask nofun (fun _ => trivial) ?_
  rintro (_ | _) -
  · exact .last trivial fun _ => trivial
  · trivial

lemma prune_obeys (age : ℤ) : Obeys may (JobManager.prune age) Anyhow .rest := by
  refine .ask nofun (fun _ => trivial) ?_
  rintro now -
  refine .ask nofun (fun _ => trivial) ?_
  rintro runIds -
  change Obeys may (if runIds = [] then _ else _) _ (.read now)
  split
  · trivial
  · refine .ask trivial (fun _ => trivial) ?_
    rintro - -
    trivial

lemma undoFrom_obeys (i : ℕ) (cls : JobCls) (records : List TaskRow) (ctx : TaskContext) :
    Obeys may (JobManager.undoFrom i cls records ctx) Anyhow .rest := by
  induction records generalizing ctx with
  | nil => trivial
  | cons record records ih =>
    unfold JobManager.undoFrom
    split
    · exact ih ctx
    · split
      · trivial
      · refine .ask (.inl trivial) (fun _ => trivial) ?_
        rintro ⟨_ | exc, state⟩ -
        · refine .ask (.inl trivial) (fun _ => trivial) ?_
          rintro - -
          exact ih _
        · trivial

lemma undo_obeys (resolve : String → Option JobCls) (jobId : ℕ) :
    Obeys may (JobManager.undo resolve jobId) Anyhow .rest := by
  refine .ask (fun hgone => by cases hgone) (fun _ => trivial) ?_
  rintro (_ | record) -
  · trivial
  · refine Prog.Keeps.ask (fun hgone => by cases hgone) (fun _ => trivial) ?_
    rintro (_ | ⟨run, _⟩) -
    · trivial
    · dsimp only
      split
      · trivial
      · refine .ask (fun hgone => by cases hgone) (fun _ => trivial) ?_
        rintro records -
        exact undoFrom_obeys _ _ _ _

lemma sweep_obeys {g : ℤ} (hg : may.grace g) (now : Time) (pc : Option Time) (fuel : ℕ)
    (total : DB.Reconciled) :
    Obeys may (JobManager.sweep now (now - seconds g) pc fuel total) (fun _ c => c = .read now)
      (.read now) := by
  induction fuel generalizing total with
  | zero => rfl
  | succ fuel ih =>
    refine .ask ⟨rfl, g, hg, rfl⟩ (fun _ => rfl) ?_
    rintro ⟨stale, changed⟩ -
    dsimp only
    split
    · rfl
    · exact ih _

lemma reconcileAbandoned_obeys {g : ℤ} (hg : may.grace g) (fuel : ℕ) :
    Obeys may (JobManager.reconcileAbandoned g fuel) (fun _ c => c.Idle) .rest := by
  refine .ask nofun (fun _ => trivial) ?_
  rintro now -
  refine .ask nofun (fun _ => trivial) ?_
  rintro pc -
  refine .bind ((sweep_obeys hg now pc fuel _).mono ?_)
  rintro (_ | _ | total) c (rfl : c = .read now)
  · trivial
  · trivial
  · refine Prog.Keeps.ask ⟨rfl, g, hg, rfl⟩ (fun _ => trivial) ?_
    rintro rearmed -
    trivial

lemma fireDue_obeys (misfireGrace : Option ℤ) (jobs : List JobRow)
    (hc : c.Idle ∨ ∃ j, c = .fired j) :
    Obeys may (JobManager.fireDue misfireGrace jobs) Anyhow c := by
  induction jobs generalizing c with
  | nil => trivial
  | cons job jobs ih =>
    refine .ask (fun h => ?_) (fun _ => trivial) ?_
    · subst h
      rcases hc with ⟨⟨⟩⟩ | ⟨_, ⟨⟩⟩
    rintro now -
    have hnext : c.next .now (.ok now) = .read now := by
      cases c with
      | rest | read | fired => rfl
      | gone | selected | exec => rcases hc with ⟨⟨⟩⟩ | ⟨_, ⟨⟩⟩
    rw [hnext]
    change Obeys may (if job.nextRunAt.any (now < ·) then _ else _) _ (.read now)
    split
    · exact ih (.inl trivial)
    · refine .ask ⟨rfl, trivial⟩ (fun _ => trivial) ?_
      rintro (_ | _) -
      · exact ih (.inl trivial)
      · change Obeys may (if JobManager.isMisfired job.nextRunAt now misfireGrace then _ else _) _
          (.fired job.id)
        split
        · exact ih (.inr ⟨_, rfl⟩)
        · refine .ask (.inl rfl) (fun _ => trivial) ?_
          rintro run -
          exact ih (.inl trivial)

lemma beat_obeys {g : ℤ} (hg : may.grace g) (misfireGrace : Option ℤ) (fuel : ℕ) :
    Obeys may (JobManager.tick g misfireGrace fuel) Anyhow .rest := by
  refine .bind ((reconcileAbandoned_obeys hg fuel).mono ?_)
  rintro (_ | _ | total) c hc
  · trivial
  · trivial
  · refine Prog.Keeps.ask (fun h => ?_) (fun _ => trivial) ?_
    · subst h
      exact hc
    rintro jobs -
    exact fireDue_obeys _ _ (.inl hc)

/-- **Every process keeps to its phases**, if it has leave for what it was started as. -/
theorem Kind.inPhase (k : Kind) (hbeat : ∀ g m fuel, k = .beat g m fuel → may.grace g)
    (hclaim : ∀ w, k = .worker w → may.claim) :
    Pool.InPhase Phase.Moves (Phase.ok may) (fun _ => True) k.program .rest := by
  cases k with
  | enqueue spec scheduledAt =>
    refine .bind ((enqueue_obeys spec scheduledAt).mono ?_)
    rintro (_ | _) c - <;> trivial
  | schedule spec =>
    refine .bind ((schedule_obeys spec).mono ?_)
    rintro (_ | _) c - <;> trivial
  | cancel jobId => exact Prog.Keeps.last trivial fun _ => trivial
  | delete jobId => exact delete_obeys jobId
  | prune age =>
    refine .bind ((prune_obeys age).mono ?_)
    rintro (_ | _) c - <;> trivial
  | undo resolve jobId => exact undo_obeys resolve jobId
  | beat g m fuel => exact beat_obeys (hbeat g m fuel rfl) m fuel
  | worker w => exact tick_obeys (hclaim w rfl) w
  | heartbeat w active => exact heartbeat_obeys w active
  | progress runId value => exact Prog.Keeps.last trivial fun _ => trivial

end Others

/-! ### The invariant rule of the system -/

abbrev InPhases (may : Leave) (p : System) (ph : ℕ → Phase) : Prop :=
  Pool.Phased Phase.Moves (Phase.ok may) (fun _ => True) .rest .gone p ph

/-- **The invariant rule**: `G` holds at the start, survives that a process is gone, and survives
what an answered process does: a transaction that commits, one that raises, a request that is not a
transaction. -/
theorem System.phases (grace : ℤ → Prop) (G : DB → List Ev → (ℕ → Phase) → Prop)
    {C : System → Act → Prop}
    (hbeat : ∀ p g m fuel, C p (.spawn (.beat g m fuel)) → grace g)
    (hinit : G {} [] fun _ => .rest)
    (hgone : ∀ db log ph pid, G db log ph → G db log (Function.update ph pid .gone))
    (hcommit : ∀ (p : System) ph pid c e db' y, C p (.act pid (.commit e)) →
      InPhases { grace := grace } p ph → p.pending pid = some (.db c) →
      (ph pid).ok { grace := grace } (.db c) → c.exec p.shared e = some (db', y) →
      G p.shared p.log ph → G db' (p.log ++ [⟨pid, .db c, .commit e, y, p.shared, db'⟩])
        (Function.update ph pid ((ph pid).next (.db c) y)))
    (hraise : ∀ (p : System) ph pid c exc, C p (.act pid (.fail exc)) → G p.shared p.log ph →
      (ph pid).ok { grace := grace } (.db c) →
      G p.shared (p.log ++ [⟨pid, .db c, .fail exc, .error exc, p.shared, p.shared⟩])
        (Function.update ph pid ((ph pid).next (.db c) (.error exc))))
    (hask : ∀ (p : System) ph pid r a y, C p (.act pid a) → (∀ c, r ≠ .db c) →
      p.pending pid = some r → (ph pid).ok { grace := grace } r →
      answer p.shared r a = some (p.shared, y) → G p.shared p.log ph →
      G p.shared (p.log ++ [⟨pid, r, a, y, p.shared, p.shared⟩])
        (Function.update ph pid ((ph pid).next r y)))
    {p : System} (h : p.Reached C) :
    ∃ ph, InPhases { grace := grace } p ph ∧ G p.shared p.log ph := by
  refine Pool.phases ?_ (fun p ph pid _ _ hG => hgone _ _ _ _ hG)
    (fun _ _ _ _ _ hG => hgone _ _ _ _ hG) ?_ h (fun _ => rfl) hinit
  · intro p k hk
    exact k.inPhase (fun g m fuel hg => hbeat p g m fuel (hg ▸ hk)) fun _ _ => trivial
  · intro p p' ph pid a r f y hC _ hph hG hacts hok
    refine ⟨_, ⟨valid_of_answer hacts.answered, rfl⟩, ?_⟩
    rw [hacts.logged]
    have hasks := hacts.pending
    revert hasks hok hC
    refine answer_cases (motive := fun r a db' y => C p (.act pid a) →
      (ph pid).ok { grace := grace } r → p.pending pid = some r →
        G db' (p.log ++ [⟨pid, r, a, y, p.shared, db'⟩])
          (Function.update ph pid ((ph pid).next r y))) ?_ ?_ ?_ hacts.answered
    · intro c e db' y hx hC hok hasks
      exact hcommit p ph pid c e db' y hC hph hasks hok hx hG
    · intro c exc hC hok _
      exact hraise p ph pid c exc hC hG hok
    · intro r a y hr hans hC hok hasks
      exact hask p ph pid r a y hC hr hasks hok hans hG

end Pyreljob
