import Pyreljob.System.Execution
import Pyreljob.System.Firing

/-!
How many runs a job gets when its runs keep failing.

An execution that has given its run up counts the failure on the job, and creates another run if the
count it gets back is within the job's `retries`. Only the count limits the retries: a run may be
given up by any number of executions, each of which counts and may create one. As long as nobody
resets the count each value of it is handed out once, so the runs are no more than `retries` allows.
-/

namespace Pyreljob

open Lib

/-! ### Leave to retry -/

/-- What an execution of a run of the job may create; any other process is `out`. -/
inductive Grant
  | out
  | works
  /-- It has counted its failure, and the count is within the job's `retries`. -/
  | granted
  deriving DecidableEq

namespace Grant

variable (j : ℕ) (R : ℤ)

def next : Grant → (r : Req) → Except Exc r.Reply → Grant
  | out, .db (.claimRun ..), .ok (some run) => if run.jobId = j then works else out
  | out, _, _ => out
  | _, .db (.incrementJobAttempts i), .ok n => if i = j ∧ (n : ℤ) ≤ R then granted else works
  | granted, .db (.createRun ..), .ok _ => works
  | c, _, _ => c

/-- What a process may ask. The job is on-demand, so nobody arms it or fires it. -/
def ok (c : Grant) : Req → Prop
  | .db (.createRun i _) => i = j → c = granted
  | .db (.incrementJobAttempts i) => i = j → c ≠ out
  | .db (.resetJobAttempts i) | .db (.setNextRunAt i _) => i ≠ j
  | .db (.insertJobAndRun spec _) => spec.nextRunAt = none
  | .db (.insertJob spec) => spec.source = .scheduled
  | _ => True

def Fits (c : Grant) : (r : Req) → Except Exc r.Reply → Prop
  | .db (.getJob i), .ok (some job) => i = j → job.source = .onDemand ∧ job.retries = R
  | .db (.claimScheduled i _), .ok true => i ≠ j
  | .db (.completeRun ..), .ok _ => c = out
  | _, _ => True

abbrev Moves : Grant → (r : Req) → Except Exc r.Reply → Grant → Prop :=
  Prog.Moving (fun c r y => Valid r y ∧ c.Fits j R r y) (next j R)

def token (c : Grant) : ℕ := if c = granted then 1 else 0

variable {j R}

lemma next_out {r : Req} {y : Except Exc r.Reply}
    (hr : ∀ i w now le, r ≠ .db (.claimRun i w now le)) : out.next j R r y = out := by
  unfold next
  split
  · exact absurd rfl (hr _ _ _ _)
  · rfl
  all_goals trivial

lemma token_le {c : Grant} {r : Req} {y : Except Exc r.Reply}
    (hr : r ≠ .db (.incrementJobAttempts j)) : (c.next j R r y).token ≤ c.token := by
  unfold next
  split
  · split <;> exact Nat.zero_le _
  · exact le_rfl
  · rename_i i n hout
    have hi : i ≠ j := by
      rintro rfl
      exact hr rfl
    rw [if_neg (fun h => hi h.1)]
    exact Nat.zero_le _
  · exact Nat.zero_le _
  · exact le_rfl

lemma next_error {c : Grant} (call : Call) (exc : Exc) : c.next j R (.db call) (.error exc) = c := by
  cases c <;> cases call <;> rfl

lemma next_ne_out {c : Grant} {r : Req} {y : Except Exc r.Reply} (hc : c ≠ out) :
    c.next j R r y ≠ out := by
  unfold next
  split
  · exact absurd rfl hc
  · exact absurd rfl hc
  · split <;> nofun
  · nofun
  · exact hc

end Grant

/-- The program, which has to do with the job `i`, creates no run of the job `j` but with a grant. -/
abbrev Grants {α : Type} (j : ℕ) (R : ℤ) (i : ℕ) (p : Io α) : Prop :=
  p.Within (Grant.Moves j R) (Grant.ok j) fun c => i = j → c ≠ .out

section Worker

variable {j : ℕ} {R : ℤ} {i : ℕ} {α β : Type}

lemma grants_closed : Prog.Closed (Grant.Moves j R) (Grant.ok j) (fun c => i = j → c ≠ .out)
    fun c r => c.ok j r where
  ok _ _ _ hr := hr
  stays := by
    rintro c r y _ hc - ⟨-, rfl⟩ hi
    exact Grant.next_ne_out (hc hi)

variable {cls : JobCls} {job : JobRow} {runId : ℕ}

lemma compensateFrom_grants (records : List TaskRow) (ctx : TaskContext) :
    Grants j R i (Worker.compensateFrom runId cls records ctx) := by
  induction records generalizing ctx with
  | nil => exact .ret _
  | cons record records ih =>
    unfold Worker.compensateFrom
    split
    · exact ih ctx
    · split
      · exact .ret _
      · refine grants_closed.ask (fun _ _ => trivial) fun undone => ?_
        refine grants_closed.ask (fun _ _ => trivial) fun _ => ?_
        exact ih _

lemma compensate_grants (ctx : TaskContext) :
    Grants j R i (Worker.compensate runId cls ctx) :=
  grants_closed.ask (fun _ _ => trivial) fun _ => compensateFrom_grants _ ctx

/-- **A failure is counted before it is retried.** -/
lemma finalizeFailed_grants (hjob : job.id = j → job.retries = R) (error : String) :
    Grants j R job.id (Worker.finalizeFailed job runId error) := by
  refine grants_closed.ask (fun _ _ => trivial) fun _ => ?_
  split
  · exact .ret _
  · intro c hc
    refine .call_bind (fun hi => hc hi) ?_ ?_
    · rintro e _ ⟨-, rfl⟩ hi
      exact Grant.next_ne_out (hc hi)
    rintro attempts _ ⟨-, rfl⟩
    have hne : job.id = j → c.next j R (.db (.incrementJobAttempts job.id)) (.ok attempts) ≠ .out :=
      fun hi => Grant.next_ne_out (hc hi)
    split
    · rename_i hle
      -- the grant lasts while the backoff is computed
      refine .call_bind trivial ?_ ?_
      · rintro e _ ⟨-, rfl⟩ hi
        exact Grant.next_ne_out (hne hi)
      rintro retryAt _ ⟨-, rfl⟩
      refine .call_bind ?_ ?_ ?_
      · intro hi
        rw [hjob hi] at hle
        cases c with
        | out => exact absurd rfl (hc hi)
        | works | granted => simp [Grant.next, hi, hle]
      · rintro e _ ⟨-, rfl⟩ hi
        exact Grant.next_ne_out (Grant.next_ne_out (hne hi))
      · rintro run _ ⟨-, rfl⟩ hi
        exact Grant.next_ne_out (Grant.next_ne_out (hne hi))
    · exact hne

lemma reschedule_grants (hjob : job.id = j → job.source = .onDemand) (ctx : TaskContext) :
    Grants j R job.id (Worker.reschedule job runId ctx) := by
  unfold Worker.reschedule
  split
  · exact .ret _
  · rename_i hs
    have hne : job.id ≠ j := by
      intro hi
      rw [hjob hi] at hs
      exact hs nofun
    refine grants_closed.ask (fun _ _ => trivial) fun run => ?_
    cases run with
    | none => exact .ret _
    | some run =>
      refine grants_closed.ask (fun _ _ => trivial) fun next => ?_
      exact grants_closed.last fun _ _ => hne

lemma rescheduleOnError_grants (run : RunRow) :
    Grants j R run.jobId (Worker.rescheduleOnError run) := by
  refine grants_closed.ask_reply (fun _ _ => trivial) fun job c _ hc hmove => ?_
  cases job with
  | none => exact .ret _
  | some job =>
    obtain ⟨hid, hjob⟩ := hmove.1
    change Grants j R run.jobId (if job.source ≠ .scheduled then _ else _)
    split
    · exact .ret _
    · rename_i hs
      have hne : job.id ≠ j := by
        intro hi
        rw [(hjob (hid.symm.trans hi)).1] at hs
        exact hs nofun
      refine grants_closed.ask (fun _ _ => trivial) fun now => ?_
      exact grants_closed.last fun _ _ => hne

lemma runTask_grants (hjob : job.id = j → job.retries = R) (ctx : TaskContext) (pos : ℕ)
    (task : TaskCls) (existing : Option TaskRow) :
    Grants j R job.id (Worker.runTask runId cls job ctx pos task existing) := by
  refine grants_closed.ask (fun _ _ => trivial) fun _ => ?_
  refine grants_closed.ask (fun _ _ => trivial) fun ran => ?_
  obtain ⟨exc | v, state⟩ := ran
  · change Grants j R job.id (if exc.isJobCancelled then _ else _)
    split
    · refine grants_closed.ask (fun _ _ => trivial) fun _ => ?_
      refine grants_closed.ask (fun _ _ => trivial) fun _ => ?_
      exact .ret _
    · split
      · refine grants_closed.ask (fun _ _ => trivial) fun _ => ?_
        refine grants_closed.ask (fun _ _ => trivial) fun _ => ?_
        refine .bind (compensate_grants _) fun ctx => ?_
        exact .bind (finalizeFailed_grants hjob _) fun _ => .ret _
      · refine grants_closed.ask (fun _ _ => trivial) fun retryAt => ?_
        refine grants_closed.ask (fun _ _ => trivial) fun _ => ?_
        refine grants_closed.ask (fun _ _ => trivial) fun _ => ?_
        refine grants_closed.ask (fun _ _ => trivial) fun _ => ?_
        exact .ret _
  · refine grants_closed.ask (fun _ _ => trivial) fun _ => ?_
    refine grants_closed.ask (fun _ _ => trivial) fun _ => ?_
    exact .ret _

lemma runTasks_grants (hjob : job.id = j → job.retries = R) (records : List TaskRow)
    (tasks : List TaskCls) (pos : ℕ) (ctx : TaskContext) :
    Grants j R job.id (Worker.runTasks runId cls job records tasks pos ctx) := by
  induction tasks generalizing pos ctx with
  | nil => exact .ret _
  | cons task tasks ih =>
    refine .bind (runTask_grants hjob ctx pos task _) fun ended => ?_
    obtain ⟨_ | _ | _ | _, ctx⟩ := ended
    · exact ih (pos + 1) ctx
    all_goals exact .ret _

lemma resume_grants (hjob : job.id = j → job.source = .onDemand ∧ job.retries = R) (run : RunRow)
    (records : List TaskRow) : Grants j R job.id (Worker.resume run job cls records) := by
  have hretries : job.id = j → job.retries = R := fun hi => (hjob hi).2
  have hsource : job.id = j → job.source = .onDemand := fun hi => (hjob hi).1
  unfold Worker.resume
  dsimp only
  split
  · refine grants_closed.ask (fun _ _ => trivial) fun _ => ?_
    refine .bind (compensate_grants _) fun ctx => ?_
    exact .bind (finalizeFailed_grants hretries _) fun _ => reschedule_grants hsource ctx
  · refine .bind (runTasks_grants hretries records _ _ _) fun ended => ?_
    obtain ⟨_ | _ | _ | _, ctx⟩ := ended
    · refine grants_closed.ask_reply (fun _ _ => trivial) fun _ c _ hc hmove => ?_
      -- the run completes, so it is none of this job
      have hne : job.id ≠ j := fun hi => hc hi hmove.1.2
      refine grants_closed.ask (fun _ _ => hne) fun _ => ?_
      exact reschedule_grants hsource ctx
    · exact .ret _
    · exact .ret _
    · exact reschedule_grants hsource ctx

lemma run_grants (w : Worker) (run : RunRow) : Grants j R run.jobId (w.run run) := by
  refine grants_closed.ask_reply (fun _ _ => trivial) fun job c _ hc hmove => ?_
  cases job with
  | none => exact grants_closed.last fun _ _ => trivial
  | some job =>
    obtain ⟨hid, hjob⟩ := hmove.1
    change Grants j R run.jobId (if job.status = .cancelled then _ else _)
    split
    · exact grants_closed.last fun _ _ => trivial
    · split
      · exact grants_closed.last fun _ _ => trivial
      · refine grants_closed.ask (fun _ _ => trivial) fun records => ?_
        rw [← hid]
        exact resume_grants (fun hi => hjob (hid.symm.trans hi)) run records

lemma execute_grants (w : Worker) (run : RunRow) : Grants j R run.jobId (w.execute run) := by
  refine .tryCatch (run_grants w run) fun _ => ?_
  refine grants_closed.ask (fun _ _ => trivial) fun _ => ?_
  exact rescheduleOnError_grants run

lemma tick_grants (w : Worker) :
    Pool.InPhase (Grant.Moves j R) (Grant.ok j) (fun _ => True) w.tick .out := by
  refine .bind (.call_bind trivial (fun _ _ _ => trivial) ?_)
  rintro now _ ⟨-, rfl⟩
  refine .call_bind trivial (fun _ _ _ => trivial) ?_
  rintro now' _ ⟨-, rfl⟩
  refine .call_bind trivial (fun _ _ _ => trivial) ?_
  rintro (_ | runId) _ ⟨-, rfl⟩
  · trivial
  · refine Prog.Keeps.call trivial ?_
    rintro (e | _ | run) _ ⟨-, rfl⟩
    · trivial
    · trivial
    · refine Prog.Keeps.mono (execute_grants w run _ ?_) fun _ _ _ => trivial
      intro hi
      simp [Grant.next, hi]

end Worker

section Others

variable {j : ℕ} {R : ℤ}

/-- A process that claims no run executes none, and has not fired the job. -/
def Apart (j : ℕ) (c : Grant) (ph : Phase) : Prop :=
  c = .out ∧ ¬ ph.Executes ∧ (∀ i now le, ph ≠ .selected i now le) ∧ ph ≠ .fired j

lemma apart_next {c : Grant} {ph : Phase} {r : Req} {y : Except Exc r.Reply} (h : Apart j c ph)
    (hok : ph.ok { claim := False } r) (hfits : c.Fits j R r y) :
    Apart j (c.next j R r y) (ph.next r y) := by
  obtain ⟨rfl, hexec, hsel, hfired⟩ := h
  have hturn := Phase.turn y hok
  generalize ph.next r y = ph' at hturn
  cases hturn with
  | stays =>
    have hclaim : ∀ i w now le, r ≠ .db (.claimRun i w now le) := by
      rintro i w now le rfl
      exact hsel i now le hok
    exact ⟨Grant.next_out hclaim, hexec, hsel, hfired⟩
  | reads => exact ⟨rfl, nofun, nofun, nofun⟩
  | selects => exact hok.2.elim
  | claims i w now le | misses i w now le => exact absurd rfl (hsel i now le)
  | fires _ i t hc =>
    have hi : i ≠ j := hfits
    exact ⟨rfl, nofun, nofun, by simpa using hi⟩
  | creates => exact ⟨rfl, nofun, nofun, nofun⟩
  | retries | givesUp | givesBack | completes | cancels => exact absurd trivial hexec

lemma others_grants (k : Kind) (hk : ∀ w, k ≠ .worker w) :
    Pool.InPhase (Grant.Moves j R) (Grant.ok j) (fun _ => True) k.program .out := by
  have hphase : Pool.InPhase Phase.Moves (Phase.ok { claim := False }) (fun _ => True)
      k.program .rest := k.inPhase (fun _ _ _ _ => trivial) fun w hw => hk w hw
  have hstart : Apart j .out .rest := ⟨rfl, nofun, nofun, nofun⟩
  refine (Prog.Keeps.sim (Apart j) ?_ ?_ hphase hstart).mono fun _ _ _ => trivial
  · rintro c ph r y _ h hok ⟨hfits, rfl⟩
    exact ⟨_, ⟨hfits.1, rfl⟩, apart_next h hok hfits.2⟩
  · rintro c ph r ⟨rfl, hexec, hsel, hfired⟩ hok
    unfold Grant.ok
    split
    · rintro rfl
      rcases hok with rfl | ⟨i, w, rfl⟩
      · exact absurd rfl hfired
      · exact absurd trivial hexec
    · obtain ⟨i, w, s, rfl⟩ := hok
      exact absurd trivial hexec
    · obtain ⟨i, w, s, rfl⟩ := hok
      exact absurd trivial hexec
    · obtain ⟨i, w, s, rfl⟩ := hok
      exact absurd trivial hexec
    · exact hok.2.2
    · exact hok.2
    · trivial

end Others

/-! ### The count -/

def bearsIn (j : ℕ) : (r : Req) → Except Exc r.Reply → Bool
  | .db (.insertJobAndRun ..), .ok job => job.id = j
  | .db (.createRun i _), .ok _ => i = j
  | _, _ => false

lemma bearsIn_error (j : ℕ) (c : Call) (exc : Exc) : bearsIn j (.db c) (.error exc) = false := by
  cases c <;> rfl

/-- How many runs have been created for the job. -/
def runsCreated (log : List Ev) (j : ℕ) : ℕ := log.countP fun ev => bearsIn j ev.req ev.reply

def executesJob (log : List Ev) (pid j : ℕ) : Bool := (claimsBy pid log).any fun c => c.run.jobId = j

/-- The act deletes the job, or completes a run that is executed for it. -/
def endsJob (j : ℕ) (p : System) : Act → Bool
  | .act pid (.commit _) =>
    match p.pending pid with
    | some (.db (.deleteJob i)) => i = j
    | some (.db (.completeRun ..)) => executesJob p.log pid j
    | _ => false
  | _ => false

/-- The job is not deleted, and no execution of one of its runs comes to the end of its tasks and
completes it. -/
def Endless (j : ℕ) (p : System) (l : Act) : Prop := endsJob j p l = false

instance (j : ℕ) (p : System) (l : Act) : Decidable (Endless j p l) :=
  inferInstanceAs (Decidable (_ = false))

/-- What the job's row says, if it is there: it is on-demand, with so many retries. -/
def Retried (j : ℕ) (R : ℤ) (db : DB) : Prop :=
  ∀ job, db.jobs.get? j = some job → job.source = .onDemand ∧ job.retries = R

/-- The runs that were created, and the retries that are granted, against the count on the job. -/
structure Bounded (j : ℕ) (R : ℤ) (db : DB) (log : List Ev) (ph : ℕ → Grant) : Prop where
  executes : ∀ pid, ph pid ≠ .out → executesJob log pid j
  disarmed : ∀ job, db.jobs.get? j = some job → job.nextRunAt = none
  /-- Nothing is there before the job is. -/
  absent : db.jobs.get? j = none → (∀ i r, db.runs.get? i = some r → r.jobId ≠ j) ∧
    (∀ pid, ph pid = .out) ∧ runsCreated log j = 0
  counted : ∀ job, db.jobs.get? j = some job → ∃ n, Pool.AtMost Grant.token ph n ∧
    runsCreated log j + n ≤ 1 + min job.attempts R.toNat

section

variable {j : ℕ} {R : ℤ} {db db' : DB} {e : Env} {c : Call} {y : Except Exc c.Reply}

/-- What a transaction does to the job's row, where nobody deletes it, arms it or resets its count. -/
lemma job_counts (h : c.exec db e = some (db', y)) {job : JobRow} (hjob : db.jobs.get? j = some job)
    (hrow : Retried j R db) (hdis : job.nextRunAt = none) {g : Grant} (hok : g.ok j (.db c))
    (hdel : c ≠ .deleteJob j) :
    ∃ job', db'.jobs.get? j = some job' ∧ job'.nextRunAt = none ∧
      (job'.attempts = job.attempts ∧ c ≠ .incrementJobAttempts j ∨
        job'.attempts = job.attempts + 1 ∧ c = .incrementJobAttempts j) := by
  have hstep := exec_job h j
  have hsource := (hrow job hjob).1
  rw [hjob] at hstep
  generalize ho : db'.jobs.get? j = o' at hstep
  cases hstep with
  | same =>
    by_cases hc : c = .incrementJobAttempts j
    · subst hc
      cases h
      simp only [Table.get?_update, hjob, job_id_of_get? hjob, Option.map_some, if_true,
        Option.some.injEq] at ho
      have hcount := congrArg JobRow.attempts ho
      exact absurd hcount (Nat.succ_ne_self _)
    · exact ⟨job, rfl, hdis, .inl ⟨rfl, hc⟩⟩
  | cancelled => exact ⟨_, rfl, hdis, .inl ⟨rfl, (by simp)⟩⟩
  | incremented => exact ⟨_, rfl, hdis, .inr ⟨rfl, rfl⟩⟩
  | reset | armed => exact absurd rfl hok
  | fired _ t hj => simp [DB.Fires, hdis] at hj
  | revived _ now cutoff pc hj => simp [DB.Revives, hsource] at hj
  | rearmed _ now cutoff hj => simp [DB.Orphaned, hsource] at hj
  | deleted => exact absurd rfl hdel

lemma incremented_reply {job : JobRow} (hjob : db.jobs.get? j = some job) :
    (db.incrementJobAttempts e.now j).2 = job.attempts + 1 := by
  simp [DB.incrementJobAttempts, hjob, job_id_of_get? hjob]

/-- A run is inserted together with its job, or by the grant of an execution. -/
lemma bears_cases (h : c.exec db e = some (db', y)) (hb : bearsIn j (.db c) y) :
    (db.jobs.get? j = none ∧ (db'.jobs.get? j).isSome) ∨ ∃ t, c = .createRun j t := by
  cases c with
  | insertJobAndRun spec t =>
    left
    have hx : db.insertJobAndRun e spec t = some (db', y) := h
    unfold DB.insertJobAndRun at hx
    split at hx
    · cases hx
      cases hb
    · simp only [Option.bind_eq_bind, Option.bind_eq_some_iff, Option.some.injEq,
        Prod.mk.injEq] at hx
      obtain ⟨jobs, hjobs, runs, -, rfl, rfl⟩ := hx
      have hkey : Keyed.key (spec.row e) = j := of_decide_eq_true hb
      rw [← hkey]
      refine ⟨Table.get?_insert_key hjobs, ?_⟩
      rw [Table.get?_insert hjobs, if_pos rfl]
      rfl
  | createRun i t =>
    cases y with
    | error exc => cases hb
    | ok run =>
      obtain rfl : i = j := of_decide_eq_true hb
      exact .inr ⟨t, rfl⟩
  | _ => cases hb

/-- **A retry uses up a count**: what a transaction of a process does to the sum. -/
lemma Grant.token_next {g : Grant} {job job' : JobRow} (h : c.exec db e = some (db', y))
    (hok : g.ok j (.db c)) (hjob : db.jobs.get? j = some job)
    (hatt : job'.attempts = job.attempts ∧ c ≠ .incrementJobAttempts j ∨
      job'.attempts = job.attempts + 1 ∧ c = .incrementJobAttempts j) :
    (g.next j R (.db c) y).token + (if bearsIn j (.db c) y then 1 else 0) + min job.attempts R.toNat ≤
      g.token + min job'.attempts R.toNat := by
  have hmono : min job.attempts R.toNat ≤ min job'.attempts R.toNat := by
    rcases hatt with ⟨h', -⟩ | ⟨h', -⟩ <;> omega
  by_cases hb : bearsIn j (.db c) y
  · rw [if_pos hb]
    rcases bears_cases h hb with ⟨hnone, -⟩ | ⟨t, rfl⟩
    · rw [hjob] at hnone
      cases hnone
    · obtain rfl : g = .granted := hok rfl
      have hnext : (Grant.granted.next j R (.db (.createRun j t)) y).token = 0 := by
        cases y with
        | error e => cases hb
        | ok run => rfl
      rw [hnext, show Grant.granted.token = 1 from rfl]
      omega
  · rw [if_neg hb]
    rcases hatt with ⟨-, hc⟩ | ⟨hnew, rfl⟩
    · have hle : (g.next j R (.db c) y).token ≤ g.token := token_le fun h => hc (Req.db.inj h)
      omega
    · simp only [Call.exec, Option.some.injEq, Prod.mk.injEq] at h
      obtain ⟨-, rfl⟩ := h
      rw [incremented_reply hjob]
      cases g with
      | out => simpa [Grant.next, Grant.token] using hmono
      | works | granted =>
        simp only [Grant.next, true_and]
        split <;> simp only [Grant.token, reduceCtorEq, if_true, if_false] <;> omega

lemma executesJob_concat (log : List Ev) (ev : Ev) (q j : ℕ) : executesJob (log ++ [ev]) q j =
    (executesJob log q j || (claimOf ev).any fun cl => cl.pid = q && cl.run.jobId = j) := by
  unfold executesJob
  rw [claimsBy_concat, List.any_append]
  cases claimOf ev with
  | none => simp
  | some cl => by_cases hq : cl.pid = q <;> simp [Option.filter, hq]

/-- A process becomes an execution of the job by claiming a run of it. -/
lemma Grant.claims_of_next {r : Req} {y : Except Exc r.Reply} (pid : ℕ)
    (h : out.next j R r y ≠ out) :
    ∃ i w now le run, r = .db (.claimRun i w now le) ∧ run.jobId = j ∧
      claimIn pid r y = some ⟨pid, i, w, now, le, run⟩ := by
  unfold next at h
  split at h
  · split at h
    · rename_i run _ hj
      exact ⟨_, _, _, _, _, rfl, hj, rfl⟩
    · exact absurd rfl h
  · exact absurd rfl h
  all_goals contradiction

lemma executes_next {log : List Ev} {ph : ℕ → Grant} (h : ∀ pid, ph pid ≠ .out → executesJob log pid j)
    {pid : ℕ} {r : Req} {a : Answer} {y : Except Exc r.Reply} {q : ℕ}
    (hq : Function.update ph pid ((ph pid).next j R r y) q ≠ .out) :
    executesJob (log ++ [⟨pid, r, a, y, db, db'⟩]) q j := by
  rw [executesJob_concat, Bool.or_eq_true_iff]
  by_cases hpid : q = pid
  · subst hpid
    rw [Function.update_self] at hq
    by_cases hout : ph q = .out
    · rw [hout] at hq
      obtain ⟨i, w, now, le, run, -, hj, hcl⟩ := Grant.claims_of_next q hq
      exact .inr (by simp [claimOf, hcl, hj])
    · exact .inl (h q hout)
  · rw [Function.update_of_ne hpid] at hq
    exact .inl (h q hq)

/-- Before the job is there, nothing happens to it but that it is enqueued. -/
lemma Bounded.before {log : List Ev} {ph : ℕ → Grant} (h : Bounded j R db log ph) {pid : ℕ}
    (hx : c.exec db e = some (db', y)) (hok : (ph pid).ok j (.db c))
    (hnone : db.jobs.get? j = none) :
    (ph pid).next j R (.db c) y = .out ∧ (∀ t, c ≠ .createRun j t) ∧
      (db'.jobs.get? j = none → ∀ i r, db'.runs.get? i = some r → r.jobId ≠ j) := by
  obtain ⟨hruns, hout, -⟩ := h.absent hnone
  have hcreate : ∀ t, c ≠ .createRun j t := by
    rintro t rfl
    have hgrant : ph pid = .granted := hok rfl
    rw [hout pid] at hgrant
    cases hgrant
  refine ⟨?_, hcreate, fun hnone' i r hr hj => ?_⟩
  · by_contra hne
    rw [hout pid] at hne
    obtain ⟨i, w, now, le, run, hc, hj, hcl⟩ := Grant.claims_of_next pid hne
    cases hc
    obtain ⟨-, r, hr, -, hpost⟩ := claimIn_commit hx hcl
    rw [claimIn_row hx hcl] at hpost
    obtain rfl : run = DB.claimed w now r := Option.some.inj hpost
    exact hruns i r hr hj
  · have hstep := exec_run hx i
    rw [hr] at hstep
    rcases hstep.jobId with ⟨-, -, ⟨hid, spec, t, rfl⟩ | ⟨t, rfl⟩⟩ | ⟨r₀, hr₀, hj₀⟩
    · rcases insertJobAndRun_cases hx with rfl | ⟨jobs, runs, hjobs, -, rfl⟩
      · exact hruns i r hr hj
      · have hnew := Table.get?_insert hjobs j
        have hkey : j = Keyed.key (spec.row e) := hj.symm.trans hid
        rw [if_pos hkey] at hnew
        exact absurd (hnew.symm.trans hnone') nofun
    · exact hcreate t (by rw [hj])
    · exact hruns i r₀ hr₀ (hj₀.trans hj)

/-- **A transaction of a process in its place keeps the count.** -/
lemma Bounded.commit {log : List Ev} {ph : ℕ → Grant} (h : Bounded j R db log ph) {pid : ℕ}
    (hx : c.exec db e = some (db', y)) (hok : (ph pid).ok j (.db c)) (hrow : Retried j R db)
    (hrow' : Retried j R db') (hdel : c ≠ .deleteJob j) :
    Bounded j R db' (log ++ [⟨pid, .db c, .commit e, y, db, db'⟩])
      (Function.update ph pid ((ph pid).next j R (.db c) y)) := by
  have hruns : runsCreated (log ++ [⟨pid, .db c, .commit e, y, db, db'⟩]) j =
      runsCreated log j + if bearsIn j (.db c) y then 1 else 0 := by
    simp only [runsCreated, List.countP_append, List.countP_singleton]
  cases hjob : db.jobs.get? j with
  | some job =>
    obtain ⟨job', hjob', hdis', hatt⟩ :=
      job_counts hx hjob hrow (h.disarmed job hjob) hok hdel
    obtain ⟨n, hn, hle⟩ := h.counted job hjob
    have htoken := Grant.token_next (R := R) hx hok hjob hatt
    have hown : (ph pid).token ≤ n := by simpa using hn {pid}
    constructor
    case executes => exact fun q hq => executes_next h.executes hq
    case disarmed =>
      intro job₁ hjob₁
      rw [hjob'] at hjob₁
      cases hjob₁
      exact hdis'
    case absent =>
      intro hnone
      rw [hjob'] at hnone
      cases hnone
    case counted =>
      intro job₁ hjob₁
      rw [hjob'] at hjob₁
      cases hjob₁
      refine ⟨n + ((ph pid).next j R (.db c) y).token - (ph pid).token, hn.update (by omega), ?_⟩
      rw [hruns]
      omega
  | none =>
    obtain ⟨hnext, hcreate, hruns'⟩ := h.before hx hok hjob
    obtain ⟨-, hout, hzero⟩ := h.absent hjob
    have hout' : ∀ q, Function.update ph pid ((ph pid).next j R (.db c) y) q = .out := by
      have hsame : Function.update ph pid ((ph pid).next j R (.db c) y) = ph := by
        rw [hnext, ← hout pid, Function.update_eq_self]
      intro q
      rw [hsame]
      exact hout q
    have hstep := exec_job hx j
    rw [hjob] at hstep
    constructor
    case executes => exact fun q hq => absurd (hout' q) hq
    case disarmed =>
      intro job' hjob'
      rw [hjob'] at hstep
      cases hstep with
      | enqueued spec t hi => exact hok
      | scheduled spec hi =>
        have hsource := (hrow' _ hjob').1
        rw [show (spec.row e).source = .scheduled from hok] at hsource
        cases hsource
    case absent =>
      intro hnone'
      refine ⟨hruns' hnone', hout', ?_⟩
      rw [hruns, hzero, if_neg]
      intro hb
      rcases bears_cases hx hb with ⟨-, hsome⟩ | ⟨t, hc⟩
      · rw [hnone'] at hsome
        cases hsome
      · exact hcreate t hc
    case counted =>
      intro job' hjob'
      refine ⟨0, Pool.atMost_zero fun q => by rw [hout' q]; rfl, ?_⟩
      rw [hruns, hzero]
      split <;> omega

lemma Bounded.quiet {log : List Ev} {ph : ℕ → Grant} (h : Bounded j R db log ph) {pid : ℕ} {r : Req}
    {a : Answer} {y : Except Exc r.Reply} (hb : bearsIn j r y = false)
    (hnext : (ph pid).next j R r y = ph pid) :
    Bounded j R db (log ++ [⟨pid, r, a, y, db, db⟩])
      (Function.update ph pid ((ph pid).next j R r y)) := by
  have hruns : runsCreated (log ++ [⟨pid, r, a, y, db, db⟩]) j = runsCreated log j := by
    simp [runsCreated, List.countP_append, hb]
  have hexec : ∀ q, Function.update ph pid ((ph pid).next j R r y) q ≠ .out →
      executesJob (log ++ [⟨pid, r, a, y, db, db⟩]) q j := fun q hq => executes_next h.executes hq
  rw [hnext, Function.update_eq_self] at hexec ⊢
  exact ⟨hexec, h.disarmed, by rw [hruns]; exact h.absent, by rw [hruns]; exact h.counted⟩

lemma Bounded.gone {log : List Ev} {ph : ℕ → Grant} (h : Bounded j R db log ph) {pid : ℕ} :
    Bounded j R db log (Function.update ph pid .out) := by
  have hout : ∀ q, Function.update ph pid .out q ≠ .out → ph q ≠ .out := by
    intro q hq
    by_cases hpid : q = pid
    · rw [hpid, Function.update_self] at hq
      exact absurd rfl hq
    · rwa [Function.update_of_ne hpid] at hq
  constructor
  case executes => exact fun q hq => h.executes q (hout q hq)
  case disarmed => exact h.disarmed
  case absent =>
    intro hnone
    obtain ⟨hruns, hall, hzero⟩ := h.absent hnone
    refine ⟨hruns, fun q => ?_, hzero⟩
    by_contra hq
    exact hout q hq (hall q)
  case counted =>
    intro job hjob
    obtain ⟨n, hn, hle⟩ := h.counted job hjob
    exact ⟨n, hn.update (by simp [Grant.token]), hle⟩

end

/-! ### The bound -/

/-- A job keeps its source and its retries as long as it is there. -/
lemma JobStep.fixed {db : DB} {e : Env} {c : Call} {i : ℕ} {job : JobRow} {o' : Option JobRow}
    (h : JobStep db e i c (some job) o') : c = .deleteJob i ∨
      ∃ job', o' = some job' ∧ job'.source = job.source ∧ job'.retries = job.retries := by
  cases h with
  | deleted => exact .inl rfl
  | _ => exact .inr ⟨_, rfl, rfl, rfl⟩

lemma Retried.before {j : ℕ} {R : ℤ} {p p' : System} {l : Act} (hC : Endless j p l)
    (hstep : Pool.step answer Kind.program p l = some p') (h : Retried j R p'.shared) :
    Retried j R p.shared := by
  rcases System.step_cases hstep with hsame | ⟨pid, c, e, y, rfl, hasks, hx, -⟩
  · rwa [hsame] at h
  · intro job hjob
    have hrow := exec_job hx j
    rw [hjob] at hrow
    rcases hrow.fixed with rfl | ⟨job', hjob', hs, hr⟩
    · simp [Endless, endsJob, hasks] at hC
    · rw [← hs, ← hr]
      exact h job' hjob'

/-- What comes back to a process where no run of the job completes. -/
lemma fits_of_answer {j : ℕ} {R : ℤ} {p : System} {ph : ℕ → Grant} {pid : ℕ} {a : Answer} {r : Req}
    {y : Except Exc r.Reply} {db' : DB} (h : Bounded j R p.shared p.log ph)
    (hrow : Retried j R p.shared) (hC : Endless j p (.act pid a)) (hasks : p.pending pid = some r)
    (hans : answer p.shared r a = some (db', y)) : (ph pid).Fits j R r y := by
  cases r with
  | db c =>
    cases a with
    | commit e =>
      have hx : c.exec p.shared e = some (db', y) := hans
      cases c with
      | getJob i =>
        cases hx
        cases hjob : p.shared.getJob i with
        | none => trivial
        | some job =>
          rintro rfl
          exact hrow job hjob
      | claimScheduled i t =>
        cases hwin : winIn (.db (.claimScheduled i t)) (.commit e) y with
        | none =>
          cases y with
          | error exc => trivial
          | ok won =>
            cases won with
            | false => trivial
            | true => cases hwin
        | some w =>
          obtain ⟨i', t'⟩ := w
          obtain ⟨_, job, hc, -, hjob, ⟨-, hdue, -⟩, -⟩ := winIn_commit hx hwin
          cases hc
          have hne : i ≠ j := by
            rintro rfl
            rw [h.disarmed job hjob] at hdue
            cases hdue
          cases y with
          | error exc => trivial
          | ok won => cases won <;> first | exact hne | trivial
      | completeRun i v =>
        have hfree : executesJob p.log pid j = false := by simpa [Endless, endsJob, hasks] using hC
        cases y with
        | error exc => trivial
        | ok u =>
          by_contra hne
          rw [h.executes pid hne] at hfree
          cases hfree
      | _ => trivial
    | fail exc =>
      cases hans
      cases c <;> trivial
    | _ => cases hans
  | _ => trivial

lemma bounded_init (j : ℕ) (R : ℤ) : Bounded j R {} [] fun _ => .out where
  executes _ hq := absurd rfl hq
  disarmed _ hjob := by cases hjob
  absent _ := ⟨fun _ _ hr => (by cases hr), fun _ => rfl, rfl⟩
  counted _ hjob := by cases hjob

/-- An answered request of a process in its place keeps the count. -/
lemma Bounded.act {j : ℕ} {R : ℤ} {p p' : System} {ph : ℕ → Grant} {pid : ℕ} {a : Answer} {r : Req}
    {f : Except Exc r.Reply → Io Unit} {y : Except Exc r.Reply} (h : Bounded j R p.shared p.log ph)
    (hacts : Pool.Acts answer p pid a p' r f y) (hok : (ph pid).ok j r)
    (hC : Endless j p (.act pid a)) (hrow : Retried j R p.shared) (hrow' : Retried j R p'.shared) :
    Bounded j R p'.shared p'.log (Function.update ph pid ((ph pid).next j R r y)) := by
  have hasks := hacts.pending
  have hans := hacts.answered
  rw [hacts.logged]
  generalize p'.shared = db' at hans hrow' ⊢
  cases r with
  | db c =>
    cases a with
    | commit e =>
      refine h.commit hans hok hrow hrow' ?_
      rintro rfl
      simp [Endless, endsJob, hasks] at hC
    | fail exc =>
      cases hans
      exact h.quiet (bearsIn_error j c exc) (Grant.next_error c exc)
    | _ => cases hans
  | _ => cases a <;> cases hans <;> exact h.quiet rfl (by cases ph pid <;> rfl)

/-- In every run in which no run of the job completes the runs are counted. -/
theorem bounded_of_reached {p : System} {j : ℕ} {R : ℤ} (h : p.Reached (Endless j))
    (hrow : Retried j R p.shared) : ∃ ph, Bounded j R p.shared p.log ph := by
  have hrun := Pool.Run.backward (fun p p' l hC hstep hp' => Retried.before hC hstep hp') h hrow
  have hphases : ∃ ph, Pool.Phased (Grant.Moves j R) (Grant.ok j) (fun _ => True) .out .out p ph ∧
      Bounded j R p.shared p.log ph := by
    refine Pool.phases ?_ (fun _ _ _ _ _ hG => hG.gone) (fun _ _ _ _ _ hG => hG.gone) ?_ hrun
      (fun _ => (ite_self _).symm) (bounded_init j R)
    · intro p k _
      by_cases hk : ∃ w, k = .worker w
      · obtain ⟨w, rfl⟩ := hk
        exact tick_grants w
      · exact others_grants k fun w hw => hk ⟨w, hw⟩
    · rintro p p' ph pid a r f y ⟨hC, hrow, hrow'⟩ hstep hph hG hacts hok
      have hfits := fits_of_answer hG hrow hC hacts.pending hacts.answered
      exact ⟨_, ⟨⟨valid_of_answer hacts.answered, hfits⟩, rfl⟩,
        hG.act hacts hok hC hrow (hrow' p' hstep)⟩
  obtain ⟨ph, -, hb⟩ := hphases
  exact ⟨ph, hb⟩

/-- **Whole-run retries are bounded.** In every run of the system in which an on-demand job is not
deleted and none of its runs completes: the runs that were ever created for it are at most one more
than its retries, whatever else happens. -/
theorem retries_bounded {p : System} {j : ℕ} {job : JobRow} (h : p.Reached (Endless j))
    (hjob : p.shared.jobs.get? j = some job) (hsource : job.source = .onDemand) :
    (runsCreated p.log j : ℤ) ≤ max job.retries 0 + 1 := by
  have hrow : Retried j job.retries p.shared := by
    intro job' hjob'
    rw [hjob] at hjob'
    cases hjob'
    exact ⟨hsource, rfl⟩
  obtain ⟨ph, hb⟩ := bounded_of_reached h hrow
  obtain ⟨n, -, hle⟩ := hb.counted job hjob
  have hmin : min job.attempts job.retries.toNat ≤ job.retries.toNat := Nat.min_le_right _ _
  omega

/-- A task fails its only attempt, and the worker, which may retry the run once, does so. -/
def retriedOnce : List Act :=
  .spawn (.enqueue { job := "m.J", maxAttempts := 1, retries := 1 } none) :: commits 0 1 0 ++
  .spawn (.worker (.named "A")) :: reads 1 1 :: reads 1 1 :: commits 1 5 1 ++
  .act 1 (.ran (.error (.other "RuntimeError" "")) []) :: commits 1 5 2 ++ reads 1 3 :: commits 1 1 3

theorem retries_bounded_retried : ∃ (p : System) (job : JobRow),
    System.init.play (Endless 0) retriedOnce = some p ∧ p.shared.jobs.get? 0 = some job ∧
    job.retries = 1 ∧ runsCreated p.log 0 = 2 ∧ (runsCreated p.log 0 : ℤ) ≤ max job.retries 0 + 1 := by
  have hall : ((System.init.play (Endless 0) retriedOnce).any fun p =>
      runsCreated p.log 0 = 2 ∧ (p.shared.jobs.get? 0).any fun job =>
        job.retries = 1 ∧ job.source = .onDemand) = true := by decide
  obtain ⟨p, hp, hend⟩ := (Option.any_eq_true _ _).1 hall
  obtain ⟨hruns, hrow⟩ := of_decide_eq_true hend
  obtain ⟨job, hjob, hrow'⟩ := (Option.any_eq_true _ _).1 hrow
  obtain ⟨hretries, hsource⟩ := of_decide_eq_true hrow'
  exact ⟨p, job, hp, hjob, hretries, hruns, retries_bounded (Pool.run_of_play hp) hjob hsource⟩

end Pyreljob
