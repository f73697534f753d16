import Pyreljob.System.Roles

/-!
The retry that an execution owes.

An execution that gives a run up fails the run, counts the failure on the job, and creates another
run if the count allows it. These are three transactions. `Debt` is where an execution of a job stands
between them; every program counts a failure right after it has failed the run, and ends with the
retry created if the count has granted one.
-/

namespace Pyreljob

open Lib

/-- How far an execution of a run of the job is with the retry it owes; other processes are `out`. -/
inductive Debt
  | out
  | works
  /-- It has failed the run, and has not counted the failure yet. -/
  | counting
  /-- It has counted the failure, and has not created the retry yet. -/
  | granted
  deriving DecidableEq

namespace Debt

variable (j : ℕ) (R : ℤ)

def next : Debt → (r : Req) → Except Exc r.Reply → Debt
  | out, .db (.claimRun ..), .ok (some run) => if run.jobId = j then works else out
  | works, .db (.failRun _ _ none), .ok _ => counting
  | works, .db (.failRun _ _ (some _)), .ok _ | works, .db (.completeRun ..), .ok _
  | works, .db (.cancelRun _), .ok _ => out
  | works, _, _ => works
  | counting, .db (.incrementJobAttempts i), .ok n => if i = j ∧ (n : ℤ) ≤ R then granted else out
  | granted, .retryAt _, .ok _ => granted
  | _, _, _ => out

/-- What a process may ask. -/
def ok (c : Debt) : Req → Prop
  | .db (.incrementJobAttempts i) => c ≠ granted ∧ (i = j → c = counting)
  | .db (.createRun i _) => c = granted → i = j
  | .retryAt _ => True
  | _ => c ≠ granted

def Fits : (r : Req) → Except Exc r.Reply → Prop
  | .db (.getJob i), .ok (some job) => i = j → job.retries = R
  | _, _ => True

abbrev Moves : Debt → (r : Req) → Except Exc r.Reply → Debt → Prop :=
  Prog.Moving (fun _ r y => Valid r y ∧ Fits j R r y) (next j R)

def home (i : ℕ) : Debt := if i = j then works else out

variable {j R}

lemma home_ne_granted {i : ℕ} : home j i ≠ granted := by
  unfold home
  split <;> nofun

/-- Only a count grants a retry, and it lasts only while the backoff is computed. -/
lemma next_ne_granted {c : Debt} {r : Req} {y : Except Exc r.Reply}
    (hc : c = granted → ∀ n, r ≠ .retryAt n) (hr : ∀ i, r ≠ .db (.incrementJobAttempts i)) :
    c.next j R r y ≠ granted := by
  intro h
  unfold next at h
  split at h
  · split at h <;> cases h
  · cases h
  · cases h
  · cases h
  · cases h
  · cases h
  · exact hr _ rfl
  · exact hc rfl _ rfl
  · cases h

lemma next_increment {c : Debt} {i n : ℕ} (hc : c ≠ granted) (hn : i = j → ¬ (n : ℤ) ≤ R) :
    c.next j R (.db (.incrementJobAttempts i)) (.ok n) ≠ granted := by
  cases c with
  | out | works => nofun
  | granted => exact absurd rfl hc
  | counting =>
    change (if i = j ∧ (n : ℤ) ≤ R then granted else out) ≠ granted
    rw [if_neg fun h => hn h.1 h.2]
    nofun

lemma next_out {r : Req} {y : Except Exc r.Reply}
    (hr : ∀ i w now le, r ≠ .db (.claimRun i w now le)) : out.next j R r y = out := by
  unfold next
  split
  · exact absurd rfl (hr _ _ _ _)
  all_goals trivial

lemma next_error_ne_granted {c : Debt} {r : Req} {exc : Exc} :
    c.next j R r (.error exc) ≠ granted := by
  intro h
  generalize hy : Except.error exc = y at h
  unfold next at h
  split at h
  · cases hy
  · cases h
  · cases h
  · cases h
  · cases h
  · cases h
  · cases hy
  · cases hy
  · cases h

/-- The request neither claims a run, nor ends one, nor counts a failure, nor creates a run. -/
def Plain : Req → Prop
  | .db (.claimRun ..) | .db (.failRun ..) | .db (.completeRun ..) | .db (.cancelRun _)
  | .db (.incrementJobAttempts _) | .db (.createRun ..) => False
  | _ => True

lemma next_home {i : ℕ} {r : Req} {y : Except Exc r.Reply} (hr : Plain r) :
    (home j i).next j R r y = home j i := by
  unfold home
  split
  · cases r with
    | db c => cases c <;> first | rfl | exact hr.elim
    | _ => rfl
  · cases r with
    | db c => cases c <;> first | rfl | exact hr.elim
    | _ => rfl

lemma ok_of_ne_granted {c : Debt} {r : Req} (hc : c ≠ granted)
    (hr : ∀ i, r ≠ .db (.incrementJobAttempts i)) : c.ok j r := by
  unfold ok
  split
  · exact absurd rfl (hr _)
  · exact fun h => absurd h hc
  · trivial
  · exact hc

end Debt

/-- The programs that leave an execution of a run of the job `i` where it is. -/
abbrev AtHome {α : Type} (j : ℕ) (R : ℤ) (i : ℕ) (p : Io α) : Prop :=
  p.Within (Debt.Moves j R) (Debt.ok j) (· = Debt.home j i)

/-- The programs that neither count a failure nor owe a retry. -/
abbrev Solvent {α : Type} (j : ℕ) (R : ℤ) (p : Io α) : Prop :=
  p.Within (Debt.Moves j R) (Debt.ok j) (· ≠ .granted)

section Worker

variable {j : ℕ} {R : ℤ} {i : ℕ} {α β : Type}

lemma atHome_closed : Prog.Closed (Debt.Moves j R) (Debt.ok j) (· = .home j i) fun _ r => Debt.Plain r where
  ok := by
    rintro _ r rfl hr
    refine Debt.ok_of_ne_granted Debt.home_ne_granted ?_
    rintro i rfl
    exact hr
  stays := by
    rintro _ r y _ rfl hr ⟨-, rfl⟩
    exact Debt.next_home hr

lemma solvent_closed : Prog.Closed (Debt.Moves j R) (Debt.ok j) (· ≠ .granted)
    fun _ r => ∀ i, r ≠ .db (.incrementJobAttempts i) where
  ok _ _ hc hr := Debt.ok_of_ne_granted hc hr
  stays := by
    rintro c r y _ hc hr ⟨-, rfl⟩
    exact Debt.next_ne_granted (absurd · hc) hr

lemma Solvent.home {p : Io α} (h : Solvent j R p) :
    p.Keeps (Debt.Moves j R) (Debt.ok j) (fun _ c => c ≠ .granted) (.home j i) :=
  h _ Debt.home_ne_granted

variable {cls : JobCls} {job : JobRow} {runId : ℕ}

lemma compensateFrom_home (records : List TaskRow) (ctx : TaskContext) :
    AtHome j R i (Worker.compensateFrom runId cls records ctx) := by
  induction records generalizing ctx with
  | nil => exact .ret _
  | cons record records ih =>
    unfold Worker.compensateFrom
    split
    · exact ih ctx
    · split
      · exact .ret _
      · refine atHome_closed.ask (fun _ _ => trivial) fun undone => ?_
        refine atHome_closed.ask (fun _ _ => trivial) fun _ => ?_
        exact ih _

lemma compensate_home (ctx : TaskContext) : AtHome j R i (Worker.compensate runId cls ctx) :=
  atHome_closed.ask (fun _ _ => trivial) fun _ => compensateFrom_home _ ctx

lemma reschedule_owes (ctx : TaskContext) : Solvent j R (Worker.reschedule job runId ctx) := by
  unfold Worker.reschedule
  split
  · exact .ret _
  · refine solvent_closed.ask (fun _ _ => nofun) fun run => ?_
    cases run with
    | none => exact .ret _
    | some run =>
      refine solvent_closed.ask (fun _ _ => nofun) fun next => ?_
      exact solvent_closed.last fun _ _ => nofun

lemma rescheduleOnError_owes (run : RunRow) : Solvent j R (Worker.rescheduleOnError run) := by
  refine solvent_closed.ask (fun _ _ => nofun) fun job => ?_
  cases job with
  | none => exact .ret _
  | some job =>
    change Solvent j R (if job.source ≠ .scheduled then _ else _)
    split
    · exact .ret _
    · refine solvent_closed.ask (fun _ _ => nofun) fun now => ?_
      exact solvent_closed.last fun _ _ => nofun

/-- **The retry that the count grants is created.** -/
lemma finalizeFailed_owes (hjob : job.id = j → job.retries = R) (error : String) :
    (Worker.finalizeFailed job runId error).Keeps (Debt.Moves j R) (Debt.ok j)
      (fun _ c => c ≠ .granted) (Debt.home j job.id) := by
  refine .call_bind Debt.home_ne_granted ?_ ?_
  · rintro exc _ ⟨-, rfl⟩
    exact Debt.next_error_ne_granted
  rintro - _ ⟨-, rfl⟩
  generalize hc : (Debt.home j job.id).next j R (.db (.failRun runId error none)) (.ok ()) = c
  have hne : c ≠ .granted := by
    rw [← hc]
    exact Debt.next_ne_granted (absurd · Debt.home_ne_granted) nofun
  have hcounting : job.id = j → c = .counting := by
    intro hi
    rw [← hc, Debt.home, if_pos hi]
    rfl
  split
  · exact hne
  · refine .call_bind ⟨hne, hcounting⟩ ?_ ?_
    · rintro exc _ ⟨-, rfl⟩
      exact Debt.next_error_ne_granted
    rintro attempts _ ⟨-, rfl⟩
    split
    · refine .call_bind trivial ?_ ?_
      · rintro exc _ ⟨-, rfl⟩
        exact Debt.next_error_ne_granted
      rintro retryAt _ ⟨-, rfl⟩
      refine .call_bind ?_ ?_ ?_
      · intro hgranted
        by_contra hi
        revert hgranted
        refine Debt.next_ne_granted (absurd · ?_) nofun
        exact Debt.next_increment hne fun h => absurd h hi
      · rintro exc _ ⟨-, rfl⟩
        exact Debt.next_error_ne_granted
      · rintro run _ ⟨-, rfl⟩
        exact Debt.next_ne_granted nofun nofun
    · rename_i hle
      exact Debt.next_increment hne fun hi => hjob hi ▸ hle

/-- As `_run_task` leaves it: no retry is owed, and after a task that succeeded the run goes on. -/
def Through (j i : ℕ) (v : Except Exc (Worker.TaskEnd × TaskContext)) (c : Debt) : Prop :=
  c ≠ .granted ∧ ∀ ctx, v = .ok (.ok, ctx) → c = .home j i

lemma through_ended {v : Except Exc (Worker.TaskEnd × TaskContext)} {c : Debt} (hc : c ≠ .granted)
    (hv : ∀ ctx, v ≠ .ok (.ok, ctx)) : Through j i v c := ⟨hc, fun ctx h => absurd h (hv ctx)⟩

lemma through_home (v : Except Exc (Worker.TaskEnd × TaskContext)) : Through j i v (.home j i) :=
  ⟨Debt.home_ne_granted, fun _ _ => rfl⟩

lemma runTask_owes (hjob : job.id = j → job.retries = R) (ctx : TaskContext) (pos : ℕ)
    (task : TaskCls) (existing : Option TaskRow) :
    (Worker.runTask runId cls job ctx pos task existing).Keeps (Debt.Moves j R) (Debt.ok j)
      (Through j job.id) (.home j job.id) := by
  have hraise : ∀ exc : Exc, Through j job.id (.error exc) (.home j job.id) :=
    fun exc => through_home _
  -- a request that ends the run, with which the task ends, too
  have hlast : ∀ {r : Req} {f : r.Reply → Io (Worker.TaskEnd × TaskContext)} {ended ctx},
      (∀ a, f a = pure (ended, ctx)) → ended ≠ .ok → (∀ i, r ≠ .db (.incrementJobAttempts i)) →
      (∀ n, r ≠ .retryAt n) →
      (Prog.call r >>= f).Keeps (Debt.Moves j R) (Debt.ok j) (Through j job.id)
        (.home j job.id) := by
    intro r f ended ctx hf hended hr hr'
    refine .call_bind (Debt.ok_of_ne_granted Debt.home_ne_granted hr) ?_ ?_
    · rintro exc _ ⟨-, rfl⟩
      exact through_ended Debt.next_error_ne_granted nofun
    · rintro a _ ⟨-, rfl⟩
      rw [hf a]
      refine through_ended (Debt.next_ne_granted (fun _ => hr') hr) ?_
      rintro ctx' h
      cases h
      exact hended rfl
  refine atHome_closed.ask_at trivial hraise fun _ _ => ?_
  refine atHome_closed.ask_at trivial hraise fun ran _ => ?_
  obtain ⟨exc | v, state⟩ := ran
  · change Prog.Keeps _ _ (if exc.isJobCancelled then _ else _) _ _
    split
    · refine atHome_closed.ask_at trivial hraise fun _ _ => ?_
      exact hlast (fun _ => rfl) nofun nofun nofun
    · split
      · refine atHome_closed.ask_at trivial hraise fun _ _ => ?_
        refine atHome_closed.ask_at trivial hraise fun _ _ => ?_
        refine .bind ((compensate_home _ _ rfl).mono ?_)
        rintro (exc' | ctx) c rfl
        · exact through_home _
        refine .bind ((finalizeFailed_owes hjob _).mono ?_)
        rintro (exc' | _) c hc
        · exact through_ended hc nofun
        · exact through_ended hc nofun
      · refine atHome_closed.ask_at trivial hraise fun retryAt _ => ?_
        refine atHome_closed.ask_at trivial hraise fun _ _ => ?_
        refine atHome_closed.ask_at trivial hraise fun _ _ => ?_
        exact hlast (fun _ => rfl) nofun nofun nofun
  · refine atHome_closed.ask_at trivial hraise fun _ _ => ?_
    refine atHome_closed.ask_at trivial hraise fun _ _ => ?_
    exact through_home _

lemma runTasks_owes (hjob : job.id = j → job.retries = R) (records : List TaskRow)
    (tasks : List TaskCls) (pos : ℕ) (ctx : TaskContext) :
    (Worker.runTasks runId cls job records tasks pos ctx).Keeps (Debt.Moves j R) (Debt.ok j)
      (Through j job.id) (.home j job.id) := by
  induction tasks generalizing pos ctx with
  | nil => exact through_home _
  | cons task tasks ih =>
    refine .bind ((runTask_owes hjob ctx pos task _).mono ?_)
    rintro (exc | ⟨ended, ctx⟩) c hc
    · exact hc
    · cases ended with
      | ok =>
        obtain rfl : c = .home j job.id := hc.2 ctx rfl
        exact ih (pos + 1) ctx
      | cancel => exact through_ended hc.1 nofun
      | retry => exact through_ended hc.1 nofun
      | failed => exact through_ended hc.1 nofun

/-- An execution that has read its job owes no retry when it ends. -/
lemma resume_owes (hjob : job.id = j → job.retries = R) (run : RunRow) (records : List TaskRow) :
    (Worker.resume run job cls records).Keeps (Debt.Moves j R) (Debt.ok j) (fun _ c => c ≠ .granted)
      (.home j job.id) := by
  unfold Worker.resume
  dsimp only
  split
  · refine atHome_closed.ask_at trivial (fun _ => Debt.home_ne_granted) fun _ _ => ?_
    refine .bind ((compensate_home _ _ rfl).mono ?_)
    rintro (exc | ctx) c rfl
    · exact Debt.home_ne_granted
    refine .bind ((finalizeFailed_owes hjob _).mono ?_)
    rintro (exc | _) c hc
    · exact hc
    · exact reschedule_owes ctx c hc
  · refine .bind ((runTasks_owes hjob records _ _ _).mono ?_)
    rintro (exc | ⟨ended, ctx⟩) c hc
    · exact hc.1
    · cases ended with
      | cancel => exact hc.1
      | retry => exact hc.1
      | failed => exact reschedule_owes ctx c hc.1
      | ok =>
        refine (?_ : Solvent j R _) c hc.1
        refine solvent_closed.ask (fun _ _ => nofun) fun _ => ?_
        refine solvent_closed.ask (fun _ _ => nofun) fun _ => ?_
        exact reschedule_owes ctx

lemma run_owes (w : Worker) (run : RunRow) :
    (w.run run).Keeps (Debt.Moves j R) (Debt.ok j) (fun _ c => c ≠ .granted)
      (.home j run.jobId) := by
  refine atHome_closed.ask_at trivial (fun _ => Debt.home_ne_granted) fun job hmove => ?_
  cases job with
  | none => exact Solvent.home (solvent_closed.last fun _ _ => nofun)
  | some job =>
    obtain ⟨hid, hjob⟩ := hmove.1
    change Prog.Keeps _ _ (if job.status = .cancelled then _ else _) _ _
    split
    · exact Solvent.home (solvent_closed.last fun _ _ => nofun)
    · split
      · exact Solvent.home (solvent_closed.last fun _ _ => nofun)
      · refine atHome_closed.ask_at trivial (fun _ => Debt.home_ne_granted) fun records _ => ?_
        rw [← show job.id = run.jobId from hid]
        exact resume_owes (fun hi => hjob (hid.symm.trans hi)) run records

lemma execute_owes (w : Worker) (run : RunRow) :
    (w.execute run).Keeps (Debt.Moves j R) (Debt.ok j) (fun _ c => c ≠ .granted)
      (.home j run.jobId) := by
  refine .tryCatch ((run_owes w run).mono ?_)
  rintro (exc | _) c hc
  · refine (?_ : Solvent j R _) c hc
    exact solvent_closed.ask (fun _ _ => nofun) fun _ => rescheduleOnError_owes run
  · exact hc

lemma tick_owes (w : Worker) :
    Pool.InPhase (Debt.Moves j R) (Debt.ok j) (· ≠ .granted) w.tick .out := by
  refine .bind (.call_bind nofun (fun _ _ h => h.2 ▸ nofun) ?_)
  rintro now _ ⟨-, rfl⟩
  refine .call_bind nofun (fun _ _ h => h.2 ▸ nofun) ?_
  rintro now' _ ⟨-, rfl⟩
  refine .call_bind nofun (fun _ _ h => h.2 ▸ nofun) ?_
  rintro (_ | runId) _ ⟨-, rfl⟩
  · nofun
  · refine Prog.Keeps.call nofun ?_
    rintro (e | _ | run) _ ⟨-, rfl⟩
    · nofun
    · nofun
    · exact execute_owes w run

end Worker

lemma others_owe {j : ℕ} {R : ℤ} (k : Kind) (hk : ∀ w, k ≠ .worker w) :
    Pool.InPhase (Debt.Moves j R) (Debt.ok j) (· ≠ .granted) k.program .out := by
  have hphase : Pool.InPhase Phase.Moves (Phase.ok { claim := False }) (fun _ => True)
      k.program .rest := k.inPhase (fun _ _ _ _ => trivial) fun w hw => hk w hw
  refine (Prog.Keeps.sim (fun c ph => c = .out ∧ ¬ ph.Executes ∧
    ∀ i now le, ph ≠ .selected i now le) ?_ ?_ hphase ⟨rfl, nofun, nofun⟩).mono ?_
  · rintro c ph r y _ ⟨rfl, hexec, hsel⟩ hok ⟨hfits, rfl⟩
    refine ⟨_, ⟨hfits.1, rfl⟩, ?_⟩
    have hclaim : ∀ i w now le, r ≠ .db (.claimRun i w now le) := by
      rintro i w now le rfl
      exact hsel i now le hok
    have hturn := Phase.turn y hok
    generalize ph.next r y = ph' at hturn
    refine ⟨Debt.next_out hclaim, ?_⟩
    cases hturn with
    | stays => exact ⟨hexec, hsel⟩
    | selects => exact hok.2.elim
    | claims i w now le | misses i w now le => exact absurd rfl (hsel i now le)
    | reads | fires | creates => exact ⟨nofun, nofun⟩
    | retries | givesUp | givesBack | completes | cancels => exact absurd trivial hexec
  · rintro c ph r ⟨rfl, hexec, -⟩ hok
    refine Debt.ok_of_ne_granted nofun ?_
    rintro i rfl
    obtain ⟨i, w, s, rfl⟩ := hok
    exact hexec trivial
  · rintro v c ⟨_, ⟨rfl, -⟩, -⟩
    nofun

/-- **Every process keeps to it.** -/
theorem kind_owes {j : ℕ} {R : ℤ} (k : Kind) :
    Pool.InPhase (Debt.Moves j R) (Debt.ok j) (· ≠ .granted) k.program .out := by
  by_cases hk : ∃ w, k = .worker w
  · obtain ⟨w, rfl⟩ := hk
    exact tick_owes w
  · exact others_owe k fun w hw => hk ⟨w, hw⟩

end Pyreljob
