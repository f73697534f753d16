import Pyreljob.System.Resume
import Pyreljob.System.Sequence

/-!
Executions that keep their leases.

The one thing that keeps a second worker off a run that is executed is the age of the lock: a claim wins
a running run only if it was locked before `lease_expiry`. So as long as every execution has its run
renewed in time, the executors of a run follow one another, whoever claims and whatever else happens.
-/

namespace Pyreljob

open Lib

/-! ### A run that is given back -/

def givesBack : (r : Req) → Except Exc r.Reply → Bool
  | .db (.failRun _ _ (some _)), .ok _ => true
  | _, _ => false

/-- Whether the process has given its run back, after the reply. -/
def Gives (b : Bool) (r : Req) (y : Except Exc r.Reply) (b' : Bool) : Prop := b' = (b || givesBack r y)

def Quits (b : Bool) (_ : Req) : Prop := b = false

section

variable {α β : Type}

lemma keeping_within {P : Req → Prop} (hP : ∀ r y, P r → givesBack r y = false) {p : Io α}
    (hp : p.Asks P) : p.Within Gives Quits fun b => b = false := by
  refine hp.stays (fun _ _ hb _ => hb) fun b r y b' hb hr hmove => ?_
  rw [hmove, hb, Bool.false_or]
  exact hP r y hr

lemma settling_keeps {p : Io α} (hp : p.Asks Settling) : p.Within Gives Quits fun b => b = false := by
  refine keeping_within (fun r y hr => ?_) hp
  unfold givesBack
  split
  · exact hr.elim
  · rfl

lemma reschedule_keeps (job : JobRow) (i : ℕ) (ctx : TaskContext) :
    (Worker.reschedule job i ctx).Within Gives Quits fun b => b = false := by
  refine keeping_within (fun r y hr => ?_) (reschedule_asks job i ctx)
  unfold givesBack
  split
  · exact hr.elim
  · rfl

/-- A request that does not give the run back leaves the process where it is. -/
lemma gives_closed : Prog.Closed Gives Quits (· = false) fun _ r => ∀ y, givesBack r y = false where
  ok _ _ hb _ := hb
  stays := by
    rintro _ r y _ rfl hr hmove
    rw [hmove, hr]
    rfl

lemma compensateFrom_keeps (i : ℕ) (cls : JobCls) (records : List TaskRow) (ctx : TaskContext) :
    (Worker.compensateFrom i cls records ctx).Keeps Gives Quits (fun _ b => b = false) false := by
  induction records generalizing ctx with
  | nil => rfl
  | cons record records ih =>
    unfold Worker.compensateFrom
    split
    · exact ih ctx
    · split
      · rfl
      · refine gives_closed.ask_at (fun _ => rfl) (fun _ => rfl) fun undone _ => ?_
        exact gives_closed.ask_at (fun _ => rfl) (fun _ => rfl) fun _ _ => ih _

lemma compensate_keeps (i : ℕ) (cls : JobCls) (ctx : TaskContext) :
    (Worker.compensate i cls ctx).Within Gives Quits fun b => b = false := by
  rintro b rfl
  exact gives_closed.ask_at (fun _ => rfl) (fun _ => rfl) fun records _ => compensateFrom_keeps i cls _ ctx

def EndsGiving (v : Except Exc (Worker.TaskEnd × TaskContext)) (b : Bool) : Prop :=
  b = true → ∃ ctx, v = .ok (.retry, ctx)

lemma runTask_gives (i : ℕ) (cls : JobCls) (job : JobRow) (ctx : TaskContext) (pos : ℕ)
    (task : TaskCls) (existing : Option TaskRow) :
    (Worker.runTask i cls job ctx pos task existing).Keeps Gives Quits EndsGiving false := by
  have hnot : ∀ v, EndsGiving v false := fun v h => by cases h
  refine gives_closed.ask_at (fun _ => rfl) (fun _ => hnot _) fun _ _ => ?_
  refine gives_closed.ask_at (fun _ => rfl) (fun _ => hnot _) fun ran _ => ?_
  obtain ⟨exc | v, state⟩ := ran
  · dsimp only
    split
    · refine gives_closed.ask_at (fun _ => rfl) (fun _ => hnot _) fun _ _ => ?_
      exact gives_closed.ask_at (fun _ => rfl) (fun _ => hnot _) fun _ _ => hnot _
    · split
      · refine gives_closed.ask_at (fun _ => rfl) (fun _ => hnot _) fun _ _ => ?_
        refine gives_closed.ask_at (fun _ => rfl) (fun _ => hnot _) fun _ _ => ?_
        refine Prog.Within.bind_at (compensate_keeps i cls _) (fun _ => hnot _) fun ctx' => ?_
        exact Prog.Within.bind_at (settling_keeps (finalizeFailed_asks job i _)) (fun _ => hnot _)
          fun _ => hnot _
      · refine gives_closed.ask_at (fun _ => rfl) (fun _ => hnot _) fun retryAt _ => ?_
        refine gives_closed.ask_at (fun _ => rfl) (fun _ => hnot _) fun _ _ => ?_
        refine gives_closed.ask_at (fun _ => rfl) (fun _ => hnot _) fun _ _ => ?_
        -- here the run is given back, unless this raises
        refine .call_bind rfl (fun e b' hmove => ?_) fun _ b' _ _ => ⟨_, rfl⟩
        rw [hmove]
        exact hnot _
  · refine gives_closed.ask_at (fun _ => rfl) (fun _ => hnot _) fun _ _ => ?_
    exact gives_closed.ask_at (fun _ => rfl) (fun _ => hnot _) fun _ _ => hnot _

lemma runTasks_gives (i : ℕ) (cls : JobCls) (job : JobRow) (records : List TaskRow)
    (tasks : List TaskCls) (pos : ℕ) (ctx : TaskContext) :
    (Worker.runTasks i cls job records tasks pos ctx).Keeps Gives Quits EndsGiving false := by
  induction tasks generalizing pos ctx with
  | nil => exact fun h => by cases h
  | cons task tasks ih =>
    refine .bind ((runTask_gives i cls job ctx pos task _).mono ?_)
    rintro (e | ⟨ended, ctx₁⟩) b hb
    · intro h
      obtain ⟨ctx', hv⟩ := hb h
      cases hv
    · cases ended with
      | retry => exact fun _ => ⟨ctx₁, rfl⟩
      | ok =>
        obtain rfl : b = false := by
          rw [← Bool.not_eq_true]
          intro h
          obtain ⟨ctx', hv⟩ := hb h
          cases hv
        exact ih _ ctx₁
      | cancel | failed =>
        intro h
        obtain ⟨ctx', hv⟩ := hb h
        cases hv

lemma resume_gives (run : RunRow) (job : JobRow) (cls : JobCls) (records : List TaskRow) :
    (Worker.resume run job cls records).Keeps Gives Quits (fun v b => b = true → v = .ok ()) false := by
  have hnot : ∀ v : Except Exc Unit, false = true → v = .ok () := fun v h => by cases h
  have hlast : ∀ ctx, (Worker.reschedule job run.id ctx).Keeps Gives Quits
      (fun v b => b = true → v = .ok ()) false := fun ctx =>
    (reschedule_keeps job run.id ctx false rfl).mono fun v b hb => hb ▸ hnot v
  unfold Worker.resume
  dsimp only
  split
  · refine gives_closed.ask_at (fun _ => rfl) (fun _ => hnot _) fun _ _ => ?_
    refine Prog.Within.bind_at (compensate_keeps _ cls _) (fun _ => hnot _) fun ctx => ?_
    refine Prog.Within.bind_at (settling_keeps (finalizeFailed_asks job _ _)) (fun _ => hnot _) fun _ => ?_
    exact hlast ctx
  · refine .bind ((runTasks_gives _ cls job records _ _ _).mono ?_)
    rintro (e | ⟨ended, ctx⟩) b hb
    · intro h
      obtain ⟨ctx', hv⟩ := hb h
      cases hv
    have hback : ended ≠ .retry → b = false := by
      intro hne
      rw [← Bool.not_eq_true]
      intro h
      obtain ⟨ctx', hv⟩ := hb h
      cases hv
      exact hne rfl
    cases ended with
    | cancel | retry => exact fun _ => rfl
    | failed =>
      rw [hback (by simp)]
      exact hlast ctx
    | ok =>
      rw [hback (by simp)]
      refine gives_closed.ask_at (fun _ => rfl) (fun _ => hnot _) fun _ _ => ?_
      exact gives_closed.ask_at (fun _ => rfl) (fun _ => hnot _) fun _ _ => hlast ctx

lemma execute_gives (w : Worker) (run : RunRow) :
    (w.execute run).Keeps Gives Quits (fun _ _ => True) false := by
  have hnot : ∀ v : Except Exc Unit, false = true → v = .ok () := fun v h => by cases h
  have hrun : (w.run run).Keeps Gives Quits (fun v b => b = true → v = .ok ()) false := by
    refine gives_closed.ask_at (fun _ => rfl) (fun _ => hnot _) fun job _ => ?_
    cases job with
    | none => exact gives_closed.last_at (fun _ => rfl) hnot
    | some job =>
      change Prog.Keeps _ _ (if job.status = .cancelled then _ else _) _ _
      split
      · exact gives_closed.last_at (fun _ => rfl) hnot
      cases w.resolve job.job with
      | none => exact gives_closed.last_at (fun _ => rfl) hnot
      | some cls =>
        exact gives_closed.ask_at (fun _ => rfl) (fun _ => hnot _) fun records _ => resume_gives run job cls _
  refine .tryCatch (hrun.mono ?_)
  rintro (e | a) b hb
  · obtain rfl : b = false := by
      rw [← Bool.not_eq_true]
      intro h
      cases hb h
    refine gives_closed.ask_at (fun _ => rfl) (fun _ => trivial) fun _ _ => ?_
    exact (settling_keeps (rescheduleOnError_asks run) false rfl).mono fun _ _ _ => trivial
  · trivial

/-- **A worker that has given its run back is done.** -/
lemma tick_gives (w : Worker) : w.tick.Keeps Gives Quits (fun _ _ => True) false := by
  have hclaim : w.claim.Within Gives Quits fun b => b = false := by
    rintro b rfl
    refine gives_closed.ask_at (fun _ => rfl) (fun _ => rfl) fun now _ => ?_
    refine gives_closed.ask_at (fun _ => rfl) (fun _ => rfl) fun now' _ => ?_
    refine gives_closed.ask_at (fun _ => rfl) (fun _ => rfl) fun row _ => ?_
    cases row with
    | none => rfl
    | some runId => exact gives_closed.last_at (fun _ => rfl) fun _ => rfl
  refine Prog.Within.bind_at hclaim (fun _ => trivial) fun run => ?_
  cases run with
  | none => trivial
  | some run => exact execute_gives w run

lemma kind_gives (k : Kind) : Pool.InPhase Gives Quits (fun _ => True) k.program false := by
  have hother : (∀ i error t, ¬ k.May (.db (.failRun i error (some t)))) →
      Pool.InPhase Gives Quits (fun _ => True) k.program false := by
    intro hnot
    have hwithin : k.program.Within Gives Quits fun b => b = false := by
      refine (Kind.asks_may k).stays (fun _ _ hb _ => hb) fun b r y b' hb hr hmove => ?_
      rw [hmove, hb, Bool.false_or]
      unfold givesBack
      split
      · exact (hnot _ _ _ hr).elim
      · rfl
    exact (hwithin false rfl).mono fun _ _ _ => trivial
  cases k with
  | worker w => exact tick_gives w
  | _ => exact hother fun _ _ _ => id

end

/-! ### Who executes the run -/

/-- The phase is that of an execution of the run that has not given it back. -/
def Phase.Works (i : ℕ) (c : Phase) : Prop := ∃ j w s, c = .exec i j w s ∧ s ≠ .returned

/-- A run that is executed is held by the one process that executes it, until it is given back. -/
structure LeaseInv (db : DB) (log : List Ev) (ph : ℕ → Phase) : Prop where
  executing : Executing log ph
  /-- A run that is executed is not ready, and it carries its last lock. -/
  held : ∀ pid i, (ph pid).Works i → i < db.runs.seq ∧ Held db i log
  /-- A run has one execution. -/
  alone : ∀ pid pid' i, (ph pid).Works i → (ph pid').Works i → pid = pid'
  /-- An execution that has nothing left has given its run back. -/
  gave : ∀ pid i j w, ph pid = .exec i j w .returned →
    ∃ ev ∈ log, ev.pid = pid ∧ givesBack ev.req ev.reply

/-- A claim of a run that somebody executes comes before the last lock is `lease_seconds` old. -/
def leaseKept (p : System) : Option Req → Bool
  | some (.db (.claimRun i _ _ leaseExpiry)) =>
    decide (Unattended i p) || (lastLock i p.log).any fun t => leaseExpiry ≤ t
  | _ => true

/-- **Leases are kept**: what is executed is renewed in time. -/
def LeasesKept (p : System) : Act → Prop
  | .act pid _ => leaseKept p (p.pending pid)
  | _ => True

instance (p : System) : (l : Act) → Decidable (LeasesKept p l)
  | .act pid _ => inferInstanceAs (Decidable (leaseKept p (p.pending pid) = true))
  | .spawn _ | .crash _ => .isTrue trivial

section

variable {may : Leave} {db db' : DB} {log : List Ev} {ph : ℕ → Phase} {pid i : ℕ} {r : Req}
  {y : Except Exc r.Reply}

lemma leaseInv_init : LeaseInv {} [] fun _ => .rest where
  executing := executing_init
  held := by
    rintro _ _ ⟨_, _, _, ⟨⟩, _⟩
  alone := by
    rintro _ _ _ ⟨_, _, _, ⟨⟩, _⟩
  gave := by
    rintro _ _ _ _ ⟨⟩

lemma Phase.not_works_gone (i : ℕ) : ¬ Phase.gone.Works i := by
  rintro ⟨_, _, _, ⟨⟩, _⟩

lemma works_update_gone {q : ℕ} (h : (Function.update ph pid .gone q).Works i) : (ph q).Works i := by
  by_cases hqp : q = pid
  · rw [hqp, Function.update_self] at h
    exact absurd h (Phase.not_works_gone i)
  · rwa [Function.update_of_ne hqp] at h

lemma LeaseInv.gone (h : LeaseInv db log ph) : LeaseInv db log (Function.update ph pid .gone) where
  executing := h.executing.gone
  held := fun q i hq => h.held q i (works_update_gone hq)
  alone := fun q q' i hq hq' => h.alone q q' i (works_update_gone hq) (works_update_gone hq')
  gave := by
    intro q i j w hq
    by_cases hqp : q = pid
    · rw [hqp, Function.update_self] at hq
      cases hq
    · rw [Function.update_of_ne hqp] at hq
      exact h.gave q i j w hq

lemma works_of_next (hok : (ph pid).ok may r) {q : ℕ}
    (h : (Function.update ph pid ((ph pid).next r y) q).Works i) :
    (ph q).Works i ∨ q = pid ∧ ∃ c, claimIn pid r y = some c ∧ c.run.id = i := by
  by_cases hqp : q = pid
  · subst hqp
    rw [Function.update_self] at h
    obtain ⟨j, w, s, hs, hne⟩ := h
    have hturn := Phase.turn y hok
    rw [hs] at hturn
    generalize ph q = c at hturn
    cases hturn with
    | claims => exact .inr ⟨rfl, _, rfl, rfl⟩
    | givesBack => exact absurd rfl hne
    | stays => exact .inl ⟨j, w, s, rfl, hne⟩
    | retries | givesUp | completes | cancels => exact .inl ⟨j, w, _, rfl, by simp⟩
  · rw [Function.update_of_ne hqp] at h
    exact .inl h

/-- An execution that has given its run back has just done so, or had before. -/
lemma returned_of_next (hok : (ph pid).ok may r) {q j : ℕ} {w : String}
    (h : Function.update ph pid ((ph pid).next r y) q = .exec i j w .returned) :
    ph q = .exec i j w .returned ∨ q = pid ∧ givesBack r y := by
  by_cases hqp : q = pid
  · subst hqp
    rw [Function.update_self] at h
    have hturn := Phase.turn y hok
    rw [h] at hturn
    generalize ph q = c at hturn
    cases hturn with
    | stays => exact .inl rfl
    | givesBack => exact .inr ⟨rfl, rfl⟩
  · rw [Function.update_of_ne hqp] at h
    exact .inl h

/-- An event that leaves the database alone, and neither claims nor locks. -/
lemma LeaseInv.quiet (h : LeaseInv db log ph) (hok : (ph pid).ok may r) (hv : Valid r y) {a : Answer}
    (hcl : claimIn pid r y = none) (hlock : ∀ i, lockIn i r a y = none) :
    LeaseInv db (log ++ [⟨pid, r, a, y, db, db⟩]) (Function.update ph pid ((ph pid).next r y)) := by
  have hwork : ∀ {q i}, (Function.update ph pid ((ph pid).next r y) q).Works i → (ph q).Works i := by
    intro q i hq
    rcases works_of_next hok hq with hq | ⟨-, c, hc, -⟩
    · exact hq
    · rw [hcl] at hc
      cases hc
  refine ⟨h.executing.step hok hv, fun q i hq => ?_, fun q q' i hq hq' => ?_, fun q i j w hq => ?_⟩
  · obtain ⟨hseq, hheld⟩ := h.held q i (hwork hq)
    refine ⟨hseq, fun r' hr' => ?_⟩
    rw [lastLock_concat, lockOf, hlock, Option.none_or]
    exact hheld r' hr'
  · exact h.alone q q' i (hwork hq) (hwork hq')
  · rcases returned_of_next hok hq with hq | ⟨rfl, hgive⟩
    · obtain ⟨ev, hev, hpid, hgive⟩ := h.gave q i j w hq
      exact ⟨ev, List.mem_append_left _ hev, hpid, hgive⟩
    · exact ⟨_, List.mem_append_right _ (List.mem_singleton_self _), rfl, hgive⟩

end

section

variable {may : Leave} {p : System} {db' : DB} {ph : ℕ → Phase} {pid i : ℕ} {c : Call} {e : Env}
  {y : Except Exc c.Reply}

lemma LeaseInv.lives (h : LeaseInv p.shared p.log ph) (hph : InPhases may p ph)
    (hw : (ph pid).Works i) : p.lives pid ∧ claimedBy pid i p.log := by
  obtain ⟨j, w, s, hs, -⟩ := hw
  refine ⟨hph.lives ?_ ?_, ?_⟩
  · simp [hs]
  · simp [hs]
  · obtain ⟨cl, hcl, hi, -⟩ := h.executing.exec pid i j w s hs
    simp [claimedBy, hcl, hi]

/-- **A claim wins only a run that nobody executes**, if leases are kept. -/
lemma LeaseInv.unattended (h : LeaseInv p.shared p.log ph) (hph : InPhases may p ph)
    (hkept : leaseKept p (p.pending pid)) (hasks : p.pending pid = some (.db c))
    (hwins : p.shared.wins i c) (q : ℕ) : ¬ (ph q).Works i := by
  intro hq
  unfold DB.wins at hwins
  split at hwins
  · rename_i runId w now le
    obtain ⟨hi, hsome⟩ := (Bool.and_eq_true _ _).mp hwins
    obtain rfl := of_decide_eq_true hi
    rw [hasks] at hkept
    simp only [leaseKept, Bool.or_eq_true, decide_eq_true_eq] at hkept
    rcases hkept with hun | hlock
    · obtain ⟨hlives, hclaimed⟩ := h.lives hph hq
      rw [hun q (Pool.lt_of_lives hlives) hlives] at hclaimed
      cases hclaimed
    · rcases claimRun_cases p.shared runId w now le with ⟨r, hr, hc, -⟩ | ⟨hy, -⟩
      · obtain ⟨hne, hlast⟩ := (h.held q _ hq).2 r hr
        rcases hc with ⟨hs, -⟩ | ⟨hs, hexp⟩
        · exact hne hs
        · rw [hlast hs] at hexp
          obtain ⟨t, ht, hlt⟩ := (Option.any_eq_true _ _).1 hexp
          rw [ht] at hlock
          exact absurd (of_decide_eq_true hlt) (not_lt.2 (of_decide_eq_true hlock))
      · rw [hy] at hsome
        cases hsome
  · cases hwins

lemma wins_of_claimIn {db : DB} (hx : c.exec db e = some (db', y)) {cl : Claim}
    (hcl : claimIn pid (.db c) y = some cl) : db.wins cl.runId c := by
  obtain ⟨rfl, -⟩ := claimIn_commit hx hcl
  simp only [Call.exec, Option.some.injEq, Prod.mk.injEq] at hx
  obtain ⟨-, rfl⟩ := hx
  rw [DB.wins]
  cases hsome : (db.claimRun cl.runId cl.workerId cl.now cl.leaseExpiry).2 with
  | some run => simp
  | none =>
    rw [hsome] at hcl
    cases hcl

lemma held_of_claim {db : DB} (log : List Ev) (hx : c.exec db e = some (db', y)) {cl : Claim}
    (hcl : claimIn pid (.db c) y = some cl) : cl.runId < db'.runs.seq ∧
      Held db' cl.runId (log ++ [⟨pid, .db c, .commit e, y, db, db'⟩]) := by
  obtain ⟨rfl, r, -, -, hpost⟩ := claimIn_commit hx hcl
  refine ⟨Table.lt_seq_of_get? hpost, fun r' hr' => ?_⟩
  rw [hpost] at hr'
  cases hr'
  refine ⟨by simp [DB.claimed], fun _ => ?_⟩
  rw [lastLock_concat]
  rcases exec_locked hx hpost rfl with ⟨t, ht, hlock⟩ | ⟨hn, -⟩
  · simp [lockOf, ht, hlock]
  · obtain ⟨⟩ | y := y
    · cases hcl
    · cases y with
      | none => cases hcl
      | some run => simp [lockIn] at hn

lemma claimIn_id {r : Req} {y : Except Exc r.Reply} (hv : Valid r y) {cl : Claim}
    (hcl : claimIn pid r y = some cl) : cl.run.id = cl.runId := by
  unfold claimIn at hcl
  split at hcl
  · cases hcl
    exact hv
  · cases hcl

lemma LeaseInv.commit (h : LeaseInv p.shared p.log ph) (hph : InPhases may p ph)
    (hkept : leaseKept p (p.pending pid)) (hf : e.Fresh p.shared) (hasks : p.pending pid = some (.db c))
    (hok : (ph pid).ok may (.db c)) (hx : c.exec p.shared e = some (db', y)) :
    LeaseInv db' (p.log ++ [⟨pid, .db c, .commit e, y, p.shared, db'⟩])
      (Function.update ph pid ((ph pid).next (.db c) y)) := by
  have hv : Valid (.db c) y := valid_of_answer (a := .commit e) hx
  constructor
  case executing => exact h.executing.step hok hv
  case held =>
    intro q i hq
    rcases works_of_next hok hq with hwas | ⟨rfl, cl, hcl, rfl⟩
    · obtain ⟨hseq, hheld⟩ := h.held q i hwas
      refine ⟨hseq.trans_le (exec_runs_seq hx), ?_⟩
      rcases held_exec pid hx hf hseq hheld with hrel | hheld'
      · -- it is the one execution that gives the run back, and goes on no more
        exfalso
        obtain ⟨⟨error, t, hc⟩, -⟩ := hrel
        cases hc
        cases hx
        obtain ⟨j, w, hs⟩ := hok
        obtain rfl := h.alone q pid i hwas ⟨j, w, _, hs, by simp⟩
        rw [Function.update_self, hs] at hq
        obtain ⟨j', w', s', hs', hne⟩ := hq
        cases hs'
        exact hne rfl
      · exact hheld'
    · rw [claimIn_id hv hcl]
      exact held_of_claim p.log hx hcl
  case alone =>
    intro q q' i hq hq'
    rcases works_of_next hok hq with hwas | ⟨rfl, cl, hcl, rfl⟩
    · rcases works_of_next hok hq' with hwas' | ⟨rfl, cl, hcl, rfl⟩
      · exact h.alone q q' i hwas hwas'
      · rw [claimIn_id hv hcl] at hwas
        exact absurd hwas (h.unattended hph hkept hasks (wins_of_claimIn hx hcl) q)
    · rcases works_of_next hok hq' with hwas' | ⟨rfl, -⟩
      · rw [claimIn_id hv hcl] at hwas'
        exact absurd hwas' (h.unattended hph hkept hasks (wins_of_claimIn hx hcl) q')
      · rfl
  case gave =>
    intro q i j w hq
    rcases returned_of_next hok hq with hq | ⟨rfl, hgive⟩
    · obtain ⟨ev, hev, hpid, hgive⟩ := h.gave q i j w hq
      exact ⟨ev, List.mem_append_left _ hev, hpid, hgive⟩
    · exact ⟨_, List.mem_append_right _ (List.mem_singleton_self _), rfl, hgive⟩

/-- The condition of the histories here. -/
def Renewed (p : System) (l : Act) : Prop := System.NewIds p l ∧ LeasesKept p l

instance (p : System) (l : Act) : Decidable (Renewed p l) := inferInstanceAs (Decidable (_ ∧ _))

lemma leaseInv_of_reached {C : System → Act → Prop} (hC : ∀ p l, C p l → Renewed p l)
    (h : p.Reached C) : ∃ ph, InPhases {} p ph ∧ LeaseInv p.shared p.log ph := by
  refine System.phases (fun _ => True) LeaseInv (fun _ _ _ _ _ => trivial) leaseInv_init
    (fun _ _ _ _ h => h.gone) ?_ ?_ ?_ h
  · intro p ph pid c e db' y hCp hph hasks hok hx hG
    obtain ⟨hf, hkept⟩ := hC _ _ hCp
    exact hG.commit hph hkept hf hasks hok hx
  · intro p ph pid c exc _ hG hok
    exact hG.quiet hok (valid_error c exc) (claimIn_error pid c exc) fun i => by cases c <;> rfl
  · intro p ph pid r a y _ hr _ hok _ hG
    refine hG.quiet hok (valid_ask hr) (claimIn_ask hr) fun i => ?_
    cases r with
    | db c => exact absurd rfl (hr c)
    | _ => rfl

lemma not_gives_of_pending {C : System → Act → Prop} (h : p.Reached C) {r : Req}
    (hr : p.pending pid = some r) {ev : Ev} (hev : ev ∈ p.log) (hpid : ev.pid = pid) :
    givesBack ev.req ev.reply = false := by
  obtain ⟨f, hf⟩ := Pool.prog?_of_pending hr
  have hwatched : ∃ b, p.watch (fun b r y => b || givesBack r y) (fun _ => false) pid = some b ∧
      Pool.InPhase Gives Quits (fun _ => True) (.ask r f) b :=
    Pool.watched (A := Gives) (fun _ _ _ => rfl) (fun _ k _ => kind_gives k) h rfl rfl hf
  obtain ⟨b, hb, hkeeps⟩ := hwatched
  obtain rfl : b = false := hkeeps.1
  obtain ⟨k, -, hfold⟩ := Option.map_eq_some_iff.1 hb
  have hfoldl : ∀ (l : List Said) (b : Bool),
      l.foldl (fun b x => b || givesBack x.1 x.2) b = (b || l.any fun x => givesBack x.1 x.2) := by
    intro l
    induction l with
    | nil => simp
    | cons x l ih =>
      intro b
      rw [List.foldl_cons, ih, List.any_cons, Bool.or_assoc]
  rw [hfoldl, Bool.false_or, List.any_eq_false] at hfold
  have hsaid : (⟨ev.req, ev.reply⟩ : Said) ∈ Pool.said pid p.log :=
    List.mem_map_of_mem (List.mem_filter.2 ⟨hev, decide_eq_true hpid⟩)
  simpa using hfold _ hsaid

lemma LeaseInv.works {C : System → Act → Prop} (h : p.Reached C) (hG : LeaseInv p.shared p.log ph)
    (hph : InPhases may p ph) (hlives : p.lives pid) (hclaimed : claimedBy pid i p.log) :
    (ph pid).Works i := by
  obtain ⟨r, hr⟩ := Pool.asks_of_lives h rfl hlives
  obtain ⟨f, hf⟩ := Pool.prog?_of_pending hr
  have hok : (ph pid).ok may r := (hph.of_prog? hf).1
  cases hc : ph pid with
  | exec i' j w s =>
    refine ⟨j, w, s, ?_, ?_⟩
    · obtain ⟨cl, hcl, hi, -⟩ := hG.executing.exec pid i' j w s hc
      simp only [claimedBy, hcl, List.any_cons, List.any_nil, Bool.or_false,
        decide_eq_true_eq] at hclaimed
      rw [← hi, hclaimed]
    · rintro rfl
      obtain ⟨ev, hev, hpid, hgive⟩ := hG.gave pid i' j w hc
      rw [not_gives_of_pending h hr hev hpid] at hgive
      cases hgive
  | _ =>
    have hnone := hG.executing.idle pid (by simp [hc, Phase.Executes]) (Phase.ne_gone_of_ok hok)
    simp [claimedBy, hnone] at hclaimed

variable {name : String} {m : ℤ} {cls : JobCls}

/-- **Executions exclude one another**: as long as leases are kept, one process at most executes a run,
whoever claims, cancels, sweeps or is killed in between. -/
theorem leases_exclude (h : p.Reached Renewed) (hlives : p.lives pid)
    (hclaimed : claimedBy pid i p.log) :
    ∀ pid', p.lives pid' → pid' ≠ pid → claimedBy pid' i p.log = false := by
  intro pid' hlives' hne
  obtain ⟨ph, hph, hG⟩ := leaseInv_of_reached (fun _ _ => id) h
  rw [← Bool.not_eq_true]
  intro hclaimed'
  exact hne (hG.alone pid' pid i (hG.works h hph hlives' hclaimed') (hG.works h hph hlives hclaimed))

/-- What a process may be answered in a history of the run, whoever executes it. -/
def mindsRow (i : ℕ) (p : System) (pid : ℕ) : Req → Bool
  | .db (.compensateTask runId _) | .undo runId _ _ => runId ≠ i || claimedBy pid i p.log
  | .db c => !p.shared.erases i c
  | _ => true

/-- The act is one of a history of the run, whoever executes it. -/
def mindsRun (i : ℕ) (p : System) : Act → Bool
  | .act pid _ => (p.pending pid).all (mindsRow i p pid)
  | _ => true

/-- The history is one of the run of a job that is called `name` and allows `m` attempts, of a class that
every worker knows, which nobody deletes or undoes by hand. -/
def Minded (i : ℕ) (name : String) (m : ℤ) (cls : JobCls) (p : System) (l : Act) : Prop :=
  BelongsTo p.shared i name m ∧ knows name cls l ∧ mindsRun i p l

lemma mindsReq_of_row {r : Req} (hrow : mindsRow i p pid r)
    (hun : ∀ c, r = .db c → p.shared.wins i c → Unattended i p) : mindsReq i p pid r := by
  have hwin : ∀ c, r = .db c → (!p.shared.wins i c || decide (Unattended i p)) = true := by
    intro c hc
    cases hw : p.shared.wins i c with
    | false => rfl
    | true => simp [hun c hc hw]
  cases r with
  | db c =>
    cases c with
    | compensateTask => exact hrow
    | _ => exact (Bool.and_eq_true _ _).mpr ⟨hrow, hwin _ rfl⟩
  | undo => exact hrow
  | _ => rfl

/-- **Executors follow one another**: where leases are kept, the run is won only when nobody executes
it. -/
lemma solo_of_renewed {C : System → Act → Prop} (hC : ∀ p l, C p l → Renewed p l) (h : p.Reached C)
    {l : Act} (hl : Renewed p l) (hm : Minded i name m cls p l) : Solo i name m cls p l := by
  obtain ⟨hbelongs, hknows, hrow⟩ := hm
  refine ⟨hbelongs, hknows, ?_⟩
  cases l with
  | spawn k => rfl
  | crash pid => rfl
  | act pid a =>
    refine (Option.all_eq_true _ _).2 fun r hr => ?_
    refine mindsReq_of_row ((Option.all_eq_true _ _).1 hrow r hr) ?_
    rintro c rfl hwins q - hlives
    obtain ⟨ph, hph, hG⟩ := leaseInv_of_reached hC h
    rw [← Bool.not_eq_true]
    intro hclaimed
    exact hG.unattended hph hl.2 hr hwins q (hG.works h hph hlives hclaimed)

/-- A history of the run in which leases are kept. -/
def Kept (i : ℕ) (name : String) (m : ℤ) (cls : JobCls) (p : System) (l : Act) : Prop :=
  Renewed p l ∧ Minded i name m cls p l

instance (i : ℕ) (name : String) (m : ℤ) (cls : JobCls) (p : System) (l : Act) :
    Decidable (Kept i name m cls p l) := inferInstanceAs (Decidable (_ ∧ _ ∧ _ ∧ _))

lemma solo_of_kept (h : p.Reached (Kept i name m cls)) : p.Reached (Solo i name m cls) := by
  induction h with
  | refl => exact .refl
  | @tail p₁ p₂ hrun hmove ih =>
    obtain ⟨l, hC, hstep⟩ := hmove
    exact ih.tail ⟨l, solo_of_renewed (fun _ _ hC => hC.1) hrun hC.1 hC.2, hstep⟩

/-- **Kept leases are enough**: nobody needs to see to it that executors follow one another. The tasks
that have succeeded are the first few, and whoever starts, fails or cancels a task of the run finds that
it has not succeeded, or was undone. -/
theorem leases_keep_work (h : p.Reached (Kept i name m cls)) :
    (∃ k ≤ cls.tasks.length, ∀ pos, p.shared.done i pos ↔ pos < k) ∧
      ∀ l₁ ev l₂ pos, p.log = l₁ ++ ev :: l₂ → about i ev.req → Redoes pos ev.req →
        ev.pre.done i pos = false := by
  have hsolo := solo_of_kept h
  refine ⟨?_, fun l₁ ev l₂ pos hl hab hr => not_done_of_redoes hsolo hl hab hr⟩
  obtain ⟨k, hk, hup⟩ := (resume_describes hsolo).based
  refine ⟨k, hk, fun pos => ?_⟩
  rw [← hup pos]
  simp [View.now]

end

/-- Worker A (process 1) has done the first task. Its lease runs out, and worker B (process 2) selects
the run, but A's heartbeat (process 3) renews the lease before B claims. -/
def renewedInTime : List Act :=
  firstDone 1 ++
  .spawn (.worker (.knowing twoTasks "B")) :: reads 2 40 :: reads 2 40 :: commits 2 1 40 ++
  .spawn (.heartbeat (.knowing twoTasks "A") [(0, 0)]) :: commits 3 2 41

theorem leases_exclude_renewedInTime : ∃ p : System,
    System.init.play Renewed renewedInTime = some p ∧ p.lives 2 ∧ claimedBy 2 0 p.log = false := by
  have hall : ((System.init.play Renewed renewedInTime).any fun p =>
      p.lives 1 ∧ claimedBy 1 0 p.log ∧ p.lives 2) = true := by decide
  obtain ⟨p, hp, hend⟩ := (Option.any_eq_true _ _).1 hall
  obtain ⟨hlives, hclaimed, hlives'⟩ := of_decide_eq_true hend
  exact ⟨p, hp, hlives', leases_exclude (Pool.run_of_play hp) hlives hclaimed 2 hlives' (by decide)⟩

/-- B's claim is lost, and A goes on with the second task. -/
theorem leases_keep_work_renewedInTime : ∃ p : System,
    System.init.play (Kept 0 "m.J" 1 twoTasks) (renewedInTime ++ commits 2 1 41) = some p ∧
      ∃ k ≤ 2, ∀ pos, p.shared.done 0 pos ↔ pos < k := by
  have hall : (System.init.play (Kept 0 "m.J" 1 twoTasks)
      (renewedInTime ++ commits 2 1 41)).isSome = true := by decide
  obtain ⟨p, hp⟩ := Option.isSome_iff_exists.1 hall
  exact ⟨p, hp, (leases_keep_work (Pool.run_of_play hp)).1⟩

end Pyreljob
