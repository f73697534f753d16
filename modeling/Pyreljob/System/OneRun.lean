import Pyreljob.System.Firing

/-!
At most one run of a job is in flight.

Three statements create a run: the insert of `enqueue`, for a job that is new; `create_run` of a beat
that has won `claim_scheduled`; and `create_run` of a worker that has given up a run and retries the
whole of it. The first two are safe. A win asks that no run of the job is in flight, and for as long
as it is fresh the job is disarmed and looks alive, so that nobody else creates one either. The third
asks for nothing. It is safe as long as the job has not been fired behind the worker's back, and the
same goes for the worker's last write, `set_next_run_at`, which may disturb the win of a beat.
-/

namespace Pyreljob

open Lib

/-! ### The property, what it assumes, and its condition -/

/-- No job has two runs in flight. -/
def OneInFlight (db : DB) : Prop :=
  ∀ i i' r r', db.runs.get? i = some r → db.runs.get? i' = some r' → r.status.inFlight →
    r'.status.inFlight → r.jobId = r'.jobId → i = i'

/-- A claim takes a running run that a process which lives has claimed. -/
def robs (p : System) : Act → Bool
  | .act pid (.commit _) =>
    match p.pending pid with
    | some (.db (.claimRun i _ now leaseExpiry)) =>
      ((p.shared.runs.get? i).any fun r =>
        r.status = .running ∧ DB.Claimable now leaseExpiry r) &&
      (List.range p.procs.length).any fun q => p.lives q && (claimsBy q p.log).any fun c => c.runId = i
    | _ => false
  | _ => false

/-- A beat creates a run `G` seconds or more after it has won the job. -/
def tardy (G : ℤ) (p : System) : Act → Bool
  | .act pid (.commit e) =>
    match p.pending pid with
    | some (.db (.createRun ..)) => (lastWin pid p.log).any fun w => w.2 + seconds G ≤ e.now
    | _ => false
  | _ => false

/-- A beat is started with a grace period of less than `G` seconds. -/
def hasty (G : ℤ) : Act → Bool
  | .spawn (.beat g _ _) => g < G
  | _ => false

/-- What is assumed of each act: keys are not used twice, there is one clock, no lease expires under a
worker that lives, and `G` seconds are enough for a beat to fire a job, and not more than the grace
period of any of them. -/
def Assumed (G : ℤ) (p : System) (l : Act) : Prop :=
  System.NewIds p l ∧ runsBack p l = false ∧ robs p l = false ∧ tardy G p l = false ∧
    hasty G l = false

instance (G : ℤ) (p : System) (l : Act) : Decidable (Assumed G p l) :=
  inferInstanceAs (Decidable (_ ∧ _ ∧ _ ∧ _ ∧ _))

/-- A worker creates a run of its job or arms it, although the job was fired since the worker has
claimed its run. -/
def behind (p : System) : Act → Bool
  | .act pid (.commit _) =>
    match p.pending pid with
    | some (.db (.createRun jobId _)) | some (.db (.setNextRunAt jobId _)) =>
      !(claimsBy pid p.log).isEmpty && refired jobId pid p.log
    | _ => false
  | _ => false

/-- No worker creates a run of its job or arms it behind the back of a beat. -/
def Abreast (p : System) (l : Act) : Prop := behind p l = false

instance (p : System) (l : Act) : Decidable (Abreast p l) :=
  inferInstanceAs (Decidable (behind p l = false))

/-! ### The invariant -/

/-- Runs in the hands of workers. -/
structure Custody (db : DB) (ph : ℕ → Phase) : Prop where
  /-- The run has a key that was handed out, and stays with its job. -/
  job : ∀ q i j w s, ph q = .exec i j w s → i < db.runs.seq ∧ j < db.jobs.seq ∧
    ∀ r, db.runs.get? i = some r → r.jobId = j
  /-- Nobody may claim a run that is worked on. -/
  working : ∀ q i j w, ph q = .exec i j w .working → ∀ r, db.runs.get? i = some r →
    r.status ≠ .ready
  /-- A run that was given up or finished is in flight no more. -/
  settled : ∀ q i j w s, ph q = .exec i j w s → s = .failed ∨ s = .closing →
    ∀ r, db.runs.get? i = some r → ¬ r.status.inFlight
  /-- A run is worked on by one process. -/
  single : ∀ q q' i j j' w w', ph q = .exec i j w .working → ph q' = .exec i j' w' .working → q = q'

/-- The execution may still create runs, as far as its stage is concerned. -/
def Stage.Open (s : Stage) : Prop := s = .working ∨ s = .failed

/-- Jobs in the hands of workers, as long as nobody else fires them. -/
structure Ownership (db : DB) (log : List Ev) (ph : ℕ → Phase) : Prop where
  /-- Nothing but the run of the worker is in flight. -/
  own : ∀ q i j w s, ph q = .exec i j w s → s.Open → refired j q log = false →
    ∀ i' r, db.runs.get? i' = some r → r.jobId = j → r.status.inFlight → i' = i
  /-- A job is in the hands of one process. -/
  single : ∀ q q' i i' j w w' s s', ph q = .exec i j w s → ph q' = .exec i' j w' s' → s.Open →
    s'.Open → refired j q log = false → refired j q' log = false → q = q'

/-- The process has won the job at `t`, and still has the time to create the run. -/
def FreshWin (G : ℤ) (log : List Ev) (ph : ℕ → Phase) (q j : ℕ) (t : Time) : Prop :=
  ph q = .fired j ∧ lastWin q log = some (j, t) ∧ Before log (t + seconds G)

/-- Jobs in the hands of beats. -/
structure Firing (G : ℤ) (db : DB) (log : List Ev) (ph : ℕ → Phase) : Prop where
  won : ∀ q j, ph q = .fired j → (∃ t, lastWin q log = some (j, t)) ∧ j < db.jobs.seq
  past : ∀ q j t, lastWin q log = some (j, t) → Past log t
  read : ∀ q now, ph q = .read now → Past log now
  /-- No run of the job is in flight. -/
  idle : ∀ q j t, FreshWin G log ph q j t → ∀ i r, db.runs.get? i = some r → r.jobId = j →
    ¬ r.status.inFlight
  /-- No worker that has the job in its hands knows of it. -/
  cold : ∀ q j t, FreshWin G log ph q j t → ∀ q' i w s, ph q' = .exec i j w s → refired j q' log
  /-- The job is disarmed, and does not look orphaned. -/
  disarmed : ∀ q j t, FreshWin G log ph q j t → ∀ job, db.jobs.get? j = some job →
    job.status = .active → job.nextRunAt = none ∧ ∃ u, job.updatedAt = some u ∧ t ≤ u
  /-- A job is won by one process. -/
  single : ∀ q q' j t t', FreshWin G log ph q j t → FreshWin G log ph q' j t' → q = q'

/-- What holds between the runs, the log, the workers and the beats. -/
structure OneRunInv (G : ℤ) (db : DB) (log : List Ev) (ph : ℕ → Phase) : Prop where
  executing : Executing log ph
  custody : Custody db ph
  ownership : Ownership db log ph
  firing : Firing G db log ph
  /-- The job of a run has a key that was handed out. -/
  jobs : ∀ i r, db.runs.get? i = some r → r.jobId < db.jobs.seq
  one : OneInFlight db

/-! ### What a process that acts does to the phases -/

section Phases

variable {may : Leave} {ph ph' : ℕ → Phase} {pid : ℕ}

/-- Nobody executes a run or has won a job who did not before. -/
def Fewer (ph ph' : ℕ → Phase) : Prop :=
  (∀ q i j w s, ph' q = .exec i j w s → ph q = .exec i j w s) ∧ ∀ q j, ph' q = .fired j → ph q = .fired j

lemma fewer_update {c : Phase} (hexec : ∀ i j w s, c = .exec i j w s → ph pid = c)
    (hfired : ∀ j, c = .fired j → ph pid = c) : Fewer ph (Function.update ph pid c) := by
  constructor
  · intro q i j w s hq
    by_cases hqp : q = pid
    · subst hqp
      rw [Function.update_self] at hq
      rw [hexec i j w s hq, hq]
    · rwa [Function.update_of_ne hqp] at hq
  · intro q j hq
    by_cases hqp : q = pid
    · subst hqp
      rw [Function.update_self] at hq
      rw [hfired j hq, hq]
    · rwa [Function.update_of_ne hqp] at hq

lemma fewer_raise {c : Call} {exc : Exc} (hok : (ph pid).ok may (.db c)) :
    Fewer ph (Function.update ph pid ((ph pid).next (.db c) (.error exc))) := by
  have hturn := Phase.turn (.error exc) hok
  generalize (ph pid).next (.db c) (.error exc) = c' at hturn
  generalize hc : ph pid = c₀ at hturn
  cases hturn with
  | stays => exact fewer_update (fun _ _ _ _ _ => hc) fun _ _ => hc
  | misses => exact fewer_update nofun nofun

lemma fewer_ask {r : Req} {y : Except Exc r.Reply} (hr : ∀ c, r ≠ .db c)
    (hok : (ph pid).ok may r) : Fewer ph (Function.update ph pid ((ph pid).next r y)) := by
  have hturn := Phase.turn y hok
  generalize (ph pid).next r y = c' at hturn
  generalize hc : ph pid = c₀ at hturn
  cases hturn with
  | stays => exact fewer_update (fun _ _ _ _ _ => hc) fun _ _ => hc
  | reads => exact fewer_update nofun nofun
  | _ => exact absurd rfl (hr _)

end Phases

/-! ### Acts that leave the database alone -/

section Quiet

variable {G : ℤ} {db : DB} {log : List Ev} {ph ph' : ℕ → Phase} {ev : Ev}

lemma Custody.fewer (h : Custody db ph) (hph : Fewer ph ph') : Custody db ph' where
  job q i j w s hq := h.job q i j w s (hph.1 q i j w s hq)
  working q i j w hq := h.working q i j w (hph.1 q i j w _ hq)
  settled q i j w s hq := h.settled q i j w s (hph.1 q i j w s hq)
  single q q' i j j' w w' hq hq' :=
    h.single q q' i j j' w w' (hph.1 q i j w _ hq) (hph.1 q' i j' w' _ hq')

lemma Ownership.fewer (h : Ownership db log ph) (hph : Fewer ph ph') : Ownership db log ph' where
  own q i j w s hq := h.own q i j w s (hph.1 q i j w s hq)
  single q q' i i' j w w' s s' hq hq' :=
    h.single q q' i i' j w w' s s' (hph.1 q i j w s hq) (hph.1 q' i' j w' s' hq')

/-- An event that is neither a claim nor a win takes no job out of anybody's hands. -/
lemma Ownership.quiet (h : Ownership db log ph) (hcl : claimOf ev = none) (hwin : winOf ev = none) :
    Ownership db (log ++ [ev]) ph := by
  have hsame : ∀ j q, refired j q (log ++ [ev]) = refired j q log := by
    intro j q
    simp [refired_concat, hcl, hwin]
  refine ⟨fun q i j w s hq hs hc => ?_, fun q q' i i' j w w' s s' hq hq' hs hs' hc hc' => ?_⟩
  · rw [hsame] at hc
    exact h.own q i j w s hq hs hc
  · rw [hsame] at hc hc'
    exact h.single q q' i i' j w w' s s' hq hq' hs hs' hc hc'

lemma Firing.quiet (h : Firing G db log ph) (hcl : claimOf ev = none) (hwin : winOf ev = none)
    (hclock : ∀ s, readingIn ev.req ev.ans = some s → ∀ n, clock log = some n → n ≤ s)
    (hph : Fewer ph ph') (hread : ∀ q now, ph' q = .read now → Past (log ++ [ev]) now) :
    Firing G db (log ++ [ev]) ph' := by
  have hlast : ∀ q, lastWin q (log ++ [ev]) = lastWin q log := by
    intro q
    simp [lastWin_concat, hwin]
  have hfresh : ∀ q j t, FreshWin G (log ++ [ev]) ph' q j t → FreshWin G log ph q j t := by
    intro q j t ⟨hq, hl, hb⟩
    exact ⟨hph.2 q j hq, (hlast q).symm.trans hl, hb.of_concat hclock⟩
  constructor
  case won =>
    intro q j hq
    rw [hlast]
    exact h.won q j (hph.2 q j hq)
  case past =>
    intro q j t hl
    rw [hlast] at hl
    exact (h.past q j t hl).concat hclock
  case read => exact hread
  case idle =>
    intro q j t hq
    exact h.idle q j t (hfresh q j t hq)
  case cold =>
    intro q j t hq q' i w s hq'
    have hcold := h.cold q j t (hfresh q j t hq) q' i w s (hph.1 q' i j w s hq')
    simp [refired_concat, hcl, hcold]
  case disarmed =>
    intro q j t hq
    exact h.disarmed q j t (hfresh q j t hq)
  case single =>
    intro q q' j t t' hq hq'
    exact h.single q q' j t t' (hfresh q j t hq) (hfresh q' j t' hq')

lemma Firing.gone {pid : ℕ} (h : Firing G db log ph) :
    Firing G db log (Function.update ph pid .gone) := by
  have hph : Fewer ph (Function.update ph pid .gone) := fewer_update nofun nofun
  have hfresh : ∀ q j t, FreshWin G log (Function.update ph pid .gone) q j t →
      FreshWin G log ph q j t := fun q j t ⟨hq, hl⟩ => ⟨hph.2 q j hq, hl⟩
  constructor
  case won => exact fun q j hq => h.won q j (hph.2 q j hq)
  case past => exact h.past
  case read =>
    intro q now hq
    by_cases hqp : q = pid
    · subst hqp
      rw [Function.update_self] at hq
      cases hq
    · rw [Function.update_of_ne hqp] at hq
      exact h.read q now hq
  case idle => exact fun q j t hq => h.idle q j t (hfresh q j t hq)
  case cold =>
    exact fun q j t hq q' i w s hq' => h.cold q j t (hfresh q j t hq) q' i w s (hph.1 q' i j w s hq')
  case disarmed => exact fun q j t hq => h.disarmed q j t (hfresh q j t hq)
  case single =>
    exact fun q q' j t t' hq hq' => h.single q q' j t t' (hfresh q j t hq) (hfresh q' j t' hq')

end Quiet

/-! ### A transaction that commits -/

/-- The transaction of a process commits in a state in which the invariant holds. -/
structure Commits (G : ℤ) (p : System) (ph : ℕ → Phase) (pid : ℕ) (c : Call) (e : Env) (db' : DB)
    (y : Except Exc c.Reply) : Prop where
  inv : OneRunInv G p.shared p.log ph
  phased : InPhases { grace := (G ≤ ·) } p ph
  asks : p.pending pid = some (.db c)
  ok : (ph pid).ok { grace := (G ≤ ·) } (.db c)
  exec : c.exec p.shared e = some (db', y)
  assumed : Assumed G p (.act pid (.commit e))
  abreast : Abreast p (.act pid (.commit e))

def Takes (db db' : DB) (c : Call) (i j : ℕ) (w : String) : Prop :=
  ∃ now le r, c = .claimRun i w now le ∧ db.runs.get? i = some r ∧ DB.Claimable now le r ∧
    r.jobId = j ∧ db'.runs.get? i = some (DB.claimed w now r)

namespace Commits

variable {G : ℤ} {p : System} {ph : ℕ → Phase} {pid : ℕ} {c : Call} {e : Env} {db' : DB}
variable {y : Except Exc c.Reply}

lemma clock_le (h : Commits G p ph pid c e db' y) :
    ∀ n, clock p.log = some n → n ≤ e.now := fun _ => clock_le_commit h.assumed.2.1

lemma not_robbed (h : Commits G p ph pid c e db' y) {i j : ℕ} {w : String} {now le : Time}
    {r : RunRow} (hc : c = .claimRun i w now le) (hr : p.shared.runs.get? i = some r)
    (hs : r.status = .running) (hcl : DB.Claimable now le r) {q : ℕ} {w' : String} {s : Stage} :
    ph q ≠ .exec i j w' s := by
  intro hq
  have hlives : p.lives q := h.phased.lives (by simp [hq]) (by simp [hq])
  obtain ⟨cl, hcl', hi, -⟩ := h.inv.executing.exec q i j w' s hq
  have hrobs : robs p (.act pid (.commit e)) = true := by
    have hasks := h.asks
    rw [hc] at hasks
    simp only [robs, hasks, hr, Option.any_some, hs, hcl, and_self, decide_true, Bool.true_and,
      List.any_eq_true, List.mem_range, Bool.and_eq_true, decide_eq_true_eq]
    exact ⟨q, Pool.lt_of_lives hlives, hlives, cl, by simp [hcl'], hi⟩
  rw [h.assumed.2.2.1] at hrobs
  cases hrobs

/-- Who executes a run afterwards did so before, or has just claimed it. -/
lemma exec_after (h : Commits G p ph pid c e db' y) {q i j : ℕ} {w : String} {s : Stage}
    (hq : Function.update ph pid ((ph pid).next (.db c) y) q = .exec i j w s) :
    (∃ s', ph q = .exec i j w s' ∧ (s = .working → s' = .working) ∧ (s.Open → s'.Open)) ∨
      (q = pid ∧ s = .working ∧ Takes p.shared db' c i j w) := by
  by_cases hqp : q = pid
  · subst hqp
    rw [Function.update_self] at hq
    have hturn := Phase.turn (r := .db c) y h.ok
    rw [hq] at hturn
    generalize hc₀ : ph q = c₀ at hturn
    cases hturn with
    | stays => exact .inl ⟨s, rfl, id, id⟩
    | retries => exact .inl ⟨_, rfl, nofun, fun hs => by rcases hs with hs | hs <;> cases hs⟩
    | givesUp | givesBack | completes | cancels => exact .inl ⟨_, rfl, fun _ => rfl, fun _ => .inl rfl⟩
    | claims i₀ _ now le run =>
      right
      have hx := h.exec
      simp only [Call.exec, Option.some.injEq, Prod.mk.injEq, Except.ok.injEq] at hx
      obtain ⟨rfl, hrun⟩ := hx
      rcases claimRun_cases p.shared i₀ w now le with ⟨r, hr, hcl, hy, hpost⟩ | ⟨hy, -⟩
      · rw [hy, Option.some.injEq] at hrun
        subst hrun
        obtain rfl : r.id = i₀ := run_id_of_get? hr
        exact ⟨rfl, rfl, now, le, r, rfl, hr, hcl, rfl, hpost⟩
      · rw [hy] at hrun
        cases hrun
  · rw [Function.update_of_ne hqp] at hq
    exact .inl ⟨s, hq, id, id⟩

/-- Who has given up or finished a run has done so before, or has just settled it. -/
lemma settled_after (h : Commits G p ph pid c e db' y) {q i j : ℕ} {w : String} {s : Stage}
    (hq : Function.update ph pid ((ph pid).next (.db c) y) q = .exec i j w s)
    (hs : s = .failed ∨ s = .closing) :
    (∃ s', ph q = .exec i j w s' ∧ (s' = .failed ∨ s' = .closing)) ∨
      (ph q = .exec i j w .working ∧ ((∃ error, c = .failRun i error none) ∨
        (∃ v, c = .completeRun i v) ∨ c = .cancelRun i)) := by
  by_cases hqp : q = pid
  · subst hqp
    rw [Function.update_self] at hq
    have hturn := Phase.turn (r := .db c) y h.ok
    rw [hq] at hturn
    generalize hc₀ : ph q = c₀ at hturn
    cases hturn with
    | stays => exact .inl ⟨s, rfl, hs⟩
    | retries => exact .inl ⟨_, rfl, .inl rfl⟩
    | givesUp _ _ _ error => exact .inr ⟨rfl, .inl ⟨error, rfl⟩⟩
    | completes _ _ _ v => exact .inr ⟨rfl, .inr (.inl ⟨v, rfl⟩)⟩
    | cancels => exact .inr ⟨rfl, .inr (.inr rfl)⟩
    | claims | givesBack => rcases hs with hs | hs <;> cases hs
  · rw [Function.update_of_ne hqp] at hq
    exact .inl ⟨s, hq, hs⟩

lemma takes_free (h : Commits G p ph pid c e db' y) {i j : ℕ} {w : String}
    (ht : Takes p.shared db' c i j w) {q j' : ℕ} {w' : String} {s : Stage} (hs : s ≠ .returned) :
    ph q ≠ .exec i j' w' s := by
  intro hq
  obtain ⟨now, le, r, hc, hr, hcl, -, -⟩ := ht
  rcases hcl with ⟨hready, hd⟩ | ⟨hrun, hd⟩
  · cases s with
    | working => exact h.inv.custody.working q i j' w' hq r hr hready
    | failed =>
      exact h.inv.custody.settled q i j' w' _ hq (.inl rfl) r hr (by simp [hready, RunStatus.inFlight])
    | closing =>
      exact h.inv.custody.settled q i j' w' _ hq (.inr rfl) r hr (by simp [hready, RunStatus.inFlight])
    | returned => exact hs rfl
  · exact h.not_robbed hc hr hrun (.inr ⟨hrun, hd⟩) hq

lemma takes_inFlight {db : DB} {i j : ℕ} {w : String} (ht : Takes db db' c i j w) :
    ∃ r, db.runs.get? i = some r ∧ r.status.inFlight ∧ r.jobId = j := by
  obtain ⟨now, le, r, -, hr, hcl, hj, -⟩ := ht
  exact ⟨r, hr, inFlight_of_claimable hcl, hj⟩

/-! #### Custody -/

lemma custody (h : Commits G p ph pid c e db' y) :
    Custody db' (Function.update ph pid ((ph pid).next (.db c) y)) := by
  have hfresh := h.assumed.1
  constructor
  case job =>
    intro q i j w s hq
    rcases h.exec_after hq with ⟨s', hq', -, -⟩ | ⟨rfl, rfl, ht⟩
    · obtain ⟨hi, hj, hrow⟩ := h.inv.custody.job q i j w s' hq'
      refine ⟨hi.trans_le (exec_runs_seq h.exec), hj.trans_le (exec_jobs_seq h.exec), fun r' hr' => ?_⟩
      have hstep := exec_run h.exec i
      rw [hr'] at hstep
      rcases hstep.jobId with ⟨-, hi', -⟩ | ⟨r, hr, hjob⟩
      · have := hfresh.2.1
        omega
      · exact hjob ▸ hrow r hr
    · obtain ⟨now, le, r, -, hr, -, rfl, hpost⟩ := ht
      refine ⟨Table.lt_seq_of_get? hpost, (h.inv.jobs i r hr).trans_le (exec_jobs_seq h.exec),
        fun r' hr' => ?_⟩
      rw [hpost] at hr'
      cases hr'
      rfl
  case working =>
    intro q i j w hq r' hr' hready
    rcases h.exec_after hq with ⟨s', hq', hs, -⟩ | ⟨rfl, -, ht⟩
    · obtain rfl := hs rfl
      have hstep := exec_run h.exec i
      rw [hr'] at hstep
      rcases hstep.ready hready with ⟨-, hi⟩ | ⟨r, hr, hs⟩ | ⟨r, error, t, hr, hs, rfl⟩
      · have := (h.inv.custody.job q i j w _ hq').1
        have := hfresh.2.1
        omega
      · exact h.inv.custody.working q i j w hq' r hr hs
      · -- The only one that may give the run back is the worker itself, and then it has left it.
        obtain ⟨j₀, w₀, hpid⟩ := h.ok
        obtain rfl := h.inv.custody.single q pid i j j₀ w w₀ hq' hpid
        have hx := h.exec
        simp only [Call.exec, Option.some.injEq, Prod.mk.injEq] at hx
        obtain ⟨-, rfl⟩ := hx
        rw [Function.update_self, hpid] at hq
        cases hq
    · obtain ⟨now, le, r, -, -, -, -, hpost⟩ := ht
      rw [hpost] at hr'
      cases hr'
      cases hready
  case settled =>
    intro q i j w s hq hs r' hr' hfl
    have hstep := exec_run h.exec i
    rw [hr'] at hstep
    have hnew : ¬ Creates e i r'.jobId c := by
      rintro ⟨hi, -⟩
      have hlt : i < p.shared.runs.seq := by
        rcases h.settled_after hq hs with ⟨s', hq', -⟩ | ⟨hq', -⟩ <;>
          exact (h.inv.custody.job q i j w _ hq').1
      have := hfresh.2.1
      omega
    rcases h.settled_after hq hs with ⟨s', hq', hs'⟩ | ⟨hq', hc⟩
    · rcases hstep.inFlight hfl with ⟨-, hn⟩ | ⟨r, hr, hrf, -⟩
      · exact hnew hn
      · exact h.inv.custody.settled q i j w s' hq' hs' r hr hrf
    · -- A run that is worked on is not ready, and does not run after this.
      have hrun := exec_settles h.exec
        (hc.imp_left (Exists.imp fun error hc => ⟨none, hc⟩)) hr'
      have hready : r'.status ≠ .ready := by
        intro hready
        rcases hstep.ready hready with ⟨hn, -⟩ | ⟨r, hr, hs⟩ | ⟨r, error, t, -, -, rfl⟩
        · rcases hstep.inFlight hfl with ⟨-, hn'⟩ | ⟨r, hr, -⟩
          · exact hnew hn'
          · rw [hr] at hn
            cases hn
        · exact h.inv.custody.working q i j w hq' r hr hs
        · rcases hc with ⟨_, hc⟩ | ⟨_, hc⟩ | hc <;> cases hc
      cases hst : r'.status <;> simp_all [RunStatus.inFlight]
  case single =>
    intro q q' i j j' w w' hq hq'
    rcases h.exec_after hq with ⟨s, hs, hw, -⟩ | ⟨rfl, -, ht⟩ <;>
      rcases h.exec_after hq' with ⟨s', hs', hw', -⟩ | ⟨rfl, -, ht'⟩
    · rw [hw rfl] at hs
      rw [hw' rfl] at hs'
      exact h.inv.custody.single q q' i j j' w w' hs hs'
    · rw [hw rfl] at hs
      exact absurd hs (h.takes_free ht' (by simp))
    · rw [hw' rfl] at hs'
      exact absurd hs' (h.takes_free ht (by simp))
    · rfl

/-! #### Creation -/

/-- Who executes a job that was not fired since before this event and is not fired by it. -/
lemma hot_before (h : Commits G p ph pid c e db' y) {q i j : ℕ} {w : String} {s : Stage}
    (hq : ph q = .exec i j w s)
    (hr : refired j q (p.log ++ [⟨pid, .db c, .commit e, y, p.shared, db'⟩]) = false) :
    refired j q p.log = false ∧ ∀ t, winIn (.db c) (.commit e) y ≠ some (j, t) := by
  have hcl : (claimOf ⟨pid, .db c, .commit e, y, p.shared, db'⟩).any (fun cl => cl.pid = q) =
      false := by
    by_cases hqp : q = pid
    · subst hqp
      have hok := h.ok
      rw [hq] at hok
      have hnone : claimIn q (.db c) y = none := claimIn_of_exec hok
      simp [claimOf, hnone]
    · cases hcl : claimOf ⟨pid, .db c, .commit e, y, p.shared, db'⟩ with
      | none => rfl
      | some cl =>
        have hpid : cl.pid = pid := claimIn_pid hcl
        simp [hpid, Ne.symm hqp]
  rw [refired_concat, hcl] at hr
  simp only [Bool.not_false, Bool.true_and, Bool.or_eq_false_iff] at hr
  refine ⟨hr.1, fun t ht => ?_⟩
  simp [winOf, ht] at hr

/-- **Who creates a run of a job**: the one that inserts the job, the beat that has just won it, or
the worker that has given up its run and has it in its hands. -/
lemma creator (h : Commits G p ph pid c e db' y) {i j : ℕ} (hc : Creates e i j c) :
    p.shared.jobs.seq ≤ j ∨
    ((∃ t, FreshWin G p.log ph pid j t) ∧ (ph pid).next (.db c) y = .rest) ∨
    ∃ i₀ w, ph pid = .exec i₀ j w .failed ∧ refired j pid p.log = false ∧
      (ph pid).next (.db c) y = .exec i₀ j w .closing := by
  rcases hc.2 with ⟨rfl, spec, t, rfl⟩ | ⟨t, rfl⟩
  · exact .inl h.assumed.1.1
  · right
    have hy : ∃ run, y = .ok run := by
      have hx := h.exec
      simp only [Call.exec, Option.bind_eq_bind, Option.bind_eq_some_iff, Option.some.injEq,
        Prod.mk.injEq, Prod.exists] at hx
      obtain ⟨_, run, -, -, rfl⟩ := hx
      exact ⟨run, rfl⟩
    obtain ⟨run, rfl⟩ := hy
    rcases h.ok with hpid | ⟨i₀, w, hpid⟩
    · left
      obtain ⟨⟨t₀, hwin⟩, -⟩ := h.inv.firing.won pid j hpid
      refine ⟨⟨t₀, hpid, hwin, fun n hn => ?_⟩, by rw [hpid]; rfl⟩
      have htardy := h.assumed.2.2.2.1
      simp only [tardy, h.asks, hwin, Option.any_some, decide_eq_false_iff_not, not_le] at htardy
      exact (h.clock_le n hn).trans_lt htardy
    · right
      refine ⟨i₀, w, hpid, ?_, by rw [hpid]; rfl⟩
      obtain ⟨cl, hcl, -⟩ := h.inv.executing.exec pid i₀ j w _ hpid
      have habreast := h.abreast
      simpa [Abreast, behind, h.asks, hcl] using habreast

lemma created_idle (h : Commits G p ph pid c e db' y) {i j : ℕ} (hc : Creates e i j c) {i' : ℕ}
    {r : RunRow} (hr : p.shared.runs.get? i' = some r) (hj : r.jobId = j) : ¬ r.status.inFlight := by
  rcases h.creator hc with hseq | ⟨⟨t, hwin⟩, -⟩ | ⟨i₀, w, hpid, hhot, -⟩
  · have := h.inv.jobs i' r hr
    omega
  · exact h.inv.firing.idle pid j t hwin i' r hr hj
  · intro hfl
    obtain rfl := h.inv.ownership.own pid i₀ j w _ hpid (.inr rfl) hhot i' r hr hj hfl
    exact h.inv.custody.settled pid i' j w _ hpid (.inl rfl) r hr hfl

lemma one (h : Commits G p ph pid c e db' y) : OneInFlight db' := by
  intro i i' r r' hr hr' hfl hfl' hjob
  have hstep := exec_run h.exec i
  have hstep' := exec_run h.exec i'
  rw [hr] at hstep
  rw [hr'] at hstep'
  rcases hstep.inFlight hfl with ⟨-, hn⟩ | ⟨r₀, hr₀, hfl₀, hj₀⟩ <;>
    rcases hstep'.inFlight hfl' with ⟨-, hn'⟩ | ⟨r₀', hr₀', hfl₀', hj₀'⟩
  · exact hn.1.trans hn'.1.symm
  · exact absurd hfl₀' (h.created_idle hn hr₀' (hj₀'.trans hjob.symm))
  · exact absurd hfl₀ (h.created_idle hn' hr₀ (hj₀.trans hjob))
  · exact h.inv.one i i' r₀ r₀' hr₀ hr₀' hfl₀ hfl₀' (by rw [hj₀, hj₀', hjob])

lemma jobs (h : Commits G p ph pid c e db' y) :
    ∀ i r, db'.runs.get? i = some r → r.jobId < db'.jobs.seq := by
  intro i r' hr'
  have hstep := exec_run h.exec i
  rw [hr'] at hstep
  have hseq := exec_jobs_seq h.exec
  rcases hstep.jobId with ⟨hnone, -, ⟨hj, spec, t, rfl⟩ | ⟨t, rfl⟩⟩ | ⟨r, hr, hj⟩
  · rcases insertJobAndRun_cases h.exec with rfl | ⟨jobs, runs, hjobs, hruns, rfl⟩
    · rw [hr'] at hnone
      cases hnone
    · rw [hj]
      exact Table.lt_seq_of_get? ((Table.get?_insert hjobs e.jobId).trans (if_pos rfl))
  · refine lt_of_lt_of_le ?_ hseq
    rcases h.ok with hpid | ⟨i₀, w, hpid⟩
    · exact (h.inv.firing.won pid _ hpid).2
    · exact (h.inv.custody.job pid i₀ _ w _ hpid).2.1
  · have := h.inv.jobs i r hr
    omega

lemma ownership (h : Commits G p ph pid c e db' y) :
    Ownership db' (p.log ++ [⟨pid, .db c, .commit e, y, p.shared, db'⟩])
      (Function.update ph pid ((ph pid).next (.db c) y)) := by
  constructor
  case own =>
    intro q i j w s hq hs hhot i' r' hr' hj hfl
    have hstep := exec_run h.exec i'
    rw [hr'] at hstep
    rcases h.exec_after hq with ⟨s', hq', -, hopen⟩ | ⟨rfl, -, ht⟩
    · obtain ⟨hhot', -⟩ := h.hot_before hq' hhot
      rcases hstep.inFlight hfl with ⟨-, hn⟩ | ⟨r, hr, hfl', hj'⟩
      · exfalso
        rw [hj] at hn
        rcases h.creator hn with hseq | ⟨⟨t, hwin⟩, -⟩ | ⟨i₀, w₀, hpid, hhot₀, hnext⟩
        · have := (h.inv.custody.job q i j w s' hq').2.1
          omega
        · have := h.inv.firing.cold pid j t hwin q i w s' hq'
          rw [hhot'] at this
          cases this
        · obtain rfl := h.inv.ownership.single q pid i i₀ j w w₀ s' _ hq' hpid (hopen hs) (.inr rfl)
            hhot' hhot₀
          rw [Function.update_self, hnext] at hq
          cases hq
          rcases hs with hs | hs <;> cases hs
      · exact h.inv.ownership.own q i j w s' hq' (hopen hs) hhot' i' r hr (hj'.trans hj) hfl'
    · obtain ⟨r₀, hr₀, hfl₀, hj₀⟩ := takes_inFlight ht
      obtain ⟨now, le, -, rfl, -⟩ := ht
      rcases hstep.inFlight hfl with ⟨-, -, ⟨-, _, _, hc⟩ | ⟨_, hc⟩⟩ | ⟨r, hr, hfl', hj'⟩
      · cases hc
      · cases hc
      · exact h.inv.one i' i r r₀ hr hr₀ hfl' hfl₀ (by rw [hj', hj, hj₀])
  case single =>
    intro q q' i i' j w w' s s' hq hq' hs hs' hhot hhot'
    have hfree : ∀ {q i i' w w' s}, Takes p.shared db' c i j w → ph q = .exec i' j w' s → s.Open →
        refired j q (p.log ++ [⟨pid, .db c, .commit e, y, p.shared, db'⟩]) = false → False := by
      intro q i i' w w' s ht hq hs hhot
      obtain ⟨r, hr, hfl, hj⟩ := takes_inFlight ht
      obtain rfl := h.inv.ownership.own q i' j w' s hq hs (h.hot_before hq hhot).1 i r hr hj hfl
      exact h.takes_free ht (by rintro rfl; rcases hs with hs | hs <;> cases hs) hq
    rcases h.exec_after hq with ⟨s₀, hs₀, -, hopen⟩ | ⟨rfl, -, ht⟩ <;>
      rcases h.exec_after hq' with ⟨s₀', hs₀', -, hopen'⟩ | ⟨rfl, -, ht'⟩
    · exact h.inv.ownership.single q q' i i' j w w' s₀ s₀' hs₀ hs₀' (hopen hs) (hopen' hs')
        (h.hot_before hs₀ hhot).1 (h.hot_before hs₀' hhot').1
    · exact (hfree ht' hs₀ (hopen hs) hhot).elim
    · exact (hfree ht hs₀' (hopen' hs') hhot').elim
    · rfl

/-! #### Firing -/

lemma freshWin_after (h : Commits G p ph pid c e db' y) {q j : ℕ} {t : Time}
    (hq : FreshWin G (p.log ++ [⟨pid, .db c, .commit e, y, p.shared, db'⟩])
      (Function.update ph pid ((ph pid).next (.db c) y)) q j t) :
    FreshWin G p.log ph q j t ∨ (q = pid ∧ winIn (.db c) (.commit e) y = some (j, t)) := by
  obtain ⟨hq, hlast, hbefore⟩ := hq
  have hbefore' : Before p.log (t + seconds G) := hbefore.of_concat fun s hs n hn => by
    cases hs
    exact h.clock_le n hn
  rw [lastWin_concat] at hlast
  by_cases hqp : q = pid
  · subst hqp
    rw [if_pos rfl] at hlast
    rw [Function.update_self] at hq
    cases hwin : winIn (.db c) (.commit e) y with
    | some jt =>
      right
      simp only [winOf, hwin, Option.some_or, Option.some.injEq] at hlast
      exact ⟨rfl, by rw [hlast]⟩
    | none =>
      left
      simp only [winOf, hwin, Option.none_or] at hlast
      have hturn := Phase.turn (r := .db c) y h.ok
      rw [hq] at hturn
      refine ⟨?_, hlast, hbefore'⟩
      generalize ph q = c₀ at hturn
      cases hturn with
      | stays => rfl
      | fires => cases hwin
  · rw [if_neg (Ne.symm hqp)] at hlast
    rw [Function.update_of_ne hqp] at hq
    exact .inl ⟨hq, hlast, hbefore'⟩

lemma won_job (h : Commits G p ph pid c e db' y) {j : ℕ} {t : Time}
    (hwin : winIn (.db c) (.commit e) y = some (j, t)) :
    t = e.now ∧ db'.runs = p.shared.runs ∧ ∃ job, p.shared.jobs.get? j = some job ∧
      p.shared.Fires e.now job ∧
      db'.jobs.get? j = some { job with nextRunAt := none, updatedAt := some e.now } := by
  obtain ⟨nextRunAt, job, rfl, rfl, hjob, hf, hruns, hpost⟩ := winIn_commit h.exec hwin
  obtain rfl : nextRunAt = none := h.ok.1
  exact ⟨rfl, hruns, job, hjob, hf, hpost⟩

lemma not_won_again (h : Commits G p ph pid c e db' y) {q j : ℕ} {t t' : Time}
    (hq : FreshWin G p.log ph q j t) : winIn (.db c) (.commit e) y ≠ some (j, t') := by
  intro hwin
  obtain ⟨-, -, job, hjob, ⟨hact, hdue, -⟩, -⟩ := h.won_job hwin
  rw [(h.inv.firing.disarmed q j t hq job hjob hact).1] at hdue
  cases hdue

/-- A job with a fresh win gets no run but by the process that has won it, which is through with it
then. -/
lemma not_created (h : Commits G p ph pid c e db' y) {i q j : ℕ} {t : Time}
    (hq : FreshWin G p.log ph q j t)
    (hq' : Function.update ph pid ((ph pid).next (.db c) y) q = .fired j) : ¬ Creates e i j c := by
  intro hc
  rcases h.creator hc with hseq | ⟨⟨t', hwin⟩, hnext⟩ | ⟨i₀, w, hpid, hhot, -⟩
  · have := (h.inv.firing.won q j hq.1).2
    omega
  · obtain rfl := h.inv.firing.single q pid j t t' hq hwin
    rw [Function.update_self, hnext] at hq'
    cases hq'
  · have := h.inv.firing.cold q j t hq pid i₀ w _ hpid
    rw [hhot] at this
    cases this

lemma disarmed_after (h : Commits G p ph pid c e db' y) {q j : ℕ} {t : Time}
    (hq : FreshWin G p.log ph q j t) {job' : JobRow} (hjob' : db'.jobs.get? j = some job')
    (hact : job'.status = .active) :
    job'.nextRunAt = none ∧ ∃ u, job'.updatedAt = some u ∧ t ≤ u := by
  have hstep := exec_job h.exec j
  rw [hjob'] at hstep
  obtain ⟨⟨t₀, -⟩, hseq⟩ := h.inv.firing.won q j hq.1
  rcases hstep.known with ⟨job, hjob⟩ | hnew
  swap
  · have := h.assumed.1.1
    omega
  rw [hjob] at hstep
  obtain ⟨hnone, u, hu, htu⟩ := h.inv.firing.disarmed q j t hq job hjob (hstep.active hact)
  rcases hstep.timer with ⟨hn, hup⟩ | ⟨⟨-, hdue, -⟩, -⟩ | ⟨now, cutoff, pc, rfl, hrev⟩ |
      ⟨now, cutoff, rfl, horph⟩ | ⟨next, rfl⟩
  · refine ⟨hn.trans hnone, ?_⟩
    rcases hup with hup | hup
    · exact ⟨u, hup.trans hu, htu⟩
    · obtain ⟨n, hn, hle⟩ := h.inv.firing.past q j t hq.2.1
      exact ⟨e.now, hup, hle.trans (h.clock_le n hn)⟩
  · rw [hnone] at hdue
    cases hdue
  · -- The sweep revives a job only if a run of it is ready.
    exfalso
    obtain ⟨r, hr, hid⟩ := List.mem_map.1 hrev.1
    obtain ⟨hget, hstale⟩ := stale_of_mem_staleRuns hr
    refine h.inv.firing.idle q j t hq r.id r hget (hid.trans (job_id_of_get? hjob)) ?_
    simp [hstale.1, RunStatus.inFlight]
  · -- The job was stamped too lately to look orphaned.
    exfalso
    obtain ⟨hread, g, hg, rfl⟩ := h.ok
    obtain ⟨n, hn, hle⟩ := h.inv.firing.read pid now hread
    have hlt := hq.2.2 n hn
    have hold := horph.2.2.2.1
    simp only [hu, Option.any_some, decide_eq_true_eq] at hold
    have hg : seconds G ≤ seconds g := Int.mul_le_mul_of_nonneg_right hg (by decide)
    linarith
  · -- The worker that arms the job would know of the win.
    exfalso
    obtain ⟨i, w, s, hpid⟩ := h.ok
    have hcold := h.inv.firing.cold q j t hq pid i w s hpid
    obtain ⟨cl, hcl, -⟩ := h.inv.executing.exec pid i j w s hpid
    have habreast := h.abreast
    simp [Abreast, behind, h.asks, hcl, hcold] at habreast

lemma firing (h : Commits G p ph pid c e db' y) :
    Firing G db' (p.log ++ [⟨pid, .db c, .commit e, y, p.shared, db'⟩])
      (Function.update ph pid ((ph pid).next (.db c) y)) := by
  have hclock : ∀ s, readingIn (.db c) (.commit e) = some s → ∀ n, clock p.log = some n → n ≤ s := by
    rintro s ⟨⟩
    exact h.clock_le
  have hseq := exec_jobs_seq h.exec
  constructor
  case won =>
    intro q j hq
    by_cases hqp : q = pid
    · subst hqp
      rw [Function.update_self] at hq
      have hturn := Phase.turn (r := .db c) y h.ok
      rw [hq] at hturn
      generalize hc₀ : ph q = c₀ at hturn
      cases hturn with
      | stays =>
        obtain ⟨⟨t, ht⟩, hj⟩ := h.inv.firing.won q j hc₀
        refine ⟨⟨t, ?_⟩, hj.trans_le hseq⟩
        rw [lastWin_concat, if_pos rfl, ht]
        cases hwin : winIn (.db c) (.commit e) y with
        | none => simp [winOf, hwin]
        | some jt =>
          -- Who has won a job does not ask for another one.
          obtain ⟨_, _, rfl, -⟩ := winIn_commit h.exec hwin
          have hidle := h.ok.2
          rw [hc₀] at hidle
          exact hidle.elim
      | fires _ _ nextRunAt =>
        obtain ⟨-, -, job, -, -, hpost⟩ := h.won_job (winIn_claimScheduled j nextRunAt e)
        refine ⟨⟨e.now, ?_⟩, Table.lt_seq_of_get? hpost⟩
        rw [lastWin_concat, if_pos rfl]
        rfl
    · rw [Function.update_of_ne hqp] at hq
      obtain ⟨⟨t, ht⟩, hj⟩ := h.inv.firing.won q j hq
      exact ⟨⟨t, by rw [lastWin_concat, if_neg (Ne.symm hqp), ht]⟩, hj.trans_le hseq⟩
  case past =>
    intro q j t hl
    rw [lastWin_concat] at hl
    have hold : lastWin q p.log = some (j, t) →
        Past (p.log ++ [⟨pid, .db c, .commit e, y, p.shared, db'⟩]) t :=
      fun hl => (h.inv.firing.past q j t hl).concat hclock
    split at hl
    · cases hwin : winIn (.db c) (.commit e) y with
      | none =>
        simp only [winOf, hwin, Option.none_or] at hl
        exact hold hl
      | some jt =>
        simp only [winOf, hwin, Option.some_or, Option.some.injEq] at hl
        subst hl
        obtain ⟨rfl, -⟩ := h.won_job hwin
        exact ⟨e.now, by simp [clock_concat, readingIn], le_rfl⟩
    · exact hold hl
  case read =>
    intro q now hq
    suffices hwas : ph q = .read now from (h.inv.firing.read q now hwas).concat hclock
    by_cases hqp : q = pid
    · subst hqp
      rw [Function.update_self] at hq
      have hturn := Phase.turn (r := .db c) y h.ok
      rw [hq] at hturn
      generalize ph q = c₀ at hturn
      cases hturn
      rfl
    · rwa [Function.update_of_ne hqp] at hq
  case idle =>
    intro q j t hq i r' hr' hj hfl
    rcases h.freshWin_after hq with hq' | ⟨rfl, hwin⟩
    · have hstep := exec_run h.exec i
      rw [hr'] at hstep
      rcases hstep.inFlight hfl with ⟨-, hn⟩ | ⟨r, hr, hfl', hj'⟩
      · exact h.not_created hq' hq.1 (hj ▸ hn)
      · exact h.inv.firing.idle q j t hq' i r hr (hj'.trans hj) hfl'
    · obtain ⟨-, hruns, job, hjob, ⟨-, -, hnone⟩, -⟩ := h.won_job hwin
      rw [hruns] at hr'
      rw [job_id_of_get? hjob] at hnone
      exact not_inFlight_of_hasActiveRun hnone hr' hj hfl
  case cold =>
    intro q j t hq q' i w s hq'
    by_contra hhot
    rw [Bool.not_eq_true] at hhot
    rcases h.exec_after hq' with ⟨s', hwas', -, -⟩ | ⟨rfl, -, ht⟩
    · obtain ⟨hhot', hnot⟩ := h.hot_before hwas' hhot
      rcases h.freshWin_after hq with hwas | ⟨rfl, hwin⟩
      · have := h.inv.firing.cold q j t hwas q' i w s' hwas'
        rw [hhot'] at this
        cases this
      · exact hnot t hwin
    · obtain ⟨r, hr, hfl, hj⟩ := takes_inFlight ht
      rcases h.freshWin_after hq with hwas | ⟨rfl, hwin⟩
      · exact h.inv.firing.idle q j t hwas i r hr hj hfl
      · obtain ⟨now, le, -, rfl, -⟩ := ht
        cases hwin
  case disarmed =>
    intro q j t hq job' hjob' hact
    rcases h.freshWin_after hq with hq' | ⟨rfl, hwin⟩
    · exact h.disarmed_after hq' hjob' hact
    · obtain ⟨rfl, -, job, -, -, hpost⟩ := h.won_job hwin
      rw [hpost] at hjob'
      cases hjob'
      exact ⟨rfl, e.now, rfl, le_rfl⟩
  case single =>
    intro q q' j t t' hq hq'
    rcases h.freshWin_after hq with hwas | ⟨rfl, hwin⟩ <;>
      rcases h.freshWin_after hq' with hwas' | ⟨rfl, hwin'⟩
    · exact h.inv.firing.single q q' j t t' hwas hwas'
    · exact absurd hwin' (h.not_won_again hwas)
    · exact absurd hwin (h.not_won_again hwas')
    · rfl

end Commits

/-! ### Every run of the system -/

section

variable {G : ℤ} {p : System} {ph : ℕ → Phase} {pid : ℕ}

lemma oneRunInv_init : OneRunInv G {} [] fun _ => .rest where
  executing := executing_init
  custody := by
    constructor <;> intros <;> contradiction
  ownership := by
    constructor <;> intros <;> contradiction
  firing := by
    have hno : ∀ q j t, ¬ FreshWin G [] (fun _ => .rest) q j t := by
      rintro q j t ⟨⟨⟩, -⟩
    constructor
    case idle => exact fun q j t h => absurd h (hno q j t)
    case cold => exact fun q j t h => absurd h (hno q j t)
    case disarmed => exact fun q j t h => absurd h (hno q j t)
    case single => exact fun q _ j t _ h => absurd h (hno q j t)
    all_goals
      intros
      contradiction
  jobs := by
    rintro i r ⟨⟩
  one := by
    rintro i i' r r' ⟨⟩

lemma OneRunInv.quiet {r : Req} {a : Answer} {y : Except Exc r.Reply}
    (h : OneRunInv G p.shared p.log ph) (hok : (ph pid).ok { grace := (G ≤ ·) } r) (hv : Valid r y)
    (hcl : claimIn pid r y = none) (hwin : winIn r a y = none)
    (hclock : ∀ s, readingIn r a = some s → ∀ n, clock p.log = some n → n ≤ s)
    (hfewer : Fewer ph (Function.update ph pid ((ph pid).next r y)))
    (hread : ∀ now, (ph pid).next r y = .read now → ph pid = .read now ∨ readingIn r a = some now) :
    OneRunInv G p.shared (p.log ++ [⟨pid, r, a, y, p.shared, p.shared⟩])
      (Function.update ph pid ((ph pid).next r y)) where
  executing := h.executing.step hok hv
  custody := h.custody.fewer hfewer
  ownership := (h.ownership.fewer hfewer).quiet hcl hwin
  firing := by
    refine h.firing.quiet hcl hwin hclock hfewer fun q now hq => ?_
    by_cases hqp : q = pid
    · subst hqp
      rw [Function.update_self] at hq
      rcases hread now hq with hwas | hnow
      · exact (h.firing.read q now hwas).concat hclock
      · exact ⟨now, by simp [clock_concat, hnow], le_rfl⟩
    · rw [Function.update_of_ne hqp] at hq
      exact (h.firing.read q now hq).concat hclock
  jobs := h.jobs
  one := h.one

lemma OneRunInv.raise {c : Call} {exc : Exc} (h : OneRunInv G p.shared p.log ph)
    (hok : (ph pid).ok { grace := (G ≤ ·) } (.db c)) :
    OneRunInv G p.shared
      (p.log ++ [⟨pid, .db c, .fail exc, .error exc, p.shared, p.shared⟩])
      (Function.update ph pid ((ph pid).next (.db c) (.error exc))) := by
  refine h.quiet hok (valid_error c exc) (claimIn_error pid c exc) (winIn_error c _ exc) nofun
    (fewer_raise hok) fun now hnow => ?_
  have hturn := Phase.turn (r := .db c) (.error exc) hok
  rw [hnow] at hturn
  generalize ph pid = c₀ at hturn
  cases hturn
  exact .inl rfl

lemma OneRunInv.ask {r : Req} {a : Answer} {y : Except Exc r.Reply}
    (h : OneRunInv G p.shared p.log ph) (hr : ∀ c, r ≠ .db c) (hasks : p.pending pid = some r)
    (hback : runsBack p (.act pid a) = false) (hok : (ph pid).ok { grace := (G ≤ ·) } r)
    (hans : answer p.shared r a = some (p.shared, y)) :
    OneRunInv G p.shared (p.log ++ [⟨pid, r, a, y, p.shared, p.shared⟩])
      (Function.update ph pid ((ph pid).next r y)) := by
  refine h.quiet hok (valid_ask hr) (claimIn_ask hr) (winIn_ask hr) ?_ (fewer_ask hr hok)
    fun now hnow => ?_
  · intro s hs n hn
    unfold readingIn at hs
    split at hs
    · exact absurd rfl (hr _)
    · cases hs
      simpa [runsBack, hasks, hn] using hback
    · cases hs
  · have hturn := Phase.turn y hok
    rw [hnow] at hturn
    generalize ph pid = c₀ at hturn
    cases hturn with
    | stays => exact .inl rfl
    | reads =>
      cases a <;> cases hans
      exact .inr rfl

end

/-- **At most one run of a job is in flight, as long as no worker writes behind the back of a beat.**
In every run of the system that meets the assumptions, and in which no worker creates a run of its
job or arms it after the job was fired since the worker has claimed its run, no job ever has two runs
in flight. -/
theorem one_run_in_flight {G : ℤ} {p : System}
    (h : p.Reached fun p l => Assumed G p l ∧ Abreast p l) : OneInFlight p.shared := by
  have hinv : ∃ ph, InPhases { grace := (G ≤ ·) } p ph ∧ OneRunInv G p.shared p.log ph := by
    refine System.phases (G ≤ ·) (OneRunInv G) ?_ oneRunInv_init ?_ ?_ ?_ ?_ h
    · intro p g m fuel hC
      have hhasty := hC.1.2.2.2.2
      simpa [hasty] using hhasty
    · intro db log ph pid hG
      have hfewer : Fewer ph (Function.update ph pid .gone) := fewer_update nofun nofun
      exact ⟨hG.executing.gone, hG.custody.fewer hfewer, hG.ownership.fewer hfewer, hG.firing.gone,
        hG.jobs, hG.one⟩
    · intro p ph pid c e db' y hC hph hasks hok hx hG
      have hcommit : Commits G p ph pid c e db' y := ⟨hG, hph, hasks, hok, hx, hC.1, hC.2⟩
      have hans : answer p.shared (.db c) (.commit e) = some (db', y) := hx
      exact ⟨hG.executing.step hok (valid_of_answer hans), hcommit.custody, hcommit.ownership,
        hcommit.firing, hcommit.jobs, hcommit.one⟩
    · intro p ph pid c exc _ hG hok
      exact hG.raise hok
    · intro p ph pid r a y hC hr hasks hok hans hG
      exact hG.ask hr hasks hC.1.2.1 hok hans
  obtain ⟨ph, -, hinv⟩ := hinv
  exact hinv.one

/-- A tick of a beat at `t`, up to the `claim_scheduled` for the one job there is. -/
def beatTick (pid t : ℕ) : List Act :=
  .spawn (.beat 600 none 1) :: reads pid t :: .act pid (.lastClaim none) :: commits pid 3 t ++
    reads pid t :: commits pid 1 t

/-- A maintained job is fired at 2. Its only task works until 1000 and fails for good, and the worker
gives up the run; one retry of the whole run is left. -/
def gaveUp : List Act :=
  .spawn (.schedule { job := "m.J", nextRunAt := some 0, maxAttempts := 1, retries := 1 }) ::
    commits 0 2 1 ++ beatTick 1 2 ++ commits 1 1 3 ++
  .spawn (.worker (.named "A")) :: reads 2 4 :: reads 2 4 :: commits 2 5 4 ++
  .act 2 (.ran (.error (.other "OSError" "")) []) :: commits 2 4 1000

/-- The worker creates the run of the retry. -/
def retries : List Act := commits 2 1 1003 ++ reads 2 1004 :: commits 2 1 1004

/-- The worker creates its run, and the beat finds the job busy. -/
theorem one_run_in_flight_retried : ∃ p : System,
    System.init.play (fun p l => Assumed 600 p l ∧ Abreast p l)
      (gaveUp ++ retries ++ beatTick 3 1005) = some p ∧ OneInFlight p.shared := by
  have hall : (System.init.play (fun p l => Assumed 600 p l ∧ Abreast p l)
      (gaveUp ++ retries ++ beatTick 3 1005)).isSome := by decide
  obtain ⟨p, hp⟩ := Option.isSome_iff_exists.1 hall
  exact ⟨p, hp, one_run_in_flight (Pool.run_of_play hp)⟩

/-- If a beat ticks before that, the job looks orphaned: nothing has stamped it since it was fired, and
its run has failed. The beat fires it, and the worker creates its run nevertheless. -/
theorem two_runs_in_flight : ∃ p : System,
    System.init.play (Assumed 600) (gaveUp ++ beatTick 3 1001 ++ commits 3 1 1002 ++ retries) = some p ∧
    ¬ OneInFlight p.shared := by
  have hall : (System.init.play (Assumed 600)
      (gaveUp ++ beatTick 3 1001 ++ commits 3 1 1002 ++ retries)).any fun p =>
      (p.shared.runs.get? 1002).any (fun r => r.status.inFlight ∧ r.jobId = 1) ∧
      (p.shared.runs.get? 1004).any (fun r => r.status.inFlight ∧ r.jobId = 1) := by decide
  obtain ⟨p, hp, hruns⟩ := (Option.any_eq_true _ _).1 hall
  simp only [Bool.decide_and, Bool.and_eq_true, decide_eq_true_eq, Option.any_eq_true] at hruns
  obtain ⟨⟨r, hr, hfl, hj⟩, r', hr', hfl', hj'⟩ := hruns
  refine ⟨p, hp, fun hone => ?_⟩
  have := hone 1002 1004 r r' hr hr' hfl hfl' (hj.trans hj'.symm)
  omega

end Pyreljob
