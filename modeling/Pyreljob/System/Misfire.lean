import Pyreljob.Store.View
import Pyreljob.System.Arming
import Pyreljob.System.Duty
import Pyreljob.System.Late

/-!
What becomes of a job that a beat skips.

A claim disarms the job before the beat looks whether the run has misfired, and what it looks at is the
row it has listed, not the value that the claim has cleared. So a job that is skipped is disarmed and has
no run; and a job that was re-armed since the listing may be skipped although it has just come due.

Elsewhere a job that was armed is not lost while beats and workers act: it is armed, has a run in
flight, or some process has still to create its run or to arm it again. Such a process does so, unless it
is killed, or gets an exception where nobody catches it.
-/

namespace Pyreljob

open Lib Relation

/-! ### Where a beat is in its loop -/

/-- What a beat looks at. -/
structure Look where
  /-- Whether it is a beat at all. -/
  beats : Bool := false
  grace : Option ℤ := none
  /-- What is left of its listing. -/
  rest : List JobRow := []
  /-- The job of this turn, as listed. -/
  job : Option JobRow := none
  now : Time := 0
  /-- It has just won the claim of this job. -/
  won : Bool := false

namespace Look

def first : Kind → Look
  | .beat _ m _ => { beats := true, grace := m }
  | _ => {}

/-- How a reply moves it. A turn of the loop begins with a reading of the clock. -/
def next (c : Look) : (r : Req) → Except Exc r.Reply → Look
  | .db .listScheduled, .ok jobs => { c with rest := jobs, won := false }
  | .now, .ok t => { c with rest := c.rest.tail, job := c.rest.head?, now := t, won := false }
  | .db (.claimScheduled ..), .ok true => { c with won := true }
  | _, _ => { c with won := false }

/-- The job of this turn is overdue by more than the misfire grace, as it was listed. -/
def misfired (c : Look) : Bool :=
  c.job.any fun job => JobManager.isMisfired job.nextRunAt c.now c.grace

/-- A job that is won gets its run next, unless it has misfired. -/
def Settled (c : Look) : Prop := c.beats → c.won → c.misfired

/-- What a beat may ask. -/
def ok (c : Look) : Req → Prop
  | .db (.createRun j t) => c.beats →
    c.won ∧ c.misfired = false ∧ (∃ job, c.job = some job ∧ job.id = j) ∧ t = none
  | .db (.claimScheduled j _) => c.Settled ∧ (c.beats → ∃ job, c.job = some job ∧ job.id = j)
  | _ => c.Settled

abbrev Moves (c : Look) (r : Req) (y : Except Exc r.Reply) (c' : Look) : Prop := c' = c.next r y

/-- A beat with this grace that has nothing to settle. -/
def Plain (m : Option ℤ) (c : Look) : Prop := c.beats = true ∧ c.grace = m ∧ c.won = false

lemma Plain.settled {m : Option ℤ} {c : Look} (h : c.Plain m) : c.Settled := by
  intro _ hwon
  rw [h.2.2] at hwon
  cases hwon

lemma beats_next (c : Look) {r : Req} {y : Except Exc r.Reply} : (c.next r y).beats = c.beats := by
  unfold next
  split <;> rfl

lemma grace_next (c : Look) {r : Req} {y : Except Exc r.Reply} : (c.next r y).grace = c.grace := by
  unfold next
  split <;> rfl

lemma settled_of_apart {c : Look} (h : c.beats = false) : c.Settled := by
  intro hbeats
  rw [h] at hbeats
  cases hbeats

lemma ok_of_apart {c : Look} {r : Req} (h : c.beats = false) : c.ok r := by
  have hnot : ¬ c.beats = true := by simp [h]
  unfold ok
  split
  · exact fun hbeats => absurd hbeats hnot
  · exact ⟨settled_of_apart h, fun hbeats => absurd hbeats hnot⟩
  · exact settled_of_apart h

end Look

abbrev Plainly {α : Type} (m : Option ℤ) (p : Io α) : Prop :=
  p.Within Look.Moves Look.ok (Look.Plain m)

section

variable {m : Option ℤ}

lemma sweep_plainly (now cutoff : Time) (pc : Option Time) (fuel : ℕ) (total : DB.Reconciled) :
    Plainly m (JobManager.sweep now cutoff pc fuel total) := by
  induction fuel generalizing total with
  | zero => exact .ret _
  | succ fuel ih =>
    refine .ask (fun _ h => h.settled) ?_ ?_
    · rintro c y _ h rfl
      exact ⟨h.1, h.2.1, rfl⟩
    · rintro ⟨stale, changed⟩ - - - -
      dsimp only
      split
      · exact .ret _
      · exact ih _

lemma reconcileAbandoned_plainly (g : ℤ) (fuel : ℕ) :
    Plainly m (JobManager.reconcileAbandoned g fuel) := by
  refine .ask (fun _ h => h.settled) ?_ fun now _ _ _ _ => .ask (fun _ h => h.settled) ?_
    fun pc _ _ _ _ => .bind (sweep_plainly _ _ _ _ _) fun total => ?_
  · rintro c (_ | t) _ h rfl <;> exact ⟨h.1, h.2.1, rfl⟩
  · rintro c y _ h rfl
    exact ⟨h.1, h.2.1, rfl⟩
  · cases total with
    | none => exact .ret _
    | some total =>
      refine .ask (fun _ h => h.settled) ?_ fun _ _ _ _ _ => .ret _
      rintro c y _ h rfl
      exact ⟨h.1, h.2.1, rfl⟩

/-- **The loop of a beat.** What it wins and does not skip gets a run at once. -/
lemma fireDue_looks {jobs : List JobRow} {c : Look} (hbeats : c.beats = true) (hgrace : c.grace = m)
    (hrest : c.rest = jobs) (hsettled : c.Settled) :
    (JobManager.fireDue m jobs).Keeps Look.Moves Look.ok (fun _ c => c.Settled) c := by
  induction jobs generalizing c with
  | nil => exact hsettled
  | cons job jobs ih =>
    refine .call_bind hsettled ?_ ?_
    · rintro exc _ rfl
      exact fun _ hwon => by cases hwon
    rintro now _ rfl
    -- the turn of this job begins
    generalize hc' : c.next .now (.ok now) = c'
    have hjob : c'.job = some job := by rw [← hc']; simp [Look.next, hrest]
    have hrest' : c'.rest = jobs := by rw [← hc']; simp [Look.next, hrest]
    have hnow : c'.now = now := by rw [← hc']; rfl
    have hbeats' : c'.beats = true := by rw [← hc']; exact hbeats
    have hgrace' : c'.grace = m := by rw [← hc']; exact hgrace
    have hwon' : c'.won = false := by rw [← hc']; rfl
    have hmisfired : c'.misfired = JobManager.isMisfired job.nextRunAt now m := by
      rw [Look.misfired, hjob, hnow, hgrace']
      rfl
    have hsettled' : c'.Settled := Look.Plain.settled ⟨hbeats', hgrace', hwon'⟩
    split
    · exact ih hbeats' hgrace' hrest' hsettled'
    · refine .call_bind ⟨hsettled', fun _ => ⟨job, hjob, rfl⟩⟩ ?_ ?_
      · rintro exc _ rfl
        exact fun _ hwon => by cases hwon
      rintro (_ | _) _ rfl
      · exact ih hbeats' hgrace' hrest' fun _ hwon => by cases hwon
      · rw [if_pos rfl]
        cases hmis : JobManager.isMisfired job.nextRunAt now m with
        | true =>
          rw [if_pos rfl]
          exact ih hbeats' hgrace' hrest' fun _ _ => hmisfired.trans hmis
        | false =>
          rw [if_neg Bool.false_ne_true]
          refine .call_bind (fun _ => ⟨rfl, hmisfired.trans hmis, ⟨job, hjob, rfl⟩, rfl⟩) ?_ ?_
          · rintro exc _ rfl
            exact fun _ hwon => by cases hwon
          · rintro run _ rfl
            exact ih hbeats' hgrace' hrest' fun _ hwon => by cases hwon

lemma kind_looks (k : Kind) :
    Pool.InPhase Look.Moves Look.ok Look.Settled k.program (.first k) := by
  cases k with
  | beat g m fuel =>
    refine .bind ((reconcileAbandoned_plainly g fuel (m := m) _ ⟨rfl, rfl, rfl⟩).mono ?_)
    rintro (_ | _ | total) c hc
    · exact hc.settled
    · exact hc.settled
    · refine Prog.Keeps.call_bind hc.settled ?_ ?_
      · rintro exc _ rfl
        exact fun _ hwon => by cases hwon
      · rintro jobs _ rfl
        exact fireDue_looks hc.1 hc.2.1 rfl fun _ hwon => by cases hwon
  | _ =>
    refine (Prog.Keeps.of_inv (I := fun c : Look => c.beats = false) ?_ ?_ _ rfl).mono ?_
    · exact fun c r hc => Look.ok_of_apart hc
    · rintro c r y _ hc rfl
      exact c.beats_next.trans hc
    · exact fun v c hc => Look.settled_of_apart hc

/-! ### Skipping -/

/-- What the beat looks at, read off what it has said and heard. -/
def System.look (p : System) (pid : ℕ) : Option Look := p.watch Look.next Look.first pid

/-- The database, and no process yet. -/
def System.over (db : DB) : System := { shared := db }

/-- The act wins the claim of the job `j` for the process. -/
structure WinsClaim (p : System) (pid : ℕ) (e : Env) (j : ℕ) (p' : System) : Prop where
  step : Pool.step answer Kind.program p (.act pid (.commit e)) = some p'
  asks : ∃ t, p.pending pid = some (.db (.claimScheduled j t))
  won : (p.shared.jobs.get? j).any fun job => p.shared.Fires e.now job

/-- The process goes on to create the run of the job. -/
def Creating (p : System) (pid j : ℕ) : Prop := p.pending pid = some (.db (.createRun j none))

lemma look_kind {p : System} {pid : ℕ} {c : Look} (h : p.look pid = some c) {k : Kind}
    (hk : p.kind? pid = some k) : c.beats = (Look.first k).beats ∧ c.grace = (Look.first k).grace := by
  have hfold : ∀ (l : List (Σ r : Req, Except Exc r.Reply)) (c : Look),
      (l.foldl (fun c x => c.next x.1 x.2) c).beats = c.beats ∧
        (l.foldl (fun c x => c.next x.1 x.2) c).grace = c.grace := by
    intro l
    induction l with
    | nil => exact fun c => ⟨rfl, rfl⟩
    | cons x l ih => exact fun c => ⟨(ih _).1.trans c.beats_next, (ih _).2.trans c.grace_next⟩
  rw [System.look, Pool.watch, hk] at h
  cases h
  exact hfold _ _

lemma WinsClaim.acts {p p' : System} {pid : ℕ} {e : Env} {j : ℕ} (h : WinsClaim p pid e j p') :
    ∃ t f, Pool.Acts answer p pid (.commit e) p' (.db (.claimScheduled j t)) f (.ok true) := by
  obtain ⟨r, f, y, hacts⟩ := Pool.step_act h.step
  obtain ⟨t, ht⟩ := h.asks
  obtain rfl : r = .db (.claimScheduled j t) := Option.some.inj (hacts.pending.symm.trans ht)
  refine ⟨t, f, ?_⟩
  have hans := hacts.answered
  obtain rfl : y = .ok true := by
    have hwon := h.won
    simp only [answer, Call.exec, DB.claimScheduled, hwon, Option.some.injEq, Prod.mk.injEq] at hans
    exact hans.2.symm
  exact hacts

/-- **What decides about a skip**: the row that the beat has listed. -/
theorem creating_iff {db : DB} {C : System → Act → Prop} {p p' : System}
    (h : System.Run C (.over db) p) {pid : ℕ} {e : Env} {j : ℕ} (hwin : WinsClaim p pid e j p')
    {g : ℤ} {m : Option ℤ} {fuel : ℕ} (hkind : p.kind? pid = some (.beat g m fuel)) :
    ∃ c job, p.look pid = some c ∧ c.job = some job ∧ job.id = j ∧
      c.misfired = JobManager.isMisfired job.nextRunAt c.now m ∧
      (Creating p' pid j ↔ c.misfired = false) := by
  obtain ⟨t, f, hacts⟩ := hwin.acts
  obtain ⟨c, hc, hok, hkeeps⟩ := Pool.watched
    (fun {_ _ _ _ r _ y} c _ _ => (rfl : c.next r y = c.next r y)) (fun _ k _ => kind_looks k) h
    rfl rfl hacts.waiting
  obtain ⟨hbeats, hgrace⟩ := look_kind hc hkind
  obtain ⟨-, hjob⟩ := hok
  obtain ⟨job, hjob, hid⟩ := hjob hbeats
  have hmisfired : c.misfired = JobManager.isMisfired job.nextRunAt c.now m := by
    rw [Look.misfired, hjob, hgrace]
    rfl
  refine ⟨c, job, hc, hjob, hid, hmisfired, ?_⟩
  have hnext := hkeeps (.ok true) _ rfl
  have hresumed := hacts.resumed pid
  rw [if_pos rfl] at hresumed
  have hwon : ∀ {c' : Look}, c' = { c with won := true } → c'.Settled → c.misfired = true := by
    rintro _ rfl hsettled
    exact hsettled hbeats rfl
  cases hf : f (.ok true) with
  | ret v =>
    rw [hf] at hnext hresumed
    have hnone : p'.pending pid = none := by simp [Pool.pending, hresumed, Pool.live]
    simp [Creating, hnone, hwon rfl hnext]
  | ask r k =>
    rw [hf] at hnext hresumed
    have hpending : p'.pending pid = some r := by simp [Pool.pending, hresumed, Pool.live]
    rw [Creating, hpending, Option.some.injEq]
    have hok := hnext.1
    constructor
    · rintro rfl
      exact (hok hbeats).2.1
    · intro hmis
      have hunsettled : ¬ ({ c with won := true } : Look).Settled := by
        intro hsettled
        rw [hwon rfl hsettled] at hmis
        cases hmis
      revert hok
      unfold Look.ok
      split
      · rintro hok
        obtain ⟨-, -, ⟨job', hjob', hid'⟩, rfl⟩ := hok hbeats
        obtain rfl : job' = job := Option.some.inj (hjob'.symm.trans hjob)
        rw [← hid', hid]
      · exact fun hok => absurd hok.1 hunsettled
      · exact fun hok => absurd hok hunsettled

end

/-! ### Jobs that are neither armed nor run -/

/-- The phase of a process, read off what it has said and heard. -/
def System.phase (p : System) (pid : ℕ) : Option Phase := p.watch Phase.next (fun _ => .rest) pid

/-- The job is armed or has a run in flight. -/
def Covered (db : DB) (j : ℕ) : Prop := db.armed j ∨ db.hasActiveRun j

/-- A maintained job that is active. -/
def Maintained (db : DB) (j : ℕ) : Prop :=
  ∃ job, db.jobs.get? j = some job ∧ job.source = .scheduled ∧ job.status = .active

def Call.takesAway : Call → Bool
  | cancelJob _ | deleteJob _ | deleteRuns _ => true
  | _ => false

section

variable {db db' : DB} {e : Env} {c : Call} {y : Except Exc c.Reply} {i j : ℕ} {r : RunRow}

lemma hasActiveRun_of_get? (hr : db.runs.get? i = some r) (hj : r.jobId = j)
    (hfl : r.status.inFlight) : db.hasActiveRun j = true := by
  by_contra h
  rw [Bool.not_eq_true] at h
  exact not_inFlight_of_hasActiveRun h hr hj hfl

lemma exists_of_hasActiveRun (h : db.hasActiveRun j = true) :
    ∃ i r, db.runs.get? i = some r ∧ r.jobId = j ∧ r.status.inFlight := by
  obtain ⟨r, hr, hmatch⟩ := List.any_eq_true.1 h
  obtain ⟨hj, hfl⟩ := of_decide_eq_true hmatch
  exact ⟨r.id, r, Table.get?_of_mem hr, hj, hfl⟩

lemma maintained_exec (h : c.exec db e = some (db', y)) (hc : c.takesAway = false)
    (hj : Maintained db j) : Maintained db' j := by
  obtain ⟨job, hjob, hsrc, hact⟩ := hj
  have hstep := exec_job h j
  rw [hjob] at hstep
  generalize hjob' : db'.jobs.get? j = o' at hstep
  cases hstep with
  | cancelled | deleted => cases hc
  | _ => exact ⟨_, hjob', hsrc, hact⟩

lemma run_exec (h : c.exec db e = some (db', y)) (hc : c.takesAway = false)
    (hr : db.runs.get? i = some r) : ∃ r', db'.runs.get? i = some r' ∧ r'.jobId = r.jobId := by
  have hstep := exec_run h i
  rw [hr] at hstep
  generalize hr' : db'.runs.get? i = o' at hstep
  cases hstep with
  | jobDeleted | pruned => cases hc
  | _ => exact ⟨_, rfl, rfl⟩

lemma covered_reconcileBatch {now cutoff : Time} {pc : Option Time} (hj : Maintained db j)
    (h : Covered db j) : Covered (db.reconcileBatch now cutoff pc).1 j := by
  obtain ⟨job, hjob, hsrc, hact⟩ := hj
  have hid := job_id_of_get? hjob
  by_cases hrev : DB.Revives (db.staleRuns cutoff pc) job
  · exact .inl (by simp [DB.armed, DB.reconcileBatch, hjob, hrev])
  · cases hnext : job.nextRunAt with
    | some t => exact .inl (by simp [DB.armed, DB.reconcileBatch, hjob, hrev, hnext])
    | none =>
      have hnot : j ∉ (db.staleRuns cutoff pc).map RunRow.jobId := fun hmem =>
        hrev ⟨hid ▸ hmem, hsrc, hact, hnext⟩
      have hactive : db.hasActiveRun j = true := by
        rcases h with harmed | hactive
        · simp [DB.armed, hjob, hnext] at harmed
        · exact hactive
      obtain ⟨i, r, hr, hrj, hfl⟩ := exists_of_hasActiveRun hactive
      have hkept : ¬ (r.id ∈ (db.staleRuns cutoff pc).map RunRow.id ∧ r.status = .ready) := by
        rintro ⟨hmem, -⟩
        obtain ⟨r', hr', heq⟩ := List.mem_map.1 hmem
        have hget := (stale_of_mem_staleRuns hr').1
        rw [heq, run_id_of_get? hr, hr] at hget
        cases hget
        exact hnot (hrj ▸ List.mem_map_of_mem hr')
      refine .inr (hasActiveRun_of_get? (i := i) (r := r) ?_ hrj hfl)
      rw [DB.reconcileBatch, Table.get?_update, hr, Option.map_some, if_neg hkept]

/-- **What uncovers a job.** -/
theorem covered_exec (hx : c.exec db e = some (db', y)) (hc : c.takesAway = false)
    (hj : Maintained db j) (h : Covered db j) : Covered db' j ∨
      (∃ t job, c = .claimScheduled j t ∧ db.jobs.get? j = some job ∧ db.Fires e.now job) ∨
      c = .setNextRunAt j none ∨
      ∃ i r, ((∃ error, c = .failRun i error none) ∨ (∃ v, c = .completeRun i v) ∨ c = .cancelRun i) ∧
        db.runs.get? i = some r ∧ r.jobId = j := by
  rcases h with harmed | hactive
  · -- it was armed
    obtain ⟨job, hjob, hnext⟩ := (Option.any_eq_true _ _).1 harmed
    have hstep := exec_job hx j
    rw [hjob] at hstep
    generalize hjob' : db'.jobs.get? j = o' at hstep
    have hstill : ∀ job', o' = some job' → job'.nextRunAt.isSome = true → Covered db' j := by
      rintro job' rfl hsome
      exact .inl (by simp [DB.armed, hjob', hsome])
    cases hstep with
    | cancelled | deleted => cases hc
    | same | incremented | reset => exact .inl (hstill _ rfl hnext)
    | revived | rearmed => exact .inl (hstill _ rfl rfl)
    | fired _ t hfires => exact .inr (.inl ⟨t, job, rfl, hjob, hfires⟩)
    | armed _ t =>
      cases t with
      | none => exact .inr (.inr (.inl rfl))
      | some t => exact .inl (hstill _ rfl rfl)
  · -- it had a run in flight
    obtain ⟨i, r, hr, hrj, hfl⟩ := exists_of_hasActiveRun hactive
    have hstep := exec_run hx i
    rw [hr] at hstep
    generalize hr' : db'.runs.get? i = o' at hstep
    have hstill : ∀ r', o' = some r' → r'.jobId = r.jobId → r'.status.inFlight → Covered db' j := by
      rintro r' rfl hjob hfl'
      exact .inr (hasActiveRun_of_get? hr' (hjob.trans hrj) hfl')
    cases hstep with
    | same | renewed | ctxSet | progressSet => exact .inl (hstill _ rfl rfl hfl)
    | claimed | retried => exact .inl (hstill _ rfl rfl rfl)
    | swept _ now cutoff pc =>
      cases hx
      exact .inl (covered_reconcileBatch hj (.inr hactive))
    | failed _ error => exact .inr (.inr (.inr ⟨i, r, .inl ⟨error, rfl⟩, hr, hrj⟩))
    | completed _ v => exact .inr (.inr (.inr ⟨i, r, .inr (.inl ⟨v, rfl⟩), hr, hrj⟩))
    | cancelled => exact .inr (.inr (.inr ⟨i, r, .inr (.inr rfl), hr, hrj⟩))
    | jobCancelled | jobDeleted | pruned => cases hc

end

/-! ### Who has still to see to a job -/

/-- No client takes a row away. -/
def Staying (p : System) (l : Act) : Prop := ∀ c, committing p l = some c → c.takesAway = false

namespace System

/-- How far the process is with the job of its run, read off what it has said and heard. -/
def duty (p : System) (pid : ℕ) : Option Duty := p.watch Duty.next (fun _ => .out) pid

/-- The process goes on to create a run of the job that is due at once. -/
def creates (p : System) (pid j : ℕ) : Bool :=
  match p.pending pid with
  | some (.db (.createRun i none)) => i = j
  | _ => false

/-- The process has won the job and has still to create its run, or has ended a run of the job and has
still to arm it. -/
def owing (p : System) (pid j : ℕ) : Bool :=
  p.creates pid j || p.lives pid && (p.duty pid).any (Duty.owes j)

def raises (p : System) (pid : ℕ) (a : Answer) : Bool :=
  (p.pending pid).any fun r =>
    match answer p.shared r a with
    | some (_, .error _) => true
    | _ => false

def drops (p : System) (pid j : ℕ) (e : Env) : Call → Bool
  -- a beat wins a job that it is going to skip
  | .claimScheduled i _ => i = j ∧ ((p.shared.jobs.get? j).any fun job => p.shared.Fires e.now job) ∧
    (p.look pid).any Look.misfired
  -- `next_runtime` has returned `None`, and the job has no other run
  | .setNextRunAt i none => i = j ∧ p.shared.hasActiveRun j = false
  -- the class of the job cannot be resolved
  | .failRun _ _ none => (p.duty pid).any (Duty.lacks j)
  -- a body has raised `JobCancelledError`
  | .cancelRun i => (p.shared.runs.get? i).any fun r => r.jobId = j
  | c => c.takesAway

end System

/-- The act drops the job: by a transaction, or because a process that has still to see to the job is
killed, or gets an exception that it does not survive. -/
def dropping (j : ℕ) (p : System) : Act → Bool
  | .spawn _ => false
  | .crash pid => p.owing pid j
  | .act pid a =>
    (p.raises pid a && (p.creates pid j ||
      (p.duty pid).any fun c => (p.pending pid).any (c.helpless j))) ||
    match a, p.pending pid with
    | .commit e, some (.db c) => p.drops pid j e c
    | _, _ => false

/-- Nobody drops the job. -/
def NoneDropped (j : ℕ) (p : System) (l : Act) : Prop := dropping j p l = false

instance (j : ℕ) (p : System) (l : Act) : Decidable (NoneDropped j p l) :=
  inferInstanceAs (Decidable (_ = false))

/-- What a process has read of its run and of the job is so. -/
structure Duty.Fits (db : DB) (c : Duty) : Prop where
  run : ∀ i j, c.about = some (i, j) → ∃ r, db.runs.get? i = some r ∧ r.jobId = j
  source : ∀ i j source, c.about = some (i, j) → c.source? = some source →
    ∃ job, db.jobs.get? j = some job ∧ job.source = source

section

variable {db : DB} {C : System → Act → Prop} {p p' : System} {l : Act} {pid i j : ℕ}

lemma kind_inPhase (k : Kind) :
    Pool.InPhase Phase.Moves (Phase.ok {}) (fun _ => True) k.program .rest :=
  k.inPhase (fun _ _ _ _ => trivial) fun _ _ => trivial

lemma phase_ok (h : System.Run C (.over db) p) {r : Req} {f : Except Exc r.Reply → Io Unit}
    (hwait : p.prog? pid = some (.ask r f)) : ∃ c, p.phase pid = some c ∧ c.ok {} r := by
  obtain ⟨c, hc, hok, -⟩ := Pool.watched
    (fun {_ _ _ _ r _ y} c _ hacts =>
      (⟨valid_of_answer hacts.answered, rfl⟩ : c.Moves r y (c.next r y)))
    (fun _ k _ => kind_inPhase k) h rfl rfl hwait
  exact ⟨c, hc, hok⟩

lemma row_of_claim {r : Req} {a : Answer} {y : Except Exc r.Reply} {db' : DB}
    (h : answer db r a = some (db', y)) {cl : Claim} (hcl : claimIn pid r y = some cl) :
    db'.runs.get? cl.run.id = some cl.run := by
  revert hcl
  refine answer_cases (motive := fun r a db' y => claimIn pid r y = some cl →
    db'.runs.get? cl.run.id = some cl.run) ?_ ?_ ?_ h
  · intro c e db' y hx hcl
    have hrow := claimIn_row hx hcl
    rw [run_id_of_get? hrow]
    exact hrow
  · intro c exc hcl
    cases c <;> cases hcl
  · intro r a y hr _ hcl
    cases r with
    | db c => exact absurd rfl (hr c)
    | _ => cases hcl

lemma run_step (hC : Staying p l) (hstep : Pool.step answer Kind.program p l = some p') {r : RunRow}
    (hr : p.shared.runs.get? i = some r) :
    ∃ r', p'.shared.runs.get? i = some r' ∧ r'.jobId = r.jobId := by
  rcases committing_cases hstep with hsame | ⟨c, e, y, hc, hx⟩
  · exact ⟨r, hsame ▸ hr, rfl⟩
  · exact run_exec hx (hC c hc) hr

lemma maintained_step (hC : Staying p l) (hstep : Pool.step answer Kind.program p l = some p')
    (hj : Maintained p.shared j) : Maintained p'.shared j := by
  rcases committing_cases hstep with hsame | ⟨c, e, y, hc, hx⟩
  · exact hsame ▸ hj
  · exact maintained_exec hx (hC c hc) hj

/-- What a process has read of the source of a job, the row still says. -/
lemma source_step (hC : Staying p l) (hstep : Pool.step answer Kind.program p l = some p')
    {source : JobSource} (hj : ∃ job, p.shared.jobs.get? j = some job ∧ job.source = source) :
    ∃ job, p'.shared.jobs.get? j = some job ∧ job.source = source := by
  rcases committing_cases hstep with hsame | ⟨c, e, y, hc, hx⟩
  · exact hsame ▸ hj
  · obtain ⟨job, hjob, hsource⟩ := hj
    have hstays := hC c hc
    have hrow := exec_job hx j
    rw [hjob] at hrow
    generalize p'.shared.jobs.get? j = o at hrow
    cases hrow with
    | deleted => cases hstays
    | _ => exact ⟨_, rfl, hsource⟩

lemma duty_kept (h : System.Run C (.over db) p) {r : Req} {f : Except Exc r.Reply → Io Unit}
    (hwait : p.prog? pid = some (.ask r f)) : ∃ c, p.duty pid = some c ∧
      Pool.InPhase Duty.Moves Duty.ok Duty.Settled (.ask r f) c :=
  Pool.watched
    (fun {_ _ _ _ r _ y} c _ hacts =>
      (⟨valid_of_answer hacts.answered, rfl⟩ : Duty.Moves c r y (c.next r y)))
    (fun _ k _ => Duty.kind_duty k) h rfl rfl hwait

lemma exec_of_ok {db db' : DB} {c : Call} {a : Answer} {v : c.Reply}
    (h : answer db (.db c) a = some (db', .ok v)) :
    ∃ e, a = .commit e ∧ c.exec db e = some (db', .ok v) := by
  cases a with
  | commit e => exact ⟨e, rfl, h⟩
  | _ => simp [answer] at h

/-- **What a process knows stays true.** -/
theorem fits_of_run (h : System.Run Staying (.over db) p) {c : Duty} (hlives : p.lives pid)
    (hc : p.duty pid = some c) : c.Fits p.shared := by
  induction h generalizing c with
  | refl => simp [Pool.lives, Pool.prog?, System.over] at hlives
  | @tail p₁ p₂ hrun hmove ih =>
    obtain ⟨l, hC, hstep⟩ := hmove
    have hkeep : ∀ {c : Duty}, c.Fits p₁.shared → c.Fits p₂.shared := by
      intro c hfits
      refine ⟨fun i j hk => ?_, fun i j source hk hs => ?_⟩
      · obtain ⟨r, hr, hj⟩ := hfits.run i j hk
        obtain ⟨r', hr', hj'⟩ := run_step hC hstep hr
        exact ⟨r', hr', hj'.trans hj⟩
      · exact source_step hC hstep (hfits.source i j source hk hs)
    rcases Pool.watch_cases (Pool.pid_lt hrun rfl) hstep hlives hc with
      ⟨-, hsame, hbefore⟩ | ⟨k, rfl⟩ | ⟨a, r, f, y, c₀, rfl, hacts, hc₀, rfl⟩
    · exact hkeep (ih (by rwa [Pool.lives, ← hsame]) hbefore)
    · exact ⟨fun i j hk => (by cases hk), fun i j source hk => by cases hk⟩
    · have hfits := hkeep (ih (by simp [Pool.lives, hacts.waiting]) hc₀)
      obtain ⟨c, hc, hok, -⟩ := duty_kept hrun hacts.waiting
      obtain rfl : c = c₀ := Option.some.inj (hc.symm.trans hc₀)
      refine ⟨fun i j hk => ?_, fun i j source hk hs => ?_⟩
      · rcases Duty.about_next pid hk with hbefore | ⟨-, cl, hcl, heq⟩
        · exact hfits.run i j hbefore
        · cases heq
          exact ⟨cl.run, row_of_claim hacts.answered hcl, rfl⟩
      · rcases Duty.about_next pid hk with hbefore | ⟨rfl, cl, hcl, -⟩
        · rcases Duty.source_next hs with hread | ⟨i', job, heq, hsource⟩
          · exact hfits.source i j source hbefore hread
          · -- the job has been read just now
            cases heq
            obtain rfl : j = i' := hok (i, j) hbefore
            obtain ⟨e, -, hx⟩ := exec_of_ok hacts.answered
            simp only [Call.exec, Option.some.injEq, Prod.mk.injEq, Except.ok.injEq] at hx
            exact ⟨job, hx.1 ▸ hx.2, hsource⟩
        · rcases Duty.source_next hs with ⟨⟨⟩⟩ | ⟨i', job, heq, -⟩
          cases heq
          cases hcl

lemma owing_of_acts (h : System.Run C (.over db) p) {a : Answer} {r : Req}
    {f : Except Exc r.Reply → Io Unit} {y : Except Exc r.Reply}
    (hstep : Pool.step answer Kind.program p (.act pid a) = some p')
    (hacts : Pool.Acts answer p pid a p' r f y) {c : Duty} (hc : p.duty pid = some c)
    (howes : (c.next r y).owes j) : p'.owing pid j := by
  obtain ⟨c', hc', -, hkeeps⟩ := duty_kept h hacts.waiting
  obtain rfl : c' = c := Option.some.inj (hc'.symm.trans hc)
  have hduty : p'.duty pid = some (c'.next r y) := by
    rw [System.duty, Pool.watch_act hstep hacts, if_pos rfl, ← System.duty, hc, Option.map_some]
  have hnext := hkeeps y _ ⟨valid_of_answer hacts.answered, rfl⟩
  have hresumed := hacts.resumed pid
  rw [if_pos rfl] at hresumed
  cases hf : f y with
  | ret v =>
    rw [hf] at hnext
    rw [hnext j] at howes
    cases howes
  | ask r' f' =>
    rw [hf] at hresumed
    simp [System.owing, Pool.lives, hresumed, Pool.live, hduty, howes]

/-- The run and the job of a process that owes the job its arming. -/
lemma Duty.about_of_owes {c : Duty} (h : c.owes j = true) : ∃ i, c.about = some (i, j) := by
  cases c with
  | out | claimed | works => cases h
  | ended i i' source =>
    obtain ⟨rfl, -⟩ := of_decide_eq_true h
    exact ⟨i, rfl⟩
  | raised i i' late =>
    obtain ⟨rfl, -⟩ := of_decide_eq_true h
    exact ⟨i, rfl⟩
  | rearms i i' =>
    obtain rfl := of_decide_eq_true h
    exact ⟨i, rfl⟩

/-- An act that does not drop the job: nobody who has no handler left raises. -/
lemma NoneDropped.raises {a : Answer} {r : Req} {f : Except Exc r.Reply → Io Unit}
    {y : Except Exc r.Reply} (hC : NoneDropped j p (.act pid a))
    (hacts : Pool.Acts answer p pid a p' r f y) {exc : Exc} (hy : y = .error exc) :
    p.creates pid j = false ∧ ∀ c, p.duty pid = some c → c.helpless j r = false := by
  have hraises : p.raises pid a = true := by
    simp [System.raises, hacts.pending, hacts.answered, hy]
  simp only [NoneDropped, dropping, hraises, hacts.pending, Bool.true_and, Bool.or_eq_false_iff,
    Option.any_some] at hC
  refine ⟨hC.1.1, fun c hc => ?_⟩
  simpa [hc] using hC.1.2

lemma NoneDropped.commits {c : Call} {e : Env} (hC : NoneDropped j p (.act pid (.commit e)))
    (hasks : p.pending pid = some (.db c)) : p.drops pid j e c = false := by
  simp only [NoneDropped, dropping, hasks, Bool.or_eq_false_iff] at hC
  exact hC.2

lemma NoneDropped.staying (hC : NoneDropped j p l) : Staying p l := by
  intro c hc
  unfold committing at hc
  split at hc
  · split at hc
    · rename_i hasks
      cases hc
      have hdrops := hC.commits hasks
      cases c with
      | cancelJob | deleteJob | deleteRuns => cases hdrops
      | _ => rfl
    · cases hc
  · cases hc

/-- **Whoever has still to arm a job does so**, or goes on. -/
lemma duty_step (h : System.Run Staying (.over db) p) (hC : NoneDropped j p l)
    (hstep : Pool.step answer Kind.program p l = some p') (hj : Maintained p.shared j)
    (hlives : p.lives pid) {c : Duty} (hc : p.duty pid = some c) (howes : c.owes j) :
    p'.owing pid j ∨ Covered p'.shared j := by
  rcases Pool.watch_moves (Pool.pid_lt h rfl) hstep hlives hc with
    ⟨hsame, hduty⟩ | rfl | ⟨a, r, f, y, rfl, hacts, -⟩
  · left
    have hlives' : p'.lives pid := by rwa [Pool.lives, hsame]
    have hduty' : p'.duty pid = some c := hduty
    simp [System.owing, hlives', hduty', howes]
  · have howing : p.owing pid j = true := by simp [System.owing, hlives, hc, howes]
    exact (Bool.false_ne_true (hC.symm.trans howing)).elim
  cases hnext : (c.next r y).owes j with
  | true => exact .inl (owing_of_acts h hstep hacts hc hnext)
  | false =>
    right
    obtain ⟨job, hjob, hsource, -⟩ := hj
    obtain ⟨i, habout⟩ := Duty.about_of_owes howes
    obtain ⟨c', hc', hok, -⟩ := duty_kept h hacts.waiting
    obtain rfl : c' = c := Option.some.inj (hc'.symm.trans hc)
    rcases Duty.owes_cases howes hnext with ⟨exc, hy, hhelpless⟩ | ⟨j', t, heq⟩ | ⟨i', heq⟩ |
      ⟨j', o, heq, hnone⟩
    · rw [(hC.raises hacts hy).2 c' hc] at hhelpless
      cases hhelpless
    · -- it arms the job
      cases heq
      obtain ⟨i₁, habout'⟩ := hok
      obtain ⟨rfl, rfl⟩ := Prod.mk.inj (Option.some.inj (habout.symm.trans habout'))
      obtain ⟨e, rfl, hx⟩ := exec_of_ok hacts.answered
      have hdrops := hC.commits hacts.pending
      simp only [Call.exec, Option.some.injEq, Prod.mk.injEq] at hx
      cases t with
      | some t =>
        left
        rw [← hx.1]
        simp [DB.armed, DB.setNextRunAt, hjob, job_id_of_get? hjob]
      | none =>
        right
        have hactive : p.shared.hasActiveRun j = true := by simpa [System.drops] using hdrops
        rw [← hx.1]
        exact hactive
    · -- the run is there
      cases heq
      obtain rfl : i = i' := hok (i, j) habout
      obtain ⟨row, hrow, -⟩ := (fits_of_run h hlives hc).run i j habout
      obtain ⟨e, -, hx⟩ := exec_of_ok hacts.answered
      simp only [Call.exec, DB.getRun, hrow, Option.some.injEq, Prod.mk.injEq, Except.ok.injEq,
        reduceCtorEq, and_false] at hx
    · -- the job is there, and is a maintained one
      cases heq
      obtain rfl : j = j' := hok (i, j) habout
      obtain ⟨e, -, hx⟩ := exec_of_ok hacts.answered
      simp only [Call.exec, DB.getJob, Option.some.injEq, Prod.mk.injEq, Except.ok.injEq] at hx
      exact absurd hsource (hnone job (hx.2 ▸ hjob))

lemma active_of_insert {db : DB} {e : Env} {t t' : Table RunRow} {scheduledAt : Option Time}
    (ht : t.insert (newRun e j scheduledAt) = some t') (hruns : db.runs = t') :
    db.hasActiveRun j = true := by
  have hrow := Table.get?_insert_self ht
  rw [← hruns] at hrow
  exact hasActiveRun_of_get? hrow rfl rfl

/-- **Whoever has won a job creates its run.** -/
lemma creates_step (h : System.Run Staying (.over db) p) (hC : NoneDropped j p l)
    (hstep : Pool.step answer Kind.program p l = some p') (hcreates : p.creates pid j) :
    p'.owing pid j ∨ Covered p'.shared j := by
  have hasks : p.pending pid = some (.db (.createRun j none)) := by
    unfold System.creates at hcreates
    split at hcreates
    · rename_i i hasks
      obtain rfl : i = j := of_decide_eq_true hcreates
      exact hasks
    · cases hcreates
  obtain ⟨f, hwait⟩ := Pool.prog?_of_pending hasks
  obtain ⟨c, hc, -⟩ := duty_kept h hwait
  have hlives : p.lives pid := by simp [Pool.lives, hwait]
  rcases Pool.watch_moves (Pool.pid_lt h rfl) hstep hlives hc with
    ⟨hsame, -⟩ | rfl | ⟨a, r, f', y, rfl, hacts, -⟩
  · left
    have hcreates' : p'.creates pid j = true := by rwa [System.creates, Pool.pending, hsame]
    simp [System.owing, hcreates']
  · have howing : p.owing pid j = true := by simp [System.owing, hcreates]
    exact (Bool.false_ne_true (hC.symm.trans howing)).elim
  · right
    obtain rfl : r = .db (.createRun j none) := Option.some.inj (hacts.pending.symm.trans hasks)
    rcases y with exc | run
    · rw [(hC.raises hacts rfl).1] at hcreates
      cases hcreates
    · obtain ⟨e, -, hx⟩ := exec_of_ok hacts.answered
      simp only [Call.exec, Option.bind_eq_bind, Option.bind_eq_some_iff, Option.some.injEq,
        Prod.mk.injEq, Prod.exists] at hx
      obtain ⟨db', run', hcreate, rfl, -⟩ := hx
      obtain ⟨runs, hruns, -, hdb⟩ := createRun_cases hcreate
      exact .inr (active_of_insert hruns (by rw [hdb]))

lemma owing_step (h : System.Run Staying (.over db) p) (hC : NoneDropped j p l)
    (hstep : Pool.step answer Kind.program p l = some p') (hj : Maintained p.shared j)
    (howing : p.owing pid j) : p'.owing pid j ∨ Covered p'.shared j := by
  simp only [System.owing, Bool.or_eq_true, Bool.and_eq_true, Option.any_eq_true] at howing
  rcases howing with hcreates | ⟨hlives, c, hc, howes⟩
  · exact creates_step h hC hstep hcreates
  · exact duty_step h hC hstep hj hlives hc howes

lemma beat_of_claim (h : System.Run C (.over db) p) {t : Option Time}
    (hasks : p.pending pid = some (.db (.claimScheduled j t))) :
    ∃ g m fuel, p.kind? pid = some (.beat g m fuel) := by
  obtain ⟨k, hk, hmay⟩ := Pool.asks_of_kind Kind.asks_may h rfl rfl hasks
  cases k with
  | beat g m fuel => exact ⟨g, m, fuel, hk⟩
  | _ => exact hmay.elim

/-- **A beat that does not skip a job has still to create its run.** -/
lemma win_step (h : System.Run C (.over db) p) {e : Env} (hC : NoneDropped j p (.act pid (.commit e)))
    (hwin : WinsClaim p pid e j p') : p'.owing pid j := by
  obtain ⟨t, hasks⟩ := hwin.asks
  obtain ⟨g, m, fuel, hkind⟩ := beat_of_claim h hasks
  obtain ⟨c, listed, hc, -, -, -, hcreating⟩ := creating_iff h hwin hkind
  have hdrops := hC.commits hasks
  have hmisfired : c.misfired = false := by
    simpa [System.drops, hwin.won, hc] using hdrops
  have hasks' := hcreating.2 hmisfired
  rw [Creating] at hasks'
  simp [System.owing, System.creates, hasks']

/-- **Who ends a run of the job has still to arm the job.** -/
lemma end_step (h : System.Run Staying (.over db) p) {c : Call} {e : Env}
    (hC : NoneDropped j p (.act pid (.commit e)))
    (hstep : Pool.step answer Kind.program p (.act pid (.commit e)) = some p')
    (hasks : p.pending pid = some (.db c)) (hj : Maintained p.shared j)
    (hends : (∃ error, c = .failRun i error none) ∨ (∃ v, c = .completeRun i v) ∨ c = .cancelRun i)
    {row : RunRow} (hrow : p.shared.runs.get? i = some row) (hrj : row.jobId = j) :
    p'.owing pid j := by
  obtain ⟨r, f, y, hacts⟩ := Pool.step_act hstep
  obtain rfl : r = .db c := Option.some.inj (hacts.pending.symm.trans hasks)
  obtain ⟨d, hd, hok, -⟩ := duty_kept h hacts.waiting
  have hlives : p.lives pid := by simp [Pool.lives, hacts.waiting]
  have hfits := fits_of_run h hlives hd
  have hdrops := hC.commits hasks
  have hjob : ∀ j', d.about = some (i, j') → j' = j := by
    intro j' habout
    obtain ⟨row', hrow', hrj'⟩ := hfits.run i j' habout
    rw [hrow] at hrow'
    cases hrow'
    exact hrj'.symm.trans hrj
  have hworks : ∀ j' source, d = .works i j' source → (Duty.ended i j' source).owes j = true := by
    rintro j' source rfl
    obtain rfl := hjob j' rfl
    obtain ⟨job, hget, hsource⟩ := hfits.source i j' source rfl rfl
    obtain ⟨job', hget', hsource', -⟩ := hj
    rw [hget] at hget'
    cases hget'
    simp [Duty.owes, ← hsource, hsource']
  have hans := hacts.answered
  rcases hends with ⟨error, rfl⟩ | ⟨v, rfl⟩ | rfl
  · simp only [answer, Call.exec, Option.some.injEq, Prod.mk.injEq] at hans
    obtain ⟨-, rfl⟩ := hans
    rcases hok with ⟨j', source, rfl⟩ | ⟨j', source, rfl⟩ | ⟨j', b, rfl⟩
    · obtain rfl := hjob j' rfl
      simp [System.drops, hd, Duty.lacks] at hdrops
    · exact owing_of_acts h hstep hacts hd (hworks j' source rfl)
    · obtain rfl := hjob j' rfl
      exact owing_of_acts h hstep hacts hd (by simp [Duty.next, Duty.owes])
  · simp only [answer, Call.exec, Option.some.injEq, Prod.mk.injEq] at hans
    obtain ⟨-, rfl⟩ := hans
    obtain ⟨j', source, rfl⟩ := hok
    exact owing_of_acts h hstep hacts hd (hworks j' source rfl)
  · simp [System.drops, hrow, hrj] at hdrops

/-- **A job is passed on**: who uncovers it has still to see to it. -/
theorem safe_step (h : System.Run Staying (.over db) p) (hC : NoneDropped j p l)
    (hstep : Pool.step answer Kind.program p l = some p') (hj : Maintained p.shared j)
    (hsafe : Covered p.shared j ∨ ∃ pid, p.owing pid j) :
    Covered p'.shared j ∨ ∃ pid, p'.owing pid j := by
  rcases hsafe with hcovered | ⟨pid, howing⟩
  · rcases System.step_cases hstep with hsame | ⟨pid, c, e, y, rfl, hasks, hx, -⟩
    · exact .inl (hsame ▸ hcovered)
    · have hstays : c.takesAway = false := hC.staying c (by simp [committing, hasks])
      rcases covered_exec hx hstays hj hcovered with hcovered | ⟨t, job, rfl, hjob, hfires⟩ | rfl |
        ⟨i, row, hends, hrow, hrj⟩
      · exact .inl hcovered
      · exact .inr ⟨pid, win_step h hC ⟨hstep, ⟨t, hasks⟩, by simp [hjob, hfires]⟩⟩
      · -- a run of the job is left
        have hdrops := hC.commits hasks
        have hactive : p.shared.hasActiveRun j = true := by simpa [System.drops] using hdrops
        simp only [Call.exec, Option.some.injEq, Prod.mk.injEq] at hx
        rw [← hx.1]
        exact .inl (.inr hactive)
      · exact .inr ⟨pid, end_step h hC hstep hasks hj hends hrow hrj⟩
  · rcases owing_step h hC hstep hj howing with howing | hcovered
    · exact .inr ⟨pid, howing⟩
    · exact .inl hcovered

/-- In every run in which nobody drops the job, it is covered or somebody has still to see to it. -/
theorem safe_run (h : System.Run Staying (.over db) p) (hrun : System.Run (NoneDropped j) p p')
    (hj : Maintained p.shared j) (hsafe : Covered p.shared j ∨ ∃ pid, p.owing pid j) :
    Covered p'.shared j ∨ ∃ pid, p'.owing pid j := by
  have hboth : (System.Run Staying (.over db) p' ∧ Maintained p'.shared j) ∧
      (Covered p'.shared j ∨ ∃ pid, p'.owing pid j) := by
    induction hrun with
    | refl => exact ⟨⟨h, hj⟩, hsafe⟩
    | tail _ hmove ih =>
      obtain ⟨⟨hreached, hmaintained⟩, hsafe⟩ := ih
      obtain ⟨l, hC, hstep⟩ := hmove
      exact ⟨⟨hreached.tail ⟨l, hC.staying, hstep⟩, maintained_step hC.staying hstep hmaintained⟩,
        safe_step hreached hC hstep hmaintained hsafe⟩
  exact hboth.2

/-- A job whose claim has just been won is neither armed nor has a run in flight. -/
lemma WinsClaim.uncovered (h : System.Run C (.over db) p) {e : Env} (hwin : WinsClaim p pid e j p') :
    ¬ Covered p'.shared j := by
  obtain ⟨t, f, hacts⟩ := hwin.acts
  obtain ⟨c, -, rfl, -⟩ := phase_ok h hacts.waiting
  obtain ⟨job, hjob, hfires⟩ := (Option.any_eq_true _ _).1 hwin.won
  have hid := job_id_of_get? hjob
  have hans := hacts.answered
  simp only [answer, Call.exec, Option.some.injEq, Prod.mk.injEq] at hans
  have hdb : p'.shared = (p.shared.claimScheduled e.now j none).1 := hans.1.symm
  rw [hdb]
  rintro (harmed | hactive)
  · have hfires' : p.shared.Fires e.now job := of_decide_eq_true hfires
    simp [DB.armed, DB.claimScheduled, hjob, hid, hfires'] at harmed
  · have hrest : p.shared.hasActiveRun job.id = false := (of_decide_eq_true hfires).2.2
    rw [hid] at hrest
    have hsame : (p.shared.claimScheduled e.now j none).1.hasActiveRun j = p.shared.hasActiveRun j := rfl
    rw [hsame, hrest] at hactive
    cases hactive

end

/-- **What a skip does to a schedule.** Whatever beats, workers and clients have done before, a beat that
wins a claim decides by the row it has listed whether it skips the job. So it skips rightly if and only
if the value that its claim has cleared is overdue by more than the misfire grace whenever the one it
has listed is; and right after the claim the job is neither armed nor has a run in flight, so a skip
leaves it like that.

Elsewhere a maintained job that was armed at some time, as before a tick, is armed or has a run in flight
at any later time, as after the tick, at which nobody has still to see to it: unless somebody has dropped
it, or a client has taken rows away. -/
theorem misfires_and_schedules (db : DB) :
    (∀ (C : System → Act → Prop) (p p' : System) (pid j : ℕ) (e : Env) (g : ℤ) (m : Option ℤ)
      (fuel : ℕ), System.Run C (.over db) p → WinsClaim p pid e j p' →
        p.kind? pid = some (.beat g m fuel) →
          ∃ c listed job, p.look pid = some c ∧ c.job = some listed ∧ listed.id = j ∧
            p.shared.jobs.get? j = some job ∧
            ((¬ Creating p' pid j → JobManager.isMisfired job.nextRunAt c.now m) ↔
              (JobManager.isMisfired listed.nextRunAt c.now m →
                JobManager.isMisfired job.nextRunAt c.now m)) ∧
            ¬ Covered p'.shared j) ∧
      ∀ (p p' : System) (j : ℕ), System.Run Staying (.over db) p → System.Run (NoneDropped j) p p' →
        Maintained p.shared j → p.shared.armed j → (∀ pid, p'.owing pid j = false) →
          Covered p'.shared j := by
  refine ⟨?_, ?_⟩
  · intro C p p' pid j e g m fuel h hwin hkind
    obtain ⟨c, listed, hc, hlisted, hid, hmisfired, hcreating⟩ := creating_iff h hwin hkind
    obtain ⟨job, hjob, -⟩ := (Option.any_eq_true _ _).1 hwin.won
    refine ⟨c, listed, job, hc, hlisted, hid, hjob, ?_, hwin.uncovered h⟩
    rw [hcreating, hmisfired, Bool.not_eq_false]
  · intro p p' j h hrun hj harmed hfree
    rcases safe_run h hrun hj (.inl (.inl harmed)) with hcovered | ⟨pid, howing⟩
    · exact hcovered
    · exact (Bool.false_ne_true ((hfree pid).symm.trans howing)).elim

/-- A job that is armed for the second 0. -/
def overdue : List Act :=
  .spawn (.schedule { job := "m.J", nextRunAt := some 0 }) :: commits 0 2 0

/-- A tick that is in time, up to the claim. -/
def winning : List Act :=
  .spawn (.beat 300 (some 30) 1) :: reads 1 7 :: .act 1 (.lastClaim none) :: commits 1 3 7 ++
  [reads 1 7]

/-- The beat has won the claim and creates the run. A worker executes it, gets an exception after it has
completed it, and arms the job again all the same. -/
def rearming : List Act :=
  commits 1 1 7 ++ .spawn (.worker (.named "A")) :: reads 2 8 :: reads 2 8 :: commits 2 5 8 ++
  .act 2 (.ran (.ok (.str "")) []) :: commits 2 3 8 ++
  .act 2 (.fail (.other "OperationalError" "database is locked")) :: commits 2 2 8 ++ reads 2 8 ::
  commits 2 1 8

lemma lt_of_owing {p : System} {pid j : ℕ} (h : p.owing pid j = true) : pid < p.procs.length := by
  refine Pool.lt_of_lives (p := p) ?_
  simp only [System.owing, Bool.or_eq_true, Bool.and_eq_true] at h
  rcases h with hcreates | ⟨hlives, -⟩
  · unfold System.creates at hcreates
    split at hcreates
    · rename_i hasks
      obtain ⟨f, hwait⟩ := Pool.prog?_of_pending hasks
      simp [Pool.lives, hwait]
    · cases hcreates
  · exact hlives

/-- A job is won and so disarmed, its run is executed, and the job is armed again. -/
theorem misfires_and_schedules_rearmed : ∃ p p₁ p₂ p' : System,
    System.init.play (NoneDropped 0) overdue = some p ∧ p.play (NoneDropped 0) winning = some p₁ ∧
      p₁.play (NoneDropped 0) (commits 1 1 7) = some p₂ ∧
      p₂.play (NoneDropped 0) rearming = some p' ∧ p.shared.armed 0 ∧
      (Creating p₂ 1 0 ∧ ¬ Covered p₂.shared 0) ∧ Covered p'.shared 0 := by
  have hall : ((System.init.play (NoneDropped 0) overdue).any fun p => p.shared.armed 0 ∧
      ((p.shared.jobs.get? 0).any fun job => job.source = .scheduled ∧ job.status = .active) ∧
      (p.play (NoneDropped 0) winning).any fun p₁ =>
        ((p₁.shared.jobs.get? 0).any fun job => p₁.shared.Fires (seconds 7) job) ∧
        (p₁.play (NoneDropped 0) (commits 1 1 7)).any fun p₂ =>
          (p₂.play (NoneDropped 0) rearming).any fun p' => p'.procs.length = 3 ∧
            ∀ pid < 3, p'.owing pid 0 = false) = true := by decide
  obtain ⟨p, hp, hend⟩ := (Option.any_eq_true _ _).1 hall
  obtain ⟨harmed, hmain, hrest⟩ := of_decide_eq_true hend
  obtain ⟨p₁, hp₁, hend₁⟩ := (Option.any_eq_true _ _).1 hrest
  obtain ⟨hfires, hrest₁⟩ := of_decide_eq_true hend₁
  obtain ⟨p₂, hp₂, hrest₂⟩ := (Option.any_eq_true _ _).1 hrest₁
  obtain ⟨p', hp', hend'⟩ := (Option.any_eq_true _ _).1 hrest₂
  obtain ⟨hlen, hfree⟩ := of_decide_eq_true hend'
  have hasks : ((System.init.play (NoneDropped 0) overdue).bind fun p =>
      p.play (NoneDropped 0) winning).map (fun p => (p.kind? 1, p.pending 1)) =
        some (some (.beat 300 (some 30) 1), some (.db (.claimScheduled 0 none))) := by rfl
  rw [hp, Option.bind_some, hp₁, Option.map_some, Option.some.injEq, Prod.mk.injEq] at hasks
  have hstep : Pool.step answer Kind.program p₁ (.act 1 (committed 7)) = some p₂ := by
    change (if NoneDropped 0 p₁ (.act 1 (committed 7)) then
      (Pool.step answer Kind.program p₁ (.act 1 (committed 7))).bind some else none) = some p₂ at hp₂
    split at hp₂
    · rwa [Option.bind_fun_some] at hp₂
    · cases hp₂
  have hstaying : System.Run Staying (.over {}) p :=
    (Pool.run_of_play hp).mono fun _ _ hC => hC.staying
  have hrun := (Pool.run_of_play hp₁).trans ((Pool.run_of_play hp₂).trans (Pool.run_of_play hp'))
  have hmaintained : Maintained p.shared 0 := by
    obtain ⟨job, hjob, hboth⟩ := (Option.any_eq_true _ _).1 hmain
    exact ⟨job, hjob, of_decide_eq_true hboth⟩
  obtain ⟨hskips, hkept⟩ := misfires_and_schedules {}
  obtain ⟨c, listed, job, -, -, -, -, -, huncovered⟩ := hskips (NoneDropped 0) p₁ p₂ 1 0 _ 300 (some 30) 1
    ((Pool.run_of_play hp).trans (Pool.run_of_play hp₁)) ⟨hstep, ⟨none, hasks.2⟩, hfires⟩ hasks.1
  have hcreates : ((System.init.play (NoneDropped 0) overdue).bind fun p =>
      (p.play (NoneDropped 0) winning).bind fun p => p.play (NoneDropped 0) (commits 1 1 7)).map
        (fun p => p.pending 1) = some (some (.db (.createRun 0 none))) := by rfl
  rw [hp, Option.bind_some, hp₁, Option.bind_some, hp₂, Option.map_some, Option.some.injEq] at hcreates
  refine ⟨p, p₁, p₂, p', hp, hp₁, hp₂, hp', harmed, ⟨hcreates, huncovered⟩, ?_⟩
  refine hkept p p' 0 hstaying hrun hmaintained harmed fun pid => ?_
  by_cases hpid : pid < 3
  · exact hfree pid hpid
  · by_contra howing
    exact hpid (hlen ▸ lt_of_owing (Bool.not_eq_false _ ▸ howing))

/-- A tick two hours later, with a misfire grace of 30 seconds. -/
def skipping : List Act :=
  .spawn (.beat 300 (some 30) 1) :: reads 1 7200 :: .act 1 (.lastClaim none) :: commits 1 3 7200 ++
  reads 1 7200 :: commits 1 1 7200

/-- The same tick; before its claim another beat (process 2) fires the job, and a worker (process 3)
executes the run and arms the job again, for the present time. -/
def overtakenTick : List Act :=
  .spawn (.beat 300 (some 30) 1) :: reads 1 7200 :: .act 1 (.lastClaim none) :: commits 1 3 7200 ++
  reads 1 7200 :: .spawn (.beat 300 none 1) :: reads 2 7200 :: .act 2 (.lastClaim none) ::
  commits 2 3 7200 ++ reads 2 7200 :: commits 2 2 7200 ++
  .spawn (.worker (.named "A")) :: reads 3 7200 :: reads 3 7200 :: commits 3 5 7200 ++
  .act 3 (.ran (.ok (.str "")) []) :: commits 3 5 7200 ++ .act 3 (.next (some (seconds 7200))) ::
  commits 3 1 7200

/-- A tick skips a job, which then is neither armed nor has a run in flight. And a tick skips a job whose
claim has cleared the time that has just come, as it was armed again since the listing. -/
theorem misfire_ends_schedule :
    (∃ p p' : System, System.init.play System.Any overdue = some p ∧
      p.play System.Any skipping = some p' ∧ p.shared.armed 0 ∧ Maintained p.shared 0 ∧
      p'.lives 1 = false ∧ Maintained p'.shared 0 ∧ ¬ Covered p'.shared 0) ∧
    ∃ (p p' : System) (job : JobRow), System.init.play System.Any (overdue ++ overtakenTick) = some p ∧
      p.play System.Any (commits 1 1 7200) = some p' ∧ p.shared.jobs.get? 0 = some job ∧
      JobManager.isMisfired job.nextRunAt (seconds 7200) (some 30) = false ∧ ¬ Creating p' 1 0 ∧
      ¬ Covered p'.shared 0 := by
  have maintained : ∀ db : DB, ((db.jobs.get? 0).any fun job => job.source = .scheduled ∧
      job.status = .active) = true → Maintained db 0 := by
    intro db h
    obtain ⟨job, hjob, hboth⟩ := (Option.any_eq_true _ _).1 h
    exact ⟨job, hjob, of_decide_eq_true hboth⟩
  constructor
  · have hall : ((System.init.play System.Any overdue).any fun p => p.shared.armed 0 ∧
        ((p.shared.jobs.get? 0).any fun job => job.source = .scheduled ∧ job.status = .active) ∧
        (p.play System.Any skipping).any fun p' => p'.lives 1 = false ∧
          ((p'.shared.jobs.get? 0).any fun job => job.source = .scheduled ∧ job.status = .active) ∧
          p'.shared.armed 0 = false ∧ p'.shared.hasActiveRun 0 = false) = true := by decide
    obtain ⟨p, hp, hend⟩ := (Option.any_eq_true _ _).1 hall
    obtain ⟨harmed, hmain, hrest⟩ := of_decide_eq_true hend
    obtain ⟨p', hp', hend'⟩ := (Option.any_eq_true _ _).1 hrest
    obtain ⟨hlives, hmain', hdis, hact⟩ := of_decide_eq_true hend'
    exact ⟨p, p', hp, hp', harmed, maintained _ hmain, hlives, maintained _ hmain', by
      simp [Covered, hdis, hact]⟩
  · have hall : ((System.init.play System.Any (overdue ++ overtakenTick)).any fun p =>
        ((p.shared.jobs.get? 0).any fun job =>
          JobManager.isMisfired job.nextRunAt (seconds 7200) (some 30) = false) ∧
        (p.play System.Any (commits 1 1 7200)).any fun p' => (p'.pending 1).isNone ∧
          p'.shared.armed 0 = false ∧ p'.shared.hasActiveRun 0 = false) = true := by decide
    obtain ⟨p, hp, hend⟩ := (Option.any_eq_true _ _).1 hall
    obtain ⟨hjob, hrest⟩ := of_decide_eq_true hend
    obtain ⟨job, hget, hmis⟩ := (Option.any_eq_true _ _).1 hjob
    obtain ⟨p', hp', hend'⟩ := (Option.any_eq_true _ _).1 hrest
    obtain ⟨hnone, hdis, hact⟩ := of_decide_eq_true hend'
    refine ⟨p, p', job, hp, hp', hget, of_decide_eq_true hmis, ?_, by simp [Covered, hdis, hact]⟩
    rw [Creating, Option.isNone_iff_eq_none.1 hnone]
    rintro ⟨⟩

end Pyreljob
