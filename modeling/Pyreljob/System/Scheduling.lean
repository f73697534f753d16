import Pyreljob.System.Clients
import Pyreljob.System.Late

/-!
Clients that schedule the same job.

`schedule` inserts the job if its lookup has not found it. Between the two another client may have
inserted it. If the job has a key the index then refuses the second insert, which `schedule` leaves
to its caller; if it has none there are two rows from then on, and every later lookup finds both and
raises. As long as this does not happen `schedule` is idempotent, as the theorem here says.
-/

namespace Pyreljob

open Lib

/-! ### Who uses which key -/

/-- A key is used by the class it belongs to, when that is scheduled; a key that belongs to no class
may be used by `enqueue`. -/
def JobSpec.uses (spec : JobSpec) (owner : String → Option String) (source : JobSource) : Bool :=
  spec.idempotencyKey.all fun key => owner key = if source = .scheduled then some spec.job else none

/-- The process schedules or enqueues, with a key that it may use. -/
def Kind.submits (owner : String → Option String) : Kind → Bool
  | schedule spec => spec.uses owner .scheduled
  | enqueue spec _ => spec.uses owner .onDemand
  | _ => false

/-- Clients schedule and enqueue, and nothing else happens; no transaction fails but by the index. -/
def Submits (owner : String → Option String) : Act → Prop
  | .spawn k => k.submits owner
  | .act _ (.fail _) => False
  | _ => True

instance (owner : String → Option String) : DecidablePred (Submits owner)
  | .spawn k => inferInstanceAs (Decidable (k.submits owner = true))
  | .act _ (.fail _) => .isFalse id
  | .crash _ | .act _ (.commit _) | .act _ (.time _) | .act _ (.lastClaim _) | .act _ (.ran _ _)
  | .act _ (.undone _ _) | .act _ (.next _) => .isTrue trivial

/-- The row is that of the maintained job of the class with this key, or without one. -/
def Maintains (job : String) (key : Option String) (j : JobRow) : Prop :=
  j.job = job ∧ j.source = .scheduled ∧ j.idempotencyKey = key

instance (job : String) (key : Option String) : DecidablePred (Maintains job key) :=
  fun _ => inferInstanceAs (Decidable (_ ∧ _ ∧ _))

/-- The transaction inserts a maintained job that is there already. -/
def DB.doubles (db : DB) : Call → Bool
  | .insertJob spec => db.jobs.rows.any fun j => Maintains spec.job spec.idempotencyKey j
  | _ => false

/-- Clients schedule and enqueue, and no insert of `schedule` comes after that of another client for
the same class and key. -/
def SubmitsApart (owner : String → Option String) (p : System) (l : Act) : Prop :=
  Submits owner l ∧ (committing p l).any p.shared.doubles = false

instance (owner : String → Option String) (p : System) (l : Act) :
    Decidable (SubmitsApart owner p l) :=
  inferInstanceAs (Decidable (_ ∧ _))

/-! ### The database meanwhile -/

/-- There is one maintained job at most for each class and key. -/
def OneMaintained (db : DB) : Prop :=
  ∀ job key, ∀ j ∈ db.jobs.rows, ∀ j' ∈ db.jobs.rows,
    Maintains job key j → Maintains job key j' → j = j'

/-- The database while clients submit jobs. -/
structure Submitted (owner : String → Option String) (db : DB) : Prop where
  one : OneMaintained db
  /-- A key is that of the class it belongs to. -/
  owned : ∀ j ∈ db.jobs.rows, ∀ key, j.idempotencyKey = some key →
    owner key = if j.source = .scheduled then some j.job else none

def Submissions (owner : String → Option String) : Req → Prop
  | .db (.findScheduled ..) | .db (.findByIdempotencyKey _) => True
  | .db (.insertJob spec) => spec.source = .scheduled ∧ spec.uses owner .scheduled
  | .db (.insertJobAndRun spec _) => spec.source = .onDemand ∧ spec.uses owner .onDemand
  | _ => False

section

variable {owner : String → Option String} {db db' : DB} {e : Env} {c : Call}
  {y : Except Exc c.Reply}

lemma submitted_empty : Submitted owner {} where
  one := by
    intro job key j hj
    cases hj
  owned := by
    intro j hj
    cases hj

/-- Inserting a job that has its key for itself, and is not there yet if it is a maintained one. -/
lemma Submitted.insert {spec : JobSpec} (h : Submitted owner db) (huses : spec.uses owner spec.source)
    (hnew : spec.source = .scheduled →
      ∀ j ∈ db.jobs.rows, ¬ Maintains spec.job spec.idempotencyKey j)
    {jobs : Table JobRow} (hjobs : db.jobs.insert (spec.row e) = some jobs)
    (hdb' : db'.jobs = jobs) : Submitted owner db' where
  one := by
    intro job key j hj j' hj' hm hm'
    rw [hdb', Table.rows_insert hjobs, List.mem_append, List.mem_singleton] at hj hj'
    rcases hj with hj | rfl <;> rcases hj' with hj' | rfl
    · exact h.one job key j hj j' hj' hm hm'
    · obtain ⟨rfl, hs, rfl⟩ := hm'
      exact absurd hm (hnew hs j hj)
    · obtain ⟨rfl, hs, rfl⟩ := hm
      exact absurd hm' (hnew hs j' hj')
    · rfl
  owned := by
    intro j hj key hkey
    rw [hdb', Table.rows_insert hjobs, List.mem_append, List.mem_singleton] at hj
    rcases hj with hj | rfl
    · exact h.owned j hj key hkey
    · have hkey' : spec.idempotencyKey = some key := hkey
      have hown : owner key = if spec.source = .scheduled then some spec.job else none := by
        simpa [JobSpec.uses, hkey'] using huses
      exact hown

/-- **What a submission leaves**: no maintained job is there twice, and a job that was there stays. -/
lemma Submitted.step (h : Submitted owner db) (hc : Submissions owner (.db c))
    (hx : c.exec db e = some (db', y)) (hd : db.doubles c = false) :
    Submitted owner db' ∧ ∀ i job, db.jobs.get? i = some job → db'.jobs.get? i = some job := by
  cases c with
  | findScheduled job key | findByIdempotencyKey key =>
    cases hx
    exact ⟨h, fun _ _ hjob => hjob⟩
  | insertJob spec =>
    rcases insertJob_spec hx with ⟨-, rfl, -⟩ | ⟨hk, -, jobs, hjobs, rfl⟩
    · exact ⟨h, fun _ _ hjob => hjob⟩
    · have hnew : ∀ j ∈ db.jobs.rows, ¬ Maintains spec.job spec.idempotencyKey j := by
        simpa [DB.doubles] using hd
      exact ⟨h.insert (hc.1 ▸ hc.2) (fun _ => hnew) hjobs rfl,
        fun i job hjob => Table.get?_insert_stays hjobs hjob⟩
  | insertJobAndRun spec t =>
    rcases insertJobAndRun_spec hx with ⟨-, rfl, -⟩ | ⟨hk, -, jobs, runs, hjobs, hruns, rfl⟩
    · exact ⟨h, fun _ _ hjob => hjob⟩
    · refine ⟨h.insert (hc.1 ▸ hc.2) (fun hs => ?_) hjobs rfl,
        fun i job hjob => Table.get?_insert_stays hjobs hjob⟩
      rw [hc.1] at hs
      cases hs
  | _ => exact hc.elim

/-- The index does not refuse a maintained job that is not there yet. -/
lemma Submitted.not_refused {spec : JobSpec} (h : Submitted owner db)
    (huses : spec.uses owner .scheduled) (hd : db.doubles (.insertJob spec) = false) :
    ¬ db.keyTaken spec.idempotencyKey := by
  intro htaken
  obtain ⟨key, hkey, j, hj, hjk⟩ := keyTaken_iff.1 htaken
  have hown := h.owned j hj key hjk
  have hspec : owner key = some spec.job := by simpa [JobSpec.uses, hkey] using huses
  rw [hspec] at hown
  split at hown
  · rename_i hs
    have hm : Maintains spec.job spec.idempotencyKey j :=
      ⟨(Option.some.inj hown).symm, hs, hjk.trans hkey.symm⟩
    have hdouble : db.doubles (.insertJob spec) = true := List.any_eq_true.2 ⟨j, hj, by simpa using hm⟩
    rw [hd] at hdouble
    cases hdouble
  · cases hown

end

/-! ### The calls of the clients -/

lemma schedule_submissions {owner : String → Option String} {spec : JobSpec}
    (h : spec.uses owner .scheduled) : (Kind.schedule spec).program.Asks (Submissions owner) := by
  refine Prog.Within.bind ?_ fun _ => .ret _
  unfold JobManager.schedule
  refine Prog.Asks.ask trivial fun existing => ?_
  cases existing with
  | some existing => exact .ret _
  | none => exact Prog.Asks.last ⟨rfl, h⟩

lemma enqueue_submissions {owner : String → Option String} {spec : JobSpec} {t : Option Time}
    (h : spec.uses owner .onDemand) : (Kind.enqueue spec t).program.Asks (Submissions owner) := by
  have hinsert : Submissions owner (.db (.insertJobAndRun
      { spec with source := .onDemand, nextRunAt := none } t)) := ⟨rfl, h⟩
  refine Prog.Within.bind ?_ fun _ => .ret _
  unfold JobManager.enqueue
  dsimp only
  split
  · exact Prog.Asks.last hinsert
  · refine Prog.Asks.ask trivial fun existing => ?_
    cases existing with
    | some existing => exact .ret _
    | none =>
      refine .tryCatch (Prog.Asks.last hinsert) fun exc => ?_
      cases exc with
      | integrityError msg =>
        refine Prog.Asks.ask trivial fun existing => ?_
        cases existing <;> exact .ret _
      | _ => exact .ret _

/-- The call of `schedule` that the process was started as has ended with `v`. -/
def System.ScheduleEnded (p : System) (pid : ℕ) (spec : JobSpec) (v : Except Exc JobRow) : Prop :=
  p.kind? pid = some (.schedule spec) ∧ (JobManager.schedule spec).Ends (Pool.said pid p.log) v

section

variable {owner : String → Option String} {p q : System}

lemma submissions_pending (h : p.Reached (SubmitsApart owner)) {pid : ℕ} {r : Req}
    (hr : p.pending pid = some r) : Submissions owner r := by
  refine Pool.asks_of_run (fun p k hk => ?_) h rfl hr
  cases k with
  | schedule spec => exact schedule_submissions hk.1
  | enqueue spec t => exact enqueue_submissions hk.1
  | _ => cases hk.1

lemma submitted_run (h : p.Reached (SubmitsApart owner)) (hpq : System.Run (SubmitsApart owner) p q)
    (hp : Submitted owner p.shared) :
    Submitted owner q.shared ∧
      ∀ i job, p.shared.jobs.get? i = some job → q.shared.jobs.get? i = some job := by
  induction hpq with
  | refl => exact ⟨hp, fun _ _ hjob => hjob⟩
  | @tail q₁ q₂ hrun hmove ih =>
    obtain ⟨hq, hstays⟩ := ih
    obtain ⟨l, hC, hstep⟩ := hmove
    rcases System.step_cases hstep with hsame | ⟨pid, c, e, y, rfl, hasks, hx, -⟩
    · rw [hsame]
      exact ⟨hq, hstays⟩
    · have hd : q₁.shared.doubles c = false := by simpa [committing, hasks] using hC.2
      obtain ⟨hq', hstays'⟩ := hq.step (submissions_pending (h.trans hrun) hasks) hx hd
      exact ⟨hq', fun i job hjob => hstays' i job (hstays i job hjob)⟩

lemma submitted_of_reached (h : p.Reached (SubmitsApart owner)) : Submitted owner p.shared :=
  (submitted_run .refl h submitted_empty).1

/-- What a client was told is what the database says, then and now. -/
lemma schedule_event (h : p.Reached (SubmitsApart owner)) {pid : ℕ} {c : Call}
    {y : Except Exc c.Reply}
    (hsaid : (⟨.db c, y⟩ : Σ r : Req, Except Exc r.Reply) ∈ Pool.said pid p.log) :
    ∃ db db' e, c.exec db e = some (db', y) ∧ Submissions owner (.db c) ∧ db.doubles c = false ∧
      Submitted owner db ∧ ∀ i job, db'.jobs.get? i = some job → p.shared.jobs.get? i = some job := by
  obtain ⟨⟨pid', r, a, y', db, db'⟩, hev, rfl, heq⟩ := Pool.mem_of_said hsaid
  cases heq
  obtain ⟨l₁, l₂, hlog⟩ := List.append_of_mem hev
  obtain ⟨p₁, p₂, f, h₁, hC, hstep, hacts, h₂, -, rfl, -, rfl⟩ := Pool.event_step h rfl hlog
  have hp₂ : System.Reached (SubmitsApart owner) p₂ := h₁.tail ⟨_, hC, hstep⟩
  have hstays := (submitted_run hp₂ h₂ (submitted_of_reached hp₂)).2
  cases a with
  | commit e =>
    have hd : p₁.shared.doubles c = false := by simpa [committing, hacts.pending] using hC.2
    exact ⟨_, _, e, hacts.answered, submissions_pending h₁ hacts.pending, hd,
      submitted_of_reached h₁, hstays⟩
  | fail exc => exact hC.1.elim
  | _ => cases hacts.answered

lemma findScheduled_event (h : p.Reached (SubmitsApart owner)) {pid : ℕ} {job : String}
    {key : Option String} {y : Except Exc (Option JobRow)}
    (hsaid : (⟨.db (.findScheduled job key), y⟩ : Σ r : Req, Except Exc r.Reply) ∈
      Pool.said pid p.log) :
    ∃ o, y = .ok o ∧
      ∀ j, o = some j → p.shared.jobs.get? j.id = some j ∧ Maintains job key j := by
  obtain ⟨db, db', e, hx, -, -, hdb, hstays⟩ := schedule_event h hsaid
  cases hx
  obtain ⟨o, ho, -, hsome⟩ := scalarOneOrNone_select (t := db.jobs) (q := Maintains job key)
    fun j hj j' hj' hm hm' => hdb.one job key j hj j' hj' hm hm'
  refine ⟨o, ho, fun j hj => ?_⟩
  obtain ⟨hget, hm⟩ := hsome j hj
  exact ⟨hstays _ _ hget, hm⟩

lemma insertJob_event (h : p.Reached (SubmitsApart owner)) {pid : ℕ} {spec : JobSpec}
    {y : Except Exc JobRow}
    (hsaid : (⟨.db (.insertJob spec), y⟩ : Σ r : Req, Except Exc r.Reply) ∈ Pool.said pid p.log) :
    ∃ j, y = .ok j ∧ p.shared.jobs.get? j.id = some j ∧ Maintains spec.job spec.idempotencyKey j := by
  obtain ⟨db, db', e, hx, hc, hd, hdb, hstays⟩ := schedule_event h hsaid
  rcases insertJob_spec hx with ⟨htaken, -, -⟩ | ⟨-, rfl, jobs, hjobs, rfl⟩
  · exact absurd htaken (hdb.not_refused hc.2 hd)
  · exact ⟨spec.row e, rfl, hstays _ _ (Table.get?_insert_self hjobs), rfl, hc.1, rfl⟩

lemma schedule_returns (h : p.Reached (SubmitsApart owner)) {pid : ℕ} {spec : JobSpec}
    {v : Except Exc JobRow} (hend : p.ScheduleEnded pid spec v) : ∃ j, v = .ok j ∧
      p.shared.jobs.get? j.id = some j ∧ Maintains spec.job spec.idempotencyKey j := by
  obtain ⟨-, hends⟩ := hend
  unfold JobManager.schedule at hends
  rcases Prog.ends_call_bind hends with ⟨exc, hsaid, rfl⟩ | ⟨found, l, hsaid, hrest⟩
  · obtain ⟨o, ho, -⟩ := findScheduled_event h (by rw [hsaid]; exact List.mem_cons_self)
    cases ho
  cases found with
  | some j =>
    obtain ⟨rfl, rfl⟩ := Prog.ends_ret.1 hrest
    obtain ⟨o, ho, hj⟩ := findScheduled_event h (by rw [hsaid]; exact List.mem_cons_self)
    cases ho
    exact ⟨j, rfl, hj j rfl⟩
  | none =>
    rw [Prog.ends_call.1 hrest] at hsaid
    have hinsert : (⟨.db (.insertJob { spec with source := .scheduled, priority := 0 }), v⟩ :
        Σ r : Req, Except Exc r.Reply) ∈ Pool.said pid p.log := by
      rw [hsaid]
      exact List.mem_cons_of_mem _ List.mem_cons_self
    obtain ⟨j, hj, hget, hm⟩ := insertJob_event h hinsert
    exact ⟨j, hj, hget, hm⟩

end

/-- **Scheduling is idempotent while inserts do not overtake each other.** As long as no insert of
`schedule` commits when the job is there already, there is one maintained job for a class and a key,
and every call of `schedule` returns it. -/
theorem schedule_idempotent {owner : String → Option String} {p : System}
    (h : p.Reached (SubmitsApart owner)) :
    OneMaintained p.shared ∧
    ∀ pid spec v, p.ScheduleEnded pid spec v → ∃ j, v = .ok j ∧
      p.shared.jobs.get? j.id = some j ∧ Maintains spec.job spec.idempotencyKey j :=
  ⟨(submitted_of_reached h).one, fun _ _ _ hend => schedule_returns h hend⟩

/-- A job without a key, and one with a key. -/
def keyless : JobSpec where
  job := "m.J"

def keyed : JobSpec where
  job := "m.J"
  idempotencyKey := some "k"

/-- One client schedules, and then another one. -/
def inTurn (spec : JobSpec) : List Act :=
  .spawn (.schedule spec) :: .spawn (.schedule spec) :: commits 0 2 0 ++ commits 1 1 1

theorem schedule_idempotent_inTurn : ∃ p : System,
    System.init.play (SubmitsApart fun _ => none) (inTurn keyless) = some p ∧
    ∃ v, p.ScheduleEnded 1 keyless v ∧ ∃ j, v = .ok j ∧
      p.shared.jobs.get? j.id = some j ∧ Maintains keyless.job keyless.idempotencyKey j := by
  have hall : ((System.init.play (SubmitsApart fun _ => none) (inTurn keyless)).map
      fun p => (p.kind? 1, Pool.said 1 p.log)) = some (some (.schedule keyless),
        [⟨.db (.findScheduled "m.J" none),
          .ok (some (JobSpec.row { keyless with source := .scheduled } { now := 0 }))⟩]) := by
    rfl
  obtain ⟨p, hp, hend⟩ := Option.map_eq_some_iff.1 hall
  obtain ⟨hkind, hsaid⟩ := Prod.mk.inj hend
  have hended : p.ScheduleEnded 1 keyless
      (.ok (JobSpec.row { keyless with source := .scheduled } { now := 0 })) :=
    ⟨hkind, hsaid ▸ .ask (.ret _)⟩
  exact ⟨p, hp, _, hended, (schedule_idempotent (Pool.run_of_play hp)).2 1 keyless _ hended⟩

/-- Two clients schedule. Both look the job up before either inserts it. -/
def overlapping (spec : JobSpec) : List Act :=
  .spawn (.schedule spec) :: .spawn (.schedule spec) :: commits 0 1 0 ++ commits 1 1 0 ++
  commits 0 1 1 ++ commits 1 1 2

/-- Then a third one does. -/
def thirdCaller (spec : JobSpec) : List Act :=
  overlapping spec ++ .spawn (.schedule spec) :: commits 2 1 3

/-- Two clients that overlap and have no key insert the job twice, and the next one raises; if they
have a key, the second one of them raises. -/
theorem schedule_not_idempotent :
    (∃ p : System, System.init.play (fun _ => Submits fun _ => none) (thirdCaller keyless) = some p ∧
      ¬ OneMaintained p.shared ∧ p.ScheduleEnded 2 keyless (.error .multipleResultsFound)) ∧
    ∃ p : System, System.init.play (fun _ => Submits fun _ => some "m.J") (overlapping keyed) =
      some p ∧ p.ScheduleEnded 1 keyed (.error DB.duplicateKey) := by
  constructor
  · have hall : ((System.init.play (fun _ => Submits fun _ => none) (thirdCaller keyless)).map
        fun p => (p.kind? 2, Pool.said 2 p.log, p.shared.jobs.rows)) = some (some (.schedule keyless),
          [⟨.db (.findScheduled "m.J" none), .error .multipleResultsFound⟩],
          [JobSpec.row { keyless with source := .scheduled } { now := seconds 1, jobId := 1 },
            JobSpec.row { keyless with source := .scheduled } { now := seconds 2, jobId := 2 }]) := by
      rfl
    obtain ⟨p, hp, hend⟩ := Option.map_eq_some_iff.1 hall
    obtain ⟨hkind, hrest⟩ := Prod.mk.inj hend
    obtain ⟨hsaid, hrows⟩ := Prod.mk.inj hrest
    refine ⟨p, hp, fun hone => ?_, hkind, hsaid ▸ .ask (.ret _)⟩
    have heq := hone "m.J" none _ (hrows ▸ List.mem_cons_self) _
      (hrows ▸ List.mem_cons_of_mem _ List.mem_cons_self) ⟨rfl, rfl, rfl⟩ ⟨rfl, rfl, rfl⟩
    exact absurd (congrArg JobRow.id heq) (by decide)
  · have hall : ((System.init.play (fun _ => Submits fun _ => some "m.J") (overlapping keyed)).map
        fun p => (p.kind? 1, Pool.said 1 p.log)) = some (some (.schedule keyed),
          [⟨.db (.findScheduled "m.J" (some "k")), .ok none⟩,
            ⟨.db (.insertJob { keyed with source := .scheduled }), .error DB.duplicateKey⟩]) := by
      rfl
    obtain ⟨p, hp, hend⟩ := Option.map_eq_some_iff.1 hall
    obtain ⟨hkind, hsaid⟩ := Prod.mk.inj hend
    exact ⟨p, hp, hkind, hsaid ▸ .ask (.ask (.ret _))⟩

end Pyreljob
