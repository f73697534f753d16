import Pyreljob.Model.System
import Pyreljob.Store.Integrity

/-!
Clients that race for a key.

`enqueue` and `schedule` look a job up, and insert it in another transaction if it was not there. In
between another client may have inserted one. `enqueue` leaves that to the unique index on the key,
and looks again when the index refuses the row; `schedule` does neither.
-/

namespace Pyreljob

open Lib

/-! ### Lookups -/

/-- A lookup that at most one row matches finds the row, if there is one. -/
lemma scalarOneOrNone_select {α : Type} [Keyed α] {t : Table α} {q : α → Prop} [DecidablePred q]
    (hone : ∀ r ∈ t.rows, ∀ r' ∈ t.rows, q r → q r' → r = r') :
    ∃ o, scalarOneOrNone (t.select q) = .ok o ∧ (o = none → ∀ r ∈ t.rows, ¬ q r) ∧
      ∀ r, o = some r → t.get? (Keyed.key r) = some r ∧ q r := by
  have hrow : ∀ r ∈ t.select q, r ∈ t.rows ∧ q r := by
    intro r hr
    obtain ⟨hget, hq⟩ := Table.mem_select.1 hr
    exact ⟨Table.mem_of_get? hget, hq⟩
  match hs : t.select q with
  | [] =>
    refine ⟨none, rfl, fun _ r hr hq => ?_, nofun⟩
    have hm : r ∈ t.select q := Table.mem_select.2 ⟨Table.get?_of_mem hr, hq⟩
    rw [hs] at hm
    cases hm
  | [r] =>
    refine ⟨some r, rfl, nofun, fun r' hr' => ?_⟩
    obtain rfl := Option.some.inj hr'
    exact Table.mem_select.1 (by rw [hs]; exact List.mem_singleton_self r)
  | r :: r' :: l =>
    have hr := hrow r (by simp [hs])
    have hr' := hrow r' (by simp [hs])
    have heq := hone r hr.1 r' hr'.1 hr.2 hr'.2
    have hnodup : ((t.select q).map Keyed.key).Nodup := t.nodup.sublist (List.filter_sublist.map _)
    rw [hs, heq] at hnodup
    simp at hnodup

lemma keyTaken_iff {db : DB} {key : Option String} :
    db.keyTaken key ↔ ∃ k, key = some k ∧ ∃ job ∈ db.jobs.rows, job.idempotencyKey = some k := by
  cases key with
  | none => simp [DB.keyTaken]
  | some k => simp [DB.keyTaken]

/-- The insert of `enqueue` is refused for its key, or adds a job and a run. -/
lemma insertJobAndRun_spec {db db' : DB} {e : Env} {spec : JobSpec} {t : Option Time}
    {y : Except Exc JobRow} (h : db.insertJobAndRun e spec t = some (db', y)) :
    (db.keyTaken spec.idempotencyKey ∧ db' = db ∧ y = .error DB.duplicateKey) ∨
      (¬ db.keyTaken spec.idempotencyKey ∧ y = .ok (spec.row e) ∧ ∃ jobs runs,
        db.jobs.insert (spec.row e) = some jobs ∧
        db.runs.insert (newRun e e.jobId t) = some runs ∧
        db' = { db with jobs := jobs, runs := runs }) := by
  unfold DB.insertJobAndRun at h
  split at h
  · rename_i hk
    cases h
    exact .inl ⟨hk, rfl, rfl⟩
  · rename_i hk
    simp only [Option.bind_eq_bind, Option.bind_eq_some_iff, Option.some.injEq, Prod.mk.injEq] at h
    obtain ⟨jobs, hj, runs, hr, rfl, rfl⟩ := h
    exact .inr ⟨hk, rfl, jobs, runs, hj, hr, rfl⟩

/-- The insert of `schedule` is refused for its key, or adds a job. -/
lemma insertJob_spec {db db' : DB} {e : Env} {spec : JobSpec} {y : Except Exc JobRow}
    (h : db.insertJob e spec = some (db', y)) :
    (db.keyTaken spec.idempotencyKey ∧ db' = db ∧ y = .error DB.duplicateKey) ∨
      (¬ db.keyTaken spec.idempotencyKey ∧ y = .ok (spec.row e) ∧ ∃ jobs,
        db.jobs.insert (spec.row e) = some jobs ∧ db' = { db with jobs := jobs }) := by
  unfold DB.insertJob at h
  split at h
  · rename_i hk
    cases h
    exact .inl ⟨hk, rfl, rfl⟩
  · rename_i hk
    simp only [Option.bind_eq_bind, Option.bind_eq_some_iff, Option.some.injEq, Prod.mk.injEq] at h
    obtain ⟨jobs, hj, rfl, rfl⟩ := h
    exact .inr ⟨hk, rfl, jobs, hj, rfl⟩

/-- Each key is that of one job at most. -/
def OnePerKey (db : DB) : Prop :=
  ∀ job ∈ db.jobs.rows, ∀ job' ∈ db.jobs.rows, ∀ key,
    job.idempotencyKey = some key → job'.idempotencyKey = some key → job = job'

lemma OnePerKey.insert {db db' : DB} {spec : JobSpec} {e : Env} (h : OnePerKey db)
    (hk : ¬ db.keyTaken spec.idempotencyKey) {jobs : Table JobRow}
    (hjobs : db.jobs.insert (spec.row e) = some jobs) (hdb' : db'.jobs = jobs) : OnePerKey db' := by
  intro job hjob job' hjob' key hkey hkey'
  rw [hdb', Table.rows_insert hjobs, List.mem_append, List.mem_singleton] at hjob hjob'
  rcases hjob with hjob | rfl <;> rcases hjob' with hjob' | rfl
  · exact h job hjob job' hjob' key hkey hkey'
  · exact absurd (keyTaken_iff.2 ⟨key, hkey', job, hjob, hkey⟩) hk
  · exact absurd (keyTaken_iff.2 ⟨key, hkey, job', hjob', hkey'⟩) hk
  · rfl

/-! ### Enqueueing -/

/-- The database while clients enqueue. -/
structure Enqueued (db : DB) : Prop where
  keys : OnePerKey db
  /-- Each job has one run. -/
  runs : ∀ job ∈ db.jobs.rows, ∃ r, (db.runs.select fun r => r.jobId = job.id) = [r]
  refs : Integrity db

def Enqueues : Req → Prop
  | .db (.findByIdempotencyKey _) | .db (.insertJobAndRun ..) => True
  | _ => False

section

variable {db db' : DB} {e : Env} {c : Call} {y : Except Exc c.Reply}

lemma enqueued_empty : Enqueued {} where
  keys := by
    intro job hjob
    cases hjob
  runs := by
    intro job hjob
    cases hjob
  refs := integrity_empty

/-- **What an enqueue leaves**: every job has its run, and a job that was there is there. -/
lemma Enqueued.step (h : Enqueued db) (hc : Enqueues (.db c)) (hx : c.exec db e = some (db', y)) :
    Enqueued db' ∧ ∀ i job, db.jobs.get? i = some job → db'.jobs.get? i = some job := by
  cases c with
  | findByIdempotencyKey key =>
    cases hx
    exact ⟨h, fun _ _ hjob => hjob⟩
  | insertJobAndRun spec t =>
    rcases insertJobAndRun_spec hx with ⟨-, rfl, -⟩ | ⟨hk, -, jobs, runs, hjobs, hruns, rfl⟩
    · exact ⟨h, fun _ _ hjob => hjob⟩
    · refine ⟨⟨h.keys.insert hk hjobs rfl, fun job hjob => ?_, h.refs.step hx rfl⟩,
        fun i job hjob => Table.get?_insert_stays hjobs hjob⟩
      rw [Table.rows_insert hjobs, List.mem_append, List.mem_singleton] at hjob
      rw [Table.select_insert hruns]
      have hfree : db.jobs.get? e.jobId = none := Table.get?_insert_key hjobs
      rcases hjob with hjob | rfl
      · -- the new run is that of the new job
        have hne : e.jobId ≠ job.id := by
          intro heq
          have hget : db.jobs.get? job.id = some job := Table.get?_of_mem hjob
          rw [← heq, hfree] at hget
          cases hget
        obtain ⟨r, hr⟩ := h.runs job hjob
        exact ⟨r, by simp [hr, newRun, hne]⟩
      · have hnone : (db.runs.select fun r => r.jobId = e.jobId) = [] := by
          refine List.eq_nil_iff_forall_not_mem.2 fun r hr => ?_
          obtain ⟨hget, hj⟩ := Table.mem_select.1 hr
          have := h.refs.job_of_run hget
          rw [hj, hfree] at this
          cases this
        have hnew : (newRun e e.jobId t).jobId = (spec.row e).id := rfl
        refine ⟨newRun e e.jobId t, ?_⟩
        rw [if_pos hnew]
        exact congrArg (· ++ [newRun e e.jobId t]) hnone
  | _ => exact hc.elim

end

def Kind.isEnqueue : Kind → Bool
  | enqueue .. => true
  | _ => false

/-- Clients enqueue, and nothing else happens; no transaction fails but by the index. -/
def EnqueuesOnly (_ : System) : Act → Prop
  | .spawn k => k.isEnqueue
  | .act _ (.fail _) => False
  | _ => True

instance (p : System) : (l : Act) → Decidable (EnqueuesOnly p l)
  | .spawn k => inferInstanceAs (Decidable (k.isEnqueue = true))
  | .act _ (.fail _) => .isFalse id
  | .crash _ | .act _ (.commit _) | .act _ (.time _) | .act _ (.lastClaim _) | .act _ (.ran _ _)
  | .act _ (.undone _ _) | .act _ (.next _) => .isTrue trivial

lemma enqueue_asks (spec : JobSpec) (scheduledAt : Option Time) :
    (Kind.enqueue spec scheduledAt).program.Asks Enqueues := by
  refine Prog.Within.bind ?_ fun _ => .ret _
  unfold JobManager.enqueue
  dsimp only
  split
  · exact Prog.Asks.last trivial
  · refine Prog.Asks.ask trivial fun existing => ?_
    cases existing with
    | some existing => exact .ret _
    | none =>
      refine .tryCatch (Prog.Asks.last trivial) fun exc => ?_
      cases exc with
      | integrityError msg =>
        refine Prog.Asks.ask trivial fun existing => ?_
        cases existing <;> exact .ret _
      | _ => exact .ret _

/-- The call of `enqueue` that the process was started as has ended with `v`. -/
def System.EnqueueEnded (p : System) (pid : ℕ) (spec : JobSpec) (v : Except Exc JobRow) : Prop :=
  ∃ t, p.kind? pid = some (.enqueue spec t) ∧
    (JobManager.enqueue spec t).Ends (Pool.said pid p.log) v

section

variable {p q : System}

lemma enqueued_run (h : p.Reached EnqueuesOnly) (hpq : System.Run EnqueuesOnly p q)
    (hp : Enqueued p.shared) :
    Enqueued q.shared ∧ ∀ i job, p.shared.jobs.get? i = some job → q.shared.jobs.get? i = some job := by
  induction hpq with
  | refl => exact ⟨hp, fun _ _ hjob => hjob⟩
  | @tail q₁ q₂ hrun hmove ih =>
    obtain ⟨hq, hstays⟩ := ih
    obtain ⟨l, -, hstep⟩ := hmove
    rcases System.step_cases hstep with hsame | ⟨pid, c, e, y, -, hasks, hx, -⟩
    · rw [hsame]
      exact ⟨hq, hstays⟩
    · have hc : Enqueues (.db c) := by
        refine Pool.asks_of_run (fun p k hk => ?_) (h.trans hrun) rfl hasks
        cases k with
        | enqueue spec t => exact enqueue_asks spec t
        | _ => cases hk
      obtain ⟨hq', hstays'⟩ := hq.step hc hx
      exact ⟨hq', fun i job hjob => hstays' i job (hstays i job hjob)⟩

lemma enqueued_of_reached (h : p.Reached EnqueuesOnly) : Enqueued p.shared :=
  (enqueued_run .refl h enqueued_empty).1

lemma enqueue_answered (h : p.Reached EnqueuesOnly) {pid : ℕ} {c : Call} {a : Answer}
    {y : Except Exc c.Reply} {db db' : DB} (hev : (⟨pid, .db c, a, y, db, db'⟩ : Ev) ∈ p.log) :
    ∃ e, c.exec db e = some (db', y) := by
  obtain ⟨l₁, l₂, hlog⟩ := List.append_of_mem hev
  obtain ⟨p₁, p₂, f, -, hC, -, hacts, -, -, rfl, -, rfl⟩ := Pool.event_step h rfl hlog
  cases a with
  | commit e => exact ⟨e, hacts.answered⟩
  | fail exc => exact hC.elim
  | _ => cases hacts.answered

/-- What a client was told is what the database says, then and now. -/
lemma enqueue_event (h : p.Reached EnqueuesOnly) {pid : ℕ} {c : Call} {y : Except Exc c.Reply}
    (hsaid : (⟨.db c, y⟩ : Σ r : Req, Except Exc r.Reply) ∈ Pool.said pid p.log) :
    ∃ db db' e, c.exec db e = some (db', y) ∧ Enqueued db ∧
      ∀ i job, db'.jobs.get? i = some job → p.shared.jobs.get? i = some job := by
  obtain ⟨⟨pid', r, a, y', db, db'⟩, hev, rfl, heq⟩ := Pool.mem_of_said hsaid
  cases heq
  obtain ⟨l₁, l₂, hlog⟩ := List.append_of_mem hev
  obtain ⟨p₁, p₂, f, h₁, hC, hstep, hacts, h₂, -, rfl, -, rfl⟩ := Pool.event_step h rfl hlog
  have hp₂ : System.Reached EnqueuesOnly p₂ := h₁.tail ⟨_, hC, hstep⟩
  obtain ⟨e, hx⟩ := enqueue_answered h hev
  exact ⟨_, _, e, hx, enqueued_of_reached h₁, (enqueued_run hp₂ h₂ (enqueued_of_reached hp₂)).2⟩

lemma findByIdempotencyKey_event (h : p.Reached EnqueuesOnly) {pid : ℕ} {key : String}
    {y : Except Exc (Option JobRow)}
    (hsaid : (⟨.db (.findByIdempotencyKey key), y⟩ : Σ r : Req, Except Exc r.Reply) ∈
      Pool.said pid p.log) :
    ∃ o, y = .ok o ∧
      ∀ job, o = some job → p.shared.jobs.get? job.id = some job ∧ job.idempotencyKey = some key := by
  obtain ⟨db, db', e, hx, hdb, hstays⟩ := enqueue_event h hsaid
  cases hx
  obtain ⟨o, ho, -, hsome⟩ := scalarOneOrNone_select (t := db.jobs)
    (q := fun j => j.idempotencyKey = some key)
    fun job hjob job' hjob' hk hk' => hdb.keys job hjob job' hjob' key hk hk'
  refine ⟨o, ho, fun job hjob => ?_⟩
  obtain ⟨hget, hk⟩ := hsome job hjob
  exact ⟨hstays _ _ hget, hk⟩

lemma insertJobAndRun_event (h : p.Reached EnqueuesOnly) {pid : ℕ} {spec : JobSpec}
    {t : Option Time} {y : Except Exc JobRow}
    (hsaid : (⟨.db (.insertJobAndRun spec t), y⟩ : Σ r : Req, Except Exc r.Reply) ∈
      Pool.said pid p.log) :
    (spec.idempotencyKey.isSome ∧ y = .error DB.duplicateKey) ∨
      ∃ job, y = .ok job ∧ p.shared.jobs.get? job.id = some job ∧
        job.idempotencyKey = spec.idempotencyKey := by
  obtain ⟨db, db', e, hx, hdb, hstays⟩ := enqueue_event h hsaid
  rcases insertJobAndRun_spec hx with ⟨hk, -, rfl⟩ | ⟨-, rfl, jobs, runs, hjobs, -, rfl⟩
  · left
    obtain ⟨k, hk, -⟩ := keyTaken_iff.1 hk
    exact ⟨by simp [hk], rfl⟩
  · right
    exact ⟨spec.row e, rfl, hstays _ _ (Table.get?_insert_self hjobs), rfl⟩

/-- After its insert was refused a client finds the job that has its key. -/
lemma found_again (h : p.Reached EnqueuesOnly) {pid : ℕ} {spec : JobSpec} {t : Option Time}
    {key : String} {exc : Exc} {y : Except Exc (Option JobRow)}
    (l : List (Σ r : Req, Except Exc r.Reply)) {l' : List (Σ r : Req, Except Exc r.Reply)}
    (hsaid : Pool.said pid p.log = l ++ ⟨.db (.insertJobAndRun spec t), .error exc⟩ ::
      ⟨.db (.findByIdempotencyKey key), y⟩ :: l')
    (hkey : spec.idempotencyKey = some key) : y ≠ .ok none := by
  rintro rfl
  obtain ⟨l₁, ⟨pid₁, r₁, a₁, y₁, db₁, db₁'⟩, l₂, ⟨pid₂, r₂, a₂, y₂, db₂, db₂'⟩, l₃, hlog, -, -, heq₁,
    heq₂⟩ := Pool.split_of_said hsaid
  cases heq₁
  cases heq₂
  obtain ⟨q, q', hq, hqq', rfl, rfl, -⟩ := Pool.events_run h rfl hlog
  obtain ⟨e₁, hx₁⟩ := enqueue_answered h (hlog ▸
    List.mem_append_left _ (List.mem_append_right l₁ List.mem_cons_self))
  obtain ⟨e₂, hx₂⟩ := enqueue_answered h (hlog ▸ List.mem_append_right _ List.mem_cons_self)
  rcases insertJobAndRun_spec hx₁ with ⟨htaken, hsame, -⟩ | ⟨-, hok, -⟩
  · obtain ⟨k, hk, job, hjob, hjk⟩ := keyTaken_iff.1 htaken
    obtain rfl : key = k := Option.some.inj (hkey.symm.trans hk)
    have hq' := enqueued_run hq hqq' (enqueued_of_reached hq)
    rw [← hsame] at hjob
    have hstays := hq'.2 _ job (Table.get?_of_mem hjob)
    obtain ⟨o, ho, hnone, -⟩ := scalarOneOrNone_select (t := q'.shared.jobs)
      (q := fun j => j.idempotencyKey = some key)
      fun j hj j' hj' hk hk' => hq'.1.keys j hj j' hj' key hk hk'
    have hfind : q'.shared.findByIdempotencyKey key = .ok none :=
      (Prod.mk.inj (Option.some.inj hx₂)).2
    obtain rfl : o = none := Except.ok.inj (ho.symm.trans hfind)
    exact hnone rfl job (Table.mem_of_get? hstays) hjk
  · cases hok

lemma enqueue_returns (h : p.Reached EnqueuesOnly) {pid : ℕ} {spec : JobSpec} {v : Except Exc JobRow}
    (hend : p.EnqueueEnded pid spec v) : ∃ job, v = .ok job ∧
      p.shared.jobs.get? job.id = some job ∧ job.idempotencyKey = spec.idempotencyKey := by
  obtain ⟨t, -, hends⟩ := hend
  unfold JobManager.enqueue at hends
  dsimp only at hends
  split at hends
  · rename_i hkey
    have hsaid := Prog.ends_call.1 hends
    rcases insertJobAndRun_event h (by rw [hsaid]; exact List.mem_singleton_self _) with
      ⟨hsome, -⟩ | hjob
    · rw [hkey] at hsome
      cases hsome
    · exact hjob
  · rename_i key hkey
    have hfound : ∀ y : Except Exc (Option JobRow),
        (⟨.db (.findByIdempotencyKey key), y⟩ : Σ r : Req, Except Exc r.Reply) ∈
          Pool.said pid p.log → ∃ o, y = .ok o ∧ ∀ job, o = some job →
            p.shared.jobs.get? job.id = some job ∧ job.idempotencyKey = spec.idempotencyKey := by
      intro y hm
      rw [hkey]
      exact findByIdempotencyKey_event h hm
    rcases Prog.ends_call_bind hends with ⟨exc, hsaid, rfl⟩ | ⟨found, l, hsaid, hrest⟩
    · obtain ⟨o, ho, -⟩ := hfound (.error exc) (by simp [hsaid])
      cases ho
    cases found with
    | some job =>
      obtain ⟨rfl, rfl⟩ := Prog.ends_ret.1 hrest
      obtain ⟨o, ho, hjob⟩ := hfound (.ok (some job)) (by simp [hsaid])
      cases ho
      exact ⟨job, rfl, hjob job rfl⟩
    | none =>
      obtain ⟨y, l', rfl, hcaught⟩ := Prog.ends_ask.1 hrest
      rcases insertJobAndRun_event h
          (by rw [hsaid]; exact List.mem_cons_of_mem _ List.mem_cons_self) with
        ⟨-, rfl⟩ | ⟨job, rfl, hjob⟩
      · -- the insert was refused, and the job is looked up again
        rcases Prog.ends_call_bind hcaught with ⟨exc, rfl, rfl⟩ | ⟨found, l, rfl, hagain⟩
        · obtain ⟨o, ho, -⟩ := hfound (.error exc) (by simp [hsaid])
          cases ho
        cases found with
        | some job =>
          obtain ⟨rfl, rfl⟩ := Prog.ends_ret.1 hagain
          obtain ⟨o, ho, hjob⟩ := hfound (.ok (some job)) (by simp [hsaid])
          cases ho
          exact ⟨job, rfl, hjob job rfl⟩
        | none => exact absurd rfl (found_again h [_] hsaid hkey)
      · obtain ⟨rfl, rfl⟩ := Prog.ends_ret.1 hcaught
        exact ⟨job, rfl, hjob⟩

lemma inserted_own (h : p.Reached EnqueuesOnly) {pid : ℕ} {spec : JobSpec} {job : JobRow}
    (hend : p.EnqueueEnded pid spec (.ok job)) (hkey : spec.idempotencyKey = none) :
    ∃ ev ∈ p.log, ev.pid = pid ∧ ev.pre.jobs.get? job.id = none ∧
      ev.post.jobs.get? job.id = some job := by
  obtain ⟨t, -, hends⟩ := hend
  unfold JobManager.enqueue at hends
  dsimp only at hends
  rw [hkey] at hends
  have hsaid := Prog.ends_call.1 hends
  obtain ⟨⟨pid', r, a, y, db, db'⟩, hev, rfl, heq⟩ :=
    Pool.mem_of_said (hsaid ▸ List.mem_singleton_self _)
  cases heq
  refine ⟨_, hev, rfl, ?_⟩
  obtain ⟨e, hx⟩ := enqueue_answered h hev
  rcases insertJobAndRun_spec hx with ⟨-, -, hy⟩ | ⟨-, hy, jobs, runs, hjobs, -, rfl⟩
  · cases hy
  · cases hy
    exact ⟨Table.get?_insert_key hjobs, Table.get?_insert_self hjobs⟩

lemma not_inserted_twice (h : p.Reached EnqueuesOnly) {ev ev' : Ev} (hev : ev ∈ p.log)
    (hev' : ev' ∈ p.log) (hpid : ev.pid ≠ ev'.pid) {job job' : JobRow}
    (hpre : ev.pre.jobs.get? job.id = none) (hpost : ev.post.jobs.get? job.id = some job)
    (hpre' : ev'.pre.jobs.get? job'.id = none) (hpost' : ev'.post.jobs.get? job'.id = some job') :
    job.id ≠ job'.id := by
  have hlater : ∀ {n m : ℕ} {a b : Ev} {j : JobRow}, p.log[n]? = some a → p.log[m]? = some b →
      n < m → a.post.jobs.get? j.id = some j → b.pre.jobs.get? j.id ≠ none := by
    intro n m a b j hn hm hnm ha
    obtain ⟨l₁, l₂, l₃, hlog⟩ := Pool.split_of_getElem? hn hm hnm
    obtain ⟨q, q', hq, hqq', hpost, hpre, -⟩ := Pool.events_run h rfl hlog
    have hstays := (enqueued_run hq hqq' (enqueued_of_reached hq)).2 j.id j (hpost ▸ ha)
    rw [← hpre, hstays]
    nofun
  obtain ⟨n, hn⟩ := List.getElem?_of_mem hev
  obtain ⟨m, hm⟩ := List.getElem?_of_mem hev'
  intro hid
  rcases lt_trichotomy n m with hnm | rfl | hnm
  · exact hlater hn hm hnm hpost (hid ▸ hpre')
  · obtain rfl := Option.some.inj (hn.symm.trans hm)
    exact hpid rfl
  · exact hlater hm hn hnm hpost' (hid ▸ hpre)

end

/-- **Keyed enqueue is exactly-once under races.** However the calls of any number of clients
interleave: none of them raises, and each returns a job with its key, if it has one; a key is that of
one job only; every job has one run; and a call without a key returns a job of its own. -/
theorem enqueue_exactly_once {p : System} (h : p.Reached EnqueuesOnly) :
    (∀ pid spec v, p.EnqueueEnded pid spec v → ∃ job, v = .ok job ∧
      p.shared.jobs.get? job.id = some job ∧ job.idempotencyKey = spec.idempotencyKey) ∧
    OnePerKey p.shared ∧
    (∀ job ∈ p.shared.jobs.rows, ∃ r, (p.shared.runs.select fun r => r.jobId = job.id) = [r]) ∧
    ∀ pid spec job pid' spec' job', p.EnqueueEnded pid spec (.ok job) →
      spec.idempotencyKey = none → p.EnqueueEnded pid' spec' (.ok job') → pid ≠ pid' →
      job.id ≠ job'.id := by
  have hdb := enqueued_of_reached h
  refine ⟨fun pid spec v hend => enqueue_returns h hend, hdb.keys, hdb.runs, ?_⟩
  intro pid spec job pid' spec' job' hend hkey hend' hpid
  cases hkey' : spec'.idempotencyKey with
  | none =>
    obtain ⟨ev, hev, rfl, hpre, hpost⟩ := inserted_own h hend hkey
    obtain ⟨ev', hev', rfl, hpre', hpost'⟩ := inserted_own h hend' hkey'
    exact not_inserted_twice h hev hev' hpid hpre hpost hpre' hpost'
  | some key =>
    obtain ⟨_, hjob, hget, hk⟩ := enqueue_returns h hend
    obtain ⟨_, hjob', hget', hk'⟩ := enqueue_returns h hend'
    cases hjob
    cases hjob'
    intro hid
    rw [hid, hget'] at hget
    cases hget
    rw [hk', hkey', hkey] at hk
    cases hk

/-- Two clients enqueue with the same key. Both look it up before either inserts, and the second
insert is refused. -/
def racedForKey : List Act :=
  .spawn (.enqueue { job := "m.J", idempotencyKey := some "k" } none) ::
  .spawn (.enqueue { job := "m.J", idempotencyKey := some "k" } none) ::
  commits 0 1 0 ++ commits 1 1 0 ++ commits 0 1 1 ++ commits 1 2 2

theorem enqueue_exactly_once_raced : ∃ p : System,
    System.init.play EnqueuesOnly racedForKey = some p ∧ p.lives 0 = false ∧ p.lives 1 = false ∧
    p.shared.jobs.rows.map JobRow.id = [1] ∧
    ∀ job ∈ p.shared.jobs.rows, ∃ r, (p.shared.runs.select fun r => r.jobId = job.id) = [r] := by
  have hall : ((System.init.play EnqueuesOnly racedForKey).any fun p =>
      p.lives 0 = false ∧ p.lives 1 = false ∧ p.shared.jobs.rows.map JobRow.id = [1]) = true := by
    decide
  obtain ⟨p, hp, hend⟩ := (Option.any_eq_true _ _).1 hall
  obtain ⟨h₀, h₁, hrows⟩ := of_decide_eq_true hend
  exact ⟨p, hp, h₀, h₁, hrows, (enqueue_exactly_once (Pool.run_of_play hp)).2.2.1⟩

end Pyreljob
