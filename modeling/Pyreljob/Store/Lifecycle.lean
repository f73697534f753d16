import Mathlib.Logic.Relation
import Pyreljob.Store.Effect

/-!
The life of a run row under any sequence of transactions.

The columns `status`, `worker_id`, `error`, `started_at`, `finished_at` and `locked_at` are written by
ten statements, each its own subset. `Lifecycle` says how they fit together; it holds of a new row,
and every change that `RunStep` lists keeps it.
-/

namespace Pyreljob

open Lib Relation

/-- Some transaction commits, with any arguments, keys and clock readings. -/
def Transaction (db db' : DB) : Prop :=
  ∃ (c : Call) (e : Env) (y : Except Exc c.Reply), c.exec db e = some (db', y)

/-- Reached from the empty migrated database. -/
def Reachable (db : DB) : Prop := ReflTransGen Transaction {} db

/-- A transaction after which the run `i` is still in the table. -/
def TransactionKeeping (i : ℕ) (db db' : DB) : Prop :=
  Transaction db db' ∧ (db'.runs.get? i).isSome

/-- Transactions one after the other. -/
def execAll : DB → List (Call × Env) → Option DB
  | db, [] => some db
  | db, (c, e) :: cs => (c.exec db e).bind fun p => execAll p.1 cs

lemma reachable_execAll {db db' : DB} {cs : List (Call × Env)} (h : execAll db cs = some db') :
    ReflTransGen Transaction db db' := by
  induction cs generalizing db with
  | nil =>
    cases h
    exact .refl
  | cons p cs ih =>
    obtain ⟨⟨db₁, y⟩, hc, hcs⟩ := Option.bind_eq_some_iff.1 h
    exact .head ⟨p.1, p.2, y, hc⟩ (ih hcs)

/-- How the columns of a run row fit together. -/
structure Lifecycle (r : RunRow) : Prop where
  /-- A run is locked exactly while it is running. -/
  locked : r.lockedAt.isSome ↔ r.status = .running
  /-- A run has a finishing time exactly when it is done. -/
  finished : r.finishedAt.isSome ↔ r.status.isDone
  /-- A ready run belongs to nobody. -/
  ready : r.status = .ready → r.workerId = none
  /-- A running run has a worker and was started. -/
  running : r.status = .running → r.workerId.isSome ∧ r.startedAt.isSome
  /-- A run that is running or succeeded carries no error. -/
  noError : r.status = .running ∨ r.status = .succeeded → r.error = none
  /-- A failed run says why. -/
  failed : r.status = .failed → r.error.isSome

lemma lifecycle_newRun (e : Env) (jobId : ℕ) (scheduledAt : Option Time) :
    Lifecycle (newRun e jobId scheduledAt) := by
  constructor <;> simp [newRun, RunStatus.isDone]

lemma lifecycle_claimed {r : RunRow} (h : Lifecycle r) (workerId : String) {now leaseExpiry : Time}
    (hr : DB.Claimable now leaseExpiry r) : Lifecycle (DB.claimed workerId now r) := by
  have hf : r.finishedAt = none := by
    have hd : ¬ r.status.isDone := by
      rcases hr with ⟨hs, -⟩ | ⟨hs, -⟩ <;> simp [hs, RunStatus.isDone]
    simpa using mt h.finished.1 hd
  constructor <;> simp [DB.claimed, hf, RunStatus.isDone]

lemma RunStep.lifecycle {e : Env} {i : ℕ} {c : Call} {o o' : Option RunRow}
    (h : RunStep e i c o o') (ho : ∀ r, o = some r → Lifecycle r) :
    ∀ r, o' = some r → Lifecycle r := by
  cases h with
  | same => exact ho
  | enqueued spec scheduledAt hi =>
    rintro r ⟨⟩
    exact lifecycle_newRun e e.jobId scheduledAt
  | created jobId scheduledAt hi =>
    rintro r ⟨⟩
    exact lifecycle_newRun e jobId scheduledAt
  | claimed r workerId now leaseExpiry hr =>
    rintro _ ⟨⟩
    exact lifecycle_claimed (ho r rfl) workerId hr
  | renewed r workerId hw hr =>
    rintro _ ⟨⟩
    obtain ⟨hl, hf, hre, hru, hn, hfa⟩ := ho r rfl
    exact ⟨by simp [hr], hf, hre, hru, hn, hfa⟩
  | completed r result hr =>
    rintro _ ⟨⟩
    have := (ho r rfl).noError (.inl hr)
    constructor <;> simp [this, RunStatus.isDone]
  | retried r error t hr =>
    rintro _ ⟨⟩
    constructor <;> simp [RunStatus.isDone]
  | failed r error hr =>
    rintro _ ⟨⟩
    constructor <;> simp [RunStatus.isDone]
  | cancelled r =>
    rintro _ ⟨⟩
    constructor <;> simp [RunStatus.isDone]
  | jobCancelled r hr =>
    rintro _ ⟨⟩
    constructor <;> simp [RunStatus.isDone]
  | swept r now cutoff progressCutoff hr =>
    rintro _ ⟨⟩
    have hl : r.lockedAt = none := by
      have hd : ¬ r.status = .running := by simp [hr.1]
      simpa using mt (ho r rfl).locked.1 hd
    constructor <;> simp [hl, RunStatus.isDone]
  | ctxSet r ctx =>
    rintro _ ⟨⟩
    obtain ⟨hl, hf, hre, hru, hn, hfa⟩ := ho r rfl
    exact ⟨hl, hf, hre, hru, hn, hfa⟩
  | progressSet r progress =>
    rintro _ ⟨⟩
    obtain ⟨hl, hf, hre, hru, hn, hfa⟩ := ho r rfl
    exact ⟨hl, hf, hre, hru, hn, hfa⟩
  | jobDeleted | pruned => rintro r ⟨⟩

lemma RunStep.startedAt {e : Env} {i : ℕ} {c : Call} {o o' : Option RunRow}
    (h : RunStep e i c o o') {r r' : RunRow} {t : Time} (hr : o = some r) (hr' : o' = some r')
    (ht : r.startedAt = some t) : r'.startedAt = some t := by
  cases h with
  | same => rwa [← Option.some.inj (hr.symm.trans hr')]
  | claimed =>
    cases hr
    cases hr'
    simp [DB.claimed, ht]
  | enqueued | created => cases hr
  | jobDeleted | pruned => cases hr'
  | _ =>
    cases hr
    cases hr'
    exact ht

lemma transaction_lifecycle {db db' : DB} (h : Transaction db db')
    (hl : ∀ r ∈ db.runs.rows, Lifecycle r) : ∀ r ∈ db'.runs.rows, Lifecycle r := by
  obtain ⟨c, e, y, hc⟩ := h
  intro r hr
  refine (exec_run hc r.id).lifecycle (fun r' hr' => hl r' (Table.mem_of_get? hr')) r ?_
  exact Table.get?_of_mem hr

lemma startedAt_of_keeping {db db' : DB} {i : ℕ} (h : ReflTransGen (TransactionKeeping i) db db')
    {r : RunRow} {t : Time} (hr : db.runs.get? i = some r) (ht : r.startedAt = some t) :
    ∃ r', db'.runs.get? i = some r' ∧ r'.startedAt = some t := by
  induction h with
  | refl => exact ⟨r, hr, ht⟩
  | tail _ hstep ih =>
    obtain ⟨r₁, hr₁, ht₁⟩ := ih
    obtain ⟨⟨c, e, y, hc⟩, hkept⟩ := hstep
    obtain ⟨r', hr'⟩ := Option.isSome_iff_exists.1 hkept
    exact ⟨r', hr', (exec_run hc i).startedAt hr₁ hr' ht₁⟩

/-- **Run-row lifecycle.** In every reachable database every run row has its columns in order, and a
starting time that is set stays as it is for as long as the row is there. -/
theorem reachable_lifecycle {db : DB} (h : Reachable db) :
    (∀ r ∈ db.runs.rows, Lifecycle r) ∧
      ∀ (i : ℕ) (db' : DB) (r : RunRow) (t : Time), ReflTransGen (TransactionKeeping i) db db' →
        db.runs.get? i = some r → r.startedAt = some t →
          ∃ r', db'.runs.get? i = some r' ∧ r'.startedAt = some t := by
  refine ⟨?_, fun i db' r t hk hr ht => startedAt_of_keeping hk hr ht⟩
  induction h with
  | refl => simp [Table.empty]
  | tail _ hstep ih => exact transaction_lifecycle hstep ih

/-- A job is enqueued and its run claimed at 5; a failed attempt then leaves the starting time. -/
theorem reachable_lifecycle_retried :
    ∃ db db' : DB, execAll {} [(.insertJobAndRun { job := "m.J" } none, { now := 3 }),
        (.claimRun 0 "w" 5 0, { now := 5 })] = some db ∧
      execAll db [(.failRun 0 "E: x" (some 9), { now := 7 })] = some db' ∧
      (∀ r ∈ db.runs.rows, Lifecycle r) ∧
      ∃ r', db'.runs.get? 0 = some r' ∧ r'.startedAt = some 5 := by
  obtain ⟨db, hdb⟩ : ∃ db, execAll {} [(.insertJobAndRun { job := "m.J" } none, { now := 3 }),
      (.claimRun 0 "w" 5 0, { now := 5 })] = some db := ⟨_, rfl⟩
  have h := reachable_lifecycle (reachable_execAll hdb)
  cases hdb
  refine ⟨_, _, rfl, rfl, h.1, h.2 0 _ _ 5 (.single ⟨?_, ?_⟩) rfl rfl⟩
  · exact ⟨.failRun 0 "E: x" (some 9), { now := 7 }, _, rfl⟩
  · rfl

end Pyreljob
