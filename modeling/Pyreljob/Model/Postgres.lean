import Pyreljob.Model.Worker

/-!
The claim of `pyreljob/backends/postgres.py`, the one method in which the dialects differ.

It is one transaction. The rows that it selects are locked until its end, so the `UPDATE` asks for
nothing but the key; rows that others have locked are skipped.
-/

namespace Pyreljob

open Lib

namespace PostgresBackend

/-- The rows that the `SELECT ... FOR UPDATE SKIP LOCKED` of `claim` ranges over, in its order. The
queue is asked for last, where one is given. -/
def candidates (db : DB) (queue : Option String) (now leaseExpiry : Time) : List (RunRow × JobRow) :=
  let joined := db.runs.rows.filterMap fun r => (db.jobs.get? r.jobId).map fun j => (r, j)
  let ready := joined.filter fun x => x.2.status = .active ∧ DB.Claimable now leaseExpiry x.1
  let queued := match queue with
    | none => ready
    | some q => if q = "" then ready else ready.filter fun x => x.2.queue = q
  queued.insertionSort DB.ClaimBefore

/-- `claim`, with the runs that others have locked. -/
def claim (db : DB) (locked : ℕ → Bool) (workerId : String) (queue : Option String)
    (now leaseExpiry : Time) : DB × Option RunRow :=
  match (candidates db queue now leaseExpiry).find? fun x => !locked x.1.id with
  | none => (db, none)
  | some (r, _) =>
    let db' := { db with
      runs := db.runs.update (fun r' => r'.id = r.id) (DB.claimed workerId now)
        (DB.key_claimed workerId now) }
    (db', db'.runs.get? r.id)

end PostgresBackend

end Pyreljob
