import Pyreljob.System.Execution

/-!
Who fires a job, and when, read off the log.

A beat fires a job in two transactions: it wins `claim_scheduled`, and then it creates the run. A win
is fresh for as long as the job, which it has stamped, does not look orphaned to any beat; this needs
one clock for all, which is the sequence of the readings in the log.
-/

namespace Pyreljob

open Lib

/-! ### The clock -/

/-- The reading of the clock that a request with this answer has taken. -/
def readingIn : Req → Answer → Option Time
  | .db _, .commit e => some e.now
  | .now, .time t => some t
  | _, _ => none

/-- The last reading of the clock. -/
def clock (log : List Ev) : Option Time :=
  (log.filterMap fun ev => readingIn ev.req ev.ans).getLast?

lemma clock_concat (log : List Ev) (ev : Ev) :
    clock (log ++ [ev]) = (readingIn ev.req ev.ans).or (clock log) := by
  unfold clock
  cases h : readingIn ev.req ev.ans <;> simp [List.filterMap_append, h]

def Past (log : List Ev) (t : Time) : Prop := ∃ n, clock log = some n ∧ t ≤ n

def Before (log : List Ev) (t : Time) : Prop := ∀ n, clock log = some n → n < t

def runsBack (p : System) : Act → Bool
  | .act _ (.commit e) => (clock p.log).any (e.now < ·)
  | .act pid (.time t) =>
    match p.pending pid with
    | some .now => (clock p.log).any (t < ·)
    | _ => false
  | _ => false

lemma clock_le_commit {p : System} {pid : ℕ} {e : Env}
    (h : runsBack p (.act pid (.commit e)) = false) {n : Time} (hn : clock p.log = some n) :
    n ≤ e.now := by
  simpa [runsBack, hn] using h

section Event

variable {log : List Ev} {ev : Ev} {t : Time}

/-- What has happened stays in the past, if the clock does not run back. -/
lemma Past.concat (h : Past log t)
    (hev : ∀ s, readingIn ev.req ev.ans = some s → ∀ n, clock log = some n → n ≤ s) :
    Past (log ++ [ev]) t := by
  obtain ⟨n, hn, hle⟩ := h
  cases hs : readingIn ev.req ev.ans with
  | none => exact ⟨n, by simp [clock_concat, hs, hn], hle⟩
  | some s => exact ⟨s, by simp [clock_concat, hs], hle.trans (hev s hs n hn)⟩

lemma Before.of_concat (h : Before (log ++ [ev]) t)
    (hev : ∀ s, readingIn ev.req ev.ans = some s → ∀ n, clock log = some n → n ≤ s) :
    Before log t := by
  intro n hn
  cases hs : readingIn ev.req ev.ans with
  | none => exact h n (by simp [clock_concat, hs, hn])
  | some s => exact (hev s hs n hn).trans_lt (h s (by simp [clock_concat, hs]))

end Event

/-! ### Wins -/

/-- The job that a request with this reply has won, and when. -/
def winIn : (r : Req) → Answer → Except Exc r.Reply → Option (ℕ × Time)
  | .db (.claimScheduled jobId _), .commit e, .ok true => some (jobId, e.now)
  | _, _, _ => none

/-- The job that an event has won, and when. -/
def winOf (ev : Ev) : Option (ℕ × Time) := winIn ev.req ev.ans ev.reply

def lastWin (pid : ℕ) (log : List Ev) : Option (ℕ × Time) :=
  ((log.filter fun ev => ev.pid = pid).filterMap winOf).getLast?

def refired (jobId pid : ℕ) (log : List Ev) : Bool :=
  log.foldl (fun was ev =>
    !((claimOf ev).any fun c => c.pid = pid) && (was || (winOf ev).any fun w => w.1 = jobId)) false

lemma winIn_error (c : Call) (a : Answer) (exc : Exc) : winIn (.db c) a (.error exc) = none := by
  cases c <;> cases a <;> rfl

lemma winIn_ask {r : Req} {a : Answer} {y : Except Exc r.Reply} (hr : ∀ c, r ≠ .db c) :
    winIn r a y = none := by
  cases r with
  | db c => exact absurd rfl (hr c)
  | _ => rfl

lemma lastWin_concat (pid : ℕ) (log : List Ev) (ev : Ev) :
    lastWin pid (log ++ [ev]) = if ev.pid = pid then (winOf ev).or (lastWin pid log)
      else lastWin pid log := by
  unfold lastWin
  by_cases hp : ev.pid = pid
  · cases h : winOf ev <;> simp [List.filter_append, List.filterMap_append, hp, h]
  · simp [List.filter_append, hp]

lemma refired_concat (jobId pid : ℕ) (log : List Ev) (ev : Ev) :
    refired jobId pid (log ++ [ev]) = (!((claimOf ev).any fun c => c.pid = pid) &&
      (refired jobId pid log || (winOf ev).any fun w => w.1 = jobId)) := by
  simp [refired, List.foldl_append]

lemma winIn_commit {db db' : DB} {e : Env} {c : Call} {y : Except Exc c.Reply} {j : ℕ} {t : Time}
    (hx : c.exec db e = some (db', y)) (h : winIn (.db c) (.commit e) y = some (j, t)) :
    ∃ nextRunAt job, c = .claimScheduled j nextRunAt ∧ t = e.now ∧ db.jobs.get? j = some job ∧
      db.Fires e.now job ∧ db'.runs = db.runs ∧
      db'.jobs.get? j = some { job with nextRunAt := nextRunAt, updatedAt := some e.now } := by
  cases c with
  | claimScheduled j' nextRunAt =>
    simp only [Call.exec, Option.some.injEq, Prod.mk.injEq] at hx
    obtain ⟨rfl, rfl⟩ := hx
    simp only [winIn] at h
    split at h
    · rename_i hc he hy
      cases hc
      cases he
      cases h
      simp only [DB.claimScheduled, Except.ok.injEq] at hy
      obtain ⟨job, hjob, hf⟩ := (Option.any_eq_true _ _).1 hy
      have hf : db.Fires e.now job := by simpa using hf
      refine ⟨nextRunAt, job, rfl, rfl, hjob, hf, rfl, ?_⟩
      have hid := job_id_of_get? hjob
      simp [DB.claimScheduled, hjob, hf, hid]
    · cases h
  | _ => cases h

lemma winIn_claimScheduled (j : ℕ) (nextRunAt : Option Time) (e : Env) :
    winIn (.db (.claimScheduled j nextRunAt)) (.commit e) (.ok true) = some (j, e.now) := rfl

end Pyreljob
