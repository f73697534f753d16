import Pyreljob.System.Debt
import Pyreljob.System.Misfire
import Pyreljob.System.Retries

/-!
Whether every retry that a job is owed is carried out.

A run that is given up is failed, counted and replaced in three transactions, and nobody claims a
failed run again. So an execution that is killed between the first and the last of them takes the
retry with it. If no execution is, the runs of a job all of whose runs are given up are as many as
its retries say.
-/

namespace Pyreljob

open Lib

/-! ### The histories -/

/-- How many runs of the job have failed. -/
def failedRuns (db : DB) (j : ℕ) : ℕ :=
  (db.runs.select fun r => r.jobId = j ∧ r.status = .failed).length

/-- What a process does next that has failed a run of the job in `_finalize_failed`: it counts the
failure, if the job has retries at all. -/
def countsNext (j : ℕ) (R : ℤ) (p : System) (pid : ℕ) : Bool :=
  match p.pending pid with
  | some (.db (.incrementJobAttempts i)) => 0 < R ∧ i = j
  | some _ => false
  | none => R ≤ 0

/-- The act is the `fail_run` of `_finalize_failed` for the run `i` of the job. -/
def finalizes (j : ℕ) (R : ℤ) (i : ℕ) (p p' : System) : Act → Bool
  | .act pid (.commit _) =>
    match p.pending pid with
    | some (.db (.failRun i' _ none)) => i' = i ∧ countsNext j R p' pid
    | _ => false
  | _ => false

/-- The transaction wins a run of the job while a process executes this run or another one of the
job. -/
def overlaps (j : ℕ) (p : System) : Call → Bool
  | .claimRun i _ now le =>
    ((p.shared.runs.get? i).any fun r => r.jobId = j ∧ DB.Claimable now le r) &&
      (p.log.filterMap claimOf).any fun cl => p.lives cl.pid ∧ (cl.runId = i ∨ cl.run.jobId = j)
  | _ => false

/-- A history of the job: one executor at a time, and each run ends when the budget of a task is
exhausted, which the execution finds that then fails the run. A run that has failed stays. -/
structure Exhausting (j : ℕ) (R : ℤ) (p : System) (l : Act) : Prop where
  endless : Endless j p l
  alone : (committing p l).any (overlaps j p) = false
  ends : ∀ p' ∈ Pool.step answer Kind.program p l, ∀ r ∈ p.shared.runs.select fun r => r.jobId = j,
    (r.status = .failed → (p'.shared.runs.get? r.id).any fun r' => r'.status = .failed) ∧
    (r.status.inFlight → (p'.shared.runs.get? r.id).any (fun r' => r'.status.inFlight) ∨
      finalizes j R r.id p p' l)

instance (j : ℕ) (R : ℤ) (p : System) (l : Act) : Decidable (Exhausting j R p l) :=
  decidable_of_iff (Endless j p l ∧ (committing p l).any (overlaps j p) = false ∧
    ∀ p' ∈ Pool.step answer Kind.program p l, ∀ r ∈ p.shared.runs.select fun r => r.jobId = j,
      (r.status = .failed → (p'.shared.runs.get? r.id).any fun r' => r'.status = .failed) ∧
      (r.status.inFlight → (p'.shared.runs.get? r.id).any (fun r' => r'.status.inFlight) ∨
        finalizes j R r.id p p' l))
    ⟨fun ⟨h₁, h₂, h₃⟩ => ⟨h₁, h₂, h₃⟩, fun ⟨h₁, h₂, h₃⟩ => ⟨h₁, h₂, h₃⟩⟩

/-- An execution that stands in `_finalize_failed` does that, if the job has retries at all. -/
lemma finalizes_of_finalizeFailed {j i pid : ℕ} {p p' : System} {e : Env} {job : JobRow}
    {error : String} {k : Unit → Io Unit} {h : Exc → Io Unit} (hj : job.id = j)
    (hR : 0 < job.retries)
    (hprog : p.prog? pid = some (tryCatch (Worker.finalizeFailed job i error >>= k) h))
    (hstep : Pool.step answer Kind.program p (.act pid (.commit e)) = some p') :
    finalizes j job.retries i p p' (.act pid (.commit e)) := by
  obtain ⟨r, f, y, hacts⟩ := Pool.step_act hstep
  have hwait := hacts.waiting.symm.trans hprog
  have hnot : ¬ job.retries ≤ 0 := by omega
  cases hwait
  have hx : (Call.failRun i error none).exec p.shared e = some (p'.shared, y) := hacts.answered
  simp only [Call.exec, Option.some.injEq, Prod.mk.injEq] at hx
  obtain ⟨-, rfl⟩ := hx
  have hafter := hacts.resumed pid
  rw [if_pos rfl] at hafter
  have hasks : p'.pending pid = some (.db (.incrementJobAttempts job.id)) := by
    rw [Pool.pending, hafter]
    simp only [if_neg hnot]
    rfl
  have hcounts : countsNext j job.retries p' pid = true := by
    simp [countsNext, hasks, hR, hj]
  simp only [finalizes, hacts.pending, hcounts]
  rfl

/-- What the process owes, read off what it has said and heard. -/
def System.debt (p : System) (j : ℕ) (R : ℤ) (pid : ℕ) : Option Debt :=
  p.watch (Debt.next j R) (fun _ => .out) pid

/-- The process has failed a run of the job, and has still to count that or to create the retry. -/
def owes (j : ℕ) (R : ℤ) (p : System) (pid : ℕ) : Bool :=
  p.lives pid ∧ (p.debt j R pid = some .counting ∨ p.debt j R pid = some .granted)

/-- Nobody who owes a retry is killed, or has an exception raised. -/
def Unbroken (j : ℕ) (R : ℤ) (p : System) : Act → Prop
  | .crash pid | .act pid (.fail _) => owes j R p pid = false
  | _ => True

instance (j : ℕ) (R : ℤ) (p : System) : (l : Act) → Decidable (Unbroken j R p l)
  | .crash _ | .act _ (.fail _) => inferInstanceAs (Decidable (_ = false))
  | .spawn _ | .act _ (.commit _) | .act _ (.time _) | .act _ (.lastClaim _) | .act _ (.ran _ _)
  | .act _ (.undone _ _) | .act _ (.next _) => .isTrue trivial

def Call.settles (i : ℕ) : Call → Prop
  | completeRun i' _ | failRun i' _ _ | cancelRun i' => i' = i
  | _ => False

/-- No run of the job is ready or running, and nobody executes one. -/
def Over (j : ℕ) (p : System) : Prop :=
  p.shared.hasActiveRun j = false ∧ ∀ pid, p.lives pid → executesJob p.log pid j = false

/-! ### Where a process stands -/

/-- Phase and debt of a process fit together. -/
structure Fit (j : ℕ) (c : Phase) (d : Debt) : Prop where
  works : d = .works → ∃ i w, c = .exec i j w .working
  owes : d = .counting ∨ d = .granted → ∃ i w, c = .exec i j w .failed

section

variable {j : ℕ} {R : ℤ} {c : Phase} {d : Debt} {r : Req} {y : Except Exc r.Reply}

lemma fit_out (h : d = .out) : Fit j c d where
  works hd := by rw [h] at hd; cases hd
  owes hd := by rw [h] at hd; rcases hd with ⟨⟨⟩⟩ | ⟨⟨⟩⟩

/-- As long as an execution has all writes open to it, it has not failed its run. -/
lemma next_working {i : ℕ} {w : String} (hok : (Phase.exec i j w .working).ok {} r)
    (h : Debt.works.next j R r y = .works) :
    (Phase.exec i j w .working).next r y = .exec i j w .working := by
  unfold Phase.next
  split
  · rfl
  · exact hok.1.elim
  · cases hok
  · cases hok
  · exact hok.2.elim
  · rcases hok with hc | ⟨i', w', hc⟩ <;> cases hc
  · cases h
  · cases h
  · cases h
  · cases h
  · rfl

lemma Fit.next (h : Fit j c d) (hok : c.ok {} r) : Fit j (c.next r y) (d.next j R r y) := by
  generalize hd : d.next j R r y = d'
  have hnext := hd
  unfold Debt.next at hd
  split at hd
  · rename_i i w now le run
    split at hd
    · rename_i hj
      subst hd
      refine ⟨fun _ => ⟨run.id, w, ?_⟩, fun ho => by rcases ho with ho | ho <;> cases ho⟩
      rw [← hj]
      rfl
    · exact fit_out hd.symm
  · subst hd
    obtain ⟨i, w, rfl⟩ := h.works rfl
    exact ⟨nofun, fun _ => ⟨i, w, rfl⟩⟩
  · exact fit_out hd.symm
  · exact fit_out hd.symm
  · exact fit_out hd.symm
  · subst hd
    obtain ⟨i, w, rfl⟩ := h.works rfl
    refine ⟨fun _ => ⟨i, w, next_working hok hnext⟩, fun ho => ?_⟩
    rcases ho with ho | ho <;> cases ho
  · split at hd
    · subst hd
      obtain ⟨i, w, rfl⟩ := h.owes (.inl rfl)
      exact ⟨nofun, fun _ => ⟨i, w, rfl⟩⟩
    · exact fit_out hd.symm
  · subst hd
    obtain ⟨i, w, rfl⟩ := h.owes (.inr rfl)
    exact ⟨nofun, fun _ => ⟨i, w, rfl⟩⟩
  · exact fit_out hd.symm

end

/-- Phase and debt of a process that lives. -/
structure Stands (j : ℕ) (R : ℤ) (p : System) (pid : ℕ) (c : Phase) (d : Debt) : Prop where
  lives : p.lives pid
  phase : p.phase pid = some c
  debt : p.debt j R pid = some d

section

variable {db : DB} {C : System → Act → Prop} {p p' : System} {l : Act} {pid i j : ℕ} {R : ℤ}

lemma stands_cases (h : System.Run C (.over db) p)
    (hstep : Pool.step answer Kind.program p l = some p') {c' : Phase} {d' : Debt}
    (hs : Stands j R p' pid c' d') :
    ((∀ a, l ≠ .act pid a) ∧ p'.prog? pid = p.prog? pid ∧ Stands j R p pid c' d') ∨
      (c' = .rest ∧ d' = .out) ∨ ∃ a r f y c d, l = .act pid a ∧
        Pool.Acts answer p pid a p' r f y ∧ Stands j R p pid c d ∧ c' = c.next r y ∧ d' = d.next j R r y := by
  have hprod : ∀ (p : System) (c : Phase) (d : Debt),
      (p.watch (fun (c : Phase × Debt) r y => (c.1.next r y, c.2.next j R r y))
        (fun _ => (.rest, .out)) pid = some (c, d)) ↔
      p.phase pid = some c ∧ p.debt j R pid = some d := by
    intro p c d
    rw [Pool.watch_prod]
    change (p.phase pid).bind (fun c => (p.debt j R pid).map fun d => (c, d)) = some (c, d) ↔ _
    cases p.phase pid <;> cases p.debt j R pid <;> simp
  have hw := (hprod p' c' d').2 ⟨hs.phase, hs.debt⟩
  rcases Pool.watch_cases (Pool.pid_lt h rfl) hstep hs.lives hw with
    ⟨hl, hsame, hw'⟩ | ⟨k, hk⟩ | ⟨a, r, f, y, ⟨c, d⟩, rfl, hacts, hw', hn⟩
  · obtain ⟨hphase, hdebt⟩ := (hprod p c' d').1 hw'
    have hlives : p.lives pid := by
      rw [Pool.lives, ← hsame]
      exact hs.lives
    exact .inl ⟨hl, hsame, hlives, hphase, hdebt⟩
  · cases hk
    exact .inr (.inl ⟨rfl, rfl⟩)
  · obtain ⟨hphase, hdebt⟩ := (hprod p c d).1 hw'
    have hlives : p.lives pid := by simp [Pool.lives, hacts.waiting]
    cases hn
    exact .inr (.inr ⟨a, r, f, y, c, d, rfl, hacts, ⟨hlives, hphase, hdebt⟩, rfl, rfl⟩)

/-- Phase and debt always fit together. -/
theorem fit_of_run (h : System.Run C (.over db) p) {c : Phase} {d : Debt}
    (hs : Stands j R p pid c d) : Fit j c d := by
  induction h generalizing c d with
  | refl =>
    have hlives := hs.lives
    simp [Pool.lives, Pool.prog?, System.over] at hlives
  | @tail p₁ p₂ hrun hmove ih =>
    obtain ⟨l, -, hstep⟩ := hmove
    rcases stands_cases hrun hstep hs with
      ⟨-, -, hs'⟩ | ⟨-, rfl⟩ | ⟨a, r, f, y, c₁, d₁, rfl, hacts, hs', rfl, rfl⟩
    · exact ih hs'
    · exact fit_out rfl
    · obtain ⟨c₂, hc₂, hok⟩ := phase_ok hrun hacts.waiting
      obtain rfl : c₂ = c₁ := Option.some.inj (hc₂.symm.trans hs'.phase)
      exact (ih hs').next hok

/-- Who executes a run has claimed it. -/
theorem claimed_of_run (h : System.Run C (.over db) p) {w : String} {s : Stage}
    (hlives : p.lives pid) (hphase : p.phase pid = some (.exec i j w s)) :
    ∃ cl ∈ p.log.filterMap claimOf, cl.pid = pid ∧ cl.runId = i ∧ cl.run.jobId = j := by
  induction h generalizing s with
  | refl => simp [Pool.lives, Pool.prog?, System.over] at hlives
  | @tail p₁ p₂ hrun hmove ih =>
    obtain ⟨l', hlog⟩ := Pool.log_prefix (.single hmove : System.Run C p₁ p₂)
    have hbefore : ∀ s', p₁.lives pid → p₁.phase pid = some (.exec i j w s') →
        ∃ cl ∈ p₂.log.filterMap claimOf, cl.pid = pid ∧ cl.runId = i ∧ cl.run.jobId = j := by
      intro s' hl hp
      obtain ⟨cl, hcl, hrest⟩ := ih hl hp
      exact ⟨cl, by rw [hlog, List.filterMap_append]; exact List.mem_append_left _ hcl, hrest⟩
    obtain ⟨l, -, hstep⟩ := hmove
    rcases Pool.watch_cases (Pool.pid_lt hrun rfl) hstep hlives hphase with
      ⟨-, hsame, hp⟩ | ⟨k, hk⟩ | ⟨a, r, f, y, c, rfl, hacts, hc, hnext⟩
    · exact hbefore s (by rwa [Pool.lives, ← hsame]) hp
    · cases hk
    · obtain ⟨c', hc', hok⟩ := phase_ok hrun hacts.waiting
      obtain rfl : c' = c := Option.some.inj (hc'.symm.trans hc)
      rcases Phase.exec_of_next hok hnext.symm with ⟨s', rfl⟩ | ⟨pid', cl, hclaim, hi, hj, -⟩
      · exact hbefore s' (by simp [Pool.lives, hacts.waiting]) hc
      · have hvalid := valid_of_answer hacts.answered
        have hlogged := hacts.logged
        unfold claimIn at hclaim
        split at hclaim
        · rename_i runId w now le run
          cases hclaim
          have hid : runId = i := (show run.id = runId from hvalid).symm.trans hi
          refine ⟨⟨pid, runId, w, now, le, run⟩, ?_, rfl, hid, hj⟩
          rw [hlogged, List.filterMap_append]
          exact List.mem_append_right _ (by simp [claimOf, claimIn])
        · cases hclaim

end

/-! ### One executor at a time -/

section

variable {db db' : DB} {e : Env} {c : Call} {y : Except Exc c.Reply} {i j : ℕ} {R : ℤ}
variable {C : System → Act → Prop} {p p' : System} {l : Act} {a : Answer} {pid : ℕ}

lemma jobId_step (hstep : Pool.step answer Kind.program p l = some p') {r r' : RunRow}
    (hr : p.shared.runs.get? i = some r) (hr' : p'.shared.runs.get? i = some r') :
    r'.jobId = r.jobId := by
  rcases committing_cases hstep with hsame | ⟨c, e, y, -, hx⟩
  · rw [hsame, hr] at hr'
    cases hr'
    rfl
  · have hrow := exec_run hx i
    rw [hr, hr'] at hrow
    rcases hrow.jobId with ⟨hnone, -⟩ | ⟨r₀, hr₀, hj⟩
    · cases hnone
    · cases hr₀
      exact hj.symm

lemma Exhausting.flight (h : Exhausting j R p l)
    (hstep : Pool.step answer Kind.program p l = some p') {r : RunRow}
    (hr : p.shared.runs.get? i = some r) (hj : r.jobId = j) (hfl : r.status.inFlight) :
    (∃ r', p'.shared.runs.get? i = some r' ∧ r'.status.inFlight) ∨ ∃ pid e error,
      l = .act pid (.commit e) ∧ p.pending pid = some (.db (.failRun i error none)) ∧
        countsNext j R p' pid := by
  have hid := run_id_of_get? hr
  have hmem : r ∈ p.shared.runs.select fun r => r.jobId = j :=
    Table.mem_select.2 ⟨show p.shared.runs.get? r.id = some r by rw [hid, hr], hj⟩
  rcases (h.ends p' hstep r hmem).2 hfl with hstays | hfin
  · rw [hid] at hstays
    obtain ⟨r', hr', hfl'⟩ := (Option.any_eq_true _ _).1 hstays
    exact .inl ⟨r', hr', hfl'⟩
  · right
    unfold finalizes at hfin
    split at hfin
    · rename_i pid e
      split at hfin
      · rename_i i' error hasks
        obtain ⟨hi, hnext⟩ := of_decide_eq_true hfin
        rw [hi, hid] at hasks
        exact ⟨pid, e, error, rfl, hasks, hnext⟩
      · cases hfin
    · cases hfin

lemma Exhausting.failed (h : Exhausting j R p l)
    (hstep : Pool.step answer Kind.program p l = some p') {r : RunRow}
    (hr : p.shared.runs.get? i = some r) (hj : r.jobId = j) (hs : r.status = .failed) :
    ∃ r', p'.shared.runs.get? i = some r' ∧ r'.jobId = j ∧ r'.status = .failed := by
  have hid := run_id_of_get? hr
  have hmem : r ∈ p.shared.runs.select fun r => r.jobId = j :=
    Table.mem_select.2 ⟨show p.shared.runs.get? r.id = some r by rw [hid, hr], hj⟩
  obtain ⟨r', hr', hs'⟩ := (Option.any_eq_true _ _).1 ((h.ends p' hstep r hmem).1 hs)
  rw [hid] at hr'
  exact ⟨r', hr', (jobId_step hstep hr hr').trans hj, of_decide_eq_true hs'⟩

/-- A transaction that does not end the run, which is in flight after it, leaves it running. -/
lemma RunStep.running_stays {r : RunRow} {o' : Option RunRow} (h : RunStep e i c (some r) o')
    (hr : r.status = .running) (hc : ¬ c.settles i)
    (hfl : ∃ r', o' = some r' ∧ r'.status.inFlight) :
    ∃ r', o' = some r' ∧ r'.jobId = r.jobId ∧ r'.status = .running := by
  obtain ⟨r', rfl, hfl⟩ := hfl
  cases h with
  | same => exact ⟨r, rfl, rfl, hr⟩
  | claimed => exact ⟨_, rfl, rfl, rfl⟩
  | renewed _ _ _ hs => exact ⟨_, rfl, rfl, hs⟩
  | ctxSet | progressSet => exact ⟨_, rfl, rfl, hr⟩
  | completed | retried | failed | cancelled => exact absurd rfl hc
  | jobCancelled | swept => cases hfl

lemma not_settles_of_working {w : String} (hx : c.exec db e = some (db', y))
    (h : (Phase.exec i j w .working).next (.db c) y = .exec i j w .working) : ¬ c.settles i := by
  intro hc
  cases c with
  | completeRun | cancelRun =>
    cases hx
    cases h
  | failRun i' error t =>
    cases hx
    cases t <;> cases h
  | _ => exact hc

def Execs (p : System) (pid i j : ℕ) (w : String) (s : Stage) : Prop :=
  p.lives pid ∧ p.phase pid = some (.exec i j w s)

/-- The act wins the run for the process. -/
structure WinsRun (p : System) (l : Act) (pid i j : ℕ) (p' : System) : Prop where
  act : ∃ e, l = .act pid (.commit e)
  claims : ∃ w now le, p.pending pid = some (.db (.claimRun i w now le)) ∧
    ∃ r, p.shared.runs.get? i = some r ∧ r.jobId = j ∧ DB.Claimable now le r
  row : ∃ r, p'.shared.runs.get? i = some r ∧ r.jobId = j ∧ r.status = .running

lemma execs_cases (h : System.Run C (.over db) p)
    (hstep : Pool.step answer Kind.program p l = some p') {w : String} {s : Stage}
    (hs : Execs p' pid i j w s) :
    (∃ s', Execs p pid i j w s' ∧ (s = .working → s' = .working ∧
      ∀ e c, l = .act pid (.commit e) → p.pending pid = some (.db c) → ¬ c.settles i)) ∨
    WinsRun p l pid i j p' := by
  rcases Pool.watch_cases (Pool.pid_lt h rfl) hstep hs.1 hs.2 with
    ⟨hl, hsame, hp⟩ | ⟨k, hk⟩ | ⟨a, r, f, y, c, rfl, hacts, hc, hnext⟩
  · refine .inl ⟨s, ⟨by rw [Pool.lives, ← hsame]; exact hs.1, hp⟩, fun hw => ⟨hw, ?_⟩⟩
    exact fun e c hact => absurd hact (hl _)
  · cases hk
  · obtain ⟨c', hc', hok⟩ := phase_ok h hacts.waiting
    obtain rfl : c' = c := Option.some.inj (hc'.symm.trans hc)
    have hlives : p.lives pid := by simp [Pool.lives, hacts.waiting]
    have hturn := Phase.turn y hok
    rw [← hnext] at hturn
    generalize hc₂ : Phase.exec i j w s = c₂ at hturn
    cases hturn with
    | stays =>
      subst hc₂
      refine .inl ⟨s, ⟨hlives, hc⟩, fun hw => ⟨hw, ?_⟩⟩
      rintro e call hact hasks
      cases hact
      obtain rfl : r = .db call := Option.some.inj (hacts.pending.symm.trans hasks)
      subst hw
      exact not_settles_of_working hacts.answered hnext.symm
    | claims i' w' now le run =>
      cases hc₂
      right
      have hans := hacts.answered
      cases a with
      | commit e =>
        have hx : (Call.claimRun i' w now le).exec p.shared e =
            some (p'.shared, .ok (some run)) := hans
        have hcl : claimIn pid (.db (.claimRun i' w now le)) (.ok (some run)) =
            some ⟨pid, i', w, now, le, run⟩ := rfl
        have hrow := claimIn_row hx hcl
        obtain ⟨-, r₀, hr₀, hclaimable, hpost⟩ := claimIn_commit hx hcl
        obtain rfl : run = DB.claimed w now r₀ := Option.some.inj (hrow.symm.trans hpost)
        obtain rfl : r₀.id = i' := run_id_of_get? hr₀
        exact ⟨⟨e, rfl⟩, ⟨w, now, le, hacts.pending, r₀, hr₀, rfl, hclaimable⟩, _, hrow, rfl, rfl⟩
      | _ => simp [answer] at hans
    | retries | givesUp | givesBack | completes | cancels =>
      cases hc₂
      exact .inl ⟨_, ⟨hlives, hc⟩, (by simp)⟩
    | reads | selects | misses | fires | creates => cases hc₂

/-- Whoever executes a run of the job does so alone, and as long as he works on it it is running. -/
structure Alone (j : ℕ) (p : System) : Prop where
  own : ∀ q i w, Execs p q i j w .working →
    ∃ r, p.shared.runs.get? i = some r ∧ r.jobId = j ∧ r.status = .running
  other : ∀ q i w s q' i' j' w' s', q' ≠ q → Execs p q i j w s → Execs p q' i' j' w' s' →
    j' ≠ j ∧ (s = .working → i' ≠ i)

/-- Nobody executes the job when a run of it is won, and nobody else this run. -/
lemma WinsRun.free (hC : Exhausting j R p l) (h : System.Run C (.over db) p)
    (hwin : WinsRun p l pid i j p') {q i' j' : ℕ} {w : String} {s : Stage}
    (hq : Execs p q i' j' w s) : i' ≠ i ∧ j' ≠ j := by
  obtain ⟨e, rfl⟩ := hwin.act
  obtain ⟨w₀, now, le, hasks, r, hr, hj, hclaimable⟩ := hwin.claims
  obtain ⟨cl, hcl, rfl, rfl, rfl⟩ := claimed_of_run h hq.1 hq.2
  have halone : overlaps j p (.claimRun i w₀ now le) = false := by
    simpa [committing, hasks] using hC.alone
  have hrow : ((p.shared.runs.get? i).any fun r => r.jobId = j ∧ DB.Claimable now le r) = true := by
    simp [hr, hj, hclaimable]
  rw [overlaps, hrow, Bool.true_and, List.any_eq_false] at halone
  have hnone := halone cl hcl
  simp only [hq.1, true_and, decide_eq_true_eq, not_or] at hnone
  exact hnone

lemma Phase.exec_of_settles {may : Leave} {c : Phase} {call : Call} (hok : c.ok may (.db call))
    (h : call.settles i) : ∃ j w s, c = .exec i j w s := by
  cases call with
  | completeRun | cancelRun =>
    obtain rfl := h
    obtain ⟨j, w, rfl⟩ := hok
    exact ⟨j, w, _, rfl⟩
  | failRun i' error t =>
    obtain rfl := h
    cases t with
    | none =>
      obtain ⟨j, w, s, rfl, -⟩ := hok
      exact ⟨j, w, s, rfl⟩
    | some t =>
      obtain ⟨j, w, rfl⟩ := hok
      exact ⟨j, w, _, rfl⟩
  | _ => exact h.elim

lemma execs_of_settles (h : System.Run C (.over db) p) (hasks : p.pending pid = some (.db c))
    (hc : c.settles i) : ∃ j w s, Execs p pid i j w s := by
  obtain ⟨f, hwait⟩ := Pool.prog?_of_pending hasks
  obtain ⟨ph, hph, hok⟩ := phase_ok h hwait
  obtain ⟨j, w, s, rfl⟩ := Phase.exec_of_settles hok hc
  exact ⟨j, w, s, by simp [Pool.lives, hwait], hph⟩

/-- **One executor at a time**, and his run is running. -/
theorem alone_of_run (hCC : ∀ p l, C p l → Exhausting j R p l) (h : System.Run C (.over db) p) :
    Alone j p := by
  induction h with
  | refl =>
    refine ⟨?_, ?_⟩
    · rintro q i w ⟨hlives, -⟩
      simp [Pool.lives, Pool.prog?, System.over] at hlives
    · rintro q i w s q' i' j' w' s' - ⟨hlives, -⟩
      simp [Pool.lives, Pool.prog?, System.over] at hlives
  | @tail p₁ p₂ hrun hmove ih =>
    obtain ⟨l, hCl, hstep⟩ := hmove
    have hC := hCC _ _ hCl
    constructor
    case own =>
      intro q i w hq
      rcases execs_cases hrun hstep hq with ⟨s', hq', hstage⟩ | hwin
      · obtain ⟨rfl, hnot⟩ := hstage rfl
        obtain ⟨r, hr, hj, hs⟩ := ih.own q i w hq'
        have hfl : r.status.inFlight := by rw [hs]; rfl
        rcases System.step_cases hstep with hsame | ⟨a, c, e, y, rfl, hasks, hx, -⟩
        · exact ⟨r, hsame ▸ hr, hj, hs⟩
        · -- nobody else executes the run, and who works on it has not ended it
          have hc : ¬ c.settles i := by
            intro hc
            by_cases haq : a = q
            · subst haq
              exact hnot e c rfl hasks hc
            · obtain ⟨j', w', s', ha⟩ := execs_of_settles hrun hasks hc
              exact (ih.other q i w _ a i j' w' s' haq hq' ha).2 rfl rfl
          have hstays : ∃ r', p₂.shared.runs.get? i = some r' ∧ r'.status.inFlight := by
            rcases hC.flight hstep hr hj hfl with hstays | ⟨a', e', error, hact, hasks', -⟩
            · exact hstays
            · cases hact
              rw [hasks] at hasks'
              cases hasks'
              exact absurd rfl hc
          have hrow := exec_run hx i
          rw [hr] at hrow
          obtain ⟨r', hr', hj', hs'⟩ := hrow.running_stays hs hc hstays
          exact ⟨r', hr', hj'.trans hj, hs'⟩
      · exact hwin.row
    case other =>
      intro q i w s q' i' j' w' s' hne hq hq'
      rcases execs_cases hrun hstep hq with ⟨s₀, hq₀, hstage⟩ | hwin
      · rcases execs_cases hrun hstep hq' with ⟨s₁, hq₁, -⟩ | hwin'
        · obtain ⟨hj, hi⟩ := ih.other q i w s₀ q' i' j' w' s₁ hne hq₀ hq₁
          exact ⟨hj, fun hs => hi (hstage hs).1⟩
        · obtain ⟨-, -, -, -, r', hr', hj', -⟩ := hwin'.claims
          have hne' : j' ≠ j := by
            rintro rfl
            exact (hwin'.free hC hrun hq₀).2 rfl
          refine ⟨hne', fun hs => ?_⟩
          rintro rfl
          obtain ⟨r, hr, hj, -⟩ := ih.own q i' w ((hstage hs).1 ▸ hq₀)
          rw [hr] at hr'
          cases hr'
          exact hne' (hj'.symm.trans hj)
      · obtain ⟨e, rfl⟩ := hwin.act
        rcases execs_cases hrun hstep hq' with ⟨s₁, hq₁, -⟩ | hwin'
        · obtain ⟨hi, hj⟩ := hwin.free hC hrun hq₁
          exact ⟨hj, fun _ => hi⟩
        · obtain ⟨e', hact⟩ := hwin'.act
          cases hact
          exact absurd rfl hne

/-! ### Counting a failure -/

/-- A step of such a history in which nobody drops a retry, of a job whose row says the same all the
time. -/
def Owed (j : ℕ) (R : ℤ) (p : System) (l : Act) : Prop :=
  (Exhausting j R p l ∧ Unbroken j R p l) ∧ Retried j R p.shared ∧
    ∀ p', Pool.step answer Kind.program p l = some p' → Retried j R p'.shared

lemma debt_moves (hC : Owed j R p (.act pid a)) {r : Req} {f : Except Exc r.Reply → Io Unit}
    {y : Except Exc r.Reply} (hacts : Pool.Acts answer p pid a p' r f y) (d : Debt) :
    d.Moves j R r y (d.next j R r y) := by
  refine ⟨⟨valid_of_answer hacts.answered, ?_⟩, rfl⟩
  have hans := hacts.answered
  unfold Debt.Fits
  split
  · rename_i i job
    rintro rfl
    cases a with
    | commit e =>
      have hx : (Call.getJob i).exec p.shared e = some (p'.shared, .ok (some job)) := hans
      simp only [Call.exec, Option.some.injEq, Prod.mk.injEq, Except.ok.injEq] at hx
      exact (hC.2.1 job hx.2).2
    | _ => simp [answer] at hans
  · trivial

lemma debt_kept (h : System.Run (Owed j R) (.over db) p) {r : Req}
    {f : Except Exc r.Reply → Io Unit} (hwait : p.prog? pid = some (.ask r f)) :
    ∃ d, p.debt j R pid = some d ∧ Pool.InPhase (Debt.Moves j R) (Debt.ok j) (· ≠ .granted)
      (.ask r f) d :=
  Pool.watched (fun d hC hacts => debt_moves hC hacts d) (fun _ k _ => kind_owes k) h rfl rfl hwait

/-- A failure is still to be counted when the run has just been failed. -/
lemma failRun_of_counting {d : Debt} {r : Req} {y : Except Exc r.Reply}
    (h : d.next j R r y = .counting) : d = .works ∧ ∃ i error, r = .db (.failRun i error none) := by
  unfold Debt.next at h
  split at h
  · split at h <;> cases h
  · exact ⟨rfl, _, _, rfl⟩
  · cases h
  · cases h
  · cases h
  · cases h
  · split at h <;> cases h
  · cases h
  · cases h

lemma failed_row (now : Time) (error : String) {r : RunRow} (hr : db.runs.get? i = some r)
    (hs : r.status = .running) : ∃ r', (db.failRun now i error none).runs.get? i = some r' ∧
      r'.jobId = r.jobId ∧ r'.status = .failed := by
  simp [DB.failRun, hr, hs, run_id_of_get? hr]

/-- A run of the job is failed by the act, and the process counts that next. -/
structure Fails (j : ℕ) (R : ℤ) (p : System) (l : Act) (pid i : ℕ) (p' : System) : Prop where
  act : ∃ e, l = .act pid (.commit e)
  asks : ∃ error, p.pending pid = some (.db (.failRun i error none))
  running : ∃ r, p.shared.runs.get? i = some r ∧ r.jobId = j ∧ r.status = .running
  failed : ∃ r, p'.shared.runs.get? i = some r ∧ r.jobId = j ∧ r.status = .failed
  counts : countsNext j R p' pid

/-- A process that comes to owe a count has failed a run of the job. -/
lemma fails_of_counting (h : System.Run (Owed j R) (.over db) p) (hC : Owed j R p l)
    (hstep : Pool.step answer Kind.program p l = some p') {a : Answer} {r : Req}
    {f : Except Exc r.Reply → Io Unit} {y : Except Exc r.Reply} {ph : Phase} {d : Debt}
    (hl : l = .act pid a) (hacts : Pool.Acts answer p pid a p' r f y) (hs : Stands j R p pid ph d)
    (hd : d.next j R r y = .counting) : ∃ i, Fails j R p l pid i p' := by
  obtain ⟨rfl, i, error, rfl⟩ := failRun_of_counting hd
  obtain ⟨i', w, rfl⟩ := (fit_of_run h hs).works rfl
  obtain ⟨ph', hph', j', w', s', rfl, -⟩ := phase_ok h hacts.waiting
  cases hph'.symm.trans hs.phase
  obtain ⟨r, hr, hj, hrun⟩ :=
    (alone_of_run (fun _ _ hC => hC.1.1) h).own pid i w ⟨hs.lives, hs.phase⟩
  have hans := hacts.answered
  cases a with
  | commit e =>
    have hx : (Call.failRun i error none).exec p.shared e = some (p'.shared, y) := hans
    simp only [Call.exec, Option.some.injEq, Prod.mk.injEq] at hx
    obtain ⟨r', hr', hj', hs'⟩ := failed_row e.now error hr hrun
    rw [hx.1] at hr'
    refine ⟨i, ⟨e, hl⟩, ⟨error, hacts.pending⟩, ⟨r, hr, hj, hrun⟩, ⟨r', hr', hj'.trans hj, hs'⟩, ?_⟩
    have hfl : r.status.inFlight := by rw [hrun]; rfl
    rcases hC.1.1.flight hstep hr hj hfl with ⟨r'', hr'', hfl'⟩ | ⟨q, e', er, hact, -, hcounts⟩
    · rw [hr'] at hr''
      cases hr''
      rw [hs'] at hfl'
      cases hfl'
    · rw [hl] at hact
      cases hact
      exact hcounts
  | fail exc =>
    simp only [answer, Option.some.injEq, Prod.mk.injEq] at hans
    obtain ⟨-, rfl⟩ := hans
    cases hd
  | _ => simp [answer] at hans

/-- **A failure is counted at once.** -/
theorem counting_asks (h : System.Run (Owed j R) (.over db) p) {ph : Phase}
    (hs : Stands j R p pid ph .counting) :
    p.pending pid = some (.db (.incrementJobAttempts j)) := by
  induction h generalizing ph with
  | refl =>
    have hlives := hs.lives
    simp [Pool.lives, Pool.prog?, System.over] at hlives
  | @tail p₁ p₂ hrun hmove ih =>
    obtain ⟨l, hC, hstep⟩ := hmove
    rcases stands_cases hrun hstep hs with
      ⟨-, hsame, hs'⟩ | ⟨-, hd⟩ | ⟨a, r, f, y, c, d, hl, hacts, hs', -, hd⟩
    · have hasks := ih hs'
      rwa [Pool.pending, ← hsame] at hasks
    · cases hd
    · obtain ⟨i, hfails⟩ := fails_of_counting hrun hC hstep hl hacts hs' hd.symm
      have hcounts := hfails.counts
      obtain ⟨q, hq⟩ := Option.isSome_iff_exists.1 hs.lives
      have hlive := hq
      rw [hacts.resumed, if_pos rfl] at hlive
      obtain ⟨-, r', f', rfl⟩ := Pool.ask_of_live hlive
      have hasks : p₂.pending pid = some r' := by simp [Pool.pending, hq]
      rw [countsNext, hasks] at hcounts
      split at hcounts
      · rename_i i' heq
        cases heq
        obtain ⟨-, rfl⟩ := of_decide_eq_true hcounts
        exact hasks
      · cases hcounts
      · rename_i heq
        cases heq

/-! ### The failures and the count -/

def attemptsOf (db : DB) (j : ℕ) : ℕ := ((db.jobs.get? j).map JobRow.attempts).getD 0

lemma failedRuns_le (hC : Exhausting j R p l)
    (hstep : Pool.step answer Kind.program p l = some p') :
    failedRuns p.shared j ≤ failedRuns p'.shared j := by
  have hle := Table.length_select_le (t := p.shared.runs)
    (p := fun r => r.jobId = j ∧ r.status = .failed)
    (l := (p'.shared.runs.select fun r => r.jobId = j ∧ r.status = .failed).map RunRow.id) ?_
  · simpa [failedRuns] using hle
  · rintro i r hr ⟨hj, hs⟩
    exact Table.mem_keys_select.2 (hC.failed hstep hr hj hs)

lemma Fails.lt (h : Fails j R p l pid i p') (hC : Exhausting j R p l)
    (hstep : Pool.step answer Kind.program p l = some p') :
    failedRuns p.shared j < failedRuns p'.shared j := by
  obtain ⟨r', hr', hj', hs'⟩ := h.failed
  obtain ⟨r, hr, -, hs⟩ := h.running
  refine Table.length_select_lt ?_ hr' ⟨hj', hs'⟩ ?_
  · rintro i r hr ⟨hj, hs⟩
    exact hC.failed hstep hr hj hs
  · rintro r₀ hr₀ ⟨-, hs₀⟩
    rw [hr] at hr₀
    cases hr₀
    rw [hs] at hs₀
    cases hs₀

lemma attemptsOf_exec (hx : c.exec db e = some (db', y)) :
    attemptsOf db' j ≤ attemptsOf db j ∨
      (c = .incrementJobAttempts j ∧ attemptsOf db' j = attemptsOf db j + 1) := by
  have hstep := exec_job hx j
  unfold attemptsOf
  generalize db.jobs.get? j = o at hstep
  generalize db'.jobs.get? j = o' at hstep
  cases hstep with
  | incremented => exact .inr ⟨rfl, rfl⟩
  | reset | deleted => exact .inl (Nat.zero_le _)
  | _ => exact .inl le_rfl

lemma counting_of_asks (h : System.Run (Owed j R) (.over db) p)
    (hasks : p.pending pid = some (.db (.incrementJobAttempts j))) :
    ∃ ph, Stands j R p pid ph .counting := by
  obtain ⟨f, hwait⟩ := Pool.prog?_of_pending hasks
  obtain ⟨ph, hph, -⟩ := phase_ok h hwait
  obtain ⟨d, hd, hok, -⟩ := debt_kept h hwait
  obtain rfl : d = .counting := hok.2 rfl
  exact ⟨ph, by simp [Pool.lives, hwait], hph, hd⟩

lemma owes_unique (h : System.Run (Owed j R) (.over db) p) {q q' : ℕ} {ph ph' : Phase} {d d' : Debt}
    (hq : Stands j R p q ph d) (hd : d = .counting ∨ d = .granted) (hq' : Stands j R p q' ph' d')
    (hd' : d' = .counting ∨ d' = .granted) : q' = q := by
  obtain ⟨i, w, rfl⟩ := (fit_of_run h hq).owes hd
  obtain ⟨i', w', rfl⟩ := (fit_of_run h hq').owes hd'
  by_contra hne
  have halone := alone_of_run (fun _ _ hC => hC.1.1) h
  exact (halone.other q i w _ q' i' j w' _ hne ⟨hq.lives, hq.phase⟩ ⟨hq'.lives, hq'.phase⟩).1 rfl

/-- **Every count is that of a failed run.** -/
theorem counted_of_run (h : System.Run (Owed j R) (.over {}) p) :
    attemptsOf p.shared j ≤ failedRuns p.shared j ∧ ∀ q ph, Stands j R p q ph .counting →
      attemptsOf p.shared j + 1 ≤ failedRuns p.shared j := by
  induction h with
  | refl =>
    refine ⟨Nat.zero_le _, fun q ph hs => ?_⟩
    have hlives := hs.lives
    simp [Pool.lives, Pool.prog?, System.over] at hlives
  | @tail p₁ p₂ hrun hmove ih =>
    obtain ⟨l, hC, hstep⟩ := hmove
    have hle := failedRuns_le hC.1.1 hstep
    -- the count goes up only when a failure is counted
    have hcount : attemptsOf p₂.shared j ≤ attemptsOf p₁.shared j ∨ ∃ a e ph,
        l = .act a (.commit e) ∧ p₁.pending a = some (.db (.incrementJobAttempts j)) ∧
          Stands j R p₁ a ph .counting ∧ attemptsOf p₂.shared j = attemptsOf p₁.shared j + 1 := by
      rcases System.step_cases hstep with hsame | ⟨a, c, e, y, rfl, hasks, hx, -⟩
      · exact .inl (hsame ▸ le_rfl)
      · rcases attemptsOf_exec (j := j) hx with hle | ⟨rfl, heq⟩
        · exact .inl hle
        · obtain ⟨ph, hph⟩ := counting_of_asks hrun hasks
          exact .inr ⟨a, e, ph, rfl, hasks, hph, heq⟩
    constructor
    · rcases hcount with hcount | ⟨a, e, ph, -, -, ha, heq⟩
      · omega
      · have := ih.2 a ph ha
        omega
    · intro q ph hs
      rcases stands_cases hrun hstep hs with
        ⟨hl, -, hs'⟩ | ⟨-, hd⟩ | ⟨a, r, f, y, c, d, hl, hacts, hs', -, hd⟩
      · have hq := ih.2 q ph hs'
        rcases hcount with hcount | ⟨a, e, ph', rfl, -, ha, -⟩
        · omega
        · obtain rfl := owes_unique hrun ha (.inl rfl) hs' (.inl rfl)
          exact absurd rfl (hl _)
      · cases hd
      · obtain ⟨i, hfails⟩ := fails_of_counting hrun hC hstep hl hacts hs' hd.symm
        have hlt := hfails.lt hC.1.1 hstep
        rcases hcount with hcount | ⟨a', e, ph', hl', hasks, -, -⟩
        · omega
        · obtain ⟨error, hasks'⟩ := hfails.asks
          rw [hl] at hl'
          cases hl'
          rw [hasks] at hasks'
          cases hasks'

/-! ### No retry is dropped -/

lemma stands_of_owes (h : owes j R p pid = true) :
    ∃ ph d, Stands j R p pid ph d ∧ (d = .counting ∨ d = .granted) := by
  obtain ⟨hlives, hdebt⟩ := of_decide_eq_true h
  have hphase : ∀ {d}, p.debt j R pid = some d → ∃ ph, p.phase pid = some ph := by
    intro d hd
    obtain ⟨k, hk, -⟩ := Option.map_eq_some_iff.1 hd
    exact ⟨_, by rw [System.phase, Pool.watch, hk]; rfl⟩
  rcases hdebt with hd | hd
  · obtain ⟨ph, hph⟩ := hphase hd
    exact ⟨ph, _, ⟨hlives, hph, hd⟩, .inl rfl⟩
  · obtain ⟨ph, hph⟩ := hphase hd
    exact ⟨ph, _, ⟨hlives, hph, hd⟩, .inr rfl⟩

lemma owes_of_debt {d : Debt} (hlives : p.lives pid) (hd : p.debt j R pid = some d)
    (h : d = .counting ∨ d = .granted) : owes j R p pid = true := by
  rcases h with rfl | rfl <;> simp [owes, hlives, hd]

lemma active_of_absent {ph : Phase} (hx : c.exec db e = some (db', y)) (hok : ph.ok {} (.db c))
    (hrow : Retried j R db') (hnone : db.jobs.get? j = none) {job : JobRow}
    (hjob : db'.jobs.get? j = some job) : db'.hasActiveRun j = true := by
  have hstep := exec_job hx j
  rw [hnone, hjob] at hstep
  cases hstep with
  | enqueued spec t hi =>
    subst hi
    rcases insertJobAndRun_cases hx with rfl | ⟨jobs, runs, -, hruns, rfl⟩
    · rw [hnone] at hjob
      cases hjob
    · exact active_of_insert hruns rfl
  | scheduled spec hi =>
    have hsource := (hrow _ hjob).1
    rw [show (spec.row e).source = .scheduled from hok.2] at hsource
    cases hsource

lemma active_step (hC : Exhausting j R p l) (hstep : Pool.step answer Kind.program p l = some p')
    (h : p.shared.hasActiveRun j = true) :
    p'.shared.hasActiveRun j = true ∨ ∃ pid i, Fails j R p l pid i p' := by
  obtain ⟨i, r, hr, hj, hfl⟩ := exists_of_hasActiveRun h
  rcases hC.flight hstep hr hj hfl with ⟨r', hr', hfl'⟩ | ⟨pid, e, error, rfl, hasks, hcounts⟩
  · exact .inl (hasActiveRun_of_get? hr' ((jobId_step hstep hr hr').trans hj) hfl')
  · obtain ⟨c, y, hasks', hx, -⟩ := System.step_commit hstep
    cases hasks.symm.trans hasks'
    have hrow := exec_run hx i
    rw [hr] at hrow
    generalize ho : p'.shared.runs.get? i = o' at hrow
    cases hrow with
    | same => exact .inl (hasActiveRun_of_get? ho hj hfl)
    | failed _ _ hs =>
      exact .inr ⟨pid, i, ⟨e, rfl⟩, ⟨error, hasks⟩, ⟨r, hr, hj, hs⟩, ⟨_, ho, hj, rfl⟩, hcounts⟩

lemma lives_of_granted (h : System.Run (Owed j R) (.over db) p) (hC : Owed j R p (.act pid a))
    {r : Req} {f : Except Exc r.Reply → Io Unit} {y : Except Exc r.Reply}
    (hacts : Pool.Acts answer p pid a p' r f y) {d : Debt} (hd : p.debt j R pid = some d)
    (hnext : d.next j R r y = .granted) : p'.lives pid := by
  obtain ⟨d', hd', -, hkeeps⟩ := debt_kept h hacts.waiting
  obtain rfl : d' = d := Option.some.inj (hd'.symm.trans hd)
  have hf := hkeeps y _ (debt_moves hC hacts d')
  rw [hnext] at hf
  rw [Pool.lives, hacts.resumed, if_pos rfl]
  cases hfy : f y with
  | ret v =>
    rw [hfy] at hf
    exact absurd rfl hf
  | ask r' f' => rfl

lemma asks_of_granted {r : Req} (h : Debt.granted.ok j r) :
    (∃ n, r = .retryAt n) ∨ ∃ t, r = .db (.createRun j t) := by
  unfold Debt.ok at h
  split at h
  · exact absurd rfl h.1
  · rename_i i t
    obtain rfl := h rfl
    exact .inr ⟨t, rfl⟩
  · exact .inl ⟨_, rfl⟩
  · exact absurd rfl h

/-- The process that has failed a run owes its retry, if there is one. -/
lemma Fails.carried (h : Fails j R p l pid i p') (hrun : System.Run (Owed j R) (.over db) p')
    (hlt : failedRuns p.shared j < failedRuns p'.shared j) :
    (∃ q, owes j R p' q = true) ∨ R.toNat + 1 ≤ failedRuns p'.shared j := by
  have hcounts := h.counts
  unfold countsNext at hcounts
  split at hcounts
  · rename_i i' hasks
    obtain ⟨-, rfl⟩ := of_decide_eq_true hcounts
    obtain ⟨ph, hph⟩ := counting_of_asks hrun hasks
    exact .inl ⟨pid, owes_of_debt hph.lives hph.debt (.inl rfl)⟩
  · cases hcounts
  · have hR : R ≤ 0 := of_decide_eq_true hcounts
    right
    omega

lemma owes_step (h : System.Run (Owed j R) (.over {}) p) (hC : Owed j R p l)
    (hstep : Pool.step answer Kind.program p l = some p') {job : JobRow}
    (hjob : p.shared.jobs.get? j = some job) {q : ℕ} (hq : owes j R p q = true) :
    p'.shared.hasActiveRun j = true ∨ (∃ q, owes j R p' q = true) ∨
      R.toNat + 1 ≤ failedRuns p'.shared j := by
  obtain ⟨ph, d, hs, hd⟩ := stands_of_owes hq
  rcases Pool.watch_moves (Pool.pid_lt h rfl) hstep hs.lives hs.debt with
    ⟨hsame, hdebt⟩ | rfl | ⟨a, r, f, y, rfl, hacts, hdebt⟩
  · -- somebody else moves
    have hlives : p'.lives q := by
      rw [Pool.lives, hsame]
      exact hs.lives
    exact .inr (.inl ⟨q, owes_of_debt hlives hdebt hd⟩)
  · rw [show owes j R p q = false from hC.1.2] at hq
    cases hq
  · have hgranted : d.next j R r y = .granted → ∃ q, owes j R p' q = true := by
      intro hnext
      have hlives := lives_of_granted h hC hacts hs.debt hnext
      exact ⟨q, owes_of_debt hlives (hdebt.trans (congrArg some hnext)) (.inr rfl)⟩
    have hfail : ∀ exc, a ≠ .fail exc := by
      rintro exc rfl
      rw [show owes j R p q = false from hC.1.2] at hq
      cases hq
    have hans := hacts.answered
    rcases hd with rfl | rfl
    · -- it counts the failure
      have hasks := counting_asks h hs
      obtain rfl : r = .db (.incrementJobAttempts j) :=
        Option.some.inj (hacts.pending.symm.trans hasks)
      cases a with
      | commit e =>
        have hx : (Call.incrementJobAttempts j).exec p.shared e = some (p'.shared, y) := hans
        simp only [Call.exec, Option.some.injEq, Prod.mk.injEq] at hx
        obtain ⟨-, rfl⟩ := hx
        rw [incremented_reply hjob] at hgranted
        by_cases hn : ((job.attempts + 1 : ℕ) : ℤ) ≤ R
        · exact .inr (.inl (hgranted (if_pos ⟨rfl, hn⟩)))
        · have hcount := (counted_of_run h).2 q ph hs
          have hle := failedRuns_le hC.1.1 hstep
          rw [attemptsOf, hjob] at hcount
          simp only [Option.map_some, Option.getD_some] at hcount
          right
          right
          omega
      | fail exc => exact absurd rfl (hfail exc)
      | _ => simp [answer] at hans
    · -- it computes the backoff, or creates the retry
      obtain ⟨d', hd', hok, -⟩ := debt_kept h hacts.waiting
      obtain rfl : d' = .granted := Option.some.inj (hd'.symm.trans hs.debt)
      rcases asks_of_granted hok with ⟨n, rfl⟩ | ⟨t, rfl⟩
      · cases a with
        | time t =>
          simp only [answer, Option.some.injEq, Prod.mk.injEq] at hans
          obtain ⟨-, rfl⟩ := hans
          exact .inr (.inl (hgranted rfl))
        | fail exc => exact absurd rfl (hfail exc)
        | _ => simp [answer] at hans
      · cases a with
        | commit e =>
          have hx : (Call.createRun j t).exec p.shared e = some (p'.shared, y) := hans
          simp only [Call.exec, Option.bind_eq_bind, Option.bind_eq_some_iff, Option.some.injEq,
            Prod.mk.injEq, Prod.exists] at hx
          obtain ⟨_, _, hx, rfl, -⟩ := hx
          obtain ⟨runs, hruns, -, hdb⟩ := createRun_cases hx
          exact .inl (active_of_insert hruns (by rw [hdb]))
        | fail exc => exact absurd rfl (hfail exc)
        | _ => simp [answer] at hans

/-- **No retry is dropped.** A job that is there has a run in flight, or somebody owes it one, or it
has had as many as its retries allow. -/
theorem carried_of_run (h : System.Run (Owed j R) (.over {}) p)
    (hjob : (p.shared.jobs.get? j).isSome) : p.shared.hasActiveRun j = true ∨
      (∃ q, owes j R p q = true) ∨ R.toNat + 1 ≤ failedRuns p.shared j := by
  induction h with
  | refl => cases hjob
  | @tail p₁ p₂ hrun hmove ih =>
    obtain ⟨l, hC, hstep⟩ := hmove
    have hrun' := hrun.tail ⟨l, hC, hstep⟩
    have hle := failedRuns_le hC.1.1 hstep
    obtain ⟨job', hjob'⟩ := Option.isSome_iff_exists.1 hjob
    cases hjob₁ : p₁.shared.jobs.get? j with
    | none =>
      left
      rcases System.step_cases hstep with hsame | ⟨pid, c, e, y, rfl, hasks, hx, -⟩
      · rw [hsame, hjob₁] at hjob
        cases hjob
      · obtain ⟨f, hwait⟩ := Pool.prog?_of_pending hasks
        obtain ⟨ph, -, hok⟩ := phase_ok hrun hwait
        exact active_of_absent hx hok (hC.2.2 p₂ hstep) hjob₁ hjob'
    | some job =>
      rcases ih (by rw [hjob₁]; rfl) with hactive | ⟨q, hq⟩ | hfull
      · rcases active_step hC.1.1 hstep hactive with hactive' | ⟨pid, i, hfails⟩
        · exact .inl hactive'
        · exact .inr (hfails.carried hrun' (hfails.lt hC.1.1 hstep))
      · exact owes_step hrun hC hstep hjob₁ hq
      · exact .inr (.inr (hfull.trans hle))

/-! ### Runs and creations -/

def runsThere (db : DB) (j : ℕ) : ℕ := (db.runs.select fun r => r.jobId = j).length

lemma bears_of_new (hx : c.exec db e = some (db', y)) {r' : RunRow} (hnone : db.runs.get? i = none)
    (hr' : db'.runs.get? i = some r') (hj : r'.jobId = j) : i = e.runId ∧ bearsIn j (.db c) y := by
  have hrow := exec_run hx i
  rw [hnone, hr'] at hrow
  cases hrow with
  | enqueued spec t hi =>
    refine ⟨hi, ?_⟩
    have hx' : db.insertJobAndRun e spec t = some (db', y) := hx
    unfold DB.insertJobAndRun at hx'
    split at hx'
    · cases hx'
      rw [hnone] at hr'
      cases hr'
    · simp only [Option.bind_eq_bind, Option.bind_eq_some_iff, Option.some.injEq,
        Prod.mk.injEq] at hx'
      obtain ⟨jobs, -, runs, -, -, rfl⟩ := hx'
      exact decide_eq_true hj
  | created jobId t hi =>
    refine ⟨hi, ?_⟩
    simp only [Call.exec, Option.bind_eq_bind, Option.bind_eq_some_iff, Option.some.injEq,
      Prod.mk.injEq, Prod.exists] at hx
    obtain ⟨_, _, -, -, rfl⟩ := hx
    exact decide_eq_true hj

lemma runsThere_exec (hx : c.exec db e = some (db', y)) :
    runsThere db' j ≤ runsThere db j + if bearsIn j (.db c) y then 1 else 0 := by
  have hold : ∀ i r', db'.runs.get? i = some r' → r'.jobId = j →
      i ∈ (db.runs.select fun r => r.jobId = j).map RunRow.id ∨
        (i = e.runId ∧ bearsIn j (.db c) y) := by
    intro i r' hr' hj
    cases hr : db.runs.get? i with
    | none => exact .inr (bears_of_new hx hr hr' hj)
    | some r =>
      have hrow := exec_run hx i
      rw [hr, hr'] at hrow
      rcases hrow.jobId with ⟨hnone, -⟩ | ⟨r₀, hr₀, hj₀⟩
      · cases hnone
      · cases hr₀
        exact .inl (Table.mem_keys_select.2 ⟨r, hr, hj₀.trans hj⟩)
  unfold runsThere
  by_cases hb : bearsIn j (.db c) y
  · rw [if_pos hb]
    have hle := Table.length_select_le (t := db'.runs) (p := fun r => r.jobId = j)
      (l := e.runId :: (db.runs.select fun r => r.jobId = j).map RunRow.id) ?_
    · simpa using hle
    · intro i r' hr' hj
      rcases hold i r' hr' hj with hi | ⟨rfl, -⟩
      · exact List.mem_cons_of_mem _ hi
      · exact List.mem_cons_self
  · rw [if_neg hb]
    have hle := Table.length_select_le (t := db'.runs) (p := fun r => r.jobId = j)
      (l := (db.runs.select fun r => r.jobId = j).map RunRow.id) ?_
    · simpa using hle
    · intro i r' hr' hj
      rcases hold i r' hr' hj with hi | ⟨-, hb'⟩
      · exact hi
      · exact absurd hb' hb

/-- Every run that is there has been created. -/
theorem runsThere_le (h : p.Reached C) : runsThere p.shared j ≤ runsCreated p.log j := by
  induction h with
  | refl => exact Nat.zero_le _
  | @tail p₁ p₂ hrun hmove ih =>
    have hlog := Pool.log_prefix (.single hmove : System.Run C p₁ p₂)
    obtain ⟨l, -, hstep⟩ := hmove
    rcases System.step_cases hstep with hsame | ⟨pid, c, e, y, rfl, -, hx, hlogged⟩
    · obtain ⟨l', hl'⟩ := hlog
      rw [hsame, hl', runsCreated, List.countP_append]
      exact ih.trans (Nat.le_add_right _ _)
    · have hle := runsThere_exec (j := j) hx
      rw [hlogged, runsCreated, List.countP_append, List.countP_singleton]
      exact hle.trans (Nat.add_le_add_right ih _)

lemma failedRuns_le_there (db : DB) : failedRuns db j ≤ runsThere db j := by
  have hle := Table.length_select_le (t := db.runs) (p := fun r => r.jobId = j ∧ r.status = .failed)
    (l := (db.runs.select fun r => r.jobId = j).map RunRow.id) ?_
  · simpa [failedRuns, runsThere] using hle
  · rintro i r hr ⟨hj, -⟩
    exact Table.mem_keys_select.2 ⟨r, hr, hj⟩

end

/-- **No retry is lost where no execution is killed while it owes one.** In every history of an
on-demand job with one executor at a time, all of whose runs end when a task has exhausted its
budget, and in which an execution may be killed anywhere but between the `fail_run` and the
`create_run` of `_finalize_failed`: once no run of the job is in flight and nobody executes one, so
many of its runs have failed as its retries say, and one more. -/
theorem retries_carried {p : System} {j : ℕ} {job : JobRow}
    (h : p.Reached fun p l => Exhausting j job.retries p l ∧ Unbroken j job.retries p l)
    (hjob : p.shared.jobs.get? j = some job) (hsource : job.source = .onDemand)
    (hR : 0 ≤ job.retries) (hover : Over j p) : (failedRuns p.shared j : ℤ) = job.retries + 1 := by
  have hrow : Retried j job.retries p.shared := by
    intro job' hjob'
    rw [hjob] at hjob'
    cases hjob'
    exact ⟨hsource, rfl⟩
  have hrun : System.Run (Owed j job.retries) (.over {}) p := Pool.Run.backward
    (fun p p' l hC hstep hp' => Retried.before hC.1.endless hstep hp') h hrow
  have hmost : (failedRuns p.shared j : ℤ) ≤ job.retries + 1 := by
    have hbound := retries_bounded (h.mono fun p l hC => hC.1.endless) hjob hsource
    have hthere := (failedRuns_le_there p.shared).trans (runsThere_le (j := j) h)
    omega
  rcases carried_of_run hrun (by rw [hjob]; rfl) with hactive | ⟨q, hq⟩ | hfull
  · rw [hover.1] at hactive
    cases hactive
  · obtain ⟨ph, d, hs, hd⟩ := stands_of_owes hq
    obtain ⟨i, w, rfl⟩ := (fit_of_run hrun hs).owes hd
    obtain ⟨cl, hcl, hpid, -, hj⟩ := claimed_of_run hrun hs.lives hs.phase
    have hnone := hover.2 q hs.lives
    rw [executesJob, List.any_eq_false] at hnone
    have hfree := hnone cl (mem_claimsBy.2 ⟨hcl, hpid⟩)
    exact absurd (decide_eq_true hj) hfree
  · omega

/-- The retry fails like the first run. -/
def exhaustedTwice : List Act := retriedOnce ++
  .spawn (.worker (.named "A")) :: reads 2 10 :: reads 2 10 :: commits 2 5 10 ++
  .act 2 (.ran (.error (.other "RuntimeError" "")) []) :: commits 2 5 11

/-- A task fails its only attempt, and the worker, which has failed the run, is killed. -/
def killedOnce : List Act :=
  .spawn (.enqueue { job := "m.J", maxAttempts := 1, retries := 1 } none) :: commits 0 1 0 ++
  .spawn (.worker (.named "A")) :: reads 1 1 :: reads 1 1 :: commits 1 5 1 ++
  .act 1 (.ran (.error (.other "RuntimeError" "")) []) :: commits 1 4 2 ++ [.crash 1]

lemma over_of_all {p : System} {j : ℕ} (hactive : p.shared.hasActiveRun j = false)
    (hdead : ∀ pid < p.procs.length, p.lives pid = false) : Over j p := by
  refine ⟨hactive, fun pid hlives => ?_⟩
  rw [hdead pid (Pool.lt_of_lives hlives)] at hlives
  cases hlives

theorem retries_carried_twice : ∃ (p : System) (job : JobRow),
    System.init.play (fun p l => Exhausting 0 1 p l ∧ Unbroken 0 1 p l) exhaustedTwice = some p ∧
    p.shared.jobs.get? 0 = some job ∧ job.retries = 1 ∧
    (failedRuns p.shared 0 : ℤ) = job.retries + 1 := by
  have hall : ((System.init.play (fun p l => Exhausting 0 1 p l ∧ Unbroken 0 1 p l)
      exhaustedTwice).any fun p => ((p.shared.jobs.get? 0).any fun job =>
        job.retries = 1 ∧ job.source = .onDemand) ∧ p.shared.hasActiveRun 0 = false ∧
          ∀ pid < p.procs.length, p.lives pid = false) = true := by decide
  obtain ⟨p, hp, hend⟩ := (Option.any_eq_true _ _).1 hall
  obtain ⟨hrow, hactive, hdead⟩ := of_decide_eq_true hend
  obtain ⟨job, hjob, hrow'⟩ := (Option.any_eq_true _ _).1 hrow
  obtain ⟨hretries, hsource⟩ := of_decide_eq_true hrow'
  refine ⟨p, job, hp, hjob, hretries, retries_carried ?_ hjob hsource (by omega)
    (over_of_all hactive hdead)⟩
  rw [hretries]
  exact Pool.run_of_play hp

/-- A worker is killed between `fail_run` and `increment_job_attempts`: nothing of the job is left to
be claimed, and one run of it has failed where it may be retried once. -/
theorem retry_lost : ∃ (p : System) (job : JobRow),
    System.init.play (Exhausting 0 1) killedOnce = some p ∧ p.shared.jobs.get? 0 = some job ∧
    job.source = .onDemand ∧ job.retries = 1 ∧ Over 0 p ∧ failedRuns p.shared 0 = 1 ∧
    (failedRuns p.shared 0 : ℤ) ≠ job.retries + 1 := by
  have hall : ((System.init.play (Exhausting 0 1) killedOnce).any fun p =>
      ((p.shared.jobs.get? 0).any fun job => job.retries = 1 ∧ job.source = .onDemand) ∧
        failedRuns p.shared 0 = 1 ∧ p.shared.hasActiveRun 0 = false ∧
          ∀ pid < p.procs.length, p.lives pid = false) = true := by decide
  obtain ⟨p, hp, hend⟩ := (Option.any_eq_true _ _).1 hall
  obtain ⟨hrow, hfailed, hactive, hdead⟩ := of_decide_eq_true hend
  obtain ⟨job, hjob, hrow'⟩ := (Option.any_eq_true _ _).1 hrow
  obtain ⟨hretries, hsource⟩ := of_decide_eq_true hrow'
  refine ⟨p, job, hp, hjob, hsource, hretries, over_of_all hactive hdead, hfailed, ?_⟩
  rw [hfailed, hretries]
  decide

end Pyreljob
