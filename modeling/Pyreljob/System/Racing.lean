import Pyreljob.Model.Statements
import Pyreljob.System.Sweep

/-!
The sweep among claims.

The `UPDATE` of the runs asks again whether a candidate is ready, so a run that a worker has claimed
since the `SELECT` is spared. The `UPDATE` of the jobs does not ask which candidates were spared. It is
right only where a job whose candidate was claimed is not disarmed any more.
-/

namespace Pyreljob

open Lib

/-! ### The statements of a batch alone -/

def executing (db : DB) (s : Stmt) : DB × Except Exc s.Reply := ((s.exec db).1, .ok (s.exec db).2)

section

variable {db : DB} {now cutoff : Time} {lc pc : Option Time}

/-- The rows that the `SELECT` returns name the candidates and their jobs. -/
lemma map_selected (stale : List RunRow) :
    (stale.map fun r => (r.id, r.jobId)).map Prod.fst = stale.map RunRow.id ∧
      (stale.map fun r => (r.id, r.jobId)).map Prod.snd = stale.map RunRow.jobId := by
  simp [Function.comp_def]

lemma exec_batch (now : Time) {runIds jobIds : List ℕ}
    (hids : runIds = (db.staleRuns cutoff pc).map RunRow.id)
    (hjobs : jobIds = (db.staleRuns cutoff pc).map RunRow.jobId) :
    let failed := (Stmt.failRuns runIds now).exec db
    let revived := (Stmt.reviveJobs jobIds now).exec failed.1
    db.reconcileBatch now cutoff pc =
      (revived.1, (db.staleRuns cutoff pc).length, { runs := failed.2, jobs := revived.2 }) := by
  subst hids hjobs
  rfl

lemma exec_nil (db : DB) (now : Time) :
    (Stmt.failRuns [] now).exec db = (db, 0) ∧ (Stmt.reviveJobs [] now).exec db = (db, 0) := by
  have hruns : db.runs.update (Stmt.Fails []) (DB.abandoned now) = db.runs :=
    Table.update_of_not _ fun r _ hr => List.not_mem_nil hr.1
  have hjobs : db.jobs.update (Stmt.Revives []) (DB.rearmed now) = db.jobs :=
    Table.update_of_not _ fun j _ hj => List.not_mem_nil hj.1
  have hcount : (db.runs.select (Stmt.Fails [])).length = 0 ∧
      (db.jobs.select (Stmt.Revives [])).length = 0 := by
    simp [Table.select, Stmt.Fails, Stmt.Revives]
  exact ⟨Prod.ext (congrArg (fun runs => { db with runs := runs }) hruns) hcount.1,
    Prod.ext (congrArg (fun jobs => { db with jobs := jobs }) hjobs) hcount.2⟩

/-- **With nothing in between, the statements do what the sweep does.** -/
theorem sweepStatements_alone (fuel : ℕ) (total : DB.Reconciled) :
    (sweepStatements now cutoff pc fuel total).alone executing db =
      (JobManager.sweep now cutoff pc fuel total).alone (calmly now lc) db := by
  induction fuel generalizing db total with
  | zero => rfl
  | succ fuel ih =>
    obtain ⟨hids, hjobs⟩ := map_selected (db.staleRuns cutoff pc)
    have hlen : ((db.staleRuns cutoff pc).map fun r => (r.id, r.jobId)).length =
        (db.staleRuns cutoff pc).length := List.length_map _
    have hbatch := exec_batch now hids hjobs
    unfold sweepStatements JobManager.sweep
    rw [Prog.alone_call_bind (show executing db (.selectStale cutoff pc) = (db, .ok
        ((db.staleRuns cutoff pc).map fun r => (r.id, r.jobId))) from rfl),
      Prog.alone_call_bind (calmly_undisturbed.batch db now cutoff pc)]
    generalize (db.staleRuns cutoff pc).map (fun r => (r.id, r.jobId)) = selected at *
    rw [hbatch]
    dsimp only
    by_cases hnil : selected = []
    · subst hnil
      have hshort : (db.staleRuns cutoff pc).length < DB.reconcileBatchSize := by
        rw [← hlen]
        decide
      rw [if_pos rfl, if_pos (.inl hshort)]
      obtain ⟨hfail, hrevive⟩ := exec_nil db now
      have hnone : ((Stmt.failRuns [] now).exec db).2 = 0 := congrArg Prod.snd hfail
      have hsame : (Stmt.reviveJobs [] now).exec ((Stmt.failRuns [] now).exec db).1 = (db, 0) := by
        rw [hfail]
        exact hrevive
      have hret : ∀ (x : DB × ℕ) (n : ℕ), x = (db, 0) → n = 0 → (db, Except.ok (some total)) =
          (x.1, (Except.ok (some { runs := total.runs + n, jobs := total.jobs + x.2 }) :
            Except Exc (Option DB.Reconciled))) := by
        rintro _ _ rfl rfl
        rfl
      exact hret _ _ hsame hnone
    · rw [if_neg hnil, Prog.alone_call_bind (show executing db (.failRuns (selected.map Prod.fst) now) =
          (((Stmt.failRuns (selected.map Prod.fst) now).exec db).1, .ok _) from rfl),
        Prog.alone_call_bind (show executing _ (.reviveJobs (selected.map Prod.snd) now) =
          (((Stmt.reviveJobs (selected.map Prod.snd) now).exec _).1, .ok _) from rfl)]
      rw [hlen]
      split
      · rfl
      · exact ih _

end

/-! ### What a batch has done -/

namespace StmtEvent

def failsRuns (ev : StmtEvent) : Bool :=
  match ev.req with
  | .failRuns .. => true
  | _ => false

/-- The candidates of a batch, as its `UPDATE` of the runs finds them. -/
def candidates (ev : StmtEvent) : List RunRow :=
  match ev.req with
  | .failRuns runIds _ => ev.pre.runs.select fun r => r.id ∈ runIds
  | _ => []

def spared (ev : StmtEvent) : List RunRow := ev.candidates.filter fun r => r.status ≠ .ready

def Moves (ev : StmtEvent) (r : RunRow) : Prop :=
  r ∈ ev.candidates ∧ r.status = .ready ∧
    (ev.post.runs.get? r.id).any fun r' => r'.status = .failed

/-- The statement is the `UPDATE` of the jobs, and re-arms this one. -/
def Rearms (ev : StmtEvent) (j : ℕ) : Prop :=
  ∃ jobIds now job, ev.req = .reviveJobs jobIds now ∧ ev.pre.jobs.get? j = some job ∧
    Stmt.Revives jobIds job

end StmtEvent

def lastFailRuns (pid : ℕ) (log : List StmtEvent) : Option StmtEvent :=
  (log.filter fun ev => ev.pid = pid && ev.failsRuns).getLast?

/-- Where a job is re-armed, the same batch has moved a run of it from ready to failed, and none of its
candidates was claimed in the meantime. -/
def OnlyFailed (log : List StmtEvent) : Prop :=
  ∀ l₁ ev l₂ j, log = l₁ ++ ev :: l₂ → ev.Rearms j →
    ∃ fail, lastFailRuns ev.pid l₁ = some fail ∧ (∃ r, fail.Moves r ∧ r.jobId = j) ∧
      ∀ r ∈ fail.spared, r.jobId ≠ j

/-- The act is an `UPDATE` of the jobs that finds a job disarmed, one of whose candidates was spared. -/
def Session.betrays (p : Session) : Label Party Unit → Bool
  | .act pid _ =>
    match p.pending pid with
    | some (.reviveJobs ..) => (lastFailRuns pid p.log).any fun fail =>
        fail.spared.any fun r => (p.shared.jobs.get? r.jobId).any fun j => Stmt.Disarmed j
    | _ => false
  | _ => false

/-- Nobody is killed. -/
def Uncut (_ : Session) : Label Party Unit → Prop
  | .crash _ => False
  | _ => True

instance (p : Session) : (l : Label Party Unit) → Decidable (Uncut p l)
  | .crash _ => .isFalse id
  | .spawn _ | .act _ _ => .isTrue trivial

/-- And no job whose candidate was claimed is still disarmed when the `UPDATE` of the jobs comes. -/
def Loyal (p : Session) (l : Label Party Unit) : Prop := Uncut p l ∧ p.betrays l = false

instance (p : Session) (l : Label Party Unit) : Decidable (Loyal p l) :=
  inferInstanceAs (Decidable (_ ∧ _))

/-! ### Where a sweep stands -/

/-- Where a party stands. -/
inductive Stand
  | rest
  /-- It has selected these candidates. -/
  | picked (stale : List (ℕ × ℕ))
  /-- It has updated their runs. -/
  | failed (stale : List (ℕ × ℕ))

namespace Stand

def next (c : Stand) : (s : Stmt) → Except Exc s.Reply → Stand
  | .selectStale .., .ok stale => picked stale
  | .failRuns .., .ok _ =>
    match c with
    | picked stale => failed stale
    | c => c
  | .reviveJobs .., .ok _ => rest
  | _, _ => c

/-- What a party may execute. -/
def ok (c : Stand) : Stmt → Prop
  | .failRuns runIds _ => ∃ stale, c = picked stale ∧ runIds = stale.map Prod.fst
  | .reviveJobs jobIds _ => ∃ stale, c = failed stale ∧ jobIds = stale.map Prod.snd
  | _ => True

abbrev Moves (c : Stand) (s : Stmt) (y : Except Exc s.Reply) (c' : Stand) : Prop := c' = c.next s y

end Stand

/-- The loop executes its statements in this order, with the rows that were selected. -/
lemma sweepStatements_keeps (now cutoff : Time) (pc : Option Time) (fuel : ℕ) (total : DB.Reconciled)
    (c : Stand) : (sweepStatements now cutoff pc fuel total).Keeps Stand.Moves Stand.ok
      (fun _ _ => True) c := by
  induction fuel generalizing total c with
  | zero => trivial
  | succ fuel ih =>
    refine .call_bind trivial (fun _ _ _ => trivial) ?_
    rintro stale _ rfl
    dsimp only
    split
    · trivial
    · refine .call_bind ⟨stale, rfl, rfl⟩ (fun _ _ _ => trivial) ?_
      rintro runs _ rfl
      refine .call_bind ⟨stale, rfl, rfl⟩ (fun _ _ _ => trivial) ?_
      rintro jobs _ rfl
      split
      · trivial
      · exact ih _ _

lemma Party.inPhase (k : Party) :
    Pool.InPhase Stand.Moves Stand.ok (fun _ => True) k.program .rest := by
  cases k with
  | sweep now cutoff pc fuel =>
    refine .bind ((sweepStatements_keeps now cutoff pc fuel {} .rest).mono ?_)
    rintro (_ | _) c - <;> trivial
  | claim => exact .call_bind trivial (fun _ _ _ => trivial) fun _ _ _ => trivial
  | setNextRunAt => exact .call trivial fun _ _ _ => trivial

/-! ### The invariant -/

section

variable {db : DB} {s : Stmt}

lemma exec_jobId {i : ℕ} {r : RunRow} (h : db.runs.get? i = some r) :
    ∃ r', (s.exec db).1.runs.get? i = some r' ∧ r'.jobId = r.jobId := by
  cases s with
  | failRuns runIds now =>
    refine ⟨if Stmt.Fails runIds r then DB.abandoned now r else r, ?_, ?_⟩
    · refine (Table.get?_update _ _ (DB.abandoned now) (fun _ => rfl) i).trans ?_
      rw [h]
      rfl
    · split <;> rfl
  | claimRun runId workerId now leaseExpiry =>
    refine ⟨if r.id = runId ∧ DB.Claimable now leaseExpiry r then DB.claimed workerId now r else r,
      ?_, ?_⟩
    · refine (Table.get?_update _ _ _ (DB.key_claimed workerId now) i).trans ?_
      rw [h]
      rfl
    · split <;> rfl
  | _ => exact ⟨r, h, rfl⟩

lemma lastFailRuns_concat (pid : ℕ) (log : List StmtEvent) (ev : StmtEvent) :
    lastFailRuns pid (log ++ [ev]) =
      if ev.pid = pid ∧ ev.failsRuns then some ev else lastFailRuns pid log := by
  unfold lastFailRuns
  by_cases h : ev.pid = pid ∧ ev.failsRuns
  · simp [h]
  · have hnot : (decide (ev.pid = pid) && ev.failsRuns) = false := by
      rw [Bool.eq_false_iff]
      intro hand
      simp only [Bool.and_eq_true, decide_eq_true_eq] at hand
      exact h hand
    simp [h, hnot]

/-- What is known of the candidates of a sweep. -/
structure RaceInv (db : DB) (log : List StmtEvent) (ph : ℕ → Stand) : Prop where
  picked : ∀ pid stale, ph pid = .picked stale → ∀ x ∈ stale, ∃ r, db.runs.get? x.1 = some r ∧
    r.jobId = x.2
  failed : ∀ pid stale, ph pid = .failed stale → ∃ fail, lastFailRuns pid log = some fail ∧
    ∀ x ∈ stale, ∃ r ∈ fail.candidates, r.jobId = x.2 ∧ (r.status = .ready → fail.Moves r)
  honest : OnlyFailed log

/-- A run that is ready is moved by the `UPDATE` that asks for it. -/
lemma moves_of_ready {pid : ℕ} {runIds : List ℕ} {now : Time} {db' : DB} {r : RunRow}
    {y : Except Exc (Stmt.failRuns runIds now).Reply}
    (hdb : db' = ((Stmt.failRuns runIds now).exec db).1) (hget : db.runs.get? r.id = some r)
    (hmem : r.id ∈ runIds) (hready : r.status = .ready) :
    StmtEvent.Moves ⟨pid, .failRuns runIds now, (), y, db, db'⟩ r := by
  refine ⟨Table.mem_select.2 ⟨hget, hmem⟩, hready, ?_⟩
  have hpost : db'.runs.get? r.id = some (DB.abandoned now r) := by
    rw [hdb]
    refine (Table.get?_update _ _ (DB.abandoned now) (fun _ => rfl) r.id).trans ?_
    rw [hget, Option.map_some, if_pos ⟨hmem, hready⟩]
  change (db'.runs.get? r.id).any _
  rw [hpost]
  rfl

lemma OnlyFailed.concat {log : List StmtEvent} {ev : StmtEvent} (h : OnlyFailed log)
    (hev : ∀ j, ev.Rearms j → ∃ fail, lastFailRuns ev.pid log = some fail ∧
      (∃ r, fail.Moves r ∧ r.jobId = j) ∧ ∀ r ∈ fail.spared, r.jobId ≠ j) :
    OnlyFailed (log ++ [ev]) := by
  intro l₁ ev' l₂ j hl hrearms
  rcases Pool.split_concat hl with ⟨rfl, rfl, rfl⟩ | ⟨l₂', rfl, hlog⟩
  · exact hev j hrearms
  · exact h l₁ ev' l₂' j hlog hrearms

/-- A party that has selected candidates did so before, or just now. -/
lemma Stand.of_picked {c : Stand} {stale : List (ℕ × ℕ)}
    (h : c.next s (.ok (s.exec db).2) = .picked stale) : c = .picked stale ∨
      ∃ cutoff pc, stale = (db.staleRuns cutoff pc).map fun r => (r.id, r.jobId) := by
  cases s with
  | selectStale cutoff pc =>
    cases h
    exact .inr ⟨cutoff, pc, rfl⟩
  | failRuns runIds now => cases c <;> cases h
  | reviveJobs => cases h
  | claimRun | setNextRunAt => exact .inl h

/-- A party that has updated the runs of its candidates did so before, or just now. -/
lemma Stand.of_failed {c : Stand} {stale : List (ℕ × ℕ)} (hok : c.ok s)
    (h : c.next s (.ok (s.exec db).2) = .failed stale) :
    (c = .failed stale ∧ ∀ runIds now, s ≠ .failRuns runIds now) ∨
      (c = .picked stale ∧ ∃ now, s = .failRuns (stale.map Prod.fst) now) := by
  cases s with
  | selectStale => cases h
  | failRuns runIds now =>
    obtain ⟨stale', rfl, rfl⟩ := hok
    cases h
    exact .inr ⟨rfl, now, rfl⟩
  | reviveJobs => cases h
  | claimRun | setNextRunAt => exact .inl ⟨h, nofun⟩

lemma RaceInv.picked_step {log : List StmtEvent} {ph : ℕ → Stand} (h : RaceInv db log ph) (pid : ℕ)
    {q : ℕ} {stale : List (ℕ × ℕ)}
    (hq : Function.update ph pid ((ph pid).next s (.ok (s.exec db).2)) q = .picked stale) :
    ∀ x ∈ stale, ∃ r, (s.exec db).1.runs.get? x.1 = some r ∧ r.jobId = x.2 := by
  intro x hx
  suffices hnow : ∃ r, db.runs.get? x.1 = some r ∧ r.jobId = x.2 by
    obtain ⟨r, hr, hj⟩ := hnow
    obtain ⟨r', hr', hj'⟩ := exec_jobId (s := s) hr
    exact ⟨r', hr', hj'.trans hj⟩
  by_cases hqp : q = pid
  · subst hqp
    rw [Function.update_self] at hq
    rcases Stand.of_picked hq with hbefore | ⟨cutoff, pc, rfl⟩
    · exact h.picked q stale hbefore x hx
    · obtain ⟨r, hr, rfl⟩ := List.mem_map.1 hx
      exact ⟨r, (stale_of_mem_staleRuns hr).1, rfl⟩
  · rw [Function.update_of_ne hqp] at hq
    exact h.picked q stale hq x hx

/-- A party that has updated the runs has moved those that were ready. -/
lemma RaceInv.failed_step {log : List StmtEvent} {ph : ℕ → Stand} (h : RaceInv db log ph) {pid : ℕ}
    (hok : (ph pid).ok s) {q : ℕ} {stale : List (ℕ × ℕ)}
    (hq : Function.update ph pid ((ph pid).next s (.ok (s.exec db).2)) q = .failed stale) :
    ∃ fail, lastFailRuns q (log ++ [⟨pid, s, (), .ok (s.exec db).2, db, (s.exec db).1⟩]) = some fail ∧
      ∀ x ∈ stale, ∃ r ∈ fail.candidates, r.jobId = x.2 ∧ (r.status = .ready → fail.Moves r) := by
  by_cases hqp : q = pid
  · subst hqp
    rw [Function.update_self] at hq
    rcases Stand.of_failed hok hq with ⟨hbefore, hnot⟩ | ⟨hpicked, now, rfl⟩
    · have hevent : StmtEvent.failsRuns ⟨q, s, (), .ok (s.exec db).2, db, (s.exec db).1⟩ = false := by
        cases s with
        | failRuns runIds now => exact absurd rfl (hnot runIds now)
        | _ => rfl
      rw [lastFailRuns_concat, if_neg (by simp [hevent])]
      exact h.failed q stale hbefore
    · refine ⟨_, by rw [lastFailRuns_concat, if_pos ⟨rfl, rfl⟩], fun x hx => ?_⟩
      obtain ⟨r, hr, hj⟩ := h.picked q stale hpicked x hx
      have hid := run_id_of_get? hr
      have hmem : r.id ∈ stale.map Prod.fst := hid ▸ List.mem_map_of_mem hx
      rw [← hid] at hr
      exact ⟨r, Table.mem_select.2 ⟨hr, hmem⟩, hj, moves_of_ready rfl hr hmem⟩
  · rw [Function.update_of_ne hqp] at hq
    rw [lastFailRuns_concat, if_neg (fun hand => hqp hand.1.symm)]
    exact h.failed q stale hq

/-- A job that is re-armed belongs to a run that was moved, if none of its candidates was spared. -/
lemma RaceInv.honest_step {log : List StmtEvent} {ph : ℕ → Stand} (h : RaceInv db log ph) {pid : ℕ}
    (hok : (ph pid).ok s)
    (hloyal : ∀ jobIds now, s = .reviveJobs jobIds now → ∀ fail, lastFailRuns pid log = some fail →
      ∀ r ∈ fail.spared, ∀ j, db.jobs.get? r.jobId = some j → ¬ Stmt.Disarmed j) :
    OnlyFailed (log ++ [⟨pid, s, (), .ok (s.exec db).2, db, (s.exec db).1⟩]) := by
  refine h.honest.concat ?_
  rintro j ⟨jobIds, now, job, heq, hjob, hrev⟩
  obtain rfl : s = .reviveJobs jobIds now := heq
  obtain ⟨stale, hph, rfl⟩ := hok
  obtain ⟨fail, hfail, hcandidates⟩ := h.failed pid stale hph
  have hdisarmed : ∀ r ∈ fail.spared, r.jobId ≠ j := by
    rintro r hr rfl
    exact hloyal _ _ rfl fail hfail r hr job hjob hrev.2
  refine ⟨fail, hfail, ?_, hdisarmed⟩
  obtain ⟨x, hx, hxj⟩ := List.mem_map.1 hrev.1
  obtain ⟨r, hr, hrj, hmoves⟩ := hcandidates x hx
  have hj : r.jobId = j := hrj.trans (hxj.trans (job_id_of_get? hjob))
  refine ⟨r, hmoves ?_, hj⟩
  by_contra hnot
  exact hdisarmed r (List.mem_filter.2 ⟨hr, decide_eq_true hnot⟩) hj

/-- **What a statement does to the invariant.** -/
lemma RaceInv.step {log : List StmtEvent} {ph : ℕ → Stand} (h : RaceInv db log ph) {pid : ℕ}
    (hok : (ph pid).ok s)
    (hloyal : ∀ jobIds now, s = .reviveJobs jobIds now → ∀ fail, lastFailRuns pid log = some fail →
      ∀ r ∈ fail.spared, ∀ j, db.jobs.get? r.jobId = some j → ¬ Stmt.Disarmed j) :
    RaceInv (s.exec db).1 (log ++ [⟨pid, s, (), .ok (s.exec db).2, db, (s.exec db).1⟩])
      (Function.update ph pid ((ph pid).next s (.ok (s.exec db).2))) where
  picked := fun _ _ hq => h.picked_step pid hq
  failed := fun _ _ hq => h.failed_step hok hq
  honest := h.honest_step hok hloyal

end

/-- **The sweep re-arms a job only where it has failed a run of it**, if no job whose candidate was
claimed since the `SELECT` is still disarmed when its `UPDATE` of the jobs comes. This holds for every
database and any number of claims and re-armings between the statements. -/
theorem revives_only_failed {db : DB} {p : Session} (h : Session.Run Loyal (.start db) p) :
    OnlyFailed p.log := by
  have hstart : Pool.Phased Stand.Moves Stand.ok (fun _ => True) .rest .rest (Session.start db)
      fun _ => .rest := by
    intro pid
    simp [Session.start, Pool.prog?]
  have hinit : RaceInv db [] fun _ => .rest :=
    ⟨fun _ _ => by rintro ⟨⟩, fun _ _ => by rintro ⟨⟩, fun l₁ _ _ _ hl => by cases l₁ <;> cases hl⟩
  -- a party that is gone has selected nothing
  have hgone : ∀ (db : DB) log (ph : ℕ → Stand) pid, RaceInv db log ph →
      RaceInv db log (Function.update ph pid .rest) := by
    intro db log ph pid hG
    have hstays : ∀ {q c}, c ≠ .rest → Function.update ph pid .rest q = c → ph q = c := by
      rintro q c hc rfl
      by_cases hqp : q = pid
      · exact absurd (by rw [hqp, Function.update_self]) hc
      · rw [Function.update_of_ne hqp]
    exact ⟨fun q stale hq => hG.picked q stale (hstays (by rintro ⟨⟩) hq),
      fun q stale hq => hG.failed q stale (hstays (by rintro ⟨⟩) hq), hG.honest⟩
  have hphases : ∃ ph, Pool.Phased Stand.Moves Stand.ok (fun _ => True) .rest .rest p ph ∧
      RaceInv p.shared p.log ph := by
    refine Pool.phases (fun _ k _ => k.inPhase) (fun _ _ pid _ _ hG => hgone _ _ _ pid hG)
      (fun _ _ _ pid _ hG => hgone _ _ _ pid hG) ?_ h hstart hinit
    intro p p' ph pid a s f y hC _ _ hG hacts hok
    have hans : some ((s.exec p.shared).1, Except.ok (s.exec p.shared).2) = some (p'.shared, y) :=
      hacts.answered
    obtain ⟨hdb, rfl⟩ := Prod.mk.inj (Option.some.inj hans)
    refine ⟨_, rfl, ?_⟩
    rw [hacts.logged, ← hdb]
    refine hG.step hok ?_
    rintro jobIds now rfl fail hfail r hr j hj hdisarmed
    have hbetrays : Session.betrays p (.act pid a) = true := by
      simp only [Session.betrays, hacts.pending, hfail, Option.any_some, List.any_eq_true]
      exact ⟨r, hr, by simp [hj, hdisarmed]⟩
    rw [hC.2] at hbetrays
    cases hbetrays
  obtain ⟨ph, -, hG⟩ := hphases
  exact hG.honest

/-- A maintained job that was fired, and its run, which has not been claimed for long. -/
def staleFire : DB where
  jobs := .single { id := 0, job := "Poll", source := .scheduled, createdAt := 0 }
  runs := .single { id := 0, jobId := 0, createdAt := 0 }

def sweepAlone : List (Label Party Unit) :=
  [.spawn (.sweep (seconds 1000) (seconds 700) none 1), .act 0 (), .act 0 (), .act 0 ()]

/-- It fails the run and re-arms the job. -/
theorem revives_only_failed_staleFire : ∃ p, Session.Run Loyal (.start staleFire) p ∧
    OnlyFailed p.log ∧ (p.shared.runs.get? 0).any (fun r => r.status = .failed) ∧
    (p.shared.jobs.get? 0).any fun j => j.nextRunAt = some (seconds 1000) := by
  have hrun : Session.Run Loyal (.start staleFire) _ := Pool.run_of_play
    (show Session.play Loyal (.start staleFire) sweepAlone = some _ from rfl)
  exact ⟨_, hrun, revives_only_failed hrun, by decide, by decide⟩

/-- A worker claims the run between the `SELECT` and the `UPDATE`. -/
def sweepRaced : List (Label Party Unit) :=
  [.spawn (.sweep (seconds 1000) (seconds 700) none 1),
    .spawn (.claim 0 "w" (seconds 1000) (seconds 970)), .act 0 (), .act 1 (), .act 0 (), .act 0 ()]

/-- The run is spared, and the job is re-armed all the same. -/
theorem revives_spared : ∃ p, Session.Run Uncut (.start staleFire) p ∧ ¬ OnlyFailed p.log := by
  have hrun : Session.Run Uncut (.start staleFire) _ := Pool.run_of_play
    (show Session.play Uncut (.start staleFire) sweepRaced = some _ from rfl)
  refine ⟨_, hrun, fun h => ?_⟩
  obtain ⟨fail, hfail, ⟨r, ⟨hmem, hready, -⟩, -⟩, -⟩ :=
    h [_, _, _] _ [] 0 rfl ⟨[0], _, _, rfl, rfl, by decide⟩
  obtain rfl := Option.some.inj hfail
  -- the only candidate is running by then
  obtain rfl := List.mem_singleton.1 hmem
  cases hready

end Pyreljob
