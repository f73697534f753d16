import Pyreljob.Model.Postgres
import Pyreljob.System.Recovery

/-!
Which run a claim picks.

The two backends ask for the best run in two ways: one by a `SELECT` and a conditional `UPDATE`, the
other one by a `SELECT` that locks what it finds. Where nobody else acts they pick the same run, and
it is the best one there is.
-/

namespace Pyreljob

open Lib

/-! ### The best run -/

section

variable (db : DB) (queue : Option String) (now leaseExpiry : Time) (r : RunRow) (j : JobRow)

/-- A worker with this queue filter may claim the run, which is one of the job `j`. -/
structure Pickable : Prop where
  stored : r ∈ db.runs.rows
  job : db.jobs.get? r.jobId = some j
  active : j.status = .active
  queued : ∀ q, queue = some q → q ≠ "" → j.queue = q
  claimable : DB.Claimable now leaseExpiry r

/-- It is the best of them: no other one has a higher priority, or the same one and a lower id. -/
structure Picks : Prop where
  pickable : Pickable db queue now leaseExpiry r j
  first : ∀ r' j', Pickable db queue now leaseExpiry r' j' →
    j'.priority < j.priority ∨ (j.priority = j'.priority ∧ r.id ≤ r'.id)

end

section

variable {db : DB} {queue : Option String} {now leaseExpiry : Time} {r : RunRow} {j : JobRow}

lemma mem_claimCandidates : (r, j) ∈ db.claimCandidates queue now leaseExpiry ↔
    Pickable db queue now leaseExpiry r j := by
  simp only [DB.claimCandidates, List.mem_filterMap, Option.map_eq_some_iff, Prod.mk.injEq,
    Option.filter_eq_some_iff, Bool.decide_and, Bool.and_eq_true, decide_eq_true_eq]
  constructor
  · rintro ⟨r', hr', j', ⟨hjob, hact, hqueue⟩, rfl, rfl⟩
    obtain ⟨hget, hclaim⟩ := Table.mem_select.1 hr'
    refine ⟨Table.mem_of_get? hget, hjob, hact, ?_, hclaim⟩
    rintro q rfl hq
    have hor : q = "" ∨ j'.queue = q := by simpa using hqueue
    exact hor.resolve_left hq
  · intro h
    refine ⟨r, Table.mem_select.2 ⟨Table.get?_of_mem h.stored, h.claimable⟩, j,
      ⟨h.job, h.active, ?_⟩, rfl, rfl⟩
    cases hqueue : queue with
    | none => rfl
    | some q =>
      have hor : q = "" ∨ j.queue = q := by
        by_cases hq : q = ""
        · exact .inl hq
        · exact .inr (h.queued q hqueue hq)
      simpa using hor

instance : Std.Total DB.ClaimBefore := by
  refine ⟨fun a b => ?_⟩
  unfold DB.ClaimBefore
  omega

instance : IsTrans (RunRow × JobRow) DB.ClaimBefore := by
  refine ⟨fun a b c => ?_⟩
  unfold DB.ClaimBefore
  omega

lemma picks_of_head (h : ((db.claimCandidates queue now leaseExpiry).insertionSort
    DB.ClaimBefore).head? = some (r, j)) : Picks db queue now leaseExpiry r j := by
  obtain ⟨rest, hrest⟩ := List.head?_eq_some_iff.1 h
  have hsorted := List.pairwise_insertionSort DB.ClaimBefore (db.claimCandidates queue now leaseExpiry)
  have hmem : ∀ x, x ∈ (r, j) :: rest ↔ x ∈ db.claimCandidates queue now leaseExpiry := by
    intro x
    rw [← hrest, List.mem_insertionSort]
  rw [hrest] at hsorted
  refine ⟨mem_claimCandidates.1 ((hmem _).1 List.mem_cons_self), fun r' j' h' => ?_⟩
  rcases List.mem_cons.1 ((hmem (r', j')).2 (mem_claimCandidates.2 h')) with heq | htail
  · obtain ⟨rfl, rfl⟩ := Prod.mk.inj heq
    exact .inr ⟨rfl, le_rfl⟩
  · exact (List.pairwise_cons.1 hsorted).1 _ htail

lemma candidates_eq : PostgresBackend.candidates db queue now leaseExpiry =
    (db.claimCandidates queue now leaseExpiry).insertionSort DB.ClaimBefore := by
  have hqueue : PostgresBackend.candidates db queue now leaseExpiry =
      (((db.runs.rows.filterMap fun r => (db.jobs.get? r.jobId).map fun j => (r, j)).filter fun x =>
        x.2.status = .active ∧ DB.Claimable now leaseExpiry x.1).filter fun x =>
          queue.all fun q => q = "" ∨ x.2.queue = q).insertionSort DB.ClaimBefore := by
    unfold PostgresBackend.candidates
    cases queue with
    | none => simp
    | some q =>
      by_cases hq : q = "" <;> simp [hq]
  rw [hqueue]
  unfold DB.claimCandidates
  rw [List.filter_filter, List.filter_filterMap, Table.select, List.filterMap_filter]
  congr 1
  refine List.filterMap_congr fun r _ => ?_
  cases hjob : db.jobs.get? r.jobId with
  | none => simp
  | some j =>
    by_cases hc : DB.Claimable now leaseExpiry r
    · simp [hc, Option.filter, and_comm]
    · simp [hc]

/-! ### The two claims -/

/-- The run is given to the worker, and nothing else is touched. -/
def DB.give (db : DB) (i : ℕ) (workerId : String) (now : Time) : DB :=
  { db with
    runs := db.runs.update (fun r => r.id = i) (DB.claimed workerId now)
      (DB.key_claimed workerId now) }

lemma postgres_claim_cases (db : DB) (workerId : String) (queue : Option String)
    (now leaseExpiry : Time) :
    (db.selectClaimable queue now leaseExpiry = none ∧
      PostgresBackend.claim db (fun _ => false) workerId queue now leaseExpiry = (db, none)) ∨
    ∃ r j, db.selectClaimable queue now leaseExpiry = some r.id ∧
      Picks db queue now leaseExpiry r j ∧
      PostgresBackend.claim db (fun _ => false) workerId queue now leaseExpiry =
        (db.give r.id workerId now, some (DB.claimed workerId now r)) := by
  have hfind : (PostgresBackend.candidates db queue now leaseExpiry).find? (fun x => !false) =
      ((db.claimCandidates queue now leaseExpiry).insertionSort DB.ClaimBefore).head? := by
    rw [candidates_eq]
    cases (db.claimCandidates queue now leaseExpiry).insertionSort DB.ClaimBefore <;> rfl
  unfold PostgresBackend.claim DB.selectClaimable
  rw [hfind]
  cases hhead : ((db.claimCandidates queue now leaseExpiry).insertionSort DB.ClaimBefore).head? with
  | none => exact .inl ⟨rfl, rfl⟩
  | some x =>
    obtain ⟨r, j⟩ := x
    have hpicks := picks_of_head hhead
    have hget : db.runs.get? r.id = some r := Table.get?_of_mem hpicks.pickable.stored
    refine .inr ⟨r, j, rfl, hpicks, ?_⟩
    simp [hget, DB.give]

lemma not_pickable_of_select (h : db.selectClaimable queue now leaseExpiry = none) (r : RunRow)
    (j : JobRow) : ¬ Pickable db queue now leaseExpiry r j := by
  intro hp
  have hmem := mem_claimCandidates.2 hp
  rw [DB.selectClaimable, Option.map_eq_none_iff, List.head?_eq_none_iff] at h
  rw [← List.mem_insertionSort DB.ClaimBefore, h] at hmem
  cases hmem

lemma claim_alone (w : Worker) (db : DB) (now : Time) (lc : Option Time) :
    w.claim.alone (calmly now lc) db =
      ((PostgresBackend.claim db (fun _ => false) w.workerId w.queue now
        (now - seconds w.leaseSeconds)).1, .ok (PostgresBackend.claim db (fun _ => false) w.workerId
          w.queue now (now - seconds w.leaseSeconds)).2) := by
  unfold Worker.claim
  rw [Prog.alone_call_bind (show calmly now lc db .now = (db, .ok now) from rfl),
    Prog.alone_call_bind (show calmly now lc db .now = (db, .ok now) from rfl)]
  dsimp only
  rw [Prog.alone_call_bind (show calmly now lc db
    (.db (.selectClaimable w.queue now (now - seconds w.leaseSeconds))) =
      (db, .ok (db.selectClaimable w.queue now (now - seconds w.leaseSeconds))) from rfl)]
  rcases postgres_claim_cases db w.workerId w.queue now (now - seconds w.leaseSeconds) with
    ⟨hnone, hclaim⟩ | ⟨r, j, hsome, hpicks, hclaim⟩
  · rw [hnone, hclaim]
    rfl
  · rw [hsome, hclaim]
    have hget : db.runs.get? r.id = some r := Table.get?_of_mem hpicks.pickable.stored
    -- the `UPDATE` asks again whether the run may be claimed, and it may
    have hclaimable : ∀ r' ∈ db.runs.rows, r'.id = r.id →
        DB.Claimable now (now - seconds w.leaseSeconds) r' := by
      intro r' hr' hid
      have hr'' : db.runs.get? r'.id = some r' := Table.get?_of_mem hr'
      rw [hid, hget] at hr''
      exact Option.some.inj hr'' ▸ hpicks.pickable.claimable
    have hrun : db.claimRun r.id w.workerId now (now - seconds w.leaseSeconds) =
        (db.give r.id w.workerId now, some (DB.claimed w.workerId now r)) := by
      unfold DB.claimRun DB.give
      rw [hget, Option.filter_some_pos (by simpa using hpicks.pickable.claimable)]
      congr 2
      refine Table.update_congr _ _ fun r' hr' => ?_
      by_cases hid : r'.id = r.id
      · simp [hid, hclaimable r' hr' hid]
      · simp [hid]
    change ((db.claimRun r.id w.workerId now (now - seconds w.leaseSeconds)).1,
      Except.ok (db.claimRun r.id w.workerId now (now - seconds w.leaseSeconds)).2) = _
    rw [hrun]

end

/-- **Both claims pick the best run and agree.** Where nobody else acts, the portable claim does to
every database what the one of PostgreSQL does to it. They return nothing, and leave everything as it
is, just where there is no run that the worker may claim. Else they return the best such run and give
it to the worker: its other columns, and every other row, stay as they are. -/
theorem claims_pick_best (w : Worker) (db : DB) (now : Time) (lastClaim : Option Time) :
    let leaseExpiry := now - seconds w.leaseSeconds
    let claimed := PostgresBackend.claim db (fun _ => false) w.workerId w.queue now leaseExpiry
    w.claim.alone (calmly now lastClaim) db = (claimed.1, .ok claimed.2) ∧
    (claimed.2 = none ↔ ∀ r j, ¬ Pickable db w.queue now leaseExpiry r j) ∧
    (claimed.2 = none → claimed.1 = db) ∧
    ∀ r', claimed.2 = some r' → ∃ r j, Picks db w.queue now leaseExpiry r j ∧
      r' = { r with
        status := .running, workerId := some w.workerId, error := none,
        startedAt := some (r.startedAt.getD now), lockedAt := some now, updatedAt := some now } ∧
      claimed.1.runs.get? r.id = some r' ∧
      (∀ i, i ≠ r.id → claimed.1.runs.get? i = db.runs.get? i) ∧
      claimed.1.jobs = db.jobs ∧ claimed.1.tasks = db.tasks := by
  intro leaseExpiry claimed
  refine ⟨claim_alone w db now lastClaim, ?_⟩
  rcases postgres_claim_cases db w.workerId w.queue now leaseExpiry with
    ⟨hnone, hclaim⟩ | ⟨r, j, -, hpicks, hclaim⟩
  · have hsnd : claimed.2 = none := congrArg Prod.snd hclaim
    refine ⟨⟨fun _ => not_pickable_of_select hnone, fun _ => hsnd⟩, fun _ => ?_, fun r' h => ?_⟩
    · exact congrArg Prod.fst hclaim
    · rw [hsnd] at h
      cases h
  · have hsnd : claimed.2 = some (DB.claimed w.workerId now r) := congrArg Prod.snd hclaim
    have hfst : claimed.1 = db.give r.id w.workerId now := congrArg Prod.fst hclaim
    have hget : db.runs.get? r.id = some r := Table.get?_of_mem hpicks.pickable.stored
    refine ⟨⟨fun h => ?_, fun h => (h r j hpicks.pickable).elim⟩, fun h => ?_, fun r' h => ?_⟩
    · rw [hsnd] at h
      cases h
    · rw [hsnd] at h
      cases h
    · rw [hsnd] at h
      obtain rfl := Option.some.inj h
      rw [hfst]
      refine ⟨r, j, hpicks, rfl, ?_, fun i hi => ?_, rfl, rfl⟩
      · rw [DB.give, Table.get?_update, hget]
        simp
      · rw [DB.give, Table.get?_update]
        cases hrow : db.runs.get? i with
        | none => rfl
        | some r' =>
          have hid : r'.id ≠ r.id := fun heq => hi ((run_id_of_get? hrow).symm.trans heq)
          simp [hid]

end Pyreljob
