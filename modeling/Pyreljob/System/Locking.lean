import Pyreljob.Model.Locks
import Pyreljob.Store.Lifecycle
import Pyreljob.System.Claim
import Pyreljob.System.Footprint
import Pyreljob.System.Picking

/-!
Claims that lock what they select.

The `UPDATE` of `PostgresBackend.claim` asks nothing about the run but its id. That is enough because of
the locks: nobody writes to the run or to its job between the two statements, so what was found claimable
still is, and nobody else has found the same run. And nobody waits for a claim but those who would write
to its run or its job; two claims never wait for one another.
-/

namespace Pyreljob

open Lib Relation

/-! ### From the one statement to the other -/

/-- What the `SELECT` of a claim has just returned, and the clock as the claim has read it. -/
abbrev Choice := Option (ℕ × Time × Time)

def choice : (r : Req) → Except Exc r.Reply → Choice
  | .db (.selectClaimable _ now leaseExpiry), .ok (some i) => some (i, now, leaseExpiry)
  | _, _ => none

def Chooses (_ : Choice) (r : Req) (y : Except Exc r.Reply) (c : Choice) : Prop :=
  Valid r y ∧ c = choice r y

/-- A run that was returned is updated at once, and no other one. -/
def Chosen (c : Choice) : Req → Prop
  | .db (.claimRun i _ now leaseExpiry) => c = some (i, now, leaseExpiry)
  | _ => c = none

section

variable {α : Type} {may : Leave}

lemma executes_choosing {p : Io α} {Q : Except Exc α → Phase → Prop} {i j : ℕ} {w : String} {s : Stage}
    (h : Obeys may p Q (.exec i j w s)) : p.Keeps Chooses Chosen (fun _ c => c = none) none := by
  refine (Prog.Keeps.sim (fun c c' => c = none ∧ ∃ s, c' = .exec i j w s) ?_ ?_ h ⟨rfl, s, rfl⟩).mono ?_
  · rintro _ _ r y d ⟨rfl, s, rfl⟩ hok ⟨hv, rfl⟩
    refine ⟨_, ⟨hv, rfl⟩, ?_, Phase.next_exec y hok⟩
    unfold choice
    split
    · exact hok.1.elim
    · rfl
  · rintro _ _ r ⟨rfl, s, rfl⟩ hok
    unfold Chosen
    split
    · cases hok
    · rfl
  · rintro _ _ ⟨_, ⟨rfl, -⟩, -⟩
    rfl

lemma tick_choosing (w : Worker) : w.tick.Keeps Chooses Chosen (fun _ c => c = none) none := by
  have hclaim : w.claim.Keeps Chooses Chosen (fun _ c => c = none) none := by
    refine .call_bind rfl ?_ ?_
    · rintro e _ ⟨-, rfl⟩
      rfl
    rintro now _ ⟨-, rfl⟩
    refine .call_bind rfl ?_ ?_
    · rintro e _ ⟨-, rfl⟩
      rfl
    rintro now' _ ⟨-, rfl⟩
    refine .call_bind rfl ?_ ?_
    · rintro e _ ⟨-, rfl⟩
      rfl
    rintro row _ ⟨-, rfl⟩
    cases row with
    | none => rfl
    | some runId =>
      refine .call rfl ?_
      rintro y _ ⟨-, rfl⟩
      rfl
  refine .bind (hclaim.mono ?_)
  rintro (e | run) c hc
  · exact hc
  · cases run with
    | none => exact hc
    | some run =>
      have hobeys : Obeys {} (w.execute run) Anyhow (.exec run.id run.jobId w.workerId .working) :=
        execute_obeys w run
      exact hc ▸ executes_choosing hobeys

/-- **Every process updates what it has selected**, and does nothing in between. -/
lemma kind_choosing (k : Kind) : Pool.InPhase Chooses Chosen (fun c => c = none) k.program none := by
  have hother : (∀ i w now le, ¬ k.May (.db (.claimRun i w now le))) →
      (∀ q now le, ¬ k.May (.db (.selectClaimable q now le))) →
      Pool.InPhase Chooses Chosen (fun c => c = none) k.program none := by
    intro hclaim hselect
    have hwithin : k.program.Within Chooses Chosen fun c => c = none := by
      refine (Kind.asks_may k).stays ?_ ?_
      · rintro _ r rfl hr
        unfold Chosen
        split
        · exact (hclaim _ _ _ _ hr).elim
        · rfl
      · rintro _ r y _ rfl hr ⟨-, rfl⟩
        unfold choice
        split
        · exact (hselect _ _ _ hr).elim
        · rfl
    exact hwithin none rfl
  cases k with
  | worker w => exact tick_choosing w
  | _ => exact hother (fun _ _ _ _ => id) fun _ _ _ => id

end

/-! ### What a statement does -/

section

variable {db db' : DB} {L : PostgresBackend.Locks} {e : Env} {c : Call} {i : ℕ} {r : RunRow}
  {now leaseExpiry : Time}

lemma spared_iff : L.spared db db' ↔ (∀ i ∈ L.runs, db'.runs.get? i = db.runs.get? i) ∧
    ∀ j ∈ L.jobs, db'.jobs.get? j = db.jobs.get? j := by
  simp [PostgresBackend.Locks.spared]

lemma answer_of_spared {y : Except Exc c.Reply} (hx : PostgresBackend.exec db L e c = some (db', y))
    (hs : L.spared db db') : PostgresBackend.answer db (.db c) (.commit e, L) = some (db', y) := by
  rw [PostgresBackend.answer, hx]
  exact Option.filter_some_pos hs

def Free (db : DB) (i : ℕ) (now leaseExpiry : Time) : Prop :=
  ∃ r j, db.runs.get? i = some r ∧ DB.Claimable now leaseExpiry r ∧
    db.jobs.get? r.jobId = some j ∧ j.status = .active

/-- A `SELECT` returns a run that may be claimed, and that is not locked, nor its job. -/
lemma select_spec {queue : Option String}
    (h : PostgresBackend.select db L queue now leaseExpiry = some i) :
    Free db i now leaseExpiry ∧ ∃ r, db.runs.get? i = some r ∧ i ∉ L.runs ∧ r.jobId ∉ L.jobs := by
  obtain ⟨⟨r, j⟩, hfind, rfl⟩ := Option.map_eq_some_iff.1 h
  have hmem := List.mem_of_find?_eq_some hfind
  have hfree := List.find?_some hfind
  rw [candidates_eq, List.mem_insertionSort, mem_claimCandidates] at hmem
  have hget : db.runs.get? r.id = some r := Table.get?_of_mem hmem.stored
  simp only [PostgresBackend.Locks.has, Bool.not_eq_true', Bool.or_eq_false_iff,
    decide_eq_false_iff_not] at hfree
  refine ⟨⟨r, j, hget, hmem.claimable, hmem.job, hmem.active⟩, r, hget, hfree.1, ?_⟩
  have hid : j.id = r.jobId := Table.key_of_get? hmem.job
  exact hid ▸ hfree.2

/-- **The two statements are the claim**, where nothing happens in between. -/
theorem claim_eq_take (db : DB) (locked : List ℕ) (w : String) (queue : Option String)
    (now leaseExpiry : Time) :
    PostgresBackend.claim db (fun i => decide (i ∈ locked)) w queue now leaseExpiry =
      (PostgresBackend.select db { runs := locked } queue now leaseExpiry).elim (db, none) fun i =>
        PostgresBackend.take db i w now := by
  have hhas : ∀ x : RunRow × JobRow, PostgresBackend.Locks.has { runs := locked } x =
      decide (x.1.id ∈ locked) := by
    intro x
    simp [PostgresBackend.Locks.has]
  unfold PostgresBackend.claim PostgresBackend.select
  simp only [hhas]
  cases (PostgresBackend.candidates db queue now leaseExpiry).find? fun x =>
    !decide (x.1.id ∈ locked) with
  | none => rfl
  | some x => rfl

/-- **The `UPDATE` of a run that may be claimed is the conditional one.** -/
lemma take_eq (h : Free db i now leaseExpiry) (w : String) :
    PostgresBackend.take db i w now = db.claimRun i w now leaseExpiry := by
  obtain ⟨r, j, hr, hc, -⟩ := h
  have hclaimable : ∀ r' ∈ db.runs.rows, r'.id = i → DB.Claimable now leaseExpiry r' := by
    intro r' hr' hid
    have hr'' : db.runs.get? r'.id = some r' := Table.get?_of_mem hr'
    rw [hid, hr] at hr''
    exact Option.some.inj hr'' ▸ hc
  have hrows : db.runs.update (fun r => r.id = i) (DB.claimed w now) (DB.key_claimed w now) =
      db.runs.update (fun r => r.id = i ∧ DB.Claimable now leaseExpiry r) (DB.claimed w now)
        (DB.key_claimed w now) := by
    refine Table.update_congr _ _ fun r' hr' => ?_
    by_cases hid : r'.id = i
    · simp [hid, hclaimable r' hr' hid]
    · simp [hid]
  unfold PostgresBackend.take DB.claimRun
  dsimp only
  rw [← hrows, hr, Option.filter_some_pos (by simpa using hc), Table.get?_update, hr]
  simp [run_id_of_get? hr]

/-- The statement commits, or the request is answered as elsewhere. -/
lemma pg_cases {db : DB}
    {motive : (r : Req) → Answer × PostgresBackend.Locks → DB → Except Exc r.Reply → Prop}
    (hcommit : ∀ c e L db' y, PostgresBackend.exec db L e c = some (db', y) → L.spared db db' →
      motive (.db c) (.commit e, L) db' y)
    (hraise : ∀ c exc L, motive (.db c) (.fail exc, L) db (.error exc))
    (hask : ∀ r a L y, (∀ c, r ≠ .db c) → answer db r a = some (db, y) → motive r (a, L) db y)
    {r : Req} {a : Answer × PostgresBackend.Locks} {db' : DB} {y : Except Exc r.Reply}
    (h : PostgresBackend.answer db r a = some (db', y)) : motive r a db' y := by
  obtain ⟨a, L⟩ := a
  have helse : answer db r a = some (db', y) → (∀ c e, r = .db c → a ≠ .commit e) →
      motive r (a, L) db' y := by
    intro h hne
    revert hne
    refine answer_cases (motive := fun r a db' y => (∀ c e, r = .db c → a ≠ .commit e) →
      motive r (a, L) db' y) ?_ ?_ ?_ h
    · exact fun c e _ _ _ hne => absurd rfl (hne c e rfl)
    · exact fun c exc _ => hraise c exc L
    · exact fun r a y hr hans _ => hask r a L y hr hans
  cases r with
  | db c =>
    cases a with
    | commit e =>
      obtain ⟨hx, hs⟩ := Option.filter_eq_some_iff.1 h
      exact hcommit c e L db' y hx hs
    | _ => exact helse h (by simp)
  | _ => exact helse h (by simp)

end

/-! ### The invariant -/

def PgEv.plain (ev : PgEv) : Ev where
  pid := ev.pid
  req := ev.req
  ans := ev.ans.1
  reply := ev.reply
  pre := ev.pre
  post := ev.post

/-- What has been answered, without the locks. -/
def PgSystem.plainLog (p : PgSystem) : List Ev := p.log.map PgEv.plain

/-- Every process is in its phase, and has chosen what it has. -/
abbrev Chosens (p : PgSystem) (ph : ℕ → Phase × Choice) : Prop :=
  Pool.Phased (fun c r y c' => Phase.Moves c.1 r y c'.1 ∧ Chooses c.2 r y c'.2)
    (fun c r => c.1.ok {} r ∧ Chosen c.2 r) (fun c => c.2 = none) (.rest, none) (.gone, none) p ph

/-- The update took a run that was free, as the conditional one would have. -/
def TookFree (ev : Ev) : Prop :=
  ∀ i w now leaseExpiry e, ev.req = .db (.claimRun i w now leaseExpiry) → ev.ans = .commit e →
    Free ev.pre i now leaseExpiry ∧ ev.post = (ev.pre.claimRun i w now leaseExpiry).1 ∧
      (claimOf ev).isSome

/-- What holds between the locks of the open claims and the rows. -/
structure LockInv (db : DB) (log : List Ev) (ph : ℕ → Phase × Choice) : Prop where
  claims : ClaimInv db log (Prod.fst ∘ ph)
  /-- What somebody has locked is free. -/
  free : ∀ pid i now leaseExpiry, (ph pid).2 = some (i, now, leaseExpiry) → Free db i now leaseExpiry
  /-- Two processes have locked two jobs. -/
  apart : ∀ pid pid' x x', pid ≠ pid' → (ph pid).2 = some x → (ph pid').2 = some x' →
    (db.runs.get? x.1).map RunRow.jobId ≠ (db.runs.get? x'.1).map RunRow.jobId
  took : ∀ ev ∈ log, TookFree ev

section

variable {p : PgSystem} {ph : ℕ → Phase × Choice} {pid q i : ℕ} {now leaseExpiry : Time}

lemma pending_of_choice (hph : Chosens p ph) (hq : (ph q).2 = some (i, now, leaseExpiry)) :
    ∃ w, p.pending q = some (.db (.claimRun i w now leaseExpiry)) := by
  have hlives : p.lives q := by
    refine hph.lives ?_ ?_
    · rintro hs
      rw [hs] at hq
      cases hq
    · rintro hg
      rw [hg] at hq
      cases hq
  obtain ⟨prog, hprog⟩ := Option.isSome_iff_exists.1 hlives
  have hkeeps := hph.of_prog? hprog
  cases prog with
  | ret v =>
    rw [show (ph q).2 = none from hkeeps] at hq
    cases hq
  | ask r f =>
    have hchosen : Chosen (ph q).2 r := hkeeps.1.2
    rw [hq] at hchosen
    unfold Chosen at hchosen
    split at hchosen
    · rename_i i' w now' le'
      cases hchosen
      exact ⟨w, by rw [Pool.pending, hprog]⟩
    · cases hchosen

lemma locked_of_choice (hph : Chosens p ph) (hne : q ≠ pid)
    (hq : (ph q).2 = some (i, now, leaseExpiry)) :
    i ∈ p.lockedRuns pid ∧ ∀ r, p.shared.runs.get? i = some r → r.jobId ∈ p.lockedJobs pid := by
  obtain ⟨w, hr⟩ := pending_of_choice hph hq
  have hlt : q < p.procs.length := by
    obtain ⟨f, hf⟩ := Pool.prog?_of_pending hr
    exact Pool.lt_of_lives (by simp [Pool.lives, hf])
  have hmem : i ∈ p.lockedRuns pid := by
    refine List.mem_filterMap.2 ⟨q, List.mem_filter.2 ⟨List.mem_range.2 hlt, by simpa using hne⟩, ?_⟩
    rw [hr]
    rfl
  refine ⟨hmem, fun r hrow => List.mem_filterMap.2 ⟨i, hmem, ?_⟩⟩
  rw [hrow]
  rfl

lemma spared_of_choice {L : PostgresBackend.Locks} {db' : DB} (hph : Chosens p ph)
    (hruns : p.lockedRuns pid ⊆ L.runs) (hjobs : p.lockedJobs pid ⊆ L.jobs) (hs : L.spared p.shared db')
    (hne : q ≠ pid) (hq : (ph q).2 = some (i, now, leaseExpiry)) :
    db'.runs.get? i = p.shared.runs.get? i ∧
      ∀ r, p.shared.runs.get? i = some r → db'.jobs.get? r.jobId = p.shared.jobs.get? r.jobId := by
  obtain ⟨hrun, hjob⟩ := locked_of_choice hph hne hq
  obtain ⟨hsr, hsj⟩ := spared_iff.1 hs
  exact ⟨hsr i (hruns hrun), fun r hr => hsj r.jobId (hjobs (hjob r hr))⟩

lemma choice_eq_some {r : Req} {y : Except Exc r.Reply} (h : choice r y = some (i, now, leaseExpiry)) :
    ∃ queue, r = .db (.selectClaimable queue now leaseExpiry) ∧ SelectedBy i r y := by
  unfold choice at h
  split at h
  · rename_i queue now' le' i'
    cases h
    exact ⟨queue, rfl, rfl⟩
  · cases h

variable {log : List Ev} {c : Call} {e : Env} {L : PostgresBackend.Locks} {db' : DB}
  {y : Except Exc c.Reply}

lemma select_of_choice (hx : PostgresBackend.exec p.shared L e c = some (db', y))
    (h : choice (.db c) y = some (i, now, leaseExpiry)) :
    db' = p.shared ∧ Free p.shared i now leaseExpiry ∧
      ∃ r, p.shared.runs.get? i = some r ∧ i ∉ L.runs ∧ r.jobId ∉ L.jobs := by
  obtain ⟨queue, hc, hsel⟩ := choice_eq_some h
  cases hc
  simp only [PostgresBackend.exec, Option.some.injEq, Prod.mk.injEq] at hx
  obtain ⟨rfl, rfl⟩ := hx
  cases hselect : PostgresBackend.select p.shared L queue now leaseExpiry with
  | none =>
    rw [hselect] at hsel
    exact hsel.elim
  | some i' =>
    rw [hselect] at hsel
    obtain rfl : i' = i := hsel
    exact ⟨rfl, select_spec hselect⟩

lemma LockInv.free_step (h : LockInv p.shared log ph) (hph : Chosens p ph)
    (hruns : p.lockedRuns pid ⊆ L.runs) (hjobs : p.lockedJobs pid ⊆ L.jobs) (hs : L.spared p.shared db')
    (hx : PostgresBackend.exec p.shared L e c = some (db', y)) {a : Phase}
    (hq : (Function.update ph pid (a, choice (.db c) y) q).2 = some (i, now, leaseExpiry)) :
    Free db' i now leaseExpiry := by
  by_cases hqp : q = pid
  · rw [hqp, Function.update_self] at hq
    obtain ⟨rfl, hfree, -⟩ := select_of_choice hx hq
    exact hfree
  · rw [Function.update_of_ne hqp] at hq
    obtain ⟨r, j, hr, hc, hj, hact⟩ := h.free q i now leaseExpiry hq
    obtain ⟨hrun, hjob⟩ := spared_of_choice hph hruns hjobs hs hqp hq
    exact ⟨r, j, hrun.trans hr, hc, (hjob r hr).trans hj, hact⟩

/-- A process chooses a run of a job that nobody else has locked. -/
lemma LockInv.apart_new (h : LockInv p.shared log ph) (hph : Chosens p ph)
    (hjobs : p.lockedJobs pid ⊆ L.jobs) (hx : PostgresBackend.exec p.shared L e c = some (db', y))
    (hnew : choice (.db c) y = some (i, now, leaseExpiry)) (hne : q ≠ pid) {x : ℕ × Time × Time}
    (hq : (ph q).2 = some x) :
    (db'.runs.get? i).map RunRow.jobId ≠ (db'.runs.get? x.1).map RunRow.jobId := by
  obtain ⟨rfl, -, r, hr, -, hnot⟩ := select_of_choice hx hnew
  obtain ⟨i', now', le'⟩ := x
  obtain ⟨r', -, hr', -⟩ := h.free q i' now' le' hq
  have hlocked := hjobs ((locked_of_choice hph hne hq).2 r' hr')
  rw [hr, hr', Option.map_some, Option.map_some]
  intro hsame
  exact hnot (Option.some.inj hsame ▸ hlocked)

lemma LockInv.apart_step (h : LockInv p.shared log ph) (hph : Chosens p ph)
    (hruns : p.lockedRuns pid ⊆ L.runs) (hjobs : p.lockedJobs pid ⊆ L.jobs) (hs : L.spared p.shared db')
    (hx : PostgresBackend.exec p.shared L e c = some (db', y)) {a : Phase} {q' : ℕ}
    {x x' : ℕ × Time × Time} (hne : q ≠ q')
    (hq : (Function.update ph pid (a, choice (.db c) y) q).2 = some x)
    (hq' : (Function.update ph pid (a, choice (.db c) y) q').2 = some x') :
    (db'.runs.get? x.1).map RunRow.jobId ≠ (db'.runs.get? x'.1).map RunRow.jobId := by
  by_cases hqp : q = pid
  · subst hqp
    rw [Function.update_self] at hq
    rw [Function.update_of_ne hne.symm] at hq'
    exact h.apart_new hph hjobs hx hq hne.symm hq'
  · rw [Function.update_of_ne hqp] at hq
    by_cases hqp' : q' = pid
    · subst hqp'
      rw [Function.update_self] at hq'
      exact (h.apart_new hph hjobs hx hq' hqp hq).symm
    · rw [Function.update_of_ne hqp'] at hq'
      rw [(spared_of_choice hph hruns hjobs hs hqp hq).1,
        (spared_of_choice hph hruns hjobs hs hqp' hq').1]
      exact h.apart q q' x x' hne hq hq'

/-- A statement that does not select does what it does elsewhere. -/
lemma exec_plain (hx : PostgresBackend.exec p.shared L e c = some (db', y))
    (hfree : ∀ i w now le, c = .claimRun i w now le → Free p.shared i now le)
    (hsel : ∀ queue now le, c ≠ .selectClaimable queue now le) : c.exec p.shared e = some (db', y) := by
  cases c with
  | selectClaimable queue now le => exact absurd rfl (hsel queue now le)
  | claimRun i w now le =>
    simp only [PostgresBackend.exec] at hx
    rw [take_eq (hfree i w now le rfl)] at hx
    exact hx
  | _ => exact hx

lemma ClaimInv.selects {db : DB} {ph : ℕ → Phase} {b : Phase}
    (h : ClaimInv db log (Function.update ph pid b)) {a : Phase}
    (ha : ∀ i now le, a = .selected i now le → Eligible db i) :
    ClaimInv db log (Function.update ph pid a) := by
  refine ⟨fun q i now le hq => ?_, h.held, h.safe, h.apart⟩
  by_cases hqp : q = pid
  · rw [hqp, Function.update_self] at hq
    exact ha i now le hq
  · rw [Function.update_of_ne hqp] at hq
    refine h.selected q i now le ?_
    rw [Function.update_of_ne hqp]
    exact hq

lemma Free.eligible {db : DB} (h : Free db i now leaseExpiry) : Eligible db i := by
  obtain ⟨r, j, hr, -, hj, hact⟩ := h
  refine ⟨Table.lt_seq_of_get? hr, fun r' hr' _ => ?_⟩
  rw [hr] at hr'
  cases hr'
  exact ⟨j, hj, hact⟩

lemma LockInv.claims_step (h : LockInv p.shared log ph) (hf : e.Fresh p.shared)
    (hok : (ph pid).1.ok {} (.db c)) (hch : Chosen (ph pid).2 (.db c))
    (hx : PostgresBackend.exec p.shared L e c = some (db', y)) :
    ClaimInv db' (log ++ [⟨pid, .db c, .commit e, y, p.shared, db'⟩])
      (Function.update (Prod.fst ∘ ph) pid ((ph pid).1.next (.db c) y)) := by
  have hfree : ∀ i w now le, c = .claimRun i w now le → Free p.shared i now le := by
    rintro i w now le rfl
    exact h.free pid i now le hch
  by_cases hsel : ∀ queue now le, c ≠ .selectClaimable queue now le
  · exact h.claims.commit hf hok (exec_plain hx hfree hsel)
  · push Not at hsel
    obtain ⟨queue, now, le, rfl⟩ := hsel
    have hdb : db' = p.shared := by
      simp only [PostgresBackend.exec, Option.some.injEq, Prod.mk.injEq] at hx
      exact hx.1.symm
    subst hdb
    have hquiet : ClaimInv p.shared
        (log ++ [⟨pid, .db (.selectClaimable queue now le), .commit e, y, p.shared, p.shared⟩])
        (Function.update (Prod.fst ∘ ph) pid .rest) :=
      h.claims.quiet rfl (fun _ => rfl) fun _ _ _ h => by cases h
    refine hquiet.selects fun i now' le' ha => ?_
    rcases selected_of_next hok ha with hs | hs
    · rw [hs] at hok
      exact hok.1.elim
    · have hchoice : choice (.db (.selectClaimable queue now le)) y = some (i, now, le) := by
        obtain e | o := y
        · exact hs.elim
        · cases o with
          | none => exact hs.elim
          | some i' =>
            obtain rfl : i' = i := hs
            rfl
      exact (select_of_choice hx hchoice).2.1.eligible

lemma LockInv.took_step (h : LockInv p.shared log ph) (hch : Chosen (ph pid).2 (.db c))
    (hx : PostgresBackend.exec p.shared L e c = some (db', y)) :
    TookFree ⟨pid, .db c, .commit e, y, p.shared, db'⟩ := by
  rintro i w now le e' hreq -
  cases hreq
  have hfree := h.free pid i now le hch
  simp only [PostgresBackend.exec, Option.some.injEq, Prod.mk.injEq] at hx
  rw [take_eq hfree] at hx
  obtain ⟨rfl, rfl⟩ := hx
  refine ⟨hfree, rfl, ?_⟩
  obtain ⟨r, j, hr, hc, -⟩ := hfree
  rcases claimRun_cases p.shared i w now le with ⟨r', -, -, hy, -⟩ | ⟨hy, -⟩
  · simp [claimOf, claimIn, hy]
  · simp [DB.claimRun, hr, hc] at hy

lemma update_fst_comp {a : Phase} {b : Choice} :
    Prod.fst ∘ Function.update ph pid (a, b) = Function.update (Prod.fst ∘ ph) pid a := by
  rw [Function.comp_update]

lemma LockInv.commit (h : LockInv p.shared log ph) (hph : Chosens p ph)
    (hruns : p.lockedRuns pid ⊆ L.runs) (hjobs : p.lockedJobs pid ⊆ L.jobs) (hf : e.Fresh p.shared)
    (hok : (ph pid).1.ok {} (.db c)) (hch : Chosen (ph pid).2 (.db c))
    (hx : PostgresBackend.exec p.shared L e c = some (db', y)) (hs : L.spared p.shared db') :
    LockInv db' (log ++ [⟨pid, .db c, .commit e, y, p.shared, db'⟩])
      (Function.update ph pid ((ph pid).1.next (.db c) y, choice (.db c) y)) where
  claims := by
    rw [update_fst_comp]
    exact h.claims_step hf hok hch hx
  free := fun _ _ _ _ hq => h.free_step hph hruns hjobs hs hx hq
  apart := fun _ _ _ _ hne hq hq' => h.apart_step hph hruns hjobs hs hx hne hq hq'
  took := by
    intro ev hev
    rcases List.mem_append.1 hev with hev | hev
    · exact h.took ev hev
    · rw [List.mem_singleton.1 hev]
      exact h.took_step hch hx

lemma LockInv.leaves {db : DB} (h : LockInv db log ph) {log' : List Ev} {a : Phase}
    (hclaims : ClaimInv db log' (Function.update (Prod.fst ∘ ph) pid a))
    (htook : ∀ ev ∈ log', TookFree ev) : LockInv db log' (Function.update ph pid (a, none)) := by
  have hwas : ∀ {q x}, (Function.update ph pid (a, none) q).2 = some x → (ph q).2 = some x := by
    intro q x hq
    by_cases hqp : q = pid
    · rw [hqp, Function.update_self] at hq
      cases hq
    · rwa [Function.update_of_ne hqp] at hq
  refine ⟨?_, fun q i now le hq => h.free q i now le (hwas hq), fun q q' x x' hne hq hq' => ?_, htook⟩
  · rw [update_fst_comp]
    exact hclaims
  · exact h.apart q q' x x' hne (hwas hq) (hwas hq')

lemma LockInv.quiet {db : DB} (h : LockInv db log ph) {r : Req} {a : Answer} {y : Except Exc r.Reply}
    (hok : (ph pid).1.ok {} r) (hcl : claimIn pid r y = none) (hlock : ∀ i, lockIn i r a y = none)
    (hsel : ∀ i, ¬ SelectedBy i r y) (ha : ∀ e, a ≠ .commit e) :
    LockInv db (log ++ [⟨pid, r, a, y, db, db⟩])
      (Function.update ph pid ((ph pid).1.next r y, choice r y)) := by
  have hchoice : choice r y = none := by
    rw [Option.eq_none_iff_forall_ne_some]
    rintro ⟨i, now, le⟩ hy
    obtain ⟨-, -, hs⟩ := choice_eq_some hy
    exact hsel i hs
  rw [hchoice]
  have hclaim : claimOf ⟨pid, r, a, y, db, db⟩ = none := hcl
  refine h.leaves (h.claims.quiet hclaim hlock fun i now le hs => ?_) fun ev hev => ?_
  · exact (selected_of_next hok hs).resolve_right (hsel i)
  · rcases List.mem_append.1 hev with hev | hev
    · exact h.took ev hev
    · rw [List.mem_singleton.1 hev]
      exact fun _ _ _ _ e _ hans => absurd hans (ha e)

lemma lockInv_init : LockInv {} [] fun _ => (.rest, none) where
  claims := claimInv_init
  free := by
    rintro _ _ _ _ ⟨⟩
  apart := by
    rintro _ _ _ _ _ ⟨⟩
  took := by
    rintro _ ⟨⟩

lemma LockInv.gone {db : DB} (h : LockInv db log ph) :
    LockInv db log (Function.update ph pid (.gone, none)) :=
  h.leaves h.claims.gone h.took

lemma plain_concat (l : List PgEv) (ev : PgEv) :
    (l ++ [ev]).map PgEv.plain = l.map PgEv.plain ++ [ev.plain] := by
  rw [List.map_append, List.map_singleton]

lemma valid_of_pg {db db' : DB} {r : Req} {a : Answer × PostgresBackend.Locks} {y : Except Exc r.Reply}
    (h : PostgresBackend.answer db r a = some (db', y)) : Valid r y := by
  refine pg_cases (motive := fun r _ _ y => Valid r y) ?_ (fun c exc _ => valid_error c exc)
    (fun r _ _ _ hr _ => valid_ask hr) h
  intro c e L db' y hx _
  cases c with
  | claimRun i w now le =>
    simp only [PostgresBackend.exec, Option.some.injEq, Prod.mk.injEq] at hx
    obtain ⟨-, rfl⟩ := hx
    cases hrun : (PostgresBackend.take db i w now).2 with
    | none => trivial
    | some run => exact run_id_of_get? hrun
  | getJob j => exact valid_of_answer (a := .commit e) hx
  | _ => trivial

lemma lockInv_of_reached (h : p.Reached) : ∃ ph, Chosens p ph ∧ LockInv p.shared p.plainLog ph := by
  refine Pool.phases (G := fun db log ph => LockInv db (log.map PgEv.plain) ph) ?_
    (fun p ph pid _ _ hG => hG.gone) (fun _ _ _ _ _ hG => hG.gone) ?_ h (fun _ => rfl) lockInv_init
  · intro p k _
    have hphase : Pool.InPhase Phase.Moves (Phase.ok {}) (fun _ => True) k.program .rest :=
      k.inPhase (fun _ _ _ _ => trivial) fun _ _ => trivial
    exact (hphase.prod (kind_choosing k)).mono fun _ _ hQ => hQ.2
  · intro p p' ph pid a r f y hC _ hph hG hacts hok
    have hv := valid_of_pg hacts.answered
    refine ⟨((ph pid).1.next r y, choice r y), ⟨⟨hv, rfl⟩, hv, rfl⟩, ?_⟩
    rw [hacts.logged, plain_concat]
    revert hok hC
    refine pg_cases (motive := fun r a db' y => PgSystem.Locking p (.act pid a) →
      (ph pid).1.ok {} r ∧ Chosen (ph pid).2 r →
        LockInv db' (p.log.map PgEv.plain ++ [⟨pid, r, a.1, y, p.shared, db'⟩])
          (Function.update ph pid ((ph pid).1.next r y, choice r y))) ?_ ?_ ?_ hacts.answered
    · rintro c e L db' y hx hs ⟨hruns, hjobs, hf⟩ ⟨hok, hch⟩
      exact hG.commit hph hruns hjobs hf hok hch hx hs
    · rintro c exc L - ⟨hok, -⟩
      refine hG.quiet hok (claimIn_error pid c exc) (fun i => ?_) (fun i => ?_) (by simp)
      · cases c <;> rfl
      · cases c <;> exact id
    · rintro r a L y hr hans - ⟨hok, -⟩
      have hcommit : ∀ e, a ≠ .commit e := by
        rintro e rfl
        cases r with
        | db c => exact hr c rfl
        | _ => cases hans
      refine hG.quiet hok (claimIn_ask hr) (fun i => ?_) (fun i => ?_) hcommit
      all_goals
        cases r with
        | db c => exact absurd rfl (hr c)
        | _ => first | rfl | exact id

/-! ### Claims on PostgreSQL -/

lemma chosen_of_pending {r : Req} (hph : Chosens p ph) (hr : p.pending pid = some r) :
    Chosen (ph pid).2 r := by
  obtain ⟨f, hf⟩ := Pool.prog?_of_pending hr
  exact (hph.of_prog? hf).1.2

/-- A database that is reached on PostgreSQL is reached by the portable transactions. -/
lemma reachable_of_pg (h : p.Reached) : Reachable p.shared := by
  induction h with
  | refl => exact .refl
  | @tail p₁ p₂ hrun hmove ih =>
    obtain ⟨l, hC, hstep⟩ := hmove
    cases l with
    | spawn k => rwa [(Pool.step_spawn hstep).1]
    | crash pid => rwa [(Pool.step_crash hstep).1]
    | act pid a =>
      obtain ⟨r, f, y, hact⟩ := Pool.step_act hstep
      obtain ⟨ph, hph, hG⟩ := lockInv_of_reached hrun
      have hch := chosen_of_pending hph hact.pending
      revert hch
      refine pg_cases (motive := fun r _ db' _ => Chosen (ph pid).2 r → Reachable db') ?_ ?_ ?_
        hact.answered
      · intro c e L db' y hx _ hch
        by_cases hsel : ∀ queue now le, c ≠ .selectClaimable queue now le
        · refine ih.tail ⟨c, e, y, exec_plain hx ?_ hsel⟩
          rintro i w now le rfl
          exact hG.free pid i now le hch
        · push Not at hsel
          obtain ⟨queue, now, le, rfl⟩ := hsel
          simp only [PostgresBackend.exec, Option.some.injEq, Prod.mk.injEq] at hx
          exact hx.1 ▸ ih
      · exact fun _ _ _ _ => ih
      · exact fun _ _ _ _ _ _ _ => ih

/-- **The locks make up for the condition**: though the `UPDATE` of a claim asks for the id alone, it
takes a run that may still be claimed, of a job that is still active, and does what the conditional one
does; and nothing happens to the database that the portable transactions could not do. -/
theorem postgres_refines (h : p.Reached) :
    (∀ ev ∈ p.plainLog, TookFree ev) ∧ Reachable p.shared := by
  obtain ⟨ph, -, hG⟩ := lockInv_of_reached h
  exact ⟨hG.took, reachable_of_pg h⟩

/-- **Claims on PostgreSQL do not overlap**: between two claims of a run it was given back, or the lease
of the first one, as last renewed, had run out for the second. -/
theorem postgres_claims_apart (h : p.Reached) {l₁ l₂ l₃ : List Ev} {e₁ e₂ : Ev} {c₁ c₂ : Claim}
    (hl : p.plainLog = l₁ ++ e₁ :: l₂ ++ e₂ :: l₃) (h₁ : claimOf e₁ = some c₁)
    (h₂ : claimOf e₂ = some c₂) (hi : c₂.runId = c₁.runId) : (∃ ev ∈ l₂, Releases c₁.runId ev) ∨
      ∃ t, lastLock c₁.runId (e₁ :: l₂) = some t ∧ t < c₂.leaseExpiry := by
  obtain ⟨ph, -, hG⟩ := lockInv_of_reached h
  exact hG.claims.apart l₁ e₁ l₂ e₂ l₃ c₁ c₂ hl h₁ h₂ hi

/-- The locks of the open claims of others. -/
def PgSystem.locks (p : PgSystem) (pid : ℕ) : PostgresBackend.Locks where
  runs := p.lockedRuns pid
  jobs := p.lockedJobs pid

lemma of_mem_lockedRuns (h : i ∈ p.lockedRuns pid) :
    ∃ q w now leaseExpiry, q ≠ pid ∧ p.pending q = some (.db (.claimRun i w now leaseExpiry)) := by
  obtain ⟨q, hq, hopen⟩ := List.mem_filterMap.1 h
  unfold PgSystem.openClaim at hopen
  split at hopen
  · rename_i w now le hr
    cases hopen
    exact ⟨q, w, now, le, by simpa using (List.mem_filter.1 hq).2, hr⟩
  · cases hopen

/-- The process that has locked the job of a run is about to update one of its runs. -/
def JobLocked (p : PgSystem) (pid jobId : ℕ) : Prop :=
  ∃ q i w now leaseExpiry, q ≠ pid ∧ p.pending q = some (.db (.claimRun i w now leaseExpiry)) ∧
    (p.shared.runs.get? i).map RunRow.jobId = some jobId

/-- What these transactions have locked, and what those have. -/
def PostgresBackend.Locks.add (L O : PostgresBackend.Locks) : PostgresBackend.Locks where
  runs := L.runs ++ O.runs
  jobs := L.jobs ++ O.jobs

/-- Nobody else has locked what a claim updates, if no transaction of another kind has. -/
lemma LockInv.spared (hG : LockInv p.shared log ph) (hph : Chosens p ph) {w : String}
    (hpid : p.pending pid = some (.db (.claimRun i w now leaseExpiry))) {O : PostgresBackend.Locks}
    (hO : i ∉ O.runs) :
    ((p.locks pid).add O).spared p.shared (PostgresBackend.take p.shared i w now).1 := by
  have happart : ∀ {q i' w' now' le'}, q ≠ pid → p.pending q = some (.db (.claimRun i' w' now' le')) →
      (p.shared.runs.get? i).map RunRow.jobId ≠ (p.shared.runs.get? i').map RunRow.jobId :=
    fun hne hq => hG.apart pid _ _ _ hne.symm (chosen_of_pending hph hpid) (chosen_of_pending hph hq)
  refine spared_iff.2 ⟨fun i' hi' => ?_, fun j _ => rfl⟩
  have hii : i ≠ i' := by
    rintro rfl
    rcases List.mem_append.1 hi' with hclaim | hother
    · obtain ⟨q, w', now', le', hne, hq⟩ := of_mem_lockedRuns hclaim
      exact happart hne hq rfl
    · exact hO hother
  unfold PostgresBackend.take
  rw [Table.get?_update]
  cases hrow : p.shared.runs.get? i' with
  | none => rfl
  | some r' =>
    have hid : r'.id ≠ i := fun heq => hii (heq.symm.trans (run_id_of_get? hrow))
    simp [hid]

/-- **A claim waits for no other claim**: whatever claims are under way, and whatever other transactions
have locked, its `SELECT` is answered, and so is its `UPDATE` unless one of the latter has locked the
run. The `SELECT` finds nothing only where every run that it could take is one of a job that another
claim has locked, or is locked, or its job is, by another transaction. -/
theorem claims_never_wait (h : p.Reached) (e : Env) {r : Req} (hr : p.pending pid = some r)
    (hc : ClaimStep r) (O : PostgresBackend.Locks) :
    ((∀ i w now leaseExpiry, r = .db (.claimRun i w now leaseExpiry) → i ∉ O.runs) →
      ∃ p', p.step PostgresBackend.answer Kind.program
        (.act pid (.commit e, (p.locks pid).add O)) = some p') ∧
      ∀ queue now leaseExpiry, r = .db (.selectClaimable queue now leaseExpiry) →
        PostgresBackend.select p.shared ((p.locks pid).add O) queue now leaseExpiry = none →
          ∀ run job, Pickable p.shared queue now leaseExpiry run job →
            JobLocked p pid job.id ∨ O.has (run, job) := by
  obtain ⟨ph, hph, hG⟩ := lockInv_of_reached h
  refine ⟨fun hO => ?_, ?_⟩
  · unfold ClaimStep at hc
    split at hc
    · rename_i queue now le
      have hx : PostgresBackend.exec p.shared ((p.locks pid).add O) e (.selectClaimable queue now le) =
          some (p.shared, .ok (PostgresBackend.select p.shared ((p.locks pid).add O) queue now le)) :=
        rfl
      exact Pool.step_of_answer hr (answer_of_spared hx (spared_iff.2 ⟨fun _ _ => rfl, fun _ _ => rfl⟩))
    · rename_i i w now le
      have hx : PostgresBackend.exec p.shared ((p.locks pid).add O) e (.claimRun i w now le) =
          some ((PostgresBackend.take p.shared i w now).1,
            .ok (PostgresBackend.take p.shared i w now).2) := rfl
      exact Pool.step_of_answer hr (answer_of_spared hx (hG.spared hph hr (hO i w now le rfl)))
    · exact hc.elim
  · rintro queue now le rfl hnone run job hpick
    rw [PostgresBackend.select, Option.map_eq_none_iff, List.find?_eq_none] at hnone
    have hmem : (run, job) ∈ PostgresBackend.candidates p.shared queue now le := by
      rw [candidates_eq, List.mem_insertionSort]
      exact mem_claimCandidates.2 hpick
    have hget : p.shared.runs.get? run.id = some run := Table.get?_of_mem hpick.stored
    have hid : job.id = run.jobId := Table.key_of_get? hpick.job
    have hhas : (run.id ∈ p.lockedRuns pid ∨ job.id ∈ p.lockedJobs pid) ∨ O.has (run, job) := by
      have hskip := hnone _ hmem
      simp only [PostgresBackend.Locks.has, PostgresBackend.Locks.add, PgSystem.locks, List.mem_append,
        Bool.not_eq_true', Bool.not_eq_false, Bool.or_eq_true, decide_eq_true_eq] at hskip ⊢
      tauto
    rcases hhas with (hrun | hjob) | hother
    · obtain ⟨q, w, now', le', hne, hq⟩ := of_mem_lockedRuns hrun
      exact .inl ⟨q, run.id, w, now', le', hne, hq, by rw [hget, Option.map_some, hid]⟩
    · obtain ⟨i, hi, hjob⟩ := List.mem_filterMap.1 hjob
      obtain ⟨q, w, now', le', hne, hq⟩ := of_mem_lockedRuns hi
      exact .inl ⟨q, i, w, now', le', hne, hq, hjob⟩
    · exact .inr hother

end

def unlocked : Act → PgAct
  | .spawn k => .spawn k
  | .act pid a => .act pid (a, {})
  | .crash pid => .crash pid

/-- There are two jobs. Worker A (process 2) has selected the run of the first one; worker B (process 3)
skips it, and has selected the other one. -/
def skipped : List PgAct :=
  (.spawn (.enqueue { job := "m.J" } none) :: commits 0 1 0 ++
    .spawn (.enqueue { job := "m.J" } none) :: commits 1 1 1 ++
    .spawn (.worker (.named "A")) :: reads 2 2 :: reads 2 2 :: commits 2 1 2 ++
    .spawn (.worker (.named "B")) :: reads 3 3 :: [reads 3 3]).map unlocked ++
  [.act 3 (committed 3, { runs := [0], jobs := [0] })]

/-- Both update their runs. -/
def bothTaken : List PgAct :=
  skipped ++ [.act 2 (committed 4, { runs := [1], jobs := [1] }), .act 3 (committed 4, {})]

/-- A is killed, and worker C (process 4) takes its run over. -/
def takenAgain : List PgAct :=
  bothTaken ++ (.crash 2 :: .spawn (.worker (.named "C")) :: reads 4 100 :: reads 4 100 ::
    commits 4 2 100).map unlocked

theorem claims_never_wait_skipped : ∃ p : PgSystem, PgSystem.init.play skipped = some p ∧
    ∃ p', p.step PostgresBackend.answer Kind.program
      (.act 3 (committed 4, (p.locks 3).add {})) = some p' := by
  have hall : ((PgSystem.init.play skipped).any fun p =>
      PgSystem.openClaim (p.pending 3) = some 1) = true := by decide
  obtain ⟨p, hp, hend⟩ := (Option.any_eq_true _ _).1 hall
  have hopen : PgSystem.openClaim (p.pending 3) = some 1 := of_decide_eq_true hend
  unfold PgSystem.openClaim at hopen
  split at hopen
  · rename_i hr
    exact ⟨p, hp, (claims_never_wait (Pool.run_of_play hp) _ hr trivial _).1 (by simp)⟩
  · cases hopen

theorem postgres_refines_bothTaken : ∃ p : PgSystem, PgSystem.init.play bothTaken = some p ∧
    (∀ ev ∈ p.plainLog, TookFree ev) ∧ Reachable p.shared := by
  have hall : (PgSystem.init.play bothTaken).isSome = true := by decide
  obtain ⟨p, hp⟩ := Option.isSome_iff_exists.1 hall
  exact ⟨p, hp, postgres_refines (Pool.run_of_play hp)⟩

theorem postgres_claims_apart_takenAgain : ∃ (p : PgSystem) (l₁ l₂ l₃ : List Ev) (e₁ e₂ : Ev)
    (c₁ c₂ : Claim), PgSystem.init.play takenAgain = some p ∧
      p.plainLog = l₁ ++ e₁ :: l₂ ++ e₂ :: l₃ ∧ claimOf e₁ = some c₁ ∧ claimOf e₂ = some c₂ ∧
      ((∃ ev ∈ l₂, Releases c₁.runId ev) ∨
        ∃ t, lastLock c₁.runId (e₁ :: l₂) = some t ∧ t < c₂.leaseExpiry) := by
  have hall : ((PgSystem.init.play takenAgain).any fun p =>
      (p.plainLog[8]?.bind claimOf).any (fun c => c.runId = 0) ∧
        (p.plainLog[13]?.bind claimOf).any fun c => c.runId = 0) = true := by decide
  obtain ⟨p, hp, hend⟩ := (Option.any_eq_true _ _).1 hall
  obtain ⟨hfirst, hsecond⟩ := of_decide_eq_true hend
  obtain ⟨c₁, hc₁, hi₁⟩ := (Option.any_eq_true _ _).1 hfirst
  obtain ⟨c₂, hc₂, hi₂⟩ := (Option.any_eq_true _ _).1 hsecond
  obtain ⟨e₁, he₁, h₁⟩ := Option.bind_eq_some_iff.1 hc₁
  obtain ⟨e₂, he₂, h₂⟩ := Option.bind_eq_some_iff.1 hc₂
  obtain ⟨l₁, l₂, l₃, hl⟩ := Pool.split_of_getElem? he₁ he₂ (by decide)
  have hi : c₂.runId = c₁.runId := (of_decide_eq_true hi₂).trans (of_decide_eq_true hi₁).symm
  exact ⟨p, l₁, l₂, l₃, e₁, e₂, c₁, c₂, hp, hl, h₁, h₂,
    postgres_claims_apart (Pool.run_of_play hp) hl h₁ h₂ hi⟩

end Pyreljob
