import Pyreljob.System.Roles
import Pyreljob.Store.Effect

/-!
Claims under interleaving.

The portable `claim` selects a run and then updates it on condition; anything may commit in between,
and the update looks at the run alone, not at its job. That the job is still active is carried by
`Eligible`: once a run was seen in flight with an active job, it is never again in flight with any
other. That nobody claims a run that is held is carried by `Held`: between a claim of a run and the
`fail_run` that gives it back, its lock is that of the last claim or renewal.
-/

namespace Pyreljob

open Lib

/-! ### What is claimed -/

def Eligible (db : DB) (i : ℕ) : Prop :=
  i < db.runs.seq ∧ ∀ r, db.runs.get? i = some r → r.status.inFlight →
    ∃ job, db.jobs.get? r.jobId = some job ∧ job.status = .active

section Transactions

variable {db db' : DB} {e : Env} {c : Call} {y : Except Exc c.Reply} {i : ℕ}

lemma eligible_exec (hx : c.exec db e = some (db', y)) (hf : e.Fresh db) (h : Eligible db i) :
    Eligible db' i := by
  refine ⟨h.1.trans_le (exec_runs_seq hx), fun r' hr' hfl => ?_⟩
  have hstep := exec_run hx i
  rw [hr'] at hstep
  rcases hstep.inFlight hfl with ⟨-, hi, -⟩ | ⟨r, hr, hrf, hj⟩
  · have := h.1
    have := hf.2.1
    omega
  · obtain ⟨job, hjob, hact⟩ := h.2 r hr hrf
    rw [hj] at hjob
    have hjs := exec_job hx r'.jobId
    rw [hjob] at hjs
    rcases hjs.status with ⟨job', hjob', hst⟩ | rfl | rfl
    · exact ⟨job', hjob', hst.trans hact⟩
    · cases hx
      exact absurd hfl (cancelJob_settles hr' rfl)
    · cases hx
      exact absurd rfl (deleteJob_removes hr')

/-- What the `SELECT` of a claim returns is claimable, and its job is active. -/
lemma selectClaimable_spec {queue : Option String} {now leaseExpiry : Time}
    (h : db.selectClaimable queue now leaseExpiry = some i) :
    ∃ r job, db.runs.get? i = some r ∧ DB.Claimable now leaseExpiry r ∧
      db.jobs.get? r.jobId = some job ∧ job.status = .active := by
  simp only [DB.selectClaimable, Option.map_eq_some_iff] at h
  obtain ⟨⟨r, job⟩, hhead, rfl⟩ := h
  have hm := List.mem_of_mem_head? hhead
  rw [List.mem_insertionSort] at hm
  simp only [DB.claimCandidates, List.mem_filterMap, Option.map_eq_some_iff, Prod.mk.injEq,
    Option.filter_eq_some_iff] at hm
  obtain ⟨r', hr', job', ⟨hjob, hact⟩, rfl, rfl⟩ := hm
  obtain ⟨hget, hc⟩ := Table.mem_select.1 hr'
  refine ⟨r', job', hget, hc, hjob, ?_⟩
  simp only [Bool.decide_and, Bool.and_eq_true, decide_eq_true_eq] at hact
  exact hact.1

lemma eligible_of_select {queue : Option String} {now leaseExpiry : Time}
    (h : db.selectClaimable queue now leaseExpiry = some i) : Eligible db i := by
  obtain ⟨r, job, hr, -, hjob, hact⟩ := selectClaimable_spec h
  refine ⟨Table.lt_seq_of_get? hr, fun r' hr' _ => ?_⟩
  rw [hr] at hr'
  cases hr'
  exact ⟨job, hjob, hact⟩

lemma inFlight_of_claimable {now leaseExpiry : Time} {r : RunRow}
    (h : DB.Claimable now leaseExpiry r) : r.status.inFlight := by
  rcases h with ⟨hs, -⟩ | ⟨hs, -⟩ <;> simp [hs, RunStatus.inFlight]

end Transactions

/-- The claim took a run that was ready and due, or running on a lease that had run out, of a job
that was there and active. -/
def ClaimedSafely (ev : Ev) (c : Claim) : Prop :=
  ∃ r job, ev.pre.runs.get? c.runId = some r ∧ DB.Claimable c.now c.leaseExpiry r ∧
    ev.pre.jobs.get? r.jobId = some job ∧ job.status = .active

/-! ### Who holds a run -/

/-- The lock that a request with this reply has put on the run. -/
def lockIn (i : ℕ) : (r : Req) → Answer → Except Exc r.Reply → Option Time
  | .db (.claimRun runId _ now _), _, .ok (some _) => if runId = i then some now else none
  | .db (.renewLease runId _), .commit e, .ok true => if runId = i then some e.now else none
  | _, _, _ => none

def lockOf (i : ℕ) (ev : Ev) : Option Time := lockIn i ev.req ev.ans ev.reply

/-- The lock that was put on the run last. -/
def lastLock (i : ℕ) (log : List Ev) : Option Time := (log.filterMap (lockOf i)).getLast?

/-- The event is a `fail_run` with `retry_at` that gave the running run back. -/
def Releases (i : ℕ) (ev : Ev) : Prop :=
  (∃ error t, ev.req = .db (.failRun i error (some t))) ∧
    (∃ r, ev.pre.runs.get? i = some r ∧ r.status = .running) ∧
    ∃ r, ev.post.runs.get? i = some r ∧ r.status = .ready

/-- The run is not ready, and if it runs its lock is the last one of the log. -/
def Held (db : DB) (i : ℕ) (log : List Ev) : Prop :=
  ∀ r, db.runs.get? i = some r → r.status ≠ .ready ∧
    (r.status = .running → r.lockedAt = lastLock i log)

lemma lastLock_concat (i : ℕ) (log : List Ev) (ev : Ev) :
    lastLock i (log ++ [ev]) = (lockOf i ev).or (lastLock i log) := by
  unfold lastLock
  cases h : lockOf i ev <;> simp [List.filterMap_append, h]

section Transactions

variable {db db' : DB} {e : Env} {c : Call} {y : Except Exc c.Reply} {i : ℕ}

/-- A run that is running after a transaction was locked by it, or was running on the same lock. -/
lemma exec_locked (hx : c.exec db e = some (db', y)) {r' : RunRow}
    (hr' : db'.runs.get? i = some r') (hs : r'.status = .running) :
    (∃ t, lockIn i (.db c) (.commit e) y = some t ∧ r'.lockedAt = some t) ∨
      (lockIn i (.db c) (.commit e) y = none ∧
        ∃ r, db.runs.get? i = some r ∧ r.status = .running ∧ r.lockedAt = r'.lockedAt) := by
  have hstep := exec_run hx i
  rw [hr'] at hstep
  cases c with
  | claimRun j w now le =>
    by_cases hij : j = i
    · subst hij
      simp only [Call.exec, Option.some.injEq, Prod.mk.injEq] at hx
      obtain ⟨rfl, rfl⟩ := hx
      rcases claimRun_cases db j w now le with ⟨r, hr, hc, hy, hpost⟩ | ⟨hy, hpost⟩
      · rw [hpost] at hr'
        cases hr'
        exact .inl ⟨now, by simp [lockIn, hy], rfl⟩
      · rw [hpost] at hr'
        exact .inr ⟨by simp [lockIn, hy], r', hr', hs, rfl⟩
    · right
      refine ⟨?_, ?_⟩
      · unfold lockIn
        split <;> simp_all
      · rcases hstep.running hs with ⟨r, hr, hrs, -, hl⟩ | ⟨r, w, now, le, -, hc, -⟩ | ⟨r, w, -, hc, -⟩
        · exact ⟨r, hr, hrs, hl⟩
        · cases hc
          exact absurd rfl hij
        · cases hc
  | renewLease j w =>
    by_cases hij : j = i
    · subst hij
      simp only [Call.exec, Option.some.injEq, Prod.mk.injEq] at hx
      obtain ⟨rfl, rfl⟩ := hx
      rcases renewLease_cases db e.now j w with ⟨r, hr, -, -, hy, hpost⟩ | ⟨hy, hpost⟩
      · rw [hpost] at hr'
        cases hr'
        exact .inl ⟨e.now, by simp [lockIn, hy], rfl⟩
      · rw [hpost] at hr'
        exact .inr ⟨by simp [lockIn, hy], r', hr', hs, rfl⟩
    · right
      refine ⟨?_, ?_⟩
      · unfold lockIn
        split <;> simp_all
      · rcases hstep.running hs with ⟨r, hr, hrs, -, hl⟩ | ⟨r, w, now, le, -, hc, -⟩ | ⟨r, w, -, hc, -⟩
        · exact ⟨r, hr, hrs, hl⟩
        · cases hc
        · cases hc
          exact absurd rfl hij
  | _ =>
    right
    refine ⟨rfl, ?_⟩
    rcases hstep.running hs with ⟨r, hr, hrs, -, hl⟩ | ⟨r, w, now, le, -, hc, -⟩ | ⟨r, w, -, hc, -⟩
    · exact ⟨r, hr, hrs, hl⟩
    · cases hc
    · cases hc

lemma held_exec (pid : ℕ) (hx : c.exec db e = some (db', y)) (hf : e.Fresh db) (hi : i < db.runs.seq)
    {log : List Ev} (h : Held db i log) :
    Releases i ⟨pid, .db c, .commit e, y, db, db'⟩ ∨
      Held db' i (log ++ [⟨pid, .db c, .commit e, y, db, db'⟩]) := by
  by_cases hrel : Releases i ⟨pid, .db c, .commit e, y, db, db'⟩
  · exact .inl hrel
  refine .inr fun r' hr' => ⟨fun hready => ?_, fun hrun => ?_⟩
  · have hstep := exec_run hx i
    rw [hr'] at hstep
    rcases hstep.ready hready with ⟨-, hi'⟩ | ⟨r, hr, hs⟩ | ⟨r, error, t, hr, hs, rfl⟩
    · have := hf.2.1
      omega
    · exact (h r hr).1 hs
    · exact hrel ⟨⟨error, t, rfl⟩, ⟨r, hr, hs⟩, ⟨r', hr', hready⟩⟩
  · rw [lastLock_concat]
    rcases exec_locked hx hr' hrun with ⟨t, hl, ht⟩ | ⟨hl, r, hr, hs, hr''⟩
    · simp [lockOf, hl, ht]
    · simpa [lockOf, hl, ← hr''] using (h r hr).2 hs

end Transactions

/-! ### The invariant -/

def SelectedBy (i : ℕ) : (r : Req) → Except Exc r.Reply → Prop
  | .db (.selectClaimable ..), .ok (some i') => i' = i
  | _, _ => False

lemma selected_of_next {may : Leave} {c : Phase} {r : Req} {y : Except Exc r.Reply} {i : ℕ}
    {now le : Time} (hok : c.ok may r) (h : c.next r y = .selected i now le) :
    c = .selected i now le ∨ SelectedBy i r y := by
  have hturn := Phase.turn y hok
  rw [h] at hturn
  cases hturn with
  | stays => exact .inl rfl
  | selects => exact .inr rfl

/-- What holds between the runs, the log and the pending claims. -/
structure ClaimInv (db : DB) (log : List Ev) (ph : ℕ → Phase) : Prop where
  /-- A run that somebody has selected is eligible. -/
  selected : ∀ pid i now le, ph pid = .selected i now le → Eligible db i
  /-- A run that was claimed has been released since, or is held. -/
  held : ∀ l₁ ev l₂ c, log = l₁ ++ ev :: l₂ → claimOf ev = some c →
    c.runId < db.runs.seq ∧ ((∃ ev' ∈ l₂, Releases c.runId ev') ∨ Held db c.runId (ev :: l₂))
  /-- Every claim took a run that was free, of an active job. -/
  safe : ∀ ev ∈ log, ∀ c, claimOf ev = some c → ClaimedSafely ev c
  /-- Between two claims of a run it was released, or its lease ran out. -/
  apart : ∀ l₁ e₁ l₂ e₂ l₃ c₁ c₂, log = l₁ ++ e₁ :: l₂ ++ e₂ :: l₃ → claimOf e₁ = some c₁ →
    claimOf e₂ = some c₂ → c₂.runId = c₁.runId →
      (∃ ev ∈ l₂, Releases c₁.runId ev) ∨
        ∃ t, lastLock c₁.runId (e₁ :: l₂) = some t ∧ t < c₂.leaseExpiry

section Steps

variable {db db' : DB} {log : List Ev} {ph : ℕ → Phase} {pid : ℕ}

/-- The two fields about the log alone, after an event that is not a claim. -/
lemma ClaimInv.log_quiet (h : ClaimInv db log ph) {ev : Ev} (hev : claimOf ev = none) :
    (∀ ev' ∈ log ++ [ev], ∀ c, claimOf ev' = some c → ClaimedSafely ev' c) ∧
    ∀ l₁ e₁ l₂ e₂ l₃ c₁ c₂, log ++ [ev] = l₁ ++ e₁ :: l₂ ++ e₂ :: l₃ → claimOf e₁ = some c₁ →
      claimOf e₂ = some c₂ → c₂.runId = c₁.runId →
        (∃ ev' ∈ l₂, Releases c₁.runId ev') ∨
          ∃ t, lastLock c₁.runId (e₁ :: l₂) = some t ∧ t < c₂.leaseExpiry := by
  constructor
  · intro ev' hmem c hc
    rcases List.mem_append.1 hmem with hmem | hmem
    · exact h.safe ev' hmem c hc
    · rw [List.mem_singleton.1 hmem, hev] at hc
      cases hc
  · intro l₁ e₁ l₂ e₂ l₃ c₁ c₂ hl h₁ h₂ hi
    rcases Pool.split_concat hl with ⟨-, rfl, -⟩ | ⟨l₃', -, hl'⟩
    · rw [hev] at h₂
      cases h₂
    · exact h.apart l₁ e₁ l₂ e₂ l₃' c₁ c₂ hl' h₁ h₂ hi

/-- An event that leaves the database alone and neither claims nor locks. -/
lemma ClaimInv.quiet (h : ClaimInv db log ph) {ev : Ev} (hev : claimOf ev = none)
    (hlock : ∀ i, lockOf i ev = none) {c : Phase}
    (hsel : ∀ i now le, c = .selected i now le → ph pid = .selected i now le) :
    ClaimInv db (log ++ [ev]) (Function.update ph pid c) := by
  obtain ⟨hsafe, hapart⟩ := h.log_quiet hev
  refine ⟨fun q i now le hq => ?_, fun l₁ e₁ l₂ c₁ hl h₁ => ?_, hsafe, hapart⟩
  · by_cases hqp : q = pid
    · subst hqp
      rw [Function.update_self] at hq
      exact h.selected q i now le (hsel i now le hq)
    · rw [Function.update_of_ne hqp] at hq
      exact h.selected q i now le hq
  · rcases Pool.split_concat hl with ⟨-, rfl, -⟩ | ⟨l₂', rfl, hl'⟩
    · rw [hev] at h₁
      cases h₁
    · obtain ⟨hseq, hrel | hheld⟩ := h.held l₁ e₁ l₂' c₁ hl' h₁
      · obtain ⟨ev', hmem, hr⟩ := hrel
        exact ⟨hseq, .inl ⟨ev', List.mem_append_left _ hmem, hr⟩⟩
      · refine ⟨hseq, .inr fun r hr => ?_⟩
        rw [← List.cons_append, lastLock_concat, hlock]
        exact hheld r hr

lemma ClaimInv.gone (h : ClaimInv db log ph) : ClaimInv db log (Function.update ph pid .gone) := by
  refine ⟨fun q i now le hq => ?_, h.held, h.safe, h.apart⟩
  by_cases hqp : q = pid
  · subst hqp
    rw [Function.update_self] at hq
    cases hq
  · rw [Function.update_of_ne hqp] at hq
    exact h.selected q i now le hq

variable {e : Env} {c : Call} {y : Except Exc c.Reply}

lemma claimIn_commit (hx : c.exec db e = some (db', y)) {cl : Claim}
    (h : claimIn pid (.db c) y = some cl) :
    c = .claimRun cl.runId cl.workerId cl.now cl.leaseExpiry ∧
      ∃ r, db.runs.get? cl.runId = some r ∧ DB.Claimable cl.now cl.leaseExpiry r ∧
        db'.runs.get? cl.runId = some (DB.claimed cl.workerId cl.now r) := by
  cases c with
  | claimRun i w now le =>
    simp only [Call.exec, Option.some.injEq, Prod.mk.injEq] at hx
    obtain ⟨rfl, rfl⟩ := hx
    rcases claimRun_cases db i w now le with ⟨r, hr, hc, hy, hpost⟩ | ⟨hy, hpost⟩
    · rw [hy] at h
      cases h
      exact ⟨rfl, r, hr, hc, hpost⟩
    · rw [hy] at h
      cases h
  | _ => cases h

lemma claimIn_row (hx : c.exec db e = some (db', y)) {cl : Claim}
    (h : claimIn pid (.db c) y = some cl) : db'.runs.get? cl.runId = some cl.run := by
  obtain ⟨rfl, -⟩ := claimIn_commit hx h
  simp only [Call.exec, Option.some.injEq, Prod.mk.injEq] at hx
  obtain ⟨rfl, rfl⟩ := hx
  rcases claimRun_cases db cl.runId cl.workerId cl.now cl.leaseExpiry with
    ⟨r, -, -, hy, hpost⟩ | ⟨hy, -⟩
  · rw [hy] at h
    rw [hpost]
    exact congrArg some (congrArg Claim.run (Option.some.inj h))
  · rw [hy] at h
    cases h

lemma ClaimInv.commit {may : Leave} (h : ClaimInv db log ph) (hf : e.Fresh db)
    (hok : (ph pid).ok may (.db c)) (hx : c.exec db e = some (db', y)) :
    ClaimInv db' (log ++ [⟨pid, .db c, .commit e, y, db, db'⟩])
      (Function.update ph pid ((ph pid).next (.db c) y)) := by
  constructor
  case selected =>
    intro q i now le hq
    by_cases hqp : q = pid
    · subst hqp
      rw [Function.update_self] at hq
      rcases selected_of_next hok hq with hq | hsel
      · exact eligible_exec hx hf (h.selected q i now le hq)
      · cases c with
        | selectClaimable queue now' le' =>
          cases hx
          unfold SelectedBy at hsel
          split at hsel
          · rename_i hr hy
            cases hr
            simp only [Except.ok.injEq] at hy
            subst hsel
            exact eligible_of_select hy
          · exact hsel.elim
        | _ => exact hsel.elim
    · rw [Function.update_of_ne hqp] at hq
      exact eligible_exec hx hf (h.selected q i now le hq)
  case held =>
    intro l₁ ev l₂ cl hl hcl
    rcases Pool.split_concat hl with ⟨rfl, rfl, -⟩ | ⟨l₂', rfl, hl'⟩
    · obtain ⟨rfl, r, hr, -, hpost⟩ := claimIn_commit hx hcl
      refine ⟨(Table.lt_seq_of_get? hr).trans_le (exec_runs_seq hx), .inr fun r' hr' => ?_⟩
      rw [hpost] at hr'
      cases hr'
      refine ⟨by simp [DB.claimed], fun _ => ?_⟩
      rcases exec_locked hx hpost rfl with ⟨t, ht, hlock⟩ | ⟨hn, -⟩
      · simp [lastLock, lockOf, ht, hlock]
      · obtain ⟨⟩ | y := y
        · cases hcl
        · cases y with
          | none => cases hcl
          | some run => simp [lockIn] at hn
    · obtain ⟨hseq, ⟨ev', hmem, hr⟩ | hheld⟩ := h.held l₁ ev l₂' cl hl' hcl
      · exact ⟨hseq.trans_le (exec_runs_seq hx), .inl ⟨ev', List.mem_append_left _ hmem, hr⟩⟩
      · refine ⟨hseq.trans_le (exec_runs_seq hx), ?_⟩
        rcases held_exec pid hx hf hseq hheld with hrel | hheld'
        · exact .inl ⟨_, List.mem_append_right _ (List.mem_singleton_self _), hrel⟩
        · exact .inr hheld'
  case safe =>
    intro ev hmem cl hcl
    rcases List.mem_append.1 hmem with hmem | hmem
    · exact h.safe ev hmem cl hcl
    · obtain rfl := List.mem_singleton.1 hmem
      obtain ⟨rfl, r, hr, hc, -⟩ := claimIn_commit hx hcl
      obtain ⟨job, hjob, hact⟩ := (h.selected pid _ _ _ hok).2 r hr (inFlight_of_claimable hc)
      exact ⟨r, job, hr, hc, hjob, hact⟩
  case apart =>
    intro l₁ e₁ l₂ e₂ l₃ c₁ c₂ hl h₁ h₂ hi
    rcases Pool.split_concat hl with ⟨rfl, rfl, hl'⟩ | ⟨l₃', -, hl'⟩
    · obtain ⟨-, r, hr, hc, -⟩ := claimIn_commit hx h₂
      obtain ⟨-, hrel | hheld⟩ := h.held l₁ e₁ l₂ c₁ hl'.symm h₁
      · exact .inl hrel
      · right
        rw [hi] at hr
        obtain ⟨hne, hlock⟩ := hheld r hr
        rcases hc with ⟨hs, -⟩ | ⟨hs, hexp⟩
        · exact absurd hs hne
        · rw [hlock hs] at hexp
          obtain ⟨t, ht, hlt⟩ := (Option.any_eq_true _ _).1 hexp
          exact ⟨t, ht, by simpa using hlt⟩
    · exact h.apart l₁ e₁ l₂ e₂ l₃' c₁ c₂ hl' h₁ h₂ hi

end Steps

lemma claimInv_init : ClaimInv {} [] fun _ => .rest where
  selected := by
    rintro _ _ _ _ ⟨⟩
  held := by
    intro l₁ _ _ _ hl
    cases l₁ <;> cases hl
  safe := by
    rintro _ ⟨⟩
  apart := by
    intro l₁ _ _ _ _ _ _ hl
    cases l₁ <;> cases hl

lemma claimInv_of_reached {p : System} (h : p.Reached System.NewIds) :
    ∃ ph, ClaimInv p.shared p.log ph := by
  have hinv : ∃ ph, InPhases {} p ph ∧ ClaimInv p.shared p.log ph := by
    refine System.phases (fun _ => True) ClaimInv (fun _ _ _ _ _ => trivial) claimInv_init
      (fun _ _ _ _ h => h.gone) ?_ ?_ ?_ h
    · intro p ph pid c e db' y hf _ _ hok hx hG
      exact hG.commit hf hok hx
    · intro p ph pid c exc _ hG hok
      refine hG.quiet ?_ (fun i => ?_) fun i now le hs => ?_
      · exact claimIn_error pid c exc
      · cases c <;> rfl
      · rcases selected_of_next hok hs with hs | hs
        · exact hs
        · cases c <;> cases hs
    · intro p ph pid r a y _ hr _ hok _ hG
      refine hG.quiet ?_ (fun i => ?_) fun i now le hs => ?_
      · exact claimIn_ask hr
      · cases r with
        | db c => exact absurd rfl (hr c)
        | _ => rfl
      · rcases selected_of_next hok hs with hs | hs
        · exact hs
        · cases r with
          | db c => exact absurd rfl (hr c)
          | _ => cases hs
  obtain ⟨ph, -, hinv⟩ := hinv
  exact ⟨ph, hinv⟩

/-- The request is one of the two transactions of a claim. -/
def ClaimStep : Req → Prop
  | .db (.selectClaimable ..) | .db (.claimRun ..) => True
  | _ => False

lemma claimStep_unchanged {p : System} (h : p.Reached System.NewIds) {ev : Ev} (hev : ev ∈ p.log)
    (hstep : ClaimStep ev.req) (hcl : claimOf ev = none) : ev.post = ev.pre := by
  have hans := Pool.log_answered h (by simp [System.init]) ev hev
  obtain ⟨pid, r, a, y, pre, post⟩ := ev
  cases r with
  | db c =>
    cases a <;> simp only [answer, reduceCtorEq] at hans
    · cases c with
      | selectClaimable => cases hans; rfl
      | claimRun i w now le =>
        simp only [Call.exec, Option.some.injEq, Prod.mk.injEq] at hans
        obtain ⟨rfl, rfl⟩ := hans
        rcases claimRun_cases pre i w now le with ⟨r, -, -, hy, -⟩ | ⟨-, hpost⟩
        · simp [claimOf, claimIn, hy] at hcl
        · exact hpost
      | _ => exact hstep.elim
    · cases hans; rfl
  | _ => exact hstep.elim

/-- **Claim safety.** Whatever is interleaved with it, a claim takes a run that is ready and due or
whose lease has run out, of a job that is active at that moment; between two claims of a run it was
given back, or the lease of the first one (as last renewed) had run out for the second; and the
transactions of a claim that wins nothing change nothing. -/
theorem claims_safe {p : System} (h : p.Reached System.NewIds) :
    (∀ ev ∈ p.log, ∀ c, claimOf ev = some c → ClaimedSafely ev c) ∧
    (∀ l₁ e₁ l₂ e₂ l₃ c₁ c₂, p.log = l₁ ++ e₁ :: l₂ ++ e₂ :: l₃ → claimOf e₁ = some c₁ →
      claimOf e₂ = some c₂ → c₂.runId = c₁.runId →
        (∃ ev ∈ l₂, Releases c₁.runId ev) ∨
          ∃ t, lastLock c₁.runId (e₁ :: l₂) = some t ∧ t < c₂.leaseExpiry) ∧
    (∀ ev ∈ p.log, ClaimStep ev.req → claimOf ev = none → ev.post = ev.pre) := by
  obtain ⟨ph, hinv⟩ := claimInv_of_reached h
  exact ⟨hinv.safe, hinv.apart, fun ev hev hstep hcl => claimStep_unchanged h hev hstep hcl⟩

/-- A run is claimed at 1 and, its lease of 30 seconds gone, again at 100. -/
def reclaimed : List Act :=
  [.spawn (.enqueue { job := "m.J" } none), .act 0 (.commit { now := 0 }),
   .spawn (.worker (.named "A")), .act 1 (.time (seconds 1)), .act 1 (.time (seconds 1)),
   .act 1 (.commit { now := seconds 1, jobId := 1, runId := 1 }),
   .act 1 (.commit { now := seconds 1, jobId := 1, runId := 1 }),
   .spawn (.worker (.named "B")), .act 2 (.time (seconds 100)), .act 2 (.time (seconds 100)),
   .act 2 (.commit { now := seconds 100, jobId := 1, runId := 1 }),
   .act 2 (.commit { now := seconds 100, jobId := 1, runId := 1 })]

theorem claims_safe_reclaimed :
    (System.init.play System.NewIds reclaimed).map
      (fun p => p.log.filterMap fun ev => (claimOf ev).map Claim.pid) = some [1, 2] ∧
    ∃ p, System.init.play System.NewIds reclaimed = some p ∧
      ∀ ev ∈ p.log, ∀ c, claimOf ev = some c → ClaimedSafely ev c := by
  refine ⟨by decide, ?_⟩
  obtain ⟨p, hp⟩ : ∃ p, System.init.play System.NewIds reclaimed = some p :=
    Option.isSome_iff_exists.1 (by decide)
  exact ⟨p, hp, (claims_safe (Pool.run_of_play hp)).1⟩

end Pyreljob
