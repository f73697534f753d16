import Pyreljob.System.Firing

/-!
How often a job fires, counted against how often it was armed.

A job is armed by whoever writes a time into its `next_run_at`, and a beat that fires it takes that
time away again. So a win uses up one arming, and a run that a beat has created, or is about to
create, uses up one win. Both are counted here, for any number of beats with listings as old as may
be.
-/

namespace Pyreljob

open Lib

/-! ### What is counted -/

/-- The job's `next_run_at` is not `NULL`. -/
def DB.armed (db : DB) (j : ℕ) : Bool := (db.jobs.get? j).any fun job => job.nextRunAt.isSome

/-- A request with this reply has written a time into the job's `next_run_at`: `schedule`,
`set_next_run_at`, or one of the two updates of `reconcile_abandoned`. -/
def armsIn (db : DB) (j : ℕ) : (r : Req) → Except Exc r.Reply → Bool
  | .db (.insertJob _), .ok job => job.id = j ∧ job.nextRunAt.isSome
  | .db (.setNextRunAt i nextRunAt), .ok _ => i = j ∧ nextRunAt.isSome ∧ (db.jobs.get? j).isSome
  | .db (.reconcileBatch _ cutoff progressCutoff), .ok _ =>
    (db.jobs.get? j).any fun job => DB.Revives (db.staleRuns cutoff progressCutoff) job
  | .db (.rearmOrphanedJobs _ cutoff), .ok _ => (db.jobs.get? j).any fun job => db.Orphaned cutoff job
  | _, _ => false

/-- How often the job was armed. -/
def armings (log : List Ev) (j : ℕ) : ℕ := log.countP fun ev => armsIn ev.pre j ev.req ev.reply

def wins (log : List Ev) (j : ℕ) : ℕ := log.countP fun ev => (winOf ev).any fun w => w.1 = j

def createsIn (j : ℕ) : (r : Req) → Except Exc r.Reply → Bool
  | .db (.createRun i _), .ok _ => i = j
  | _, _ => false

def asksRun (j : ℕ) : Req → Bool
  | .db (.createRun i _) => i = j
  | _ => false

lemma eq_of_asksRun {j : ℕ} {r : Req} (h : asksRun j r) : ∃ t, r = .db (.createRun j t) := by
  unfold asksRun at h
  split at h
  · rename_i i t
    obtain rfl : i = j := of_decide_eq_true h
    exact ⟨t, rfl⟩
  · cases h

def System.isBeat (p : System) (pid : ℕ) : Bool :=
  match p.kind? pid with
  | some (.beat ..) => true
  | _ => false

/-- The runs that beats have created for the job. -/
def System.firedRuns (p : System) (j : ℕ) : ℕ :=
  p.log.countP fun ev => p.isBeat ev.pid && createsIn j ev.req ev.reply

/-- The beats that have won the job and are about to create its run. -/
def System.wonBy (p : System) (j : ℕ) : Finset ℕ :=
  (Finset.range p.procs.length).filter fun pid => p.isBeat pid && (p.pending pid).any (asksRun j)

/-! ### A win uses up an arming -/

section

variable {db db' : DB} {e : Env} {c : Call} {y : Except Exc c.Reply} {j : ℕ}

lemma insertJob_row {spec : JobSpec} {y : Except Exc JobRow}
    (h : db.insertJob e spec = some (db', y)) : db' = db ∨ y = .ok (spec.row e) := by
  unfold DB.insertJob at h
  split at h
  · cases h
    exact .inl rfl
  · simp only [Option.bind_eq_bind, Option.bind_eq_some_iff, Option.some.injEq, Prod.mk.injEq] at h
    obtain ⟨jobs, -, -, rfl⟩ := h
    exact .inr rfl

lemma armed_exec (h : c.exec db e = some (db', y))
    (hins : ∀ spec t, c = .insertJobAndRun spec t → spec.nextRunAt = none)
    (hfire : ∀ t, c = .claimScheduled j t → t = none) (ha : db'.armed j) :
    db.armed j ∨ armsIn db j (.db c) y := by
  have hstep := exec_job h j
  obtain ⟨job', hjob', hsome⟩ := (Option.any_eq_true _ _).1 ha
  rw [hjob'] at hstep
  generalize ho : db.jobs.get? j = o at hstep
  have hbefore : ∀ job, o = some job → job.nextRunAt.isSome → db.armed j := by
    rintro job rfl hs
    simp [DB.armed, ho, hs]
  cases hstep with
  | same => exact .inl (hbefore job' rfl hsome)
  | enqueued spec t hi =>
    have : spec.nextRunAt = none := hins spec t rfl
    simp [JobSpec.row, this] at hsome
  | scheduled spec hi =>
    rcases insertJob_row h with rfl | rfl
    · rw [ho] at hjob'
      cases hjob'
    · have hid : (spec.row e).id = e.jobId := rfl
      exact .inr (by simp [armsIn, hsome, hi, hid])
  | cancelled job | incremented job | reset job => exact .inl (hbefore job rfl hsome)
  | fired job t hj =>
    rw [hfire t rfl] at hsome
    cases hsome
  | revived job now cutoff pc hj =>
    cases h
    exact .inr (by simp [armsIn, ho, hj])
  | rearmed job now cutoff hj =>
    cases h
    exact .inr (by simp [armsIn, ho, hj])
  | armed job t =>
    cases h
    exact .inr (by simpa [armsIn, ho] using hsome)

/-- **A win uses up an arming**: what a transaction does to the count. -/
lemma armed_step (h : c.exec db e = some (db', y))
    (hins : ∀ spec t, c = .insertJobAndRun spec t → spec.nextRunAt = none)
    (hfire : ∀ i t, c = .claimScheduled i t → t = none) :
    (if (winIn (.db c) (.commit e) y).any fun w => w.1 = j then 1 else 0) + (db'.armed j).toNat ≤
      (db.armed j).toNat + if armsIn db j (.db c) y then 1 else 0 := by
  by_cases hw : (winIn (.db c) (.commit e) y).any fun w => w.1 = j
  · obtain ⟨⟨i, t⟩, hwin, hi⟩ := (Option.any_eq_true _ _).1 hw
    obtain rfl : i = j := of_decide_eq_true hi
    obtain ⟨nextRunAt, job, rfl, -, hjob, ⟨-, hdue, -⟩, -, hjob'⟩ := winIn_commit h hwin
    obtain rfl := hfire _ _ rfl
    obtain ⟨due, hdue', -⟩ := (Option.any_eq_true _ _).1 hdue
    have hbefore : db.armed i = true := by simp [DB.armed, hjob, hdue']
    have hafter : db'.armed i = false := by simp [DB.armed, hjob']
    rw [if_pos hw, hbefore, hafter]
    simp
  · rw [if_neg hw, Nat.zero_add]
    cases ha : db'.armed j with
    | false => exact Nat.zero_le _
    | true =>
      rcases armed_exec h hins (hfire j) ha with hb | hb
      · rw [hb]
        exact Nat.le_add_right _ _
      · rw [if_pos hb]
        exact Nat.le_add_left _ _

end

/-! ### Every win in a run -/

/-- What the wins of a run so far have used up, and how each of them found the job. -/
structure Wins (db : DB) (log : List Ev) : Prop where
  /-- A win uses up an arming. -/
  counted : ∀ j, wins log j + (db.armed j).toNat ≤ armings log j
  /-- The job was due and idle, and is disarmed by the win. -/
  due : ∀ ev ∈ log, ∀ j t, winOf ev = some (j, t) → ∃ job due, ev.pre.jobs.get? j = some job ∧
    job.status = .active ∧ job.nextRunAt = some due ∧ due ≤ t ∧ ev.pre.hasActiveRun j = false ∧
    ev.post.jobs.get? j = some { job with nextRunAt := none, updatedAt := some t }

/-- An event that is neither a win nor an arming, and leaves the database. -/
lemma Wins.quiet {db : DB} {log : List Ev} (h : Wins db log) {ev : Ev} (hwin : winOf ev = none)
    (harm : ∀ j, armsIn ev.pre j ev.req ev.reply = false) : Wins db (log ++ [ev]) where
  counted j := by
    simpa [wins, armings, List.countP_append, hwin, harm] using h.counted j
  due ev' hev' j t hw := by
    rcases List.mem_append.1 hev' with hev' | hev'
    · exact h.due ev' hev' j t hw
    · rw [List.mem_singleton.1 hev', hwin] at hw
      cases hw

lemma Wins.commit {db db' : DB} {log : List Ev} (h : Wins db log) {pid : ℕ} {c : Call} {e : Env}
    {y : Except Exc c.Reply} (hx : c.exec db e = some (db', y))
    (hins : ∀ spec t, c = .insertJobAndRun spec t → spec.nextRunAt = none)
    (hfire : ∀ i t, c = .claimScheduled i t → t = none) :
    Wins db' (log ++ [⟨pid, .db c, .commit e, y, db, db'⟩]) where
  counted j := by
    have hstep := armed_step hx hins hfire (j := j)
    have hbefore := h.counted j
    simp only [wins, armings, List.countP_append, List.countP_singleton, winOf] at hbefore ⊢
    omega
  due ev hev j t hw := by
    rcases List.mem_append.1 hev with hev | hev
    · exact h.due ev hev j t hw
    · rw [List.mem_singleton.1 hev] at hw ⊢
      obtain ⟨nextRunAt, job, rfl, rfl, hjob, ⟨hact, hdue, hidle⟩, -, hjob'⟩ := winIn_commit hx hw
      obtain rfl := hfire _ _ rfl
      obtain ⟨due, hsome, hle⟩ := (Option.any_eq_true _ _).1 hdue
      rw [job_id_of_get? hjob] at hidle
      exact ⟨job, due, hjob, hact, hsome, of_decide_eq_true hle, hidle, hjob'⟩

lemma armsIn_error (db : DB) (j : ℕ) (c : Call) (exc : Exc) : armsIn db j (.db c) (.error exc) = false := by
  cases c <;> rfl

lemma armsIn_ask {db : DB} {j : ℕ} {r : Req} {y : Except Exc r.Reply} (hr : ∀ c, r ≠ .db c) :
    armsIn db j r y = false := by
  cases r with
  | db c => exact absurd rfl (hr c)
  | _ => rfl

/-- In every run each win uses up an arming, and finds its job as it should. -/
theorem wins_of_reached {p : System} (h : p.Reached System.Any) : Wins p.shared p.log := by
  have hrun := System.phases (fun _ => True) (fun db log _ => Wins db log)
    (fun _ _ _ _ _ => trivial)
    ⟨fun _ => Nat.zero_le _, fun _ hev => absurd hev List.not_mem_nil⟩ (fun _ _ _ _ hw => hw)
    (fun p ph pid c e db' y _ _ _ hok hx hw => hw.commit hx (by rintro spec t rfl; exact hok.2.2)
      (by rintro i t rfl; exact hok.1))
    (fun p ph pid c exc _ hw _ => hw.quiet (winIn_error _ _ _) fun j => armsIn_error _ j c exc)
    (fun p ph pid r a y _ hr _ _ _ hw => hw.quiet (winIn_ask hr) fun j => armsIn_ask hr) h
  obtain ⟨ph, -, hw⟩ := hrun
  exact hw

/-! ### A run of a beat uses up a win -/

/-- What a beat has in its hands; a process that is no beat is `out`. -/
inductive Hold
  | out
  | idle
  /-- It has won the job, and has not done anything else since. -/
  | holds (jobId : ℕ)
  deriving DecidableEq

namespace Hold

def next : Hold → (r : Req) → Except Exc r.Reply → Hold
  | out, _, _ => out
  | _, .db (.claimScheduled jobId _), .ok true => holds jobId
  | holds _, .now, .ok _ | holds _, .db (.createRun ..), .ok _ => idle
  | c, _, _ => c

/-- A beat creates a run for the job it holds only. -/
def ok (c : Hold) : Req → Prop
  | .db (.createRun jobId _) => c = out ∨ c = holds jobId
  | _ => True

abbrev Moves : Hold → (r : Req) → Except Exc r.Reply → Hold → Prop :=
  Prog.Moving (fun _ r y => Valid r y) next

def token (j : ℕ) (c : Hold) : ℕ := if c = holds j then 1 else 0

def InPhase : Hold → Phase → Prop
  | out, _ => False
  | idle, ph => ph.Idle
  | holds j, ph => ph = .fired j

lemma next_ne_out {c : Hold} {r : Req} {y : Except Exc r.Reply} (hc : c ≠ out) : c.next r y ≠ out := by
  unfold next
  split
  · exact hc
  · exact nofun
  · exact nofun
  · exact nofun
  · exact hc

lemma inPhase_next {c : Hold} {ph : Phase} {r : Req} {y : Except Exc r.Reply} (h : c.InPhase ph)
    (hok : ph.ok { claim := False } r) : (c.next r y).InPhase (ph.next r y) := by
  have hturn := Phase.turn y hok
  unfold next
  split
  · exact h.elim
  · rfl
  · obtain rfl : ph = _ := h
    trivial
  · obtain rfl : ph = _ := h
    trivial
  · rename_i hout hwin hnow hcreate
    generalize hph : ph.next r y = ph' at hturn
    cases hturn with
    | stays => exact h
    | reads _ t hc =>
      cases c with
      | out => exact h
      | idle => trivial
      | holds j => exact (hnow j t rfl rfl HEq.rfl).elim
    | selects _ _ _ _ _ hc => exact hok.2.elim
    | fires _ j t hc =>
      cases c with
      | out => exact h
      | idle | holds i => exact (hwin _ _ rfl HEq.rfl).elim
    | creates j t run =>
      cases c with
      | out | idle => exact h.elim
      | holds i => exact (hcreate i _ _ _ rfl rfl HEq.rfl).elim
    | claims | misses | retries | givesUp | givesBack | completes | cancels =>
      cases c with
      | out | idle => exact h.elim
      | holds i => cases h

end Hold

lemma beat_inPhase (g : ℤ) (m : Option ℤ) (fuel : ℕ) :
    Pool.InPhase Hold.Moves Hold.ok (fun _ => True) (Kind.beat g m fuel).program .idle := by
  have hbeat : Pool.InPhase Phase.Moves (Phase.ok { claim := False }) (fun _ => True)
      (Kind.beat g m fuel).program .rest := Kind.inPhase _ (fun _ _ _ _ => trivial) nofun
  refine (Prog.Keeps.sim Hold.InPhase ?_ ?_ hbeat
    (show Hold.InPhase .idle .rest from trivial)).mono fun _ _ _ => trivial
  · rintro c ph r y _ h hok ⟨hv, rfl⟩
    exact ⟨_, ⟨hv, rfl⟩, Hold.inPhase_next h hok⟩
  · intro c ph r h hok
    unfold Hold.ok
    split
    · rcases hok with rfl | ⟨i, w, rfl⟩
      · cases c with
        | out | idle => exact h.elim
        | holds j =>
          cases h
          exact .inr rfl
      · cases c with
        | out | idle => exact h.elim
        | holds j => cases h
    · trivial

/-- **A run uses up a win**: what one request of a beat does to the count. -/
lemma Hold.token_next {c : Hold} {r : Req} {a : Answer} {y : Except Exc r.Reply} {db db' : DB}
    (j : ℕ) (h : answer db r a = some (db', y)) (hok : c.ok r) :
    (c.next r y).token j + (if c ≠ .out ∧ createsIn j r y then 1 else 0) ≤
      c.token j + if (winIn r a y).any fun w => w.1 = j then 1 else 0 := by
  unfold Hold.next
  split
  · simp [Hold.token]
  · rename_i i t hout
    cases a with
    | commit e =>
      have hcreate : createsIn j (.db (.claimScheduled i t)) (.ok true) = false := rfl
      rw [winIn_claimScheduled, hcreate]
      by_cases hi : i = j <;> simp [Hold.token, hi]
    | _ => cases h
  · simp [Hold.token, createsIn]
  · rename_i i i' t run
    rcases hok with hc | hc
    · cases hc
    · cases hc
      by_cases hi : i = j <;> simp [Hold.token, createsIn, hi]
  · rename_i hout hwin hnow hcreate
    have hnone : ¬ (c ≠ .out ∧ createsIn j r y) := by
      rintro ⟨hc, hcr⟩
      unfold createsIn at hcr
      split at hcr
      · rcases hok with hc' | rfl
        · exact hc hc'
        · exact hcreate _ _ _ _ rfl rfl HEq.rfl
      · cases hcr
    rw [if_neg hnone]
    exact Nat.le_add_right _ _

/-- The runs that beats have created and the wins they have in their hands, against the wins. -/
structure Used (p : System) (ph : ℕ → Hold) : Prop where
  beats : ∀ pid, p.isBeat pid → p.lives pid → ph pid ≠ .out
  started : ∀ ev ∈ p.log, ev.pid < p.procs.length
  counted : ∀ j, ∃ n, Pool.AtMost (Hold.token j) ph n ∧ p.firedRuns j + n ≤ wins p.log j

section

variable {p p' : System}

lemma firedRuns_congr (hlog : p'.log = p.log) (hbeat : ∀ ev ∈ p.log, p'.isBeat ev.pid = p.isBeat ev.pid)
    (j : ℕ) : p'.firedRuns j = p.firedRuns j := by
  unfold System.firedRuns
  rw [hlog]
  refine List.countP_congr fun ev hev => ?_
  rw [hbeat ev hev]

lemma isBeat_congr {pid : ℕ} (h : p'.kind? pid = p.kind? pid) : p'.isBeat pid = p.isBeat pid := by
  unfold System.isBeat
  rw [h]

lemma Used.out {ph : ℕ → Hold} (h : Used p ph) {pid : ℕ} (hlog : p'.log = p.log)
    (hkind : ∀ q, p'.kind? q = p.kind? q) (hlen : p.procs.length ≤ p'.procs.length)
    (hlives : ∀ q, p'.lives q → p.lives q) (hgone : ¬ p'.lives pid) :
    Used p' (Function.update ph pid .out) where
  beats q hq hl := by
    have hne : q ≠ pid := by
      rintro rfl
      exact hgone hl
    rw [Function.update_of_ne hne]
    exact h.beats q (isBeat_congr (hkind q) ▸ hq) (hlives q hl)
  started ev hev := (h.started ev (hlog ▸ hev)).trans_le hlen
  counted j := by
    obtain ⟨n, hn, hle⟩ := h.counted j
    refine ⟨n, hn.update (by simp [Hold.token]), ?_⟩
    rw [hlog, firedRuns_congr hlog fun ev _ => isBeat_congr (hkind ev.pid)]
    exact hle

lemma Used.spawn {ph : ℕ → Hold} (h : Used p ph) {k : Kind}
    (hstep : Pool.step answer Kind.program p (.spawn k) = some p') :
    ∃ c, Pool.InPhase Hold.Moves Hold.ok (fun _ => True) k.program c ∧
      Used p' (Function.update ph p.procs.length c) := by
  obtain ⟨-, hlog, hlen, hprog⟩ := Pool.step_spawn hstep
  have hkind := Pool.kind?_spawn hstep
  have hold : ∀ q, q < p.procs.length → p'.isBeat q = p.isBeat q := by
    intro q hq
    exact isBeat_congr (by rw [hkind, if_neg hq.ne])
  have hused : ∀ c : Hold, (∀ j, c.token j = 0) → (p'.isBeat p.procs.length → c ≠ .out) →
      Used p' (Function.update ph p.procs.length c) := by
    intro c htok hbeat
    refine ⟨fun q hq hl => ?_, fun ev hev => ?_, fun j => ?_⟩
    · by_cases hnew : q = p.procs.length
      · rw [hnew, Function.update_self]
        exact hbeat (hnew ▸ hq)
      · have hlive : p.lives q := by
          rwa [Pool.lives, hprog, if_neg hnew] at hl
        rw [Function.update_of_ne hnew]
        exact h.beats q (hold q (Pool.lt_of_lives hlive) ▸ hq) hlive
    · rw [hlen]
      exact Nat.lt_succ_of_lt (h.started ev (hlog ▸ hev))
    · obtain ⟨n, hn, hle⟩ := h.counted j
      refine ⟨n, hn.update (by simp [htok]), ?_⟩
      rw [hlog, firedRuns_congr hlog fun ev hev => hold ev.pid (h.started ev hev)]
      exact hle
  by_cases hk : p'.isBeat p.procs.length
  · have hbeat : ∃ g m fuel, k = .beat g m fuel := by
      unfold System.isBeat at hk
      rw [hkind, if_pos rfl] at hk
      split at hk
      · rename_i heq
        exact ⟨_, _, _, Option.some.inj heq⟩
      · cases hk
    obtain ⟨g, m, fuel, rfl⟩ := hbeat
    exact ⟨.idle, beat_inPhase g m fuel, hused .idle (fun _ => rfl) fun _ => (by simp)⟩
  · refine ⟨.out, ?_, hused .out (fun _ => rfl) fun hk' => absurd hk' hk⟩
    refine (Prog.Keeps.of_inv ?_ ?_ k.program rfl).mono fun _ _ _ => trivial
    · rintro c r rfl
      unfold Hold.ok
      split
      · exact .inl rfl
      · trivial
    · rintro c r y c' rfl ⟨-, rfl⟩
      rfl

lemma Used.act {ph : ℕ → Hold} (h : Used p ph) {pid : ℕ} {a : Answer} {r : Req}
    {f : Except Exc r.Reply → Io Unit} {y : Except Exc r.Reply}
    (hstep : Pool.step answer Kind.program p (.act pid a) = some p')
    (hacts : Pool.Acts answer p pid a p' r f y) (hok : (ph pid).ok r) :
    Used p' (Function.update ph pid ((ph pid).next r y)) := by
  have hkind : ∀ q, p'.isBeat q = p.isBeat q := fun q => isBeat_congr (Pool.kind?_act hstep q)
  have hlive : p.lives pid := by
    simp [Pool.lives, hacts.waiting]
  refine ⟨fun q hq hl => ?_, fun ev hev => ?_, fun j => ?_⟩
  · rw [hkind] at hq
    by_cases hpid : q = pid
    · subst hpid
      rw [Function.update_self]
      exact Hold.next_ne_out (h.beats q hq hlive)
    · rw [Function.update_of_ne hpid]
      refine h.beats q hq ?_
      rwa [Pool.lives, hacts.resumed, if_neg hpid] at hl
  · rw [hacts.procs]
    rw [hacts.logged] at hev
    rcases List.mem_append.1 hev with hev | hev
    · exact h.started ev hev
    · rw [List.mem_singleton.1 hev]
      exact Pool.lt_of_lives hlive
  · obtain ⟨n, hn, hle⟩ := h.counted j
    have htoken := Hold.token_next (c := ph pid) j hacts.answered hok
    have hruns : p'.firedRuns j ≤ p.firedRuns j +
        if ph pid ≠ .out ∧ createsIn j r y then 1 else 0 := by
      have hcount : p'.firedRuns j = p.firedRuns j +
          if p.isBeat pid && createsIn j r y then 1 else 0 := by
        simp only [System.firedRuns, hacts.logged, List.countP_append, List.countP_singleton, hkind]
      rw [hcount]
      by_cases hb : p.isBeat pid && createsIn j r y
      · obtain ⟨hbeat, hcr⟩ := Bool.and_eq_true_iff.1 hb
        rw [if_pos hb, if_pos ⟨h.beats pid hbeat hlive, hcr⟩]
      · rw [if_neg hb]
        exact Nat.le_add_right _ _
    have hwins : wins p'.log j =
        wins p.log j + if (winIn r a y).any fun w => w.1 = j then 1 else 0 := by
      simp only [wins, hacts.logged, List.countP_append, List.countP_singleton, winOf]
    have hown : (ph pid).token j ≤ n := by simpa using hn {pid}
    refine ⟨n + ((ph pid).next r y).token j - (ph pid).token j, hn.update (by omega), ?_⟩
    rw [hwins]
    omega

end

/-- In every run each run that a beat creates uses up a win. -/
theorem used_of_reached {p : System} (h : p.Reached System.Any) :
    ∃ ph, Pool.Phased Hold.Moves Hold.ok (fun _ => True) .out .out p ph ∧ Used p ph := by
  have hinit : Pool.Phased Hold.Moves Hold.ok (fun _ => True) .out .out System.init
      fun _ => .out := by
    intro pid
    exact (ite_self _).symm
  have hused : Used System.init fun _ => .out :=
    ⟨fun _ _ hl => absurd (Pool.lt_of_lives hl) (Nat.not_lt_zero _),
      fun _ hev => absurd hev List.not_mem_nil, fun j => ⟨0, Pool.atMost_zero fun _ => rfl, le_rfl⟩⟩
  refine Pool.walk (fun p p' ph k _ hstep _ hG => hG.spawn hstep) ?_ ?_ ?_ h hinit hused
  · intro p p' ph pid _ hstep _ hG
    obtain ⟨-, hlog, hlen, -, hprog⟩ := Pool.step_crash hstep
    refine hG.out hlog (Pool.kind?_crash hstep) hlen.ge (fun q hq => ?_) ?_
    · rw [Pool.lives, hprog] at hq
      split at hq
      · cases hq
      · exact hq
    · simp [Pool.lives, hprog]
  · intro p ph pid hnone _ hG
    exact hG.out rfl (fun _ => rfl) le_rfl (fun _ hq => hq) (by simp [Pool.lives, hnone])
  · intro p p' ph pid a r f y _ hstep _ hG hacts hok
    exact ⟨_, ⟨valid_of_answer hacts.answered, rfl⟩, hG.act hstep hacts hok⟩

/-- **Each arming fires at most once.** In every run of the system: the runs that beats have created
for a job, the beats that have won it and are about to create its run, and one more if it is armed,
are no more than the times it was armed; and a beat that wins it finds it active, due, and without a
run that is ready or running, and disarms it. -/
theorem armings_fire_once {p : System} (h : p.Reached System.Any) :
    (∀ j, p.firedRuns j + (p.wonBy j).card + (p.shared.armed j).toNat ≤ armings p.log j) ∧
    ∀ ev ∈ p.log, ∀ j t, winOf ev = some (j, t) → ∃ job due, ev.pre.jobs.get? j = some job ∧
      job.status = .active ∧ job.nextRunAt = some due ∧ due ≤ t ∧ ev.pre.hasActiveRun j = false ∧
      ev.post.jobs.get? j = some { job with nextRunAt := none, updatedAt := some t } := by
  have hwins := wins_of_reached h
  refine ⟨fun j => ?_, hwins.due⟩
  obtain ⟨ph, hph, hused⟩ := used_of_reached h
  obtain ⟨n, hn, hruns⟩ := hused.counted j
  have hheld : (p.wonBy j).card ≤ n := by
    refine hn.card_le fun pid hpid => ?_
    obtain ⟨hbeat, hasks⟩ := Bool.and_eq_true_iff.1 (Finset.mem_filter.1 hpid).2
    unfold Pool.pending at hasks
    split at hasks
    · rename_i r f hwait
      have hok := (hph.of_prog? hwait).1
      have hout := hused.beats pid hbeat (by simp [Pool.lives, hwait])
      obtain ⟨t, rfl⟩ := eq_of_asksRun hasks
      simp [Hold.token, hok.resolve_left hout]
    · cases hasks
  have hcount := hwins.counted j
  omega

/-- A job is armed, a beat wins it, and creates the run. -/
theorem armings_fire_once_fired : ∃ p p' : System,
    System.init.play System.Any firing = some p ∧ p.play System.Any (commits 1 1 2) = some p' ∧
    armings p.log 0 = 1 ∧ p.wonBy 0 = {1} ∧ p'.firedRuns 0 = 1 ∧
    p.firedRuns 0 + (p.wonBy 0).card + (p.shared.armed 0).toNat ≤ armings p.log 0 := by
  have hall : ((System.init.play System.Any firing).any fun p => armings p.log 0 = 1 ∧
      p.wonBy 0 = {1} ∧ (p.play System.Any (commits 1 1 2)).any fun p' => p'.firedRuns 0 = 1) =
        true := by decide
  obtain ⟨p, hp, hend⟩ := (Option.any_eq_true _ _).1 hall
  obtain ⟨harm, hwon, hall'⟩ := of_decide_eq_true hend
  obtain ⟨p', hp', hend'⟩ := (Option.any_eq_true _ _).1 hall'
  exact ⟨p, p', hp, hp', harm, hwon, of_decide_eq_true hend',
    (armings_fire_once (Pool.run_of_play hp)).1 0⟩

end Pyreljob
