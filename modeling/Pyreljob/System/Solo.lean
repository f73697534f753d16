import Pyreljob.System.Execution
import Pyreljob.System.Outline

/-!
Histories of one run in which its executors follow one another.

`Solo` says what such a history is, as a condition on the acts of the whole system: a claim of the
run is won only when no process lives that has claimed it, the run belongs to a job whose class
every worker knows, nobody deletes it, and nobody undoes it by hand. Executors are killed anywhere.

`Outline.solo` is the rule for them. If an outline is sound, and still describes the run after any
executor was killed, it describes the run in every state that is reached.
-/

namespace Pyreljob

open Lib Relation

/-- The process has claimed the run. -/
def claimedBy (pid i : ℕ) (log : List Ev) : Bool := (claimsBy pid log).any fun c => c.runId = i

def Unattended (i : ℕ) (p : System) : Prop :=
  ∀ pid < p.procs.length, p.lives pid → claimedBy pid i p.log = false

instance (i : ℕ) (p : System) : Decidable (Unattended i p) :=
  inferInstanceAs (Decidable (∀ pid < _, _))

/-- The run belongs to a job that is called `name` and allows `m` attempts. -/
def BelongsTo (db : DB) (i : ℕ) (name : String) (m : ℤ) : Prop :=
  ∀ r ∈ db.runs.get? i, ∃ j ∈ db.jobs.get? r.jobId, j.job = name ∧ j.maxAttempts = m

instance (db : DB) (i : ℕ) (name : String) (m : ℤ) : Decidable (BelongsTo db i name m) :=
  inferInstanceAs (Decidable (∀ r ∈ _, ∃ j ∈ _, _))

def knows (name : String) (cls : JobCls) : Act → Bool
  | .spawn (.worker w) => w.resolve name = some cls
  | _ => true

def mindsReq (i : ℕ) (p : System) (pid : ℕ) : Req → Bool
  | .db (.compensateTask runId _) | .undo runId _ _ => runId ≠ i || claimedBy pid i p.log
  | .db c => !p.shared.erases i c && (!p.shared.wins i c || decide (Unattended i p))
  | _ => true

def minds (i : ℕ) (p : System) : Act → Bool
  | .act pid _ => (p.pending pid).all (mindsReq i p pid)
  | _ => true

/-- **A history of the run `i`**, of a job that is called `name` and allows `m` attempts, in which
its executors follow one another. -/
def Solo (i : ℕ) (name : String) (m : ℤ) (cls : JobCls) (p : System) (l : Act) : Prop :=
  BelongsTo p.shared i name m ∧ knows name cls l ∧ minds i p l

instance (i : ℕ) (name : String) (m : ℤ) (cls : JobCls) (p : System) (l : Act) :
    Decidable (Solo i name m cls p l) := inferInstanceAs (Decidable (_ ∧ _ ∧ _))

section

variable {i : ℕ} {name : String} {m : ℤ} {cls : JobCls} {p : System} {pid : ℕ} {a : Answer} {c : Call}

lemma Solo.mindsReq {r : Req} (h : Solo i name m cls p (.act pid a)) (hr : p.pending pid = some r) :
    mindsReq i p pid r := by
  have hm := h.2.2
  rwa [minds, hr] at hm

lemma Solo.erases (h : Solo i name m cls p (.act pid a)) (hr : p.pending pid = some (.db c)) :
    p.shared.erases i c = false := by
  have hm := h.mindsReq hr
  cases c <;> simp [Pyreljob.mindsReq] at hm <;> first | exact hm.1 | rfl

lemma Solo.unattended (h : Solo i name m cls p (.act pid a)) (hr : p.pending pid = some (.db c))
    (hw : p.shared.wins i c) : Unattended i p := by
  have hm := h.mindsReq hr
  cases c <;> simp [Pyreljob.mindsReq, hw] at hm <;> first | exact hm.2 | cases hw

end

/-! ### The run as its executor sees it -/

def View.absent : View where
  jobId := none
  status := none
  result := none
  error := none

namespace Outline

variable (O : Outline) (i : ℕ) (name : String) (m : ℤ) (cls : JobCls)

/-- What a worker knows that has just claimed the run. -/
structure Entered (run : RunRow) (v : View) : Prop where
  id : run.id = i
  jobId : v.jobId = some run.jobId
  ctx : run.ctx = v.ctx
  working : v.Working
  based : v.Based cls.tasks.length
  enters : O.enters v.toSaga

/-- How a process moves, which sees the run while it executes it. -/
def Moves (c : Phase × Option View) (r : Req) (y : Except Exc r.Reply) (c' : Phase × Option View) :
    Prop :=
  c.1.Moves r y c'.1 ∧ match c.2 with
    | some v => ∃ v', c'.2 = some v' ∧ O.Step i name m v r y v'
    | none => match wonRun i r y with
      | some run => ∃ v, c'.2 = some v ∧ O.Entered i cls run v
      | none => c'.2 = none

def Asks (c : Phase × Option View) (r : Req) : Prop :=
  c.1.ok {} r ∧ ∀ v, c.2 = some v → O.Waits i cls v r

/-- A process that ends leaves the run alone. -/
def Ends (c : Phase × Option View) : Prop := ∀ v, c.2 = some v → O.Rested cls v

/-- The program keeps to its phases, and to the outline where it executes the run. -/
abbrev Follows {α : Type} (p : Io α) (Q : Except Exc α → Phase × Option View → Prop)
    (c : Phase × Option View) : Prop :=
  p.Keeps (O.Moves i name m cls) (O.Asks i cls) Q c

end Outline

/-- The process neither executes the run nor is about to claim one. -/
def Aside (may : Leave) (i : ℕ) : Phase → Prop
  | .exec runId _ _ _ => runId ≠ i
  | .selected .. => False
  | _ => ¬ may.claim

section

variable {may : Leave} {i : ℕ} {c : Phase} {r : Req}

lemma ok_mono (h : c.ok may r) : c.ok {} r := by
  cases r with
  | db q =>
    cases q with
    | selectClaimable => exact ⟨h.1, trivial⟩
    | reconcileBatch | rearmOrphanedJobs =>
      obtain ⟨hc, g, -, hg⟩ := h
      exact ⟨hc, g, trivial, hg⟩
    | failRun _ _ t => cases t <;> exact h
    | _ => exact h
  | _ => exact h

/-- A process that executes nothing stays aside because it claims nothing. -/
lemma Aside.not_claim (hc : Aside may i c) (hx : ¬ c.Executes) : ¬ may.claim := by
  cases c with
  | exec => exact absurd trivial hx
  | selected => exact hc.elim
  | _ => exact hc

lemma not_executes_of_idle (hc : c.Idle) : ¬ c.Executes := by
  cases c <;> first | exact id | cases hc

lemma Aside.next (hc : Aside may i c) (hok : c.ok may r) (y : Except Exc r.Reply) :
    Aside may i (c.next r y) ∧ wonRun i r y = none := by
  have hwon : wonRun i r y = none := by
    unfold wonRun
    split
    · obtain rfl : c = _ := hok
      exact hc.elim
    · rfl
  refine ⟨?_, hwon⟩
  have hturn := Phase.turn y hok
  generalize c.next r y = c' at hturn
  cases hturn with
  | reads _ _ hx => exact hc.not_claim hx
  | selects _ _ _ _ _ hi => exact absurd hok.2 (hc.not_claim (not_executes_of_idle hi))
  | claims | misses => exact hc.elim
  | fires _ _ _ hi => exact hc.not_claim (not_executes_of_idle hi)
  | _ => exact hc

end

namespace Outline

section

variable {O : Outline} {i : ℕ} {name : String} {m : ℤ} {cls : JobCls}

lemma aside_follows {α : Type} {may : Leave} {p : Io α} {Q : Except Exc α → Phase → Prop} {c : Phase}
    (h : Obeys may p Q c) (hc : Aside may i c) :
    O.Follows i name m cls p (fun _ c => O.Ends cls c) (c, none) := by
  refine (Prog.Keeps.sim (fun d c => d = (c, none) ∧ Aside may i c) ?_ ?_ h ⟨rfl, hc⟩).mono ?_
  · rintro _ c r y ⟨c', x⟩ ⟨rfl, hc⟩ hok ⟨hmove, hx⟩
    obtain ⟨hc', hwon⟩ := hc.next hok y
    simp only [hwon] at hx
    obtain rfl : c' = c.next r y := hmove.2
    exact ⟨_, hmove, by rw [hx], hc'⟩
  · rintro _ c r ⟨rfl, -⟩ hok
    exact ⟨ok_mono hok, nofun⟩
  · rintro _ _ ⟨c, ⟨rfl, -⟩, -⟩ v hv
    cases hv

/-- A request of a process that does not execute the run, and does not win it. -/
lemma Follows.ask {β : Type} {r : Req} {f : r.Reply → Io β}
    {Q : Except Exc β → Phase × Option View → Prop} {c : Phase} (hok : c.ok {} r)
    (hwon : ∀ y, wonRun i r y = none) (hraise : ∀ e, Q (.error e) (c.next r (.error e), none))
    (hreply : ∀ a, Valid r (.ok a) → O.Follows i name m cls (f a) Q (c.next r (.ok a), none)) :
    O.Follows i name m cls (Prog.call r >>= f) Q (c, none) := by
  refine .call_bind ⟨hok, nofun⟩ ?_ ?_
  · rintro e ⟨c', x⟩ ⟨⟨-, hc'⟩, hx⟩
    obtain rfl : c' = _ := hc'
    simp only [hwon] at hx
    rw [hx]
    exact hraise e
  · rintro a ⟨c', x⟩ ⟨⟨hv, hc'⟩, hx⟩
    obtain rfl : c' = _ := hc'
    simp only [hwon] at hx
    rw [hx]
    exact hreply a hv

/-- What a claim leaves: the worker executes what it has won, and knows the run if it is this one. -/
def Claims (O : Outline) (i : ℕ) (cls : JobCls) :
    Except Exc (Option RunRow) → Phase × Option View → Prop
  | .ok (some run), c => (∃ w, c.1 = .exec run.id run.jobId w .working) ∧
    match c.2 with
    | some v => O.Entered i cls run v
    | none => run.id ≠ i
  | _, c => c.2 = none

lemma claim_follows (w : Worker) :
    O.Follows i name m cls w.claim (Claims O i cls) (.rest, none) := by
  refine .ask nofun (fun _ => rfl) (fun _ => rfl) fun now _ => ?_
  refine .ask nofun (fun _ => rfl) (fun _ => rfl) fun now' _ => ?_
  refine .ask ⟨trivial, trivial⟩ (fun _ => rfl) (fun _ => rfl) ?_
  rintro (_ | runId) -
  · rfl
  · refine .call ⟨rfl, nofun⟩ ?_
    rintro (e | _ | run) ⟨c', x⟩ ⟨⟨hv, hc'⟩, hx⟩
    · exact hx
    · exact hx
    · refine ⟨⟨w.workerId, hc'⟩, ?_⟩
      have hid : run.id = runId := hv
      by_cases hi : runId = i
      · simp only [wonRun, hi, if_true] at hx
        obtain ⟨v, rfl, hentered⟩ := hx
        exact hentered
      · simp only [wonRun, hi, if_false] at hx
        rw [hx]
        exact hid ▸ hi

lemma execute_follows (hO : O.Sound i cls m) {w : Worker} (hw : w.resolve name = some cls)
    {run : RunRow} {v : View} (h : O.Entered i cls run v) (wid : String) :
    O.Follows i name m cls (w.execute run) (fun _ c => O.Ends cls c)
      (.exec run.id run.jobId wid .working, some v) := by
  have hphase : Obeys {} (w.execute run) Anyhow (.exec run.id run.jobId wid .working) :=
    execute_obeys w run
  have htells := execute_tells hO hw h.id h.ctx h.jobId h.working h.based h.enters
  refine (Prog.Keeps.sim (fun d c => d = (c.1, some c.2)) ?_ ?_ (hphase.prod htells) rfl).mono ?_
  · rintro _ ⟨c, v⟩ r y ⟨c', x⟩ rfl hok ⟨hmove, v', rfl, hstep⟩
    exact ⟨(c', v'), ⟨hmove, hstep⟩, rfl⟩
  · rintro _ ⟨c, v⟩ r rfl hok
    refine ⟨hok.1, ?_⟩
    rintro _ ⟨⟩
    exact hok.2
  · rintro _ _ ⟨⟨c, v⟩, rfl, -, hrest⟩ _ ⟨⟩
    exact hrest

lemma tick_follows (hO : O.Sound i cls m) {w : Worker} (hw : w.resolve name = some cls) :
    O.Follows i name m cls w.tick (fun _ c => O.Ends cls c) (.rest, none) := by
  refine .bind ((claim_follows w).mono ?_)
  rintro (e | _ | run) ⟨c, x⟩ h
  · obtain rfl : x = none := h
    exact nofun
  · obtain rfl : x = none := h
    exact nofun
  · obtain ⟨⟨wid, hc⟩, hx⟩ := h
    obtain rfl : c = _ := hc
    cases x with
    | some v => exact execute_follows hO hw hx wid
    | none =>
      have hphase : Obeys {} (w.execute run) Anyhow (.exec run.id run.jobId wid .working) :=
        execute_obeys w run
      exact aside_follows hphase hx

/-- **Every process keeps to the outline**, if every worker knows the class. -/
theorem program_follows (hO : O.Sound i cls m) {k : Kind} (hk : knows name cls (.spawn k)) :
    O.Follows i name m cls k.program (fun _ c => O.Ends cls c) (.rest, none) := by
  cases k with
  | worker w => exact tick_follows hO (by simpa [knows] using hk)
  | _ =>
    refine aside_follows (Kind.inPhase _ (fun _ _ _ _ => trivial) ?_ : Obeys { claim := False } _ _ _)
      id
    nofun

end

end Outline

/-! ### What an answered request does to the view -/

namespace View

/-- The run as it is now. -/
def now (i : ℕ) (db : DB) (log : List Ev) : View := View.of i db (story i log)

end View

/-- The request about the run was made as the outline says, by its executor, or by the handler of one
that is done with it. -/
def Outline.Made (O : Outline) (i : ℕ) (v : View) (r : Req) : Prop :=
  (v.Working ∧ O.asks v.toSaga r) ∨ (v.Settled ∧ r = .db (unhandled i))

section

variable {db db' : DB} {i pid : ℕ} {log : List Ev} {r : Req} {a : Answer} {y : Except Exc r.Reply}

lemma onePer_answer (h : answer db r a = some (db', y)) (h₁ : db.OnePer i) : db'.OnePer i :=
  answer_cases (motive := fun _ _ db' _ => db'.OnePer i) (fun _ _ _ _ hx => exec_onePer hx h₁)
    (fun _ _ => h₁) (fun _ _ _ _ _ => h₁) h

/-- A request about the run moves its view by a function. -/
theorem view_answer (h : answer db r a = some (db', y)) (hab : about i r) (h₁ : db.OnePer i)
    (hr : (View.now i db log).status.isSome) :
    View.now i db' (log ++ [⟨pid, r, a, y, db, db'⟩]) = (View.now i db log).after i r y := by
  unfold View.now at hr ⊢
  rw [story_concat, if_pos hab]
  revert hab
  refine answer_cases (motive := fun r a db' y => about i r →
    View.of i db' (story i log ++ [⟨r, y⟩]) = (View.of i db (story i log)).after i r y) ?_ ?_ ?_ h
  · intro c e db' y hx hab
    exact (view_exec hx hab h₁ (by simpa [View.of] using hr)).2
  · intro c exc hab
    rw [View.after_about hab]
    cases c with
    | failRun _ _ t => cases t <;> rfl
    | _ => rfl
  · intro r a y hask _ hab
    rw [View.after_about hab]
    cases r with
    | db c => exact absurd rfl (hask c)
    | _ => rfl

/-- Any other request leaves it to drift. -/
theorem view_answer_drift (h : answer db r a = some (db', y)) (hab : about i r = false)
    (he : ∀ c, r = .db c → db.erases i c = false) (hw : wonRun i r y = none) :
    View.Drift (View.now i db log) (View.now i db' (log ++ [⟨pid, r, a, y, db, db'⟩])) := by
  unfold View.now
  rw [story_concat, if_neg (by simp [hab])]
  revert hab he hw
  refine answer_cases (motive := fun r a db' y => about i r = false →
    (∀ c, r = .db c → db.erases i c = false) → wonRun i r y = none →
      View.Drift (View.of i db (story i log)) (View.of i db' (story i log))) ?_ ?_ ?_ h
  · exact fun c e db' y hx hab he hw => view_drift hx hab (he c rfl) hw
  · exact fun _ _ _ _ _ => .same _
  · exact fun _ _ _ _ _ _ _ _ => .same _

lemma of_wonRun {run : RunRow} (h : wonRun i r y = some run) :
    ∃ w now le, (⟨r, y⟩ : Said) = ⟨.db (.claimRun i w now le), .ok (some run)⟩ := by
  unfold wonRun at h
  split at h
  · rename_i runId w now le run'
    split at h
    · rename_i hi
      subst hi
      obtain rfl := Option.some.inj h
      exact ⟨w, now, le, rfl⟩
    · cases h
  · cases h

/-- Who wins the run starts it. -/
theorem view_won (pid : ℕ) (log : List Ev) {w : String} {now le : Time} {run : RunRow}
    (h : answer db (.db (.claimRun i w now le)) a = some (db', .ok (some run))) :
    (View.now i db log).status.any RunStatus.inFlight ∧ (View.now i db log).jobId = some run.jobId ∧
      run.id = i ∧ run.ctx = (View.now i db log).ctx ∧
      View.now i db' (log ++ [⟨pid, .db (.claimRun i w now le), a, .ok (some run), db, db'⟩]) =
        { View.now i db log with status := some .running, error := none } := by
  unfold View.now
  rw [story_concat, if_neg (by simp [about])]
  cases a <;> simp only [answer, reduceCtorEq] at h
  · exact view_claim h
  · cases h

/-- The executor hears what is true of the run. -/
theorem hears_answer {name : String} {m : ℤ} (h : answer db r a = some (db', y)) (h₁ : db.OnePer i)
    (hb : BelongsTo db i name m) : Hears i name m (View.now i db log) r y := by
  unfold Hears
  split
  · rename_i jobId job
    intro hj
    cases a <;> simp only [answer, reduceCtorEq] at h
    · simp only [Call.exec, Option.some.injEq, Prod.mk.injEq, Except.ok.injEq] at h
      obtain ⟨-, rfl⟩ := h
      simp only [View.now, View.of, Option.map_eq_some_iff] at hj
      obtain ⟨run, hrun, rfl⟩ := hj
      obtain ⟨j, hj, hname, hmax⟩ := hb run hrun
      exact ⟨j, hj, hname, hmax⟩
    · cases h
  · rename_i runId records
    rintro rfl
    cases a <;> simp only [answer, reduceCtorEq] at h
    · simp only [Call.exec, Option.some.injEq, Prod.mk.injEq, Except.ok.injEq] at h
      obtain ⟨-, rfl⟩ := h
      exact reads_tasksOf h₁
    · cases h
  · cases a <;> simp only [answer, reduceCtorEq] at h
    cases h
  · cases a <;> simp only [answer, reduceCtorEq] at h
    cases h
  · trivial

end

namespace View

lemma after_isSome {i : ℕ} {v : View} {r : Req} {y : Except Exc r.Reply} (h : v.status.isSome) :
    (v.after i r y).status.isSome := by
  unfold after
  split
  · show (v.settle r y).status.isSome
    unfold settle
    split <;> try split
    all_goals first | exact h | rfl
  · exact h

lemma Fade.isSome {v v' : View} (hf : v.Fade v') (h : v.status.isSome) : v'.status.isSome := by
  induction hf with
  | refl => exact h
  | tail _ hd ih => cases hd <;> first | exact ih | rfl

end View

lemma Outline.Rested.fade {O : Outline} {i : ℕ} {cls : JobCls} {m : ℤ} (hO : O.Sound i cls m)
    {v v' : View} (h : O.Rested cls v) (hs : v.status.isSome) (hf : v.Fade v') :
    O.Rested cls v' := by
  induction hf with
  | refl => exact h
  | tail hf hd ih =>
    have hs' := View.Fade.isSome hf hs
    cases hd with
    | same => exact ih
    | created _ hn => simp [hn] at hs'
    | cancelled hv => exact ⟨ih.1, hO.cancelled _ ih.2 hv⟩
    | swept hv => exact ⟨ih.1, hO.swept _ ih.2 hv⟩

/-! ### The rule -/

section

variable (O : Outline) (i : ℕ) (cls : JobCls)

/-- What ties the executor's view of the run to the run. -/
structure SoloInv (db : DB) (log : List Ev) (ph : ℕ → Phase × Option View) : Prop where
  executing : Executing log fun pid => (ph pid).1
  onePer : db.OnePer i
  absent : (View.now i db log).status = none → View.now i db log = .absent
  /-- Who sees the run executes it, and sees it up to what others did since. -/
  sees : ∀ pid v, (ph pid).2 = some v → (∃ j w s, (ph pid).1 = .exec i j w s) ∧ v.status.isSome ∧
    v.Fade (View.now i db log)
  executes : ∀ pid j w s, (ph pid).1 = .exec i j w s → (ph pid).2.isSome
  alone : ∀ pid pid', (ph pid).2.isSome → (ph pid').2.isSome → pid = pid'
  rests : (∀ pid, (ph pid).2 = none) → (View.now i db log).status.isSome →
    O.Rested cls (View.now i db log)
  asks : ∀ l₁ ev l₂, log = l₁ ++ ev :: l₂ → about i ev.req →
    O.Made i (View.now i ev.pre l₁) ev.req

end

section

variable {O : Outline} {i : ℕ} {name : String} {m : ℤ} {cls : JobCls} {db : DB} {log : List Ev}
variable {ph : ℕ → Phase × Option View} {pid : ℕ}

abbrev Followed (O : Outline) (i : ℕ) (name : String) (m : ℤ) (cls : JobCls) (p : System)
    (ph : ℕ → Phase × Option View) : Prop :=
  Pool.Phased (O.Moves i name m cls) (O.Asks i cls) (O.Ends cls) (.rest, none) (.gone, none) p ph

lemma update_fst (c : Phase × Option View) :
    (fun q => (Function.update ph pid c q).1) = Function.update (fun q => (ph q).1) pid c.1 := by
  funext q
  exact Function.apply_update (fun _ => Prod.fst) ph pid c q

lemma soloInv_init : SoloInv O i cls {} [] fun _ => (.rest, none) where
  executing := executing_init
  onePer := fun _ => Nat.zero_le _
  absent := fun _ => rfl
  sees := nofun
  executes := nofun
  alone := nofun
  rests := fun _ h => by cases h
  asks := by
    intro l₁ _ _ hl
    cases l₁ <;> cases hl

lemma sees_of_update {c : Phase} {q : ℕ} {v : View}
    (hq : (Function.update ph pid (c, none) q).2 = some v) : q ≠ pid ∧ (ph q).2 = some v := by
  by_cases hqp : q = pid
  · subst hqp
    simp at hq
  · rw [Function.update_of_ne hqp] at hq
    exact ⟨hqp, hq⟩

/-- A process is gone; if it executed the run, the run is at rest. -/
lemma SoloInv.gone (h : SoloInv O i cls db log ph)
    (hrest : ∀ v, (ph pid).2 = some v → O.Rested cls (View.now i db log)) :
    SoloInv O i cls db log (Function.update ph pid (.gone, none)) where
  executing := by
    rw [update_fst]
    exact h.executing.gone
  onePer := h.onePer
  absent := h.absent
  sees := by
    intro q v hq
    obtain ⟨hqp, hq'⟩ := sees_of_update hq
    rw [Function.update_of_ne hqp]
    exact h.sees q v hq'
  executes := by
    intro q j w s hq
    by_cases hqp : q = pid
    · subst hqp
      simp at hq
    · rw [Function.update_of_ne hqp] at hq ⊢
      exact h.executes q j w s hq
  alone := by
    intro q q' hq hq'
    obtain ⟨v, hv⟩ := Option.isSome_iff_exists.1 hq
    obtain ⟨v', hv'⟩ := Option.isSome_iff_exists.1 hq'
    exact h.alone q q' (by simp [(sees_of_update hv).2]) (by simp [(sees_of_update hv').2])
  rests := by
    intro hnone hsome
    cases hx : (ph pid).2 with
    | some v => exact hrest v hx
    | none =>
      refine h.rests (fun q => ?_) hsome
      by_cases hqp : q = pid
      · rw [hqp, hx]
      · have := hnone q
        rwa [Function.update_of_ne hqp] at this
  asks := h.asks

lemma SoloInv.lives (h : SoloInv O i cls db log ph) {p : System} (hph : Followed O i name m cls p ph)
    {v : View} (hv : (ph pid).2 = some v) : p.lives pid ∧ claimedBy pid i log := by
  obtain ⟨⟨j, w, s, hexec⟩, -, -⟩ := h.sees pid v hv
  refine ⟨hph.lives (fun hs => ?_) (fun hg => ?_), ?_⟩
  · rw [hs] at hexec
    cases hexec
  · rw [hg] at hexec
    cases hexec
  · obtain ⟨c, hc, hi, -⟩ := h.executing.exec pid i j w s hexec
    simp [claimedBy, hc, hi]

/-- Where no process lives that has claimed the run, nobody sees it. -/
lemma SoloInv.unattended {p : System} (h : SoloInv O i cls db p.log ph)
    (hph : Followed O i name m cls p ph) (hun : Unattended i p) (pid : ℕ) : (ph pid).2 = none := by
  cases hv : (ph pid).2 with
  | none => rfl
  | some v =>
    obtain ⟨hlives, hclaimed⟩ := h.lives hph hv
    rw [hun pid (Pool.lt_of_lives hlives) hlives] at hclaimed
    cases hclaimed

lemma asks_concat {r : Req} {a : Answer} {y : Except Exc r.Reply} {db' : DB}
    (h : ∀ l₁ ev l₂, log = l₁ ++ ev :: l₂ → about i ev.req → O.Made i (View.now i ev.pre l₁) ev.req)
    (hr : about i r → O.Made i (View.now i db log) r) :
    ∀ l₁ ev l₂, log ++ [⟨pid, r, a, y, db, db'⟩] = l₁ ++ ev :: l₂ → about i ev.req →
      O.Made i (View.now i ev.pre l₁) ev.req := by
  intro l₁ ev l₂ hl hab
  rcases Pool.split_concat hl with ⟨rfl, rfl, rfl⟩ | ⟨l₂', rfl, hl'⟩
  · exact hr hab
  · exact h l₁ ev l₂' hl' hab

/-- Only who executes a run makes requests about it, undoing by hand apart. -/
lemma exec_of_about {c : Phase} {r : Req} (hok : c.ok {} r) (hab : about i r) :
    (∃ j w s, c = .exec i j w s) ∨
      (c.Idle ∧ ((∃ pos, r = .db (.compensateTask i pos)) ∨ ∃ pos ctx, r = .undo i pos ctx)) := by
  unfold about at hab
  split at hab
  case h_5 | h_11 =>
    obtain rfl := of_decide_eq_true hab
    rcases hok with hidle | ⟨j, w, rfl⟩
    · exact .inr ⟨hidle, by simp⟩
    · exact .inl ⟨j, w, _, rfl⟩
  case h_8 =>
    obtain rfl := of_decide_eq_true hab
    rename_i t
    cases t with
    | none =>
      obtain ⟨j, w, s, rfl, -⟩ := hok
      exact .inl ⟨j, w, s, rfl⟩
    | some t =>
      obtain ⟨j, w, rfl⟩ := hok
      exact .inl ⟨j, w, _, rfl⟩
  case h_12 => cases hab
  all_goals
    obtain rfl := of_decide_eq_true hab
    obtain ⟨j, w, rfl⟩ := hok
    exact .inl ⟨j, w, _, rfl⟩

variable {p : System} {r : Req} {a : Answer} {y : Except Exc r.Reply} {db' : DB}

lemma SoloInv.own (h : SoloInv O i cls p.shared p.log ph) {v : View} (hv : (ph pid).2 = some v)
    (hbel : BelongsTo p.shared i name m)
    (herase : ∀ c, r = .db c → p.shared.erases i c = false)
    (hans : answer p.shared r a = some (db', y)) (hok : O.Asks i cls (ph pid) r)
    (hhears : O.hears (View.now i p.shared p.log).toSaga r y) :
    ∃ c, O.Moves i name m cls (ph pid) r y c ∧
      SoloInv O i cls db' (p.log ++ [⟨pid, r, a, y, p.shared, db'⟩]) (Function.update ph pid c) := by
  obtain ⟨⟨j, w, s, hexec⟩, hsome, hfade⟩ := h.sees pid v hv
  have hsome' := hfade.isSome hsome
  set cur := View.now i p.shared p.log with hcur
  have hok₁ := hok.1
  rw [hexec] at hok₁
  have hnot : wonRun i r y = none := by
    unfold wonRun
    split
    · cases hok₁
    · rfl
  have hnext : (cur.after i r y).Fade
      (View.now i db' (p.log ++ [⟨pid, r, a, y, p.shared, db'⟩])) := by
    cases hab : about i r with
    | true =>
      rw [view_answer hans hab h.onePer hsome']
      exact .refl
    | false =>
      rw [View.after_not_about hab]
      exact .single (view_answer_drift hans hab herase hnot)
  refine ⟨((ph pid).1.next r y, some (cur.after i r y)), ⟨⟨valid_of_answer hans, rfl⟩, ?_⟩, ?_⟩
  · rw [hv]
    exact ⟨_, rfl, cur, hfade, hears_answer hans h.onePer hbel, hhears, rfl⟩
  · have hother : ∀ q, q ≠ pid → (ph q).2 = none := by
      intro q hq
      by_contra hne
      exact hq (h.alone q pid (Option.isSome_iff_ne_none.2 hne) (by simp [hv]))
    constructor
    case executing =>
      rw [update_fst]
      exact h.executing.step hok.1 (valid_of_answer hans)
    case onePer => exact onePer_answer hans h.onePer
    case absent =>
      intro hn
      have := hnext.isSome (View.after_isSome hsome')
      simp [hn] at this
    case sees =>
      intro q v' hq
      by_cases hqp : q = pid
      · subst hqp
        rw [Function.update_self] at hq ⊢
        obtain rfl := Option.some.inj hq
        obtain ⟨s', hs'⟩ := Phase.next_exec y hok₁
        exact ⟨⟨j, w, s', hexec ▸ hs'⟩, View.after_isSome hsome', hnext⟩
      · rw [Function.update_of_ne hqp, hother q hqp] at hq
        cases hq
    case executes =>
      intro q j w s hq
      by_cases hqp : q = pid
      · subst hqp
        simp
      · rw [Function.update_of_ne hqp] at hq ⊢
        exact h.executes q j w s hq
    case alone =>
      have honly : ∀ q, (Function.update ph pid ((ph pid).1.next r y, some (cur.after i r y)) q).2.isSome →
          q = pid := by
        intro q hq
        by_contra hqp
        rw [Function.update_of_ne hqp, hother q hqp] at hq
        cases hq
      intro q q' hq hq'
      rw [honly q hq, honly q' hq']
    case rests =>
      intro hnone
      have := hnone pid
      simp at this
    case asks =>
      refine asks_concat h.asks fun hab => ?_
      rcases (hok.2 v hv).2 with ⟨hw, -, hasks⟩ | ⟨hs, -, hasks⟩
      · obtain ⟨hw', hsaga, -⟩ := hw.fade hfade
        exact .inl ⟨hw', hsaga ▸ hasks hab⟩
      · rw [← hcur, hs.fade hfade]
        exact .inr ⟨hs, hasks hab⟩

lemma SoloInv.other (hO : O.Sound i cls m) (h : SoloInv O i cls p.shared p.log ph)
    (hv : (ph pid).2 = none) (hsolo : Solo i name m cls p (.act pid a))
    (hr : p.pending pid = some r) (hans : answer p.shared r a = some (db', y))
    (hok : O.Asks i cls (ph pid) r) (hwon : wonRun i r y = none) :
    SoloInv O i cls db' (p.log ++ [⟨pid, r, a, y, p.shared, db'⟩])
      (Function.update ph pid ((ph pid).1.next r y, none)) := by
  set cur := View.now i p.shared p.log with hcur
  set cur' := View.now i db' (p.log ++ [⟨pid, r, a, y, p.shared, db'⟩]) with hcur'
  have hexec : ∀ j w s, (ph pid).1 ≠ .exec i j w s := by
    intro j w s hx
    have := h.executes pid j w s hx
    simp [hv] at this
  have hab : about i r = false := by
    by_contra hab
    rcases exec_of_about hok.1 (by simpa using hab) with ⟨j, w, s, hx⟩ | ⟨hidle, hundo⟩
    · exact hexec j w s hx
    · have hclaimed : claimedBy pid i p.log := by
        have hm := hsolo.mindsReq hr
        rcases hundo with ⟨pos, rfl⟩ | ⟨pos, ctx, rfl⟩ <;> simpa [mindsReq] using hm
      have hidle' := h.executing.idle pid (not_executes_of_idle hidle) (Phase.ne_gone_of_ok hok.1)
      simp [claimedBy, hidle'] at hclaimed
  have hdrift : View.Drift cur cur' := by
    refine view_answer_drift hans hab ?_ hwon
    rintro c rfl
    exact hsolo.erases hr
  constructor
  case executing =>
    rw [update_fst]
    exact h.executing.step hok.1 (valid_of_answer hans)
  case onePer => exact onePer_answer hans h.onePer
  case absent =>
    intro hn
    change cur'.status = none at hn
    change cur' = _
    generalize hc : cur' = v' at hdrift hn
    cases hdrift with
    | same => exact h.absent hn
    | _ => cases hn
  case sees =>
    intro q v hq
    obtain ⟨hqp, hq'⟩ := sees_of_update hq
    obtain ⟨hx, hs, hf⟩ := h.sees q v hq'
    rw [Function.update_of_ne hqp]
    exact ⟨hx, hs, hf.tail hdrift⟩
  case executes =>
    intro q j w s hq
    by_cases hqp : q = pid
    · subst hqp
      rw [Function.update_self] at hq
      exfalso
      rcases Phase.exec_of_next hok.1 hq with ⟨s', hs'⟩ | ⟨pid', cl, hcl, hid, -⟩
      · exact hexec j w s' hs'
      · have hvalid := valid_of_answer hans
        unfold claimIn at hcl
        split at hcl
        · rename_i runId w now le run
          cases hcl
          have hrun : run.id = runId := hvalid
          rw [wonRun, if_pos (hrun.symm.trans hid)] at hwon
          cases hwon
        · cases hcl
    · rw [Function.update_of_ne hqp] at hq ⊢
      exact h.executes q j w s hq
  case alone =>
    intro q q' hq hq'
    obtain ⟨v, hv⟩ := Option.isSome_iff_exists.1 hq
    obtain ⟨v', hv'⟩ := Option.isSome_iff_exists.1 hq'
    exact h.alone q q' (by simp [(sees_of_update hv).2]) (by simp [(sees_of_update hv').2])
  case rests =>
    intro hnone hsome'
    have hnone' : ∀ q, (ph q).2 = none := by
      intro q
      by_cases hqp : q = pid
      · rw [hqp, hv]
      · have := hnone q
        rwa [Function.update_of_ne hqp] at this
    cases hs : cur.status with
    | some st =>
      have hsome : cur.status.isSome := by simp [hs]
      exact (h.rests hnone' hsome).fade hO hsome (.single hdrift)
    | none =>
      have habs : cur = .absent := h.absent hs
      change cur'.status.isSome at hsome'
      change O.Rested cls cur'
      generalize hc : cur' = v' at hdrift hsome'
      rw [habs] at hdrift
      cases hdrift with
      | same => cases hsome'
      | created j => exact ⟨⟨0, Nat.zero_le _, fun pos => by simp [Saga.done, View.absent]⟩, hO.created j⟩
      | cancelled hv => cases hv
      | swept hv => cases hv
  case asks =>
    refine asks_concat h.asks fun hab' => ?_
    rw [hab] at hab'
    cases hab'

lemma SoloInv.won (hO : O.Sound i cls m) (h : SoloInv O i cls p.shared p.log ph)
    (hnone : ∀ q, (ph q).2 = none) (hans : answer p.shared r a = some (db', y))
    (hok : O.Asks i cls (ph pid) r) {run : RunRow} (hwon : wonRun i r y = some run) :
    ∃ c, O.Moves i name m cls (ph pid) r y c ∧
      SoloInv O i cls db' (p.log ++ [⟨pid, r, a, y, p.shared, db'⟩]) (Function.update ph pid c) := by
  obtain ⟨w, now, le, hsaid⟩ := of_wonRun hwon
  obtain ⟨rfl, hy⟩ := Sigma.mk.inj hsaid
  obtain rfl := eq_of_heq hy
  have hvalid := valid_of_answer hans
  obtain ⟨hflight, hjob, hid, hctx, hnow⟩ := view_won pid p.log hans
  have hrest := h.rests hnone (by
    rw [Option.isSome_iff_ne_none]
    intro hn
    simp [hn] at hflight)
  generalize hv : ({ View.now i p.shared p.log with
    status := some .running, error := none } : View) = v at hnow
  have hphase : (ph pid).1.next (.db (.claimRun i w now le)) (.ok (some run)) =
    .exec run.id run.jobId w .working := rfl
  refine ⟨(.exec run.id run.jobId w .working, some v), ⟨⟨hvalid, hphase.symm⟩, ?_⟩, ?_⟩
  · rw [hnone pid]
    simp only [wonRun, if_true]
    refine ⟨_, rfl, hid, ?_, ?_, ?_, ?_, ?_⟩ <;> rw [← hv]
    · exact hjob
    · exact hctx
    · exact .inl rfl
    · exact hrest.1
    · exact hO.claimed (View.now i p.shared p.log) hrest.2 hflight
  · constructor
    case executing =>
      rw [update_fst, ← hphase]
      exact h.executing.step hok.1 hvalid
    case onePer => exact onePer_answer hans h.onePer
    case absent =>
      rw [hnow, ← hv]
      intro hstatus
      cases hstatus
    case sees =>
      intro q v' hq
      by_cases hqp : q = pid
      · subst hqp
        rw [Function.update_self] at hq ⊢
        obtain rfl := Option.some.inj hq
        refine ⟨⟨_, w, _, by rw [hid]⟩, by rw [← hv]; rfl, ?_⟩
        rw [hnow]
        exact .refl
      · rw [Function.update_of_ne hqp, hnone q] at hq
        cases hq
    case executes =>
      intro q j w s hq
      by_cases hqp : q = pid
      · subst hqp
        simp
      · rw [Function.update_of_ne hqp] at hq ⊢
        exact h.executes q j w s hq
    case alone =>
      have honly : ∀ q, (Function.update ph pid (.exec run.id run.jobId w .working, some v) q).2.isSome →
          q = pid := by
        intro q hq
        by_contra hqp
        rw [Function.update_of_ne hqp, hnone q] at hq
        cases hq
      intro q q' hq hq'
      rw [honly q hq, honly q' hq']
    case rests =>
      intro hn
      have := hn pid
      simp at this
    case asks => exact asks_concat h.asks fun hab => by simp [about] at hab

end

namespace Outline

variable {O : Outline} {i : ℕ} {name : String} {m : ℤ} {cls : JobCls} {p : System}
variable {ph : ℕ → Phase × Option View}

/-- The outline describes the run. -/
structure Describes (O : Outline) (i : ℕ) (cls : JobCls) (p : System) : Prop where
  /-- The tasks that have succeeded are the first few. -/
  based : (View.now i p.shared p.log).Based cls.tasks.length
  /-- The run is at rest, or its executor may be stopped. -/
  holds : View.now i p.shared p.log = .absent ∨ O.rests (View.now i p.shared p.log) ∨
    ((View.now i p.shared p.log).Working ∧ O.stops (View.now i p.shared p.log).toSaga)
  /-- The run is at rest where nobody executes it. -/
  rests : Unattended i p → View.now i p.shared p.log = .absent ∨ O.rests (View.now i p.shared p.log)
  /-- Every request about the run was made as the outline says. -/
  asks : ∀ l₁ ev l₂, p.log = l₁ ++ ev :: l₂ → about i ev.req → O.Made i (View.now i ev.pre l₁) ev.req

/-- A reply that has won the run is that of a transaction that wins it. -/
lemma wins_of_wonRun {db db' : DB} {r : Req} {a : Answer} {y : Except Exc r.Reply} {run : RunRow}
    (h : answer db r a = some (db', y)) (hwon : wonRun i r y = some run) :
    ∃ c, r = .db c ∧ db.wins i c := by
  obtain ⟨w, now, le, hsaid⟩ := of_wonRun hwon
  obtain ⟨rfl, hy⟩ := Sigma.mk.inj hsaid
  obtain rfl := eq_of_heq hy
  refine ⟨_, rfl, ?_⟩
  cases a <;> simp only [answer, reduceCtorEq] at h
  · simp only [Call.exec, Option.some.injEq, Prod.mk.injEq, Except.ok.injEq] at h
    simp [DB.wins, h.2]
  · cases h

lemma waits_of_sees (h : SoloInv O i cls p.shared p.log ph) (hph : Followed O i name m cls p ph)
    (hO : O.Sound i cls m) {pid : ℕ} {v : View} (hv : (ph pid).2 = some v) :
    (View.now i p.shared p.log).Based cls.tasks.length ∧ (O.rests (View.now i p.shared p.log) ∨
      ((View.now i p.shared p.log).Working ∧ O.stops (View.now i p.shared p.log).toSaga)) := by
  obtain ⟨-, hsome, hfade⟩ := h.sees pid v hv
  obtain ⟨q, hq⟩ := Option.isSome_iff_exists.1 (h.lives hph hv).1
  have hphase := hph.of_prog? hq
  cases q with
  | ret w =>
    have hrest := Rested.fade hO (hphase v hv) hsome hfade
    exact ⟨hrest.1, .inl hrest.2⟩
  | ask r f =>
    obtain ⟨hb, ⟨hw, hs, -⟩ | ⟨hs, hr, -⟩⟩ := hphase.1.2 v hv
    · obtain ⟨hw', hsaga, -⟩ := hw.fade hfade
      rw [hsaga]
      exact ⟨hb, .inr ⟨hw', hs⟩⟩
    · rw [hs.fade hfade]
      exact ⟨hb, .inl hr⟩

section

variable {C : System → Act → Prop} (hO : O.Sound i cls m)
  (hsolo : ∀ p l, C p l → Solo i name m cls p l)
  (hhears : ∀ (p : System) pid a r db' y, C p (.act pid a) → p.pending pid = some r →
    claimedBy pid i p.log → answer p.shared r a = some (db', y) →
      O.hears (View.now i p.shared p.log).toSaga r y)
  (hcrash : ∀ (p : System) pid, C p (.crash pid) → p.lives pid → claimedBy pid i p.log →
    (View.now i p.shared p.log).Working → O.stops (View.now i p.shared p.log).toSaga →
      O.rests (View.now i p.shared p.log))
include hO hsolo hhears hcrash

/-- Every process keeps to the outline, and its executor sees the run as it is. -/
lemma followed (h : p.Reached C) :
    ∃ ph, Followed O i name m cls p ph ∧ SoloInv O i cls p.shared p.log ph := by
  refine Pool.phases ?_ ?_ ?_ ?_ h (fun _ => rfl) soloInv_init
  · intro p k hC
    exact program_follows hO (hsolo p _ hC).2.1
  · intro p ph pid hC hph hG
    refine hG.gone fun v hv => ?_
    obtain ⟨hlives, hclaimed⟩ := hG.lives hph hv
    obtain ⟨hb, hr | ⟨hw, hs⟩⟩ := waits_of_sees hG hph hO hv
    · exact ⟨hb, hr⟩
    · exact ⟨hb, hcrash p pid hC hlives hclaimed hw hs⟩
  · intro db log ph pid hends hG
    refine hG.gone fun v hv => ?_
    obtain ⟨-, hsome, hfade⟩ := hG.sees pid v hv
    exact Rested.fade hO (hends v hv) hsome hfade
  · intro p p' ph pid a r f y hC _ hph hG hacts hok
    have hs := hsolo p _ hC
    have herase : ∀ c, r = .db c → p.shared.erases i c = false := by
      rintro c rfl
      exact hs.erases hacts.pending
    rw [hacts.logged]
    cases hv : (ph pid).2 with
    | some v =>
      have hclaimed := (hG.lives hph hv).2
      exact hG.own hv hs.1 herase hacts.answered hok
        (hhears p pid a r _ y hC hacts.pending hclaimed hacts.answered)
    | none =>
      cases hwon : wonRun i r y with
      | none =>
        refine ⟨_, ⟨⟨valid_of_answer hacts.answered, rfl⟩, ?_⟩,
          hG.other hO hv hs hacts.pending hacts.answered hok hwon⟩
        rw [hv]
        dsimp only
        rw [hwon]
      | some run =>
        obtain ⟨c, rfl, hwins⟩ := wins_of_wonRun hacts.answered hwon
        exact hG.won hO (hG.unattended hph (hs.unattended hacts.pending hwins)) hacts.answered hok
          hwon

/-- **The rule for histories of one run.** A sound outline describes the run in every state that is
reached, if it still does after its executor was killed. -/
theorem solo (h : p.Reached C) : O.Describes i cls p := by
  obtain ⟨ph, hph, hG⟩ := followed hO hsolo hhears hcrash h
  have hrest : (∀ pid, (ph pid).2 = none) →
      View.now i p.shared p.log = .absent ∨ O.Rested cls (View.now i p.shared p.log) := by
    intro hnone
    cases hs : (View.now i p.shared p.log).status with
    | none => exact .inl (hG.absent hs)
    | some st => exact .inr (hG.rests hnone (by simp [hs]))
  have hbased : View.now i p.shared p.log = .absent →
      (View.now i p.shared p.log).Based cls.tasks.length := by
    intro habs
    exact ⟨0, Nat.zero_le _, fun pos => by simp [habs, Saga.done, View.absent]⟩
  by_cases hsees : ∃ pid, ((ph pid).2).isSome
  · obtain ⟨pid, hpid⟩ := hsees
    obtain ⟨v, hv⟩ := Option.isSome_iff_exists.1 hpid
    obtain ⟨hb, hholds⟩ := waits_of_sees hG hph hO hv
    refine ⟨hb, .inr hholds, fun hun => ?_, hG.asks⟩
    rw [hG.unattended hph hun pid] at hv
    cases hv
  · have hnone : ∀ pid, (ph pid).2 = none := by
      intro pid
      by_contra hne
      exact hsees ⟨pid, Option.isSome_iff_ne_none.2 hne⟩
    rcases hrest hnone with habs | hr
    · exact ⟨hbased habs, .inl habs, fun _ => .inl habs, hG.asks⟩
    · exact ⟨hr.1, .inr (.inl hr.2), fun _ => .inr hr.2, hG.asks⟩

/-- A request about the run that still waits was made as the outline says, too, unless it is one of
somebody who undoes the run by hand. -/
theorem solo_pending (h : p.Reached C) {pid : ℕ} {r : Req} (hr : p.pending pid = some r)
    (hab : about i r) (hhand : ((∃ pos, r = .db (.compensateTask i pos)) ∨ ∃ pos ctx, r = .undo i pos ctx) →
      claimedBy pid i p.log) : O.Made i (View.now i p.shared p.log) r := by
  obtain ⟨ph, hph, hG⟩ := followed hO hsolo hhears hcrash h
  obtain ⟨f, hf⟩ := Pool.prog?_of_pending hr
  have hasks : O.Asks i cls (ph pid) r := (hph.of_prog? hf).1
  rcases exec_of_about hasks.1 hab with ⟨j, w, s, hexec⟩ | ⟨hidle, hundo⟩
  · obtain ⟨v, hv⟩ := Option.isSome_iff_exists.1 (hG.executes pid j w s hexec)
    obtain ⟨-, -, hfade⟩ := hG.sees pid v hv
    rcases (hasks.2 v hv).2 with ⟨hw, -, ha⟩ | ⟨hs, -, ha⟩
    · obtain ⟨hw', hsaga, -⟩ := hw.fade hfade
      exact .inl ⟨hw', hsaga ▸ ha hab⟩
    · rw [hs.fade hfade]
      exact .inr ⟨hs, ha hab⟩
  · have hnone := hG.executing.idle pid (not_executes_of_idle hidle) (Phase.ne_gone_of_ok hasks.1)
    have hclaimed := hhand hundo
    simp [claimedBy, hnone] at hclaimed

end

/-- The outline is one for histories whose acts obey `C`. -/
structure Suits (O : Outline) (C : System → Act → Prop) (i : ℕ) (name : String) (m : ℤ)
    (cls : JobCls) : Prop where
  sound : O.Sound i cls m
  solo : ∀ p l, C p l → Solo i name m cls p l
  hears : ∀ (p : System) pid a r db' y, C p (.act pid a) → p.pending pid = some r →
    claimedBy pid i p.log → answer p.shared r a = some (db', y) →
      O.hears (View.now i p.shared p.log).toSaga r y
  crash : ∀ (p : System) pid, C p (.crash pid) → p.lives pid → claimedBy pid i p.log →
    (View.now i p.shared p.log).Working → O.stops (View.now i p.shared p.log).toSaga →
      O.rests (View.now i p.shared p.log)

lemma Suits.describes {C : System → Act → Prop} (hO : O.Suits C i name m cls) (h : p.Reached C) :
    O.Describes i cls p := Outline.solo hO.sound hO.solo hO.hears hO.crash h

lemma Suits.pending {C : System → Act → Prop} (hO : O.Suits C i name m cls) (h : p.Reached C)
    {pid : ℕ} {r : Req} (hr : p.pending pid = some r) (hab : about i r)
    (hhand : ((∃ pos, r = .db (.compensateTask i pos)) ∨ ∃ pos ctx, r = .undo i pos ctx) →
      claimedBy pid i p.log) : O.Made i (View.now i p.shared p.log) r :=
  Outline.solo_pending hO.sound hO.solo hO.hears hO.crash h hr hab hhand

end Outline

end Pyreljob
