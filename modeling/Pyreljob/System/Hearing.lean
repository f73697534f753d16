import Pyreljob.Store.View
import Pyreljob.System.Footprint
import Pyreljob.System.Roles

/-!
Processes that keep to what they have said and heard.

A rule `ok` says which requests a process may ask that has said and heard this much. If the program of
every kind of process keeps to the rule, so does every process in every run, whoever runs beside it: a
process forgets nothing that it has heard.
-/

namespace Pyreljob

open Lib

/-! ### What a process has heard -/

def Since (c c' : Kind × List Said) : Prop := c'.1 = c.1 ∧ ∃ l, c'.2 = c.2 ++ l

def Heard (c : Kind × List Said) (r : Req) (y : Except Exc r.Reply) (c' : Kind × List Said) : Prop :=
  Valid r y ∧ c' = (c.1, c.2 ++ [⟨r, y⟩])

section

variable {c c' c'' : Kind × List Said}

lemma Since.refl (c : Kind × List Said) : Since c c := ⟨rfl, [], (List.append_nil _).symm⟩

lemma Since.trans (h : Since c c') (h' : Since c' c'') : Since c c'' := by
  obtain ⟨hk, l, hl⟩ := h
  obtain ⟨hk', l', hl'⟩ := h'
  exact ⟨hk'.trans hk, l ++ l', by rw [hl', hl, List.append_assoc]⟩

lemma Heard.since {r : Req} {y : Except Exc r.Reply} (h : Heard c r y c') : Since c c' := by
  rw [h.2]
  exact ⟨rfl, _, rfl⟩

lemma Heard.mem {r : Req} {y : Except Exc r.Reply} (h : Heard c r y c') :
    (⟨r, y⟩ : Said) ∈ c'.2 := by
  rw [h.2]
  exact List.mem_append_right _ (List.mem_singleton_self _)

lemma Since.mem (h : Since c c') {x : Said} (hx : x ∈ c.2) : x ∈ c'.2 := by
  obtain ⟨-, l, hl⟩ := h
  rw [hl]
  exact List.mem_append_left _ hx

end

/-- The process has claimed the run, and this is the row that it got. -/
def ClaimedAs (i : ℕ) (run : RunRow) (c : Kind × List Said) : Prop :=
  ∃ workerId now leaseExpiry, ⟨.db (.claimRun i workerId now leaseExpiry), .ok (some run)⟩ ∈ c.2

lemma ClaimedAs.since {c c' : Kind × List Said} {i : ℕ} {run : RunRow} (h : ClaimedAs i run c)
    (hc : Since c c') : ClaimedAs i run c' := by
  obtain ⟨workerId, now, leaseExpiry, hclaim⟩ := h
  exact ⟨workerId, now, leaseExpiry, hc.mem hclaim⟩

/-! ### The ends of an execution -/

def Claiming (w : Worker) : Req → Prop
  | .now | .db (.selectClaimable ..) => True
  | .db (.claimRun _ workerId _ _) => workerId = w.workerId
  | _ => False

/-- The requests by which an execution settles a run that has failed. -/
def Settling : Req → Prop
  | .db (.failRun _ _ none) | .db (.incrementJobAttempts _) | .db (.createRun ..) | .db (.getJob _)
  | .db (.setNextRunAt ..) | .retryAt _ | .now => True
  | _ => False

def Rearming : Req → Prop
  | .db (.getRun _) | .nextRuntime .. | .db (.setNextRunAt ..) => True
  | _ => False

lemma finalizeFailed_asks (job : JobRow) (i : ℕ) (error : String) :
    (Worker.finalizeFailed job i error).Asks Settling := by
  refine .ask trivial fun _ => ?_
  split
  · exact .ret _
  · refine .ask trivial fun attempts => ?_
    split
    · exact .ask trivial fun retryAt => .ask trivial fun _ => .ret _
    · exact .ret _

lemma reschedule_asks (job : JobRow) (i : ℕ) (ctx : TaskContext) :
    (Worker.reschedule job i ctx).Asks Rearming := by
  unfold Worker.reschedule
  split
  · exact .ret _
  · refine .ask trivial fun row => ?_
    cases row with
    | none => exact .ret _
    | some row => exact .ask trivial fun next => .last trivial

lemma rescheduleOnError_asks (run : RunRow) : (Worker.rescheduleOnError run).Asks Settling := by
  refine .ask trivial fun job => ?_
  cases job with
  | none => exact .ret _
  | some job =>
    change (if job.source ≠ .scheduled then _ else _ : Io Unit).Asks Settling
    split
    · exact .ret _
    · exact .ask trivial fun now => .last trivial

/-! ### Keeping to a rule -/

section

variable {ok : Kind × List Said → Req → Prop} {c₀ : Kind × List Said} {α β : Type}

lemma heard_closed : Prog.Closed Heard ok (Since c₀) ok where
  ok _ _ _ hr := hr
  stays _ _ _ _ hc _ hh := hc.trans hh.since

/-- A program that asks only what a rule always allows keeps to it. -/
lemma allowed_within {P : Req → Prop} (hok : ∀ c r, P r → ok c r) {p : Io α} (hp : p.Asks P) :
    p.Within Heard ok (Since c₀) :=
  hp.within (fun c r _ hr => hok c r hr) fun _ _ _ _ hc hh => hc.trans hh.since

/-- A process whose kind asks only what a rule always allows keeps to it. -/
lemma heard_of_may {k : Kind} (hmay : ∀ c r, k.May r → ok c r) :
    Pool.InPhase Heard ok (fun _ => True) k.program (k, []) :=
  ((Kind.asks_may k).within (fun c r _ => hmay c r) (fun _ _ _ _ _ _ => trivial) _ trivial).mono
    fun _ _ _ => trivial

lemma then_ask {r : Req} {f : r.Reply → Io β} {Q : Except Exc β → Kind × List Said → Prop}
    {c c' : Kind × List Said} (hs : Since c c') (hr : ok c' r)
    (hQ : ∀ e c'', Since c c'' → Q (.error e) c'')
    (hf : ∀ a c'', Since c c'' → (⟨r, .ok a⟩ : Said) ∈ c''.2 → (f a).Keeps Heard ok Q c'') :
    (Prog.call r >>= f).Keeps Heard ok Q c' :=
  heard_closed.then_ask hs hr (fun e c'' hc _ => hQ e c'' hc) fun a c'' hc hh => hf a c'' hc hh.mem

lemma then_bind {p : Io α} {f : α → Io β} {Q : Except Exc β → Kind × List Said → Prop}
    {c c' : Kind × List Said} (hs : Since c c') (hp : p.Within Heard ok (Since c'))
    (hQ : ∀ e c'', Since c c'' → Q (.error e) c'')
    (hf : ∀ a c'', Since c c'' → (f a).Keeps Heard ok Q c'') :
    (p >>= f).Keeps Heard ok Q c' :=
  hp.then_bind (.refl c') (fun e c'' hc => hQ e c'' (hs.trans hc)) fun a c'' hc => hf a c'' (hs.trans hc)

/-- **A worker executes the run that it has claimed**: it keeps to a rule that lets it claim a run if it
does so when it executes one. -/
lemma tick_heard {w : Worker} (hclaims : ∀ c r, c.1 = .worker w → Claiming w r → ok c r)
    (hexecute : ∀ (run : RunRow) c, c.1 = .worker w → ClaimedAs run.id run c →
      (w.execute run).Keeps Heard ok (fun _ _ => True) c) :
    w.tick.Keeps Heard ok (fun _ _ => True) (.worker w, []) := by
  have hclaim : w.claim.Keeps Heard ok (fun v c => c.1 = .worker w ∧ ∀ run, v = .ok (some run) →
      ClaimedAs run.id run c) (.worker w, []) := by
    have hnot : ∀ (e : Exc) c, Since (.worker w, []) c → c.1 = .worker w ∧
        ∀ run, (.error e : Except Exc (Option RunRow)) = .ok (some run) → ClaimedAs run.id run c :=
      fun e c hs => ⟨hs.1, fun run h => by cases h⟩
    refine then_ask (.refl _) (hclaims _ _ rfl trivial) hnot fun now c₁ h₁ _ => ?_
    refine then_ask h₁ (hclaims _ _ h₁.1 trivial) hnot fun now' c₂ h₂ _ => ?_
    refine then_ask h₂ (hclaims _ _ h₂.1 trivial) hnot fun row c₃ h₃ _ => ?_
    cases row with
    | none => exact ⟨h₃.1, fun run h => by cases h⟩
    | some runId =>
      refine .call (hclaims _ _ h₃.1 rfl) fun y c₄ hh => ⟨(h₃.trans hh.since).1, fun run hy => ?_⟩
      subst hy
      -- a claim wins the run that it was made for
      have hid : run.id = runId := hh.1
      exact ⟨w.workerId, now, _, hid ▸ hh.mem⟩
  refine .bind (hclaim.mono ?_)
  rintro (e | run) c ⟨hk, hwon⟩
  · trivial
  cases run with
  | none => trivial
  | some run => exact hexecute run c hk (hwon run rfl)

end

/-! ### What the processes of a run have heard -/

/-- What every transaction keeps that uses no key twice stays true in the course of a run. -/
lemma System.Run.stays {P : DB → Prop} (hP : ∀ {db db' : DB} {e : Env} {c : Call}
    {y : Except Exc c.Reply}, P db → c.exec db e = some (db', y) → e.Fresh db → P db')
    {p p' : System} (hrun : System.Run System.NewIds p p') (h : P p.shared) : P p'.shared := by
  induction hrun with
  | refl => exact h
  | tail _ hmove ih =>
    obtain ⟨l, hids, hstep⟩ := hmove
    rcases System.step_cases hstep with hsame | ⟨pid, c, e, y, rfl, -, hx, -⟩
    · rwa [hsame]
    · exact hP ih hx hids

lemma said_append (pid : ℕ) (log log' : List Ev) :
    Pool.said pid (log ++ log') = Pool.said pid log ++ Pool.said pid log' := by
  unfold Pool.said
  rw [List.filter_append, List.map_append]

/-- What a process has heard was answered in the course of the run. -/
lemma answered_of_said {C : System → Act → Prop} {p : System} (h : p.Reached C) {pid : ℕ} {r : Req}
    {y : Except Exc r.Reply} (hsaid : (⟨r, y⟩ : Said) ∈ Pool.said pid p.log) :
    ∃ (p₁ p₂ : System) (a : Answer) (f : Except Exc r.Reply → Io Unit), p₁.Reached C ∧
      Pool.Acts answer p₁ pid a p₂ r f y ∧ System.Run C p₁ p₂ ∧ System.Run C p₂ p := by
  obtain ⟨ev, hev, rfl, heq⟩ := Pool.mem_of_said hsaid
  obtain ⟨l₁, l₂, hlog⟩ := List.append_of_mem hev
  obtain ⟨p₁, p₂, f, h₁, hC, hstep, hact, hrest, -⟩ := Pool.event_step h rfl hlog
  obtain ⟨pid', req, a, y', db, db'⟩ := ev
  cases heq
  exact ⟨p₁, p₂, a, f, h₁, hact, .single ⟨_, hC, hstep⟩, hrest⟩

/-- **An invariant of the database and the log**: what every transaction keeps that commits, and every
other answer. -/
theorem System.invariant {C : System → Act → Prop} {G : DB → List Ev → Prop} (hinit : G {} [])
    (hcommit : ∀ (p : System) pid c e db' y, p.Reached C → C p (.act pid (.commit e)) →
      p.pending pid = some (.db c) → c.exec p.shared e = some (db', y) → G p.shared p.log →
        G db' (p.log ++ [⟨pid, .db c, .commit e, y, p.shared, db'⟩]))
    (hquiet : ∀ (p : System) pid a r y, p.Reached C → C p (.act pid a) → p.pending pid = some r →
      answer p.shared r a = some (p.shared, y) → G p.shared p.log →
        G p.shared (p.log ++ [⟨pid, r, a, y, p.shared, p.shared⟩]))
    {p : System} (h : p.Reached C) : G p.shared p.log := by
  induction h with
  | refl => exact hinit
  | @tail p₁ p₂ hrun hmove ih =>
    obtain ⟨l, hC, hstep⟩ := hmove
    cases l with
    | spawn k =>
      obtain ⟨hs, hl, -⟩ := Pool.step_spawn hstep
      rwa [hs, hl]
    | crash pid =>
      obtain ⟨hs, hl, -⟩ := Pool.step_crash hstep
      rwa [hs, hl]
    | act pid a =>
      obtain ⟨r, f, y, hact⟩ := Pool.step_act hstep
      have hasks := hact.pending
      rw [hact.logged]
      revert hC hasks
      refine answer_cases (motive := fun r a db' y => C p₁ (.act pid a) → p₁.pending pid = some r →
        G db' (p₁.log ++ [⟨pid, r, a, y, p₁.shared, db'⟩])) ?_ ?_ ?_ hact.answered
      · exact fun c e db' y hx hC hasks => hcommit p₁ pid c e db' y hrun hC hasks hx ih
      · exact fun c exc hC hasks => hquiet p₁ pid (.fail exc) (.db c) _ hrun hC hasks rfl ih
      · exact fun r a y _ ha hC hasks => hquiet p₁ pid a r y hrun hC hasks ha ih

/-- What a process says and hears next, as a function of the reply. -/
def transcribe (c : Kind × List Said) (r : Req) (y : Except Exc r.Reply) : Kind × List Said :=
  (c.1, c.2 ++ [⟨r, y⟩])

lemma watch_transcribe (p : System) (pid : ℕ) : p.watch transcribe (fun k => (k, [])) pid =
    (p.kind? pid).map fun k => (k, Pool.said pid p.log) := by
  have hfold : ∀ (l : List Said) (c : Kind × List Said),
      l.foldl (fun c x => transcribe c x.1 x.2) c = (c.1, c.2 ++ l) := by
    intro l
    induction l with
    | nil => simp
    | cons x l ih =>
      intro c
      rw [List.foldl_cons, ih, transcribe, List.append_assoc]
      rfl
  unfold Pool.watch
  simp [hfold]

/-- **What a process asks is allowed** after what it has heard, if the programs keep to the rule. -/
theorem pending_heard {ok : Kind × List Said → Req → Prop}
    (hk : ∀ k, Pool.InPhase Heard ok (fun _ => True) k.program (k, [])) {C : System → Act → Prop}
    {p : System} (h : p.Reached C) {pid : ℕ} {r : Req} (hr : p.pending pid = some r) :
    ∃ k, p.kind? pid = some k ∧ ok (k, Pool.said pid p.log) r := by
  obtain ⟨f, hf⟩ := Pool.prog?_of_pending hr
  have hwatched : ∃ c, p.watch transcribe (fun k => (k, [])) pid = some c ∧
      Pool.InPhase Heard ok (fun _ => True) (.ask r f) c :=
    Pool.watched (A := Heard) (fun _ _ hact => ⟨valid_of_answer hact.answered, rfl⟩)
      (fun _ k _ => hk k) h rfl rfl hf
  obtain ⟨c, hc, hkeeps⟩ := hwatched
  rw [watch_transcribe] at hc
  obtain ⟨k, hk, rfl⟩ := Option.map_eq_some_iff.1 hc
  exact ⟨k, hk, hkeeps.1⟩

end Pyreljob
