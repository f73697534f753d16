import Pyreljob.Lib.Fair
import Pyreljob.System.Memory
import Pyreljob.System.Reference

/-!
How a run ends.

A history is one of the script if bodies do what the script says, nobody executes the run at the same
time as somebody else, no executor is killed or loses the database, and nobody takes the run away. In
such a history a run that is done has ended as the reference says. It is done at last if it is
claimed whenever it is due, and its executors go on: each claim but the last one spends an attempt.
-/

namespace Pyreljob

open Lib

/-! ### The condition -/

/-- The transaction takes the run away from the workers: the run is cancelled or swept. -/
def DB.seizes (db : DB) (i : ℕ) : Call → Bool
  | .cancelRun runId => runId = i
  | .cancelJob jobId => (db.runs.get? i).any fun r => r.jobId = jobId ∧ r.status.inFlight
  | .reconcileBatch _ cutoff pc => (db.runs.get? i).any fun r => DB.Stale cutoff pc r
  | _ => false

instance (S : Script) (i : ℕ) : (r : Req) → (y : Except Exc r.Reply) → Decidable (S.Obeys i r y)
  | .run .., .ok (_, _) => inferInstanceAs (Decidable (_ → _ ∧ _))
  | .db _, .error _ | .retryAt _, .error _ => .isFalse id
  | .run .., .error _ | .db _, .ok _ | .retryAt _, .ok _ | .now, _ | .lastClaimAt, _ | .undo .., _
  | .nextRuntime .., _ => .isTrue trivial

/-- The executors of the run hear what the script says, and are not killed. -/
def Script.Follows (S : Script) (i : ℕ) (p : System) : Act → Prop
  | .spawn _ => True
  | .crash pid => (p.lives pid && claimedBy pid i p.log) = false
  | .act pid a =>
    claimedBy pid i p.log → ∀ r ∈ p.pending pid, ∀ x ∈ answer p.shared r a, S.Obeys i r x.2

instance (S : Script) (i : ℕ) (p : System) : (l : Act) → Decidable (S.Follows i p l)
  | .spawn _ => .isTrue trivial
  | .crash _ => inferInstanceAs (Decidable (_ = _))
  | .act _ _ => inferInstanceAs (Decidable (_ → ∀ r ∈ _, ∀ x ∈ _, _))

/-- **A history of the script.** -/
def Scripted (S : Script) (i : ℕ) (name : String) (m : ℤ) (cls : JobCls) (p : System) (l : Act) :
    Prop :=
  Solo i name m cls p l ∧ S.Follows i p l ∧ (committing p l).any (p.shared.seizes i) = false

instance (S : Script) (i : ℕ) (name : String) (m : ℤ) (cls : JobCls) (p : System) (l : Act) :
    Decidable (Scripted S i name m cls p l) := inferInstanceAs (Decidable (_ ∧ _ ∧ _))

/-- The claims that were won on the run. -/
def claimsOn (i : ℕ) (log : List Ev) : List Claim :=
  (log.filterMap claimOf).filter fun c => c.runId = i

section

variable {S : Script} {i : ℕ} {name : String} {m : ℤ} {cls : JobCls} {p p' : System} {l : Act}

lemma saga_suits : (sagaOutline S i m cls).Suits (Scripted S i name m cls) i name m cls where
  sound := sagaOutline_sound S i cls m
  solo := fun _ _ hC => hC.1
  hears := by
    intro p pid a r db' y hC hasks hclaimed hans
    have hfollows : S.Follows i p (.act pid a) := hC.2.1
    exact hfollows hclaimed r (Option.mem_def.2 hasks) (db', y) (Option.mem_def.2 hans)
  crash := by
    intro p pid hC hlives hclaimed _ _
    have hfollows : S.Follows i p (.crash pid) := hC.2.1
    simp [Script.Follows, hlives, hclaimed] at hfollows

/-! ### The run is left to its workers -/

lemma story_append (l₁ l₂ : List Ev) : story i (l₁ ++ l₂) = story i l₁ ++ story i l₂ := by
  simp [story]

/-- A transaction that leaves the run to its workers does not cancel it, and only a worker fails it. -/
lemma exec_unseized {db db' : DB} {e : Env} {c : Call} {y : Except Exc c.Reply}
    (hx : c.exec db e = some (db', y)) (hnot : db.seizes i c = false) {r' : RunRow}
    (hr' : db'.runs.get? i = some r') :
    (∃ r, db.runs.get? i = some r ∧ r'.status = r.status) ∨ r'.status.inFlight ∨
      r'.status = .succeeded ∨ (r'.status = .failed ∧ ∃ error r, c = .failRun i error none ∧
        db.runs.get? i = some r ∧ r.status = .running) := by
  have hrow := exec_run hx i
  rw [hr'] at hrow
  generalize ho : db.runs.get? i = o at hrow
  cases hrow with
  | same => exact .inl ⟨r', rfl, rfl⟩
  | renewed r | ctxSet r | progressSet r => exact .inl ⟨r, rfl, rfl⟩
  | enqueued | created | claimed | retried => exact .inr (.inl rfl)
  | completed => exact .inr (.inr (.inl rfl))
  | failed r error hr => exact .inr (.inr (.inr ⟨rfl, error, r, rfl, rfl, hr⟩))
  | cancelled => simp [DB.seizes] at hnot
  | jobCancelled r hflight => simp [DB.seizes, ho, hflight] at hnot
  | swept r now cutoff pc hstale => simp [DB.seizes, ho, hstale] at hnot

/-- The run is not cancelled, and fails only where a worker gives up. -/
structure Unseized (i : ℕ) (p : System) : Prop where
  cancelled : ∀ r, p.shared.runs.get? i = some r → r.status ≠ .cancelled
  failed : ∀ r, p.shared.runs.get? i = some r → r.status = .failed → (story i p.log).any (givesUp i)

lemma unseized_of_reached (h : p.Reached (Scripted S i name m cls)) : Unseized i p := by
  induction h with
  | refl =>
    constructor
    all_goals
      intro r hr
      cases hr
  | @tail p p' hrun hmove ih =>
    have h' : p'.Reached (Scripted S i name m cls) := hrun.tail hmove
    obtain ⟨lnew, hlog⟩ := Pool.log_prefix (.single hmove : System.Run _ p p')
    have hgives : (story i p.log).any (givesUp i) → (story i p'.log).any (givesUp i) := by
      intro hany
      rw [hlog, story_append, List.any_append, hany]
      rfl
    obtain ⟨l, hC, hstep⟩ := hmove
    rcases System.step_cases hstep with hsame | ⟨pid, c, e, y, rfl, hasks, hx, hlog'⟩
    · exact ⟨hsame ▸ ih.cancelled, fun r hr hs => hgives (ih.failed r (hsame ▸ hr) hs)⟩
    · have hseized : p.shared.seizes i c = false := by
        have hnot := hC.2.2
        simpa [committing, hasks] using hnot
      constructor
      · intro r' hr' hs
        rcases exec_unseized hx hseized hr' with ⟨r, hr, hrs⟩ | hrs | hrs | ⟨hrs, -⟩
        · exact ih.cancelled r hr (hrs.symm.trans hs)
        all_goals
          rw [hs] at hrs
          cases hrs
      · intro r' hr' hs
        rcases exec_unseized hx hseized hr' with ⟨r, hr, hrs⟩ | hrs | hrs | ⟨-, error, r, rfl, hr, hrs⟩
        · exact hgives (ih.failed r hr (hrs.symm.trans hs))
        · rw [hs] at hrs
          cases hrs
        · rw [hs] at hrs
          cases hrs
        · have hy : y = .ok () := by
            simp only [Call.exec, Option.some.injEq, Prod.mk.injEq] at hx
            exact hx.2.symm
          have hnot : error ≠ "unhandled error" := by
            rcases (saga_suits.describes h').asks p.log _ [] hlog' (by simp [about]) with
              ⟨-, -, hask⟩ | ⟨hsettled, -⟩
            · exact hask error rfl
            · simp [View.Settled, View.now, View.of, hr, hrs, RunStatus.isDone] at hsettled
          rw [hlog', story_concat, if_pos (by simp [about]), List.any_append]
          simp [hy, givesUp, hnot]

lemma Unseized.now (h : Unseized i p) : (View.now i p.shared p.log).status ≠ some .cancelled ∧
    ((View.now i p.shared p.log).status = some .failed →
      (View.now i p.shared p.log).story.any (givesUp i)) := by
  constructor
  · intro hs
    obtain ⟨r, hr, hs⟩ := Option.map_eq_some_iff.1 hs
    exact h.cancelled r hr hs
  · intro hs
    obtain ⟨r, hr, hs⟩ := Option.map_eq_some_iff.1 hs
    exact h.failed r hr hs

/-- **A run that is done has ended as the reference says.** -/
lemma ended_of_done (h : p.Reached (Scripted S i name m cls)) {r : RunRow}
    (hr : p.shared.runs.get? i = some r) (hd : r.status.isDone) :
    S.Ended i m cls (View.now i p.shared p.log) := by
  have hun := unseized_of_reached h
  have hstatus : (View.now i p.shared p.log).status = some r.status := by
    simp [View.now, View.of, hr]
  rcases (saga_suits.describes h).holds with habsent | hrest | ⟨hw, -⟩
  · rw [habsent] at hstatus
    cases hstatus
  · refine hrest.2 ?_
    rw [hstatus]
    cases hs : r.status with
    | succeeded => exact .inr rfl
    | failed => exact .inl ⟨rfl, hun.failed r hr hs⟩
    | cancelled => exact absurd hs (hun.cancelled r hr)
    | ready | running =>
      rw [hs] at hd
      cases hd
  · rw [View.Working, hstatus] at hw
    rcases hw with hw | hw
    · rw [Option.some.inj hw] at hd
      cases hd
    · exact absurd (Option.some.inj hw) (hun.cancelled r hr)

/-! ### Claims and attempts -/

def View.taken (v : View) : ℕ :=
  match v.status with
  | none | some .ready => 0
  | _ => 1

/-- The executor of a run gives it back, or goes on, or is done with it. -/
lemma taken_after {v : View} {r : Req} {y : Except Exc r.Reply} (hv : v.status = some .running)
    (hab : about i r) : (v.after i r y).story.countP (defers i) + (v.after i r y).taken =
      v.story.countP (defers i) + 1 := by
  rw [View.after_about hab]
  change (v.story ++ [(⟨r, y⟩ : Said)]).countP (defers i) + (v.settle r y).taken = _
  rw [List.countP_append, List.countP_singleton, Nat.add_assoc]
  congr 1
  cases r with
  | db c =>
    cases c with
    | failRun i' error t =>
      obtain rfl : i' = i := of_decide_eq_true hab
      cases t <;> cases y <;> simp [defers, View.settle, View.taken, hv]
    | completeRun | cancelRun => cases y <;> simp [defers, View.settle, View.taken, hv]
    | _ => cases y <;> simp [defers, View.settle, View.taken, hv]
  | _ => simp [defers, View.settle, View.taken, hv]

lemma claimsOn_concat (log : List Ev) (ev : Ev) : (claimsOn i (log ++ [ev])).length =
    (claimsOn i log).length + if (wonRun i ev.req ev.reply).isSome then 1 else 0 := by
  have hone : (claimsOn i [ev]).length = if (wonRun i ev.req ev.reply).isSome then 1 else 0 := by
    obtain ⟨pid, r, a, y, pre, post⟩ := ev
    cases r with
    | db c =>
      cases c with
      | claimRun runId w now le =>
        rcases y with e | _ | run
        · rfl
        · rfl
        · by_cases hi : runId = i <;> simp [claimsOn, claimOf, claimIn, wonRun, hi]
      | _ => rfl
    | _ => rfl
  rw [← hone, claimsOn, claimsOn, claimsOn, List.filterMap_append, List.filter_append,
    List.length_append]

/-- Each claim of the run but the last one was given back for another attempt. -/
structure Counted (S : Script) (i : ℕ) (m : ℤ) (cls : JobCls) (v : View) (log : List Ev) : Prop where
  claims : (claimsOn i log).length = v.story.countP (defers i) + v.taken
  le : (claimsOn i log).length ≤ S.deferrals m cls cls.tasks.length + 1

/-- A run that waits for its claim stands where the reference does. -/
lemma ready_of_rests {v : View} (hrest : (sagaOutline S i m cls).rests v)
    (hflight : v.status.any RunStatus.inFlight) (hbased : v.Based cls.tasks.length) :
    v.status = some .ready ∧ v.story.any (givesUp i) = false ∧
      v.story.countP (defers i) ≤ S.deferrals m cls cls.tasks.length := by
  obtain ⟨hready, k, n, hstands, hmark, -⟩ := hrest.1 hflight
  obtain ⟨k', hk', hup⟩ := hbased
  obtain rfl := hup.unique (hstands.upto (Script.done_of_left hmark))
  exact ⟨hready, hstands.kept, hstands.deferred_le hk'⟩

/-- Where nobody executes the run it waits for its claim, or is done. -/
lemma rests_of_unattended (h : p.Reached (Scripted S i name m cls)) (hun : Unattended i p)
    (hflight : (View.now i p.shared p.log).status.any RunStatus.inFlight) :
    (View.now i p.shared p.log).status = some .ready ∧
      (View.now i p.shared p.log).story.any (givesUp i) = false ∧
        (View.now i p.shared p.log).story.countP (defers i) ≤
          S.deferrals m cls cls.tasks.length := by
  rcases (saga_suits.describes h).rests hun with habsent | hrest
  · rw [habsent] at hflight
    cases hflight
  · exact ready_of_rests hrest hflight (saga_suits.describes h).based

lemma kept_of_ready (h : p.Reached (Scripted S i name m cls))
    (hready : (View.now i p.shared p.log).status = some .ready) :
    (View.now i p.shared p.log).story.any (givesUp i) = false := by
  have hdescribes := saga_suits.describes h
  rcases hdescribes.holds with habsent | hrest | ⟨hw, -⟩
  · rw [habsent] at hready
    cases hready
  · exact (ready_of_rests hrest (by rw [hready]; rfl) hdescribes.based).2.1
  · rcases hw with hw | hw <;> rw [hready] at hw <;> cases hw

/-- What others do to a run that is left to its workers changes nothing about this. -/
lemma taken_drift {v v' : View} (hd : View.Drift v v') (hcancelled : v'.status ≠ some .cancelled)
    (hfailed : v'.status = some .failed → v'.story.any (givesUp i))
    (hkept : v.status = some .ready → v.story.any (givesUp i) = false) :
    v'.story = v.story ∧ v'.taken = v.taken := by
  cases hd with
  | same => exact ⟨rfl, rfl⟩
  | created j hnone => exact ⟨rfl, by simp [View.taken, hnone]⟩
  | cancelled => exact absurd rfl hcancelled
  | swept hready =>
    have hgives := hfailed rfl
    rw [show v.story.any (givesUp i) = false from hkept hready] at hgives
    cases hgives

lemma counted_of_reached (h : p.Reached (Scripted S i name m cls)) :
    Counted S i m cls (View.now i p.shared p.log) p.log := by
  induction h with
  | refl => exact ⟨rfl, Nat.zero_le _⟩
  | @tail p p' hrun hmove ih =>
    have h' : p'.Reached (Scripted S i name m cls) := hrun.tail hmove
    have hun := unseized_of_reached hrun
    have hun' := unseized_of_reached h'
    obtain ⟨l, hC, hstep⟩ := hmove
    cases l with
    | spawn k =>
      obtain ⟨hs, hl, -⟩ := Pool.step_spawn hstep
      rwa [hs, hl]
    | crash pid =>
      obtain ⟨hs, hl, -⟩ := Pool.step_crash hstep
      rwa [hs, hl]
    | act pid a =>
      obtain ⟨r, f, y, hact⟩ := Pool.step_act hstep
      have hlog := hact.logged
      have hclaims : (claimsOn i p'.log).length = (claimsOn i p.log).length +
          if (wonRun i r y).isSome then 1 else 0 := by
        rw [hlog]
        exact claimsOn_concat ..
      cases hwon : wonRun i r y with
      | some run =>
        obtain ⟨c, rfl, hwins⟩ := Outline.wins_of_wonRun hact.answered hwon
        have hattend := hC.1.unattended hact.pending hwins
        obtain ⟨w, now, le, hsaid⟩ := of_wonRun hwon
        obtain ⟨hreq, hy⟩ := Sigma.mk.inj hsaid
        cases hreq
        obtain rfl := eq_of_heq hy
        obtain ⟨hflight, -, -, -, hnow⟩ := view_won pid p.log hact.answered
        obtain ⟨hready, -, hle⟩ := rests_of_unattended hrun hattend hflight
        have htaken : (View.now i p.shared p.log).taken = 0 := by
          simp [View.taken, hready]
        rw [hwon, Option.isSome_some, if_pos rfl, ih.claims, htaken] at hclaims
        refine ⟨?_, by omega⟩
        rw [hclaims, hlog, hnow]
        rfl
      | none =>
        rw [hwon, Option.isSome_none, if_neg (by simp)] at hclaims
        suffices hsame : (View.now i p'.shared p'.log).story.countP (defers i) +
            (View.now i p'.shared p'.log).taken = (View.now i p.shared p.log).story.countP (defers i) +
              (View.now i p.shared p.log).taken from
          ⟨hclaims.trans (ih.claims.trans hsame.symm), hclaims ▸ ih.le⟩
        have h₁ : p.shared.OnePer i := onePer_of_reached hrun
        cases hab : about i r with
        | true =>
          rcases (saga_suits.describes h').asks p.log _ [] hlog hab with ⟨hw, -⟩ | ⟨hsettled, rfl⟩
          · have hrunning := hw.resolve_right hun.now.1
            rw [hlog, view_answer hact.answered hab h₁ (by rw [hrunning]; rfl),
              taken_after hrunning hab]
            simp [View.taken, hrunning]
          · rw [hlog, view_answer hact.answered hab h₁ hsettled.not_inFlight.1,
              Outline.after_unhandled hsettled]
            change ((View.now i p.shared p.log).story ++ [_]).countP (defers i) + _ = _
            rw [List.countP_append, List.countP_singleton]
            cases y <;> rfl
        | false =>
          have hdrift := @view_answer_drift _ _ i pid p.log _ _ _ hact.answered hab
            (fun c hc => hC.1.erases (hc ▸ hact.pending)) hwon
          rw [← hlog] at hdrift
          obtain ⟨hstory, htaken⟩ := taken_drift hdrift hun'.now.1 hun'.now.2 (kept_of_ready hrun)
          rw [hstory, htaken]

end

/-! ### The run ends -/

/-- The run waits for its claim: nobody executes it, and it is not done. -/
def System.Awaits (i : ℕ) (p : System) : Prop :=
  Unattended i p ∧ (p.shared.runs.get? i).any fun r => r.status = .ready

section

variable {S : Script} {i : ℕ} {name : String} {m : ℤ} {cls : JobCls} {f : ℕ → System}

lemma claimsOn_append (i : ℕ) (l₁ l₂ : List Ev) : claimsOn i (l₁ ++ l₂) = claimsOn i l₁ ++ claimsOn i l₂ := by
  simp [claimsOn]

lemma claimedBy_iff {pid : ℕ} {log : List Ev} : claimedBy pid i log ↔ ∃ c ∈ claimsOn i log, c.pid = pid := by
  simp only [claimedBy, claimsBy, claimsOn, List.any_eq_true, List.mem_filter, decide_eq_true_eq]
  constructor
  · rintro ⟨c, ⟨hc, hpid⟩, hi⟩
    exact ⟨c, ⟨hc, hi⟩, hpid⟩
  · rintro ⟨c, ⟨hc, hi⟩, hpid⟩
    exact ⟨c, ⟨hc, hpid⟩, hi⟩

lemma lt_of_claimedBy {C : System → Act → Prop} {p : System} (h : p.Reached C) {pid : ℕ}
    (hclaimed : claimedBy pid i p.log) : pid < p.procs.length := by
  obtain ⟨c, hc, -⟩ := List.any_eq_true.1 hclaimed
  obtain ⟨ev, hev, hcl⟩ := List.mem_filterMap.1 (List.mem_filter.1 hc).1
  have hpid : c.pid = pid := of_decide_eq_true (List.mem_filter.1 hc).2
  rw [← hpid, claimIn_pid hcl]
  exact Pool.pid_lt h rfl ev hev

lemma born_stays {p p' : System} (h : System.Run (Scripted S i name m cls) p p')
    (hborn : (p.shared.runs.get? i).isSome) : (p'.shared.runs.get? i).isSome := by
  induction h with
  | refl => exact hborn
  | @tail p₁ p₂ _ hmove ih =>
    obtain ⟨l, hC, hstep⟩ := hmove
    rcases System.step_cases hstep with hsame | ⟨pid, c, e, y, rfl, hasks, hx, -⟩
    · rwa [hsame]
    · have herase := hC.1.erases hasks
      have hrow := exec_run hx i
      generalize ho : p₁.shared.runs.get? i = o, p₂.shared.runs.get? i = o' at hrow ih
      cases hrow with
      | same => exact ih
      | jobDeleted r => simp [DB.erases, ho] at herase
      | pruned r ids hi => simp [DB.erases, hi] at herase
      | _ => rfl

/-- **Where the run is not claimed any more, nobody executes it in the end**, if executors go on. -/
lemma unattended_at_last (hf : Pool.History answer Kind.program (Scripted S i name m cls) f)
    (hinit : f 0 = System.init)
    (hwork : ∀ pid, WeaklyFair (fun n => (f n).lives pid ∧ claimedBy pid i (f n).log)
      (Pool.Answered answer Kind.program f pid)) {n₀ : ℕ}
    (hlast : ∀ n ≥ n₀, claimsOn i (f n).log = claimsOn i (f n₀).log) :
    ∃ n₁ ≥ n₀, ∀ n ≥ n₁, Unattended i (f n) := by
  have hreached : ∀ n, (f n).Reached (Scripted S i name m cls) := fun n => by
    have hrun := hf.run (Nat.zero_le n)
    rwa [hinit] at hrun
  have hsame : ∀ n ≥ n₀, ∀ pid, claimedBy pid i (f n).log ↔ claimedBy pid i (f n₀).log := by
    intro n hn pid
    rw [claimedBy_iff, claimedBy_iff, hlast n hn]
  -- each of those who have claimed it comes to its end
  have hdead : ∀ pid, ∃ n₁ ≥ n₀, ∀ n ≥ n₁, (f n).lives pid → claimedBy pid i (f n).log = false := by
    intro pid
    by_cases hclaimed : claimedBy pid i (f n₀).log
    · obtain ⟨n₁, hn₁, hdead⟩ := hf.ends pid n₀ fun m hm hlives =>
        hwork pid m fun k hk => ⟨hlives k hk, (hsame k (hm.le.trans hk) pid).2 hclaimed⟩
      refine ⟨n₁, hn₁, fun n hn hlives => ?_⟩
      have hlt := lt_of_claimedBy (hreached n₁) ((hsame n₁ hn₁ pid).2 hclaimed)
      rw [((hf.run hn).gone hlt hdead).2] at hlives
      cases hlives
    · refine ⟨n₀, le_rfl, fun n hn _ => ?_⟩
      exact Bool.eq_false_iff.2 fun hc => hclaimed ((hsame n hn pid).1 hc)
  have hall : ∀ L, ∃ n₁ ≥ n₀, ∀ n ≥ n₁, ∀ pid < L, (f n).lives pid →
      claimedBy pid i (f n).log = false := by
    intro L
    induction L with
    | zero => exact ⟨n₀, le_rfl, fun _ _ _ hpid => absurd hpid (Nat.not_lt_zero _)⟩
    | succ L ih =>
      obtain ⟨n₁, hn₁, h₁⟩ := ih
      obtain ⟨n₂, hn₂, h₂⟩ := hdead L
      refine ⟨max n₁ n₂, hn₁.le.trans (le_max_left ..), fun n hn pid hpid hlives => ?_⟩
      rcases Nat.lt_succ_iff_lt_or_eq.1 hpid with hlt | rfl
      · exact h₁ n ((le_max_left ..).trans hn) pid hlt hlives
      · exact h₂ n ((le_max_right ..).trans hn) hlives
  obtain ⟨n₁, hn₁, h⟩ := hall (f n₀).procs.length
  refine ⟨n₁, hn₁, fun n hn pid _ hlives => ?_⟩
  by_contra hclaimed
  have hc : claimedBy pid i (f n).log := by simpa using hclaimed
  have hlt := lt_of_claimedBy (hreached n₀) ((hsame n (hn₁.le.trans hn) pid).1 hc)
  exact hclaimed (h n hn pid hlt hlives)

/-- **The run is done at last**, if it is claimed whenever it waits for it, and its executors go on. -/
lemma done_at_last (hf : Pool.History answer Kind.program (Scripted S i name m cls) f)
    (hinit : f 0 = System.init) (hborn : ∃ n, ((f n).shared.runs.get? i).isSome)
    (hwork : ∀ pid, WeaklyFair (fun n => (f n).lives pid ∧ claimedBy pid i (f n).log)
      (Pool.Answered answer Kind.program f pid))
    (hclaim : WeaklyFair (fun n => (f n).Awaits i)
      fun n => (claimsOn i (f n).log).length < (claimsOn i (f (n + 1)).log).length) :
    ∃ n r, (f n).shared.runs.get? i = some r ∧ r.status.isDone := by
  have hreached : ∀ n, (f n).Reached (Scripted S i name m cls) := fun n => by
    have hrun := hf.run (Nat.zero_le n)
    rwa [hinit] at hrun
  -- the claims come to an end
  have hbounded : BddAbove (Set.range fun n => (claimsOn i (f n).log).length) := by
    refine ⟨S.deferrals m cls cls.tasks.length + 1, ?_⟩
    rintro _ ⟨n, rfl⟩
    exact (counted_of_reached (hreached n)).le
  obtain ⟨n₀, hn₀⟩ := Nat.sSup_mem (Set.range_nonempty _) hbounded
  have hmost : ∀ n, (claimsOn i (f n).log).length ≤ (claimsOn i (f n₀).log).length := by
    intro n
    exact (le_csSup hbounded ⟨n, rfl⟩).trans hn₀.ge
  have hlast : ∀ n ≥ n₀, claimsOn i (f n).log = claimsOn i (f n₀).log := by
    intro n hn
    obtain ⟨l, hl⟩ := Pool.log_prefix (hf.run hn)
    have hle := hmost n
    rw [hl, claimsOn_append, List.length_append] at hle
    have hnil : claimsOn i l = [] := List.eq_nil_of_length_eq_zero (by omega)
    rw [hl, claimsOn_append, hnil, List.append_nil]
  obtain ⟨n₁, hn₁, hun⟩ := unattended_at_last hf hinit hwork hlast
  by_contra hnever
  obtain ⟨b, hb⟩ := hborn
  have hawaits : ∀ n ≥ max n₁ b, (f n).Awaits i := by
    intro n hn
    have hun := hun n ((le_max_left ..).trans hn)
    obtain ⟨r, hr⟩ := Option.isSome_iff_exists.1 (born_stays (hf.run ((le_max_right ..).trans hn)) hb)
    have hnot : r.status.isDone = false := Bool.eq_false_iff.2 fun hd => hnever ⟨n, r, hr, hd⟩
    have hflight : (View.now i (f n).shared (f n).log).status.any RunStatus.inFlight := by
      rw [RunStatus.isDone_eq_not_inFlight, Bool.not_eq_false'] at hnot
      simpa [View.now, View.of, hr] using hnot
    obtain ⟨hready, -⟩ := rests_of_unattended (hreached n) hun hflight
    refine ⟨hun, ?_⟩
    simpa [View.now, View.of, hr] using hready
  obtain ⟨k, hk, hmore⟩ := hclaim _ hawaits
  have hle := hmost (k + 1)
  rw [hlast k (hn₁.le.trans ((le_max_left ..).trans hk))] at hmore
  omega

lemma results_get? (hd : cls.Distinct) (hvalue : ∀ pos task, cls.tasks[pos]? = some task →
    ∃ v, S.value m cls pos = some v) {k pos : ℕ} {task : TaskCls} (hlt : pos < k)
    (hk : k ≤ cls.tasks.length) (htask : cls.tasks[pos]? = some task) :
    (S.results m cls k).get? task.name = S.value m cls pos := by
  induction k with
  | zero => exact absurd hlt (Nat.not_lt_zero _)
  | succ k ih =>
    have htask' : cls.tasks[k]? = some cls.tasks[k] := List.getElem?_eq_getElem hk
    obtain ⟨v, hv⟩ := hvalue k _ htask'
    have hresults : S.results m cls (k + 1) = (S.results m cls k).set cls.tasks[k].name v := by
      simp only [Script.results, htask', hv]
    rw [hresults]
    rcases Nat.lt_succ_iff_lt_or_eq.1 hlt with hlt | rfl
    · rw [Dict.get?_set_ne _ _ (hd.name_ne htask htask' hlt.ne)]
      exact ih hlt (Nat.le_of_succ_le hk)
    · obtain rfl := Option.some.inj (htask'.symm.trans htask)
      rw [Dict.get?_set_self, hv]

/-- **A worker implements the reference saga.** In every history of the script in which the run is
claimed whenever it waits for it, and its executors go on, the run ends as the reference says, after
no more claims than the attempts of the script call for. The body of each attempt is given what the
tasks before have returned, and the state that the attempt before has left. -/
theorem worker_implements_saga (hd : cls.Distinct)
    (hf : Pool.History answer Kind.program (Scripted S i name m cls) f) (hinit : f 0 = System.init)
    (hborn : ∃ n, ((f n).shared.runs.get? i).isSome)
    (hwork : ∀ pid, WeaklyFair (fun n => (f n).lives pid ∧ claimedBy pid i (f n).log)
      (Pool.Answered answer Kind.program f pid))
    (hclaim : WeaklyFair (fun n => (f n).Awaits i)
      fun n => (claimsOn i (f n).log).length < (claimsOn i (f (n + 1)).log).length) :
    (∃ n, S.Ended i m cls (View.now i (f n).shared (f n).log)) ∧
      (∀ n r, (f n).shared.runs.get? i = some r → r.status.isDone →
        S.Ended i m cls (View.now i (f n).shared (f n).log)) ∧
      (∀ n, (claimsOn i (f n).log).length ≤ S.deferrals m cls cls.tasks.length + 1) ∧
      (∀ n, ∀ ev ∈ (f n).log, ∀ pos k ctx, ev.req = .run i pos k ctx →
        S.Given m cls pos (k - 1) ctx) ∧
      ((∀ K, ¬ S.Fails m cls K) → ∀ pos task, cls.tasks[pos]? = some task →
        ∃ v, S.value m cls pos = some v ∧
          (S.results m cls cls.tasks.length).get? task.name = some v) := by
  have hreached : ∀ n, (f n).Reached (Scripted S i name m cls) := fun n => by
    have hrun := hf.run (Nat.zero_le n)
    rwa [hinit] at hrun
  refine ⟨?_, fun n r hr => ended_of_done (hreached n) hr, fun n => (counted_of_reached (hreached n)).le,
    fun n ev hev pos k ctx hreq => ?_, fun hnone pos task htask => ?_⟩
  · obtain ⟨n, r, hr, hdone⟩ := done_at_last hf hinit hborn hwork hclaim
    exact ⟨n, ended_of_done (hreached n) hr hdone⟩
  · obtain ⟨l₁, l₂, hl⟩ := List.append_of_mem hev
    rcases (saga_suits.describes (hreached n)).asks l₁ ev l₂ hl (by rw [hreq]; simp [about]) with
      ⟨-, hasks, -⟩ | ⟨-, hun⟩
    · exact hasks pos k ctx hreq
    · rw [hreq] at hun
      cases hun
  · have hvalue : ∀ pos task, cls.tasks[pos]? = some task → ∃ v, S.value m cls pos = some v :=
      fun pos task htask => S.value_of_not_fails htask (hnone pos)
    obtain ⟨v, hv⟩ := hvalue pos task htask
    have hlt : pos < cls.tasks.length := (List.getElem?_eq_some_iff.1 htask).1
    exact ⟨v, hv, (results_get? hd hvalue hlt le_rfl htask).trans hv⟩

end

/-- The first task returns at its second attempt, the second one never does. -/
def stubborn : Script where
  outcome := fun pos n => if pos = 0 ∧ n = 2 then .ok (.num 7) else .error (.other "E" "")
  leaves := fun _ _ => []
  plain := by
    intro pos n exc h
    split at h
    · cases h
    · cases h
      rfl

/-- An attempt of the worker `pid` at the second `t` raises, and the run is given back. -/
def attemptRaises (pid t : ℕ) : List Act :=
  .act pid (.ran (.error (.other "E" "")) []) :: reads pid t :: commits pid 3 t

/-- A worker claims the run at the second `t`, and starts a task. -/
def claims (pid t : ℕ) : List Act :=
  .spawn (.worker (.knowing twoTasks "A")) :: reads pid t :: reads pid t :: commits pid 5 t

/-- Three claims of one worker: the first task is tried again, and so is the second one, in vain. -/
def threeClaims : List Act :=
  .spawn (.enqueue { job := "m.J", maxAttempts := 2 } none) :: commits 0 1 0 ++
  claims 1 1 ++ attemptRaises 1 2 ++
  claims 2 3 ++ .act 2 (.ran (.ok (.num 7)) []) :: commits 2 3 4 ++ attemptRaises 2 5 ++
  claims 3 6 ++ .act 3 (.ran (.error (.other "E" "")) []) :: commits 3 3 7 ++
  .act 3 (.undone none []) :: commits 3 2 8

lemma stubborn_fails : stubborn.Fails 2 twoTasks 1 ∧ ∀ pos < 1, ¬ stubborn.Fails 2 twoTasks pos := by
  refine ⟨⟨{ name := "U" }, rfl, fun n _ _ => rfl⟩, fun pos hpos => ?_⟩
  obtain rfl : pos = 0 := by omega
  rintro ⟨task, htask, hraised⟩
  obtain rfl := Option.some.inj htask
  exact absurd (hraised 2 (by omega) (by decide)) (by decide)

theorem worker_implements_saga_threeClaims : ∃ (f : ℕ → System) (n : ℕ), f 0 = System.init ∧
    stubborn.FailedAt 0 2 twoTasks 1 (View.now 0 (f n).shared (f n).log) ∧
    (claimsOn 0 (f n).log).length = 3 ∧ (claimsOn 0 (f n).log).length ≤
      stubborn.deferrals 2 twoTasks twoTasks.tasks.length + 1 := by
  have hall : ((System.init.play (Scripted stubborn 0 "m.J" 2 twoTasks) threeClaims).any fun p =>
      (p.shared.runs.get? 0).map RunRow.status = some .failed ∧ Unattended 0 p ∧
        (claimsOn 0 p.log).length = 3) = true := by decide
  obtain ⟨p, hp, hend⟩ := (Option.any_eq_true _ _).1 hall
  obtain ⟨hstatus, hun, hthree⟩ := of_decide_eq_true hend
  obtain ⟨r, hr, hs⟩ := Option.map_eq_some_iff.1 hstatus
  obtain ⟨f, hf, hfirst, hlast⟩ := Pool.history_of_play hp
  have hover : ∀ n, f (max n threeClaims.length) = p := fun n => hlast _ (le_max_right ..)
  have hnow : f threeClaims.length = p := hlast _ le_rfl
  -- at the end nobody executes the run, and it does not wait for a claim
  obtain ⟨-, hended, hbound, -⟩ := worker_implements_saga (by decide) hf hfirst
    ⟨_, by rw [hnow, hr]; rfl⟩
    (fun pid n h => by
      obtain ⟨hlives, hclaimed⟩ := h (max n threeClaims.length) (le_max_left ..)
      rw [hover] at hlives hclaimed
      rw [hun pid (Pool.lt_of_lives hlives) hlives] at hclaimed
      cases hclaimed)
    (fun n h => by
      obtain ⟨-, hready⟩ := h (max n threeClaims.length) (le_max_left ..)
      rw [hover, hr] at hready
      simp [hs] at hready)
  refine ⟨f, threeClaims.length, hfirst, ?_, by rw [hnow, hthree], hbound _⟩
  have hdone : r.status.isDone := by
    rw [hs]
    rfl
  exact (hended threeClaims.length r (by rw [hnow, hr]) hdone).failed 1 stubborn_fails.1
    stubborn_fails.2

end Pyreljob
