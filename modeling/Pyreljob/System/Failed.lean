import Pyreljob.Store.Lifecycle
import Pyreljob.System.Late
import Pyreljob.System.Resume

/-!
What failed runs leave.

A worker that gives a run up has undone its tasks before it fails the run. But runs are failed
elsewhere, too, where nothing is undone: by the handler of `_execute` when something has raised, and
by the sweep, which takes every run that is ready for long enough to be one that nobody has started.
A run that waits for the next attempt at a task is ready as well.
-/

namespace Pyreljob

open Lib

/-! ### The outline -/

def completes (i : ℕ) : Said → Bool
  | ⟨.db (.completeRun j _), .ok _⟩ => j = i
  | _ => false

def Saga.Open (i : ℕ) (s : Saga) : Prop := s.story.any (completes i) = false

/-- A worker fails the run only when no task is left to undo, and nothing raises before. -/
def failOutline (i : ℕ) : Outline where
  hears := fun s _ y => y.isOk = false → s.Open i → s.Upto 0
  rests := fun v => v.status.isSome ∧ (v.status.any RunStatus.inFlight → v.Open i)
  stops := Saga.Open i
  asks := fun s r => ∀ error, r = .db (.failRun i error none) → s.Upto 0
  enters := Saga.Open i
  comes := fun _ _ => Saga.Open i
  runs := fun _ _ => Saga.Open i
  undoes := fun _ _ => Saga.Open i
  throws := fun s => s.Open i ∧ s.Upto 0

section

variable {i : ℕ} {s : Saga} {v : View} {r : Req} {y : Except Exc r.Reply}

lemma Saga.Open.after (h : s.Open i) (hr : completes i (⟨r, y⟩ : Said) = false) :
    (s.after r y).Open i := by
  change (s.story ++ [(⟨r, y⟩ : Said)]).any (completes i) = false
  rw [List.any_append, show s.story.any (completes i) = false from h]
  simp [hr]

lemma Saga.Upto.congr {s' : Saga} {k : ℕ} (h : s.Upto k) (hs : ∀ pos, s'.done pos = s.done pos) :
    s'.Upto k := by
  intro pos
  rw [hs]
  exact h pos

lemma failOutline_done (h : v.Settled) : (failOutline i).rests v := by
  obtain ⟨hsome, hnot⟩ := h.not_inFlight
  refine ⟨hsome, fun hflight => ?_⟩
  rw [hnot] at hflight
  cases hflight

lemma View.Working.isSome (h : v.Working) : v.status.isSome := by
  rcases h with hs | hs <;> rw [hs] <;> rfl

lemma failOutline_open (hv : v.Working) (hopen : v.Open i) (hab : about i r)
    (hr : completes i (⟨r, y⟩ : Said) = false) : (failOutline i).rests (v.after i r y) := by
  refine ⟨View.after_isSome hv.isSome, fun _ => ?_⟩
  rw [View.after_about hab]
  exact hopen.after hr

end

lemma failOutline_sound (i : ℕ) (cls : JobCls) (m : ℤ) : (failOutline i).Sound i cls m := by
  have hquiet : ∀ (s : Saga) (r : Req), (∀ error, r ≠ .db (.failRun i error none)) →
      (failOutline i).asks s r := fun s r hr error h => absurd h (hr error)
  constructor
  case created =>
    intro j
    exact ⟨rfl, fun _ => rfl⟩
  case cancelled | swept =>
    intros
    refine ⟨rfl, fun h => ?_⟩
    cases h
  case claimed => exact fun v hv hflight => hv.2 hflight
  case enters_stops => exact fun s h => h
  case halts =>
    intro s _
    exact ⟨hquiet _ _ (by simp), fun v a _ _ => failOutline_done Outline.cancelRun_settled⟩
  case begins => exact fun s k ctx h _ _ _ => h
  case recovers =>
    intro s k ctx task mark h _ _ _ _ _ _
    exact ⟨hquiet _ _ (by simp), h.after rfl⟩
  case comes_stops => exact fun k ctx s h => h
  case starts =>
    intro s pos ctx task h _ _
    exact ⟨hquiet _ _ (by simp), h.after rfl⟩
  case runs_point =>
    intro s pos ctx task n h _ _ _
    exact ⟨h, hquiet _ _ (by simp)⟩
  case succeeds =>
    intro s pos ctx task n v state h _ _ _ _
    exact ⟨⟨h.after rfl, hquiet _ _ (by simp)⟩, ⟨(h.after rfl).after rfl, hquiet _ _ (by simp)⟩,
      ((h.after rfl).after rfl).after rfl⟩
  case cancels =>
    intro s pos ctx task n exc state h _ _ _ _ _
    refine ⟨⟨h.after rfl, hquiet _ _ (by simp)⟩, (h.after rfl).after rfl, hquiet _ _ (by simp), ?_⟩
    exact fun v a _ _ => failOutline_done Outline.cancelRun_settled
  case spends =>
    intro s pos ctx task n exc state h _ _ _ _ _ _
    exact ⟨⟨h.after rfl, hquiet _ _ (by simp)⟩, ⟨(h.after rfl).after rfl, hquiet _ _ (by simp)⟩,
      ((h.after rfl).after rfl).after rfl⟩
  case retries =>
    intro s pos ctx task n exc state t h _ _ _ _ _ _
    refine ⟨⟨h.after rfl, hquiet _ _ (by simp)⟩, ⟨(h.after rfl).after rfl, hquiet _ _ (by simp)⟩,
      ((h.after rfl).after rfl).after rfl, ⟨hquiet _ _ (by simp), fun v a hv hs => ?_⟩,
      fun e hh => ⟨h.after rfl, hh rfl (h.after rfl)⟩⟩
    refine failOutline_open hv ?_ (by simp [about]) rfl
    rw [hs]
    exact ((h.after rfl).after rfl).after rfl
  case undo =>
    intro err k s ctx y h _
    exact ⟨hquiet _ _ (by simp), ⟨h.after rfl, hquiet _ _ (by simp)⟩, (h.after rfl).after rfl⟩
  case undoes_stops => exact fun err k s h => h
  case fails =>
    intro err s _ hup
    exact ⟨fun _ _ => hup, fun v a hv _ => failOutline_done (Outline.failRun_settled (.inl hv))⟩
  case completes =>
    intro s ctx _ _
    exact ⟨hquiet _ _ (by simp), fun v a hv _ => failOutline_done (Outline.completeRun_settled hv)⟩
  case raises =>
    intro s c e h hh
    have hup : s.Upto 0 := hh rfl h
    split
    · refine ⟨h.after (by cases c <;> rfl), hup.congr fun pos => rfl⟩
    · exact ⟨h, hup⟩
  case throws_leaves =>
    intro s h
    exact ⟨h.1, fun _ _ => h.2, fun v a hv _ =>
      failOutline_done (Outline.failRun_settled (.inl hv))⟩
  case drops =>
    intro s e h _ v hv hs
    exact failOutline_open hv (hs ▸ h.1) (by simp [about, unhandled]) rfl
  case late =>
    intro v y _ hv
    rw [Outline.after_unhandled hv]
    exact failOutline_done hv

/-! ### The condition -/

def DB.hasDone (db : DB) (i : ℕ) : Bool := db.tasks.rows.any fun t => t.runId = i ∧ t.status = .succeeded

/-- The sweep meets the run, which a worker has started and given back for another attempt, when it
has been due for the whole grace period. -/
def DB.sweepsStarted (db : DB) (i : ℕ) : Call → Bool
  | .reconcileBatch _ cutoff pc =>
    (db.runs.get? i).any fun r => r.startedAt.isSome ∧ DB.Stale cutoff pc r
  | _ => false

def raising (p : System) (pid : ℕ) (a : Answer) : Bool :=
  match p.pending pid with
  | some r => (answer p.shared r a).any fun answered => !answered.2.isOk
  | none => false

/-- A request of an execution raises while some task of the run has succeeded, and the run has not
been completed. -/
def interrupts (i : ℕ) (p : System) : Act → Bool
  | .act pid a => claimedBy pid i p.log && raising p pid a && p.shared.hasDone i &&
    !(story i p.log).any (completes i)
  | _ => false

/-- **A history of a run** whose executors follow one another, in which the sweep does not meet the
run once it was started, and nothing raises while there is something to undo. -/
def Orderly (i : ℕ) (name : String) (m : ℤ) (cls : JobCls) (p : System) (l : Act) : Prop :=
  Solo i name m cls p l ∧ (committing p l).any (fun c => p.shared.sweepsStarted i c) = false ∧
    interrupts i p l = false

instance (i : ℕ) (name : String) (m : ℤ) (cls : JobCls) (p : System) (l : Act) :
    Decidable (Orderly i name m cls p l) := inferInstanceAs (Decidable (_ ∧ _ ∧ _))

/-! ### The run and its records -/

/-- Where a run can be failed no task has succeeded. -/
structure Clean (i : ℕ) (db : DB) : Prop where
  lifecycle : ∀ r, db.runs.get? i = some r → Lifecycle r
  fresh : ∀ r, db.runs.get? i = some r → r.status = .ready → r.startedAt = none →
    ∀ pos, db.done i pos = false
  failed : ∀ r, db.runs.get? i = some r → r.status = .failed → ∀ pos, db.done i pos = false

section

variable {db db' : DB} {e : Env} {c : Call} {y : Except Exc c.Reply} {i : ℕ} {st : List Said}

lemma clean_empty (i : ℕ) : Clean i {} where
  lifecycle := by
    rintro r ⟨⟩
  fresh := by
    rintro r ⟨⟩
  failed := by
    rintro r ⟨⟩

lemma done_failRun {error : String} {t : Option Time} {y : Except Exc Unit}
    (hx : (Call.failRun i error t).exec db e = some (db', y)) (pos : ℕ) :
    db'.done i pos = db.done i pos := by
  have hstep := exec_record hx i pos
  unfold DB.done
  generalize db.record i pos = o, db'.record i pos = o' at hstep
  cases hstep with
  | same => rfl
  | erased _ _ hgone => cases hgone

lemma done_of_made (hx : c.exec db e = some (db', y)) (he : db.erases i c = false)
    (hmade : about i (.db c) → (failOutline i).Made i (View.of i db st) (.db c)) :
    (View.of i db st).Working ∨ ∀ pos, db'.done i pos = db.done i pos := by
  cases hab : about i (.db c) with
  | false =>
    right
    intro pos
    rw [DB.done, DB.done, record_of_not_about hx hab he]
  | true =>
    rcases hmade hab with ⟨hw, -⟩ | ⟨-, hr⟩
    · exact .inl hw
    · cases hr
      exact .inr (done_failRun hx)

/-- **What a transaction of a history leaves.** -/
lemma Clean.exec (h : Clean i db) (hx : c.exec db e = some (db', y)) (he : db.erases i c = false)
    (habsent : db.runs.get? i = none → ∀ pos, db.done i pos = false)
    (hmade : about i (.db c) → (failOutline i).Made i (View.of i db st) (.db c))
    (hsweep : db.sweepsStarted i c = false) : Clean i db' := by
  have hrun := exec_run hx i
  have hdone := done_of_made hx he hmade
  have hlife := hrun.lifecycle h.lifecycle
  -- nobody executes a run that is neither running nor cancelled
  have hkept : ∀ st' : Option RunStatus, (db.runs.get? i).map RunRow.status = st' →
      st' ≠ some .running → st' ≠ some .cancelled → ∀ pos, db'.done i pos = db.done i pos := by
    intro st' hst' h₁ h₂
    rcases hdone with (hs | hs) | hsame
    · exact absurd (hst'.symm.trans hs) h₁
    · exact absurd (hst'.symm.trans hs) h₂
    · exact hsame
  refine ⟨hlife, fun r' hr' hs hstart pos => ?_, fun r' hr' hs pos => ?_⟩
  · rw [hr'] at hrun
    generalize ho : db.runs.get? i = o at hrun
    have hready : ∀ r, o = some r → r.status = .ready → r.startedAt = none →
        db'.done i pos = false := by
      rintro r rfl hs hstart
      rw [hkept (some .ready) (by rw [ho, Option.map_some, hs]) nofun nofun]
      exact h.fresh r ho hs hstart pos
    have hnew : o = none → db'.done i pos = false := by
      rintro rfl
      rw [hkept none (by rw [ho]; rfl) nofun nofun]
      exact habsent ho pos
    cases hrun with
    | same => exact hready r' rfl hs hstart
    | enqueued | created => exact hnew rfl
    | ctxSet r | progressSet r => exact hready r rfl hs hstart
    | retried r error t hrun =>
      have hstarted := ((h.lifecycle r ho).running hrun).2
      rw [show r.startedAt = none from hstart] at hstarted
      cases hstarted
    | renewed r w hw hrun =>
      rw [show r.status = .ready from hs] at hrun
      cases hrun
    | claimed | completed | failed | cancelled | jobCancelled | swept => cases hs
  · rw [hr'] at hrun
    generalize ho : db.runs.get? i = o at hrun
    have hfailed : ∀ r, o = some r → r.status = .failed → db'.done i pos = false := by
      rintro r rfl hs
      rw [hkept (some .failed) (by rw [ho, Option.map_some, hs]) nofun nofun]
      exact h.failed r ho hs pos
    cases hrun with
    | same => exact hfailed r' rfl hs
    | ctxSet r | progressSet r => exact hfailed r rfl hs
    | failed r error hrunning =>
      rw [done_failRun hx]
      rcases hmade (by simp [about]) with ⟨-, hasks⟩ | ⟨hsettled, -⟩
      · have hup : ¬ (View.of i db st).done pos := by
          rw [hasks error rfl pos]
          exact Nat.not_lt_zero pos
        simpa using hup
      · simp [View.Settled, View.of, ho, hrunning, RunStatus.isDone] at hsettled
    | swept r now cutoff pc hstale =>
      have hstart : r.startedAt = none := by
        simpa [DB.sweepsStarted, ho, hstale] using hsweep
      rw [hkept (some .ready) (by rw [ho, Option.map_some, hstale.1]) nofun nofun]
      exact h.fresh r ho hstale.1 hstart pos
    | renewed r w hw hrun =>
      rw [show r.status = .failed from hs] at hrun
      cases hrun
    | enqueued | created | claimed | completed | retried | cancelled | jobCancelled => cases hs

end

/-! ### Histories -/

section

variable {i : ℕ} {name : String} {m : ℤ} {cls : JobCls} {p : System}

lemma hasDone_of_done {db : DB} {pos : ℕ} (h : db.done i pos) : db.hasDone i := by
  obtain ⟨t, ht, hs⟩ := (Option.any_eq_true _ _).1 h
  have hm : t ∈ db.tasks.select (DB.At i pos) := List.mem_of_mem_head? ht
  obtain ⟨hrow, hi, -⟩ := Table.mem_select.1 hm
  exact List.any_eq_true.2 ⟨t, Table.mem_of_get? hrow, by simpa using ⟨hi, of_decide_eq_true hs⟩⟩

lemma failed_describes (h : p.Reached (Orderly i name m cls)) :
    (failOutline i).Describes i cls p := by
  refine Outline.solo (failOutline_sound i cls m) (fun _ _ hC => hC.1) ?_ ?_ h
  · intro p pid a r db' y hC hasks hclaimed hans hraise hopen pos
    have hquiet := hC.2.2
    have hnone : ∀ pos, p.shared.done i pos = false := by
      intro pos
      by_contra hd
      have hhas := hasDone_of_done (eq_true_of_ne_false hd)
      have hstory : (story i p.log).any (completes i) = false := hopen
      simp [interrupts, raising, hasks, hclaimed, hans, hraise, hhas, hstory] at hquiet
    simp [View.now, hnone]
  · intro p pid _ _ _ hw hopen
    exact ⟨hw.isSome, fun _ => hopen⟩

/-- **The run lemma.** -/
lemma clean_of_reached (h : p.Reached (Orderly i name m cls)) : Clean i p.shared := by
  induction h with
  | refl => exact clean_empty i
  | @tail p₁ p₂ hrun hmove ih =>
    obtain ⟨l, hC, hstep⟩ := hmove
    rcases System.step_cases hstep with hsame | ⟨pid, c, e, y, rfl, hasks, hx, hlog⟩
    · rwa [hsame]
    · have hdescribes : (failOutline i).Describes i cls p₂ :=
        failed_describes (Relation.ReflTransGen.tail hrun ⟨_, hC, hstep⟩)
      refine ih.exec hx (hC.1.erases hasks) (fun hnone pos => ?_)
        (fun hab => hdescribes.asks p₁.log _ [] hlog hab) ?_
      · have hstatus : (View.now i p₁.shared p₁.log).status = none := by
          simp [View.now, View.of, hnone]
        rcases (failed_describes hrun).holds with habsent | ⟨hsome, -⟩ | ⟨hw, -⟩
        · have hdone : (View.now i p₁.shared p₁.log).done pos = false := by
            rw [habsent]
            rfl
          simpa [View.now] using hdone
        · rw [hstatus] at hsome
          cases hsome
        · rcases hw with hs | hs <;> rw [hstatus] at hs <;> cases hs
      · have hsweep := hC.2.1
        simpa [committing, hasks] using hsweep

lemma onePer_of_reached {C : System → Act → Prop} (h : p.Reached C) : p.shared.OnePer i := by
  induction h with
  | refl => exact fun _ => Nat.zero_le _
  | tail _ hmove ih =>
    obtain ⟨l, -, hstep⟩ := hmove
    rcases System.step_cases hstep with hsame | ⟨pid, c, e, y, -, -, hx, -⟩
    · rwa [hsame]
    · exact exec_onePer hx ih

lemma done_of_succeeded {db : DB} (h₁ : db.OnePer i) {t : TaskRow} (ht : t ∈ db.tasks.rows)
    (hi : t.runId = i) (hs : t.status = .succeeded) : db.done i t.position := by
  have hm : t ∈ db.tasks.select (DB.At i t.position) :=
    Table.mem_select.2 ⟨Table.get?_of_mem ht, hi, rfl⟩
  have hone := h₁ t.position
  unfold DB.done DB.record
  generalize db.tasks.select (DB.At i t.position) = l at hm hone
  match l with
  | [t'] =>
    obtain rfl := List.mem_singleton.1 hm
    simp [hs]
  | _ :: _ :: _ => simp at hone

/-- The event is a batch of the sweep. -/
def Sweeps (ev : Ev) : Prop := ∃ now cutoff pc, ev.req = .db (.reconcileBatch now cutoff pc)

lemma swept_started (h : p.Reached (Orderly i name m cls)) {ev : Ev} (hev : ev ∈ p.log)
    (hsweeps : Sweeps ev) {r : RunRow} (hr : ev.pre.runs.get? i = some r)
    (hstart : r.startedAt.isSome) : ev.post.runs.get? i = some r := by
  obtain ⟨now, cutoff, pc, hreq⟩ := hsweeps
  obtain ⟨l₁, l₂, hlog⟩ := List.append_of_mem hev
  obtain ⟨p₁, p₂, f, -, hC, -, hacts, -, -, hpre, -, hpost⟩ := Pool.event_step h rfl hlog
  obtain ⟨pid, req, a, y, pre, post⟩ := ev
  dsimp only at hreq hr hC hacts hpre hpost ⊢
  subst hreq hpre hpost
  cases a with
  | commit e =>
    have hx : (Call.reconcileBatch now cutoff pc).exec p₁.shared e = some (p₂.shared, y) :=
      hacts.answered
    have hstep := exec_run hx i
    have hsweep : p₁.shared.sweepsStarted i (.reconcileBatch now cutoff pc) = false := by
      simpa [committing, hacts.pending] using hC.2.1
    rw [hr] at hstep
    generalize p₂.shared.runs.get? i = o at hstep
    cases hstep with
    | same => rfl
    | swept _ _ _ _ hstale =>
      rw [DB.sweepsStarted, hr, Option.any_some, decide_eq_false_iff_not] at hsweep
      exact absurd ⟨hstart, hstale⟩ hsweep
  | fail exc =>
    rw [← (Prod.mk.inj (Option.some.inj hacts.answered)).1]
    exact hr
  | _ => cases hacts.answered

/-- **A failed run leaves no completed task**, as long as the sweep does not meet it when it was
started and nothing raises while there is something to undo. Its executors follow one another, and
may be killed anywhere. -/
theorem failed_runs_undone (h : p.Reached (Orderly i name m cls)) :
    (∀ r, p.shared.runs.get? i = some r → r.status = .failed →
      ∀ t ∈ p.shared.tasks.rows, t.runId = i → t.status ≠ .succeeded) ∧
    ∀ ev ∈ p.log, Sweeps ev → ∀ r, ev.pre.runs.get? i = some r → r.startedAt.isSome →
      ev.post.runs.get? i = some r := by
  refine ⟨fun r hr hs t ht hi hsucc => ?_, fun ev hev hsweeps r hr hstart =>
    swept_started h hev hsweeps hr hstart⟩
  have hnot := (clean_of_reached h).failed r hr hs t.position
  rw [done_of_succeeded (onePer_of_reached h) ht hi hsucc] at hnot
  cases hnot

end

/-- A worker (process 1) does the first of two tasks, and starts the second one. -/
def firstDone (maxAttempts : ℕ) : List Act :=
  .spawn (.enqueue { job := "m.J", maxAttempts := maxAttempts } none) :: commits 0 1 0 ++
  .spawn (.worker (.knowing twoTasks "A")) :: reads 1 1 :: reads 1 1 :: commits 1 5 1 ++
  .act 1 (.ran (.ok .null) []) :: commits 1 3 2

/-- The second task raises. -/
def secondRaises : Act := .act 1 (.ran (.error (.other "OSError" "")) [])

/-- That was its only attempt. The first task is undone, and the run fails. -/
def givenUp : List Act :=
  firstDone 1 ++ secondRaises :: commits 1 3 3 ++ .act 1 (.undone none []) :: commits 1 2 4

theorem failed_runs_undone_givenUp : ∃ (p : System) (r : RunRow),
    System.init.play (Orderly 0 "m.J" 1 twoTasks) givenUp = some p ∧
    p.shared.runs.get? 0 = some r ∧ r.status = .failed ∧
    (p.shared.tasksOf 0).map TaskRow.status = [.compensated, .failed] ∧
    ∀ t ∈ p.shared.tasks.rows, t.runId = 0 → t.status ≠ .succeeded := by
  have hall : ((System.init.play (Orderly 0 "m.J" 1 twoTasks) givenUp).any fun p =>
      (p.shared.runs.get? 0).map RunRow.status = some .failed ∧
        (p.shared.tasksOf 0).map TaskRow.status = [.compensated, .failed]) = true := by decide
  obtain ⟨p, hp, hend⟩ := (Option.any_eq_true _ _).1 hall
  obtain ⟨hstatus, hrecords⟩ := of_decide_eq_true hend
  obtain ⟨r, hr, hs⟩ := Option.map_eq_some_iff.1 hstatus
  exact ⟨p, r, hp, hr, hs, hrecords, (failed_runs_undone (Pool.run_of_play hp)).1 r hr hs⟩

/-- The second task has another attempt, which is due at 5 s. Nobody claims the run, and a beat
(process 2) sweeps at 1000 s. -/
def sweptWhileWaiting : List Act :=
  firstDone 2 ++ secondRaises :: reads 1 5 :: commits 1 3 3 ++
  .spawn (.beat 300 none 1) :: reads 2 1000 :: .act 2 (.lastClaim (some (seconds 1))) ::
  commits 2 1 1000

/-- The first task has returned, and the write of the context raises. -/
def interrupted : List Act :=
  .spawn (.enqueue { job := "m.J" } none) :: commits 0 1 0 ++
  .spawn (.worker (.knowing twoTasks "A")) :: reads 1 1 :: reads 1 1 :: commits 1 5 1 ++
  .act 1 (.ran (.ok .null) []) :: commits 1 1 2 ++ .act 1 (.fail (.other "OperationalError" "")) ::
  commits 1 1 3

/-- The sweep fails a run that a worker has started, and the handler of an exception one whose first
task has succeeded. Nothing is undone. -/
theorem failed_run_not_undone :
    (∃ p : System, System.init.play (Solo 0 "m.J" 2 twoTasks) sweptWhileWaiting = some p ∧
      (p.shared.runs.get? 0).map (fun r => (r.status, r.startedAt.isSome)) = some (.failed, true) ∧
      (p.shared.tasksOf 0).map TaskRow.status = [.succeeded, .failed]) ∧
    ∃ p : System, System.init.play (Solo 0 "m.J" 3 twoTasks) interrupted = some p ∧
      (p.shared.runs.get? 0).map RunRow.status = some .failed ∧
      (p.shared.tasksOf 0).map TaskRow.status = [.succeeded] := by
  constructor
  · have hall : ((System.init.play (Solo 0 "m.J" 2 twoTasks) sweptWhileWaiting).any fun p =>
        (p.shared.runs.get? 0).map (fun r => (r.status, r.startedAt.isSome)) =
            some (.failed, true) ∧
          (p.shared.tasksOf 0).map TaskRow.status = [.succeeded, .failed]) = true := by decide
    obtain ⟨p, hp, hend⟩ := (Option.any_eq_true _ _).1 hall
    exact ⟨p, hp, of_decide_eq_true hend⟩
  · have hall : ((System.init.play (Solo 0 "m.J" 3 twoTasks) interrupted).any fun p =>
        (p.shared.runs.get? 0).map RunRow.status = some .failed ∧
          (p.shared.tasksOf 0).map TaskRow.status = [.succeeded]) = true := by decide
    obtain ⟨p, hp, hend⟩ := (Option.any_eq_true _ _).1 hall
    exact ⟨p, hp, of_decide_eq_true hend⟩

end Pyreljob
