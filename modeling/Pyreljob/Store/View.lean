import Pyreljob.Model.System
import Pyreljob.Store.Records

/-!
What a run is to the workers that execute it.

A `View` holds the columns and records of one run that an execution depends on, without keys and
times, together with the story of the run: what its executors asked about it and got back. A
transaction about the run moves its view by a function, `View.after`. Any other one leaves it
alone, but for the status, which a claim, a cancellation of the job or the sweep may change
(`View.Drift`).
-/

namespace Pyreljob

open Lib

/-- What counts about the record of a task. -/
structure Mark where
  status : TaskStatus
  attempts : ℕ
  result : Option Value
  error : Option String

def TaskRow.mark (t : TaskRow) : Mark := ⟨t.status, t.attempts, t.result, t.error⟩

/-- A request, and what came back. -/
abbrev Said := (r : Req) × Except Exc r.Reply

/-- The request is one about the run `i`, such as only those make who work on its tasks. -/
def about (i : ℕ) : Req → Bool
  | .db (.startTask runId _ _ _) | .db (.succeedTask runId _ _) | .db (.failTask runId _ _ _ _)
  | .db (.cancelTask runId _) | .db (.compensateTask runId _) | .db (.setRunCtx runId _)
  | .db (.completeRun runId _) | .db (.failRun runId _ _) | .db (.cancelRun runId)
  | .run runId _ _ _ | .undo runId _ _ => runId = i
  | _ => false

/-- What was said about the run. -/
def story (i : ℕ) (log : List Ev) : List Said :=
  (log.filter fun ev => about i ev.req).map fun ev => ⟨ev.req, ev.reply⟩

lemma story_concat (i : ℕ) (log : List Ev) (ev : Ev) :
    story i (log ++ [ev]) = if about i ev.req then story i log ++ [⟨ev.req, ev.reply⟩]
      else story i log := by
  unfold story
  by_cases h : about i ev.req <;> simp [List.filter_append, h]

/-- What the executions of a run have left in its records and its context. -/
structure Saga where
  mark : ℕ → Option Mark := fun _ => none
  ctx : Option CtxDict := none
  story : List Said := []

namespace Saga

/-- The task at the position has succeeded. -/
def done (s : Saga) (pos : ℕ) : Bool := (s.mark pos).any fun m => m.status = .succeeded

def put (s : Saga) (pos : ℕ) (m : Option Mark) : Saga :=
  { s with mark := Function.update s.mark pos m }

@[simp] lemma put_mark (s : Saga) (pos : ℕ) (m : Option Mark) (pos' : ℕ) :
    (s.put pos m).mark pos' = if pos' = pos then m else s.mark pos' := by
  simp [put, Function.update_apply]

def write (s : Saga) : Call → Saga
  | .startTask _ pos _ attempts => s.put pos (some ⟨.running, attempts, none, none⟩)
  | .succeedTask _ pos v => s.put pos ((s.mark pos).map fun m =>
      { m with status := .succeeded, result := some v, error := none })
  | .failTask _ pos error attempts _ => s.put pos ((s.mark pos).map fun m =>
      { m with status := .failed, error := some error, attempts := attempts })
  | .cancelTask _ pos => s.put pos ((s.mark pos).map fun m => { m with status := .cancelled })
  | .compensateTask _ pos => s.put pos ((s.mark pos).map fun m => { m with status := .compensated })
  | .setRunCtx _ ctx => { s with ctx := some ctx }
  | _ => s

/-- What a transaction about the run writes when it does not raise. -/
def writeOf (s : Saga) : (r : Req) → Except Exc r.Reply → Saga
  | .db c, .ok _ => s.write c
  | _, _ => s

/-- What an answered request about the run leaves. -/
def after (s : Saga) (r : Req) (y : Except Exc r.Reply) : Saga :=
  { s.writeOf r y with story := s.story ++ [⟨r, y⟩] }

section

variable (s : Saga) (i pos : ℕ)

lemma done_put (m : Option Mark) (pos' : ℕ) : (s.put pos m).done pos' =
    if pos' = pos then m.any fun m => m.status = .succeeded else s.done pos' := by
  unfold done
  rw [put_mark]
  split <;> rfl

lemma done_startTask (name : String) (n pos' : ℕ) :
    (s.after (.db (.startTask i pos name n)) (.ok ())).done pos' =
      if pos' = pos then false else s.done pos' := done_put s pos _ pos'

lemma done_succeedTask (v : Value) (pos' : ℕ) :
    (s.after (.db (.succeedTask i pos v)) (.ok ())).done pos' =
      if pos' = pos then (s.mark pos).isSome else s.done pos' := by
  refine (done_put s pos _ pos').trans ?_
  cases s.mark pos <;> rfl

lemma done_failTask (error : String) (n : ℕ) (t : Option Time) (pos' : ℕ) :
    (s.after (.db (.failTask i pos error n t)) (.ok ())).done pos' =
      if pos' = pos then false else s.done pos' := by
  refine (done_put s pos _ pos').trans ?_
  cases s.mark pos <;> rfl

lemma done_cancelTask (pos' : ℕ) : (s.after (.db (.cancelTask i pos)) (.ok ())).done pos' =
    if pos' = pos then false else s.done pos' := by
  refine (done_put s pos _ pos').trans ?_
  cases s.mark pos <;> rfl

lemma done_compensateTask (pos' : ℕ) : (s.after (.db (.compensateTask i pos)) (.ok ())).done pos' =
    if pos' = pos then false else s.done pos' := by
  refine (done_put s pos _ pos').trans ?_
  cases s.mark pos <;> rfl

end

end Saga

/-- What a run is to those who execute it. -/
structure View extends Saga where
  jobId : Option ℕ
  status : Option RunStatus
  result : Option Value
  error : Option String

namespace View

def of (i : ℕ) (db : DB) (story : List Said) : View where
  mark := fun pos => (db.record i pos).map TaskRow.mark
  ctx := (db.runs.get? i).bind RunRow.ctx
  story := story
  jobId := (db.runs.get? i).map RunRow.jobId
  status := (db.runs.get? i).map RunRow.status
  result := (db.runs.get? i).bind RunRow.result
  error := (db.runs.get? i).bind RunRow.error

@[simp] lemma of_done (i : ℕ) (db : DB) (story : List Said) (pos : ℕ) :
    (View.of i db story).done pos = db.done i pos := by
  simp only [Saga.done, DB.done, View.of, Option.any_map]
  rfl

/-- How a transaction about the run moves its status, if it does not raise. -/
def settle (v : View) : (r : Req) → Except Exc r.Reply → View
  | .db (.completeRun _ result), .ok _ =>
    if v.status = some .running then { v with status := some .succeeded, result := some result }
    else v
  | .db (.failRun _ error (some _)), .ok _ =>
    if v.status = some .running then { v with status := some .ready, error := some error } else v
  | .db (.failRun _ error none), .ok _ =>
    if v.status = some .running then { v with status := some .failed, error := some error } else v
  | .db (.cancelRun _), .ok _ => { v with status := some .cancelled }
  | _, _ => v

/-- How an answered request of the run's executor moves the view. -/
def after (i : ℕ) (v : View) (r : Req) (y : Except Exc r.Reply) : View :=
  if about i r then { v.settle r y with toSaga := v.toSaga.after r y } else v

lemma after_about {i : ℕ} {v : View} {r : Req} {y : Except Exc r.Reply} (h : about i r) :
    v.after i r y = { v.settle r y with toSaga := v.toSaga.after r y } := if_pos h

lemma after_not_about {i : ℕ} {v : View} {r : Req} {y : Except Exc r.Reply} (h : about i r = false) :
    v.after i r y = v := by
  simp [after, h]

/-- How the view of a run changes while none of its executors is answered. -/
inductive Drift : View → View → Prop
  | same (v : View) : Drift v v
  /-- The run is created. -/
  | created (v : View) (jobId : ℕ) (hv : v.status = none) :
      Drift v { v with ctx := none, jobId := some jobId, status := some .ready, result := none,
                       error := none }
  /-- Its job is cancelled. -/
  | cancelled (v : View) (hv : v.status.any RunStatus.inFlight) :
      Drift v { v with status := some .cancelled }
  /-- The sweep finds it abandoned. -/
  | swept (v : View) (hv : v.status = some .ready) :
      Drift v { v with status := some .failed, error := some DB.abandonedError }

end View

section

variable {db db' : DB} {e : Env} {c : Call} {y : Except Exc c.Reply} {i : ℕ} {st : List Said}

/-- An update of the record at one position, as the view sees it. -/
lemma of_update_at {pos : ℕ} {f : TaskRow → TaskRow} {g : Mark → Mark} (hf)
    (hat : ∀ t, (f t).runId = t.runId ∧ (f t).position = t.position)
    (hg : ∀ t, (f t).mark = g t.mark) :
    View.of i { db with tasks := db.tasks.update (DB.At i pos) f hf } st =
      { View.of i db st with
        toSaga := (View.of i db st).put pos (((View.of i db st).mark pos).map g) } := by
  have hmark : (fun pos' => (DB.record { db with tasks := db.tasks.update (DB.At i pos) f hf }
      i pos').map TaskRow.mark) = Function.update (fun pos' => (db.record i pos').map TaskRow.mark)
        pos (((db.record i pos).map TaskRow.mark).map g) := by
    funext pos'
    rw [record_update_at i pos hf hat, Function.update_apply]
    by_cases hp : pos' = pos
    · subst hp
      simp [hg, Function.comp_def]
    · simp [hp]
  simp only [View.of, hmark]
  rfl

lemma of_update_run {r : RunRow} {p : RunRow → Prop} [DecidablePred p] {f : RunRow → RunRow} (hf)
    (hr : db.runs.get? i = some r) :
    View.of i { db with runs := db.runs.update p f hf } st =
      { View.of i db st with
        ctx := if p r then (f r).ctx else r.ctx
        jobId := some (if p r then f r else r).jobId
        status := some (if p r then f r else r).status
        result := (if p r then f r else r).result
        error := (if p r then f r else r).error } := by
  by_cases hp : p r <;> simp [View.of, hr, hp, DB.record]

/-- **A transaction about a run moves its view by a function.** -/
theorem view_exec (h : c.exec db e = some (db', y)) (hc : about i (.db c)) (h₁ : db.OnePer i)
    (hr : (db.runs.get? i).isSome) :
    (∃ a, y = .ok a) ∧ View.of i db' (st ++ [⟨.db c, y⟩]) = (View.of i db st).after i (.db c) y := by
  obtain ⟨r, hr⟩ := Option.isSome_iff_exists.1 hr
  have hid := run_id_of_get? hr
  rw [View.after_about hc]
  cases c with
  | startTask runId pos name attempts =>
    obtain rfl : runId = i := by simpa [about] using hc
    obtain ⟨rfl, ⟨t, ht, hs, ha, hv, he⟩, hother⟩ := startTask_record h₁ h
    refine ⟨⟨_, rfl⟩, ?_⟩
    have hmark : (fun pos' => (db'.record runId pos').map TaskRow.mark) =
        Function.update (fun pos' => (db.record runId pos').map TaskRow.mark) pos
          (some ⟨.running, attempts, none, none⟩) := by
      funext pos'
      rw [Function.update_apply]
      split
      · rename_i hp
        rw [hp, ht]
        simp [TaskRow.mark, hs, ha, hv, he]
      · rename_i hp
        rw [hother pos' hp]
    simp only [View.of, hmark, (startTask_frame h).2]
    rfl
  | succeedTask runId pos v =>
    obtain rfl : runId = i := by simpa [about] using hc
    cases h
    exact ⟨⟨_, rfl⟩, of_update_at (fun _ => by rfl) (fun _ => by exact ⟨rfl, rfl⟩) fun _ => by rfl⟩
  | failTask runId pos error attempts retryAt =>
    obtain rfl : runId = i := by simpa [about] using hc
    cases h
    exact ⟨⟨_, rfl⟩, of_update_at (fun _ => by rfl) (fun _ => by exact ⟨rfl, rfl⟩) fun _ => by rfl⟩
  | cancelTask runId pos =>
    obtain rfl : runId = i := by simpa [about] using hc
    cases h
    exact ⟨⟨_, rfl⟩, of_update_at (fun _ => by rfl) (fun _ => by exact ⟨rfl, rfl⟩) fun _ => by rfl⟩
  | compensateTask runId pos =>
    obtain rfl : runId = i := by simpa [about] using hc
    cases h
    exact ⟨⟨_, rfl⟩, of_update_at (fun _ => by rfl) (fun _ => by exact ⟨rfl, rfl⟩) fun _ => by rfl⟩
  | setRunCtx runId ctx =>
    obtain rfl : runId = i := by simpa [about] using hc
    cases h
    refine ⟨⟨_, rfl⟩, (of_update_run _ hr).trans ?_⟩
    simp [View.of, hr, hid, View.settle, Saga.after, Saga.writeOf, Saga.write]
  | completeRun runId result =>
    obtain rfl : runId = i := by simpa [about] using hc
    cases h
    refine ⟨⟨_, rfl⟩, (of_update_run _ hr).trans ?_⟩
    by_cases hs : r.status = .running
    all_goals
      simp [View.of, hr, hid, View.settle, Saga.after, Saga.writeOf, Saga.write, hs]
  | failRun runId error retryAt =>
    obtain rfl : runId = i := by simpa [about] using hc
    cases h
    cases retryAt
    all_goals
      refine ⟨⟨_, rfl⟩, (of_update_run _ hr).trans ?_⟩
      by_cases hs : r.status = .running
      all_goals
        simp [View.of, hr, hid, View.settle, Saga.after, Saga.writeOf, Saga.write, hs]
  | cancelRun runId =>
    obtain rfl : runId = i := by simpa [about] using hc
    cases h
    refine ⟨⟨_, rfl⟩, (of_update_run _ hr).trans ?_⟩
    simp [View.of, hr, hid, View.settle, Saga.after, Saga.writeOf, Saga.write]
  | _ => cases hc

/-! ### Everybody else -/

/-- The records of a run are left alone by every transaction that is not about it and does not
delete it. -/
lemma record_of_not_about (h : c.exec db e = some (db', y)) (hc : about i (.db c) = false)
    (he : db.erases i c = false) (pos : ℕ) : db'.record i pos = db.record i pos := by
  have hstep := exec_record h i pos
  generalize db.record i pos = o, db'.record i pos = o' at hstep
  cases hstep with
  | same => rfl
  | erased _ _ hx => rw [he] at hx; cases hx
  | _ => simp [about] at hc

def wonRun (i : ℕ) : (r : Req) → Except Exc r.Reply → Option RunRow
  | .db (.claimRun runId _ _ _), .ok (some run) => if runId = i then some run else none
  | _, _ => none

/-- **What a transaction that is not about the run does to its view.** -/
theorem view_drift (h : c.exec db e = some (db', y)) (hc : about i (.db c) = false)
    (he : db.erases i c = false) (hw : wonRun i (.db c) y = none) :
    View.Drift (View.of i db st) (View.of i db' st) := by
  have hmark : ∀ pos, db'.record i pos = db.record i pos := record_of_not_about h hc he
  have hstep := exec_run h i
  unfold View.of
  simp only [hmark]
  generalize ho : db.runs.get? i = o, ho' : db'.runs.get? i = o' at hstep
  cases hstep with
  | same => exact .same _
  | enqueued spec t hi => exact .created _ _ rfl
  | created jobId t hi => exact .created _ _ rfl
  | claimed r w now le hr =>
    simp only [Call.exec, Option.some.injEq, Prod.mk.injEq] at h
    obtain ⟨rfl, rfl⟩ := h
    rcases claimRun_cases db i w now le with ⟨r', -, -, hy, -⟩ | ⟨-, hpost⟩
    · simp [wonRun, hy] at hw
    · rw [hpost, ho] at ho'
      rw [← Option.some.inj ho']
      exact .same _
  | renewed r w hw hr => exact .same _
  | jobCancelled r hr => exact .cancelled _ hr
  | swept r now cutoff pc hr => exact .swept _ (congrArg some hr.1)
  | progressSet r progress => exact .same _
  | jobDeleted r => simp [DB.erases, ho] at he
  | pruned r ids hi => simp [DB.erases, hi] at he
  | _ => simp [about] at hc

/-- **What winning a run does to its view.** -/
theorem view_claim {w : String} {now le : Time} {run : RunRow}
    (h : (Call.claimRun i w now le).exec db e = some (db', .ok (some run))) :
    (View.of i db st).status.any RunStatus.inFlight ∧ (View.of i db st).jobId = some run.jobId ∧
      run.id = i ∧ run.ctx = (View.of i db st).ctx ∧
      View.of i db' st = { View.of i db st with status := some .running, error := none } := by
  simp only [Call.exec, Option.some.injEq, Prod.mk.injEq, Except.ok.injEq] at h
  obtain ⟨rfl, hy⟩ := h
  rcases claimRun_cases db i w now le with ⟨r, hr, hc, hwon, hpost⟩ | ⟨hlost, -⟩
  · rw [hy, Option.some.injEq] at hwon
    subst hwon
    have hrecord : ∀ pos, (db.claimRun i w now le).1.record i pos = db.record i pos := fun _ => rfl
    refine ⟨?_, ?_, (run_id_of_get? hr : r.id = i), ?_, ?_⟩
    · rcases hc with ⟨hs, -⟩ | ⟨hs, -⟩ <;> simp [View.of, hr, hs, RunStatus.inFlight]
    · simp [View.of, hr, DB.claimed]
    · simp [View.of, hr, DB.claimed]
    · simp [View.of, hr, hpost, DB.claimed, hrecord]
  · rw [hy] at hlost
    cases hlost

/-! ### What the worker reads -/

/-- The positions of the records that have succeeded, last first. -/
def succeeded (records : List TaskRow) : List ℕ :=
  (records.reverse.filter fun t => t.status = .succeeded).map TaskRow.position

/-- The records are those of the run. -/
structure Saga.Reads (s : Saga) (records : List TaskRow) : Prop where
  /-- At each position there is the record the worker finds. -/
  mark : ∀ pos, (Worker.recordAt records pos).map TaskRow.mark = s.mark pos
  /-- Those that have succeeded stand in the order of their positions. -/
  sorted : (succeeded records).Pairwise (· > ·)
  mem : ∀ pos, pos ∈ succeeded records ↔ s.done pos

lemma nodup_positions (h₁ : db.OnePer i) : ((db.tasksOf i).map TaskRow.position).Nodup := by
  rw [List.nodup_iff_count_le_one]
  intro pos
  rw [List.count, List.countP_map, List.countP_eq_length_filter]
  have hfilter := filter_tasksOf h₁ pos
  refine le_trans (le_of_eq ?_) (h₁ pos)
  rw [← hfilter]
  exact congrArg List.length (List.filter_congr fun t _ => beq_eq_decide _ _)

lemma pairwise_tasksOf (h₁ : db.OnePer i) :
    (db.tasksOf i).Pairwise fun t t' => t.position < t'.position := by
  have hle : (db.tasksOf i).Pairwise fun t t' => t.position ≤ t'.position :=
    List.pairwise_insertionSort _ _
  have hne : (db.tasksOf i).Pairwise fun t t' => t.position ≠ t'.position :=
    List.pairwise_map.1 (nodup_positions h₁)
  exact (hle.and hne).imp fun h => lt_of_le_of_ne h.1 h.2

/-- **What the worker reads is what is there.** -/
theorem reads_tasksOf (h₁ : db.OnePer i) : (View.of i db st).Reads (db.tasksOf i) where
  mark := fun pos => by rw [recordAt_tasksOf h₁]; rfl
  sorted := by
    rw [succeeded, List.pairwise_map]
    exact (List.pairwise_reverse.2 (pairwise_tasksOf h₁)).filter _
  mem := by
    intro pos
    rw [View.of_done, DB.done, Option.any_eq_true]
    simp only [succeeded, List.mem_map, List.mem_filter, List.mem_reverse, decide_eq_true_iff,
      mem_tasksOf h₁]
    constructor
    · rintro ⟨t, ⟨ht, hs⟩, rfl⟩
      exact ⟨t, ht, hs⟩
    · rintro ⟨t, ht, hs⟩
      obtain rfl := (record_at ht).2
      exact ⟨t, ⟨ht, hs⟩, rfl⟩

end

end Pyreljob
