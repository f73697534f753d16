import Pyreljob.System.Deleting
import Pyreljob.System.Failed
import Pyreljob.System.Footprint
import Pyreljob.System.Undoing

/-!
Which undos are reported.

A compensation calls `undo` and then marks the record as compensated. `JobManager.undo` does so only if
the call has returned. `Worker._compensate` catches what the call raises, and marks the record in any
case, so that a later `JobManager.undo` does not find what could not be undone.
-/

namespace Pyreljob

open Lib

/-! ### What comes before a mark -/

def Returned (i pos : ℕ) (l : List Said) : Prop := ∃ ctx state, ⟨.undo i pos ctx, .ok (none, state)⟩ ∈ l

def HasRaised (l : List Said) : Prop :=
  ∃ i pos ctx exc state, ⟨.undo i pos ctx, .ok (some exc, state)⟩ ∈ l

def Kind.isWorker : Kind → Bool
  | worker _ => true
  | _ => false

/-- What a process remembers: whether it is a worker, and all it has heard. -/
def hears (c : Bool × List Said) (r : Req) (y : Except Exc r.Reply) : Bool × List Said :=
  (c.1, c.2 ++ [⟨r, y⟩])

/-- A process marks a record only after an `undo` for it has returned; but a worker may have had one
raise. -/
def MarksUndone (c : Bool × List Said) : Req → Prop
  | .db (.compensateTask i pos) => Returned i pos c.2 ∨ (c.1 ∧ HasRaised c.2)
  | _ => True

section

variable {c : Bool × List Said}

lemma returned_hears (i pos : ℕ) (ctx : TaskContext) (state : Dict Value) :
    Returned i pos (hears c (.undo i pos ctx) (.ok (none, state))).2 :=
  ⟨ctx, state, List.mem_append_right _ (List.mem_singleton_self _)⟩

lemma raised_hears (i pos : ℕ) (ctx : TaskContext) (exc : Exc) (state : Dict Value) :
    HasRaised (hears c (.undo i pos ctx) (.ok (some exc, state))).2 :=
  ⟨i, pos, ctx, exc, state, List.mem_append_right _ (List.mem_singleton_self _)⟩

lemma compensateFrom_marks (runId : ℕ) (cls : JobCls) (records : List TaskRow) (ctx : TaskContext) :
    (Worker.compensateFrom runId cls records ctx).Within (fun c r y c' => c' = hears c r y) MarksUndone
      fun c => c.1 = true := by
  induction records generalizing ctx with
  | nil => exact .ret _
  | cons record records ih =>
    unfold Worker.compensateFrom
    split
    · exact ih ctx
    · split
      · exact .ret _
      · intro c hc
        refine .call_bind trivial (fun e c' hmove => hmove ▸ hc) fun undone c' hmove => ?_
        obtain ⟨raised, state⟩ := undone
        have hmarks : MarksUndone c' (.db (.compensateTask runId record.position)) := by
          rw [hmove]
          cases raised with
          | none => exact .inl (returned_hears ..)
          | some exc => exact .inr ⟨hc, raised_hears ..⟩
        have hc' : c'.1 = true := hmove ▸ hc
        exact .call_bind hmarks (fun e c'' hmove' => hmove' ▸ hc') fun _ c'' hmove' =>
          ih _ c'' (hmove' ▸ hc')

lemma worker_marks (w : Worker) : w.tick.Within (fun c r y c' => c' = hears c r y) MarksUndone
    fun c => c.1 = true := by
  refine Kind.tick_within ⟨?_, ?_, fun runId cls ctx => ?_⟩ w
  · rintro c r y _ hc rfl
    exact hc
  · intro c r _ _ hplain
    cases r with
    | db call =>
      cases call with
      | compensateTask => exact hplain.elim
      | _ => trivial
    | _ => trivial
  · refine .ask (fun _ _ => trivial) ?_ fun records _ _ _ _ => compensateFrom_marks runId cls _ ctx
    rintro c y _ hc rfl
    exact hc

lemma undoFrom_marks (runId : ℕ) (cls : JobCls) (records : List TaskRow) (ctx : TaskContext) :
    (JobManager.undoFrom runId cls records ctx).Within (fun c r y c' => c' = hears c r y) MarksUndone
      fun _ => True := by
  induction records generalizing ctx with
  | nil => exact .ret _
  | cons record records ih =>
    unfold JobManager.undoFrom
    split
    · exact ih ctx
    · split
      · exact .ret _
      · intro c _
        refine .call_bind trivial (fun _ _ _ => trivial) fun undone c' hmove => ?_
        obtain ⟨_ | exc, state⟩ := undone
        · have hmarks : MarksUndone c' (.db (.compensateTask runId record.position)) :=
            hmove ▸ .inl (returned_hears ..)
          exact .call_bind hmarks (fun _ _ _ => trivial) fun _ c'' _ => ih _ c'' trivial
        · trivial

lemma undo_marks (resolve : String → Option JobCls) (jobId : ℕ) :
    (JobManager.undo resolve jobId).Within (fun c r y c' => c' = hears c r y) MarksUndone
      fun _ => True := by
  refine .ask (fun _ _ => trivial) (fun _ _ _ _ _ => trivial) fun record _ _ _ _ => ?_
  cases record with
  | none => exact .ret _
  | some record =>
    refine .ask (fun _ _ => trivial) (fun _ _ _ _ _ => trivial) fun runs _ _ _ _ => ?_
    cases runs with
    | nil => exact .ret _
    | cons run runs =>
      dsimp only
      split
      · exact .ret _
      · exact .ask (fun _ _ => trivial) (fun _ _ _ _ _ => trivial) fun records _ _ _ _ =>
          undoFrom_marks _ _ _ _

lemma kind_marks (k : Kind) : Pool.InPhase (fun c r y c' => c' = hears c r y) MarksUndone
    (fun _ => True) k.program (k.isWorker, []) := by
  have hother : (∀ i pos, ¬ k.May (.db (.compensateTask i pos))) →
      Pool.InPhase (fun c r y c' => c' = hears c r y) MarksUndone (fun _ => True) k.program
        (k.isWorker, []) := by
    intro hnot
    have hok : ∀ (c : Bool × List Said) r, True → k.May r → MarksUndone c r := by
      intro c r _ hr
      cases r with
      | db call =>
        cases call with
        | compensateTask i pos => exact absurd hr (hnot i pos)
        | _ => trivial
      | _ => trivial
    exact ((Kind.asks_may k).within hok (fun _ _ _ _ _ _ => trivial) _ trivial).mono
      fun _ _ _ => trivial
  cases k with
  | worker w => exact (worker_marks w (true, []) rfl).mono fun _ _ _ => trivial
  | undo resolve jobId => exact undo_marks resolve jobId _ trivial
  | _ => exact hother fun _ _ => id

lemma watch_hears (p : System) (pid : ℕ) :
    p.watch hears (fun k => (k.isWorker, [])) pid =
      (p.kind? pid).map fun k => (k.isWorker, Pool.said pid p.log) := by
  have hfold : ∀ (l : List Said) (c : Bool × List Said),
      l.foldl (fun c x => hears c x.1 x.2) c = (c.1, c.2 ++ l) := by
    intro l
    induction l with
    | nil => simp
    | cons x l ih =>
      intro c
      rw [List.foldl_cons, ih, hears, List.append_assoc]
      rfl
  unfold Pool.watch
  simp [hfold]

end

/-- No `undo` that a worker calls raises. -/
def WorkersUndo (p : System) : Act → Prop
  | .act pid (.undone (some _) _) => (p.kind? pid).any Kind.isWorker = false
  | _ => True

instance (p : System) : (l : Act) → Decidable (WorkersUndo p l)
  | .act _ (.undone (some _) _) => inferInstanceAs (Decidable (_ = false))
  | .spawn _ | .crash _ | .act _ (.fail _) | .act _ (.time _) | .act _ (.lastClaim _)
  | .act _ (.ran _ _) | .act _ (.undone none _) | .act _ (.next _) | .act _ (.commit _) => .isTrue trivial

section

variable {p : System} {pid i pos : ℕ}

lemma not_raised (h : p.Reached WorkersUndo) {k : Kind} (hk : p.kind? pid = some k)
    (hworker : k.isWorker) : ¬ HasRaised (Pool.said pid p.log) := by
  rintro ⟨i, pos, ctx, exc, state, hsaid⟩
  obtain ⟨⟨pid', r, a, y, db, db'⟩, hev, rfl, heq⟩ := Pool.mem_of_said hsaid
  cases heq
  obtain ⟨l₁, l₂, hlog⟩ := List.append_of_mem hev
  obtain ⟨p₁, p₂, f, h₁, hC, hstep, hact, hrest, -⟩ := Pool.event_step h rfl hlog
  obtain ⟨k', hk'⟩ : ∃ k', p₁.kind? pid' = some k' := by
    obtain ⟨k', hk', -⟩ := System.may_of_pending h₁ hact.pending
    exact ⟨k', hk'⟩
  have hlater := hrest.kind? (Pool.kind?_stays hstep hk')
  obtain rfl := Option.some.inj (hk.symm.trans hlater)
  have hans := hact.answered
  cases a with
  | undone raised state' =>
    obtain ⟨rfl, -⟩ := Prod.mk.inj (Except.ok.inj (Prod.mk.inj (Option.some.inj hans)).2)
    have hnot : (p₁.kind? pid').any Kind.isWorker = false := hC
    rw [hk', Option.any_some, hworker] at hnot
    cases hnot
  | _ => cases hans

/-- **Before a mark an `undo` has returned.** -/
lemma returned_before (h : p.Reached WorkersUndo)
    (hr : p.pending pid = some (.db (.compensateTask i pos))) :
    Returned i pos (Pool.said pid p.log) := by
  obtain ⟨f, hf⟩ := Pool.prog?_of_pending hr
  have hwatched : ∃ c, p.watch hears (fun k => (k.isWorker, [])) pid = some c ∧
      Pool.InPhase (fun c r y c' => c' = hears c r y) MarksUndone (fun _ => True)
        (.ask (.db (.compensateTask i pos)) f) c :=
    Pool.watched (A := fun c r y c' => c' = hears c r y) (fun _ _ _ => rfl)
      (fun _ k _ => kind_marks k) h rfl rfl hf
  obtain ⟨c, hc, hkeeps⟩ := hwatched
  rw [watch_hears] at hc
  obtain ⟨k, hk, rfl⟩ := Option.map_eq_some_iff.1 hc
  rcases hkeeps.1 with hreturned | ⟨hworker, hraised⟩
  · exact hreturned
  · exact absurd hraised (not_raised h hk hworker)

end

/-! ### A mark -/

/-- A record of the run at the position becomes compensated. -/
def Marks (i pos : ℕ) (ev : Ev) : Prop :=
  ∃ k t', ev.post.tasks.get? k = some t' ∧ t'.runId = i ∧ t'.position = pos ∧
    t'.status = .compensated ∧ ∀ t, ev.pre.tasks.get? k = some t → t.status ≠ .compensated

/-- **A mark comes after an `undo` that has returned**, made by the same process. -/
lemma mark_after_undo {p : System} (h : p.Reached WorkersUndo) {l₁ l₂ : List Ev} {ev : Ev}
    (hlog : p.log = l₁ ++ ev :: l₂) {i pos : ℕ} (hmarks : Marks i pos ev) :
    ∃ ctx a state db db', (⟨ev.pid, .undo i pos ctx, a, .ok (none, state), db, db'⟩ : Ev) ∈ l₁ := by
  obtain ⟨p₁, p₂, f, h₁, -, hstep, hact, -, hl₁, hpre, hl₂, hpost⟩ := Pool.event_step h rfl hlog
  obtain ⟨k, t', ht', rfl, rfl, hmark, hnot⟩ := hmarks
  rcases System.step_cases hstep with hsame | ⟨pid, c, e, y, -, hasks, hx, hlog₂⟩
  · rw [← hpost, hsame, hpre] at ht'
    exact absurd hmark (hnot t' ht')
  · rw [hl₁, hl₂] at hlog₂
    obtain rfl := List.singleton_inj.1 (List.append_cancel_left hlog₂)
    rw [hpre] at hx
    rw [← hpost] at ht'
    have hrow := exec_task hx k
    rw [ht'] at hrow
    rcases hrow.marked hmark with ⟨t, ht, hs⟩ | rfl
    · exact absurd hs (hnot t ht)
    · obtain ⟨ctx, state, hsaid⟩ := returned_before h₁ hasks
      rw [hl₁] at hsaid
      obtain ⟨a, db₀, db₁, hev⟩ := event_of_said hsaid
      exact ⟨ctx, a, state, db₀, db₁, hev⟩

/-! ### One run -/

/-- What `_compensate` makes of the calls: none of them raises. -/
def Undos.caught (script : Undos) : Undos := fun n => (none, (script n).2)

def Undos.Done (script : Undos) (calls : List ℕ) (pos : ℕ) : Prop :=
  ∃ n, calls[n]? = some pos ∧ (script n).1 = none

def undoings (resolve : String → Option JobCls) (j : ℕ) (script : Undos) (clock : ℕ → Time) :
    ℕ → DB × List ℕ → DB × List ℕ
  | 0, s => s
  | m + 1, s => undoings resolve j script clock m
      ((JobManager.undo resolve j).alone (scripted script clock) s).1

/-- What the compensation of a run leaves, and the calls of `undo` that it has made. -/
def compensation (cls : JobCls) (run : RunRow) (ctx : TaskContext) (script : Undos) (clock : ℕ → Time)
    (db : DB) : DB × List ℕ :=
  ((Worker.compensate run.id cls ctx).alone (scripted script clock) (db, [])).1

/-- **What cannot be undone is not reported.** After the compensation and any number of calls of
`JobManager.undo`, a record has become compensated only if an `undo` for it has returned, and the next
call makes those for the tasks which had succeeded and for which none has, last one first. -/
structure ReportsUndone (resolve : String → Option JobCls) (j : ℕ) (cls : JobCls) (run : RunRow)
    (ctx : TaskContext) (script : Undos) (clock : ℕ → Time) (db : DB) : Prop where
  marked : ∀ m k t t', db.tasks.get? k = some t → t.status ≠ .compensated →
    (undoings resolve j script clock m (compensation cls run ctx script clock db)).1.tasks.get? k =
      some t' → t'.status = .compensated → t.runId = run.id ∧ script.Done
      (undoings resolve j script clock m (compensation cls run ctx script clock db)).2 t.position
  left : ∀ m, ∃ ps : List ℕ, ps.Pairwise (· > ·) ∧
    (∀ pos, pos ∈ ps ↔ pos ∈ succeeded (db.tasksOf run.id) ∧ ¬ script.Done
      (undoings resolve j script clock m (compensation cls run ctx script clock db)).2 pos) ∧
    (JobManager.undo resolve j).alone (scripted script clock)
        (undoings resolve j script clock m (compensation cls run ctx script clock db)) =
      unwind script clock run.id ps
        (undoings resolve j script clock m (compensation cls run ctx script clock db))

section

variable {resolve : String → Option JobCls} {j i : ℕ} {job : JobRow} {cls : JobCls} {run : RunRow}
  {db : DB} {script : Undos} {clock : ℕ → Time}

lemma compensateFrom_alone {records : List TaskRow}
    (hwithin : ∀ t ∈ records, t.position < cls.tasks.length) (ctx : TaskContext) (db : DB)
    (calls : List ℕ) : ∃ ctx',
      (Worker.compensateFrom i cls records ctx).alone (scripted script clock) (db, calls) =
        ((unwind script.caught clock i
          ((records.filter fun t => t.status = .succeeded).map TaskRow.position) (db, calls)).1,
          .ok ctx') := by
  induction records generalizing ctx db calls with
  | nil => exact ⟨ctx, rfl⟩
  | cons record records ih =>
    obtain ⟨hpos, hrest⟩ := List.forall_mem_cons.1 hwithin
    unfold Worker.compensateFrom
    by_cases hs : record.status = .succeeded
    · have htask : Worker.taskForRecord record cls = .ok cls.tasks[record.position] := by
        simp [Worker.taskForRecord, hpos]
      rw [if_neg (not_not.2 hs), htask, List.filter_cons_of_pos (by simpa using hs), List.map_cons,
        unwind]
      dsimp only
      rw [Prog.alone_call_bind (scripted_undo record.position ctx),
        Prog.alone_call_bind (scripted_compensateTask record.position), List.length_append,
        List.length_singleton]
      exact ih hrest _ _ _
    · rw [if_pos hs, List.filter_cons_of_neg (by simpa using hs)]
      exact ih hrest ctx db calls

/-- **What a compensation does**: it calls `undo` for every record that has succeeded, and whatever
the calls do, it marks them all. -/
lemma compensation_alone (h : CanUndo resolve j job cls run db) (ctx : TaskContext) (script : Undos)
    (clock : ℕ → Time) : ∃ db₁,
      compensation cls run ctx script clock db = (db₁, succeeded (db.tasksOf run.id)) ∧
      CanUndo resolve j job cls run db₁ ∧ succeeded (db₁.tasksOf run.id) = [] ∧
      Marked (fun t => t.runId = run.id ∧ t.status = .succeeded) db db₁ := by
  have htasks : scripted script clock (db, []) (.db (.tasksOf run.id)) =
      ((db, []), .ok (db.tasksOf run.id)) := rfl
  have hloop : ∃ ctx', (Worker.compensateFrom run.id cls (db.tasksOf run.id).reverse ctx).alone
      (scripted script clock) (db, []) =
        ((unwind script.caught clock run.id (succeeded (db.tasksOf run.id)) (db, [])).1, .ok ctx') :=
    compensateFrom_alone (fun t ht => h.inList t (List.mem_reverse.1 ht)) ctx db []
  obtain ⟨ctx', hloop⟩ := hloop
  have hstate : compensation cls run ctx script clock db =
      (unwind script.caught clock run.id (succeeded (db.tasksOf run.id)) (db, [])).1 := by
    unfold compensation Worker.compensate
    rw [Prog.alone_call_bind htasks, hloop]
  rcases unwind_cases script.caught clock run.id (succeeded (db.tasksOf run.id)) db [] with
    ⟨db₁, heq, -, hmarked, hone⟩ | ⟨_, _, _, _, _, -, -, -, hexc, -⟩
  · refine ⟨db₁, ?_, h.after hmarked (hone h.one), ?_, ?_⟩
    · rw [hstate, heq, List.nil_append]
    · exact succeeded_after h.one (hone h.one) (List.append_nil _).symm hmarked
    · simpa using marked_succeeded (Q := fun _ => True) h.one (by simp) hmarked
  · cases hexc

/-- Where nothing is left, no call of `JobManager.undo` does anything. -/
lemma undoings_nothing (h : CanUndo resolve j job cls run db)
    (hleft : succeeded (db.tasksOf run.id) = []) (script : Undos) (clock : ℕ → Time) (calls : List ℕ)
    (m : ℕ) : undoings resolve j script clock m (db, calls) = (db, calls) := by
  induction m with
  | zero => rfl
  | succ m ih =>
    rw [undoings, undo_alone h, hleft]
    exact ih

/-- A position is called once, so that what has returned is the call at its place. -/
lemma done_succeeded (h₁ : db.OnePer i) {n pos : ℕ} (hn : (succeeded (db.tasksOf i))[n]? = some pos) :
    script.Done (succeeded (db.tasksOf i)) pos ↔ (script n).1 = none := by
  constructor
  · rintro ⟨n', hn', hnone⟩
    have hnodup : (succeeded (db.tasksOf i)).Nodup := (sorted_succeeded h₁).imp fun hgt => hgt.ne'
    have hlt : n < (succeeded (db.tasksOf i)).length := (List.getElem?_eq_some_iff.1 hn).1
    obtain rfl := (List.getElem?_inj hlt hnodup).1 (hn.trans hn'.symm)
    exact hnone
  · exact fun hnone => ⟨n, hn, hnone⟩

/-- **A compensation reports what could not be undone exactly if an `undo` raises.** -/
lemma reportsUndone_iff (h : CanUndo resolve j job cls run db) (ctx : TaskContext) (script : Undos)
    (clock : ℕ → Time) : ReportsUndone resolve j cls run ctx script clock db ↔
      ∀ n < (succeeded (db.tasksOf run.id)).length, (script n).1 = none := by
  obtain ⟨db₁, hcomp, hcan, hleft, hmarked⟩ := compensation_alone h ctx script clock
  have hafter : ∀ m, undoings resolve j script clock m (compensation cls run ctx script clock db) =
      (db₁, succeeded (db.tasksOf run.id)) := fun m => by
    rw [hcomp, undoings_nothing hcan hleft]
  constructor
  · intro hreports n hn
    have hat : (succeeded (db.tasksOf run.id))[n]? = some (succeeded (db.tasksOf run.id))[n] :=
      List.getElem?_eq_getElem hn
    obtain ⟨k, t, ht, hi, hs, hpos⟩ := mem_succeeded.1 (List.getElem_mem hn)
    obtain ⟨now, ht'⟩ := hmarked.marked k t ht ⟨hi, hs⟩
    have hdone := (hreports.marked 0 k t _ ht (by simp [hs]) (by rw [hafter]; exact ht') rfl).2
    rw [hafter] at hdone
    exact (done_succeeded h.one (hpos ▸ hat)).1 hdone
  · intro hnone
    have hdone : ∀ pos ∈ succeeded (db.tasksOf run.id),
        script.Done (succeeded (db.tasksOf run.id)) pos := by
      intro pos hpos
      obtain ⟨n, hn, rfl⟩ := List.getElem_of_mem hpos
      exact ⟨n, List.getElem?_eq_getElem hn, hnone n hn⟩
    refine ⟨fun m k t t' ht hs ht' hmark => ?_, fun m => ⟨[], .nil, fun pos => ?_, ?_⟩⟩
    · rw [hafter] at ht' ⊢
      obtain ⟨t₀, ht₀, ⟨hin, -⟩ | ⟨-, rfl⟩⟩ := hmarked.before ht'
      · obtain rfl := Option.some.inj (ht.symm.trans ht₀)
        exact ⟨hin.1, hdone _ (mem_succeeded.2 ⟨k, t, ht, hin.1, hin.2, rfl⟩)⟩
      · obtain rfl := Option.some.inj (ht.symm.trans ht₀)
        exact absurd hmark hs
    · rw [hafter]
      simp only [List.not_mem_nil, false_iff, not_and, not_not]
      exact hdone pos
    · rw [hafter, undo_alone hcan, hleft]

end

/-- **What cannot be undone is not reported, exactly as long as no `undo` raises that a worker calls.**
In every run of the system in which none does, a record becomes compensated only after an `undo` for
it has returned. And the compensation of a run, with the calls of `JobManager.undo` that follow it,
reports only what has been undone, and leaves the rest to the next call, exactly if none of the calls
that the compensation makes raises. -/
theorem only_undone_reported (p : System) :
    (p.Reached WorkersUndo → ∀ l₁ ev l₂ i pos, p.log = l₁ ++ ev :: l₂ → Marks i pos ev →
      ∃ ctx a state db db', (⟨ev.pid, .undo i pos ctx, a, .ok (none, state), db, db'⟩ : Ev) ∈ l₁) ∧
    ∀ resolve j job cls run db, CanUndo resolve j job cls run db → ∀ ctx script clock,
      (ReportsUndone resolve j cls run ctx script clock db ↔
        ∀ n < (succeeded (db.tasksOf run.id)).length, (script n).1 = none) :=
  ⟨fun h _ _ _ _ _ hlog hmarks => mark_after_undo h hlog hmarks,
    fun _ _ _ _ _ _ h ctx script clock => reportsUndone_iff h ctx script clock⟩

/-- The second of two tasks has raised in its only attempt, and `undo` for the first one returns. -/
def undoReturns : List Act :=
  firstDone 1 ++ secondRaises :: commits 1 3 3 ++ [.act 1 (.undone none [])]

/-- The first of two tasks has succeeded, and the second one has failed. -/
def firstSucceeded : DB where
  jobs := .single { id := 0, job := "m.J", createdAt := 0 }
  runs := .single { id := 0, jobId := 0, status := .running, createdAt := 0 }
  tasks := ⟨[{ id := 0, runId := 0, position := 0, taskName := "T", status := .succeeded, createdAt := 0 },
      { id := 1, runId := 0, position := 1, taskName := "U", status := .failed, createdAt := 0 }], 2,
    by decide, by decide⟩

lemma canUndo_firstSucceeded : CanUndo (fun _ => some twoTasks) 0 { id := 0, job := "m.J", createdAt := 0 }
    twoTasks { id := 0, jobId := 0, status := .running, createdAt := 0 } firstSucceeded where
  found := rfl
  resolves := rfl
  newest := rfl
  one := by
    intro pos
    rcases pos with _ | _ | pos <;> simp [firstSucceeded, Table.select, DB.At]
  inList := by decide

theorem only_undone_reported_undoReturns :
    (∃ (q p : System) (ev : Ev), System.init.play WorkersUndo undoReturns = some q ∧
      System.play WorkersUndo q (commits 1 1 4) = some p ∧ p.log = q.log ++ [ev] ∧ Marks 0 0 ev ∧
      ∃ ctx a state db db', (⟨ev.pid, .undo 0 0 ctx, a, .ok (none, state), db, db'⟩ : Ev) ∈ q.log) ∧
    ReportsUndone (fun _ => some twoTasks) 0 twoTasks
      { id := 0, jobId := 0, status := .running, createdAt := 0 } { jobId := 0, job := "m.J" }
      (fun _ => (none, [])) (fun n => seconds n) firstSucceeded := by
  constructor
  · have hall : ((System.init.play WorkersUndo undoReturns).any fun q =>
        (q.shared.tasks.get? 1).map TaskRow.status = some .succeeded ∧
          (System.play WorkersUndo q (commits 1 1 4)).any fun p =>
            (p.shared.tasks.get? 1).map (fun t => (t.runId, t.position, t.status)) =
              some (0, 0, .compensated)) = true := by decide
    obtain ⟨q, hq, hboth⟩ := (Option.any_eq_true _ _).1 hall
    obtain ⟨hbefore, hafter⟩ := of_decide_eq_true hboth
    obtain ⟨p, hp, hend⟩ := (Option.any_eq_true _ _).1 hafter
    obtain ⟨t, ht, hs⟩ := Option.map_eq_some_iff.1 hbefore
    obtain ⟨t', ht', heq⟩ := Option.map_eq_some_iff.1 (of_decide_eq_true hend)
    obtain ⟨hi, hpos, hs'⟩ := by simpa using heq
    have hrun : p.Reached WorkersUndo := (Pool.run_of_play hq).trans (Pool.run_of_play hp)
    have hstep : Pool.step answer Kind.program q (.act 1 (committed 4)) = some p := by
      simp only [System.play, commits, List.replicate, Pool.play] at hp
      split at hp
      · simpa using hp
      · cases hp
    obtain ⟨c, y, -, -, hlog⟩ := System.step_commit hstep
    have hmarks : Marks 0 0 ⟨1, .db c, committed 4, y, q.shared, p.shared⟩ := by
      refine ⟨1, t', ht', hi, hpos, hs', fun t₀ ht₀ => ?_⟩
      rw [← Option.some.inj (ht.symm.trans ht₀), hs]
      decide
    exact ⟨q, p, _, hq, hp, hlog, hmarks, (only_undone_reported p).1 hrun _ _ [] 0 0 hlog hmarks⟩
  · exact ((only_undone_reported System.init).2 _ 0 _ twoTasks _ firstSucceeded canUndo_firstSucceeded
      _ _ _).2
      fun n _ => rfl

/-- The second task has raised in its only attempt, and `undo` for the first one raises as well. The
run fails, and then a client (process 2) calls `JobManager.undo`. -/
def undoneInVain : List Act :=
  firstDone 1 ++ secondRaises :: commits 1 3 3 ++ .act 1 (.undone (some (.other "OSError" "")) []) ::
  commits 1 2 4 ++ .spawn (.undo (fun _ => some twoTasks) 0) :: commits 2 3 5

def returnsNone : Answer → Bool
  | .undone none _ => true
  | _ => false

def callsUndo : Req → Bool
  | .undo .. => true
  | _ => false

/-- The record is compensated although no `undo` has returned, and the client's call makes none. -/
theorem failed_undo_reported :
    (∃ p : System, System.init.play System.Any undoneInVain = some p ∧
      (p.shared.runs.get? 0).map RunRow.status = some .failed ∧
      (p.shared.tasks.get? 1).map TaskRow.status = some .compensated ∧
      (∀ ev ∈ p.log, ∀ state, ev.ans ≠ .undone none state) ∧
      p.kind? 2 = some (.undo (fun _ => some twoTasks) 0) ∧ p.pending 2 = none ∧
      ∀ ev ∈ p.log, ev.pid = 2 → ∀ i pos ctx, ev.req ≠ .undo i pos ctx) ∧
    ¬ ReportsUndone (fun _ => some twoTasks) 0 twoTasks
      { id := 0, jobId := 0, status := .running, createdAt := 0 } { jobId := 0, job := "m.J" }
      (fun _ => (some (.other "OSError" ""), [])) (fun n => seconds n) firstSucceeded := by
  constructor
  · have hall : ((System.init.play System.Any undoneInVain).any fun p =>
        (p.shared.runs.get? 0).map RunRow.status = some .failed ∧
          (p.shared.tasks.get? 1).map TaskRow.status = some .compensated ∧
          (p.log.all fun ev => !returnsNone ev.ans) ∧ (p.pending 2).isNone ∧
          p.log.all fun ev => !(ev.pid = 2 && callsUndo ev.req)) = true := by decide
    have hkind : (System.init.play System.Any undoneInVain).map (fun p => p.kind? 2) =
        some (some (.undo (fun _ => some twoTasks) 0)) := by rfl
    obtain ⟨p, hp, hend⟩ := (Option.any_eq_true _ _).1 hall
    obtain ⟨hrun, hmark, hnone, hends, hnot⟩ := of_decide_eq_true hend
    rw [hp, Option.map_some] at hkind
    refine ⟨p, hp, hrun, hmark, fun ev hev state heq => ?_, Option.some.inj hkind,
      Option.isNone_iff_eq_none.1 hends, fun ev hev hpid i pos ctx heq => ?_⟩
    · have hev' := List.all_eq_true.1 hnone ev hev
      simp [heq, returnsNone] at hev'
    · have hev' := List.all_eq_true.1 hnot ev hev
      simp [heq, hpid, callsUndo] at hev'
  · rw [reportsUndone_iff canUndo_firstSucceeded]
    intro hnone
    cases hnone 0 (by decide)

end Pyreljob
