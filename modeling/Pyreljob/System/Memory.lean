import Pyreljob.System.Budget

/-!
What a run remembers.

The story of a run tells what its tasks have returned and in what state they have left the context.
The run itself remembers that in its column `ctx`, which the worker writes after every task, in a
transaction of its own. Another one has written the record of the task before. A worker that is
killed between the two leaves a task that has succeeded and is not started again, and whose result
nobody finds in the context.
-/

namespace Pyreljob

open Lib

lemma JobCls.Distinct.name_ne {cls : JobCls} (h : cls.Distinct) {j k : ℕ} {task task' : TaskCls}
    (hj : cls.tasks[j]? = some task) (hk : cls.tasks[k]? = some task') (hne : j ≠ k) :
    task.name ≠ task'.name := by
  intro hname
  have hj' : (cls.tasks.map TaskCls.name)[j]? = some task.name := by simp [hj]
  have hk' : (cls.tasks.map TaskCls.name)[k]? = some task'.name := by simp [hk]
  have hlt : j < (cls.tasks.map TaskCls.name).length := (List.getElem?_eq_some_iff.1 hj').1
  exact hne ((List.getElem?_inj hlt h).1 (by rw [hj', hk', hname]))

/-! ### What the story tells -/

/-- What the attempts at the tasks of a run have left. -/
structure Memory where
  /-- What the attempt has returned that has succeeded. -/
  results : ℕ → Option Value := fun _ => none
  /-- The state in which the last such attempt has left the context, or one that has failed since
  and whose state was written. -/
  state : Dict Value := []
  /-- An attempt that has ended, and which nothing has been written about yet. -/
  last : Option (Outcome × Dict Value) := none
  /-- The context was written after the last task that has succeeded. -/
  saved : Bool := true

def Memory.next (M : Memory) : Said → Memory
  | ⟨.db (.startTask ..), .ok _⟩ => { M with last := none }
  | ⟨.run _ _ _ _, .ok ended⟩ => { M with last := some ended }
  | ⟨.db (.succeedTask _ pos _), .ok _⟩ =>
    match M.last with
    | some (.ok v, state) =>
      { results := Function.update M.results pos (some v), state := state, last := none, saved := false }
    | _ => M
  | ⟨.db (.setRunCtx ..), .ok _⟩ =>
    match M.last with
    | some (.error _, state) => { M with state := state, last := none, saved := true }
    | _ => { M with last := none, saved := true }
  | _ => M

/-- What was said about the run, in one. -/
def memory (story : List Said) : Memory := story.foldl Memory.next {}

/-- The tasks before `k` have returned these results, and the last of them has left this state. -/
structure Memory.Holds (M : Memory) (cls : JobCls) (done : ℕ → Prop) (results state : Dict Value) :
    Prop where
  state : state = M.state
  results : ∀ pos task, done pos → cls.tasks[pos]? = some task →
    ∃ v, M.results pos = some v ∧ results.get? task.name = some v

namespace Saga

variable (cls : JobCls) (s : Saga)

/-- What the attempts so far have left. -/
def memory : Memory := Pyreljob.memory s.story

/-- The worker knows what the tasks have left that have succeeded. -/
def Knows (ctx : TaskContext) : Prop :=
  s.memory.Holds cls (fun pos => s.done pos) ctx.results ctx.state

/-- The run does. -/
def Kept : Prop :=
  s.memory.Holds cls (fun pos => s.done pos) ((s.ctx.map CtxDict.results).getD [])
    ((s.ctx.map CtxDict.state).getD [])

/-- The record of an attempt that has raised, and which nothing has been written about, does not say
that it has failed. -/
def Calm : Prop :=
  (∃ exc state, s.memory.last = some (.error exc, state)) →
    ∀ k mark, s.Upto k → s.mark k = some mark → mark.status ≠ .failed

end Saga

def memoryOutline (i : ℕ) (cls : JobCls) : Outline where
  hears := fun s r y => isUnhandled i r → y.isOk = false → s.memory.saved
  rests := fun v => (v.status.any RunStatus.inFlight → v.Kept cls ∧ v.Calm) ∧
    (v.status = some .succeeded → ∃ d, v.result = some (.dict d) ∧
      v.memory.Holds cls (fun _ => True) d v.memory.state)
  stops := fun s => (s.memory.saved → s.Kept cls) ∧ s.Calm
  asks := fun s r => ∀ pos n ctx, r = .run i pos n ctx → s.Upto pos ∧ s.Knows cls ctx
  enters := fun s => s.Kept cls ∧ s.Calm
  comes := fun _ ctx s => s.Kept cls ∧ s.Calm ∧ s.Knows cls ctx
  runs := fun _ ctx s => s.Kept cls ∧ s.memory.last = none ∧ s.Knows cls ctx
  undoes := fun _ _ s => s.Kept cls ∧ s.memory.last = none
  throws := fun s => (s.memory.saved → s.Kept cls) ∧ s.Calm

section

variable {i : ℕ} {m : ℤ} {cls : JobCls} {s s' : Saga} {r : Req} {y : Except Exc r.Reply}

lemma Saga.memory_after (s : Saga) (r : Req) (y : Except Exc r.Reply) :
    (s.after r y).memory = s.memory.next ⟨r, y⟩ := by
  change (s.story ++ [_]).foldl Memory.next {} = _
  rw [List.foldl_append]
  rfl

/-- The memory is that of before, and fewer tasks have succeeded. -/
lemma Memory.Holds.mono {M M' : Memory} {done done' : ℕ → Prop} {results state : Dict Value}
    (h : M.Holds cls done results state) (hs : M'.state = M.state) (hr : M'.results = M.results)
    (hd : ∀ pos, done' pos → done pos) : M'.Holds cls done' results state :=
  ⟨h.state.trans hs.symm, fun pos task hpos => hr ▸ h.results pos task (hd pos hpos)⟩

/-- Nothing that was remembered is touched. -/
structure Saga.Spares (s s' : Saga) : Prop where
  state : s'.memory.state = s.memory.state
  results : s'.memory.results = s.memory.results
  ctx : s'.ctx = s.ctx
  done : ∀ pos, s'.done pos → s.done pos

lemma Saga.Kept.spares (h : s.Kept cls) (hs : s.Spares s') : s'.Kept cls := by
  have := Memory.Holds.mono h hs.state hs.results hs.done
  rwa [Kept, hs.ctx]

lemma Saga.Knows.spares {ctx : TaskContext} (h : s.Knows cls ctx) (hs : s.Spares s') :
    s'.Knows cls ctx := Memory.Holds.mono h hs.state hs.results hs.done

lemma Saga.calm_of_last (h : s.memory.last = none) : s.Calm := by
  rintro ⟨exc, state, hlast⟩
  rw [h] at hlast
  cases hlast

lemma memory_closed {v : View} (h : v.status = some .cancelled ∨ v.status = some .failed) :
    (memoryOutline i cls).rests v := by
  refine ⟨fun hflight => ?_, fun hs => ?_⟩
  · rcases h with h | h <;> rw [h] at hflight <;> cases hflight
  · rcases h with h | h <;> rw [h] at hs <;> cases hs

lemma memory_open {v : View} (h : v.status ≠ some .succeeded) (hk : v.Kept cls) (hc : v.Calm) :
    (memoryOutline i cls).rests v := ⟨fun _ => ⟨hk, hc⟩, fun hs => absurd hs h⟩

lemma Saga.spares_after (hs : (s.memory.next ⟨r, y⟩).state = s.memory.state)
    (hr : (s.memory.next ⟨r, y⟩).results = s.memory.results) (hctx : (s.after r y).ctx = s.ctx)
    (hd : ∀ pos, (s.after r y).done pos → s.done pos) : s.Spares (s.after r y) where
  state := by rw [memory_after, hs]
  results := by rw [memory_after, hr]
  ctx := hctx
  done := hd

/-- A task is started, fails, is cancelled or undone: no task has succeeded by that. -/
lemma Saga.done_of_drop {k : ℕ} (h : ∀ pos, s'.done pos = if pos = k then false else s.done pos)
    (pos : ℕ) (hpos : s'.done pos) : s.done pos := by
  rw [h] at hpos
  split at hpos
  · cases hpos
  · exact hpos

lemma Saga.spares_quiet (hn : s.memory.next ⟨r, y⟩ = s.memory) (hctx : (s.after r y).ctx = s.ctx)
    (hmark : (s.after r y).mark = s.mark) : s.Spares (s.after r y) :=
  spares_after (by rw [hn]) (by rw [hn]) hctx fun pos hpos => by
    rwa [Saga.done, hmark] at hpos

lemma Memory.next_error (M : Memory) (c : Call) (e : Exc) : M.next ⟨.db c, .error e⟩ = M := by
  cases c <;> rfl

lemma Memory.next_unhandled (M : Memory) (y : Except Exc (Req.db (unhandled i)).Reply) :
    M.next ⟨.db (unhandled i), y⟩ = M := by
  cases y <;> rfl

lemma Memory.next_setRunCtx {M : Memory} {d : CtxDict}
    (h : ¬ ∃ exc state, M.last = some (.error exc, state)) :
    M.next ⟨.db (.setRunCtx i d), .ok ()⟩ = { M with last := none, saved := true } := by
  unfold Memory.next
  dsimp only
  split
  · rename_i exc state hlast
    exact absurd ⟨exc, state, hlast⟩ h
  · rfl

lemma Saga.Knows.kept {ctx : TaskContext}
    (h : (s.after (.db (.setRunCtx i ctx.asDict)) (.ok ())).Knows cls ctx) :
    (s.after (.db (.setRunCtx i ctx.asDict)) (.ok ())).Kept cls := h

/-- The task that has raised is the one that the worker stands at. -/
lemma Saga.calm_of_mark {k : ℕ} {mark : Mark} (hup : s.Upto k) (hmark : s.mark k = some mark)
    (hs : mark.status ≠ .failed) : s.Calm := by
  intro _ k' mark' hup' hmark'
  obtain rfl := hup.unique hup'
  obtain rfl := Option.some.inj (hmark.symm.trans hmark')
  exact hs

/-- An attempt has raised, and its state is written before its record. -/
lemma memory_fails {ctx : TaskContext} (pos n : ℕ) (exc : Exc) (state : Dict Value) (t : Option Time)
    (h : s.Kept cls ∧ s.memory.last = none ∧ s.Knows cls ctx) :
    let ctx' : TaskContext := { ctx with state := state }
    let s₁ := s.after (.run i pos n ctx) (.ok (.error exc, state))
    let s₂ := s₁.after (.db (.setRunCtx i ctx'.asDict)) (.ok ())
    let s₃ := s₂.after (.db (.failTask i pos exc.text n t)) (.ok ())
    s₁.Kept cls ∧ s₂.Kept cls ∧ s₃.Kept cls ∧ s₂.memory.last = none ∧ s₃.memory.last = none := by
  intro ctx' s₁ s₂ s₃
  have hm₁ : s₁.memory = { s.memory with last := some (.error exc, state) } := Saga.memory_after ..
  have hm₂ : s₂.memory = { s.memory with state := state, last := none, saved := true } := by
    rw [Saga.memory_after, hm₁]
    rfl
  have hm₃ : s₃.memory = s₂.memory := Saga.memory_after ..
  have hknows : s₂.Knows cls ctx' := ⟨by rw [hm₂], fun pos' task' hpos' htask' => by
    rw [hm₂]
    exact h.2.2.results pos' task' hpos' htask'⟩
  have hk₂ : s₂.Kept cls := hknows.kept
  refine ⟨h.1.spares (Saga.spares_after rfl rfl rfl fun _ => id), hk₂, hk₂.spares ?_, by rw [hm₂],
    by rw [hm₃, hm₂]⟩
  exact Saga.spares_after rfl rfl rfl (Saga.done_of_drop fun pos' => Saga.done_failTask ..)

/-- A task has returned, which is in its record and in the context: the worker knows it too. -/
lemma Saga.Knows.succeed {ctx : TaskContext} {pos n : ℕ} {task : TaskCls} (hd : cls.Distinct)
    (h : s.Knows cls ctx) (htask : cls.tasks[pos]? = some task) (v : Value) (state : Dict Value) :
    let ctx' := { ctx with state := state, results := ctx.results.set task.name v }
    let s₁ := s.after (.run i pos n ctx) (.ok (.ok v, state))
    let s₂ := s₁.after (.db (.succeedTask i pos v)) (.ok ())
    let s₃ := s₂.after (.db (.setRunCtx i ctx'.asDict)) (.ok ())
    s₂.memory = ⟨Function.update s.memory.results pos (some v), state, none, false⟩ ∧
      s₃.memory = ⟨Function.update s.memory.results pos (some v), state, none, true⟩ ∧
      s₃.Knows cls ctx' := by
  intro ctx' s₁ s₂ s₃
  have hm₁ : s₁.memory = { s.memory with last := some (.ok v, state) } := Saga.memory_after ..
  have hm₂ : s₂.memory = ⟨Function.update s.memory.results pos (some v), state, none, false⟩ := by
    rw [Saga.memory_after, hm₁]
    rfl
  have hm₃ : s₃.memory = ⟨Function.update s.memory.results pos (some v), state, none, true⟩ := by
    rw [Saga.memory_after, hm₂]
    rfl
  refine ⟨hm₂, hm₃, by rw [hm₃], fun pos' task' hpos' htask' => ?_⟩
  rw [hm₃]
  by_cases hp : pos' = pos
  · subst hp
    obtain rfl := Option.some.inj (htask.symm.trans htask')
    exact ⟨v, by simp, Dict.get?_set_self ..⟩
  · have hdone : s.done pos' := by
      have := (Saga.done_succeedTask s₁ i pos v pos').symm.trans hpos'
      rwa [if_neg hp] at this
    obtain ⟨w, hw, hget⟩ := h.results pos' task' hdone htask'
    refine ⟨w, (Function.update_of_ne hp _ _).trans hw, ?_⟩
    rw [← hget]
    exact Dict.get?_set_ne _ _ (hd.name_ne htask' htask hp)

/-- A run that is given up rests, whether it was cancelled before or not. -/
lemma View.status_givenUp {v : View} {error : String}
    (hw : v.status = some .running ∨ v.status = some .cancelled) :
    (v.settle (.db (.failRun i error none)) (.ok ())).status = some .cancelled ∨
      (v.settle (.db (.failRun i error none)) (.ok ())).status = some .failed := by
  rcases hw with hrunning | hcancelled
  · simp [View.settle, hrunning]
  · simp [View.settle, hcancelled]

lemma memoryOutline_sound (hd : cls.Distinct) : (memoryOutline i cls).Sound i cls m := by
  have hquiet : ∀ (s : Saga) (r : Req), (∀ pos n ctx, r ≠ .run i pos n ctx) →
      (memoryOutline i cls).asks s r := fun s r hr pos n ctx h => absurd h (hr pos n ctx)
  constructor
  case created =>
    intro j
    refine memory_open (fun hs => by cases hs) ⟨rfl, fun pos task hpos => ?_⟩ (Saga.calm_of_last rfl)
    cases hpos
  case cancelled | swept =>
    intro v _ _
    exact memory_closed (by simp)
  case claimed => exact fun v hv hflight => hv.1 hflight
  case enters_stops => exact fun s h => ⟨fun _ => h.1, h.2⟩
  case halts =>
    intro s h
    refine ⟨hquiet _ _ (by simp), fun v a _ _ => memory_closed (.inl ?_)⟩
    rw [View.after_about (by simp [about])]
    rfl
  case begins =>
    intro s k ctx h hup hfeeds _
    refine ⟨h.1, h.2, ?_⟩
    unfold Saga.Knows
    rw [hfeeds.results, hfeeds.state]
    exact h.1
  case recovers =>
    intro s k ctx task mark h hup hfeeds _ hmark hfailed _
    have hlast : ¬ ∃ exc state, s.memory.last = some (.error exc, state) :=
      fun hlast => h.2 hlast k mark hup hmark hfailed
    have hnext : s.memory.next ⟨.db (.setRunCtx i ctx.asDict), .ok ()⟩ = _ :=
      Memory.next_setRunCtx hlast
    refine ⟨hquiet _ _ (by simp), Saga.Knows.kept ?_, by rw [Saga.memory_after, hnext]⟩
    have hk := h.1
    unfold Saga.Kept at hk
    rw [← hfeeds.results, ← hfeeds.state] at hk
    refine Memory.Holds.mono hk ?_ ?_ fun _ => id
    all_goals rw [Saga.memory_after, hnext]
  case comes_stops => exact fun k ctx s h => ⟨fun _ => h.1, h.2.1⟩
  case starts =>
    intro s pos ctx task h _ _
    have hs := Saga.spares_after (s := s)
      (r := .db (.startTask i pos task.taskName (s.attempt pos))) (y := .ok ()) rfl rfl rfl
      (Saga.done_of_drop fun pos' => Saga.done_startTask ..)
    exact ⟨hquiet _ _ (by simp), h.1.spares hs, by rw [Saga.memory_after]; rfl, h.2.2.spares hs⟩
  case runs_point =>
    intro s pos ctx task n h hup _ hmark
    refine ⟨⟨fun _ => h.1, Saga.calm_of_last h.2.1⟩, ?_⟩
    rintro _ _ _ ⟨⟩
    exact ⟨hup, h.2.2⟩
  case succeeds =>
    intro s pos ctx task n v state h hup htask hmark _ ctx' s₁ s₂ s₃
    have hm₁ : s₁.memory = { s.memory with last := some (.ok v, state) } := Saga.memory_after ..
    have hk₁ : s₁.Kept cls := h.1.spares (Saga.spares_after rfl rfl rfl fun _ => id)
    obtain ⟨hm₂, hm₃, hknows⟩ := h.2.2.succeed (i := i) (n := n) hd htask v state
    refine ⟨⟨⟨fun _ => hk₁, ?_⟩, hquiet _ _ (by simp)⟩,
      ⟨⟨fun hsaved => ?_, Saga.calm_of_last (by rw [hm₂])⟩, hquiet _ _ (by simp)⟩, hknows.kept,
      Saga.calm_of_last (by rw [hm₃]), hknows⟩
    · rintro ⟨exc, state', hlast⟩
      rw [hm₁] at hlast
      cases hlast
    · rw [hm₂] at hsaved
      cases hsaved
  case cancels =>
    intro s pos ctx task n exc state h hup _ hmark _ _ s₁ s₂
    have hk₁ : s₁.Kept cls := h.1.spares (Saga.spares_after rfl rfl rfl fun _ => id)
    have hk₂ : s₂.Kept cls := hk₁.spares
      (Saga.spares_after rfl rfl rfl (Saga.done_of_drop fun pos' => Saga.done_cancelTask ..))
    have hmark₂ : s₂.mark pos = some ⟨.cancelled, n, none, none⟩ := by
      change (s.put pos ((s.mark pos).map _)).mark pos = _
      rw [Saga.put_mark, if_pos rfl, hmark]
      rfl
    have hup₂ : s₂.Upto pos := Saga.Upto.stay hup fun pos' => Saga.done_cancelTask s₁ i pos pos'
    refine ⟨⟨⟨fun _ => hk₁, Saga.calm_of_mark hup hmark (by simp)⟩, hquiet _ _ (by simp)⟩,
      ⟨fun _ => hk₂, Saga.calm_of_mark hup₂ hmark₂ (by simp)⟩, hquiet _ _ (by simp),
      fun v a _ _ => memory_closed (.inl ?_)⟩
    rw [View.after_about (by simp [about])]
    rfl
  case spends =>
    intro s pos ctx task n exc state h hup _ hmark _ _ _ ctx' s₁ s₂ s₃
    obtain ⟨hk₁, hk₂, hk₃, hlast⟩ := memory_fails (i := i) pos n exc state none h
    exact ⟨⟨⟨fun _ => hk₁, Saga.calm_of_mark hup hmark (by simp)⟩, hquiet _ _ (by simp)⟩,
      ⟨⟨fun _ => hk₂, Saga.calm_of_last hlast.1⟩, hquiet _ _ (by simp)⟩, hk₃, hlast.2⟩
  case retries =>
    intro s pos ctx task n exc state t h hup htask hmark _ _ _ ctx' s₁ s₂ s₃
    obtain ⟨hk₁, hk₂, hk₃, hlast₂, hlast₃⟩ := memory_fails (i := i) pos n exc state (some t) h
    have hcalm₁ : s₁.Calm := Saga.calm_of_mark hup hmark (by simp)
    refine ⟨⟨⟨fun _ => hk₁, hcalm₁⟩, hquiet _ _ (by simp)⟩,
      ⟨⟨fun _ => hk₂, Saga.calm_of_last hlast₂⟩, hquiet _ _ (by simp)⟩,
      ⟨fun _ => hk₃, Saga.calm_of_last hlast₃⟩, ⟨hquiet _ _ (by simp), fun v a hw hs => ?_⟩,
      fun _ _ => ⟨fun _ => hk₁, hcalm₁⟩⟩
    rw [View.after_about (by simp [about]), hs]
    refine memory_open ?_ (hk₃.spares (Saga.spares_quiet rfl rfl rfl))
      (Saga.calm_of_last (by rw [Saga.memory_after]; exact hlast₃))
    rcases hw with hrunning | hcancelled
    · simp [View.settle, hrunning]
    · simp [View.settle, hcancelled]
  case undo =>
    intro err k s ctx y h hup s₁
    have hk₁ : s₁.Kept cls := h.1.spares (Saga.spares_quiet rfl rfl rfl)
    have hlast₁ : s₁.memory.last = none := by
      rw [Saga.memory_after]
      exact h.2
    refine ⟨hquiet _ _ (by simp), ⟨⟨fun _ => hk₁, Saga.calm_of_last hlast₁⟩, hquiet _ _ (by simp)⟩,
      hk₁.spares ?_, by rw [Saga.memory_after]; exact hlast₁⟩
    exact Saga.spares_after rfl rfl rfl (Saga.done_of_drop fun pos => Saga.done_compensateTask ..)
  case undoes_stops => exact fun err k s h => ⟨fun _ => h.1, Saga.calm_of_last h.2⟩
  case fails =>
    intro err s h hup
    refine ⟨hquiet _ _ (by simp), fun v a hw _ => memory_closed ?_⟩
    rw [View.after_about (by simp [about])]
    exact View.status_givenUp hw
  case completes =>
    intro s ctx h hup
    refine ⟨hquiet _ _ (by simp), fun v a hw hs => ?_⟩
    rw [View.after_about (by simp [about]), hs]
    rcases hw with hrunning | hcancelled
    · refine ⟨fun hflight => ?_, fun _ => ⟨ctx.results, ?_, rfl, fun pos task _ htask => ?_⟩⟩
      · simp [View.settle, hrunning, RunStatus.inFlight] at hflight
      · simp [View.settle, hrunning]
      · have hlt : pos < cls.tasks.length := (List.getElem?_eq_some_iff.1 htask).1
        obtain ⟨v, hv, hget⟩ := h.2.2.results pos task ((hup pos).2 hlt) htask
        refine ⟨v, ?_, hget⟩
        change (s.after _ _).memory.results pos = _
        rw [Saga.memory_after]
        exact hv
    · exact memory_closed (.inl (by simp [View.settle, hcancelled]))
  case raises =>
    intro s c e h _
    have hm : (s.after (.db c) (.error e)).memory = s.memory := by
      rw [Saga.memory_after, Memory.next_error]
    split
    · refine ⟨fun hsaved => ?_, fun hlast => ?_⟩
      · exact (h.1 (hm ▸ hsaved)).spares (Saga.spares_quiet (Memory.next_error ..) rfl rfl)
      · exact h.2 (hm ▸ hlast)
    · exact h
  case throws_leaves =>
    intro s h
    refine ⟨h, hquiet _ _ (by simp), fun v a hw _ => memory_closed ?_⟩
    rw [View.after_about (by simp [about, unhandled])]
    exact View.status_givenUp hw
  case drops =>
    intro s e h hh v hw hs
    have hkept : s.Kept cls := h.1 (hh (by simp [isUnhandled, unhandled]) rfl)
    have hm : (s.after (.db (unhandled i)) (.error e)).memory = s.memory := Saga.memory_after ..
    rw [View.after_about (by simp [about, unhandled]), hs]
    refine memory_open ?_ (hkept.spares (Saga.spares_quiet rfl rfl rfl)) fun hlast => h.2 (hm ▸ hlast)
    change v.status ≠ _
    rcases hw with hrunning | hcancelled
    · simp [hrunning]
    · simp [hcancelled]
  case late =>
    intro v y hv hs
    rw [Outline.after_unhandled hs]
    have hm : (v.toSaga.after (.db (unhandled i)) y).memory = v.memory := by
      rw [Saga.memory_after, Memory.next_unhandled]
    refine ⟨fun hflight => ?_, fun hsucc => ?_⟩
    · rw [hs.not_inFlight.2] at hflight
      cases hflight
    · obtain ⟨d, hd, hholds⟩ := hv.2 hsucc
      exact ⟨d, hd, by rw [hm]; exact hholds⟩

end

/-! ### The condition -/

/-- **A history of a run** whose executors follow one another, none of which leaves it between the
record and the context of a task that has succeeded. -/
def Remembering (i : ℕ) (name : String) (m : ℤ) (cls : JobCls) (p : System) (l : Act) : Prop :=
  Solo i name m cls p l ∧ (strands i p l → (memory (story i p.log)).saved)

instance (i : ℕ) (name : String) (m : ℤ) (cls : JobCls) (p : System) (l : Act) :
    Decidable (Remembering i name m cls p l) := inferInstanceAs (Decidable (_ ∧ (_ → _)))

section

variable {i : ℕ} {name : String} {m : ℤ} {cls : JobCls} {p : System}

lemma memory_suits (hd : cls.Distinct) :
    (memoryOutline i cls).Suits (Remembering i name m cls) i name m cls where
  sound := memoryOutline_sound hd
  solo := fun _ _ hC => hC.1
  hears := fun _ _ _ _ _ _ hC hasks hclaimed hans hr hy =>
    hC.2 (strands_of_raise hasks hclaimed hans hr hy)
  crash := by
    intro p pid hC hlives hclaimed hw hstops
    refine ⟨fun hflight => ⟨hstops.1 (hC.2 (strands_of_crash hlives hclaimed hflight)), hstops.2⟩, ?_⟩
    intro hs
    rcases hw with hw | hw <;> rw [hs] at hw <;> cases hw

/-- What the worker knows that comes to run the task at the position. -/
lemma Saga.Knows.before {s : Saga} {ctx : TaskContext} {k : ℕ} (h : s.Knows cls ctx) (hup : s.Upto k) :
    s.memory.Holds cls (· < k) ctx.results ctx.state :=
  h.mono rfl rfl fun pos hpos => (hup pos).2 hpos

/-- **Resuming a run loses no context**, in every history in which no executor leaves the run between
the record and the context of a task. The body of a task runs with what the tasks before it have
returned, in the state that they have left, and a run that has succeeded has the results of all
tasks. -/
theorem context_kept (hd : cls.Distinct) (h : p.Reached (Remembering i name m cls)) :
    (∀ (l₁ l₂ : List Ev) (ev : Ev) (pos n : ℕ) (ctx : TaskContext), p.log = l₁ ++ ev :: l₂ →
      ev.req = .run i pos n ctx →
        (memory (story i l₁)).Holds cls (· < pos) ctx.results ctx.state) ∧
    (∀ pid pos n ctx, p.pending pid = some (.run i pos n ctx) →
      (memory (story i p.log)).Holds cls (· < pos) ctx.results ctx.state) ∧
    ∀ r, p.shared.runs.get? i = some r → r.status = .succeeded → ∃ d, r.result = some (.dict d) ∧
      ∀ pos task, cls.tasks[pos]? = some task →
        ∃ v, (memory (story i p.log)).results pos = some v ∧ Dict.get? d task.name = some v := by
  refine ⟨fun l₁ l₂ ev pos n ctx hl hreq => ?_, fun pid pos n ctx hr => ?_, fun r hr hs => ?_⟩
  · rcases ((memory_suits hd).describes h).asks l₁ ev l₂ hl (by rw [hreq]; simp [about]) with
      ⟨-, hasks⟩ | ⟨-, hun⟩
    · obtain ⟨hup, hknows⟩ := hasks pos n ctx hreq
      exact hknows.before hup
    · rw [hreq] at hun
      cases hun
  · rcases (memory_suits hd).pending h hr (by simp [about])
      (by rintro (⟨_, ⟨⟩⟩ | ⟨_, _, ⟨⟩⟩)) with ⟨-, hasks⟩ | ⟨-, hun⟩
    · obtain ⟨hup, hknows⟩ := hasks pos n ctx rfl
      exact hknows.before hup
    · cases hun
  · have hstatus : (View.now i p.shared p.log).status = some .succeeded := by
      simp [View.now, View.of, hr, hs]
    have hresult : (View.now i p.shared p.log).result = r.result := by
      simp [View.now, View.of, hr]
    rcases ((memory_suits hd).describes h).holds with habsent | hrest | ⟨hw, -⟩
    · rw [habsent] at hstatus
      cases hstatus
    · obtain ⟨d, hd, hholds⟩ := hrest.2 hstatus
      exact ⟨d, hresult.symm.trans hd, fun pos task => hholds.results pos task trivial⟩
    · rcases hw with hw | hw <;> rw [hstatus] at hw <;> cases hw

end

/-- Worker A (process 1) has done the first task when it is killed, at so many transactions after the
task has returned. Worker B (process 2) claims the run when the lease is over. -/
def leftAfter (n : ℕ) : List Act :=
  .spawn (.enqueue { job := "m.J", maxAttempts := 3 } none) :: commits 0 1 0 ++
  .spawn (.worker (.knowing twoTasks "A")) :: reads 1 1 :: reads 1 1 :: commits 1 5 1 ++
  .act 1 (.ran (.ok (.num 7)) []) :: commits 1 n 2 ++ .crash 1 ::
  .spawn (.worker (.knowing twoTasks "B")) :: reads 2 100 :: reads 2 100 :: commits 2 5 100

/-- What the body of a task that is running has been given: the position, and the context. -/
def given : Req → Option (ℕ × TaskContext)
  | .run _ pos _ ctx => some (pos, ctx)
  | _ => none

/-- The record and the context are written: worker B runs the second task, and completes the run. -/
def doneByTwo : List Act := leftAfter 2 ++ .act 2 (.ran (.ok (.num 8)) []) :: commits 2 3 101

theorem context_kept_doneByTwo : ∃ (p : System) (r : RunRow),
    System.init.play (Remembering 0 "m.J" 3 twoTasks) doneByTwo = some p ∧
    p.shared.runs.get? 0 = some r ∧ r.status = .succeeded ∧ ∃ d, r.result = some (.dict d) ∧
      ∀ pos task, twoTasks.tasks[pos]? = some task →
        ∃ v, (memory (story 0 p.log)).results pos = some v ∧ Dict.get? d task.name = some v := by
  have hall : ((System.init.play (Remembering 0 "m.J" 3 twoTasks) doneByTwo).any fun p =>
      (p.shared.runs.get? 0).map RunRow.status = some .succeeded) = true := by decide
  obtain ⟨p, hp, hend⟩ := (Option.any_eq_true _ _).1 hall
  obtain ⟨r, hr, hs⟩ := Option.map_eq_some_iff.1 (of_decide_eq_true hend)
  exact ⟨p, r, hp, hr, hs, (context_kept (by decide) (Pool.run_of_play hp)).2.2 r hr hs⟩

/-- **A context is lost** with a worker that is killed between the record of a task and the context:
the next task runs without what it has returned. -/
theorem context_lost : ∃ (p : System) (ctx : TaskContext),
    System.init.play (Solo 0 "m.J" 3 twoTasks) (leftAfter 1) = some p ∧ p.shared.done 0 0 ∧
    ((memory (story 0 p.log)).results 0).isSome ∧ (p.pending 2).bind given = some (1, ctx) ∧
    ctx.results.get? "T" = none := by
  have hall : ((System.init.play (Solo 0 "m.J" 3 twoTasks) (leftAfter 1)).any fun p =>
      p.shared.done 0 0 ∧ ((memory (story 0 p.log)).results 0).isSome ∧
        ((p.pending 2).bind given).any fun x => x.1 = 1 ∧ (x.2.results.get? "T").isNone) = true := by
    decide
  obtain ⟨p, hp, hend⟩ := (Option.any_eq_true _ _).1 hall
  obtain ⟨hd, hreturned, hgiven⟩ := of_decide_eq_true hend
  obtain ⟨⟨pos, ctx⟩, hx, hnone⟩ := (Option.any_eq_true _ _).1 hgiven
  obtain ⟨rfl, hget⟩ := of_decide_eq_true hnone
  exact ⟨p, ctx, hp, hd, hreturned, hx, Option.isNone_iff_eq_none.1 hget⟩

end Pyreljob
