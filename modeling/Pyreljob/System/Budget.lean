import Pyreljob.System.Failed

/-!
The budget of a task and the attempts at it.

The number of an attempt is read off the record, and written back when the task is started. Whether
there is another one is asked only where the task raises, and of a record that has failed. So the
budget holds as long as no executor leaves a record behind that tells of a last attempt, but not that
it has failed; and none in the midst of a compensation, after which the worker goes on at a task that
was undone, and past it starts the exhausted one.
-/

namespace Pyreljob

open Lib

/-- How often a task may be started: `max(1, b)` times. -/
def allowed (m : ℤ) (task : TaskCls) : ℕ := max 1 (budget m task).toNat

lemma one_le_allowed (m : ℤ) (task : TaskCls) : 1 ≤ allowed m task := le_max_left ..

lemma succ_le_allowed {m : ℤ} {task : TaskCls} {n : ℕ} (h : ¬ budget m task ≤ n) :
    n + 1 ≤ allowed m task := by
  unfold allowed
  omega

def starting (i pos : ℕ) : Said → Bool
  | ⟨.db (.startTask i' pos' _ _), .ok _⟩ => i' = i ∧ pos' = pos
  | _ => false

def isUnhandled (i : ℕ) : Req → Bool
  | .db (.failRun i' error none) => i' = i ∧ error = "unhandled error"
  | _ => false

namespace Saga

def tries (s : Saga) (pos : ℕ) : ℕ := ((s.mark pos).map Mark.attempts).getD 0

def Tip (s : Saga) (k : ℕ) : Prop := ∀ pos > k, s.mark pos = none

section

variable (i : ℕ) (m : ℤ) (cls : JobCls) (s : Saga)

def Tallied : Prop :=
  ∀ pos, s.story.countP (starting i pos) = s.tries pos ∧
    ∀ task, cls.tasks[pos]? = some task → s.tries pos ≤ allowed m task

/-- No record was undone, and one that has neither succeeded nor failed leaves an attempt. -/
def Sparing : Prop :=
  ∀ pos mark, s.mark pos = some mark → mark.status = .succeeded ∨ mark.status = .failed ∨
    (mark.status ≠ .compensated ∧
      ∀ task, cls.tasks[pos]? = some task → mark.attempts < allowed m task)

/-- The worker that goes on here finds a task that may be started, or that has failed. -/
def Restartable : Prop :=
  ∀ k, s.Upto k → s.Tip k ∧ ∀ task mark, cls.tasks[k]? = some task → s.mark k = some mark →
    mark.status = .failed ∨ mark.attempts < allowed m task

/-- Unless tasks were undone, none was started after the first one that has not succeeded. -/
def Shaped : Prop :=
  (∀ pos mark, s.mark pos = some mark → mark.status ≠ .compensated) → ∀ k, s.Upto k → s.Tip k

end

end Saga

/-- Attempts are counted, and a run is left so that the next worker may go on. -/
def budgetOutline (i : ℕ) (m : ℤ) (cls : JobCls) : Outline where
  hears := fun s r y => isUnhandled i r → y.isOk = false → s.Sparing m cls
  rests := fun v => v.Tallied i m cls ∧ (v.status.any RunStatus.inFlight → v.Restartable m cls)
  stops := fun s => s.Tallied i m cls ∧ s.Shaped
  asks := fun s r => ∀ pos n ctx, r = .run i pos n ctx → n = s.tries pos
  enters := fun s => s.Tallied i m cls ∧ s.Restartable m cls
  comes := fun k _ s => (s.Tallied i m cls ∧ s.Shaped) ∧ s.Tip k ∧
    ∀ task, cls.tasks[k]? = some task → s.tries k < allowed m task
  runs := fun k _ s => s.Tallied i m cls ∧ s.Tip k
  undoes := fun _ _ s => s.Tallied i m cls ∧ s.Shaped
  throws := fun s => s.Tallied i m cls ∧ s.Shaped

section

variable {i : ℕ} {m : ℤ} {cls : JobCls} {s s' : Saga} {k : ℕ}

lemma Saga.Upto.unique {k' : ℕ} (h : s.Upto k) (h' : s.Upto k') : k = k' := by
  by_contra hne
  rcases lt_or_gt_of_ne hne with hlt | hlt
  · exact absurd ((h k).1 ((h' k).2 hlt)) (lt_irrefl k)
  · exact absurd ((h' k').1 ((h k').2 hlt)) (lt_irrefl k')

/-- No task was started after the first one that has not succeeded. -/
lemma Saga.Tip.shaped (h : s.Tip k) (hup : s.Upto k) : s.Shaped := by
  intro _ k' hup'
  rwa [← hup.unique hup']

/-- A run that is left with attempts to spare may be gone on with. -/
lemma Saga.Shaped.restartable (h : s.Shaped) (hs : s.Sparing m cls) : s.Restartable m cls := by
  intro k hup
  refine ⟨h (fun pos mark hmark hc => ?_) k hup, fun task mark htask hmark => ?_⟩
  · rcases hs pos mark hmark with h' | h' | ⟨h', -⟩
    · rw [hc] at h'
      cases h'
    · rw [hc] at h'
      cases h'
    · exact h' hc
  · rcases hs k mark hmark with hdone | hfailed | ⟨-, hlt⟩
    · have hnot := hup.not_done
      simp [Saga.done, hmark, hdone] at hnot
    · exact .inl hfailed
    · exact .inr (hlt task htask)

lemma Saga.Restartable.shaped (h : s.Restartable m cls) : s.Shaped := fun _ k hup => (h k hup).1

/-! ### What a request changes -/

/-- A request other than the start of a task leaves the attempts as they are. -/
lemma Saga.Tallied.quiet (h : s.Tallied i m cls) {r : Req} {y : Except Exc r.Reply}
    (hr : ∀ pos, starting i pos ⟨r, y⟩ = false) (ht : ∀ pos, (s.after r y).tries pos = s.tries pos) :
    (s.after r y).Tallied i m cls := by
  intro pos
  obtain ⟨hcount, hle⟩ := h pos
  refine ⟨?_, fun task htask => ht pos ▸ hle task htask⟩
  rw [ht, ← hcount]
  change (s.story ++ [(⟨r, y⟩ : Said)]).countP (starting i pos) = _
  rw [List.countP_append, List.countP_singleton, hr]
  simp

lemma Saga.tries_put {pos : ℕ} {mark : Option Mark}
    (h : (mark.map Mark.attempts).getD 0 = s.tries pos) (pos' : ℕ) :
    (s.put pos mark).tries pos' = s.tries pos' := by
  unfold tries
  rw [put_mark]
  split
  · rename_i hp
    rw [h, hp]
    rfl
  · rfl

lemma Saga.tries_put_map {pos : ℕ} {f : Mark → Mark} (hf : ∀ mark, (f mark).attempts = mark.attempts)
    (pos' : ℕ) : (s.put pos ((s.mark pos).map f)).tries pos' = s.tries pos' := by
  refine tries_put ?_ pos'
  unfold tries
  cases s.mark pos with
  | none => rfl
  | some mark => exact hf mark

lemma Saga.tries_failTask {pos n : ℕ} {error : String} (hmark : s.mark pos = some ⟨.running, n, none, none⟩)
    (pos' : ℕ) : (s.put pos ((s.mark pos).map fun mark =>
      { mark with status := .failed, error := some error, attempts := n })).tries pos' =
        s.tries pos' :=
  tries_put (by simp [tries, hmark]) pos'

lemma Saga.Tallied.start (h : s.Tallied i m cls) {pos : ℕ} {name : String}
    (hlt : ∀ task, cls.tasks[pos]? = some task → s.tries pos < allowed m task) :
    (s.after (.db (.startTask i pos name (s.attempt pos))) (.ok ())).Tallied i m cls := by
  intro pos'
  obtain ⟨hcount, hle⟩ := h pos'
  have htries : (s.after (.db (.startTask i pos name (s.attempt pos))) (.ok ())).tries pos' =
      if pos' = pos then s.tries pos + 1 else s.tries pos' := by
    change ((((s.put pos _).mark pos').map Mark.attempts).getD 0) = _
    rw [put_mark]
    split <;> rfl
  have hstory : (s.after (.db (.startTask i pos name (s.attempt pos))) (.ok ())).story.countP
      (starting i pos') = s.story.countP (starting i pos') + if pos' = pos then 1 else 0 := by
    change (s.story ++ [_]).countP (starting i pos') = _
    rw [List.countP_append, List.countP_singleton]
    simp [starting, eq_comm]
  rw [htries, hstory, hcount]
  by_cases hp : pos' = pos
  · subst hp
    simp only [if_true]
    exact ⟨trivial, fun task htask => hlt task htask⟩
  · simpa only [hp, if_false, add_zero, true_and] using hle

lemma Saga.Tip.put (h : s.Tip k) (mark : Option Mark) : (s.put k mark).Tip k := by
  intro pos hpos
  rw [put_mark, if_neg (by omega)]
  exact h pos hpos

lemma Saga.Tip.succ (h : s.Tip k) : s.Tip (k + 1) := fun pos hpos => h pos (by omega)

lemma budgetOutline_settled {v : View} (h : v.Tallied i m cls) (hs : v.Settled) :
    (budgetOutline i m cls).rests v := by
  refine ⟨h, fun hflight => ?_⟩
  rw [hs.not_inFlight.2] at hflight
  cases hflight

lemma budgetOutline_sound (i : ℕ) (cls : JobCls) (m : ℤ) :
    (budgetOutline i m cls).Sound i cls m := by
  have hquiet : ∀ (s : Saga) (r : Req), (∀ pos n ctx, r ≠ .run i pos n ctx) →
      (budgetOutline i m cls).asks s r := fun s r hr pos n ctx h => absurd h (hr pos n ctx)
  constructor
  case created =>
    intro j
    refine ⟨fun pos => ⟨rfl, fun _ _ => Nat.zero_le _⟩, fun _ k _ => ⟨fun _ _ => rfl, ?_⟩⟩
    rintro task mark _ ⟨⟩
  case cancelled | swept =>
    intro v hv _
    exact ⟨hv.1, fun hflight => by cases hflight⟩
  case claimed => exact fun v hv hflight => ⟨hv.1, hv.2 hflight⟩
  case enters_stops => exact fun s h => ⟨h.1, h.2.shaped⟩
  case halts =>
    intro s h
    refine ⟨hquiet _ _ (by simp), fun v a hw hs => budgetOutline_settled ?_ Outline.cancelRun_settled⟩
    rw [View.after_about (by simp [about]), hs]
    exact h.1.quiet (fun _ => rfl) fun _ => rfl
  case begins =>
    intro s k ctx h hup _ hfailed
    obtain ⟨htip, hnext⟩ := h.2 k hup
    refine ⟨⟨h.1, h.2.shaped⟩, htip, fun task htask => ?_⟩
    cases hmark : s.mark k with
    | none =>
      have := one_le_allowed m task
      simp only [Saga.tries, hmark, Option.map_none, Option.getD_none]
      omega
    | some mark =>
      have htries : s.tries k = mark.attempts := by simp [Saga.tries, hmark]
      rw [htries]
      rcases hnext task mark htask hmark with hf | hlt
      · exact succ_le_allowed (hfailed task mark htask hmark hf)
      · exact hlt
  case recovers =>
    intro s k ctx task mark h _ _ _ _ _ _
    exact ⟨hquiet _ _ (by simp), h.1.quiet (fun _ => rfl) (fun _ => rfl), h.2.shaped⟩
  case comes_stops => exact fun k ctx s h => h.1
  case starts =>
    intro s pos ctx task h _ htask
    exact ⟨hquiet _ _ (by simp), h.1.1.start h.2.2, h.2.1.put _⟩
  case runs_point =>
    intro s pos ctx task n h hup _ hmark
    refine ⟨⟨h.1, h.2.shaped hup⟩, ?_⟩
    rintro _ _ _ ⟨⟩
    simp [Saga.tries, hmark]
  case succeeds =>
    intro s pos ctx task n v state h hup htask hmark _
    have h₁ := h.1.quiet (r := .run i pos n ctx) (y := .ok (.ok v, state)) (fun _ => rfl) fun _ => rfl
    have h₂ := h₁.quiet (r := .db (.succeedTask i pos v)) (y := .ok ()) (fun _ => rfl)
      (Saga.tries_put_map fun _ => rfl)
    have hup₂ := Saga.Upto.next hup fun pos' => (Saga.done_succeedTask _ i pos v pos').trans (by
      rw [show Saga.mark _ pos = _ from hmark]
      rfl)
    have htip₂ := (h.2.put ((s.mark pos).map fun mark =>
      { mark with status := .succeeded, result := some v, error := none })).succ
    refine ⟨⟨⟨h₁, h.2.shaped hup⟩, hquiet _ _ (by simp)⟩, ⟨⟨h₂, htip₂.shaped hup₂⟩, hquiet _ _ (by simp)⟩,
      ⟨h₂.quiet (fun _ => rfl) (fun _ => rfl), htip₂.shaped hup₂⟩, htip₂, fun task' _ => ?_⟩
    have hnone : s.tries (pos + 1) = 0 := by
      simp [Saga.tries, h.2 (pos + 1) (Nat.lt_succ_self pos)]
    have hsame : (s.put pos ((s.mark pos).map fun mark =>
        { mark with status := .succeeded, result := some v, error := none })).tries (pos + 1) =
          s.tries (pos + 1) := Saga.tries_put_map (by intro mark; rfl) _
    exact lt_of_eq_of_lt (hsame.trans hnone) (one_le_allowed m task')
  case cancels =>
    intro s pos ctx task n exc state h hup _ hmark _ _
    have h₁ := h.1.quiet (r := .run i pos n ctx) (y := .ok (.error exc, state)) (fun _ => rfl)
      fun _ => rfl
    have h₂ := h₁.quiet (r := .db (.cancelTask i pos)) (y := .ok ()) (fun _ => rfl)
      (Saga.tries_put_map fun _ => rfl)
    have hup₂ := hup.stay fun pos' => Saga.done_cancelTask s i pos pos'
    have htip₂ := h.2.put ((s.mark pos).map fun mark => { mark with status := .cancelled })
    refine ⟨⟨⟨h₁, h.2.shaped hup⟩, hquiet _ _ (by simp)⟩, ⟨h₂, htip₂.shaped hup₂⟩, hquiet _ _ (by simp),
      fun v a hw hs => budgetOutline_settled ?_ Outline.cancelRun_settled⟩
    rw [View.after_about (by simp [about]), hs]
    exact h₂.quiet (fun _ => rfl) fun _ => rfl
  case spends =>
    intro s pos ctx task n exc state h hup _ hmark _ _ _
    have h₁ := h.1.quiet (r := .run i pos n ctx) (y := .ok (.error exc, state)) (fun _ => rfl)
      fun _ => rfl
    have h₂ := h₁.quiet (r := .db (.setRunCtx i ({ ctx with state := state } : TaskContext).asDict))
      (y := .ok ()) (fun _ => rfl) fun _ => rfl
    have h₃ := h₂.quiet (r := .db (.failTask i pos exc.text n none)) (y := .ok ()) (fun _ => rfl)
      (Saga.tries_failTask hmark)
    have hup₃ := hup.stay fun pos' => Saga.done_failTask s i pos exc.text n none pos'
    have htip₃ := h.2.put ((s.mark pos).map fun mark =>
      { mark with status := .failed, error := some exc.text, attempts := n })
    exact ⟨⟨⟨h₁, h.2.shaped hup⟩, hquiet _ _ (by simp)⟩, ⟨⟨h₂, h.2.shaped hup⟩, hquiet _ _ (by simp)⟩, h₃,
      htip₃.shaped hup₃⟩
  case retries =>
    intro s pos ctx task n exc state t h hup htask hmark _ _ _
    have h₁ := h.1.quiet (r := .run i pos n ctx) (y := .ok (.error exc, state)) (fun _ => rfl)
      fun _ => rfl
    have h₂ := h₁.quiet (r := .db (.setRunCtx i ({ ctx with state := state } : TaskContext).asDict))
      (y := .ok ()) (fun _ => rfl) fun _ => rfl
    have h₃ := h₂.quiet (r := .db (.failTask i pos exc.text n (some t))) (y := .ok ())
      (fun _ => rfl) (Saga.tries_failTask hmark)
    have hup₃ := hup.stay fun pos' => Saga.done_failTask s i pos exc.text n (some t) pos'
    have htip₃ := h.2.put ((s.mark pos).map fun mark =>
      { mark with status := .failed, error := some exc.text, attempts := n })
    refine ⟨⟨⟨h₁, h.2.shaped hup⟩, hquiet _ _ (by simp)⟩, ⟨⟨h₂, h.2.shaped hup⟩, hquiet _ _ (by simp)⟩,
      ⟨h₃, htip₃.shaped hup₃⟩, ⟨hquiet _ _ (by simp), fun v a hw hs => ?_⟩, fun e _ => ⟨h₁, h.2.shaped hup⟩⟩
    rw [View.after_about (by simp [about]), hs]
    refine ⟨h₃.quiet (fun _ => rfl) (fun _ => rfl), fun _ k hupk => ?_⟩
    obtain rfl : k = pos := Saga.Upto.unique hupk hup₃
    refine ⟨htip₃, fun task' mark _ hm => .inl ?_⟩
    change (s.put k ((s.mark k).map _)).mark k = some mark at hm
    rw [Saga.put_mark, if_pos rfl, hmark, Option.map_some, Option.some.injEq] at hm
    rw [← hm]
  case undo =>
    intro err k s ctx y h hup
    have h₁ := h.1.quiet (r := .undo i k ctx) (y := .ok y) (fun _ => rfl) fun _ => rfl
    have h₂ := h₁.quiet (r := .db (.compensateTask i k)) (y := .ok ()) (fun _ => rfl)
      (Saga.tries_put_map fun _ => rfl)
    refine ⟨hquiet _ _ (by simp), ⟨⟨h₁, h.2⟩, hquiet _ _ (by simp)⟩, h₂, fun hnone => ?_⟩
    -- the record is compensated now
    obtain ⟨mark, hmark, -⟩ := (Option.any_eq_true _ _).1 ((hup k).2 (Nat.lt_succ_self k))
    refine absurd rfl (hnone k { mark with status := .compensated } ?_)
    change (s.put k ((s.mark k).map _)).mark k = _
    rw [Saga.put_mark, if_pos rfl, hmark]
    rfl
  case undoes_stops => exact fun err k s h => h
  case fails =>
    intro err s h hup
    refine ⟨hquiet _ _ (by simp), fun v a hw hs => ?_⟩
    refine budgetOutline_settled ?_ (Outline.failRun_settled (.inl hw))
    rw [View.after_about (by simp [about]), hs]
    exact h.1.quiet (fun _ => rfl) fun _ => rfl
  case completes =>
    intro s ctx h hup
    refine ⟨hquiet _ _ (by simp), fun v a hw hs => budgetOutline_settled ?_ (Outline.completeRun_settled hw)⟩
    rw [View.after_about (by simp [about]), hs]
    exact h.1.1.quiet (fun _ => rfl) fun _ => rfl
  case raises =>
    intro s c e h _
    split
    · exact ⟨h.1.quiet (fun _ => by cases c <;> rfl) (fun _ => rfl), h.2⟩
    · exact h
  case throws_leaves =>
    intro s h
    refine ⟨h, hquiet _ _ (by simp), fun v a hw hs => ?_⟩
    refine budgetOutline_settled ?_ (Outline.failRun_settled (.inl hw))
    rw [View.after_about (by simp [about, unhandled]), hs]
    exact h.1.quiet (fun _ => rfl) fun _ => rfl
  case drops =>
    intro s e h hh v hw hs
    have hspare : s.Sparing m cls := hh (by simp [isUnhandled, unhandled]) rfl
    rw [View.after_about (by simp [about, unhandled]), hs]
    exact ⟨h.1.quiet (fun _ => rfl) (fun _ => rfl), fun _ => h.2.restartable hspare⟩
  case late =>
    intro v y hv hs
    rw [Outline.after_unhandled hs]
    refine budgetOutline_settled ?_ hs
    exact hv.1.quiet (fun _ => rfl) fun _ => by cases y <;> rfl

end

/-! ### The condition -/

/-- An executor leaves the run to the next one: it is killed before the run is done, or the handler
of `_execute` fails to fail the run. -/
def strands (i : ℕ) (p : System) : Act → Bool
  | .crash pid => p.lives pid && claimedBy pid i p.log &&
    (p.shared.runs.get? i).any fun r => r.status.inFlight
  | .act pid a => claimedBy pid i p.log && (p.pending pid).any (isUnhandled i) && raising p pid a
  | .spawn _ => false

/-- No record of the run was undone, and one that has neither succeeded nor failed leaves an
attempt. -/
def DB.sparing (db : DB) (i : ℕ) (m : ℤ) (cls : JobCls) : Bool :=
  db.tasks.rows.all fun t => t.runId ≠ i || t.status = .succeeded || t.status = .failed ||
    (t.status ≠ .compensated &&
      (cls.tasks[t.position]?).all fun task => t.attempts < allowed m task)

/-- **A history of a run** whose executors follow one another, each of which leaves the next one an
attempt. -/
def Budgeted (i : ℕ) (name : String) (m : ℤ) (cls : JobCls) (p : System) (l : Act) : Prop :=
  Solo i name m cls p l ∧ (strands i p l → p.shared.sparing i m cls)

instance (i : ℕ) (name : String) (m : ℤ) (cls : JobCls) (p : System) (l : Act) :
    Decidable (Budgeted i name m cls p l) := inferInstanceAs (Decidable (_ ∧ (_ → _)))

section

variable {i : ℕ} {name : String} {m : ℤ} {cls : JobCls} {p : System} {pid : ℕ}

lemma strands_of_raise {a : Answer} {r : Req} {db' : DB} {y : Except Exc r.Reply}
    (hasks : p.pending pid = some r) (hclaimed : claimedBy pid i p.log)
    (hans : answer p.shared r a = some (db', y)) (hr : isUnhandled i r) (hy : y.isOk = false) :
    strands i p (.act pid a) := by
  simp [strands, raising, hasks, hclaimed, hr, hans, hy]

lemma strands_of_crash (hlives : p.lives pid) (hclaimed : claimedBy pid i p.log)
    (hflight : (View.now i p.shared p.log).status.any RunStatus.inFlight) :
    strands i p (.crash pid) := by
  simpa [strands, hlives, hclaimed, View.now, View.of, Option.any_map, Function.comp_def] using hflight

lemma row_of_mark {db : DB} {log : List Ev} {pos : ℕ} {mark : Mark}
    (h : (View.now i db log).mark pos = some mark) :
    ∃ t ∈ db.tasks.rows, t.runId = i ∧ t.position = pos ∧ t.mark = mark := by
  obtain ⟨t, ht, hmark⟩ := Option.map_eq_some_iff.1 h
  have hm : t ∈ db.tasks.select (DB.At i pos) := List.mem_of_mem_head? ht
  obtain ⟨hrow, hi, hpos⟩ := Table.mem_select.1 hm
  exact ⟨t, Table.mem_of_get? hrow, hi, hpos, hmark⟩

lemma sparing_now {log : List Ev} {db : DB} (h : db.sparing i m cls) :
    (View.now i db log).Sparing m cls := by
  intro pos mark hmark
  obtain ⟨t, ht, hi, rfl, rfl⟩ := row_of_mark hmark
  have hrow := List.all_eq_true.1 h t ht
  simp only [hi, ne_eq, not_true, decide_false, Bool.false_or, Bool.or_eq_true,
    Bool.and_eq_true, decide_eq_true_eq] at hrow
  rcases hrow with (hs | hf) | ⟨hc, hlt⟩
  · exact .inl hs
  · exact .inr (.inl hf)
  · refine .inr (.inr ⟨hc, fun task htask => ?_⟩)
    rw [htask] at hlt
    exact of_decide_eq_true hlt

lemma budget_suits : (budgetOutline i m cls).Suits (Budgeted i name m cls) i name m cls where
  sound := budgetOutline_sound i cls m
  solo := fun _ _ hC => hC.1
  hears := by
    intro p pid a r db' y hC hasks hclaimed hans hr hy
    exact sparing_now (hC.2 (strands_of_raise hasks hclaimed hans hr hy))
  crash := by
    intro p pid hC hlives hclaimed _ hstops
    refine ⟨hstops.1, fun hflight => hstops.2.restartable (sparing_now (hC.2 ?_))⟩
    exact strands_of_crash hlives hclaimed hflight

/-- The task at the position was started. -/
def Ev.started (i pos : ℕ) (ev : Ev) : Bool := starting i pos ⟨ev.req, ev.reply⟩

lemma about_of_starting {i pos : ℕ} {r : Req} {y : Except Exc r.Reply}
    (h : starting i pos ⟨r, y⟩) : about i r := by
  unfold starting at h
  split at h
  · rename_i hr
    obtain ⟨rfl, -⟩ := Sigma.mk.inj hr
    simp [about, (of_decide_eq_true h).1]
  · cases h

lemma countP_story (i pos : ℕ) (log : List Ev) :
    (story i log).countP (starting i pos) = log.countP (Ev.started i pos) := by
  unfold story
  rw [List.countP_map, List.countP_filter]
  refine List.countP_congr fun ev _ => ?_
  constructor
  · intro h
    exact (Bool.and_eq_true_iff.1 h).1
  · intro h
    refine Bool.and_eq_true_iff.2 ⟨h, ?_⟩
    exact about_of_starting h

/-- **The retry budget bounds the executions** of a task, and the number of attempts its record
tells of, in every history of a run whose executors follow one another and leave each other an
attempt. The body that runs is that of the last start. -/
theorem attempts_bounded (h : p.Reached (Budgeted i name m cls)) {pos : ℕ} {task : TaskCls}
    (htask : cls.tasks[pos]? = some task) :
    p.log.countP (Ev.started i pos) ≤ allowed m task ∧
      (∀ t, p.shared.record i pos = some t → t.attempts ≤ allowed m task) ∧
        ∀ pid n ctx, p.pending pid = some (.run i pos n ctx) → n = p.log.countP (Ev.started i pos) := by
  have htallied : (View.now i p.shared p.log).Tallied i m cls := by
    rcases (budget_suits.describes h).holds with habsent | hrest | ⟨-, hstop⟩
    · rw [habsent]
      exact fun pos => ⟨rfl, fun _ _ => Nat.zero_le _⟩
    · exact hrest.1
    · exact hstop.1
  obtain ⟨hcount, hle⟩ := htallied pos
  have hcount' : p.log.countP (Ev.started i pos) = (View.now i p.shared p.log).tries pos :=
    (countP_story i pos p.log).symm.trans hcount
  refine ⟨hcount' ▸ hle task htask, fun t ht => ?_, fun pid n ctx hrun => ?_⟩
  · have htries : (View.now i p.shared p.log).tries pos = t.attempts := by
      simp [Saga.tries, View.now, View.of, ht, TaskRow.mark]
    exact htries ▸ hle task htask
  · rcases budget_suits.pending h hrun (by simp [about]) (by rintro (⟨_, ⟨⟩⟩ | ⟨_, _, ⟨⟩⟩)) with
      ⟨-, hasks⟩ | ⟨-, hun⟩
    · rw [hcount']
      exact hasks pos n ctx rfl
    · cases hun

end

/-- Worker A (process 1) starts the task of a run, and is killed. When its lease is over, worker B
(process 2) claims the run and starts the task again. -/
def startedTwice (maxAttempts : ℕ) : List Act :=
  .spawn (.enqueue { job := "m.J", maxAttempts := maxAttempts } none) :: commits 0 1 0 ++
  .spawn (.worker (.named "A")) :: reads 1 1 :: reads 1 1 :: commits 1 5 1 ++ .crash 1 ::
  .spawn (.worker (.named "B")) :: reads 2 100 :: reads 2 100 :: commits 2 5 100

/-- The number of the attempt whose body a process runs. -/
def runs : Req → Option ℕ
  | .run _ _ n _ => some n
  | _ => none

/-- Two attempts are enough for this. -/
theorem attempts_bounded_startedTwice : ∃ p : System,
    System.init.play (Budgeted 0 "m.J" 2 oneTask) (startedTwice 2) = some p ∧
    p.log.countP (Ev.started 0 0) = 2 ∧ p.log.countP (Ev.started 0 0) ≤ allowed 2 { name := "T" } ∧
      (∀ t, p.shared.record 0 0 = some t → t.attempts ≤ allowed 2 { name := "T" }) ∧
        ∀ pid n ctx, p.pending pid = some (.run 0 0 n ctx) → n = p.log.countP (Ev.started 0 0) := by
  have hall : ((System.init.play (Budgeted 0 "m.J" 2 oneTask) (startedTwice 2)).any fun p =>
      p.log.countP (Ev.started 0 0) = 2) = true := by decide
  obtain ⟨p, hp, htwice⟩ := (Option.any_eq_true _ _).1 hall
  exact ⟨p, hp, of_decide_eq_true htwice,
    attempts_bounded (Pool.run_of_play hp) rfl⟩

/-- **A task that takes its worker along is started again**, whatever its budget: here a second time,
with one attempt allowed. -/
theorem attempts_not_bounded : ∃ p : System,
    System.init.play (Solo 0 "m.J" 1 oneTask) (startedTwice 1) = some p ∧
    allowed 1 { name := "T" } = 1 ∧ p.log.countP (Ev.started 0 0) = 2 ∧
    (p.shared.record 0 0).map TaskRow.attempts = some 2 ∧ (p.pending 2).bind runs = some 2 := by
  have hall : ((System.init.play (Solo 0 "m.J" 1 oneTask) (startedTwice 1)).any fun p =>
      allowed 1 { name := "T" } = 1 ∧ p.log.countP (Ev.started 0 0) = 2 ∧
        (p.shared.record 0 0).map TaskRow.attempts = some 2 ∧
          (p.pending 2).bind runs = some 2) = true := by decide
  obtain ⟨p, hp, hend⟩ := (Option.any_eq_true _ _).1 hall
  exact ⟨p, hp, of_decide_eq_true hend⟩

end Pyreljob
