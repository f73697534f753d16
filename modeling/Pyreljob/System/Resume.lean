import Pyreljob.System.Solo

/-!
Completed work is never repeated.

The tasks that have succeeded are always the first few, because a worker goes on at the first task
that has not succeeded, and undoes the last one that has first. So no request of a worker touches
the record of a task that has succeeded, but the one that undoes it.
-/

namespace Pyreljob

open Lib Relation

/-- The request must not meet a task that has succeeded. -/
def Redoes (pos : ℕ) : Req → Prop
  | .db (.startTask _ pos' _ _) | .db (.failTask _ pos' _ _ _) | .db (.cancelTask _ pos') => pos' = pos
  | _ => False

/-- What a worker asks leaves the tasks alone that have succeeded. -/
def resumeOutline : Outline where
  hears := fun _ _ _ => True
  rests := fun _ => True
  stops := fun _ => True
  asks := fun s r => ∀ pos, Redoes pos r → s.done pos = false
  enters := fun _ => True
  comes := fun _ _ _ => True
  runs := fun _ _ _ => True
  undoes := fun _ _ _ => True
  throws := fun _ => True

lemma Saga.Upto.not_done {s : Saga} {k : ℕ} (h : s.Upto k) : s.done k = false := by
  have hk : ¬ s.done k := fun hd => lt_irrefl k ((h k).1 hd)
  simpa using hk

lemma resumeOutline_sound (i : ℕ) (cls : JobCls) (m : ℤ) : resumeOutline.Sound i cls m := by
  have hquiet : ∀ (s : Saga) (r : Req), (∀ pos, ¬ Redoes pos r) → resumeOutline.asks s r :=
    fun s r hr pos hpos => absurd hpos (hr pos)
  constructor
  case starts =>
    intro s pos ctx task _ hup _
    refine ⟨?_, trivial⟩
    rintro _ rfl
    exact hup.not_done
  case cancels =>
    intro s pos ctx task n exc state _ hup _ _ _ _
    refine ⟨⟨trivial, ?_⟩, trivial, hquiet _ _ nofun, fun _ _ _ _ => trivial⟩
    rintro _ rfl
    exact hup.not_done
  case spends =>
    intro s pos ctx task n exc state _ hup _ _ _ _ _
    refine ⟨⟨trivial, hquiet _ _ nofun⟩, ⟨trivial, ?_⟩, trivial⟩
    rintro _ rfl
    exact hup.not_done
  case retries =>
    intro s pos ctx task n exc state t _ hup _ _ _ _ _
    refine ⟨⟨trivial, hquiet _ _ nofun⟩, ⟨trivial, ?_⟩, trivial,
      ⟨hquiet _ _ nofun, fun _ _ _ _ => trivial⟩, fun _ _ => trivial⟩
    rintro _ rfl
    exact hup.not_done
  case halts | fails | completes =>
    intros
    exact ⟨hquiet _ _ nofun, fun _ _ _ _ => trivial⟩
  case throws_leaves =>
    intros
    exact ⟨trivial, hquiet _ _ nofun, fun _ _ _ _ => trivial⟩
  case recovers =>
    intros
    exact ⟨hquiet _ _ nofun, trivial⟩
  case runs_point =>
    intros
    exact ⟨trivial, hquiet _ _ nofun⟩
  case succeeds =>
    intros
    exact ⟨⟨trivial, hquiet _ _ nofun⟩, ⟨trivial, hquiet _ _ nofun⟩, trivial⟩
  case undo =>
    intros
    exact ⟨hquiet _ _ nofun, ⟨trivial, hquiet _ _ nofun⟩, trivial⟩
  all_goals
    intros
    trivial

section

variable {i : ℕ} {name : String} {m : ℤ} {cls : JobCls} {p p' : System}

lemma resume_describes (h : p.Reached (Solo i name m cls)) : resumeOutline.Describes i cls p :=
  Outline.solo (resumeOutline_sound i cls m) (fun _ _ hC => hC) (fun _ _ _ _ _ _ _ _ _ _ => trivial)
    (fun _ _ _ _ _ _ _ => trivial) h

/-- A request that must not meet a task that has succeeded does not. -/
lemma not_done_of_redoes (h : p.Reached (Solo i name m cls)) {l₁ l₂ : List Ev} {ev : Ev} {pos : ℕ}
    (hl : p.log = l₁ ++ ev :: l₂) (hab : about i ev.req) (hr : Redoes pos ev.req) :
    ev.pre.done i pos = false := by
  rcases (resume_describes h).asks l₁ ev l₂ hl hab with ⟨-, hask⟩ | ⟨-, hun⟩
  · simpa [View.now] using hask pos hr
  · rw [hun] at hr
    cases hr

/-- The event has undone the task at the position. -/
def Undoes (i pos : ℕ) (ev : Ev) : Prop :=
  ev.req = .db (.compensateTask i pos) ∧ ∃ e, ev.ans = .commit e

lemma done_move (h : p.Reached (Solo i name m cls)) {l : Act} (hC : Solo i name m cls p l)
    (hstep : Pool.step answer Kind.program p l = some p') {pos : ℕ} (hd : p.shared.done i pos) :
    p'.shared.done i pos ∨ ∃ ev, p'.log = p.log ++ [ev] ∧ Undoes i pos ev := by
  rcases System.step_cases hstep with hsame | ⟨pid, c, e, y, rfl, hasks, hx, hlog⟩
  · exact .inl (hsame ▸ hd)
  · have h' : p'.Reached (Solo i name m cls) := h.tail ⟨_, hC, hstep⟩
    have hkeeps : ∀ pos', about i (.db c) → Redoes pos' (.db c) → pos' ≠ pos := by
      rintro _ hab hr rfl
      have hnot := not_done_of_redoes h' hlog hab hr
      rw [hnot] at hd
      cases hd
    obtain ⟨t, ht, hs⟩ := (Option.any_eq_true _ _).1 hd
    have hrec := exec_record hx i pos
    rw [ht] at hrec
    rcases hrec.succeeded_stays (by simpa using hs) with hstay | rfl | hgone |
        ⟨n, k, rfl⟩ | ⟨error, k, t, rfl⟩ | rfl
    · exact .inl hstay
    · exact .inr ⟨_, hlog, rfl, e, rfl⟩
    · rw [hC.erases hasks] at hgone
      cases hgone
    all_goals exact absurd rfl (hkeeps pos (by simp [about]) rfl)

/-- A task that has succeeded at some event has done so ever since, or was undone. -/
lemma done_since (h : p.Reached (Solo i name m cls)) {l₁ l₂ : List Ev} {ev : Ev} {pos : ℕ}
    (hl : p.log = l₁ ++ ev :: l₂) (hd : ev.post.done i pos) :
    p.shared.done i pos ∨ ∃ ev' ∈ l₂, Undoes i pos ev' := by
  obtain ⟨p₁, p₂, -, hrun₁, hC, hstep, -, hrun₂, -, -, hlog₂, hpost⟩ := Pool.event_step h rfl hl
  have hreach₂ : System.Reached (Solo i name m cls) p₂ := hrun₁.tail ⟨_, hC, hstep⟩
  rw [← hpost] at hd
  have hrest : ∀ p, System.Run (Solo i name m cls) p₂ p → ∀ l₂, p.log = p₂.log ++ l₂ →
      p.shared.done i pos ∨ ∃ ev' ∈ l₂, Undoes i pos ev' := by
    intro p hrun
    induction hrun with
    | refl => exact fun _ _ => .inl hd
    | @tail p₃ p₄ hrun hmove ih =>
      intro l₂ hl₂
      obtain ⟨l₃, hl₃⟩ := Pool.log_prefix hrun
      obtain ⟨l₄, hl₄⟩ := Pool.log_prefix (.single hmove)
      obtain rfl : l₂ = l₃ ++ l₄ := by
        rw [hl₄, hl₃, List.append_assoc] at hl₂
        exact (List.append_cancel_left hl₂).symm
      obtain ⟨l, hC, hstep⟩ := hmove
      rcases ih l₃ hl₃ with hd₃ | ⟨ev', hev', hu⟩
      · rcases done_move (hreach₂.trans hrun) hC hstep hd₃ with hd₄ | ⟨ev', hev', hu⟩
        · exact .inl hd₄
        · rw [hl₄] at hev'
          exact .inr ⟨ev', by simp [List.append_cancel_left hev'], hu⟩
      · exact .inr ⟨ev', List.mem_append_left _ hev', hu⟩
  refine hrest p hrun₂ l₂ ?_
  rw [hl, hlog₂]
  simp

/-- **Completed work is never repeated.** In every history of a run whose executors follow one
another, and may be killed anywhere, the tasks that have succeeded are the first few, and a task
that has succeeded is not started before it was undone. -/
theorem completed_work_stays (h : p.Reached (Solo i name m cls)) :
    (∃ k ≤ cls.tasks.length, ∀ pos, p.shared.done i pos ↔ pos < k) ∧
      ∀ (l₁ l₂ l₃ : List Ev) (ev ev' : Ev) (pos : ℕ) (task : String) (n : ℕ),
        p.log = l₁ ++ ev :: l₂ ++ ev' :: l₃ → ev.post.done i pos →
        ev'.req = .db (.startTask i pos task n) → ∃ ev'' ∈ l₂, Undoes i pos ev'' := by
  refine ⟨?_, fun l₁ l₂ l₃ ev ev' pos task n hl hd hreq => ?_⟩
  · obtain ⟨k, hk, hup⟩ := (resume_describes h).based
    refine ⟨k, hk, fun pos => ?_⟩
    rw [← hup pos]
    simp [View.now]
  · have hnot : ev'.pre.done i pos = false :=
      not_done_of_redoes h hl (by rw [hreq]; simp [about]) (by rw [hreq]; rfl)
    obtain ⟨p₁, -, -, hrun₁, -, -, -, -, hlog₁, hpre, -⟩ := Pool.event_step h rfl hl
    rcases done_since hrun₁ hlog₁ hd with hd' | hu
    · rw [hpre, hnot] at hd'
      cases hd'
    · exact hu

end

/-- Worker A (process 1) succeeds at the first task and gives up at the second. It undoes the first
one and is killed. -/
def undoneOnce : List Act :=
  .spawn (.enqueue { job := "m.J", maxAttempts := 1 } none) :: commits 0 1 0 ++
  .spawn (.worker (.knowing twoTasks "A")) :: reads 1 1 :: reads 1 1 :: commits 1 5 1 ++
  .act 1 (.ran (.ok .null) []) :: commits 1 3 2 ++
  .act 1 (.ran (.error (.other "OSError" "")) []) :: commits 1 3 3 ++
  .act 1 (.undone none []) :: commits 1 1 4 ++ [.crash 1]

/-- Worker B (process 2) claims the run when the lease is over, and starts the first task. -/
def takenOver : List Act :=
  .spawn (.worker (.knowing twoTasks "B")) :: reads 2 100 :: reads 2 100 :: commits 2 5 100

/-- The request starts the task at the position. -/
def starts (i pos : ℕ) : Req → Bool
  | .db (.startTask i' pos' _ _) => i' = i ∧ pos' = pos
  | _ => false

/-- The first task, which is started again, was undone in between. -/
theorem completed_work_stays_undone : ∃ p : System,
    System.init.play (Solo 0 "m.J" 1 twoTasks) (undoneOnce ++ takenOver) = some p ∧
    (∃ k ≤ 2, ∀ pos, p.shared.done 0 pos ↔ pos < k) ∧
    ∃ l₁ ev l₂ ev' l₃, p.log = l₁ ++ ev :: l₂ ++ ev' :: l₃ ∧ ev.post.done 0 0 ∧
      starts 0 0 ev'.req ∧ ∃ ev'' ∈ l₂, Undoes 0 0 ev'' := by
  have hall : ((System.init.play (Solo 0 "m.J" 1 twoTasks) (undoneOnce ++ takenOver)).any fun p =>
      (p.log[9]?).any (fun ev => ev.post.done 0 0) ∧
        (p.log[24]?).any fun ev => starts 0 0 ev.req) = true := by decide
  obtain ⟨p, hp, hev⟩ := (Option.any_eq_true _ _).1 hall
  simp only [Bool.decide_and, Bool.and_eq_true, decide_eq_true_eq, Option.any_eq_true] at hev
  obtain ⟨⟨ev, hev, hd⟩, ev', hev', hs⟩ := hev
  obtain ⟨l₁, l₂, l₃, hl⟩ := Pool.split_of_getElem? hev hev' (by decide)
  obtain ⟨task, n, hreq⟩ : ∃ task n, ev'.req = .db (.startTask 0 0 task n) := by
    revert hs
    unfold starts
    split
    · rename_i hreq
      intro h
      obtain ⟨rfl, rfl⟩ := of_decide_eq_true h
      exact ⟨_, _, hreq⟩
    · nofun
  obtain ⟨hfirst, hundone⟩ := completed_work_stays (Pool.run_of_play hp)
  exact ⟨p, hp, hfirst, l₁, ev, l₂, ev', l₃, hl, hd, hs, hundone l₁ l₂ l₃ ev ev' 0 task n hl hd hreq⟩

end Pyreljob
