import Pyreljob.Store.View
import Pyreljob.System.Footprint
import Pyreljob.System.Roles

/-!
The arming that an execution owes to its job.

An execution that ends a run of a maintained job arms the job again, some transactions later. `Duty` is
how far it is with that. No program ends before it has done so: an exception in `_run` is caught by
`_execute`, which fails the run and arms the job itself. Only an exception there is caught by nobody.
-/

namespace Pyreljob

open Lib

/-- How far an execution is with the job of its run; other processes are `out`. -/
inductive Duty
  | out
  /-- It has not looked up the records of the run yet. The source is that of the job, once it is read. -/
  | claimed (runId jobId : ℕ) (source : Option JobSource)
  | works (runId jobId : ℕ) (source : JobSource)
  /-- It has ended the run, and has not armed the job yet. -/
  | ended (runId jobId : ℕ) (source : JobSource)
  /-- An exception has been raised, before the run was ended or after that. -/
  | raised (runId jobId : ℕ) (late : Bool)
  /-- `_execute` has failed the run, and has not armed the job yet. -/
  | rearms (runId jobId : ℕ)
  deriving DecidableEq

namespace Duty

def next : Duty → (r : Req) → Except Exc r.Reply → Duty
  | out, .db (.claimRun ..), .ok (some run) => claimed run.id run.jobId none
  | claimed i j _, .db (.getJob _), .ok (some job) => claimed i j (some job.source)
  | claimed i j (some source), .db (.tasksOf _), .ok _ => works i j source
  | claimed .., .db (.failRun ..), .ok _ | claimed .., .db (.cancelRun _), .ok _ => out
  | works i j source, .db (.completeRun ..), .ok _
  | works i j source, .db (.failRun _ _ none), .ok _ => ended i j source
  | works .., .db (.failRun _ _ (some _)), .ok _ | works .., .db (.cancelRun _), .ok _ => out
  | claimed i j _, _, .error _ | works i j _, _, .error _ => raised i j false
  -- `_reschedule`
  | ended .., .db (.getRun _), .ok none | ended .., .db (.setNextRunAt ..), .ok _ => out
  -- `_reschedule_on_error`
  | ended i j _, .db (.getJob _), .ok (some job) | rearms i j, .db (.getJob _), .ok (some job) =>
    if job.source = .scheduled then rearms i j else out
  | ended .., .db (.getJob _), _ | rearms .., .db (.getJob _), _
  | rearms .., .db (.setNextRunAt ..), .ok _ => out
  | ended i j _, _, .error _ => raised i j true
  | raised i j _, .db (.failRun ..), .ok _ => rearms i j
  | raised .., _, .error _ | rearms .., _, .error _ => out
  | c, _, _ => c

/-- The run and the job. -/
def about : Duty → Option (ℕ × ℕ)
  | out => none
  | claimed i j _ | works i j _ | ended i j _ | raised i j _ | rearms i j => some (i, j)

def source? : Duty → Option JobSource
  | claimed _ _ source => source
  | works _ _ source | ended _ _ source => some source
  | out | raised .. | rearms .. => none

/-- The process has ended a run of the job, and has still to arm the job. -/
def owes (j : ℕ) : Duty → Bool
  | ended _ i source => i = j ∧ source = .scheduled
  | raised _ i late => i = j ∧ late
  | rearms _ i => i = j
  | _ => false

/-- It has claimed a run of the job, and has not found its class. -/
def lacks (j : ℕ) : Duty → Bool
  | claimed _ i _ => i = j
  | _ => false

/-- It would end without arming the job if this request raised: it has no handler left. -/
def helpless (j : ℕ) : Duty → Req → Bool
  | ended _ i source, .db (.getJob _) => i = j ∧ source = .scheduled
  | raised _ i late, _ => i = j ∧ late
  | rearms _ i, _ => i = j
  | _, _ => false

/-- What a process may ask. -/
def ok (c : Duty) : Req → Prop
  | .db (.completeRun i _) => ∃ j source, c = works i j source
  | .db (.failRun i _ none) =>
    (∃ j source, c = claimed i j source) ∨ (∃ j source, c = works i j source) ∨ ∃ j b, c = raised i j b
  | .db (.setNextRunAt j _) => ∃ i, c.about = some (i, j)
  | .db (.getRun i) => ∀ k ∈ c.about, k.1 = i
  | .db (.getJob j) => ∀ k ∈ c.about, k.2 = j
  | _ => True

abbrev Moves : Duty → (r : Req) → Except Exc r.Reply → Duty → Prop :=
  Prog.Moving (fun _ r y => Valid r y) next

section

variable {c : Duty} {r : Req} {y : Except Exc r.Reply} {j : ℕ}

lemma about_next {k : ℕ × ℕ} (pid : ℕ) (h : (c.next r y).about = some k) :
    c.about = some k ∨
      c = out ∧ ∃ cl, claimIn pid r y = some cl ∧ k = (cl.run.id, cl.run.jobId) := by
  unfold next at h
  split at h
  · exact .inr ⟨rfl, _, rfl, (Option.some.inj h).symm⟩
  all_goals
    first
    | exact .inl h
    | cases h
    | split at h <;> first | exact .inl h | cases h

lemma source_next {source : JobSource} (h : (c.next r y).source? = some source) :
    c.source? = some source ∨ ∃ i job, (⟨r, y⟩ : Said) = ⟨.db (.getJob i), .ok (some job)⟩ ∧
      job.source = source := by
  unfold next at h
  split at h
  case h_2 => exact .inr ⟨_, _, rfl, Option.some.inj h⟩
  all_goals
    first
    | exact .inl h
    | cases h
    | split at h <;> cases h

/-- **How a process is done with a job**: it raises where nobody helps, or arms the job, or finds the run
or the job missing, or the job not a maintained one. -/
lemma owes_cases (h : c.owes j = true) (hnext : (c.next r y).owes j = false) :
    (∃ exc, y = .error exc ∧ c.helpless j r) ∨
      (∃ i t, (⟨r, y⟩ : Said) = ⟨.db (.setNextRunAt i t), .ok ()⟩) ∨
      (∃ i, (⟨r, y⟩ : Said) = ⟨.db (.getRun i), .ok none⟩) ∨
      ∃ i o, (⟨r, y⟩ : Said) = ⟨.db (.getJob i), .ok o⟩ ∧ ∀ job ∈ o, job.source ≠ .scheduled := by
  cases c with
  | out | claimed | works => cases h
  | ended i i' source =>
    have hlate : (raised i i' true).owes j = true := by
      simp only [owes, decide_eq_true_eq] at h ⊢
      exact ⟨h.1, trivial⟩
    have hrearms : (rearms i i').owes j = true := by
      simp only [owes, decide_eq_true_eq] at h ⊢
      exact h.1
    cases r with
    | db call =>
      cases call with
      | setNextRunAt k t =>
        rcases y with exc | _
        · cases hlate.symm.trans hnext
        · exact .inr (.inl ⟨k, t, rfl⟩)
      | getRun k =>
        rcases y with exc | _ | run
        · cases hlate.symm.trans hnext
        · exact .inr (.inr (.inl ⟨k, rfl⟩))
        · cases h.symm.trans hnext
      | getJob k =>
        rcases y with exc | o
        · exact .inl ⟨exc, rfl, h⟩
        · refine .inr (.inr (.inr ⟨k, o, rfl, ?_⟩))
          rintro job rfl hsource
          rw [next, if_pos hsource, hrearms] at hnext
          cases hnext
      | _ =>
        rcases y with exc | o
        · cases hlate.symm.trans hnext
        · cases h.symm.trans hnext
    | _ =>
      rcases y with exc | o
      · cases hlate.symm.trans hnext
      · cases h.symm.trans hnext
  | raised i i' late =>
    have hrearms : (rearms i i').owes j = true := by
      simp only [owes, decide_eq_true_eq] at h ⊢
      exact h.1
    rcases y with exc | o
    · exact .inl ⟨exc, rfl, h⟩
    · cases r with
      | db call =>
        cases call with
        | failRun => cases hrearms.symm.trans hnext
        | _ => cases h.symm.trans hnext
      | _ => cases h.symm.trans hnext
  | rearms i i' =>
    rcases y with exc | o
    · exact .inl ⟨exc, rfl, h⟩
    · cases r with
      | db call =>
        cases call with
        | setNextRunAt k t => exact .inr (.inl ⟨k, t, rfl⟩)
        | getJob k =>
          refine .inr (.inr (.inr ⟨k, o, rfl, ?_⟩))
          rintro job rfl hsource
          rw [next, if_pos hsource, h] at hnext
          cases hnext
        | _ => cases h.symm.trans hnext
      | _ => cases h.symm.trans hnext

end

/-! ### What every process keeps to -/

def Settled (c : Duty) : Prop := ∀ j, c.owes j = false

/-- Where `_run` raises. A record without a task raises without a request. -/
def Raises (i j : ℕ) (c : Duty) : Prop := (∃ b, c = raised i j b) ∨ ∃ source, c = works i j source

def Leaves {α : Type} (i j : ℕ) (c₀ : Duty) : Except Exc α → Duty → Prop
  | .ok _, c => c = c₀
  | .error _, c => Raises i j c

def AfterTask (i j : ℕ) (source : JobSource) : Except Exc (Worker.TaskEnd × TaskContext) → Duty → Prop
  | .ok (.ok, _), c => c = works i j source
  | .ok (.failed, _), c => c = ended i j source
  | .ok (.cancel, _), c | .ok (.retry, _), c => c = out
  | .error _, c => Raises i j c

def AfterRun (i j : ℕ) : Except Exc Unit → Duty → Prop
  | .ok _, c => Settled c
  | .error _, c => Raises i j c

/-- As a claim ends. -/
def AfterClaim (v : Except Exc (Option RunRow)) (c : Duty) : Prop :=
  (∃ run, v = .ok (some run) ∧ c = claimed run.id run.jobId none) ∨
    (∀ run, v ≠ .ok (some run)) ∧ c = out

def Handled (i j : ℕ) (c : Duty) : Prop := c = rearms i j ∨ ∃ source, c = ended i j source

section Worker

variable {i j : ℕ} {source : JobSource} {cls : JobCls} {job : JobRow}

lemma settled_out : Settled out := by
  intro j
  rfl

lemma raises_raised (b : Bool) : Raises i j (raised i j b) := .inl ⟨b, rfl⟩

lemma compensateFrom_duty (records : List TaskRow) (ctx : TaskContext) :
    (Worker.compensateFrom i cls records ctx).Keeps Moves ok (Leaves i j (works i j source))
      (works i j source) := by
  induction records generalizing ctx with
  | nil => rfl
  | cons record records ih =>
    unfold Worker.compensateFrom
    split
    · exact ih ctx
    · split
      · exact .inr ⟨source, rfl⟩
      · refine .ask trivial (fun _ => raises_raised false) fun undone _ => ?_
        refine .ask trivial (fun _ => raises_raised false) fun _ _ => ?_
        exact ih _

lemma compensate_duty (ctx : TaskContext) :
    (Worker.compensate i cls ctx).Keeps Moves ok (Leaves i j (works i j source)) (works i j source) :=
  .ask trivial (fun _ => raises_raised false) fun _ _ => compensateFrom_duty _ ctx

lemma finalizeFailed_duty (error : String) :
    (Worker.finalizeFailed job i error).Keeps Moves ok (Leaves i j (ended i j source))
      (works i j source) := by
  refine .ask (.inr (.inl ⟨j, source, rfl⟩)) (fun _ => raises_raised false) fun _ _ => ?_
  split
  · rfl
  · refine .ask trivial (fun _ => raises_raised true) fun attempts _ => ?_
    split
    · refine .ask trivial (fun _ => raises_raised true) fun retryAt _ => ?_
      refine .ask trivial (fun _ => raises_raised true) fun _ _ => ?_
      rfl
    · rfl

/-- **`_reschedule` arms the job**, if it does not raise. -/
lemma reschedule_duty (hj : job.id = j) (ctx : TaskContext) :
    (Worker.reschedule job i ctx).Keeps Moves ok (AfterRun i j) (ended i j job.source) := by
  unfold Worker.reschedule
  split
  · rename_i hsource
    intro k
    simp [owes, hsource]
  · refine .ask ?_ (fun _ => raises_raised true) fun run _ => ?_
    · rintro k ⟨⟩
      rfl
    · cases run with
      | none => exact settled_out
      | some run =>
        refine .ask trivial (fun _ => raises_raised true) fun next _ => ?_
        refine .last ⟨i, hj ▸ rfl⟩ ?_
        rintro (e | _)
        · exact raises_raised true
        · exact settled_out

/-- **`_reschedule_on_error` arms the job**, or raises. -/
lemma rescheduleOnError_duty {run : RunRow} {c : Duty} (hc : Handled i run.jobId c) :
    (Worker.rescheduleOnError run).Keeps Moves ok (fun _ c => Settled c) c := by
  have habout : c.about = some (i, run.jobId) := by
    rcases hc with rfl | ⟨source, rfl⟩ <;> rfl
  have hnext : ∀ job : JobRow, c.next (.db (.getJob run.jobId)) (.ok (some job)) =
      if job.source = .scheduled then rearms i run.jobId else out := by
    rcases hc with rfl | ⟨source, rfl⟩ <;> exact fun _ => rfl
  refine .ask ?_ (fun e => ?_) fun job hjob => ?_
  · rw [ok, habout]
    rintro k ⟨⟩
    rfl
  · rcases hc with rfl | ⟨source, rfl⟩ <;> exact settled_out
  cases job with
  | none => rcases hc with rfl | ⟨source, rfl⟩ <;> exact settled_out
  | some job =>
    rw [hnext]
    change Prog.Keeps _ _ (if job.source ≠ .scheduled then _ else _) _ _
    split
    · exact settled_out
    · rename_i hsource
      rw [if_pos (not_not.1 hsource)]
      refine .ask trivial (fun _ => settled_out) fun now _ => ?_
      refine .last ⟨i, (show job.id = run.jobId from hjob) ▸ rfl⟩ ?_
      rintro (e | _) <;> exact settled_out

lemma runTask_duty (ctx : TaskContext) (pos : ℕ) (task : TaskCls) (existing : Option TaskRow) :
    (Worker.runTask i cls job ctx pos task existing).Keeps Moves ok (AfterTask i j source)
      (works i j source) := by
  refine .ask trivial (fun _ => raises_raised false) fun _ _ => ?_
  refine .ask trivial (fun _ => raises_raised false) fun ran _ => ?_
  obtain ⟨exc | v, state⟩ := ran
  · change Prog.Keeps _ _ (if exc.isJobCancelled then _ else _) _ (works i j source)
    split
    · refine .ask trivial (fun _ => raises_raised false) fun _ _ => ?_
      refine .ask trivial (fun _ => raises_raised false) fun _ _ => ?_
      rfl
    · split
      · refine .ask trivial (fun _ => raises_raised false) fun _ _ => ?_
        refine .ask trivial (fun _ => raises_raised false) fun _ _ => ?_
        refine (compensate_duty _).then_bind (fun _ _ h => h) ?_
        rintro ctx _ rfl
        refine (finalizeFailed_duty _).then_bind (fun _ _ h => h) ?_
        rintro _ _ rfl
        rfl
      · refine .ask trivial (fun _ => raises_raised false) fun retryAt _ => ?_
        refine .ask trivial (fun _ => raises_raised false) fun _ _ => ?_
        refine .ask trivial (fun _ => raises_raised false) fun _ _ => ?_
        refine .ask trivial (fun _ => raises_raised false) fun _ _ => ?_
        rfl
  · refine .ask trivial (fun _ => raises_raised false) fun _ _ => ?_
    refine .ask trivial (fun _ => raises_raised false) fun _ _ => ?_
    rfl

lemma runTasks_duty (records : List TaskRow) (tasks : List TaskCls) (pos : ℕ) (ctx : TaskContext) :
    (Worker.runTasks i cls job records tasks pos ctx).Keeps Moves ok (AfterTask i j source)
      (works i j source) := by
  induction tasks generalizing pos ctx with
  | nil => rfl
  | cons task tasks ih =>
    refine (runTask_duty ctx pos task _).then_bind (fun _ _ h => h) ?_
    rintro ⟨_ | _ | _ | _, ctx⟩ c h
    · obtain rfl : c = works i j source := h
      exact ih (pos + 1) ctx
    all_goals exact h

lemma resume_duty (run : RunRow) (records : List TaskRow) :
    (Worker.resume run job cls records).Keeps Moves ok (AfterRun run.id job.id)
      (works run.id job.id job.source) := by
  unfold Worker.resume
  dsimp only
  split
  · refine .ask trivial (fun _ => raises_raised false) fun _ _ => ?_
    refine (compensate_duty _).then_bind (fun _ _ h => h) ?_
    rintro ctx _ rfl
    refine (finalizeFailed_duty _).then_bind (fun _ _ h => h) ?_
    rintro _ _ rfl
    exact reschedule_duty rfl ctx
  · refine (runTasks_duty records _ _ _).then_bind (fun _ _ h => h) ?_
    rintro ⟨_ | _ | _ | _, ctx⟩ c h
    · obtain rfl : c = works run.id job.id job.source := h
      refine Prog.Keeps.ask ⟨_, _, rfl⟩ (fun _ => raises_raised false) fun _ _ => ?_
      refine .ask trivial (fun _ => raises_raised true) fun _ _ => ?_
      exact reschedule_duty rfl ctx
    · obtain rfl : c = out := h
      exact settled_out
    · obtain rfl : c = out := h
      exact settled_out
    · obtain rfl : c = ended run.id job.id job.source := h
      exact reschedule_duty rfl ctx

lemma run_duty (w : Worker) (run : RunRow) :
    (w.run run).Keeps Moves ok (AfterRun run.id run.jobId) (claimed run.id run.jobId none) := by
  refine .ask ?_ (fun _ => raises_raised false) fun job hjob => ?_
  · rintro k ⟨⟩
    rfl
  cases job with
  | none =>
    refine .last (.inl ⟨_, _, rfl⟩) ?_
    rintro (e | _)
    · exact raises_raised false
    · exact settled_out
  | some job =>
    have hid : job.id = run.jobId := hjob
    change Prog.Keeps _ _ (if job.status = .cancelled then _ else _) _
      (claimed run.id run.jobId (some job.source))
    rw [← hid]
    split
    · refine .last trivial ?_
      rintro (e | _)
      · exact raises_raised false
      · exact settled_out
    · split
      · refine .last (.inl ⟨_, _, rfl⟩) ?_
        rintro (e | _)
        · exact raises_raised false
        · exact settled_out
      · refine .ask trivial (fun _ => raises_raised false) fun records _ => ?_
        exact resume_duty run records

/-- An execution ends with its job armed, if nothing is raised in its handler. -/
lemma execute_duty (w : Worker) (run : RunRow) :
    (w.execute run).Keeps Moves ok (fun _ c => Settled c) (claimed run.id run.jobId none) := by
  refine .tryCatch ((run_duty w run).mono ?_)
  rintro (e | _) c hc
  · rcases hc with ⟨b, rfl⟩ | ⟨source, rfl⟩
    · refine Prog.Keeps.ask (.inr (.inr ⟨_, b, rfl⟩)) (fun _ => settled_out) fun _ _ => ?_
      exact rescheduleOnError_duty (.inl rfl)
    · refine Prog.Keeps.ask (.inr (.inl ⟨_, source, rfl⟩)) (fun _ => ?_) fun _ _ => ?_
      · intro k
        simp [owes, next]
      · exact rescheduleOnError_duty (.inr ⟨source, rfl⟩)
  · exact hc

lemma tick_duty (w : Worker) : Pool.InPhase Moves ok Settled w.tick out := by
  have hout : ∀ e, AfterClaim (.error e) out := fun e => .inr ⟨fun run h => (by cases h), rfl⟩
  have hnone : AfterClaim (.ok none) out := .inr ⟨fun run h => (by cases h), rfl⟩
  have hclaim : w.claim.Keeps Moves ok AfterClaim out := by
    refine .ask trivial hout fun now _ => ?_
    refine .ask trivial hout fun now' _ => ?_
    refine .ask trivial hout fun row _ => ?_
    cases row with
    | none => exact hnone
    | some runId =>
      refine .last trivial ?_
      rintro (e | _ | run)
      · exact hout e
      · exact hnone
      · exact .inl ⟨run, rfl, rfl⟩
  refine hclaim.then_bind ?_ ?_
  · rintro e _ (⟨run, heq, -⟩ | ⟨-, rfl⟩)
    · cases heq
    · exact settled_out
  · rintro (_ | run) _ (⟨run', heq, rfl⟩ | ⟨hne, rfl⟩)
    · cases heq
    · exact settled_out
    · cases heq
      exact execute_duty w run
    · exact absurd rfl (hne run)

end Worker

/-- **Every process keeps to it.** -/
theorem kind_duty (k : Kind) : Pool.InPhase Moves ok Settled k.program out := by
  have hother : (∀ r, k.May r → out.ok r ∧ ∀ y, out.next r y = out) →
      Pool.InPhase Moves ok Settled k.program out := by
    intro hmay
    have hstays : k.program.Within Moves ok (· = out) := by
      refine (Kind.asks_may k).stays ?_ ?_
      · rintro _ r rfl hr
        exact (hmay r hr).1
      · rintro _ r y _ rfl hr ⟨-, rfl⟩
        exact (hmay r hr).2 y
    refine (hstays out rfl).mono ?_
    rintro _ _ rfl
    exact settled_out
  cases k with
  | worker w => exact tick_duty w
  | _ =>
    refine hother fun r hr => ?_
    cases r with
    | db c =>
      cases c with
      | claimRun | completeRun | failRun | setNextRunAt => exact hr.elim
      | getRun | getJob => exact ⟨by rintro _ ⟨⟩, fun y => rfl⟩
      | _ => exact ⟨trivial, fun y => rfl⟩
    | _ => exact ⟨trivial, fun y => rfl⟩

end Duty

end Pyreljob
