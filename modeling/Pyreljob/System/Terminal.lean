import Pyreljob.Model.System
import Pyreljob.Store.Effect

/-!
What becomes of a run that is done.

Nothing but `cancel_run` changes the status, result or error of a run that has succeeded, failed or
been cancelled: every other statement that writes them asks for a status in flight. `cancel_run` asks
for nothing, and a worker whose lease was lost may still issue it, when its task raises
`JobCancelledError` after somebody else has finished the run.
-/

namespace Pyreljob

open Lib

/-- The event deleted the run: a `delete_job` or a `prune_runs`. -/
def Removes (i : ℕ) (ev : Ev) : Prop :=
  ((∃ j, ev.req = .db (.deleteJob j)) ∨ ∃ ids, ev.req = .db (.deleteRuns ids)) ∧
    (ev.pre.runs.get? i).isSome ∧ ev.post.runs.get? i = none

/-- From `p` to `p'`, every run that was done has kept its status, result and error, or was deleted
on the way. -/
def DoneStays (p p' : System) : Prop :=
  ∀ i r, p.shared.runs.get? i = some r → r.status.isDone →
    (∃ r', p'.shared.runs.get? i = some r' ∧ r'.status = r.status ∧ r'.result = r.result ∧
      r'.error = r.error) ∨
    ∃ ev ∈ p'.log.drop p.log.length, Removes i ev

/-- A `cancel_run` commits on a run that has succeeded or failed. -/
def lateCancel (p : System) : Act → Bool
  | .act pid (.commit _) =>
    match p.pending pid with
    | some (.db (.cancelRun i)) =>
      (p.shared.runs.get? i).any fun r => r.status = .succeeded ∨ r.status = .failed
    | _ => false
  | _ => false

/-- No `cancel_run` commits on a run that has succeeded or failed. -/
def NoLateCancel (p : System) (l : Act) : Prop := lateCancel p l = false

instance (p : System) (l : Act) : Decidable (NoLateCancel p l) :=
  inferInstanceAs (Decidable (lateCancel p l = false))

lemma done_step {p p' : System} {l : Act} (h : Pool.step answer Kind.program p l = some p')
    (hC : NoLateCancel p l) {i : ℕ} {r : RunRow} (hr : p.shared.runs.get? i = some r)
    (hd : r.status.isDone) :
    (∃ r', p'.shared.runs.get? i = some r' ∧ r'.status = r.status ∧ r'.result = r.result ∧
      r'.error = r.error) ∨ ∃ ev, p'.log = p.log ++ [ev] ∧ Removes i ev := by
  rcases System.step_cases h with hsame | ⟨pid, c, e, y, rfl, hasks, hx, hlog⟩
  · exact .inl ⟨r, hsame ▸ hr, rfl, rfl, rfl⟩
  · have hstep := exec_run hx i
    rw [hr] at hstep
    rcases hstep.done hd with hkept | ⟨hnone, hc⟩ | ⟨rfl, hs⟩
    · exact .inl hkept
    · refine .inr ⟨_, hlog, ?_, by simp [hr], hnone⟩
      rcases hc with ⟨j, rfl⟩ | ⟨ids, rfl⟩
      · exact .inl ⟨j, rfl⟩
      · exact .inr ⟨ids, rfl⟩
    · simp [NoLateCancel, lateCancel, hasks, hr] at hC
      rcases hs with hs | hs <;> simp [hs] at hC

lemma done_run {p p' : System} (h : System.Run NoLateCancel p p') : DoneStays p p' := by
  intro i r hr hd
  induction h with
  | refl => exact .inl ⟨r, hr, rfl, rfl, rfl⟩
  | @tail p₁ p₂ hrun hmove ih =>
    obtain ⟨l, hC, hstep⟩ := hmove
    obtain ⟨log, hlog⟩ := Pool.log_prefix hrun
    rcases ih with ⟨r₁, hr₁, hs, hres, herr⟩ | ⟨ev, hev, hrem⟩
    · rcases done_step hstep hC hr₁ (hs ▸ hd) with ⟨r₂, hr₂, hs', hres', herr'⟩ | ⟨ev, hl, hrem⟩
      · exact .inl ⟨r₂, hr₂, hs'.trans hs, hres'.trans hres, herr'.trans herr⟩
      · refine .inr ⟨ev, ?_, hrem⟩
        rw [hl, hlog, List.append_assoc, List.drop_left]
        exact List.mem_append_right _ (List.mem_singleton_self _)
    · refine .inr ⟨ev, ?_, hrem⟩
      obtain ⟨log', hlog'⟩ := Pool.log_prefix (Relation.ReflTransGen.single ⟨l, hC, hstep⟩)
      rw [hlog, List.drop_left] at hev
      rw [hlog', hlog, List.append_assoc, List.drop_left]
      exact List.mem_append_left _ hev

/-- A `cancel_run` that commits on a run that has succeeded or failed does change it. -/
lemma late_cancel {p p' : System} {l : Act} (h : Pool.step answer Kind.program p l = some p')
    (hC : ¬ NoLateCancel p l) : ¬ DoneStays p p' := by
  unfold NoLateCancel lateCancel at hC
  split at hC
  · rename_i pid e
    split at hC
    · rename_i i hasks
      obtain ⟨r, hr, hs⟩ := (Option.any_eq_true _ _).1 (by simpa using hC)
      obtain ⟨c, y, hasks', hx, hlog⟩ := System.step_commit h
      rw [hasks] at hasks'
      cases hasks'
      simp only [Call.exec, Option.some.injEq, Prod.mk.injEq] at hx
      have hpost : p'.shared.runs.get? i = some { r with
          status := .cancelled, finishedAt := some e.now, lockedAt := none,
          updatedAt := some e.now } := by
        rw [← hx.1]
        simp [DB.cancelRun, hr, run_id_of_get? hr]
      have hs : r.status = .succeeded ∨ r.status = .failed := by simpa using hs
      intro hstay
      rcases hstay i r hr (by rcases hs with hs | hs <;> simp [hs, RunStatus.isDone]) with
        ⟨r', hr', hst, -, -⟩ | ⟨ev, hev, hrem⟩
      · rw [hpost] at hr'
        cases hr'
        rcases hs with hs | hs <;> simp [hs] at hst
      · rw [hlog, List.drop_left, List.mem_singleton] at hev
        rw [hev] at hrem
        rcases hrem.1 with ⟨j, hj⟩ | ⟨ids, hj⟩ <;> cases hj
    · exact absurd rfl hC
  · exact absurd rfl hC

/-- **Terminal runs are final, but for a late `cancel_run`.** In every run of the system in which no
`cancel_run` commits on a run that has succeeded or failed, runs that are done stay as they are until
they are deleted; and every `cancel_run` that does so changes such a run. -/
theorem done_runs_stay (p p' : System) :
    (p.Reached NoLateCancel → System.Run NoLateCancel p p' → DoneStays p p') ∧
    ∀ l : Act, ¬ NoLateCancel p l → Pool.step answer Kind.program p l = some p' → ¬ DoneStays p p' :=
  ⟨fun _ h => done_run h, fun _ hC h => late_cancel h hC⟩

/-- A worker is overtaken, and then its task fails; the run stays as the other one has left it. -/
theorem done_runs_stay_overtaken : ∃ p p' : System,
    System.init.play NoLateCancel (overtaken ++ finished) = some p ∧
    p.play NoLateCancel (.act 1 (.ran (.error (.other "OSError" "")) []) :: reads 1 102 ::
      commits 1 3 102) = some p' ∧ DoneStays p p' := by
  have hall : ((System.init.play NoLateCancel (overtaken ++ finished)).bind fun p =>
      p.play NoLateCancel (.act 1 (.ran (.error (.other "OSError" "")) []) :: reads 1 102 ::
        commits 1 3 102)).isSome := by decide
  obtain ⟨p', h⟩ := Option.isSome_iff_exists.1 hall
  obtain ⟨p, hp, hp'⟩ := Option.bind_eq_some_iff.1 h
  exact ⟨p, p', hp, hp', (done_runs_stay p p').1 (Pool.run_of_play hp) (Pool.run_of_play hp')⟩

/-- If the task raises `JobCancelledError` instead, the worker marks it as cancelled, and its
`cancel_run` turns the run that has succeeded into a cancelled one. -/
theorem done_run_cancelled : ∃ p p' : System,
    System.init.play System.Any (overtaken ++ finished ++
      .act 1 (.ran (.error (.jobCancelledError "job cancelled")) []) :: commits 1 1 102) = some p ∧
    p.play System.Any (commits 1 1 103) = some p' ∧
    (p.shared.runs.get? 0).map RunRow.status = some .succeeded ∧
    (p'.shared.runs.get? 0).map RunRow.status = some .cancelled ∧ ¬ DoneStays p p' := by
  have hall : ((System.init.play System.Any (overtaken ++ finished ++
      .act 1 (.ran (.error (.jobCancelledError "job cancelled")) []) :: commits 1 1 102)).any
        fun p => (p.shared.runs.get? 0).map RunRow.status = some .succeeded ∧
          lateCancel p (.act 1 (committed 103)) ∧
          (p.play System.Any (commits 1 1 103)).any fun p' =>
            (p'.shared.runs.get? 0).map RunRow.status = some .cancelled) = true := by decide
  obtain ⟨p, hp, hp'⟩ := (Option.any_eq_true _ _).1 hall
  simp only [Bool.decide_and, Bool.and_eq_true, decide_eq_true_eq, Option.any_eq_true] at hp'
  obtain ⟨hs, hlate, p', hp', hs'⟩ := hp'
  have hstep : Pool.step answer Kind.program p (.act 1 (committed 103)) =
      some p' := by
    simpa [System.play, Pool.play, System.Any, commits] using hp'
  exact ⟨p, p', hp, hp', hs, hs', late_cancel hstep (by simp [NoLateCancel, hlate])⟩

end Pyreljob
