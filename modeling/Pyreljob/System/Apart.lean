import Pyreljob.Store.Records
import Pyreljob.System.Execution
import Pyreljob.System.Failed

/-!
What an execution leaves alone.

Whatever executions run beside each other, each of them writes its own run, the records of that run and
its own job. The only other row that it writes is that of a new run of its job, by which the whole run
is tried again.
-/

namespace Pyreljob

open Lib

/-- All that is not of the run `i` and its job `j` is the same as before, and what was there is there.
A run that is new is one of the job, and ready. -/
structure LeavesAlone (i j : ℕ) (db db' : DB) : Prop where
  runs : ∀ i', i' ≠ i → db'.runs.get? i' = db.runs.get? i' ∨
    db.runs.get? i' = none ∧ ∃ r, db'.runs.get? i' = some r ∧ r.jobId = j ∧ r.status = .ready
  records : ∀ i', i' ≠ i → ∀ pos, db'.record i' pos = db.record i' pos
  jobs : ∀ j', j' ≠ j → db'.jobs.get? j' = db.jobs.get? j'
  run_stays : (db.runs.get? i).isSome → (db'.runs.get? i).isSome
  records_stay : ∀ pos, (db.record i pos).isSome → (db'.record i pos).isSome
  job_stays : (db.jobs.get? j).isSome → (db'.jobs.get? j).isSome

lemma LeavesAlone.refl (i j : ℕ) (db : DB) : LeavesAlone i j db db where
  runs := fun _ _ => .inl rfl
  records := fun _ _ _ => rfl
  jobs := fun _ _ => rfl
  run_stays := id
  records_stay := fun _ => id
  job_stays := id

section

variable {may : Leave} {db db' : DB} {e : Env} {c : Call} {y : Except Exc c.Reply} {i j : ℕ}
variable {w : String} {s : Stage}

/-- What an execution asks for is about its own run and its own job. -/
lemma apart_of_ok (hok : (Phase.exec i j w s).ok may (.db c)) (hx : c.exec db e = some (db', y)) :
    LeavesAlone i j db db' where
  runs := by
    intro i' hne
    have hrow := exec_run hx i'
    generalize db.runs.get? i' = o, db'.runs.get? i' = o' at hrow ⊢
    cases hrow with
    | same => exact .inl rfl
    | created jobId t hi =>
      obtain hfired | ⟨i₀, w₀, hexec⟩ := hok
      · cases hfired
      · cases hexec
        exact .inr ⟨rfl, _, rfl, rfl, rfl⟩
    | completed | retried | cancelled | ctxSet =>
      obtain ⟨j₀, w₀, hexec⟩ := hok
      cases hexec
      exact absurd rfl hne
    | failed =>
      obtain ⟨j₀, w₀, s₀, hexec, -⟩ := hok
      cases hexec
      exact absurd rfl hne
    | enqueued | swept => cases hok.1
    | claimed => cases hok
    | renewed | jobCancelled | progressSet | jobDeleted | pruned => exact hok.elim
  records := by
    intro i' hne pos
    have hrow := exec_record hx i' pos
    generalize db.record i' pos = o, db'.record i' pos = o' at hrow ⊢
    cases hrow with
    | same => rfl
    | inserted | restarted | succeeded | failed | cancelled =>
      obtain ⟨j₀, w₀, hexec⟩ := hok
      cases hexec
      exact absurd rfl hne
    | compensated =>
      obtain hidle | ⟨j₀, w₀, hexec⟩ := hok
      · exact hidle.elim
      · cases hexec
        exact absurd rfl hne
    | erased _ _ hc =>
      unfold DB.erases at hc
      split at hc
      · exact hok.elim
      · exact hok.elim
      · cases hc
  jobs := by
    intro j' hne
    have hrow := exec_job hx j'
    generalize db.jobs.get? j' = o, db'.jobs.get? j' = o' at hrow ⊢
    cases hrow with
    | same => rfl
    | incremented | reset | armed =>
      obtain ⟨i₀, w₀, s₀, hexec⟩ := hok
      cases hexec
      exact absurd rfl hne
    | enqueued | scheduled | revived | rearmed => cases hok.1
    | fired => cases hok.2
    | cancelled | deleted => exact hok.elim
  run_stays := by
    intro hthere
    have hrow := exec_run hx i
    generalize db.runs.get? i = o, db'.runs.get? i = o' at hrow hthere ⊢
    cases hrow with
    | same => exact hthere
    | jobDeleted | pruned => exact hok.elim
    | _ => rfl
  records_stay := by
    intro pos hthere
    have hrow := exec_record hx i pos
    generalize db.record i pos = o, db'.record i pos = o' at hrow hthere ⊢
    cases hrow with
    | same => exact hthere
    | erased _ _ hc =>
      unfold DB.erases at hc
      split at hc
      · exact hok.elim
      · exact hok.elim
      · cases hc
    | _ => rfl
  job_stays := by
    intro hthere
    have hrow := exec_job hx j
    generalize db.jobs.get? j = o, db'.jobs.get? j = o' at hrow hthere ⊢
    cases hrow with
    | same => exact hthere
    | deleted => exact hok.elim
    | _ => rfl

end

lemma executing_of_reached {C : System → Act → Prop} {p : System} (h : p.Reached C) :
    ∃ ph, InPhases {} p ph ∧ Executing p.log ph := by
  refine System.phases (fun _ => True) (fun _ log ph => Executing log ph) (fun _ _ _ _ _ => trivial)
    executing_init (fun _ _ _ _ h => h.gone) ?_ ?_ ?_ h
  · intro p ph pid c e db' y _ _ _ hok hx hG
    have hans : answer p.shared (.db c) (.commit e) = some (db', y) := hx
    exact hG.step hok (valid_of_answer hans)
  · exact fun p ph pid c exc _ hG hok => hG.step hok (valid_error c exc)
  · exact fun p ph pid r a y _ hr _ hok _ hG => hG.step hok (valid_ask hr)

/-- **Executions leave each other's runs alone**, in whatever order they go on: from the claim on, a
worker changes nothing but the run that it has claimed, the records of this run and its job, takes none
of these away, and adds no more than a run of the job that waits to be claimed. -/
theorem executions_apart {C : System → Act → Prop} {p : System} (h : p.Reached C) {l₁ l₂ l₃ : List Ev}
    {e₁ e₂ : Ev} {cl : Claim} (hl : p.log = l₁ ++ e₁ :: l₂ ++ e₂ :: l₃) (hcl : claimOf e₁ = some cl)
    (hpid : e₂.pid = e₁.pid) : LeavesAlone cl.runId cl.run.jobId e₂.pre e₂.post := by
  obtain ⟨p₁, p₂, f, h₁, -, -, hact, -, hlog, hpre, -, hpost⟩ := Pool.event_step h rfl hl
  obtain ⟨ph, hph, hG⟩ := executing_of_reached h₁
  have hok : (ph e₂.pid).ok {} e₂.req := (hph.of_prog? hact.waiting).1
  have hmem : cl ∈ claimsBy e₂.pid p₁.log := by
    rw [mem_claimsBy, hlog, hpid]
    refine ⟨List.mem_filterMap.2 ⟨e₁, ?_, hcl⟩, claimIn_pid hcl⟩
    exact List.mem_append_right _ List.mem_cons_self
  obtain ⟨i, j, w, s, hexec⟩ : ∃ i j w s, ph e₂.pid = .exec i j w s := by
    have hexecutes : (ph e₂.pid).Executes := by
      by_contra hn
      rw [hG.idle _ hn (Phase.ne_gone_of_ok hok)] at hmem
      cases hmem
    revert hexecutes
    cases ph e₂.pid <;> simp [Phase.Executes]
  obtain ⟨cl', hone, rfl, rfl, -⟩ := hG.exec _ i j w s hexec
  rw [hone, List.mem_singleton] at hmem
  subst hmem
  rw [hexec] at hok
  rw [← hpre, ← hpost]
  refine answer_cases (motive := fun r _ db' _ => (Phase.exec cl.runId cl.run.jobId w s).ok {} r →
    LeavesAlone cl.runId cl.run.jobId p₁.shared db') ?_ ?_ ?_ hact.answered hok
  · exact fun c e db' y hx hok => apart_of_ok hok hx
  · exact fun _ _ _ => .refl _ _ _
  · exact fun _ _ _ _ _ _ => .refl _ _ _

/-- A worker that has claimed a run records that its first task has succeeded. -/
theorem executions_apart_firstDone : ∃ (p : System) (l₁ l₂ l₃ : List Ev) (e₁ e₂ : Ev) (cl : Claim),
    System.init.play System.Any (firstDone 1) = some p ∧ p.log = l₁ ++ e₁ :: l₂ ++ e₂ :: l₃ ∧
      claimOf e₁ = some cl ∧ e₂.pid = e₁.pid ∧ LeavesAlone cl.runId cl.run.jobId e₂.pre e₂.post := by
  have hall : ((System.init.play System.Any (firstDone 1)).any fun p =>
      ((p.log[4]?.bind claimOf).any fun c => c.runId = 0) ∧
        p.log[9]?.map Event.pid = p.log[4]?.map Event.pid) = true := by decide
  obtain ⟨p, hp, hend⟩ := (Option.any_eq_true _ _).1 hall
  obtain ⟨hfirst, hsame⟩ := of_decide_eq_true hend
  obtain ⟨cl, hcl, -⟩ := (Option.any_eq_true _ _).1 hfirst
  obtain ⟨e₁, he₁, h₁⟩ := Option.bind_eq_some_iff.1 hcl
  rw [he₁] at hsame
  obtain ⟨e₂, he₂, hpid⟩ := Option.map_eq_some_iff.1 hsame
  obtain ⟨l₁, l₂, l₃, hl⟩ := Pool.split_of_getElem? he₁ he₂ (by decide)
  exact ⟨p, l₁, l₂, l₃, e₁, e₂, cl, hp, hl, h₁, hpid,
    executions_apart (Pool.run_of_play hp) hl h₁ hpid⟩

end Pyreljob
