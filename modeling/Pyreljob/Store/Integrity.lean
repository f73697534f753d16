import Pyreljob.Store.Records

/-!
References between the three tables.

There are no foreign keys: that a run names a job which exists, and a task a run which exists, rests
on the order in which the components issue their statements. `exec_integrity` says which statements
can break it, namely those that insert a row for an id they were given. The deletions cannot, since
they take everything with them that refers to what they delete.
-/

namespace Pyreljob

open Lib

/-- Every run names a job that exists, and every task a run that exists. -/
structure Integrity (db : DB) : Prop where
  runs : ∀ r ∈ db.runs.rows, (db.jobs.get? r.jobId).isSome
  tasks : ∀ t ∈ db.tasks.rows, (db.runs.get? t.runId).isSome

/-- The transaction inserts a row that names a row which is not there. -/
def DB.dangles (db : DB) : Call → Bool
  | .createRun jobId _ => (db.jobs.get? jobId).isNone
  | .startTask runId _ _ _ => (db.runs.get? runId).isNone
  | _ => false

section

variable {db db' : DB} {e : Env} {c : Call} {y : Except Exc c.Reply} {i j pos : ℕ}

lemma integrity_empty : Integrity {} := ⟨by simp [Table.empty], by simp [Table.empty]⟩

lemma Integrity.job_of_run (h : Integrity db) {r : RunRow} (hr : db.runs.get? i = some r) :
    (db.jobs.get? r.jobId).isSome := h.runs r (Table.mem_of_get? hr)

lemma Integrity.run_of_record (h : Integrity db) {t : TaskRow} (ht : db.record i pos = some t) :
    (db.runs.get? i).isSome := by
  have hm : t ∈ db.tasks.select (DB.At i pos) := List.mem_of_mem_head? ht
  obtain ⟨hrow, hi, -⟩ := Table.mem_select.1 hm
  exact hi ▸ h.tasks t (Table.mem_of_get? hrow)

/-- A task is the record of its run at its position, or shares that place with it. -/
lemma record_isSome {t : TaskRow} (ht : t ∈ db.tasks.rows) :
    (db.record t.runId t.position).isSome := by
  have hm : t ∈ db.tasks.select (DB.At t.runId t.position) :=
    Table.mem_select.2 ⟨Table.get?_of_mem ht, rfl, rfl⟩
  rw [DB.record, List.isSome_head?]
  exact List.ne_nil_of_mem hm

lemma record_of_erases (h : c.exec db e = some (db', y)) (hc : db.erases i c) (pos : ℕ) :
    db'.record i pos = none := by
  unfold DB.erases at hc
  split at hc
  · rename_i jobId
    obtain ⟨r, hr, hj⟩ := (Option.any_eq_true _ _).1 hc
    have hmem : i ∈ (db.runs.select fun r => r.jobId = jobId).map RunRow.id :=
      mem_runIds.2 ⟨r, hr, by simpa using hj⟩
    cases h
    simp only [DB.record, DB.deleteJob]
    rw [if_neg (List.ne_nil_of_mem hmem), select_delete_at, if_pos hmem]
    rfl
  · rename_i runIds
    cases h
    simp only [DB.record, DB.deleteRuns]
    rw [select_delete_at, if_pos (by simpa using hc)]
    rfl
  · cases hc

lemma run_of_erases (h : c.exec db e = some (db', y)) (hc : db.erases i c) :
    db'.runs.get? i = none := by
  cases c with
  | deleteJob jobId =>
    obtain ⟨r, hr, hj⟩ := (Option.any_eq_true _ _).1 hc
    cases hr' : db'.runs.get? i with
    | none => rfl
    | some r' =>
      have hstep := exec_run h i
      rw [hr, hr'] at hstep
      cases hstep
      cases h
      exact absurd (of_decide_eq_true hj) (deleteJob_removes hr')
  | deleteRuns runIds =>
    cases h
    have hi : i ∈ runIds := of_decide_eq_true hc
    simp only [DB.deleteRuns, Table.get?_delete, Option.filter_eq_none_iff]
    intro r hr
    simp [run_id_of_get? hr, hi]
  | _ => cases hc

lemma erases_of_gone (h : c.exec db e = some (db', y)) {r : RunRow} (hr : db.runs.get? i = some r)
    (hgone : db'.runs.get? i = none) : db.erases i c := by
  have hstep := exec_run h i
  rw [hr, hgone] at hstep
  cases hstep with
  | jobDeleted => simp [DB.erases, hr]
  | pruned _ runIds hi => simpa [DB.erases] using hi

lemma job_stays (h : c.exec db e = some (db', y)) (hj : (db.jobs.get? j).isSome) {r : RunRow}
    (hr : db'.runs.get? i = some r) (hrj : r.jobId = j) : (db'.jobs.get? j).isSome := by
  have hstep := exec_job h j
  obtain ⟨job, hjob⟩ := Option.isSome_iff_exists.1 hj
  rw [hjob] at hstep
  cases hj' : db'.jobs.get? j with
  | some _ => rfl
  | none =>
    rw [hj'] at hstep
    cases hstep with
    | deleted =>
      cases h
      exact absurd hrj (deleteJob_removes hr)

lemma Integrity.step (hi : Integrity db) (h : c.exec db e = some (db', y))
    (hc : db.dangles c = false) : Integrity db' where
  runs := by
    intro r hr
    have hget := Table.get?_of_mem hr
    have hstep := exec_run h r.id
    rw [RunRow.key_eq] at hget
    rw [hget] at hstep
    rcases hstep.jobId with ⟨-, -, ⟨hj, spec, t, rfl⟩ | ⟨t, rfl⟩⟩ | ⟨r₀, hr₀, hj⟩
    · rcases insertJobAndRun_cases h with rfl | ⟨jobs, runs, hjobs, -, rfl⟩
      · exact hi.runs r hr
      · have hkey : r.jobId = Keyed.key (spec.row e) := hj
        rw [Table.get?_insert hjobs, if_pos hkey]
        rfl
    · refine job_stays h ?_ hget rfl
      simpa [DB.dangles, Option.isSome_iff_ne_none] using hc
    · exact job_stays h (hj ▸ hi.job_of_run hr₀) hget rfl
  tasks := by
    intro t ht
    obtain ⟨t', ht'⟩ := Option.isSome_iff_exists.1 (record_isSome ht)
    have hrun : (db.runs.get? t.runId).isSome := by
      have hstep := exec_record h t.runId t.position
      rw [ht'] at hstep
      generalize ho : db.record t.runId t.position = o at hstep
      cases hstep with
      | inserted name attempts => simpa [DB.dangles, Option.isSome_iff_ne_none] using hc
      | _ => exact hi.run_of_record ho
    obtain ⟨r, hr⟩ := Option.isSome_iff_exists.1 hrun
    by_contra hgone
    have herased := record_of_erases h (erases_of_gone h hr (by simpa using hgone)) t.position
    rw [ht'] at herased
    cases herased

lemma Integrity.broken (hi : Integrity db) (h : c.exec db e = some (db', y)) (hc : db.dangles c) :
    ¬ Integrity db' := by
  intro hi'
  unfold DB.dangles at hc
  split at hc
  · rename_i jobId scheduledAt
    simp only [Call.exec, Option.bind_eq_bind, Option.bind_eq_some_iff, Option.some.injEq,
      Prod.mk.injEq, Prod.exists] at h
    obtain ⟨_, _, h, rfl, -⟩ := h
    obtain ⟨runs, hruns, -, rfl⟩ := createRun_cases h
    have hnew : runs.get? e.runId = some (newRun e jobId scheduledAt) := by
      rw [Table.get?_insert hruns]
      exact if_pos rfl
    have hjob : (db.jobs.get? jobId).isSome := hi'.job_of_run hnew
    rw [Option.isNone_iff_eq_none.1 hc] at hjob
    cases hjob
  · rename_i runId position name attempts
    have hnone : db.tasks.select (DB.At runId position) = [] := by
      refine List.eq_nil_iff_forall_not_mem.2 fun t ht => ?_
      obtain ⟨hrow, hrun, -⟩ := Table.mem_select.1 ht
      have := hi.tasks t (Table.mem_of_get? hrow)
      rw [hrun, Option.isNone_iff_eq_none.1 hc] at this
      cases this
    have hone : db.startTask e runId position name attempts = some (db', y) := h
    have hrec : (db'.record runId position).isSome := by
      simp only [DB.startTask, hnone, scalarOneOrNone, Option.bind_eq_bind,
        Option.bind_eq_some_iff, Option.some.injEq, Prod.mk.injEq] at hone
      obtain ⟨tasks, ht, rfl, -⟩ := hone
      simp [DB.record, Table.select_insert ht, hnone, DB.At]
    obtain ⟨t, ht⟩ := Option.isSome_iff_exists.1 hrec
    have hrun := hi'.run_of_record ht
    rw [(startTask_frame hone).2, Option.isNone_iff_eq_none.1 hc] at hrun
    cases hrun
  · cases hc

/-- **Which transactions keep the references**: those that insert nothing for an id that is gone. -/
theorem exec_integrity (hi : Integrity db) (h : c.exec db e = some (db', y)) :
    Integrity db' ↔ db.dangles c = false := by
  refine ⟨fun hi' => ?_, hi.step h⟩
  by_contra hc
  exact hi.broken h (by simpa using hc) hi'

/-- A run that has just been created has no records, if the references were in order. -/
lemma Integrity.no_record (hi : Integrity db) (h : c.exec db e = some (db', y))
    (hnone : db.runs.get? i = none) (hsome : (db'.runs.get? i).isSome) (pos : ℕ) :
    db'.record i pos = none := by
  have hstep := exec_record h i pos
  have hbefore : db.record i pos = none := by
    by_contra hne
    obtain ⟨t, ht⟩ := Option.ne_none_iff_exists'.1 hne
    have := hi.run_of_record ht
    rw [hnone] at this
    cases this
  rw [hbefore] at hstep
  cases hstep' : db'.record i pos with
  | none => rfl
  | some t =>
    rw [hstep'] at hstep
    cases hstep with
    | inserted name attempts =>
      rw [(startTask_frame h).2, hnone] at hsome
      cases hsome

end

end Pyreljob
