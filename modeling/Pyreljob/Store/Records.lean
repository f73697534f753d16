import Pyreljob.Model.Worker
import Pyreljob.Store.Effect

/-!
The records of one run.

`DB.record` is the view of the table `tasks` by run and position. `RecordStep` lists every way in
which a transaction can change a record, and `exec_record` says that there is no other way. As long
as no position has two records (`DB.OnePer`), which every transaction preserves, what the worker
reads with `tasks` is this view in the order of the positions.
-/

namespace Pyreljob

open Lib

namespace DB

/-- The record of the run at the position. -/
def record (db : DB) (i pos : ℕ) : Option TaskRow := (db.tasks.select (At i pos)).head?

def OnePer (db : DB) (i : ℕ) : Prop := ∀ pos, (db.tasks.select (At i pos)).length ≤ 1

/-- The record at the position has succeeded. -/
def done (db : DB) (i pos : ℕ) : Bool := (db.record i pos).any fun t => t.status = .succeeded

def erases (db : DB) (i : ℕ) : Call → Bool
  | .deleteJob jobId => (db.runs.get? i).any fun r => r.jobId = jobId
  | .deleteRuns runIds => i ∈ runIds
  | _ => false

def wins (db : DB) (i : ℕ) : Call → Bool
  | .claimRun runId workerId now leaseExpiry =>
    runId = i && (db.claimRun runId workerId now leaseExpiry).2.isSome
  | _ => false

end DB

/-- How a transaction changes the record of the run `i` at the position `pos`. -/
inductive RecordStep (db : DB) (e : Env) (i pos : ℕ) :
    Call → Option TaskRow → Option TaskRow → Prop
  | same (c : Call) (o : Option TaskRow) : RecordStep db e i pos c o o
  | inserted (name : String) (attempts : ℕ) :
      RecordStep db e i pos (.startTask i pos name attempts) none (some
        { id := e.taskId, runId := i, position := pos, taskName := name, status := .running,
          attempts := attempts, createdAt := e.now, updatedAt := some e.now,
          startedAt := some e.now })
  | restarted (t : TaskRow) (name : String) (attempts : ℕ) :
      RecordStep db e i pos (.startTask i pos name attempts) (some t) (some
        { t with taskName := name, status := .running, result := none, error := none,
                 attempts := attempts, retryAt := none, updatedAt := some e.now,
                 startedAt := some e.now, finishedAt := none })
  | succeeded (t : TaskRow) (result : Value) :
      RecordStep db e i pos (.succeedTask i pos result) (some t) (some
        { t with status := .succeeded, result := some result, error := none,
                 finishedAt := some e.now, updatedAt := some e.now })
  | failed (t : TaskRow) (error : String) (attempts : ℕ) (retryAt : Option Time) :
      RecordStep db e i pos (.failTask i pos error attempts retryAt) (some t) (some
        { t with status := .failed, error := some error, attempts := attempts, retryAt := retryAt,
                 finishedAt := some e.now, updatedAt := some e.now })
  | cancelled (t : TaskRow) :
      RecordStep db e i pos (.cancelTask i pos) (some t) (some
        { t with status := .cancelled, finishedAt := some e.now, updatedAt := some e.now })
  | compensated (t : TaskRow) :
      RecordStep db e i pos (.compensateTask i pos) (some t) (some
        { t with status := .compensated, compensatedAt := some e.now, updatedAt := some e.now })
  | erased (c : Call) (o : Option TaskRow) (hc : db.erases i c) : RecordStep db e i pos c o none

section

variable {db db' : DB} {e : Env} {c : Call} {y : Except Exc c.Reply} {i pos : ℕ}

lemma eq_nil_of_scalarOneOrNone {α : Type} {l : List α} (h : scalarOneOrNone l = .ok none) :
    l = [] := by
  cases l with
  | nil => rfl
  | cons a l => cases l <;> cases h

lemma record_at {t : TaskRow} (h : db.record i pos = some t) : t.runId = i ∧ t.position = pos := by
  have hm : t ∈ db.tasks.select (DB.At i pos) := List.mem_of_mem_head? h
  exact (Table.mem_select.1 hm).2

lemma select_update_at (i' pos' : ℕ) {f : TaskRow → TaskRow} (hf)
    (hat : ∀ t, (f t).runId = t.runId ∧ (f t).position = t.position) :
    (db.tasks.update (DB.At i' pos') f hf).select (DB.At i pos) =
      if i = i' ∧ pos = pos' then (db.tasks.select (DB.At i pos)).map f
      else db.tasks.select (DB.At i pos) := by
  rw [Table.select_update]
  · split
    · rename_i hp
      obtain ⟨rfl, rfl⟩ := hp
      refine List.map_congr_left fun t ht => ?_
      rw [if_pos (Table.mem_select.1 ht).2]
    · rename_i hp
      refine (List.map_congr_left fun t ht => ?_).trans (List.map_id _)
      obtain ⟨hr, hpos⟩ := (Table.mem_select.1 ht).2
      rw [if_neg]
      · rfl
      · rintro ⟨hr', hpos'⟩
        exact hp ⟨hr.symm.trans hr', hpos.symm.trans hpos'⟩
  · intro t _
    simp only [DB.At, (hat t).1, (hat t).2]

lemma RecordStep.of_update (i' pos' : ℕ) {f : TaskRow → TaskRow} (hf)
    (hat : ∀ t, (f t).runId = t.runId ∧ (f t).position = t.position)
    (hstep : ∀ t, i = i' → pos = pos' → RecordStep db e i pos c (some t) (some (f t))) :
    RecordStep db e i pos c (db.tasks.select (DB.At i pos)).head?
      ((db.tasks.update (DB.At i' pos') f hf).select (DB.At i pos)).head? := by
  rw [select_update_at i' pos' hf hat]
  split
  · rename_i hp
    rw [List.head?_map]
    cases (db.tasks.select (DB.At i pos)).head? with
    | none => exact .same _ _
    | some t => exact hstep t hp.1 hp.2
  · exact .same _ _

lemma select_delete_at (ids : List ℕ) :
    (db.tasks.delete fun t => t.runId ∈ ids).select (DB.At i pos) =
      if i ∈ ids then [] else db.tasks.select (DB.At i pos) := by
  rw [Table.select_delete]
  split
  · rename_i hi
    refine List.filter_eq_nil_iff.2 fun t ht => ?_
    have hr := (Table.mem_select.1 ht).2.1
    simpa [hr] using hi
  · rename_i hi
    refine List.filter_eq_self.2 fun t ht => ?_
    have hr := (Table.mem_select.1 ht).2.1
    simpa [hr] using hi

lemma mem_runIds {j : ℕ} : i ∈ (db.runs.select fun r => r.jobId = j).map RunRow.id ↔
    ∃ r, db.runs.get? i = some r ∧ r.jobId = j := by
  rw [List.mem_map]
  constructor
  · rintro ⟨r, hr, rfl⟩
    exact ⟨r, Table.mem_select.1 hr⟩
  · rintro ⟨r, hr, hj⟩
    have hi := run_id_of_get? hr
    exact ⟨r, Table.mem_select.2 ⟨by rwa [RunRow.key_eq, hi], hj⟩, hi⟩

/-- **The only ways a transaction changes a record.** -/
theorem exec_record (h : c.exec db e = some (db', y)) (i pos : ℕ) :
    RecordStep db e i pos c (db.record i pos) (db'.record i pos) := by
  unfold DB.record
  cases c with
  | insertJobAndRun spec scheduledAt =>
    rcases insertJobAndRun_cases h with rfl | ⟨jobs, runs, -, -, rfl⟩ <;> exact .same _ _
  | insertJob spec =>
    rcases insertJob_cases h with rfl | ⟨jobs, -, rfl⟩ <;> exact .same _ _
  | createRun jobId scheduledAt =>
    simp only [Call.exec, Option.bind_eq_bind, Option.bind_eq_some_iff, Option.some.injEq,
      Prod.mk.injEq, Prod.exists] at h
    obtain ⟨_, _, h, rfl, -⟩ := h
    obtain ⟨runs, -, -, rfl⟩ := createRun_cases h
    exact .same _ _
  | startTask runId position name attempts =>
    simp only [Call.exec] at h
    unfold DB.startTask at h
    split at h
    · cases h
      exact .same _ _
    · rename_i hnone
      simp only [Option.bind_eq_bind, Option.bind_eq_some_iff, Option.some.injEq,
        Prod.mk.injEq] at h
      obtain ⟨tasks, ht, rfl, -⟩ := h
      rw [Table.select_insert ht]
      by_cases hp : i = runId ∧ pos = position
      · obtain ⟨rfl, rfl⟩ := hp
        rw [eq_nil_of_scalarOneOrNone hnone]
        simpa [DB.At] using RecordStep.inserted name attempts
      · rw [if_neg, List.append_nil]
        · exact .same _ _
        · rintro ⟨rfl, rfl⟩
          exact hp ⟨rfl, rfl⟩
    · cases h
      refine .of_update runId position (fun _ => by rfl) (fun _ => by exact ⟨rfl, rfl⟩) ?_
      rintro t rfl rfl
      exact .restarted t name attempts
  | succeedTask runId position result =>
    cases h
    refine .of_update runId position (fun _ => by rfl) (fun _ => by exact ⟨rfl, rfl⟩) ?_
    rintro t rfl rfl
    exact .succeeded t result
  | failTask runId position error attempts retryAt =>
    cases h
    refine .of_update runId position (fun _ => by rfl) (fun _ => by exact ⟨rfl, rfl⟩) ?_
    rintro t rfl rfl
    exact .failed t error attempts retryAt
  | cancelTask runId position =>
    cases h
    refine .of_update runId position (fun _ => by rfl) (fun _ => by exact ⟨rfl, rfl⟩) ?_
    rintro t rfl rfl
    exact .cancelled t
  | compensateTask runId position =>
    cases h
    refine .of_update runId position (fun _ => by rfl) (fun _ => by exact ⟨rfl, rfl⟩) ?_
    rintro t rfl rfl
    exact .compensated t
  | deleteJob jobId =>
    cases h
    simp only [DB.deleteJob]
    split
    · exact .same _ _
    · rw [select_delete_at]
      split
      · rename_i hi
        obtain ⟨r, hr, hj⟩ := mem_runIds.1 hi
        exact .erased _ _ (by simp [DB.erases, hr, hj])
      · exact .same _ _
  | deleteRuns runIds =>
    cases h
    simp only [DB.deleteRuns]
    rw [select_delete_at]
    split
    · rename_i hi
      exact .erased _ _ (by simpa [DB.erases] using hi)
    · exact .same _ _
  | failRun runId error retryAt =>
    cases h
    cases retryAt <;> exact .same _ _
  | _ =>
    cases h
    exact .same _ _

/-- A record that has succeeded goes on to say so, unless the run is deleted, or the task is undone,
started again, or reported once more. -/
lemma RecordStep.succeeded_stays {t : TaskRow} {o : Option TaskRow}
    (h : RecordStep db e i pos c (some t) o) (ht : t.status = .succeeded) :
    (o.any fun t => t.status = .succeeded) ∨ c = .compensateTask i pos ∨ db.erases i c ∨
      (∃ name n, c = .startTask i pos name n) ∨ (∃ error n at', c = .failTask i pos error n at') ∨
      c = .cancelTask i pos := by
  cases h with
  | same => exact .inl (by simp [ht])
  | succeeded => exact .inl rfl
  | compensated => exact .inr (.inl rfl)
  | erased _ _ hc => exact .inr (.inr (.inl hc))
  | restarted _ name n => exact .inr (.inr (.inr (.inl ⟨name, n, rfl⟩)))
  | failed _ error n t => exact .inr (.inr (.inr (.inr (.inl ⟨error, n, t, rfl⟩))))
  | cancelled => exact .inr (.inr (.inr (.inr (.inr rfl))))

/-! ### One record for each position -/

/-- **No transaction gives a position a second record.** -/
theorem exec_onePer (h : c.exec db e = some (db', y)) (h₁ : db.OnePer i) : db'.OnePer i := by
  have hupdate : ∀ {f : TaskRow → TaskRow} (hf) (i' pos' : ℕ),
      (∀ t, (f t).runId = t.runId ∧ (f t).position = t.position) → ∀ pos,
        ((db.tasks.update (DB.At i' pos') f hf).select (DB.At i pos)).length ≤ 1 := by
    intro f hf i' pos' hat pos
    have := h₁ pos
    rw [select_update_at i' pos' hf hat]
    split
    · rwa [List.length_map]
    · exact this
  have hdelete : ∀ (ids : List ℕ) pos,
      ((db.tasks.delete fun t => t.runId ∈ ids).select (DB.At i pos)).length ≤ 1 := by
    intro ids pos
    rw [select_delete_at]
    split
    · simp
    · exact h₁ pos
  intro pos
  cases c with
  | insertJobAndRun spec scheduledAt =>
    rcases insertJobAndRun_cases h with rfl | ⟨jobs, runs, -, -, rfl⟩ <;> exact h₁ pos
  | insertJob spec =>
    rcases insertJob_cases h with rfl | ⟨jobs, -, rfl⟩ <;> exact h₁ pos
  | createRun jobId scheduledAt =>
    simp only [Call.exec, Option.bind_eq_bind, Option.bind_eq_some_iff, Option.some.injEq,
      Prod.mk.injEq, Prod.exists] at h
    obtain ⟨_, _, h, rfl, -⟩ := h
    obtain ⟨runs, -, -, rfl⟩ := createRun_cases h
    exact h₁ pos
  | startTask runId position name attempts =>
    simp only [Call.exec] at h
    unfold DB.startTask at h
    split at h
    · cases h
      exact h₁ pos
    · rename_i hnone
      simp only [Option.bind_eq_bind, Option.bind_eq_some_iff, Option.some.injEq,
        Prod.mk.injEq] at h
      obtain ⟨tasks, ht, rfl, -⟩ := h
      rw [Table.select_insert ht]
      by_cases hp : runId = i ∧ position = pos
      · obtain ⟨rfl, rfl⟩ := hp
        rw [eq_nil_of_scalarOneOrNone hnone]
        simp only [List.nil_append]
        split <;> simp
      · rw [if_neg, List.append_nil]
        · exact h₁ pos
        · exact hp
    · cases h
      exact hupdate (fun _ => by rfl) runId position (fun _ => by exact ⟨rfl, rfl⟩) pos
  | succeedTask runId position result =>
    cases h
    exact hupdate (fun _ => by rfl) runId position (fun _ => by exact ⟨rfl, rfl⟩) pos
  | failTask runId position error attempts retryAt =>
    cases h
    exact hupdate (fun _ => by rfl) runId position (fun _ => by exact ⟨rfl, rfl⟩) pos
  | cancelTask runId position =>
    cases h
    exact hupdate (fun _ => by rfl) runId position (fun _ => by exact ⟨rfl, rfl⟩) pos
  | compensateTask runId position =>
    cases h
    exact hupdate (fun _ => by rfl) runId position (fun _ => by exact ⟨rfl, rfl⟩) pos
  | deleteJob jobId =>
    cases h
    simp only [DB.deleteJob]
    split
    · exact h₁ pos
    · exact hdelete _ pos
  | deleteRuns runIds =>
    cases h
    exact hdelete runIds pos
  | failRun runId error retryAt =>
    cases h
    cases retryAt <;> exact h₁ pos
  | _ =>
    cases h
    exact h₁ pos

/-- What the writes of a task leave at its position, and that they touch no other. -/
lemma record_update_at (i' pos' : ℕ) {f : TaskRow → TaskRow} (hf)
    (hat : ∀ t, (f t).runId = t.runId ∧ (f t).position = t.position) :
    DB.record { db with tasks := db.tasks.update (DB.At i' pos') f hf } i pos =
      if i = i' ∧ pos = pos' then (db.record i pos).map f else db.record i pos := by
  unfold DB.record
  rw [select_update_at i' pos' hf hat]
  split
  · rw [List.head?_map]
  · rfl

lemma startTask_record {name : String} {attempts : ℕ} {y : Except Exc Unit} (h₁ : db.OnePer i)
    (h : db.startTask e i pos name attempts = some (db', y)) :
    y = .ok () ∧ (∃ t, db'.record i pos = some t ∧ t.status = .running ∧ t.attempts = attempts ∧
      t.result = none ∧ t.error = none) ∧
      ∀ pos', pos' ≠ pos → db'.record i pos' = db.record i pos' := by
  unfold DB.startTask at h
  split at h
  · rename_i exc hexc
    exfalso
    have hone := h₁ pos
    revert hexc hone
    cases db.tasks.select (DB.At i pos) with
    | nil => nofun
    | cons t l =>
      cases l with
      | nil => nofun
      | cons t' l =>
        intro _ hone
        simp at hone
  · rename_i hnone
    simp only [Option.bind_eq_bind, Option.bind_eq_some_iff, Option.some.injEq,
      Prod.mk.injEq] at h
    obtain ⟨tasks, ht, rfl, rfl⟩ := h
    refine ⟨rfl, ?_, fun pos' hne => ?_⟩
    · unfold DB.record
      rw [Table.select_insert ht, eq_nil_of_scalarOneOrNone hnone, if_pos ⟨rfl, rfl⟩]
      exact ⟨_, rfl, rfl, rfl, rfl, rfl⟩
    · unfold DB.record
      rw [Table.select_insert ht, if_neg, List.append_nil]
      rintro ⟨-, hp⟩
      exact hne hp.symm
  · rename_i t hsome
    cases h
    refine ⟨rfl, ?_, fun pos' hne => ?_⟩
    · have hhead : ∃ t, db.record i pos = some t := by
        unfold DB.record
        revert hsome
        cases db.tasks.select (DB.At i pos) with
        | nil => nofun
        | cons t l => exact fun _ => ⟨t, rfl⟩
      obtain ⟨t', ht'⟩ := hhead
      rw [record_update_at, if_pos ⟨rfl, rfl⟩, ht']
      · exact ⟨_, rfl, rfl, rfl, rfl, rfl⟩
      · exact fun _ => ⟨rfl, rfl⟩
    · rw [record_update_at, if_neg]
      · rintro ⟨-, hp⟩
        exact hne hp
      · exact fun _ => ⟨rfl, rfl⟩

/-! ### What the worker reads -/

lemma mem_tasksOf {t : TaskRow} (h₁ : db.OnePer i) :
    t ∈ db.tasksOf i ↔ db.record i t.position = some t := by
  have hmem : t ∈ db.tasksOf i ↔ t ∈ db.tasks.select (DB.At i t.position) := by
    unfold DB.tasksOf
    rw [List.mem_insertionSort, Table.mem_select, Table.mem_select]
    simp [DB.At]
  have hone := h₁ t.position
  rw [hmem, DB.record]
  revert hone
  cases db.tasks.select (DB.At i t.position) with
  | nil => simp
  | cons t' l =>
    intro hone
    obtain rfl : l = [] := List.length_eq_zero_iff.1 (by simpa using hone)
    simp [eq_comm]

/-- The records that stand at a position in what the worker reads. -/
lemma filter_tasksOf (h₁ : db.OnePer i) (pos : ℕ) :
    (db.tasksOf i).filter (fun t => t.position = pos) = db.tasks.select (DB.At i pos) := by
  have hperm : ((db.tasksOf i).filter fun t => t.position = pos).Perm
      (db.tasks.select (DB.At i pos)) := by
    refine ((List.perm_insertionSort _ _).filter _).trans ?_
    unfold Table.select
    rw [List.filter_filter]
    refine .of_eq (List.filter_congr fun t _ => Bool.eq_iff_iff.2 ?_)
    simp only [Bool.and_eq_true, decide_eq_true_iff]
    exact and_comm
  have hone := h₁ pos
  revert hperm hone
  cases db.tasks.select (DB.At i pos) with
  | nil => exact fun hperm _ => List.perm_nil.1 hperm
  | cons t l =>
    intro hperm hone
    obtain rfl : l = [] := List.length_eq_zero_iff.1 (by simpa using hone)
    exact List.perm_singleton.1 hperm

/-- **The record the worker finds at a position is the one that is there.** -/
theorem recordAt_tasksOf (h₁ : db.OnePer i) (pos : ℕ) :
    Worker.recordAt (db.tasksOf i) pos = db.record i pos := by
  have hone := h₁ pos
  have hfilter := filter_tasksOf h₁ pos
  unfold Worker.recordAt DB.record
  rw [← List.head?_filter, List.filter_reverse, hfilter]
  revert hone
  cases db.tasks.select (DB.At i pos) with
  | nil => exact fun _ => rfl
  | cons t l =>
    intro hone
    obtain rfl : l = [] := List.length_eq_zero_iff.1 (by simpa using hone)
    rfl

end

end Pyreljob
