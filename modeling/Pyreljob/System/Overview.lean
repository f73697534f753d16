import Pyreljob.Lib.Pages
import Pyreljob.Store.Tags
import Pyreljob.System.Claim
import Pyreljob.System.Recovery

/-!
What an operator sees.

`list_jobs` and `list_runs` give out one page after the other, and the database goes on changing between
two pages. `counts` adds up the runs of each status, and `recent_failures` shows those that failed last.
As long as nothing is deleted, a walk over the pages shows all that was there when it began, and the
counts add up to all runs that were ever created.
-/

namespace Pyreljob

open Lib

/-! ### Runs without a deletion -/

def Req.deletes : Req → Bool
  | .db (.deleteJob _) | .db (.deleteRuns _) => true
  | _ => false

/-- Nothing is deleted. -/
def NoDeletion (p : System) : Act → Prop
  | .act pid (.commit _) => (p.pending pid).all fun r => !r.deletes
  | _ => True

instance (p : System) : (l : Act) → Decidable (NoDeletion p l)
  | .act _ (.commit _) => inferInstanceAs (Decidable (_ = true))
  | .spawn _ | .crash _ | .act _ (.fail _) | .act _ (.time _) | .act _ (.lastClaim _)
  | .act _ (.ran _ _) | .act _ (.undone _ _) | .act _ (.next _) => .isTrue trivial

/-- No row is lost, and what the lists show it by stays. -/
structure DB.Keeps (db db' : DB) : Prop where
  runs : ∀ i r, db.runs.get? i = some r → ∃ r', db'.runs.get? i = some r' ∧ r'.jobId = r.jobId
  jobs : ∀ i j, db.jobs.get? i = some j → ∃ j', db'.jobs.get? i = some j' ∧ j'.tags = j.tags

section

variable {db db' db'' : DB} {e : Env} {c : Call} {y : Except Exc c.Reply} {p p' : System}

lemma DB.Keeps.refl (db : DB) : db.Keeps db where
  runs := fun _ r hr => ⟨r, hr, rfl⟩
  jobs := fun _ j hj => ⟨j, hj, rfl⟩

lemma DB.Keeps.trans (h : db.Keeps db') (h' : db'.Keeps db'') : db.Keeps db'' where
  runs := by
    intro i r hr
    obtain ⟨r', hr', hjob⟩ := h.runs i r hr
    obtain ⟨r'', hr'', hjob'⟩ := h'.runs i r' hr'
    exact ⟨r'', hr'', hjob'.trans hjob⟩
  jobs := by
    intro i j hj
    obtain ⟨j', hj', htags⟩ := h.jobs i j hj
    obtain ⟨j'', hj'', htags'⟩ := h'.jobs i j' hj'
    exact ⟨j'', hj'', htags'.trans htags⟩

lemma keeps_of_exec (hx : c.exec db e = some (db', y)) (hc : (Req.db c).deletes = false) :
    db.Keeps db' where
  runs := by
    intro i r hr
    have hrow := exec_run hx i
    rw [hr] at hrow
    generalize db'.runs.get? i = o' at hrow ⊢
    cases hrow with
    | jobDeleted | pruned => cases hc
    | _ => exact ⟨_, rfl, rfl⟩
  jobs := by
    intro i j hj
    have hrow := exec_job hx i
    rw [hj] at hrow
    generalize db'.jobs.get? i = o' at hrow ⊢
    cases hrow with
    | deleted => cases hc
    | _ => exact ⟨_, rfl, rfl⟩

lemma keeping_of_commit {pid : ℕ} (h : NoDeletion p (.act pid (.commit e)))
    (hasks : p.pending pid = some (.db c)) : (Req.db c).deletes = false := by
  change ((p.pending pid).all fun r => !r.deletes) = true at h
  rw [hasks] at h
  simpa using h

lemma keeps_of_run (h : System.Run NoDeletion p p') : p.shared.Keeps p'.shared := by
  induction h with
  | refl => exact .refl _
  | tail _ hmove ih =>
    obtain ⟨l, hC, hstep⟩ := hmove
    rcases System.step_cases hstep with hsame | ⟨pid, c, e, y, rfl, hasks, hx, -⟩
    · rwa [hsame]
    · exact ih.trans (keeps_of_exec hx (keeping_of_commit hC hasks))

end

/-! ### Page by page -/

section

variable {db db' : DB} (d : Dialect) (tag : Option String)

def DB.listedJobs (db : DB) : List JobRow :=
  (db.jobs.rows.insertionSort fun j j' => j'.id ≤ j.id).filter fun j => tag.all fun t => j.tagLike d t

def DB.listedRuns (db : DB) : List (RunRow × JobRow) :=
  ((db.runs.rows.insertionSort fun r r' => r'.id ≤ r.id).flatMap fun r =>
    (db.jobs.select fun j => j.id = r.jobId).map fun j => (r, j)).filter fun p =>
      tag.all fun t => p.2.tagLike d t

lemma listJobs_eq_page (db : DB) (limit offset : ℕ) :
    db.listJobs d limit offset tag = page limit offset (db.listedJobs d tag) := rfl

lemma listRuns_eq_page (db : DB) (limit offset : ℕ) :
    db.listRuns d limit offset tag = page limit offset (db.listedRuns d tag) := rfl

variable {d tag}

lemma mem_listedJobs {j : JobRow} : j ∈ db.listedJobs d tag ↔
    db.jobs.get? j.id = some j ∧ tag.all fun t => j.tagLike d t := by
  rw [DB.listedJobs, List.mem_filter, List.mem_insertionSort, Table.mem_rows_iff]
  rfl

lemma mem_listedRuns {r : RunRow} {j : JobRow} : (r, j) ∈ db.listedRuns d tag ↔
    db.runs.get? r.id = some r ∧ db.jobs.get? r.jobId = some j ∧ tag.all fun t => j.tagLike d t := by
  rw [DB.listedRuns, List.mem_filter, List.mem_flatMap, ← and_assoc]
  refine and_congr_left' ?_
  constructor
  · rintro ⟨r', hr', hmem⟩
    obtain ⟨j', hj', heq⟩ := List.mem_map.1 hmem
    cases heq
    obtain ⟨hrow, hid⟩ := Table.mem_select.1 hj'
    rw [List.mem_insertionSort, Table.mem_rows_iff] at hr'
    exact ⟨hr', hid ▸ hrow⟩
  · rintro ⟨hrow, hjob⟩
    have hid : j.id = r.jobId := job_id_of_get? hjob
    refine ⟨r, ?_, List.mem_map.2 ⟨j, Table.mem_select.2 ⟨?_, hid⟩, rfl⟩⟩
    · rw [List.mem_insertionSort, Table.mem_rows_iff]
      exact hrow
    · rw [JobRow.key_eq, hid]
      exact hjob

/-- The rows of a table in the order of their keys, the last one first. -/
lemma descending_rows {α : Type} [Keyed α] (t : Table α) :
    Descending Keyed.key (t.rows.insertionSort fun a b => Keyed.key b ≤ Keyed.key a) := by
  have hsorted := List.pairwise_insertionSort (fun a b : α => Keyed.key b ≤ Keyed.key a) t.rows
  have hperm := List.perm_insertionSort (fun a b : α => Keyed.key b ≤ Keyed.key a) t.rows
  have hnodup : (t.rows.insertionSort fun a b => Keyed.key b ≤ Keyed.key a).Pairwise
      fun a b => Keyed.key a ≠ Keyed.key b := List.pairwise_map.1 ((hperm.map _).nodup_iff.2 t.nodup)
  exact (hsorted.and hnodup).imp fun h => lt_of_le_of_ne h.1 h.2.symm

lemma descending_listedJobs (db : DB) : Descending JobRow.id (db.listedJobs d tag) :=
  (descending_rows db.jobs).filter _

lemma descending_listedRuns (db : DB) :
    Descending (fun p : RunRow × JobRow => p.1.id) (db.listedRuns d tag) := by
  refine List.Pairwise.filter _ (List.pairwise_flatMap.2 ⟨fun r _ => ?_, ?_⟩)
  · -- a run has one job at most
    have hone := db.jobs.length_select_key r.jobId
    simp only [JobRow.key_eq] at hone
    rcases hjobs : db.jobs.select fun j => j.id = r.jobId with _ | ⟨j, _ | ⟨j', jobs⟩⟩
    · exact .nil
    · exact List.pairwise_singleton _ _
    · rw [hjobs] at hone
      simp at hone
  · refine (descending_rows db.runs).imp fun {r r'} hlt => ?_
    intro x hx x' hx'
    obtain ⟨j, -, rfl⟩ := List.mem_map.1 hx
    obtain ⟨j', -, rfl⟩ := List.mem_map.1 hx'
    exact hlt

lemma listedJobs_kept (h : db.Keeps db') {j : JobRow} (hj : j ∈ db.listedJobs d tag) :
    ∃ j' ∈ db'.listedJobs d tag, j'.id = j.id := by
  obtain ⟨hrow, htag⟩ := mem_listedJobs.1 hj
  obtain ⟨j', hrow', htags⟩ := h.jobs j.id j hrow
  have hid : j'.id = j.id := job_id_of_get? hrow'
  refine ⟨j', mem_listedJobs.2 ⟨hid ▸ hrow', ?_⟩, hid⟩
  unfold JobRow.tagLike at htag ⊢
  rwa [htags]

lemma listedRuns_kept (h : db.Keeps db') {x : RunRow × JobRow} (hx : x ∈ db.listedRuns d tag) :
    ∃ x' ∈ db'.listedRuns d tag, x'.1.id = x.1.id := by
  obtain ⟨r, j⟩ := x
  obtain ⟨hrow, hjob, htag⟩ := mem_listedRuns.1 hx
  obtain ⟨r', hrow', hjobId⟩ := h.runs r.id r hrow
  obtain ⟨j', hjob', htags⟩ := h.jobs r.jobId j hjob
  have hid : r'.id = r.id := run_id_of_get? hrow'
  refine ⟨(r', j'), mem_listedRuns.2 ⟨hid ▸ hrow', hjobId ▸ hjob', ?_⟩, hid⟩
  unfold JobRow.tagLike at htag ⊢
  rwa [htags]

end

/-- **A walk over the pages misses nothing**: while jobs are submitted, claimed, executed and cancelled,
but none is deleted, page after page is read at the times `f 0`, `f 1` and so on, and the last one is not
full. Then all that any such query would have found at the beginning has been on some page. -/
theorem walk_complete {f : ℕ → System} (hf : ∀ m, System.Run NoDeletion (f m) (f (m + 1))) (d : Dialect)
    (tag : Option String) (limit n : ℕ) :
    (((f n).shared.listJobs d limit (n * limit) tag).length < limit →
      ∀ k o, ∀ j ∈ (f 0).shared.listJobs d k o tag,
        ∃ m ≤ n, ∃ j' ∈ (f m).shared.listJobs d limit (m * limit) tag, j'.id = j.id) ∧
    (((f n).shared.listRuns d limit (n * limit) tag).length < limit →
      ∀ k o, ∀ x ∈ (f 0).shared.listRuns d k o tag,
        ∃ m ≤ n, ∃ x' ∈ (f m).shared.listRuns d limit (m * limit) tag, x'.1.id = x.1.id) := by
  have hkeeps : ∀ m, (f m).shared.Keeps (f (m + 1)).shared := fun m => keeps_of_run (hf m)
  constructor
  · intro hlast k o j hj
    have hmem : j ∈ (f 0).shared.listedJobs d tag := List.mem_of_mem_drop (List.mem_of_mem_take hj)
    exact pages_cover (fun m => descending_listedJobs (f m).shared)
      (fun m a ha => listedJobs_kept (hkeeps m) ha) hlast hmem
  · intro hlast k o x hx
    have hmem : x ∈ (f 0).shared.listedRuns d tag := List.mem_of_mem_drop (List.mem_of_mem_take hx)
    exact pages_cover (fun m => descending_listedRuns (f m).shared)
      (fun m a ha => listedRuns_kept (hkeeps m) ha) hlast hmem

/-- A job is enqueued. -/
def enqueuing (pid : ℕ) : List Act := .spawn (.enqueue { job := "m.J" } none) :: commits pid 1 pid

/-- A third job comes in after the first page of two, and the second page shows the same run again. -/
theorem walk_complete_enqueuing : ∃ p₀ p₁ : System,
    System.init.play NoDeletion (enqueuing 0 ++ enqueuing 1) = some p₀ ∧
    p₀.play NoDeletion (enqueuing 2) = some p₁ ∧
    (p₁.shared.listRuns .sqlite 1 3 none).length < 1 ∧
    ∀ k o, ∀ x ∈ p₀.shared.listRuns .sqlite k o none, ∃ m ≤ 3,
      ∃ x' ∈ (if m = 0 then p₀ else p₁).shared.listRuns .sqlite 1 (m * 1) none, x'.1.id = x.1.id := by
  have hall : ((System.init.play NoDeletion (enqueuing 0 ++ enqueuing 1)).any fun p₀ =>
      (p₀.play NoDeletion (enqueuing 2)).any fun p₁ =>
        (p₁.shared.listRuns .sqlite 1 3 none).length < 1) = true := by decide
  obtain ⟨p₀, hp₀, hnext⟩ := (Option.any_eq_true _ _).1 hall
  obtain ⟨p₁, hp₁, hend⟩ := (Option.any_eq_true _ _).1 hnext
  have hshort : (p₁.shared.listRuns .sqlite 1 3 none).length < 1 := of_decide_eq_true hend
  refine ⟨p₀, p₁, hp₀, hp₁, hshort, ?_⟩
  have hwalk := walk_complete (f := fun m => if m = 0 then p₀ else p₁) (fun m => ?_) .sqlite none 1 3
  · exact hwalk.2 hshort
  · by_cases hm : m = 0
    · subst hm
      exact Pool.run_of_play hp₁
    · simp only [hm, Nat.succ_ne_zero, if_false]
      exact .refl

/-! ### All runs there ever were -/

/-- A request with this reply has created a run. -/
def createsRun : (r : Req) → Except Exc r.Reply → Bool
  | .db (.insertJobAndRun ..), .ok _ | .db (.createRun ..), .ok _ => true
  | _, _ => false

/-- The job that a request with this reply has won, to fire it. -/
def firesIn : (r : Req) → Except Exc r.Reply → Option ℕ
  | .db (.claimScheduled j _), .ok true => some j
  | _, _ => none

/-- The jobs that matter are there: that of every run, and those that a process works for. -/
structure Owned (db : DB) (ph : ℕ → Phase) : Prop where
  runs : ∀ i r, db.runs.get? i = some r → (db.jobs.get? r.jobId).isSome
  exec : ∀ q i j w s, ph q = .exec i j w s → (db.jobs.get? j).isSome
  fired : ∀ q j, ph q = .fired j → (db.jobs.get? j).isSome

section

variable {db db' : DB} {e : Env} {c : Call} {y : Except Exc c.Reply} {ph : ℕ → Phase} {pid : ℕ}

lemma DB.Keeps.job (h : db.Keeps db') {j : ℕ} (hj : (db.jobs.get? j).isSome) :
    (db'.jobs.get? j).isSome := by
  obtain ⟨job, hjob⟩ := Option.isSome_iff_exists.1 hj
  obtain ⟨job', hjob', -⟩ := h.jobs j job hjob
  exact Option.isSome_of_eq_some hjob'

lemma inserted_job {spec : JobSpec} {t : Option Time} {y : Except Exc JobRow} {i : ℕ} {r : RunRow}
    (hx : (Call.insertJobAndRun spec t).exec db e = some (db', y)) (hnew : db.runs.get? i = none)
    (hr : db'.runs.get? i = some r) : (db'.jobs.get? e.jobId).isSome := by
  rcases insertJobAndRun_cases hx with rfl | ⟨jobs, runs, hjobs, -, rfl⟩
  · rw [hnew] at hr
    cases hr
  · exact Option.isSome_of_eq_some (Table.get?_insert_self hjobs)

lemma length_runs (hx : c.exec db e = some (db', y)) (hc : (Req.db c).deletes = false) :
    db'.runs.rows.length = db.runs.rows.length + if createsRun (.db c) y then 1 else 0 := by
  cases c with
  | insertJobAndRun spec t =>
    simp only [Call.exec, DB.insertJobAndRun] at hx
    split at hx
    · cases hx
      rfl
    · obtain ⟨jobs, -, hx⟩ := Option.bind_eq_some_iff.1 hx
      obtain ⟨runs, hruns, hx⟩ := Option.bind_eq_some_iff.1 hx
      cases hx
      simp [Table.rows_insert hruns, createsRun]
  | createRun jobId t =>
    obtain ⟨⟨db₁, run⟩, hcreate, hx⟩ := Option.bind_eq_some_iff.1 hx
    obtain ⟨runs, hruns, hcreated⟩ := Option.bind_eq_some_iff.1 hcreate
    cases hcreated
    cases hx
    simp [Table.rows_insert hruns, createsRun]
  | insertJob spec =>
    simp only [Call.exec, DB.insertJob] at hx
    split at hx
    · cases hx
      rfl
    · obtain ⟨jobs, -, hx⟩ := Option.bind_eq_some_iff.1 hx
      cases hx
      rfl
  | startTask i pos name n =>
    simp only [Call.exec, DB.startTask] at hx
    split at hx
    · cases hx
      rfl
    · obtain ⟨tasks, -, hx⟩ := Option.bind_eq_some_iff.1 hx
      cases hx
      rfl
    · cases hx
      rfl
  | deleteJob | deleteRuns => cases hc
  | failRun i error t =>
    simp only [Call.exec, Option.some.injEq, Prod.mk.injEq] at hx
    obtain ⟨rfl, -⟩ := hx
    cases t <;> exact List.length_map _
  | _ =>
    simp only [Call.exec, Option.some.injEq, Prod.mk.injEq] at hx
    obtain ⟨rfl, -⟩ := hx
    first
      | rfl
      | exact List.length_map _

/-- A process that is to fire a job was to do so before, or has just won it. -/
lemma fired_of_next {may : Leave} {st : Phase} {r : Req} {y : Except Exc r.Reply} {j : ℕ}
    (hok : st.ok may r) (h : st.next r y = .fired j) : st = .fired j ∨ firesIn r y = some j := by
  have hturn := Phase.turn y hok
  rw [h] at hturn
  cases hturn with
  | stays => exact .inl rfl
  | fires => exact .inr rfl

lemma firesIn_error (c : Call) (exc : Exc) : firesIn (.db c) (.error exc) = none := by cases c <;> rfl

lemma firesIn_ask {r : Req} {y : Except Exc r.Reply} (hr : ∀ c, r ≠ .db c) : firesIn r y = none := by
  cases r with
  | db c => exact absurd rfl (hr c)
  | _ => rfl

lemma createsRun_error (c : Call) (exc : Exc) : createsRun (.db c) (.error exc) = false := by
  cases c <;> rfl

lemma createsRun_ask {r : Req} {y : Except Exc r.Reply} (hr : ∀ c, r ≠ .db c) :
    createsRun r y = false := by
  cases r with
  | db c => exact absurd rfl (hr c)
  | _ => rfl

lemma Owned.turn (h : Owned db ph) {st : Phase}
    (hexec : ∀ i j w s, st = .exec i j w s → (db.jobs.get? j).isSome)
    (hfired : ∀ j, st = .fired j → (db.jobs.get? j).isSome) : Owned db (Function.update ph pid st) := by
  refine ⟨h.runs, fun q i j w s hq => ?_, fun q j hq => ?_⟩
  · by_cases hqp : q = pid
    · subst hqp
      rw [Function.update_self] at hq
      exact hexec i j w s hq
    · rw [Function.update_of_ne hqp] at hq
      exact h.exec q i j w s hq
  · by_cases hqp : q = pid
    · subst hqp
      rw [Function.update_self] at hq
      exact hfired j hq
    · rw [Function.update_of_ne hqp] at hq
      exact h.fired q j hq

lemma Owned.gone (h : Owned db ph) : Owned db (Function.update ph pid .gone) :=
  h.turn (fun _ _ _ _ heq => by cases heq) fun _ heq => by cases heq

lemma Owned.move {may : Leave} {r : Req} {y : Except Exc r.Reply} (h : Owned db ph)
    (hok : (ph pid).ok may r)
    (hclaim : ∀ q cl, claimIn q r y = some cl → (db.jobs.get? cl.run.jobId).isSome)
    (hfires : ∀ j, firesIn r y = some j → (db.jobs.get? j).isSome) :
    Owned db (Function.update ph pid ((ph pid).next r y)) := by
  refine h.turn (fun i j w s hnext => ?_) fun j hnext => ?_
  · rcases Phase.exec_of_next hok hnext with ⟨s', hwas⟩ | ⟨q, cl, hcl, -, rfl, -⟩
    · exact h.exec pid i j w s' hwas
    · exact hclaim q cl hcl
  · rcases fired_of_next hok hnext with hwas | hwon
    · exact h.fired pid j hwas
    · exact hfires j hwon

lemma Owned.step {may : Leave} (h : Owned db ph) (hok : (ph pid).ok may (.db c))
    (hx : c.exec db e = some (db', y)) (hc : (Req.db c).deletes = false) :
    Owned db' (Function.update ph pid ((ph pid).next (.db c) y)) := by
  have hkeeps := keeps_of_exec hx hc
  have hlater : Owned db' ph := by
    refine ⟨fun i r' hr' => ?_, fun q i j w s hq => hkeeps.job (h.exec q i j w s hq),
      fun q j hq => hkeeps.job (h.fired q j hq)⟩
    have hrow := exec_run hx i
    rw [hr'] at hrow
    rcases hrow.jobId with ⟨hnew, -, ⟨hjob, spec, t, rfl⟩ | ⟨t, rfl⟩⟩ | ⟨r, hr, hjob⟩
    · exact hjob ▸ inserted_job hx hnew hr'
    · rcases hok with hfired | ⟨i', w, hexec⟩
      · exact hkeeps.job (h.fired pid _ hfired)
      · exact hkeeps.job (h.exec pid _ _ _ _ hexec)
    · exact hjob ▸ hkeeps.job (h.runs i r hr)
  refine hlater.move hok (fun q cl hcl => ?_) fun j hwon => ?_
  · obtain ⟨-, r, hr, -, hpost⟩ := claimIn_commit hx hcl
    rw [claimIn_row hx hcl] at hpost
    have hjob : cl.run.jobId = (DB.claimed cl.workerId cl.now r).jobId :=
      congrArg RunRow.jobId (Option.some.inj hpost)
    exact hjob ▸ hkeeps.job (h.runs _ r hr)
  · cases c with
    | claimScheduled j' t =>
      simp only [Call.exec, Option.some.injEq, Prod.mk.injEq] at hx
      obtain ⟨-, rfl⟩ := hx
      cases hany : (db.claimScheduled e.now j' t).2 with
      | false =>
        rw [hany] at hwon
        cases hwon
      | true =>
        rw [hany] at hwon
        obtain ⟨job, hjob, -⟩ := (Option.any_eq_true _ _).1 hany
        exact hkeeps.job (Option.some.inj hwon ▸ Option.isSome_of_eq_some hjob)
    | _ => cases hwon

/-- Every run has its job, and all runs that were created are there. -/
lemma owned_of_reached {p : System} (h : p.Reached NoDeletion) :
    (∀ i r, p.shared.runs.get? i = some r → (p.shared.jobs.get? r.jobId).isSome) ∧
      p.shared.runs.rows.length = p.log.countP fun ev => createsRun ev.req ev.reply := by
  have hinv : ∃ ph, InPhases {} p ph ∧ Owned p.shared ph ∧
      p.shared.runs.rows.length = p.log.countP fun ev => createsRun ev.req ev.reply := by
    refine System.phases (fun _ => True) (fun db log ph => Owned db ph ∧
      db.runs.rows.length = log.countP fun ev => createsRun ev.req ev.reply)
      (fun _ _ _ _ _ => trivial) ⟨⟨?_, ?_, ?_⟩, rfl⟩ (fun _ _ _ _ hG => ⟨hG.1.gone, hG.2⟩) ?_ ?_ ?_ h
    · intro i r hr
      cases Table.mem_of_get? hr
    · intro q i j w s hq
      cases hq
    · intro q j hq
      cases hq
    · rintro p ph pid c e db' y hC - hasks hok hx ⟨hG, hlength⟩
      have hc := keeping_of_commit hC hasks
      refine ⟨hG.step hok hx hc, ?_⟩
      rw [length_runs hx hc, List.countP_append, hlength, List.countP_singleton]
    · rintro p ph pid c exc - ⟨hG, hlength⟩ hok
      refine ⟨hG.move hok (fun q cl hcl => ?_) (fun j hwon => ?_), ?_⟩
      · rw [claimIn_error] at hcl
        cases hcl
      · rw [firesIn_error] at hwon
        cases hwon
      · rw [List.countP_append, List.countP_singleton, createsRun_error]
        exact hlength
    · rintro p ph pid r a y - hr - hok - ⟨hG, hlength⟩
      refine ⟨hG.move hok (fun q cl hcl => ?_) (fun j hwon => ?_), ?_⟩
      · rw [claimIn_ask hr] at hcl
        cases hcl
      · rw [firesIn_ask hr] at hwon
        cases hwon
      · rw [List.countP_append, List.countP_singleton, createsRun_ask hr]
        exact hlength
  obtain ⟨ph, -, hG, hlength⟩ := hinv
  exact ⟨hG.runs, hlength⟩

lemma countedStatuses_eq {db : DB}
    (h : ∀ i r, db.runs.get? i = some r → (db.jobs.get? r.jobId).isSome) :
    db.countedStatuses none = db.runs.rows.map RunRow.status := by
  have hall : ∀ runs : List RunRow, (∀ r ∈ runs, db.runs.get? r.id = some r) →
      (runs.flatMap fun r => (db.jobs.select fun j => j.id = r.jobId).map fun j => (r, j)).map
        (fun p => p.1.status) = runs.map RunRow.status := by
    intro runs hruns
    induction runs with
    | nil => rfl
    | cons r runs ih =>
      obtain ⟨hr, hrest⟩ := List.forall_mem_cons.1 hruns
      obtain ⟨j, hj⟩ : ∃ j, (db.jobs.select fun j => j.id = r.jobId) = [j] := by
        have hone := db.jobs.length_select_key r.jobId
        simp only [JobRow.key_eq] at hone
        obtain ⟨job, hjob⟩ := Option.isSome_iff_exists.1 (h _ _ hr)
        have hid : job.id = r.jobId := job_id_of_get? hjob
        have hmem : job ∈ db.jobs.select fun j => j.id = r.jobId := by
          refine Table.mem_select.2 ⟨?_, hid⟩
          rw [JobRow.key_eq, hid]
          exact hjob
        have hpos := List.length_pos_of_mem hmem
        exact List.length_eq_one_iff.1 (by omega)
      rw [List.flatMap_cons, List.map_append, ih hrest, hj]
      rfl
  unfold DB.countedStatuses
  simp only [Option.all_none, List.filter_true]
  exact hall _ fun r hr => Table.get?_of_mem hr

/-- **The counts add up to all runs there ever were**: as long as nothing is deleted, each status has as
many runs as the counts say, and none is lost and none is counted twice, whatever becomes of it. -/
theorem counts_add_up {p : System} (h : p.Reached NoDeletion) :
    (∀ s n, (s, n) ∈ p.shared.counts none ↔
      n = p.shared.runs.rows.countP (fun r => r.status = s) ∧ 0 < n) ∧
    ((p.shared.counts none).map Prod.snd).sum = p.log.countP fun ev => createsRun ev.req ev.reply := by
  obtain ⟨hruns, hlength⟩ := owned_of_reached h
  have hcount : ∀ s, (p.shared.countedStatuses none).count s =
      p.shared.runs.rows.countP fun r => r.status = s := by
    intro s
    rw [countedStatuses_eq hruns, List.count, List.countP_map]
    refine List.countP_congr fun r _ => ?_
    simp
  constructor
  · intro s n
    simp only [DB.counts, List.mem_map, List.mem_dedup, Prod.mk.injEq, hcount]
    constructor
    · rintro ⟨s', hs', rfl, rfl⟩
      refine ⟨rfl, ?_⟩
      rw [← hcount]
      exact List.count_pos_iff.2 hs'
    · rintro ⟨rfl, hpos⟩
      rw [← hcount] at hpos
      exact ⟨s, List.count_pos_iff.1 hpos, rfl, rfl⟩
  · rw [← hlength, ← List.length_map (f := RunRow.status), ← countedStatuses_eq hruns,
      ← List.sum_map_count_dedup_eq_length, DB.counts, List.map_map]
    rfl

/-- One run is claimed, the other one waits. -/
theorem counts_add_up_enqueuing : ∃ p : System,
    System.init.play NoDeletion (enqueuing 0 ++ enqueuing 1 ++
      .spawn (.worker (.named "A")) :: reads 2 2 :: reads 2 2 :: commits 2 2 2) = some p ∧
    p.shared.counts none = [(.running, 1), (.ready, 1)] ∧
    ((p.shared.counts none).map Prod.snd).sum = p.log.countP fun ev => createsRun ev.req ev.reply := by
  have hall : ((System.init.play NoDeletion (enqueuing 0 ++ enqueuing 1 ++
      .spawn (.worker (.named "A")) :: reads 2 2 :: reads 2 2 :: commits 2 2 2)).any fun p =>
        p.shared.counts none = [(.running, 1), (.ready, 1)]) = true := by decide
  obtain ⟨p, hp, hend⟩ := (Option.any_eq_true _ _).1 hall
  exact ⟨p, hp, of_decide_eq_true hend, (counts_add_up (Pool.run_of_play hp)).2⟩

end

/-! ### The last failures -/

instance : Std.Total DB.FinishedAfter := by
  refine ⟨fun r r' => ?_⟩
  unfold DB.FinishedAfter
  cases r.finishedAt <;> cases r'.finishedAt <;> simp [le_total]

instance : IsTrans RunRow DB.FinishedAfter := by
  refine ⟨fun r r' r'' => ?_⟩
  unfold DB.FinishedAfter
  cases r.finishedAt <;> cases r'.finishedAt <;> cases r''.finishedAt <;> simp
  exact fun h h' => h'.trans h

/-- **The failures that are shown are the last ones**, each with its error and the time at which it
failed, the last one first: a run that has failed and is not shown has failed no later. -/
theorem last_failures_shown {p : System} {C : System → Act → Prop} (h : p.Reached C) (limit : ℕ) :
    let shown := p.shared.recentFailures limit
    (∀ r ∈ shown, r ∈ p.shared.runs.rows ∧ r.status = .failed ∧ r.error.isSome ∧ r.finishedAt.isSome) ∧
    shown.Pairwise DB.FinishedAfter ∧
    shown.length = min limit (p.shared.runs.rows.countP fun r => r.status = .failed) ∧
    ∀ r ∈ p.shared.runs.rows, r.status = .failed → r ∉ shown → ∀ r' ∈ shown, DB.FinishedAfter r' r := by
  intro shown
  have hlifecycle := (reachable_lifecycle (reachable_of_reached h)).1
  have hsorted := List.pairwise_insertionSort DB.FinishedAfter
    (p.shared.runs.select fun r => r.status = .failed)
  have hmem : ∀ r, r ∈ (p.shared.runs.select fun r => r.status = .failed).insertionSort
      DB.FinishedAfter ↔ r ∈ p.shared.runs.rows ∧ r.status = .failed := by
    intro r
    rw [List.mem_insertionSort, Table.mem_select, Table.mem_rows_iff]
  refine ⟨fun r hr => ?_, hsorted.sublist (List.take_sublist _ _), ?_, fun r hr hs hnot r' hr' => ?_⟩
  · obtain ⟨hrow, hs⟩ := (hmem r).1 (List.mem_of_mem_take hr)
    refine ⟨hrow, hs, (hlifecycle r hrow).failed hs, (hlifecycle r hrow).finished.2 ?_⟩
    rw [hs]
    rfl
  · change (List.take _ _).length = _
    rw [List.length_take, List.length_insertionSort, Table.select, ← List.countP_eq_length_filter]
  · have hin := (hmem r).2 ⟨hr, hs⟩
    rw [← List.take_append_drop limit (List.insertionSort _ _), List.mem_append] at hin
    have hrest := hin.resolve_left hnot
    rw [← List.take_append_drop limit (List.insertionSort _ _), List.pairwise_append] at hsorted
    exact hsorted.2.2 r' hr' r hrest

/-- A run of a class that the worker does not know has failed. -/
theorem last_failures_shown_noClass : ∃ (p : System) (r : RunRow),
    System.init.play System.Any (.spawn (.enqueue { job := "m.K" } none) :: commits 0 1 0 ++
      .spawn (.worker (.named "A")) :: reads 1 1 :: reads 1 1 :: commits 1 4 1) = some p ∧
    p.shared.recentFailures 10 = [r] ∧ r.status = .failed ∧ r.error.isSome ∧ r.finishedAt.isSome := by
  have hall : ((System.init.play System.Any (.spawn (.enqueue { job := "m.K" } none) :: commits 0 1 0 ++
      .spawn (.worker (.named "A")) :: reads 1 1 :: reads 1 1 :: commits 1 4 1)).any fun p =>
        (p.shared.recentFailures 10).length = 1) = true := by decide
  obtain ⟨p, hp, hend⟩ := (Option.any_eq_true _ _).1 hall
  obtain ⟨r, hr⟩ := List.length_eq_one_iff.1 (of_decide_eq_true hend)
  obtain ⟨hshown, -⟩ := last_failures_shown (Pool.run_of_play hp) 10
  have hmem : r ∈ p.shared.recentFailures 10 := by simp [hr]
  exact ⟨p, r, hp, hr, (hshown r hmem).2⟩

end Pyreljob
