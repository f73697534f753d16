import Pyreljob.Model.Versions
import Pyreljob.System.Migrating

/-!
The upgrade from version 3 keeps every row.

The statements of the seven steps are followed one by one, on any rows: each of them leaves the three
tables with known columns, and with rows that are made from the old ones.
-/

namespace Pyreljob

open Lib Lib.Sql Versions

/-! ### Version 3 -/

namespace Legacy

def columns : Dict (Column SqlValue) := jobsTable ++ [("locked_at", nullable)]

def indexes : List Index :=
  [{ name := "ix_jobs_queue_status", table := "jobs", columns := ["queue", "status"] },
    { name := "ix_jobs_scheduled_at", table := "jobs", columns := ["scheduled_at"] },
    { name := "ix_jobs_next_run_at", table := "jobs", columns := ["next_run_at"] },
    { name := "ix_jobs_name_schedule", table := "jobs", columns := ["name", "schedule"] }]

end Legacy

/-- What a database at version 3 holds: any rows of `jobs` with something in the columns that must not
be `NULL`. -/
structure Legacy where
  rows : List (Row SqlValue)
  seq : ℕ
  filled : ∀ r ∈ rows, ∀ x ∈ Legacy.columns, x.2.notNull = true → (r x.1).isSome = true

def Legacy.database (l : Legacy) : Database SqlValue :=
  { tables := [("jobs", { columns := columns, rows := l.rows, seq := l.seq })], indexes := indexes }

/-- The old database is what the first three migrations make of an empty database, with these rows. -/
lemma runAll_legacy (c : Sql.Session SqlValue) :
    runAll {} ((MIGRATIONS c).take 3) = .ok (Legacy.database ⟨[], 0, nofun⟩) := rfl

/-! ### Three tables -/

def tables (J R T : Relation SqlValue) (is : List Index) : Database SqlValue :=
  { tables := [("jobs", J), ("runs", R), ("tasks", T)], indexes := is }

section

variable {J R T J' R' T' : Relation SqlValue} {is : List Index}

lemma onTable_jobs {f : Relation SqlValue → Except Fault (Relation SqlValue)} (hf : f J = .ok J') :
    (tables J R T is).onTable "jobs" f = .ok (tables J' R T is) :=
  ok_bind rfl (ok_bind hf rfl)

lemma onTable_runs {f : Relation SqlValue → Except Fault (Relation SqlValue)} (hf : f R = .ok R') :
    (tables J R T is).onTable "runs" f = .ok (tables J R' T is) :=
  ok_bind rfl (ok_bind hf rfl)

lemma onTable_tasks {f : Relation SqlValue → Except Fault (Relation SqlValue)} (hf : f T = .ok T') :
    (tables J R T is).onTable "tasks" f = .ok (tables J R T' is) :=
  ok_bind rfl (ok_bind hf rfl)

lemma rename_jobs {column column' : String} (is' : List Index)
    (hf : J.renameColumn column column' = .ok J') (his : (is.map fun i => if i.table = "jobs" then
      { i with columns := i.columns.map fun x => if x = column then column' else x } else i) = is') :
    (tables J R T is).renameColumn "jobs" column column' = .ok (tables J' R T is') := by
  subst his
  exact ok_bind (onTable_jobs hf) rfl

lemma drop_jobs {c : Sql.Session SqlValue} {column : String} (hf : J.dropColumn column = .ok J')
    (his : ∀ i ∈ is, i.table = "jobs" → column ∉ i.columns) :
    (tables J R T is).dropColumn c "jobs" column = .ok (tables J' R T is) := by
  have hnone : (is.any fun i => i.table = "jobs" ∧ column ∈ i.columns) = false := by
    simpa using his
  have hall : (is.filter fun i => ¬ (i.table = "jobs" ∧ column ∈ i.columns)) = is := by
    refine List.filter_eq_self.2 fun i hi => ?_
    simp only [not_and, decide_eq_true_eq]
    exact his i hi
  unfold Database.dropColumn
  rw [show (tables J R T is).indexes = is from rfl, hnone, Bool.false_and, if_neg nofun]
  refine ok_bind (onTable_jobs hf) ?_
  change Except.ok (tables J' R T (is.filter _)) = _
  rw [hall]

lemma dropMoved_ok {c : Sql.Session SqlValue} {names rest : List String} {columns : Dict (Column SqlValue)}
    {rows : List (Row SqlValue)} {seq : ℕ} (hnames : ∀ column ∈ rest, column ∈ names)
    (hold : ∀ column ∈ rest, (columns.get? column).isNone = false) (hnodup : rest.Nodup)
    (his : ∀ column ∈ rest, ∀ i ∈ is, i.table = "jobs" → column ∉ i.columns) :
    dropMoved c names rest (tables ⟨columns, rows, seq⟩ R T is) =
      .ok (tables ⟨columns.filter fun x => x.1 ∉ rest,
        rows.map fun r column => if column ∈ rest then none else r column, seq⟩ R T is) := by
  induction rest generalizing columns rows with
  | nil => simp [dropMoved, pure, Except.pure]
  | cons column rest ih =>
    obtain ⟨hnot, hnodup⟩ := List.nodup_cons.1 hnodup
    rw [List.forall_mem_cons] at hnames hold his
    unfold dropMoved
    rw [if_pos hnames.1]
    refine ok_bind (drop_jobs (Relation.dropColumn_ok hold.1) his.1) ?_
    refine (ih hnames.2 (fun column' hmem => ?_) hnodup his.2).trans ?_
    · have hne : column' ≠ column := fun heq => hnot (heq ▸ hmem)
      rw [Dict.get?_filter_ne _ hne]
      exact hold.2 column' hmem
    · have hcols : (columns.filter fun x => x.1 ≠ column).filter (fun x => x.1 ∉ rest) =
          columns.filter fun x => x.1 ∉ column :: rest := by
        rw [List.filter_filter]
        refine List.filter_congr fun x _ => ?_
        simp [Bool.and_comm]
      have hrows : (rows.map fun r => Function.update r column none).map
          (fun r column => if column ∈ rest then none else r column) =
            rows.map fun r column' => if column' ∈ column :: rest then none else r column' := by
        rw [List.map_map]
        refine List.map_congr_left fun r _ => funext fun column' => ?_
        by_cases hmem : column' ∈ rest
        · simp [hmem]
        · by_cases heq : column' = column <;> simp [hmem, heq]
      rw [hcols, hrows]

end

/-! ### Version 4 -/

namespace Legacy

def indexes₄ : List Index :=
  [{ name := "ix_jobs_queue_status", table := "jobs", columns := ["queue", "status"] },
    { name := "ix_jobs_next_run_at", table := "jobs", columns := ["next_run_at"] },
    { name := "ix_runs_job_id", table := "runs", columns := ["job_id"] },
    { name := "ix_tasks_run_id", table := "tasks", columns := ["run_id"] }]

def idempotencyIndex : Index :=
  { name := "ux_jobs_idempotency_key", table := "jobs", columns := ["idempotency_key"], unique := true }

def columns₄ : Dict (Column SqlValue) :=
  [("id", idColumn), ("job", required), ("queue", literal "default"), ("status", literal "pending"),
    ("args", nullable), ("max_attempts", number 3), ("priority", number 0), ("created_at", createdAt),
    ("next_run_at", nullable), ("source", literal "on_demand"), ("cron", nullable),
    ("idempotency_key", nullable)]

end Legacy

/-- A row of `jobs` after the upgrade. -/
structure JobUpgraded (old new : Row SqlValue) : Prop where
  id : new "id" = old "id"
  job : new "job" = old "name"
  args : new "args" = old "payload"
  kept : ∀ column ∈ ["queue", "priority", "max_attempts", "next_run_at", "created_at"],
    new column = old column
  status : new "status" =
    some (.text (if old "status" = some (.text "cancelled") then "cancelled" else "active"))
  source : new "source" =
    some (.text (if (old "schedule").isSome then "scheduled" else "on_demand"))

/-- What the backfill copies into a row of `runs`. -/
structure Copied (old new : Row SqlValue) : Prop where
  jobId : new "job_id" = old "id"
  kept : ∀ column ∈ ["result", "error", "worker_id", "scheduled_at", "started_at", "finished_at",
    "locked_at", "created_at"], new column = old column

/-- The run of a row at version 4. -/
structure Backfilled (old new : Row SqlValue) : Prop extends Copied old new where
  status : new "status" = backfilledStatus old

/-- A row of `jobs` that the backfill reads. -/
structure Prepared (old new : Row SqlValue) : Prop where
  job : new "job" = old "name"
  args : new "args" = old "payload"
  source : new "source" =
    some (.text (if (old "schedule").isSome then "scheduled" else "on_demand"))
  idempotencyKey : new "idempotency_key" = none
  kept : ∀ column ∉ ["name", "payload", "job", "args", "source", "cron", "idempotency_key"],
    new column = old column

lemma Prepared.upgraded {old new : Row SqlValue} (h : Prepared old new) :
    JobUpgraded old fun column =>
      if column ∈ moved then none else Relation.assign [("status", entityStatus)] new column := by
  have hstatus : new "status" = old "status" := h.kept _ (by decide)
  refine ⟨h.kept "id" (by decide), h.job, h.args, fun column hcolumn => ?_, ?_, h.source⟩
  · simp only [List.mem_cons, List.not_mem_nil, or_false] at hcolumn
    rcases hcolumn with rfl | rfl | rfl | rfl | rfl <;> exact h.kept _ (by decide)
  · change entityStatus new = _
    rw [entityStatus, hstatus]

lemma Prepared.backfilled {old new : Row SqlValue} (h : Prepared old new) (c : Sql.Session SqlValue)
    (k : ℕ) : Backfilled old
      (Relation.inserted ⟨runsTable, [], 0⟩ c (backfill.map fun x => (x.1, x.2.2 new)) k) := by
  have hstatus : new "status" = old "status" := h.kept _ (by decide)
  refine ⟨⟨h.kept "id" (by decide), fun column hcolumn => ?_⟩, ?_⟩
  · simp only [List.mem_cons, List.not_mem_nil, or_false] at hcolumn
    rcases hcolumn with rfl | rfl | rfl | rfl | rfl | rfl | rfl | rfl <;> exact h.kept _ (by decide)
  · change backfilledStatus new = _
    rw [backfilledStatus, hstatus, backfilledStatus]

lemma Prepared.filled {old new : Row SqlValue} (h : Prepared old new) {c : Sql.Session SqlValue} {k : ℕ}
    (hid : (old "id").isSome = true) (hstatus : (old "status").isSome = true)
    (hcreated : (old "created_at").isSome = true) {column : String}
    (hcolumn : column ∈ runsTable.map Prod.fst)
    (hnotNull : (runsTable.get? column).any Column.notNull = true) :
    (Relation.inserted ⟨runsTable, [], 0⟩ c (backfill.map fun x => (x.1, x.2.2 new)) k column).isSome =
      true := by
  have hrun := h.backfilled c k
  have hall : column = "id" ∨ column = "job_id" ∨ column = "status" ∨ column = "created_at" := by
    revert hnotNull
    revert column
    decide
  rcases hall with rfl | rfl | rfl | rfl
  · rfl
  · rw [hrun.jobId]
    exact hid
  · rw [hrun.status, backfilledStatus]
    split
    · rfl
    · exact hstatus
  · rw [hrun.kept "created_at" (by decide)]
    exact hcreated

/-- The step finds known tables and leaves known ones; every row is moved. -/
theorem jobRunTaskModel_ok (c : Sql.Session SqlValue) (l : Legacy) :
    ∃ db, jobRunTaskModel c l.database = .ok db ∧ ∃ jobs runs seq',
      db = tables ⟨Legacy.columns₄, jobs, l.seq⟩ ⟨runsTable, runs, seq'⟩ ⟨tasksTable, [], 0⟩
        (Legacy.indexes₄ ++ [Legacy.idempotencyIndex]) ∧
      List.Forall₂ JobUpgraded l.rows jobs ∧ List.Forall₂ Backfilled l.rows runs := by
  have hfilled : ∀ r ∈ l.rows, (r "id").isSome = true ∧ (r "status").isSome = true ∧
      (r "created_at").isSome = true := fun r hr =>
    ⟨l.filled r hr ("id", idColumn) (by simp [Legacy.columns, jobsTable]) rfl,
      l.filled r hr ("status", literal "pending") (by simp [Legacy.columns, jobsTable]) rfl,
      l.filled r hr ("created_at", createdAt) (by simp [Legacy.columns, jobsTable]) rfl⟩
  unfold jobRunTaskModel
  refine exists_bind rfl (exists_bind rfl (exists_bind (x := Legacy.columns.map Prod.fst) rfl ?_))
  -- the tables as they are now: the indexes on the columns that move are gone
  refine exists_bind (m := ite _ (Database.renameColumn (tables ⟨Legacy.columns, l.rows, l.seq⟩
    ⟨runsTable, [], 0⟩ ⟨tasksTable, [], 0⟩ Legacy.indexes₄) _ _ _) _) ((if_pos (by decide)).trans
      (rename_jobs Legacy.indexes₄ (Relation.renameColumn_ok rfl rfl) rfl)) ?_
  refine exists_bind_if (by decide)
    (rename_jobs Legacy.indexes₄ (Relation.renameColumn_ok rfl rfl) rfl) ?_
  refine exists_bind_if (by decide) (onTable_jobs (Relation.addColumn_value rfl (by decide))) ?_
  refine exists_bind_if (by decide) (onTable_jobs (Relation.addColumn_value rfl (by decide))) ?_
  refine exists_bind_if (by decide) (onTable_jobs (Relation.addColumn_value rfl (by decide))) ?_
  refine exists_bind_if (by decide) (onTable_jobs (Relation.update_ok rfl ?_)) ?_
  · intro r _ _ column hcolumn hnotNull
    simp only [List.map_cons, List.map_nil, List.mem_cons, List.not_mem_nil, or_false] at hcolumn
    rcases hcolumn with rfl | rfl
    · rfl
    · cases hnotNull
  generalize hrows : List.map (fun r : Row SqlValue => if (r "schedule").isSome = true then _ else r) _ =
    rows
  have hprepared : List.Forall₂ Prepared l.rows rows := by
    subst hrows
    simp only [List.map_map, List.forall₂_map_right_iff, List.forall₂_same]
    intro r _
    by_cases hs : (r "schedule").isSome = true
    all_goals
      refine ⟨?_, ?_, ?_, ?_, fun column hcolumn => ?_⟩
      · simp [Relation.assign, hs]
      · simp [Relation.assign, hs]
      · simp [Relation.assign, hs]
      · simp [Relation.assign, hs]
      · simp only [List.mem_cons, List.not_mem_nil, or_false, not_or] at hcolumn
        simp [Relation.assign, hs, hcolumn]
  clear hrows
  refine exists_bind_if (by decide)
    (ok_bind rfl (onTable_runs (Relation.insertSelect_ok rfl rfl ?_))) ?_
  · intro r hr k column hcolumn hnotNull
    obtain ⟨old, hold, h⟩ := exists_of_forall₂ hprepared hr
    obtain ⟨hid, hstatus, hcreated⟩ := hfilled old hold
    exact h.filled hid hstatus hcreated hcolumn hnotNull
  refine exists_bind_if (by decide) (onTable_jobs (Relation.update_ok rfl ?_)) ?_
  · intro r _ _ column hcolumn _
    obtain rfl := List.mem_singleton.1 hcolumn
    rfl
  refine exists_bind (dropMoved_ok (by decide) (by decide) (by decide) (by decide)) ?_
  refine ⟨_, Database.createIndex_ok rfl rfl rfl fun _ => Relation.unique_of_null ?_, _, _, _, rfl, ?_, ?_⟩
  · simp only [List.map_map, List.mem_map]
    rintro _ ⟨r, hr, rfl⟩
    obtain ⟨old, -, h⟩ := exists_of_forall₂ hprepared hr
    exact h.idempotencyKey
  · simp only [List.forall₂_map_right_iff]
    exact hprepared.imp fun old new h => h.upgraded
  · exact forall₂_mapIdx hprepared fun k old new h => h.backfilled c _

/-! ### Versions 5 to 10 -/

namespace Legacy

def columns₅ : Dict (Column SqlValue) := columns₄ ++ [("updated_at", nullable)]

def columns₆ : Dict (Column SqlValue) := columns₅ ++ [("retries", number 0)] ++ [("attempts", number 0)]

def columns₇ : Dict (Column SqlValue) := columns₆.filter fun x => x.1 ≠ "cron"

def columns₁₀ : Dict (Column SqlValue) := columns₇ ++ [("tags", nullable)]

def runsColumns₅ : Dict (Column SqlValue) := runsTable ++ [("updated_at", nullable)]

def runsColumns₉ : Dict (Column SqlValue) := runsColumns₅ ++ [("progress", nullable)]

def tasksColumns₅ : Dict (Column SqlValue) :=
  tasksTable ++ [("created_at", createdAt)] ++ [("updated_at", nullable)]

end Legacy

section

open Legacy

variable {c : Sql.Session SqlValue} {jobs runs : List (Row SqlValue)} {seq seq' : ℕ}
variable {R T : Relation SqlValue} {is : List Index}

lemma addTimestamps_ok :
    addTimestamps c (tables ⟨columns₄, jobs, seq⟩ ⟨runsTable, runs, seq'⟩ ⟨tasksTable, [], 0⟩ is) =
      .ok (tables ⟨columns₅, jobs.map fun r => Function.update r "updated_at" none, seq⟩
        ⟨runsColumns₅, runs.map fun r => Function.update r "updated_at" none, seq'⟩
        ⟨tasksColumns₅, [], 0⟩ is) := by
  unfold addTimestamps
  refine ok_bind (x := columns₄.map Prod.fst) rfl (ok_bind (x := runsTable.map Prod.fst) rfl
    (ok_bind (x := tasksTable.map Prod.fst) rfl ?_))
  refine ok_bind ((if_pos (by decide)).trans (onTable_jobs (Relation.addColumn_value rfl nofun))) ?_
  refine ok_bind ((if_pos (by decide)).trans (onTable_runs (Relation.addColumn_value rfl nofun))) ?_
  refine ok_bind ((if_pos (by decide)).trans (onTable_tasks (Relation.addColumn_empty rfl))) ?_
  exact (if_pos (by decide)).trans (onTable_tasks (Relation.addColumn_empty rfl))

lemma addJobRetries_ok :
    addJobRetries c (tables ⟨columns₅, jobs, seq⟩ R T is) =
      .ok (tables ⟨columns₆, (jobs.map fun r => Function.update r "retries" (some (.int 0))).map fun r =>
        Function.update r "attempts" (some (.int 0)), seq⟩ R T is) := by
  unfold addJobRetries
  refine ok_bind (x := columns₅.map Prod.fst) rfl ?_
  refine ok_bind ((if_pos (by decide)).trans
    (onTable_jobs (Relation.addColumn_value rfl fun _ => rfl))) ?_
  exact (if_pos (by decide)).trans (onTable_jobs (Relation.addColumn_value rfl fun _ => rfl))

lemma dropCronColumn_ok (his : ∀ i ∈ is, i.table = "jobs" → "cron" ∉ i.columns) :
    dropCronColumn c (tables ⟨columns₆, jobs, seq⟩ R T is) =
      .ok (tables ⟨columns₇, jobs.map fun r => Function.update r "cron" none, seq⟩ R T is) := by
  unfold dropCronColumn
  refine ok_bind (x := columns₆.map Prod.fst) rfl ?_
  exact (if_pos (by decide)).trans (drop_jobs (Relation.dropColumn_ok rfl) his)

lemma renamePendingToReady_ok {J : Relation SqlValue} :
    renamePendingToReady (tables J ⟨runsColumns₅, runs, seq'⟩ ⟨tasksColumns₅, [], 0⟩ is) =
      .ok (tables J ⟨runsColumns₅, runs.map fun r => if isPending r then
        Function.update r "status" (some (.text "ready")) else r, seq'⟩ ⟨tasksColumns₅, [], 0⟩ is) := by
  unfold renamePendingToReady
  refine ok_bind (onTable_runs (Relation.update_ok rfl ?_)) (onTable_tasks (Relation.update_ok rfl nofun))
  intro r _ _ column hcolumn _
  obtain rfl := List.mem_singleton.1 hcolumn
  rfl

lemma addRunProgress_ok {J : Relation SqlValue} :
    addRunProgress c (tables J ⟨runsColumns₅, runs, seq'⟩ T is) =
      .ok (tables J ⟨runsColumns₉, runs.map fun r => Function.update r "progress" none, seq'⟩ T is) := by
  unfold addRunProgress
  refine ok_bind (x := runsColumns₅.map Prod.fst) rfl ?_
  exact (if_pos (by decide)).trans (onTable_runs (Relation.addColumn_value rfl nofun))

lemma addJobTags_ok :
    addJobTags c (tables ⟨columns₇, jobs, seq⟩ R T is) =
      .ok (tables ⟨columns₁₀, jobs.map fun r => Function.update r "tags" none, seq⟩ R T is) := by
  unfold addJobTags
  refine ok_bind (x := columns₇.map Prod.fst) rfl ?_
  exact (if_pos (by decide)).trans (onTable_jobs (Relation.addColumn_value rfl nofun))

end

/-- The run of a row after the upgrade. -/
structure RunUpgraded (old new : Row SqlValue) : Prop extends Copied old new where
  status : new "status" =
    if old "status" = some (.text "pending") ∨ old "status" = some (.text "running") then
      some (.text "ready")
    else old "status"

lemma JobUpgraded.update {old new : Row SqlValue} (h : JobUpgraded old new) {column : String}
    (v : Option SqlValue) (hcolumn : column ∉ ["id", "job", "args", "queue", "priority", "max_attempts",
      "next_run_at", "created_at", "status", "source"]) :
    JobUpgraded old (Function.update new column v) := by
  have hkept : ∀ column' ∈ ["id", "job", "args", "queue", "priority", "max_attempts", "next_run_at",
      "created_at", "status", "source"], Function.update new column v column' = new column' := by
    intro column' hmem
    refine Function.update_of_ne ?_ _ _
    rintro rfl
    exact hcolumn hmem
  have hsub : ∀ column' ∈ ["queue", "priority", "max_attempts", "next_run_at", "created_at"],
      column' ∈ ["id", "job", "args", "queue", "priority", "max_attempts", "next_run_at", "created_at",
        "status", "source"] := by decide
  exact ⟨(hkept "id" (by decide)).trans h.id, (hkept "job" (by decide)).trans h.job,
    (hkept "args" (by decide)).trans h.args,
    fun column' hmem => (hkept column' (hsub column' hmem)).trans (h.kept column' hmem),
    (hkept "status" (by decide)).trans h.status, (hkept "source" (by decide)).trans h.source⟩

lemma Copied.update {old new : Row SqlValue} (h : Copied old new) {column : String}
    (v : Option SqlValue) (hcolumn : column ∉ ["job_id", "result", "error", "worker_id", "scheduled_at",
      "started_at", "finished_at", "locked_at", "created_at"]) :
    Copied old (Function.update new column v) := by
  refine ⟨(Function.update_of_ne ?_ _ _).trans h.jobId, fun column' hmem =>
    (Function.update_of_ne ?_ _ _).trans (h.kept column' hmem)⟩
  · rintro rfl
    exact hcolumn List.mem_cons_self
  · rintro rfl
    exact hcolumn (List.mem_cons_of_mem _ hmem)

lemma isPending_iff {r : Row SqlValue} : isPending r = true ↔ r "status" = some (.text "pending") :=
  decide_eq_true_iff

/-- The run of a row, with the columns and the status of the later versions. -/
lemma Backfilled.runUpgraded {old new : Row SqlValue} (h : Backfilled old new) :
    RunUpgraded old (Function.update
      (if isPending (Function.update new "updated_at" none) then
        Function.update (Function.update new "updated_at" none) "status" (some (.text "ready"))
      else Function.update new "updated_at" none) "progress" none) := by
  have hcopied := h.toCopied.update none (show "updated_at" ∉ _ by decide)
  have hstatus : Function.update new "updated_at" none "status" = backfilledStatus old :=
    (Function.update_of_ne (by decide) _ _).trans h.status
  generalize Function.update new "updated_at" none = new' at hcopied hstatus ⊢
  by_cases hpending : new' "status" = some (.text "pending")
  · rw [if_pos (isPending_iff.2 hpending)]
    refine ⟨(hcopied.update _ (by decide)).update _ (by decide), ?_⟩
    have hold : old "status" = some (.text "pending") ∨ old "status" = some (.text "running") := by
      rw [hstatus, backfilledStatus] at hpending
      split at hpending
      · exact .inr ‹_›
      · exact .inl hpending
    rw [if_pos hold]
    rfl
  · rw [if_neg (isPending_iff.not.2 hpending)]
    refine ⟨hcopied.update _ (by decide), (Function.update_of_ne (by decide) _ _).trans ?_⟩
    rw [hstatus, backfilledStatus] at hpending
    split at hpending
    · exact absurd rfl hpending
    · rw [hstatus, backfilledStatus, if_neg ‹_›, if_neg (not_or.2 ⟨hpending, ‹_›⟩)]

/-! ### All of them -/

lemma runAll_cons {Schema : Type} {schema schema' : Schema} {m : Migration Schema}
    {ms : List (Migration Schema)} {y : Except Exc Schema} (hm : m.fn schema = .ok schema')
    (hms : runAll schema' ms = y) : runAll schema (m :: ms) = y := by
  rw [runAll, List.foldlM_cons]
  exact ok_bind hm hms

lemma mapError_ok {m : Except Fault (Database SqlValue)} {db : Database SqlValue} (h : m = .ok db) :
    m.mapError raised = .ok db := by
  rw [h]
  rfl

lemma runAll_upgrade (c : Sql.Session SqlValue) (l : Legacy) :
    ∃ jobs runs seq', runAll l.database ((MIGRATIONS c).drop 3) =
        .ok (tables ⟨Legacy.columns₁₀, jobs, l.seq⟩ ⟨Legacy.runsColumns₉, runs, seq'⟩
          ⟨Legacy.tasksColumns₅, [], 0⟩ (Legacy.indexes₄ ++ [Legacy.idempotencyIndex])) ∧
      List.Forall₂ JobUpgraded l.rows jobs ∧ List.Forall₂ RunUpgraded l.rows runs := by
  obtain ⟨_, hmodel, jobs, runs, seq', rfl, hjobs, hruns⟩ := jobRunTaskModel_ok c l
  have hcron : ∀ i ∈ Legacy.indexes₄ ++ [Legacy.idempotencyIndex], i.table = "jobs" →
      "cron" ∉ i.columns := by decide
  refine ⟨_, _, seq', runAll_cons (mapError_ok hmodel) (runAll_cons (mapError_ok addTimestamps_ok)
    (runAll_cons (mapError_ok addJobRetries_ok) (runAll_cons (mapError_ok (dropCronColumn_ok (c := c) hcron))
      (runAll_cons (mapError_ok renamePendingToReady_ok) (runAll_cons (mapError_ok addRunProgress_ok)
        (runAll_cons (mapError_ok addJobTags_ok) rfl)))))), ?_, ?_⟩
  · simp only [List.forall₂_map_right_iff]
    exact hjobs.imp fun old new h => ((((h.update _ (by decide)).update _ (by decide)).update _
      (by decide)).update _ (by decide)).update _ (by decide)
  · simp only [List.forall₂_map_right_iff]
    exact hruns.imp fun old new h => h.runUpgraded

/-- The database at version 3, with what is recorded of it. -/
def Legacy.migrated (c : Sql.Session SqlValue) (l : Legacy) : Migrated (Database SqlValue) where
  schema := l.database
  table := some (((MIGRATIONS c).take 3).map fun m => (m.version, m.description))

/-- **The upgrade from version 3 keeps every row**, on either dialect and whatever is in the table. What
is pending are the migrations 4 to 10. A call of `migrate` that nobody disturbs applies them all. Every
old row is a job then, with its definition, and has exactly one run, with its execution; nothing is in
`tasks`. -/
theorem upgrade_keeps_rows (c : Sql.Session SqlValue) (l : Legacy) :
    ∃ final jobs runs tasks,
      (MigrationRunner.up (MIGRATIONS c) none).alone Migrated.exec (l.migrated c) =
        (final, .ok ((MIGRATIONS c).drop 3)) ∧
      final.versions = (MIGRATIONS c).map Migration.version ∧
      final.schema.table "jobs" = .ok jobs ∧ final.schema.table "runs" = .ok runs ∧
      final.schema.table "tasks" = .ok tasks ∧
      List.Forall₂ JobUpgraded l.rows jobs.rows ∧ List.Forall₂ RunUpgraded l.rows runs.rows ∧
      tasks.rows = [] := by
  obtain ⟨jobs, runs, seq', hrun, hjobs, hruns⟩ := runAll_upgrade c l
  have hrun' : runAll (l.migrated c).schema ((MIGRATIONS c).drop 3) = _ := hrun
  have hincreasing : Increasing (MIGRATIONS c) := by
    have h : ([1, 2, 3, 4, 5, 6, 7, 8, 9, 10] : List ℤ).Pairwise (· < ·) := by decide
    exact List.pairwise_map.1 (show ((MIGRATIONS c).map Migration.version).Pairwise (· < ·) from h)
  have hpos : ∀ m ∈ MIGRATIONS c, 1 ≤ m.version := by
    have h : ∀ v ∈ ([1, 2, 3, 4, 5, 6, 7, 8, 9, 10] : List ℤ), 1 ≤ v := by decide
    exact fun m hm => h _ (show m.version ∈ (MIGRATIONS c).map _ from List.mem_map_of_mem hm)
  have hnew : ∀ m ∈ (MIGRATIONS c).drop 3, m.version ∉ (l.migrated c).versions := by
    have h : ∀ v ∈ ([4, 5, 6, 7, 8, 9, 10] : List ℤ), v ∉ ([1, 2, 3] : List ℤ) := by decide
    exact fun m hm => h _ (show m.version ∈ ((MIGRATIONS c).drop 3).map _ from List.mem_map_of_mem hm)
  have hnodup : (((MIGRATIONS c).drop 3).map Migration.version).Nodup :=
    show ([4, 5, 6, 7, 8, 9, 10] : List ℤ).Nodup by decide
  have hpending : (MigrationRunner.pending (MIGRATIONS c)).alone Migrated.exec (l.migrated c) =
      (l.migrated c, .ok ((MIGRATIONS c).drop 3)) :=
    pending_alone (show MigrationRunner.sorted (MIGRATIONS c) =
      (MIGRATIONS c).take 3 ++ (MIGRATIONS c).drop 3 from rfl) rfl hincreasing hpos
  have hnone : ∀ m ∈ ([] : List (Migration (Database SqlValue))).head?,
      ∃ exc, m.fn (tables ⟨Legacy.columns₁₀, jobs, l.seq⟩ ⟨Legacy.runsColumns₉, runs, seq'⟩
        ⟨Legacy.tasksColumns₅, [], 0⟩ (Legacy.indexes₄ ++ [Legacy.idempotencyIndex])) = .error exc := nofun
  obtain ⟨db', y, hloop, hversions, hschema, hall⟩ := upFrom_alone [] hrun' hnew hnodup hnone
  obtain rfl := hall rfl
  refine ⟨db', ⟨Legacy.columns₁₀, jobs, l.seq⟩, ⟨Legacy.runsColumns₉, runs, seq'⟩,
    ⟨Legacy.tasksColumns₅, [], 0⟩, ?_, hversions, ?_, ?_, ?_, hjobs, hruns, rfl⟩
  · unfold MigrationRunner.up
    rw [Prog.alone_bind hpending]
    simpa using hloop
  all_goals
    rw [hschema]
    rfl

end Pyreljob
