import Pyreljob.System.Footprint
import Pyreljob.Store.Records

/-!
Deleting a job.

`delete_job` looks for runs that are ready or running, and raises if there are any; it deletes in
another transaction, which does not look again. In between the beat, or a worker that retries a whole
run, may create a run of the job. Nothing else can put a run of the job back in flight: one that has
finished stays so.
-/

namespace Pyreljob

open Lib

/-! ### The deletion -/

/-- The job, all its runs and all their tasks are gone, and nothing else has changed. -/
structure Deletes (j : ℕ) (db db' : DB) : Prop where
  jobs : ∀ i, db'.jobs.get? i = if i = j then none else db.jobs.get? i
  runs : ∀ i, db'.runs.get? i = (db.runs.get? i).filter fun r => r.jobId ≠ j
  tasks : ∀ i, db'.tasks.get? i =
    (db.tasks.get? i).filter fun t => ¬ (db.runs.get? t.runId).any fun r => r.jobId = j

/-- **What `delete_job` deletes.** -/
lemma deleteJob_deletes (db : DB) (j : ℕ) : Deletes j db (db.deleteJob j) := by
  have hkeep : ∀ {α : Type} (o : Option α) (q : α → Bool), (∀ a, o = some a → q a) →
      o = o.filter q := by
    intro α o q h
    cases o with
    | none => rfl
    | some a => simp [Option.filter, h a rfl]
  have hnone : (db.runs.select fun r => r.jobId = j).map RunRow.id = [] →
      ∀ i r, db.runs.get? i = some r → r.jobId ≠ j := by
    intro hnil i r hr hj
    have hmem : i ∈ (db.runs.select fun r => r.jobId = j).map RunRow.id :=
      mem_runIds.2 ⟨r, hr, hj⟩
    rw [hnil] at hmem
    cases hmem
  refine ⟨fun i => ?_, fun i => ?_, fun i => ?_⟩
  · simp only [DB.deleteJob, Table.get?_delete]
    cases hi : db.jobs.get? i with
    | none => simp
    | some job =>
      have hid := job_id_of_get? hi
      by_cases hij : i = j <;> simp [Option.filter, hid, hij]
  · simp only [DB.deleteJob]
    split
    · rename_i hnil
      exact hkeep _ _ fun r hr => by simpa using hnone hnil i r hr
    · simp
  · simp only [DB.deleteJob]
    split
    · rename_i hnil
      refine hkeep _ _ fun t _ => ?_
      cases hr : db.runs.get? t.runId with
      | none => simp
      | some r => simpa using hnone hnil _ r hr
    · simp only [Table.get?_delete, mem_runIds, Option.any_eq_true, decide_eq_true_eq]

/-! ### The call -/

namespace JobManager

/-- What a call of `delete` raises if it finds a run in flight. -/
def refusal : Exc := .valueError "cannot delete a job with ready or running runs; cancel it first"

lemma delete_goes {j : ℕ} {l : List (Σ r : Req, Except Exc r.Reply)} {q : Io Unit}
    (h : (delete j).Goes l q) :
    (l = [] ∧ ∃ f, q = .ask (.db (.hasActiveRun j)) f) ∨
    (∃ exc, l = [⟨.db (.hasActiveRun j), .error exc⟩] ∧ q = .ret (.error exc)) ∨
    (l = [⟨.db (.hasActiveRun j), .ok true⟩] ∧ q = .ret (.error refusal)) ∨
    (l = [⟨.db (.hasActiveRun j), .ok false⟩] ∧ ∃ f, q = .ask (.db (.deleteJob j)) f) ∨
    ∃ y, l = [⟨.db (.hasActiveRun j), .ok false⟩, ⟨.db (.deleteJob j), y⟩] ∧ q = .ret y := by
  rcases Prog.goes_call_bind h with ⟨rfl, rfl⟩ | ⟨exc, rfl, rfl⟩ | ⟨active, l', rfl, h'⟩
  · exact .inl ⟨rfl, _, rfl⟩
  · exact .inr (.inl ⟨exc, rfl, rfl⟩)
  · cases active with
    | true =>
      obtain ⟨rfl, rfl⟩ := Prog.goes_ret.1 h'
      exact .inr (.inr (.inl ⟨rfl, rfl⟩))
    | false =>
      rcases Prog.goes_ask.1 h' with ⟨rfl, rfl⟩ | ⟨y, l', rfl, h''⟩
      · exact .inr (.inr (.inr (.inl ⟨rfl, _, rfl⟩)))
      · obtain ⟨rfl, rfl⟩ := Prog.goes_ret.1 h''
        exact .inr (.inr (.inr (.inr ⟨y, rfl, rfl⟩)))

end JobManager

/-- The call of `delete` that the process `pid` is, removes no live work, as far as the log tells. -/
structure SparesLive (pid j : ℕ) (log : List Ev) : Prop where
  /-- A call that meets a run in flight raises. -/
  refuses : ∀ a y db db', (⟨pid, .db (.hasActiveRun j), a, .ok y, db, db'⟩ : Ev) ∈ log →
    (∃ r ∈ db.runs.rows, r.jobId = j ∧ r.status.inFlight) →
      (JobManager.delete j).Ends (Pool.said pid log) (.error JobManager.refusal)
  /-- A call that raises has changed nothing. -/
  raises : ∀ exc, (JobManager.delete j).Ends (Pool.said pid log) (.error exc) →
    ∀ ev ∈ log, ev.pid = pid → ev.post = ev.pre
  /-- A call that returns has deleted. -/
  returns : (JobManager.delete j).Ends (Pool.said pid log) (.ok ()) →
    ∃ e db db', (⟨pid, .db (.deleteJob j), .commit e, .ok (), db, db'⟩ : Ev) ∈ log
  /-- A deletion takes the job, its runs and their tasks and nothing else, and no run in flight. -/
  deletes : ∀ e db db', (⟨pid, .db (.deleteJob j), .commit e, .ok (), db, db'⟩ : Ev) ∈ log →
    Deletes j db db' ∧ ∀ r ∈ db.runs.rows, r.jobId = j → ¬ r.status.inFlight

def CreatedIn (i : ℕ) (ev : Ev) : Prop := ev.pre.runs.get? i = none ∧ (ev.post.runs.get? i).isSome

/-- No run of the job that was created after the call's check is in flight when the call deletes. -/
def NothingSlipsIn (pid j : ℕ) (log : List Ev) : Prop :=
  ∀ l₁ l₂ l₃ a e db₀ db₁ db db',
    log = l₁ ++ ⟨pid, .db (.hasActiveRun j), a, .ok false, db₀, db₁⟩ :: l₂ ++
      ⟨pid, .db (.deleteJob j), .commit e, .ok (), db, db'⟩ :: l₃ →
    ∀ r ∈ db.runs.rows, r.jobId = j → r.status.inFlight → ∀ ev ∈ l₂, ¬ CreatedIn r.id ev

section

variable {C : System → Act → Prop} {p q : System} {pid j : ℕ}

/-- A run in flight that was not created in between was in flight before, for the same job. -/
lemma inFlight_before (hrun : System.Run C p q) {l : List Ev} (hlog : q.log = p.log ++ l) {i : ℕ}
    (hl : ∀ ev ∈ l, ¬ CreatedIn i ev) {r : RunRow} (hr : q.shared.runs.get? i = some r)
    (hfl : r.status.inFlight) :
    ∃ r₀, p.shared.runs.get? i = some r₀ ∧ r₀.status.inFlight ∧ r₀.jobId = r.jobId := by
  refine Pool.Run.before (P := fun db => ∃ r₀, db.runs.get? i = some r₀ ∧ r₀.status.inFlight ∧
    r₀.jobId = r.jobId) ?_ hrun hlog hl ⟨r, hr, hfl, rfl⟩
  rintro q q' act hstep ⟨r', hr', hfl', hj'⟩
  rcases System.step_cases hstep with hsame | ⟨pid, c, e, y, -, -, hx, hlast⟩
  · exact .inl ⟨r', hsame ▸ hr', hfl', hj'⟩
  · have hrow := exec_run hx i
    rw [hr'] at hrow
    rcases hrow.inFlight hfl' with ⟨hnone, -⟩ | ⟨r₀, hr₀, hfl₀, hj₀⟩
    · exact .inr ⟨_, hlast, hnone, by simp [hr']⟩
    · exact .inl ⟨r₀, hr₀, hfl₀, hj₀.trans hj'⟩

lemma hasActiveRun_event (h : p.Reached C) {a : Answer} {y : Bool} {db db' : DB}
    (hev : (⟨pid, .db (.hasActiveRun j), a, .ok y, db, db'⟩ : Ev) ∈ p.log) :
    y = db.hasActiveRun j ∧ db' = db := by
  have hans : answer db (.db (.hasActiveRun j)) a = some (db', .ok y) :=
    Pool.log_answered h (by simp [System.init]) _ hev
  cases a with
  | commit e =>
    cases hans
    exact ⟨rfl, rfl⟩
  | _ => cases hans

lemma deleteJob_event (h : p.Reached C) {a : Answer} {y : Except Exc Unit} {db db' : DB}
    (hev : (⟨pid, .db (.deleteJob j), a, y, db, db'⟩ : Ev) ∈ p.log) :
    (∃ e, a = .commit e ∧ y = .ok () ∧ Deletes j db db') ∨ ∃ exc, y = .error exc ∧ db' = db := by
  have hans : answer db (.db (.deleteJob j)) a = some (db', y) :=
    Pool.log_answered h (by simp [System.init]) _ hev
  cases a with
  | commit e =>
    cases hans
    exact .inl ⟨e, rfl, rfl, deleteJob_deletes db j⟩
  | fail exc =>
    cases hans
    exact .inr ⟨exc, rfl, rfl⟩
  | _ => cases hans

lemma check_unchanged (h : p.Reached C) {a : Answer} {y : Except Exc Bool} {db db' : DB}
    (hev : (⟨pid, .db (.hasActiveRun j), a, y, db, db'⟩ : Ev) ∈ p.log) : db' = db := by
  have hans : answer db (.db (.hasActiveRun j)) a = some (db', y) :=
    Pool.log_answered h (by simp [System.init]) _ hev
  cases a <;> cases hans <;> rfl

lemma event_of_said {log : List Ev} {r : Req} {y : Except Exc r.Reply}
    (h : (⟨r, y⟩ : Σ r : Req, Except Exc r.Reply) ∈ Pool.said pid log) :
    ∃ a db db', (⟨pid, r, a, y, db, db'⟩ : Ev) ∈ log := by
  obtain ⟨⟨pid', r', a, y', db, db'⟩, hev, rfl, heq⟩ := Pool.mem_of_said h
  cases heq
  exact ⟨a, db, db', hev⟩

lemma said_of_event {log : List Ev} {ev : Ev} (h : ev ∈ log) :
    (⟨ev.req, ev.reply⟩ : Σ r : Req, Except Exc r.Reply) ∈ Pool.said ev.pid log :=
  List.mem_map.2 ⟨ev, List.mem_filter.2 ⟨h, by simp⟩, rfl⟩

/-- **A deletion comes after a check that found nothing**, so that what it takes that is in flight was
created in between. -/
lemma checked_before (h : p.Reached C) (hk : p.kind? pid = some (.delete j)) {e : Env}
    {db db' : DB} {l₀ l₃ : List Ev}
    (hlog : p.log = l₀ ++ ⟨pid, .db (.deleteJob j), .commit e, .ok (), db, db'⟩ :: l₃) :
    ∃ l₁ l₂ a db₀ db₁, l₀ = l₁ ++ ⟨pid, .db (.hasActiveRun j), a, .ok false, db₀, db₁⟩ :: l₂ ∧
      ∀ r ∈ db.runs.rows, r.jobId = j → r.status.inFlight → ∃ ev ∈ l₂, CreatedIn r.id ev := by
  obtain ⟨f, hgoes⟩ := Pool.event_goes h rfl rfl hlog hk
  have hsaid : Pool.said pid l₀ = [⟨.db (.hasActiveRun j), .ok false⟩] := by
    rcases JobManager.delete_goes hgoes with ⟨-, f, hq⟩ | ⟨exc, -, hq⟩ | ⟨-, hq⟩ | ⟨hsaid, -⟩ |
      ⟨y, -, hq⟩
    · cases hq
    · cases hq
    · cases hq
    · exact hsaid
    · cases hq
  obtain ⟨a, db₀, db₁, hcheck⟩ := event_of_said (hsaid ▸ List.mem_singleton_self _)
  obtain ⟨l₁, l₂, rfl⟩ := List.append_of_mem hcheck
  have hmem : (⟨pid, .db (.hasActiveRun j), a, .ok false, db₀, db₁⟩ : Ev) ∈ p.log := by
    rw [hlog]
    exact List.mem_append_left _ hcheck
  obtain ⟨hnone, rfl⟩ := hasActiveRun_event h hmem
  refine ⟨l₁, l₂, a, _, _, rfl, fun r hr hj hfl => ?_⟩
  obtain ⟨q, q', -, hrun, hpost, hpre, hl⟩ := Pool.events_run h rfl hlog
  by_contra hnew
  have hr' : q'.shared.runs.get? r.id = some r := by
    rw [hpre]
    exact Table.get?_of_mem hr
  obtain ⟨r₀, hr₀, hfl₀, hj₀⟩ := inFlight_before hrun hl (fun ev hev hc => hnew ⟨ev, hev, hc⟩) hr' hfl
  rw [hpost] at hr₀
  exact not_inFlight_of_hasActiveRun hnone.symm hr₀ (hj₀.trans hj) hfl₀

lemma delete_said (h : p.Reached C) (hk : p.kind? pid = some (.delete j)) {ev : Ev}
    (hev : ev ∈ p.log) (hpid : ev.pid = pid) :
    (∃ a y db db', ev = ⟨pid, .db (.hasActiveRun j), a, y, db, db'⟩) ∨
      ∃ a y db db', ev = ⟨pid, .db (.deleteJob j), a, y, db, db'⟩ := by
  obtain ⟨pid', r, a, y, db, db'⟩ := ev
  obtain rfl : pid' = pid := hpid
  obtain ⟨q, hgoes, -⟩ := Pool.said_goes h rfl rfl hk
  have hsaid := said_of_event hev
  dsimp only at hsaid
  rcases JobManager.delete_goes hgoes with ⟨hl, -⟩ | ⟨exc, hl, -⟩ | ⟨hl, -⟩ | ⟨hl, -⟩ | ⟨y', hl, -⟩ <;>
    rw [hl] at hsaid <;> simp only [List.mem_cons, List.not_mem_nil, or_false, Sigma.mk.injEq] at hsaid
  · obtain ⟨rfl, -⟩ := hsaid
    exact .inl ⟨a, y, db, db', rfl⟩
  · obtain ⟨rfl, -⟩ := hsaid
    exact .inl ⟨a, y, db, db', rfl⟩
  · obtain ⟨rfl, -⟩ := hsaid
    exact .inl ⟨a, y, db, db', rfl⟩
  · rcases hsaid with ⟨rfl, -⟩ | ⟨rfl, -⟩
    · exact .inl ⟨a, y, db, db', rfl⟩
    · exact .inr ⟨a, y, db, db', rfl⟩

end

/-- **A call of `delete` removes no live work exactly if no run slips in.** In every run of the system,
whoever else acts: such a call refuses when it meets a run in flight, changes nothing when it raises,
and otherwise takes the job, its runs and their tasks and nothing else. But the runs it takes are those
of the moment when it deletes, and one that was created after the check may be in flight. -/
theorem delete_spares_live {p : System} (h : p.Reached System.Any) {pid j : ℕ}
    (hk : p.kind? pid = some (.delete j)) : SparesLive pid j p.log ↔ NothingSlipsIn pid j p.log := by
  obtain ⟨q, hgoes, -⟩ := Pool.said_goes h rfl rfl hk
  constructor
  · intro hs l₁ l₂ l₃ a e db₀ db₁ db db' hlog r hr hj hfl
    have hdel : (⟨pid, .db (.deleteJob j), .commit e, .ok (), db, db'⟩ : Ev) ∈ p.log := by
      rw [hlog]
      exact List.mem_append_right _ List.mem_cons_self
    exact absurd hfl ((hs.deletes e db db' hdel).2 r hr hj)
  · intro hslip
    refine ⟨?_, ?_, ?_, ?_⟩
    · rintro a y db db' hev ⟨r, hr, hj, hfl⟩
      obtain ⟨rfl, -⟩ := hasActiveRun_event h hev
      have htrue : db.hasActiveRun j = true := List.any_eq_true.2 ⟨r, hr, by simp [hj, hfl]⟩
      rw [htrue] at hev
      have hsaid := said_of_event hev
      dsimp only at hsaid
      rcases JobManager.delete_goes hgoes with ⟨hl, -⟩ | ⟨exc, hl, -⟩ | ⟨hl, -⟩ | ⟨hl, -⟩ |
        ⟨y, hl, -⟩ <;> rw [hl] at hsaid ⊢
      · cases hsaid
      · simp at hsaid
      · exact .ask (.ret _)
      · simp at hsaid
      · simp at hsaid
    · intro exc hends ev hev hpid
      rcases delete_said h hk hev hpid with ⟨a, y, db, db', rfl⟩ | ⟨a, y, db, db', rfl⟩
      · exact check_unchanged h hev
      rcases deleteJob_event h hev with ⟨e, -, rfl, -⟩ | ⟨exc', -, hsame⟩
      · have hsaid := said_of_event hev
        dsimp only at hsaid
        rcases JobManager.delete_goes hends.goes with ⟨-, f, hq⟩ | ⟨exc, hl, -⟩ | ⟨hl, -⟩ |
          ⟨-, f, hq⟩ | ⟨y, hl, hq⟩
        · cases hq
        · simp [hl] at hsaid
        · simp [hl] at hsaid
        · cases hq
        · cases hq
          simp [hl] at hsaid
      · exact hsame
    · intro hends
      rcases JobManager.delete_goes hends.goes with ⟨-, f, hq⟩ | ⟨exc, -, hq⟩ | ⟨-, hq⟩ |
        ⟨-, f, hq⟩ | ⟨y, hl, hq⟩
      · cases hq
      · cases hq
      · cases hq
      · cases hq
      · cases hq
        obtain ⟨a, db, db', hev⟩ := event_of_said (r := .db (.deleteJob j))
          (hl ▸ List.mem_cons_of_mem _ (List.mem_singleton_self _))
        rcases deleteJob_event h hev with ⟨e, rfl, -, -⟩ | ⟨exc, hexc, -⟩
        · exact ⟨e, db, db', hev⟩
        · cases hexc
    · intro e db db' hdel
      refine ⟨?_, fun r hr hj hfl => ?_⟩
      · rcases deleteJob_event h hdel with ⟨e', -, -, hd⟩ | ⟨exc, hexc, -⟩
        · exact hd
        · cases hexc
      · obtain ⟨l₀, l₃, hlog⟩ := List.append_of_mem hdel
        obtain ⟨l₁, l₂, a, db₀, db₁, rfl, hnew⟩ := checked_before h hk hlog
        obtain ⟨ev, hev, hc⟩ := hnew r hr hj hfl
        exact hslip l₁ l₂ l₃ a e db₀ db₁ db db' hlog r hr hj hfl ev hev hc

/-- A job is scheduled and is due. A client deletes it while nobody else acts. -/
def deleted : List Act :=
  .spawn (.schedule { job := "m.J", nextRunAt := some 0 }) :: commits 0 2 0 ++
  .spawn (.delete 0) :: commits 1 2 1

theorem delete_spares_live_deleted : ∃ p : System,
    System.init.play System.Any deleted = some p ∧ p.kind? 1 = some (.delete 0) ∧
    (SparesLive 1 0 p.log ↔ NothingSlipsIn 1 0 p.log) := by
  have hall : (System.init.play System.Any deleted).map (fun p => p.kind? 1) =
      some (some (.delete 0)) := by
    rfl
  obtain ⟨p, hp, hk⟩ := Option.map_eq_some_iff.1 hall
  exact ⟨p, hp, hk, delete_spares_live (Pool.run_of_play hp) hk⟩

/-- A beat has won the claim on a job. A client (process 2) asks to delete the job and is not refused,
and the beat creates the run. -/
def overtakenCheck : List Act :=
  firing ++ .spawn (.delete 0) :: commits 2 1 2 ++ commits 1 1 3

/-- Then the client's call deletes the run, which is ready. -/
theorem live_run_deleted : ∃ q p : System,
    System.init.play System.Any overtakenCheck = some q ∧
    System.play System.Any q (commits 2 1 4) = some p ∧ p.kind? 2 = some (.delete 0) ∧
    ¬ SparesLive 2 0 p.log := by
  have hall : ((System.init.play System.Any overtakenCheck).any fun q =>
      q.shared.runs.rows.any (fun r => r.jobId = 0 ∧ r.status.inFlight) ∧
        (System.play System.Any q (commits 2 1 4)).isSome) = true := by decide
  have hwaits : (System.init.play System.Any overtakenCheck).map
      (fun q => (q.kind? 2, q.pending 2)) = some (some (.delete 0), some (.db (.deleteJob 0))) := by
    rfl
  obtain ⟨q, hq, hlive⟩ := (Option.any_eq_true _ _).1 hall
  simp only [Bool.decide_and, Bool.and_eq_true, Bool.decide_eq_true, List.any_eq_true,
    decide_eq_true_eq] at hlive
  obtain ⟨⟨r, hr, hj, hfl⟩, hsome⟩ := hlive
  rw [hq, Option.map_some] at hwaits
  obtain ⟨hkind, hpending⟩ := Prod.mk.inj (Option.some.inj hwaits)
  obtain ⟨p, hp⟩ := Option.isSome_iff_exists.1 hsome
  have hstep : Pool.step answer Kind.program q (.act 2 (committed 4)) = some p := by
    simp only [System.play, commits, List.replicate, Pool.play] at hp
    split at hp
    · simpa using hp
    · cases hp
  obtain ⟨c, y, hasks, hx, hlog⟩ := System.step_commit hstep
  rw [hpending] at hasks
  cases hasks
  obtain rfl := (Prod.mk.inj (Option.some.inj hx)).2
  refine ⟨q, p, hq, hp, Pool.kind?_stays hstep hkind, fun hs => ?_⟩
  exact (hs.deletes _ _ _ (hlog ▸ List.mem_append_right _ (List.mem_singleton_self _))).2 r hr hj hfl

end Pyreljob
