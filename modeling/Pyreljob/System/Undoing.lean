import Pyreljob.Model.Manager
import Pyreljob.Store.View

/-!
Undoing by hand.

`JobManager.undo` reads the records of the job's last run and calls `undo` for those that have
succeeded, last one first. A record is marked in a transaction of its own, after its `undo` has
returned; an `undo` that raises ends the call. So a call that was broken off at some position leaves
everything below it as it was, and the next one goes on there.

Nobody else acts here. What user code does is a script: what each call of `undo` does, in their order.
-/

namespace Pyreljob

open Lib

/-! ### The script -/

/-- What the calls of `undo` do, one after the other: whether they raise, and the `ctx.state` they
leave. -/
abbrev Undos := ℕ → Option Exc × Dict Value

/-- What a request is answered after `n` calls of `undo`. -/
def Undos.answer (script : Undos) (clock : ℕ → Time) (n : ℕ) : Req → Answer
  | .undo .. => .undone (script n).1 (script n).2
  | .db _ => .commit { now := clock n }
  | _ => .time (clock n)

/-- Every transaction commits, and the calls of `undo` go as the script says. The state holds their
positions beside the database. -/
def scripted (script : Undos) (clock : ℕ → Time) (s : DB × List ℕ) (r : Req) :
    (DB × List ℕ) × Except Exc r.Reply :=
  let calls := match r with
    | .undo _ pos _ => s.2 ++ [pos]
    | _ => s.2
  match answer s.1 r (script.answer clock s.2.length r) with
  | some (db, y) => ((db, calls), y)
  | none => (s, .error (.other "" ""))

/-- The calls for these positions of a run, one after the other, until one raises. -/
def unwind (script : Undos) (clock : ℕ → Time) (i : ℕ) :
    List ℕ → DB × List ℕ → (DB × List ℕ) × Except Exc Unit
  | [], s => (s, .ok ())
  | pos :: ps, (db, calls) =>
    match (script calls.length).1 with
    | some exc => ((db, calls ++ [pos]), .error exc)
    | none => unwind script clock i ps
        (db.compensateTask (clock (calls.length + 1)) i pos, calls ++ [pos])

def TaskRow.marked (now : Time) (t : TaskRow) : TaskRow :=
  { t with status := .compensated, compensatedAt := some now, updatedAt := some now }

/-- The records with `P` have become compensated, and every other row is unchanged. -/
structure Marked (P : TaskRow → Prop) (db db' : DB) : Prop where
  jobs : db'.jobs = db.jobs
  runs : db'.runs = db.runs
  marked : ∀ k t, db.tasks.get? k = some t → P t → ∃ now, db'.tasks.get? k = some (t.marked now)
  others : ∀ k, (∀ t, db.tasks.get? k = some t → ¬ P t) → db'.tasks.get? k = db.tasks.get? k

section

variable {script : Undos} {clock : ℕ → Time} {i : ℕ} {cls : JobCls} {db db₁ db₂ : DB} {calls : List ℕ}
  {P Q : TaskRow → Prop}

lemma scripted_undo (pos : ℕ) (ctx : TaskContext) :
    scripted script clock (db, calls) (.undo i pos ctx) =
      ((db, calls ++ [pos]), .ok (script calls.length)) := rfl

lemma scripted_compensateTask (pos : ℕ) :
    scripted script clock (db, calls) (.db (.compensateTask i pos)) =
      ((db.compensateTask (clock calls.length) i pos, calls), .ok ()) := rfl

/-! ### The loop -/

lemma undoFrom_alone {records : List TaskRow}
    (hwithin : ∀ t ∈ records, t.position < cls.tasks.length) (ctx : TaskContext) :
    (JobManager.undoFrom i cls records ctx).alone (scripted script clock) (db, calls) =
      unwind script clock i ((records.filter fun t => t.status = .succeeded).map TaskRow.position)
        (db, calls) := by
  induction records generalizing ctx db calls with
  | nil => rfl
  | cons record records ih =>
    obtain ⟨hpos, hrest⟩ := List.forall_mem_cons.1 hwithin
    unfold JobManager.undoFrom
    by_cases hs : record.status = .succeeded
    · have htask : Worker.taskForRecord record cls = .ok cls.tasks[record.position] := by
        simp [Worker.taskForRecord, hpos]
      rw [if_neg (not_not.2 hs), htask, List.filter_cons_of_pos (by simpa using hs), List.map_cons,
        unwind]
      dsimp only
      rw [Prog.alone_call_bind (scripted_undo record.position ctx)]
      cases hraised : (script calls.length).1 with
      | some exc => rfl
      | none =>
        dsimp only
        rw [Prog.alone_call_bind (scripted_compensateTask record.position), ih hrest, List.length_append,
          List.length_singleton]
    · rw [if_pos hs, List.filter_cons_of_neg (by simpa using hs)]
      exact ih hrest ctx

/-! ### What becomes of the records -/

lemma Marked.refl (h : ∀ k t, db.tasks.get? k = some t → ¬ P t) : Marked P db db where
  jobs := rfl
  runs := rfl
  marked := fun k t ht hp => absurd hp (h k t ht)
  others := fun _ _ => rfl

lemma Marked.congr (h : Marked P db db₁)
    (hPQ : ∀ k t, db.tasks.get? k = some t → (P t ↔ Q t)) : Marked Q db db₁ where
  jobs := h.jobs
  runs := h.runs
  marked := fun k t ht hq => h.marked k t ht ((hPQ k t ht).2 hq)
  others := fun k hno => h.others k fun t ht hp => hno t ht ((hPQ k t ht).1 hp)

lemma compensateTask_marked (db : DB) (now : Time) (i pos : ℕ) :
    Marked (DB.At i pos) db (db.compensateTask now i pos) where
  jobs := rfl
  runs := rfl
  marked := by
    intro k t ht hat
    refine ⟨now, ?_⟩
    simp only [DB.compensateTask, Table.get?_update, ht, Option.map_some, if_pos hat]
    rfl
  others := by
    intro k hno
    simp only [DB.compensateTask, Table.get?_update]
    cases ht : db.tasks.get? k with
    | none => rfl
    | some t => simp [hno t ht]

lemma Marked.trans (h₁ : Marked P db db₁) (h₂ : Marked Q db₁ db₂)
    (hQ : ∀ t now, Q (t.marked now) ↔ Q t) : Marked (fun t => P t ∨ Q t) db db₂ where
  jobs := h₂.jobs.trans h₁.jobs
  runs := h₂.runs.trans h₁.runs
  marked := by
    intro k t ht hor
    by_cases hp : P t
    · obtain ⟨now, ht₁⟩ := h₁.marked k t ht hp
      by_cases hq : Q t
      · obtain ⟨now', ht₂⟩ := h₂.marked k _ ht₁ ((hQ t now).2 hq)
        exact ⟨now', ht₂⟩
      · refine ⟨now, (h₂.others k fun t' ht' hq' => ?_).trans ht₁⟩
        rw [ht₁] at ht'
        cases ht'
        exact hq ((hQ t now).1 hq')
    · have ht₁ : db₁.tasks.get? k = some t := by
        rw [h₁.others k, ht]
        intro t' ht' hp'
        rw [ht] at ht'
        cases ht'
        exact hp hp'
      exact h₂.marked k t ht₁ (hor.resolve_left hp)
  others := by
    intro k hno
    have hsame := h₁.others k fun t ht hp => hno t ht (.inl hp)
    rw [h₂.others k, hsame]
    intro t ht hq
    rw [hsame] at ht
    exact hno t ht (.inr hq)

lemma Marked.before (h : Marked P db db₁) {k : ℕ} {t' : TaskRow}
    (ht' : db₁.tasks.get? k = some t') : ∃ t, db.tasks.get? k = some t ∧
      ((P t ∧ ∃ now, t' = t.marked now) ∨ (¬ P t ∧ t' = t)) := by
  cases ht : db.tasks.get? k with
  | none =>
    rw [h.others k fun t htk => by simp [ht] at htk, ht] at ht'
    cases ht'
  | some t =>
    refine ⟨t, rfl, ?_⟩
    by_cases hp : P t
    · obtain ⟨now, hmarked⟩ := h.marked k t ht hp
      rw [ht'] at hmarked
      exact .inl ⟨hp, now, Option.some.inj hmarked⟩
    · have hsame : db₁.tasks.get? k = db.tasks.get? k := by
        refine h.others k fun t₀ ht₀ hp₀ => ?_
        rw [ht] at ht₀
        cases ht₀
        exact hp hp₀
      rw [hsame, ht] at ht'
      exact .inr ⟨hp, (Option.some.inj ht').symm⟩

/-- **How far the calls come**: to the end, or to the first one that raises. -/
lemma unwind_cases (script : Undos) (clock : ℕ → Time) (i : ℕ) (ps : List ℕ) (db : DB)
    (calls : List ℕ) :
    (∃ db', unwind script clock i ps (db, calls) = ((db', calls ++ ps), .ok ()) ∧
      (∀ k < ps.length, (script (calls.length + k)).1 = none) ∧
      Marked (fun t => t.runId = i ∧ t.position ∈ ps) db db' ∧ (db.OnePer i → db'.OnePer i)) ∨
    ∃ db' above p rest exc, ps = above ++ p :: rest ∧
      unwind script clock i ps (db, calls) = ((db', calls ++ above ++ [p]), .error exc) ∧
      (∀ k < above.length, (script (calls.length + k)).1 = none) ∧
      (script (calls.length + above.length)).1 = some exc ∧
      Marked (fun t => t.runId = i ∧ t.position ∈ above) db db' ∧ (db.OnePer i → db'.OnePer i) := by
  induction ps generalizing db calls with
  | nil => exact .inl ⟨db, by simp [unwind], nofun, .refl fun _ _ _ => by simp, id⟩
  | cons pos ps ih =>
    cases hraised : (script calls.length).1 with
    | some exc =>
      exact .inr ⟨db, [], pos, ps, exc, rfl, by simp [unwind, hraised], nofun, hraised,
        .refl fun _ _ _ => by simp, id⟩
    | none =>
      have hone : db.OnePer i → (db.compensateTask (clock (calls.length + 1)) i pos).OnePer i :=
        exec_onePer (c := .compensateTask i pos) (e := { now := clock (calls.length + 1) }) rfl
      have hfirst := compensateTask_marked db (clock (calls.length + 1)) i pos
      have hmarks : ∀ (l : List ℕ) (t : TaskRow) (now : Time),
          ((t.marked now).runId = i ∧ (t.marked now).position ∈ l) ↔ (t.runId = i ∧ t.position ∈ l) :=
        fun _ _ _ => Iff.rfl
      have hcons : ∀ (l : List ℕ) (t : TaskRow), (DB.At i pos t ∨ (t.runId = i ∧ t.position ∈ l)) ↔
          (t.runId = i ∧ t.position ∈ pos :: l) := by
        intro l t
        rw [List.mem_cons, and_or_left]
        rfl
      have hscript : ∀ {l : List ℕ}, (∀ k < l.length, (script ((calls ++ [pos]).length + k)).1 = none) →
          ∀ k < (pos :: l).length, (script (calls.length + k)).1 = none := by
        intro l hl k hk
        cases k with
        | zero => exact hraised
        | succ k =>
          have hnone := hl k (by simpa using hk)
          rwa [List.length_append, List.length_singleton, Nat.add_right_comm] at hnone
      have hunwind : unwind script clock i (pos :: ps) (db, calls) = unwind script clock i ps
          (db.compensateTask (clock (calls.length + 1)) i pos, calls ++ [pos]) := by
        simp [unwind, hraised]
      rcases ih (db.compensateTask (clock (calls.length + 1)) i pos) (calls ++ [pos]) with
        ⟨db', heq, hnone, hcomp, hper⟩ | ⟨db', above, p, rest, exc, rfl, heq, hnone, hexc, hcomp, hper⟩
      · refine .inl ⟨db', by simp [hunwind, heq], hscript hnone, ?_, fun h => hper (hone h)⟩
        exact (hfirst.trans hcomp fun t now => hmarks ps t now).congr fun k t _ => hcons ps t
      · refine .inr ⟨db', pos :: above, p, rest, exc, rfl, by simp [hunwind, heq], hscript hnone, ?_, ?_,
          fun h => hper (hone h)⟩
        · rw [List.length_cons, Nat.add_comm above.length 1, ← Nat.add_assoc]
          rwa [List.length_append, List.length_singleton] at hexc
        · exact (hfirst.trans hcomp fun t now => hmarks above t now).congr fun k t _ => hcons above t

lemma unwind_head (script : Undos) (clock : ℕ → Time) (i pos : ℕ) (ps : List ℕ) (db : DB) :
    ∃ db' rest v, unwind script clock i (pos :: ps) (db, []) = ((db', pos :: rest), v) := by
  rw [unwind]
  cases (script 0).1 with
  | some exc => exact ⟨_, _, _, rfl⟩
  | none =>
    rcases unwind_cases script clock i ps (db.compensateTask (clock 1) i pos) [pos] with
      ⟨db', heq, -⟩ | ⟨db', above, p, rest, exc, -, heq, -⟩
    · exact ⟨db', ps, _, heq⟩
    · exact ⟨db', above ++ [p], _, heq⟩

/-! ### What is left to undo -/

lemma mem_succeeded {pos : ℕ} : pos ∈ succeeded (db.tasksOf i) ↔
    ∃ k t, db.tasks.get? k = some t ∧ t.runId = i ∧ t.status = .succeeded ∧ t.position = pos := by
  simp only [succeeded, List.mem_map, List.mem_filter, List.mem_reverse, decide_eq_true_iff, DB.tasksOf,
    List.mem_insertionSort, Table.mem_select]
  constructor
  · rintro ⟨t, ⟨⟨ht, hi⟩, hs⟩, hpos⟩
    exact ⟨_, t, ht, hi, hs, hpos⟩
  · rintro ⟨k, t, ht, hi, hs, hpos⟩
    exact ⟨t, ⟨⟨(Table.key_of_get? ht).symm ▸ ht, hi⟩, hs⟩, hpos⟩

lemma sorted_succeeded (h₁ : db.OnePer i) : (succeeded (db.tasksOf i)).Pairwise (· > ·) := by
  have hreads : (View.of i db []).Reads (db.tasksOf i) := reads_tasksOf h₁
  exact hreads.sorted

lemma DB.OnePer.eq (h₁ : db.OnePer i) {k k' : ℕ} {t t' : TaskRow} (ht : db.tasks.get? k = some t)
    (ht' : db.tasks.get? k' = some t') (hi : t.runId = i) (hi' : t'.runId = i)
    (hpos : t.position = t'.position) : t = t' := by
  have hmem : ∀ {k : ℕ} {t : TaskRow}, db.tasks.get? k = some t → t.runId = i → t ∈ db.tasksOf i := by
    intro k t ht hi
    exact (List.mem_insertionSort _).2 (Table.mem_select.2 ⟨(Table.key_of_get? ht).symm ▸ ht, hi⟩)
  have hrec := (mem_tasksOf h₁).1 (hmem ht hi)
  have hrec' := (mem_tasksOf h₁).1 (hmem ht' hi')
  rw [hpos, hrec'] at hrec
  exact (Option.some.inj hrec).symm

lemma succeeded_after {above rest : List ℕ} (h₁ : db.OnePer i) (h₁' : db₁.OnePer i)
    (hps : succeeded (db.tasksOf i) = above ++ rest)
    (h : Marked (fun t => t.runId = i ∧ t.position ∈ above) db db₁) :
    succeeded (db₁.tasksOf i) = rest := by
  have hsorted := sorted_succeeded h₁
  have hnot : ∀ pos ∈ rest, pos ∉ above := by
    rw [hps] at hsorted
    intro pos hrest habove
    exact absurd ((List.pairwise_append.1 hsorted).2.2 pos habove pos hrest) (lt_irrefl _)
  have hrest : rest.Pairwise (· > ·) := by
    rw [hps] at hsorted
    exact (List.pairwise_append.1 hsorted).2.1
  refine (sorted_succeeded h₁').eq_of_mem_iff hrest fun pos => ?_
  rw [mem_succeeded]
  constructor
  · rintro ⟨k, t', ht', hi, hs, rfl⟩
    rcases h.before ht' with ⟨t, ht, ⟨-, now, rfl⟩ | ⟨hno, rfl⟩⟩
    · cases hs
    · have hmem : t'.position ∈ above ++ rest := hps ▸ mem_succeeded.2 ⟨k, t', ht, hi, hs, rfl⟩
      exact (List.mem_append.1 hmem).resolve_left fun habove => hno ⟨hi, habove⟩
  · intro hpos
    have hmem : pos ∈ succeeded (db.tasksOf i) := hps ▸ List.mem_append_right _ hpos
    obtain ⟨k, t, ht, hi, hs, rfl⟩ := mem_succeeded.1 hmem
    refine ⟨k, t, ?_, hi, hs, rfl⟩
    rw [h.others k, ht]
    intro t₀ ht₀ hin
    rw [ht] at ht₀
    cases ht₀
    exact hnot _ hpos hin.2

end

/-! ### The call -/

/-- What a call of `undo` for the job finds: the job is there, its class can be resolved, it has run,
and the records of its last run stand at distinct positions of the task list. -/
structure CanUndo (resolve : String → Option JobCls) (j : ℕ) (job : JobRow) (cls : JobCls)
    (run : RunRow) (db : DB) : Prop where
  found : db.getJob j = some job
  resolves : resolve job.job = some cls
  newest : (db.runsOf j).head? = some run
  one : db.OnePer run.id
  inList : ∀ t ∈ db.tasksOf run.id, t.position < cls.tasks.length

section

variable {resolve : String → Option JobCls} {j : ℕ} {job : JobRow} {cls : JobCls} {run : RunRow}
  {db db₁ : DB}

lemma undo_alone (h : CanUndo resolve j job cls run db) (script : Undos) (clock : ℕ → Time)
    (calls : List ℕ) : (JobManager.undo resolve j).alone (scripted script clock) (db, calls) =
      unwind script clock run.id (succeeded (db.tasksOf run.id)) (db, calls) := by
  obtain ⟨runs, hruns⟩ : ∃ runs, db.runsOf j = run :: runs := by
    have hnewest := h.newest
    cases hr : db.runsOf j with
    | nil => simp [hr] at hnewest
    | cons r runs =>
      rw [hr, List.head?_cons] at hnewest
      exact ⟨runs, by rw [Option.some.inj hnewest]⟩
  have hget : scripted script clock (db, calls) (.db (.getJob j)) = ((db, calls), .ok (some job)) := by
    rw [← h.found]
    rfl
  have hlist : scripted script clock (db, calls) (.db (.runsOf j)) =
      ((db, calls), .ok (run :: runs)) := by
    rw [← hruns]
    rfl
  have htasks : scripted script clock (db, calls) (.db (.tasksOf run.id)) =
      ((db, calls), .ok (db.tasksOf run.id)) := rfl
  unfold JobManager.undo
  rw [Prog.alone_call_bind hget, Prog.alone_call_bind hlist]
  dsimp only
  rw [h.resolves]
  dsimp only
  rw [Prog.alone_call_bind htasks, undoFrom_alone fun t ht => h.inList t (List.mem_reverse.1 ht)]
  rfl

lemma CanUndo.after {P : TaskRow → Prop} (h : CanUndo resolve j job cls run db)
    (hcomp : Marked P db db₁) (hone : db₁.OnePer run.id) :
    CanUndo resolve j job cls run db₁ where
  found := by
    rw [← h.found, DB.getJob, DB.getJob, hcomp.jobs]
  resolves := h.resolves
  newest := by
    rw [← h.newest, DB.runsOf, DB.runsOf, hcomp.runs]
  one := hone
  inList := by
    intro t' ht'
    obtain ⟨hget, hi⟩ := Table.mem_select.1 ((List.mem_insertionSort _).1 ht')
    obtain ⟨t, ht, hor⟩ := hcomp.before hget
    have hsame : t'.runId = t.runId ∧ t'.position = t.position := by
      rcases hor with ⟨-, now, rfl⟩ | ⟨-, rfl⟩ <;> exact ⟨rfl, rfl⟩
    rw [hsame.2]
    refine h.inList t ((List.mem_insertionSort _).2 (Table.mem_select.2 ⟨?_, hsame.1 ▸ hi⟩))
    exact (Table.key_of_get? ht).symm ▸ ht

lemma marked_succeeded {above : List ℕ} {Q : ℕ → Prop} (h₁ : db.OnePer run.id)
    (habove : ∀ pos, pos ∈ above ↔ pos ∈ succeeded (db.tasksOf run.id) ∧ Q pos)
    (h : Marked (fun t => t.runId = run.id ∧ t.position ∈ above) db db₁) :
    Marked (fun t => t.runId = run.id ∧ t.status = .succeeded ∧ Q t.position) db db₁ := by
  refine h.congr fun k t ht => and_congr_right fun hi => ?_
  rw [habove, mem_succeeded]
  refine and_congr_left fun _ => ⟨?_, fun hs => ⟨k, t, ht, hi, hs, rfl⟩⟩
  rintro ⟨k', t', ht', hi', hs', hpos⟩
  obtain rfl := h₁.eq ht' ht hi' hi hpos
  exact hs'

end

/-- **Undoing by hand is ordered, can be resumed, and is idempotent.** A call calls `undo` for the
records that have succeeded, last one first. If one of them raises, the exception leaves the call, the
records above it are compensated and nothing else is changed, and the next call begins with it. If none
does, no record is left that has succeeded, and another call does nothing. In either case the next call
finds what it needs, so that the same can be said of it. -/
theorem undo_resumes (resolve : String → Option JobCls) (j : ℕ) (job : JobRow) (cls : JobCls)
    (run : RunRow) (db : DB) (h : CanUndo resolve j job cls run db) (script : Undos)
    (clock : ℕ → Time) :
    ∃ db' calls v,
      (JobManager.undo resolve j).alone (scripted script clock) (db, []) = ((db', calls), v) ∧
      calls.Pairwise (· > ·) ∧ CanUndo resolve j job cls run db' ∧
      ((∃ above p exc, calls = above ++ [p] ∧ (∀ k < above.length, (script k).1 = none) ∧
          (script above.length).1 = some exc ∧ v = .error exc ∧
          (∀ pos, pos ∈ calls ↔ pos ∈ succeeded (db.tasksOf run.id) ∧ p ≤ pos) ∧
          Marked (fun t => t.runId = run.id ∧ t.status = .succeeded ∧ p < t.position) db db' ∧
          ∀ script' clock', ∃ s rest v', (JobManager.undo resolve j).alone (scripted script' clock')
            (db', []) = ((s, p :: rest), v')) ∨
        ((∀ k < calls.length, (script k).1 = none) ∧ v = .ok () ∧
          (∀ pos, pos ∈ calls ↔ pos ∈ succeeded (db.tasksOf run.id)) ∧
          Marked (fun t => t.runId = run.id ∧ t.status = .succeeded) db db' ∧
          (∀ t ∈ db'.tasksOf run.id, t.status ≠ .succeeded) ∧
          ∀ script' clock', (JobManager.undo resolve j).alone (scripted script' clock') (db', []) =
            ((db', []), .ok ()))) := by
  have hsorted := sorted_succeeded h.one
  rw [undo_alone h]
  rcases unwind_cases script clock run.id (succeeded (db.tasksOf run.id)) db [] with
    ⟨db', heq, hnone, hcomp, hone⟩ | ⟨db', above, p, rest, exc, hps, heq, hnone, hexc, hcomp, hone⟩
  · have hnext := h.after hcomp (hone h.one)
    have hempty : succeeded (db'.tasksOf run.id) = [] :=
      succeeded_after h.one (hone h.one) (List.append_nil _).symm hcomp
    refine ⟨db', _, _, heq, hsorted, hnext, .inr ⟨?_, rfl, fun pos => Iff.rfl, ?_, ?_, ?_⟩⟩
    · simpa using hnone
    · simpa using marked_succeeded (Q := fun _ => True) h.one (by simp) hcomp
    · intro t ht hs
      have hmem : t.position ∈ succeeded (db'.tasksOf run.id) :=
        List.mem_map.2 ⟨t, List.mem_filter.2 ⟨List.mem_reverse.2 ht, by simpa using hs⟩, rfl⟩
      rw [hempty] at hmem
      cases hmem
    · intro script' clock'
      rw [undo_alone hnext, hempty]
      rfl
  · have hnext := h.after hcomp (hone h.one)
    have hleft : succeeded (db'.tasksOf run.id) = p :: rest :=
      succeeded_after h.one (hone h.one) hps hcomp
    rw [hps] at hsorted
    obtain ⟨hsorted₁, hsorted₂, habove⟩ := List.pairwise_append.1 hsorted
    have hbelow : ∀ pos ∈ rest, pos < p := fun pos hpos => (List.pairwise_cons.1 hsorted₂).1 pos hpos
    have hover : ∀ pos ∈ above, p < pos := fun pos hpos => habove pos hpos p List.mem_cons_self
    refine ⟨db', above ++ [p], .error exc, heq, ?_, hnext,
      .inl ⟨above, p, exc, rfl, ?_, ?_, rfl, ?_, ?_, ?_⟩⟩
    · refine List.pairwise_append.2 ⟨hsorted₁, List.pairwise_singleton _ _, ?_⟩
      intro pos hpos q hq
      rw [List.mem_singleton.1 hq]
      exact hover pos hpos
    · simpa using hnone
    · simpa using hexc
    · intro pos
      rw [hps]
      simp only [List.mem_append, List.mem_cons, List.not_mem_nil, or_false]
      constructor
      · rintro (hpos | rfl)
        · exact ⟨.inl hpos, (hover pos hpos).le⟩
        · exact ⟨.inr (.inl rfl), le_rfl⟩
      · rintro ⟨hpos | rfl | hpos, hle⟩
        · exact .inl hpos
        · exact .inr rfl
        · exact absurd (hbelow pos hpos) hle.not_gt
    · refine marked_succeeded h.one (fun pos => ?_) hcomp
      rw [hps]
      simp only [List.mem_append, List.mem_cons]
      constructor
      · exact fun hpos => ⟨.inl hpos, hover pos hpos⟩
      · rintro ⟨hpos | rfl | hpos, hlt⟩
        · exact hpos
        · exact absurd hlt (lt_irrefl _)
        · exact absurd (hbelow pos hpos) hlt.not_gt
    · intro script' clock'
      rw [undo_alone hnext, hleft]
      exact unwind_head script' clock' run.id p rest db'

/-- Both tasks of a job have succeeded. -/
def bothSucceeded : DB where
  jobs := .single { id := 0, job := "m.J", createdAt := 0 }
  runs := .single { id := 0, jobId := 0, status := .succeeded, createdAt := 0 }
  tasks := ⟨[{ id := 0, runId := 0, position := 0, taskName := "T", status := .succeeded, createdAt := 0 },
      { id := 1, runId := 0, position := 1, taskName := "U", status := .succeeded, createdAt := 0 }], 2,
    by decide, by decide⟩

lemma onePer_bothSucceeded : bothSucceeded.OnePer 0 := by
  intro pos
  rcases pos with _ | _ | pos <;> simp [bothSucceeded, Table.select, DB.At]

lemma canUndo_bothSucceeded : CanUndo (fun _ => some twoTasks) 0 { id := 0, job := "m.J", createdAt := 0 }
    twoTasks { id := 0, jobId := 0, status := .succeeded, createdAt := 0 } bothSucceeded where
  found := rfl
  resolves := rfl
  newest := rfl
  one := onePer_bothSucceeded
  inList := by decide

/-- The second call raises. -/
def secondUndoRaises : Undos := fun n => (if n = 1 then some (.other "OSError" "") else none, [])

theorem undo_resumes_secondRaises : ∃ db' calls v, (JobManager.undo (fun _ => some twoTasks) 0).alone
      (scripted secondUndoRaises fun n => seconds n) (bothSucceeded, []) = ((db', calls), v) ∧
      calls.Pairwise (· > ·) := by
  obtain ⟨db', calls, v, heq, hsorted, -⟩ := undo_resumes _ 0 _ twoTasks _ bothSucceeded
    canUndo_bothSucceeded secondUndoRaises fun n => seconds n
  exact ⟨db', calls, v, heq, hsorted⟩

end Pyreljob
