import Pyreljob.System.Budget

/-!
Compensation, once begun.

A task that has failed for good says so in its record, and a worker that goes on at such a record
only undoes what is left. The record is where the worker goes on as long as all tasks before it have
succeeded. Once one of them was undone it is not: a worker that is killed in the midst of a
compensation leaves a run that the next one goes on with as if nothing had been given up.
-/

namespace Pyreljob

open Lib

/-- The record, at this position, tells of a task that has failed for good. -/
def Exhausted (m : ℤ) (cls : JobCls) (pos : ℕ) (mark : Option Mark) : Prop :=
  ∃ task mk, cls.tasks[pos]? = some task ∧ mark = some mk ∧ mk.status = .failed ∧
    budget m task ≤ mk.attempts

/-- The position that an event has undone. -/
def undoing (i : ℕ) : Req → Option ℕ
  | .undo i' pos _ => if i' = i then some pos else none
  | _ => none

def closes (i : ℕ) : Said → Bool
  | ⟨.db (.failRun i' _ none), .ok _⟩ => i' = i
  | _ => false

def advances : Req → Bool
  | .db (.startTask ..) | .db (.succeedTask ..) | .db (.failTask ..) | .db (.cancelTask ..)
  | .db (.completeRun ..) | .run .. => true
  | _ => false

namespace Saga

variable (i : ℕ) (m : ℤ) (cls : JobCls) (s : Saga)

def undos : List ℕ := s.story.filterMap fun said => undoing i said.1

def Running : Prop := s.story.any (closes i) = false

def Quiet : Prop := (∀ pos, ¬ Exhausted m cls pos (s.mark pos)) ∧ s.undos i = []

/-- The task at `K` has failed for good, and the tasks from `k` on were undone, from the last one to
the first. The one before may have been undone without its record saying so. -/
structure Undoing (K k : ℕ) : Prop where
  exhausted : Exhausted m cls K (s.mark K)
  only : ∀ pos, Exhausted m cls pos (s.mark pos) → pos = K
  upto : s.Upto k
  le : k ≤ K
  undone : ∀ pos, k ≤ pos → pos < K →
    pos ∈ s.undos i ∧ (s.mark pos).any fun mark => mark.status = .compensated
  sorted : (s.undos i).Pairwise (· ≥ ·)
  above : ∀ pos ∈ s.undos i, k ≤ pos + 1

def Untouched : Prop := ∀ pos mark, s.mark pos = some mark → mark.status ≠ .compensated

/-- Everything before the task that has failed for good was undone, from the last one to the first. -/
def CarriedThrough : Prop :=
  (s.undos i).Pairwise (· ≥ ·) ∧
    ∀ K, Exhausted m cls K (s.mark K) → ∀ pos < K, pos ∈ s.undos i

end Saga

/-- What the status of a run says of its tasks. -/
structure View.Fate (i : ℕ) (m : ℤ) (cls : JobCls) (v : View) : Prop where
  ready : v.status = some .ready → v.Quiet i m cls
  failed : v.status = some .failed → v.CarriedThrough i m cls
  succeeded : v.status = some .succeeded → ∀ pos, ¬ Exhausted m cls pos (v.mark pos)

def carryOutline (i : ℕ) (m : ℤ) (cls : JobCls) : Outline where
  hears := fun s r y => y.isOk = false → s.Running i →
    (∀ pos, ¬ Exhausted m cls pos (s.mark pos)) ∨ (s.Upto 0 ∧ (isUnhandled i r → s.Untouched))
  rests := fun v => (v.status.any RunStatus.inFlight → v.Running i ∧
    (v.Quiet i m cls ∨ ∃ K, v.Undoing i m cls K K)) ∧ v.Fate i m cls
  stops := fun s => s.Running i ∧ (s.Quiet i m cls ∨ ∃ K k, s.Undoing i m cls K k)
  asks := fun s r => (advances r → s.Quiet i m cls) ∧
    (∀ pos, r = .db (.compensateTask i pos) → s.done pos) ∧
      ∀ pos error n t, r = .db (.failTask i pos error n t) → s.Upto pos
  enters := fun s => s.Running i ∧ (s.Quiet i m cls ∨ ∃ K, s.Undoing i m cls K K)
  comes := fun _ _ s => s.Running i ∧ s.Quiet i m cls
  runs := fun _ _ s => s.Running i ∧ s.Quiet i m cls
  undoes := fun _ k s => s.Running i ∧ ∃ K, s.Undoing i m cls K k
  throws := fun s => s.Running i ∧ (s.Quiet i m cls ∨ ∃ K, s.Undoing i m cls K 0)

section

variable {i : ℕ} {m : ℤ} {cls : JobCls} {s : Saga} {v : View} {r : Req} {y : Except Exc r.Reply}

/-! ### What a request changes -/

lemma Saga.Running.after (h : s.Running i) (hr : closes i ⟨r, y⟩ = false) :
    (s.after r y).Running i := by
  change (s.story ++ [(⟨r, y⟩ : Said)]).any (closes i) = false
  rw [List.any_append, show s.story.any (closes i) = false from h]
  simp [hr]

lemma closes_error (c : Call) (e : Exc) : closes i ⟨.db c, .error e⟩ = false := by
  cases c with
  | failRun _ _ t => cases t <;> rfl
  | _ => rfl

lemma Saga.undos_after (hr : undoing i r = none) : (s.after r y).undos i = s.undos i := by
  change (s.story ++ [(⟨r, y⟩ : Said)]).filterMap _ = _
  rw [List.filterMap_append]
  simp [undos, hr]

lemma Saga.undos_undo {pos : ℕ} {ctx : TaskContext} {y : Except Exc (Req.undo i pos ctx).Reply} :
    (s.after (.undo i pos ctx) y).undos i = s.undos i ++ [pos] := by
  change (s.story ++ [(⟨.undo i pos ctx, y⟩ : Said)]).filterMap _ = _
  rw [List.filterMap_append]
  simp [undos, undoing]

lemma Saga.Quiet.after (h : s.Quiet i m cls) (hr : undoing i r = none)
    (hmark : (s.after r y).mark = s.mark) : (s.after r y).Quiet i m cls :=
  ⟨fun pos => hmark ▸ h.1 pos, (undos_after hr).trans h.2⟩

lemma Saga.Undoing.after {K k : ℕ} (h : s.Undoing i m cls K k) (hr : undoing i r = none)
    (hmark : (s.after r y).mark = s.mark) : (s.after r y).Undoing i m cls K k := by
  have hundos : (s.after r y).undos i = s.undos i := undos_after hr
  constructor
  case exhausted => exact hmark ▸ h.exhausted
  case only => exact hmark ▸ h.only
  case upto => exact fun pos => by simpa only [Saga.done, hmark] using h.upto pos
  case le => exact h.le
  case undone => exact hmark ▸ hundos ▸ h.undone
  case sorted => exact hundos ▸ h.sorted
  case above => exact hundos ▸ h.above

/-- A record is written that does not tell of a failure for good. -/
lemma Saga.Quiet.put (h : s.Quiet i m cls) {pos : ℕ} {mark : Option Mark}
    (hr : undoing i r = none) (hmark : (s.after r y).mark = (s.put pos mark).mark)
    (hnot : ¬ Exhausted m cls pos mark) : (s.after r y).Quiet i m cls := by
  refine ⟨fun pos' => ?_, (undos_after hr).trans h.2⟩
  rw [hmark, put_mark]
  split
  · rename_i hp
    exact hp ▸ hnot
  · exact h.1 pos'

/-- A record that was written has failed for good only if it says that it has failed. -/
lemma not_exhausted_map {pos : ℕ} {mark : Option Mark} {f : Mark → Mark}
    (hf : ∀ mk, (f mk).status ≠ .failed) : ¬ Exhausted m cls pos (mark.map f) := by
  rintro ⟨task, mk, -, hmk, hs, -⟩
  obtain ⟨mk', -, rfl⟩ := Option.map_eq_some_iff.1 hmk
  exact hf mk' hs

lemma Saga.Quiet.giveUp {K n : ℕ} {task : TaskCls} {error : String} (h : s.Quiet i m cls)
    (hup : s.Upto K) (htask : cls.tasks[K]? = some task)
    (hmark : s.mark K = some ⟨.running, n, none, none⟩) (hspent : budget m task ≤ n) :
    (s.after (.db (.failTask i K error n none)) (.ok ())).Undoing i m cls K K := by
  have hundos : (s.after (.db (.failTask i K error n none)) (.ok ())).undos i = [] :=
    (undos_after rfl).trans h.2
  have hnow : ∀ pos, (s.after (.db (.failTask i K error n none)) (.ok ())).mark pos =
      if pos = K then some ⟨.failed, n, none, some error⟩ else s.mark pos := by
    intro pos
    change (s.put K ((s.mark K).map _)).mark pos = _
    rw [put_mark, hmark]
    rfl
  constructor
  case exhausted => exact ⟨task, _, htask, by rw [hnow, if_pos rfl], rfl, hspent⟩
  case only =>
    intro pos hpos
    by_contra hne
    rw [hnow, if_neg hne] at hpos
    exact h.1 pos hpos
  case upto => exact hup.stay fun pos => Saga.done_failTask s i K error n none pos
  case le => exact le_rfl
  case undone => exact fun pos h₁ h₂ => absurd h₁ (by omega)
  case sorted =>
    rw [hundos]
    exact .nil
  case above =>
    rw [hundos]
    exact fun _ h => by cases h

/-- The task before `k` is undone, which its record does not say yet. -/
lemma Saga.Undoing.undo {K k : ℕ} {ctx : TaskContext} {y : Except Exc (Req.undo i k ctx).Reply}
    (h : s.Undoing i m cls K (k + 1)) :
    (s.after (.undo i k ctx) y).Undoing i m cls K (k + 1) := by
  have hundos : (s.after (.undo i k ctx) y).undos i = s.undos i ++ [k] := undos_undo
  constructor
  case exhausted => exact h.exhausted
  case only => exact h.only
  case upto => exact h.upto
  case le => exact h.le
  case undone =>
    intro pos h₁ h₂
    obtain ⟨hmem, hcomp⟩ := h.undone pos h₁ h₂
    exact ⟨hundos ▸ List.mem_append_left _ hmem, hcomp⟩
  case sorted =>
    rw [hundos, List.pairwise_append]
    refine ⟨h.sorted, List.pairwise_singleton _ _, fun pos hpos pos' hpos' => ?_⟩
    obtain rfl := List.mem_singleton.1 hpos'
    have := h.above pos hpos
    omega
  case above =>
    intro pos hpos
    rw [hundos] at hpos
    rcases List.mem_append.1 hpos with hpos | hpos
    · exact h.above pos hpos
    · obtain rfl := List.mem_singleton.1 hpos
      exact le_rfl

lemma Saga.Undoing.compensate {K k : ℕ} (h : s.Undoing i m cls K (k + 1)) (hmem : k ∈ s.undos i) :
    (s.after (.db (.compensateTask i k)) (.ok ())).Undoing i m cls K k := by
  have hundos : (s.after (.db (.compensateTask i k)) (.ok ())).undos i = s.undos i := undos_after rfl
  have hnow : ∀ pos, (s.after (.db (.compensateTask i k)) (.ok ())).mark pos =
      if pos = k then (s.mark k).map fun mark => { mark with status := .compensated }
      else s.mark pos := fun pos => put_mark s k _ pos
  have hK : K ≠ k := by
    have := h.le
    omega
  constructor
  case exhausted =>
    rw [hnow, if_neg hK]
    exact h.exhausted
  case only =>
    intro pos hpos
    rw [hnow] at hpos
    split at hpos
    · exact absurd hpos (not_exhausted_map fun _ => by simp)
    · exact h.only pos hpos
  case upto => exact h.upto.back fun pos => Saga.done_compensateTask s i k pos
  case le =>
    have := h.le
    omega
  case undone =>
    intro pos h₁ h₂
    rw [hundos, hnow]
    by_cases hp : pos = k
    · subst hp
      obtain ⟨mark, hmark, -⟩ := (Option.any_eq_true _ _).1 ((h.upto pos).2 (Nat.lt_succ_self pos))
      exact ⟨hmem, by simp [hmark]⟩
    · rw [if_neg hp]
      exact h.undone pos (by omega) h₂
  case sorted => exact hundos ▸ h.sorted
  case above =>
    intro pos hpos
    have := h.above pos (hundos ▸ hpos)
    omega

lemma Saga.Undoing.carriedThrough {K : ℕ} (h : s.Undoing i m cls K 0) : s.CarriedThrough i m cls := by
  refine ⟨h.sorted, fun K' hK' pos hpos => ?_⟩
  obtain rfl := h.only K' hK'
  exact (h.undone pos (Nat.zero_le _) hpos).1

lemma Saga.CarriedThrough.after (h : s.CarriedThrough i m cls) (hr : undoing i r = none)
    (hmark : (s.after r y).mark = s.mark) : (s.after r y).CarriedThrough i m cls := by
  have hundos : (s.after r y).undos i = s.undos i := undos_after hr
  refine ⟨hundos ▸ h.1, fun K hK => hundos ▸ h.2 K ?_⟩
  rwa [hmark] at hK

lemma Saga.Quiet.carriedThrough (h : s.Quiet i m cls) : s.CarriedThrough i m cls := by
  refine ⟨?_, fun K hK => absurd hK (h.1 K)⟩
  rw [h.2]
  exact .nil

/-- Nothing was undone so far: the next worker goes on at the task that has failed. -/
lemma Saga.Undoing.untouched {K k : ℕ} (h : s.Undoing i m cls K k) (hu : s.Untouched) :
    s.Undoing i m cls K K := by
  have hk : k = K := by
    refine le_antisymm h.le (Nat.le_of_not_lt fun hlt => ?_)
    obtain ⟨mark, hmark, hs⟩ := (Option.any_eq_true _ _).1 (h.undone k le_rfl hlt).2
    exact hu k mark hmark (of_decide_eq_true hs)
  rwa [hk] at h

/-! ### The outline -/

lemma carry_done (hs : v.Settled) (hfailed : v.status = some .failed → v.CarriedThrough i m cls)
    (hsucceeded : v.status = some .succeeded → ∀ pos, ¬ Exhausted m cls pos (v.mark pos)) :
    (carryOutline i m cls).rests v := by
  refine ⟨fun hflight => ?_, ⟨fun hready => ?_, hfailed, hsucceeded⟩⟩
  · rw [hs.not_inFlight.2] at hflight
    cases hflight
  · simp [View.Settled, hready, RunStatus.isDone] at hs

lemma carry_cancelled : (carryOutline i m cls).rests (v.after i (.db (.cancelRun i)) (.ok ())) := by
  have hstatus : (v.after i (.db (.cancelRun i)) (.ok ())).status = some .cancelled := by
    rw [View.after_about (by simp [about])]
    rfl
  refine carry_done Outline.cancelRun_settled (fun h => ?_) fun h => ?_ <;>
    · rw [hstatus] at h
      cases h

lemma carry_failed {error : String} (hw : v.Working) (h : v.CarriedThrough i m cls) :
    (carryOutline i m cls).rests (v.after i (.db (.failRun i error none)) (.ok ())) := by
  have hsettled : (v.after i (.db (.failRun i error none)) (.ok ())).Settled :=
    Outline.failRun_settled (.inl hw)
  refine carry_done hsettled (fun _ => ?_) fun hs => ?_
  · rw [View.after_about (by simp [about])]
    exact h.after rfl rfl
  · rw [View.after_about (by simp [about])] at hs
    rcases hw with hr | hc
    · simp [View.settle, hr] at hs
    · simp [View.settle, hc] at hs

lemma carry_open (hv : v.status = some .running ∨ v.status = some .cancelled) (hrun : v.Running i)
    (h : v.Quiet i m cls ∨ ∃ K, v.Undoing i m cls K K) : (carryOutline i m cls).rests v := by
  refine ⟨fun _ => ⟨hrun, h⟩, fun hs => ?_, fun hs => ?_, fun hs => ?_⟩
  all_goals
    rw [hs] at hv
    rcases hv with hv | hv <;> cases hv

lemma carry_ready (hv : v.status = some .ready) (hrun : v.Running i) (hquiet : v.Quiet i m cls) :
    (carryOutline i m cls).rests v := by
  refine ⟨fun _ => ⟨hrun, .inl hquiet⟩, fun _ => hquiet, fun hs => ?_, fun hs => ?_⟩
  all_goals
    rw [hs] at hv
    cases hv

lemma carryOutline_sound (i : ℕ) (cls : JobCls) (m : ℤ) : (carryOutline i m cls).Sound i cls m := by
  have hquiet : ∀ {s : Saga} {r : Req}, s.Quiet i m cls →
      (∀ pos, r ≠ .db (.compensateTask i pos)) →
      (∀ pos error n t, r ≠ .db (.failTask i pos error n t)) → (carryOutline i m cls).asks s r :=
    fun hq h₁ h₂ => ⟨fun _ => hq, fun pos h => absurd h (h₁ pos),
      fun pos error n t h => absurd h (h₂ pos error n t)⟩
  have hstill : ∀ {s : Saga} {r : Req}, advances r = false →
      (∀ pos, r ≠ .db (.compensateTask i pos)) → (carryOutline i m cls).asks s r := by
    intro s r hr h₁
    refine ⟨fun h => ?_, fun pos h => absurd h (h₁ pos), ?_⟩
    · rw [hr] at h
      cases h
    · rintro pos error n t rfl
      cases hr
  have hfails : ∀ {s : Saga} {pos n : ℕ} {error : String} {t : Option Time}, s.Quiet i m cls →
      s.Upto pos → (carryOutline i m cls).asks s (.db (.failTask i pos error n t)) := by
    intro s pos n error t hq hup
    refine ⟨fun _ => hq, (by simp), ?_⟩
    rintro _ _ _ _ ⟨⟩
    exact hup
  constructor
  case created =>
    intro j
    refine carry_ready rfl rfl ⟨fun pos => ?_, rfl⟩
    rintro ⟨task, mk, -, ⟨⟩, -⟩
  case cancelled =>
    intro v hv _
    exact carry_done rfl (fun h => by cases h) fun h => by cases h
  case swept =>
    intro v hv hready
    exact carry_done rfl (fun _ => (hv.2.ready hready).carriedThrough) fun h => by cases h
  case claimed => exact fun v hv hflight => hv.1 hflight
  case enters_stops =>
    rintro s ⟨hrun, hq | ⟨K, hK⟩⟩
    · exact ⟨hrun, .inl hq⟩
    · exact ⟨hrun, .inr ⟨K, K, hK⟩⟩
  case halts =>
    intro s h
    exact ⟨hstill rfl (by simp), fun v a _ _ => carry_cancelled⟩
  case begins =>
    intro s k ctx h hup _ hfailed
    refine ⟨h.1, h.2.resolve_right ?_⟩
    rintro ⟨K, hK⟩
    obtain rfl := hK.upto.unique hup
    obtain ⟨task, mark, htask, hmark, hs, hspent⟩ := hK.exhausted
    exact hfailed task mark htask hmark hs hspent
  case recovers =>
    intro s k ctx task mark h hup _ htask hmark hs hspent
    refine ⟨hstill rfl (by simp), h.1.after rfl, ?_⟩
    rcases h.2 with hq | ⟨K, hK⟩
    · exact absurd ⟨task, mark, htask, hmark, hs, hspent⟩ (hq.1 k)
    · obtain rfl := hK.upto.unique hup
      exact ⟨K, hK.after rfl rfl⟩
  case comes_stops => exact fun k ctx s h => ⟨h.1, .inl h.2⟩
  case starts =>
    intro s pos ctx task h _ _
    refine ⟨hquiet h.2 (by simp) (by simp), h.1.after rfl, h.2.put rfl rfl ?_⟩
    rintro ⟨task, mk, -, hmk, hs, -⟩
    rw [← Option.some.inj hmk] at hs
    cases hs
  case runs_point =>
    intro s pos ctx task n h _ _ _
    exact ⟨⟨h.1, .inl h.2⟩, hquiet h.2 (by simp) (by simp)⟩
  case succeeds =>
    intro s pos ctx task n v state h _ _ hmark _
    have hq₁ := h.2.after (r := .run i pos n ctx) (y := .ok (.ok v, state)) rfl rfl
    have hq₂ := hq₁.put (r := .db (.succeedTask i pos v)) (y := .ok ()) rfl rfl
      (not_exhausted_map fun _ => by simp)
    have hr₁ := h.1.after (r := .run i pos n ctx) (y := .ok (.ok v, state)) rfl
    have hr₂ := hr₁.after (r := .db (.succeedTask i pos v)) (y := .ok ()) rfl
    exact ⟨⟨⟨hr₁, .inl hq₁⟩, hquiet hq₁ (by simp) (by simp)⟩,
      ⟨⟨hr₂, .inl hq₂⟩, hquiet hq₂ (by simp) (by simp)⟩, hr₂.after rfl, hq₂.after rfl rfl⟩
  case cancels =>
    intro s pos ctx task n exc state h hup _ hmark _ _
    have hq₁ := h.2.after (r := .run i pos n ctx) (y := .ok (.error exc, state)) rfl rfl
    have hq₂ := hq₁.put (r := .db (.cancelTask i pos)) (y := .ok ()) rfl rfl
      (not_exhausted_map fun _ => by simp)
    have hr₁ := h.1.after (r := .run i pos n ctx) (y := .ok (.error exc, state)) rfl
    exact ⟨⟨⟨hr₁, .inl hq₁⟩, hquiet hq₁ (by simp) (by simp)⟩, ⟨hr₁.after rfl, .inl hq₂⟩,
      hstill rfl (by simp), fun v a _ _ => carry_cancelled⟩
  case spends =>
    intro s pos ctx task n exc state h hup htask hmark _ _ hspent
    have hq₁ := h.2.after (r := .run i pos n ctx) (y := .ok (.error exc, state)) rfl rfl
    have hq₂ := hq₁.after
      (r := .db (.setRunCtx i ({ ctx with state := state } : TaskContext).asDict)) (y := .ok ()) rfl rfl
    have hr₁ := h.1.after (r := .run i pos n ctx) (y := .ok (.error exc, state)) rfl
    exact ⟨⟨⟨hr₁, .inl hq₁⟩, hquiet hq₁ (by simp) (by simp)⟩, ⟨⟨hr₁.after rfl, .inl hq₂⟩, hfails hq₂ hup⟩,
      (hr₁.after rfl).after rfl, pos, hq₂.giveUp hup htask hmark hspent⟩
  case retries =>
    intro s pos ctx task n exc state t h hup htask hmark _ _ hspent
    have hq₁ := h.2.after (r := .run i pos n ctx) (y := .ok (.error exc, state)) rfl rfl
    have hq₂ := hq₁.after
      (r := .db (.setRunCtx i ({ ctx with state := state } : TaskContext).asDict)) (y := .ok ()) rfl rfl
    have hr₁ := h.1.after (r := .run i pos n ctx) (y := .ok (.error exc, state)) rfl
    have hr₂ := hr₁.after
      (r := .db (.setRunCtx i ({ ctx with state := state } : TaskContext).asDict)) (y := .ok ()) rfl
    have hq₃ := hq₂.put (r := .db (.failTask i pos exc.text n (some t))) (y := .ok ()) rfl rfl (by
      rintro ⟨task', mk, htask', hmk, -, hle⟩
      obtain ⟨mk', -, rfl⟩ := Option.map_eq_some_iff.1 hmk
      rw [htask] at htask'
      exact hspent (Option.some.inj htask' ▸ hle))
    refine ⟨⟨⟨hr₁, .inl hq₁⟩, hquiet hq₁ (by simp) (by simp)⟩, ⟨⟨hr₂, .inl hq₂⟩, hfails hq₂ hup⟩,
      ⟨hr₂.after rfl, .inl hq₃⟩, ⟨hstill rfl (by simp), fun v a hw hs => ?_⟩, fun _ _ => ⟨hr₁, .inl hq₁⟩⟩
    rw [View.after_about (by simp [about]), hs]
    have hr₄ := (hr₂.after (r := .db (.failTask i pos exc.text n (some t))) (y := .ok ()) rfl).after
      (r := .db (.failRun i exc.text (some t))) (y := .ok a) rfl
    have hq₄ := hq₃.after (r := .db (.failRun i exc.text (some t))) (y := .ok a) rfl rfl
    rcases hw with hrunning | hcancelled
    · exact carry_ready (by simp [View.settle, hrunning]) hr₄ hq₄
    · exact carry_open (.inr (by simp [View.settle, hcancelled])) hr₄ (.inl hq₄)
  case undo =>
    rintro err k s ctx y ⟨hrun, K, hK⟩ hup
    have hK₁ : (s.after (.undo i k ctx) (.ok y)).Undoing i m cls K (k + 1) := hK.undo
    have hmem : k ∈ (s.after (.undo i k ctx) (.ok y)).undos i := by simp [Saga.undos_undo]
    have hr₁ := hrun.after (r := .undo i k ctx) (y := .ok y) rfl
    refine ⟨hstill rfl (by simp), ⟨⟨hr₁, .inr ⟨K, k + 1, hK₁⟩⟩, ?_, ?_, ?_⟩, hr₁.after rfl, K,
      hK₁.compensate hmem⟩
    · rintro ⟨⟩
    · rintro _ ⟨⟩
      exact (hup k).2 (Nat.lt_succ_self k)
    · rintro _ _ _ _ ⟨⟩
  case undoes_stops =>
    rintro err k s ⟨h, K, hK⟩
    exact ⟨h, .inr ⟨K, k, hK⟩⟩
  case fails =>
    rintro err s ⟨hrun, K, hK⟩ hup
    refine ⟨hstill rfl (by simp), fun v a hw hs => carry_failed hw ?_⟩
    rw [hs]
    exact hK.carriedThrough
  case completes =>
    intro s ctx h _
    refine ⟨hquiet h.2 (by simp) (by simp), fun v a hw hs => ?_⟩
    refine carry_done (Outline.completeRun_settled hw) (fun hf => ?_) fun _ pos => ?_
    · rw [View.after_about (by simp [about])] at hf
      rcases hw with hr | hc
      · simp [View.settle, hr] at hf
      · simp [View.settle, hc] at hf
    · rw [View.after_about (by simp [about]), hs]
      exact h.2.1 pos
  case raises =>
    intro s c e h hh
    have hnow : s.Quiet i m cls ∨ ∃ K, s.Undoing i m cls K 0 := by
      rcases h.2 with hq | ⟨K, k, hK⟩
      · exact .inl hq
      · rcases hh rfl h.1 with hnone | ⟨hup, -⟩
        · exact absurd hK.exhausted (hnone K)
        · obtain rfl := hK.upto.unique hup
          exact .inr ⟨K, hK⟩
    have hno : undoing i (.db c) = none := by cases c <;> rfl
    split
    · refine ⟨h.1.after (closes_error c e), ?_⟩
      rcases hnow with hq | ⟨K, hK⟩
      · exact .inl (hq.after hno rfl)
      · exact .inr ⟨K, hK.after hno rfl⟩
    · exact ⟨h.1, hnow⟩
  case throws_leaves =>
    intro s h
    refine ⟨⟨h.1, ?_⟩, hstill rfl (by simp [unhandled]), fun v a hw hs => carry_failed hw ?_⟩
    · rcases h.2 with hq | ⟨K, hK⟩
      · exact .inl hq
      · exact .inr ⟨K, 0, hK⟩
    · rw [hs]
      rcases h.2 with hq | ⟨K, hK⟩
      · exact hq.carriedThrough
      · exact hK.carriedThrough
  case drops =>
    intro s e h hh v hw hs
    have hnow : s.Quiet i m cls ∨ ∃ K, s.Undoing i m cls K K := by
      rcases h.2 with hq | ⟨K, hK⟩
      · exact .inl hq
      · rcases hh rfl h.1 with hnone | ⟨-, hun⟩
        · exact absurd hK.exhausted (hnone K)
        · exact .inr ⟨K, hK.untouched (hun (by simp [isUnhandled, unhandled]))⟩
    rw [View.after_about (by simp [about, unhandled]), hs]
    refine carry_open hw (h.1.after (closes_error (unhandled i) e)) ?_
    rcases hnow with hq | ⟨K, hK⟩
    · exact .inl (hq.after rfl rfl)
    · exact .inr ⟨K, hK.after rfl rfl⟩
  case late =>
    intro v y hv hs
    rw [Outline.after_unhandled hs]
    have hmark : (v.toSaga.after (.db (unhandled i)) y).mark = v.mark := by cases y <;> rfl
    refine carry_done hs (fun hf => (hv.2.failed hf).after rfl hmark) fun hsucc pos => ?_
    exact hmark ▸ hv.2.succeeded hsucc pos

end

/-! ### The condition -/

namespace DB

variable (db : DB) (i : ℕ) (m : ℤ) (cls : JobCls)

/-- The record at the position tells of a task that has failed for good. -/
def exhausted (pos : ℕ) : Bool :=
  (db.record i pos).any fun t => t.status = .failed &&
    (cls.tasks[pos]?).any fun task => budget m task ≤ t.attempts

/-- Some task of the run has failed for good. -/
def givenUp : Bool :=
  db.tasks.rows.any fun t => t.runId = i && (t.status = .failed &&
    (cls.tasks[t.position]?).any fun task => budget m task ≤ t.attempts)

def hasUndone : Bool := db.tasks.rows.any fun t => t.runId = i && t.status = .compensated

end DB

/-- An executor breaks a compensation off: it is killed when it has undone a task, or something
raises while a task is left to undo, or in the handler of `_execute` after one was undone. -/
def breaksOff (i : ℕ) (m : ℤ) (cls : JobCls) (p : System) : Act → Bool
  | .crash pid => p.lives pid && claimedBy pid i p.log &&
    (p.shared.runs.get? i).any (fun r => r.status.inFlight) && p.shared.hasUndone i
  | .act pid a => claimedBy pid i p.log && raising p pid a && !(story i p.log).any (closes i) &&
    p.shared.givenUp i m cls && (p.shared.hasDone i ||
      (p.pending pid).any (isUnhandled i) && p.shared.hasUndone i)
  | .spawn _ => false

/-- **A history of a run** whose executors follow one another, none of which breaks a compensation
off. -/
def Carried (i : ℕ) (name : String) (m : ℤ) (cls : JobCls) (p : System) (l : Act) : Prop :=
  Solo i name m cls p l ∧ breaksOff i m cls p l = false

instance (i : ℕ) (name : String) (m : ℤ) (cls : JobCls) (p : System) (l : Act) :
    Decidable (Carried i name m cls p l) := inferInstanceAs (Decidable (_ ∧ _))

section

variable {i : ℕ} {name : String} {m : ℤ} {cls : JobCls} {p p' : System} {pid K : ℕ}

/-- A record that tells of a task that has failed for good, as a row and as a mark. -/
lemma exhausted_iff {db : DB} {log : List Ev} {pos : ℕ} :
    db.exhausted i m cls pos ↔ Exhausted m cls pos ((View.now i db log).mark pos) := by
  simp only [DB.exhausted, Exhausted, View.now, View.of, Option.any_eq_true, Bool.and_eq_true,
    decide_eq_true_eq, Option.map_eq_some_iff]
  constructor
  · rintro ⟨t, ht, hs, task, htask, hle⟩
    exact ⟨task, t.mark, htask, ⟨t, ht, rfl⟩, hs, hle⟩
  · rintro ⟨task, -, htask, ⟨t, ht, rfl⟩, hs, hle⟩
    exact ⟨t, ht, hs, task, htask, hle⟩

lemma givenUp_of_exhausted {db : DB} {log : List Ev} {pos : ℕ}
    (h : Exhausted m cls pos ((View.now i db log).mark pos)) : db.givenUp i m cls := by
  obtain ⟨task, mark, htask, hmark, hs, hle⟩ := h
  obtain ⟨t, ht, hi, rfl, rfl⟩ := row_of_mark hmark
  refine List.any_eq_true.2 ⟨t, ht, ?_⟩
  simp only [hi, decide_true, Bool.true_and, Bool.and_eq_true, decide_eq_true_eq, htask,
    Option.any_some]
  exact ⟨hs, hle⟩

lemma untouched_now {db : DB} {log : List Ev} (h : db.hasUndone i = false) :
    (View.now i db log).Untouched := by
  intro pos mark hmark hs
  obtain ⟨t, ht, hi, rfl, rfl⟩ := row_of_mark hmark
  have hnot : t.status ≠ .compensated := by simpa [hi] using List.any_eq_false.1 h t ht
  exact hnot hs

lemma carry_hears {a : Answer} {r : Req} {db' : DB} {y : Except Exc r.Reply}
    (hC : Carried i name m cls p (.act pid a)) (hasks : p.pending pid = some r)
    (hclaimed : claimedBy pid i p.log) (hans : answer p.shared r a = some (db', y)) :
    (carryOutline i m cls).hears (View.now i p.shared p.log).toSaga r y := by
  intro hy hrun
  have hstory : (story i p.log).any (closes i) = false := hrun
  have hnot := hC.2
  simp only [breaksOff, raising, hasks, hclaimed, hans, Option.any_some, hy, hstory, Bool.not_false,
    Bool.true_and, Bool.and_eq_false_iff, Bool.or_eq_false_iff] at hnot
  rcases hnot with hnone | ⟨hdone, hun⟩
  · refine .inl fun pos hpos => ?_
    rw [givenUp_of_exhausted hpos] at hnone
    cases hnone
  · refine .inr ⟨fun pos => iff_of_false (fun hd => ?_) (Nat.not_lt_zero pos), fun hr => ?_⟩
    · have hhas : p.shared.hasDone i := hasDone_of_done (by simpa [View.now] using hd)
      rw [hhas] at hdone
      cases hdone
    · rcases hun with hun | hun
      · rw [hr] at hun
        cases hun
      · exact untouched_now hun

lemma carry_suits : (carryOutline i m cls).Suits (Carried i name m cls) i name m cls where
  sound := carryOutline_sound i cls m
  solo := fun _ _ hC => hC.1
  hears := fun _ _ _ _ _ _ hC => carry_hears hC
  crash := by
    intro p pid hC hlives hclaimed hw hstops
    rcases hw with hrunning | hcancelled
    · refine carry_open (.inl hrunning) hstops.1 (hstops.2.imp_right fun ⟨K, k, hK⟩ => ⟨K, ?_⟩)
      have hflight : (p.shared.runs.get? i).any fun r => r.status.inFlight := by
        have hany : (View.now i p.shared p.log).status.any RunStatus.inFlight := by
          rw [hrunning]
          rfl
        simpa [View.now, View.of, Option.any_map, Function.comp_def] using hany
      have hnot := hC.2
      simp only [breaksOff, hlives, hclaimed, hflight, Bool.true_and] at hnot
      exact hK.untouched (untouched_now hnot)
    · refine carry_done ?_ (fun h => ?_) fun h => ?_
      · rw [View.Settled, hcancelled]
        rfl
      all_goals
        rw [hcancelled] at h
        cases h

/-! ### A task that has failed for good -/

variable {db db' : DB} {e : Env} {c : Call} {y : Except Exc c.Reply}

/-- A record comes to tell of a failure for good where the worker says so. -/
lemma failTask_of_exhausted (hx : c.exec db e = some (db', y)) (hnot : db.exhausted i m cls K = false)
    (h : db'.exhausted i m cls K) : ∃ error n t, c = .failTask i K error n t := by
  have hstep := exec_record hx i K
  unfold DB.exhausted at hnot h
  generalize db.record i K = o, db'.record i K = o' at hstep hnot h
  cases hstep with
  | failed _ error n t => exact ⟨error, n, t, rfl⟩
  | same =>
    rw [hnot] at h
    cases h
  | _ => cases h

/-- A record goes on to tell of it, unless the run is deleted, the worker takes it forward, or the
task is undone. -/
lemma exhausted_stays (hx : c.exec db e = some (db', y)) (h : db.exhausted i m cls K) :
    db'.exhausted i m cls K ∨ db.erases i c ∨ (about i (.db c) ∧ advances (.db c)) ∨
      c = .compensateTask i K := by
  have hstep := exec_record hx i K
  unfold DB.exhausted at h ⊢
  generalize db.record i K = o, db'.record i K = o' at hstep h
  cases hstep with
  | same => exact .inl h
  | inserted => cases h
  | erased _ _ hc => exact .inr (.inl hc)
  | compensated => exact .inr (.inr (.inr rfl))
  | restarted | succeeded | failed | cancelled =>
    exact .inr (.inr (.inl ⟨by simp [about], rfl⟩))

lemma not_done_of_exhausted (h : db.exhausted i m cls K) : db.done i K = false := by
  obtain ⟨t, ht, hfailed⟩ := (Option.any_eq_true _ _).1 h
  have hs : t.status = .failed := of_decide_eq_true (Bool.and_eq_true_iff.1 hfailed).1
  simp [DB.done, ht, hs]

/-- **One step**: nothing is taken forward where a task has failed for good. -/
lemma not_advances (h : p.Reached (Carried i name m cls)) {l₁ l₂ : List Ev} {ev : Ev}
    (hl : p.log = l₁ ++ ev :: l₂) (hab : about i ev.req) (hx : ev.pre.exhausted i m cls K) :
    advances ev.req = false := by
  by_contra hadv
  rcases (carry_suits.describes h).asks l₁ ev l₂ hl hab with ⟨-, hask, -⟩ | ⟨-, hun⟩
  · exact (hask (eq_true_of_ne_false hadv)).1 K (exhausted_iff.1 hx)
  · rw [hun] at hadv
    exact hadv rfl

lemma exhausted_move (h : p.Reached (Carried i name m cls)) {l : Act}
    (hC : Carried i name m cls p l) (hstep : Pool.step answer Kind.program p l = some p')
    (hx : p.shared.exhausted i m cls K) : p'.shared.exhausted i m cls K := by
  rcases System.step_cases hstep with hsame | ⟨pid, c, e, y, rfl, hasks, hexec, hlog⟩
  · exact hsame ▸ hx
  · have h' : p'.Reached (Carried i name m cls) := h.tail ⟨_, hC, hstep⟩
    rcases exhausted_stays hexec hx with hstay | hgone | ⟨hab, hadv⟩ | rfl
    · exact hstay
    · rw [hC.1.erases hasks] at hgone
      cases hgone
    · rw [not_advances h' hlog hab hx] at hadv
      cases hadv
    · rcases (carry_suits.describes h').asks p.log _ [] hlog (by simp [about]) with
        ⟨-, -, hdone, -⟩ | ⟨-, hun⟩
      · have hd : p.shared.done i K := by simpa [View.now] using hdone K rfl
        rw [not_done_of_exhausted hx] at hd
        cases hd
      · cases hun

/-- **The run lemma**: a task that has failed for good has done so ever since. -/
lemma exhausted_run (h : p.Reached (Carried i name m cls)) (hrun : System.Run (Carried i name m cls) p p')
    (hx : p.shared.exhausted i m cls K) : p'.shared.exhausted i m cls K := by
  induction hrun with
  | refl => exact hx
  | @tail p₁ p₂ hrun₁ hmove ih =>
    obtain ⟨l, hC, hstep⟩ := hmove
    exact exhausted_move (h.trans hrun₁) hC hstep ih

/-! ### From there on -/

/-- The positions that these events have undone, in order. -/
def undone (i : ℕ) (log : List Ev) : List ℕ := log.filterMap fun ev => undoing i ev.req

/-- The request runs the body of a task. -/
def runsBody (i : ℕ) : Req → Bool
  | .run i' .. => i' = i
  | _ => false

lemma of_runsBody {r : Req} (h : runsBody i r) : ∃ pos n ctx, r = .run i pos n ctx := by
  unfold runsBody at h
  split at h
  · rename_i i' pos n ctx
    obtain rfl : i' = i := of_decide_eq_true h
    exact ⟨pos, n, ctx, rfl⟩
  · cases h

lemma undone_append (l₁ l₂ : List Ev) : undone i (l₁ ++ l₂) = undone i l₁ ++ undone i l₂ :=
  List.filterMap_append

/-- What the story tells of the undone tasks is what the log tells. -/
lemma undos_now (db : DB) (log : List Ev) : (View.now i db log).undos i = undone i log := by
  change (story i log).filterMap (fun said => undoing i said.1) = _
  unfold story undone
  rw [List.filterMap_map, List.filterMap_filter]
  refine List.filterMap_congr fun ev _ => ?_
  split
  · rfl
  · rename_i hab
    cases hu : undoing i ev.req with
    | none => rfl
    | some pos =>
      unfold undoing at hu
      split at hu
      · rename_i hr
        split at hu
        · rename_i hi
          exact absurd (by simp [hr, about, hi]) hab
        · cases hu
      · cases hu

/-- The task at `K` fails for good: the tasks that have succeeded are those before it, and none was
undone so far. -/
lemma begins_of_exhausted (h : p.Reached (Carried i name m cls)) {l₁ l₂ : List Ev} {ev : Ev}
    (hl : p.log = l₁ ++ ev :: l₂) (hnot : ev.pre.exhausted i m cls K = false)
    (hx : ev.post.exhausted i m cls K) :
    undone i (l₁ ++ [ev]) = [] ∧ ∀ pos, ev.post.done i pos → pos < K := by
  obtain ⟨p₁, p₂, -, -, -, hstep, -, -, hlog₁, hpre, hlog₂, hpost⟩ := Pool.event_step h rfl hl
  rcases System.step_cases hstep with hsame | ⟨pid, c, e, y, -, -, hexec, hlog⟩
  · rw [← hpost, hsame, hpre, hnot] at hx
    cases hx
  · rw [← hpre] at hnot
    rw [← hpost] at hx ⊢
    obtain ⟨error, n, t, rfl⟩ := failTask_of_exhausted hexec hnot hx
    have hev : ev = ⟨pid, .db (.failTask i K error n t), .commit e, y, p₁.shared, p₂.shared⟩ := by
      rw [hlog₁, hlog₂] at hlog
      exact List.singleton_inj.1 (List.append_cancel_left hlog)
    rcases (carry_suits.describes h).asks l₁ ev l₂ hl (by rw [hev]; simp [about]) with
      ⟨-, hquiet, -, hup⟩ | ⟨-, hun⟩
    · have hq := hquiet (by rw [hev]; rfl)
      have hup := hup K error n t (by rw [hev])
      refine ⟨?_, fun pos hd => ?_⟩
      · rw [undone_append, ← undos_now ev.pre l₁, hq.2, hev]
        rfl
      · have hrec := exec_record hexec i pos
        rw [← hpre] at hup
        unfold DB.done at hd
        generalize ho : p₁.shared.record i pos = o, p₂.shared.record i pos = o' at hrec hd
        cases hrec with
        | same => exact (hup pos).1 (by simpa [View.now, DB.done, ho] using hd)
        | failed => cases hd
        | erased => cases hd
    · rw [hev] at hun
      cases hun

/-- **Compensation, once begun, is carried through**, in every history of a run whose executors
follow one another and break no compensation off. From where a task has failed for good no body of
a task runs again, the run fails only when every task that had succeeded was undone, from the last
one to the first, and it does not succeed. -/
theorem compensation_carried_through (h : p.Reached (Carried i name m cls)) {l₁ l₂ : List Ev} {ev : Ev}
    (hl : p.log = l₁ ++ ev :: l₂) (hnot : ev.pre.exhausted i m cls K = false)
    (hx : ev.post.exhausted i m cls K) :
    ((∀ ev' ∈ l₂, ¬ runsBody i ev'.req) ∧ ∀ pid r, p.pending pid = some r → ¬ runsBody i r) ∧
      (∀ r, p.shared.runs.get? i = some r → r.status = .failed →
        (undone i l₂).Pairwise (· ≥ ·) ∧ ∀ pos, ev.post.done i pos → pos ∈ undone i l₂) ∧
      ∀ r, p.shared.runs.get? i = some r → r.status ≠ .succeeded := by
  have hsince : ∀ {q q' : System}, q.Reached (Carried i name m cls) →
      System.Run (Carried i name m cls) q q' → q.shared = ev.post → q'.shared.exhausted i m cls K := by
    intro q q' hq hrun hpost
    exact exhausted_run hq hrun (hpost ▸ hx)
  obtain ⟨p₁, p₂, f, hrun₁, hC, hstep, -, hrun₂, -, -, -, hpost⟩ := Pool.event_step h rfl hl
  have hnow : p.shared.exhausted i m cls K := hsince (hrun₁.tail ⟨_, hC, hstep⟩) hrun₂ hpost
  have hmark : Exhausted m cls K ((View.now i p.shared p.log).mark K) := exhausted_iff.1 hnow
  -- a run that is done says what has become of its tasks
  have hfate : ∀ r, p.shared.runs.get? i = some r → r.status = .failed ∨ r.status = .succeeded →
      (View.now i p.shared p.log).Fate i m cls := by
    intro r hr hs
    have hstatus : (View.now i p.shared p.log).status = some r.status := by
      simp [View.now, View.of, hr]
    rcases (carry_suits.describes h).holds with habsent | hrest | ⟨hw, -⟩
    · rw [habsent] at hstatus
      cases hstatus
    · exact hrest.2
    · rw [View.Working, hstatus] at hw
      rcases hs with hs | hs <;> rcases hw with hw | hw <;> rw [hs] at hw <;> cases hw
  refine ⟨⟨?_, ?_⟩, fun r hr hs => ?_, fun r hr hs => ?_⟩
  · intro ev' hev' hruns
    obtain ⟨pos, n, ctx, hr⟩ := of_runsBody hruns
    obtain ⟨a, b, rfl⟩ := List.append_of_mem hev'
    have hl' : p.log = l₁ ++ ev :: a ++ ev' :: b := by rw [hl]; simp
    obtain ⟨q, q', hq, hrun, hqpost, hqpre, -⟩ := Pool.events_run h rfl hl'
    have hadv := not_advances h hl' (by rw [hr]; simp [about]) (hqpre ▸ hsince hq hrun hqpost)
    rw [hr] at hadv
    cases hadv
  · intro pid r hr hruns
    obtain ⟨pos, n, ctx, rfl⟩ := of_runsBody hruns
    rcases carry_suits.pending h hr (by simp [about]) (by rintro (⟨_, ⟨⟩⟩ | ⟨_, _, ⟨⟩⟩)) with
      ⟨-, hquiet, -⟩ | ⟨-, hun⟩
    · exact (hquiet rfl).1 K hmark
    · cases hun
  · obtain ⟨hsorted, hall⟩ := (hfate r hr (.inl hs)).failed (by simp [View.now, View.of, hr, hs])
    obtain ⟨hnone, hbelow⟩ := begins_of_exhausted h hl hnot hx
    have hundos : (View.now i p.shared p.log).undos i = undone i l₂ := by
      rw [undos_now, hl, ← List.singleton_append, ← List.append_assoc, undone_append, hnone,
        List.nil_append]
    rw [hundos] at hsorted hall
    exact ⟨hsorted, fun pos hd => hall K hmark pos (hbelow pos hd)⟩
  · exact (hfate r hr (.inr hs)).succeeded (by simp [View.now, View.of, hr, hs]) K hmark

end

/-- Worker A (process 1) gives up at the second task, and is killed before it has undone the first
one. Worker B (process 2) claims the run, undoes the first task and fails the run. -/
def handedOver : List Act :=
  firstDone 1 ++ secondRaises :: commits 1 2 3 ++ .crash 1 ::
  .spawn (.worker (.knowing twoTasks "B")) :: reads 2 100 :: reads 2 100 :: commits 2 6 100 ++
  .act 2 (.undone none []) :: commits 2 2 101

theorem compensation_carried_through_handedOver : ∃ (p : System) (l₁ l₂ : List Ev) (ev : Ev),
    System.init.play (Carried 0 "m.J" 1 twoTasks) handedOver = some p ∧ p.log = l₁ ++ ev :: l₂ ∧
    (p.shared.runs.get? 0).map RunRow.status = some .failed ∧ ev.post.done 0 0 ∧
    (((∀ ev' ∈ l₂, ¬ runsBody 0 ev'.req) ∧ ∀ pid r, p.pending pid = some r → ¬ runsBody 0 r) ∧
      (∀ r, p.shared.runs.get? 0 = some r → r.status = .failed →
        (undone 0 l₂).Pairwise (· ≥ ·) ∧ ∀ pos, ev.post.done 0 pos → pos ∈ undone 0 l₂) ∧
      ∀ r, p.shared.runs.get? 0 = some r → r.status ≠ .succeeded) := by
  have hall : ((System.init.play (Carried 0 "m.J" 1 twoTasks) handedOver).any fun p =>
      (p.shared.runs.get? 0).map RunRow.status = some .failed ∧
        (p.log[14]?).any fun ev => ev.post.done 0 0 ∧
          ev.pre.exhausted 0 1 twoTasks 1 = false ∧ ev.post.exhausted 0 1 twoTasks 1) = true := by
    decide
  obtain ⟨p, hp, hend⟩ := (Option.any_eq_true _ _).1 hall
  obtain ⟨hstatus, hev⟩ := of_decide_eq_true hend
  obtain ⟨ev, hev, hmoment⟩ := (Option.any_eq_true _ _).1 hev
  obtain ⟨hd, hnot, hx⟩ := of_decide_eq_true hmoment
  obtain ⟨l₁, l₂, hl⟩ := List.append_of_mem (List.mem_of_getElem? hev)
  exact ⟨p, l₁, l₂, ev, hp, hl, hstatus, hd,
    compensation_carried_through (Pool.run_of_play hp) hl hnot hx⟩

/-- The first task has been started again by worker B, and returns. So does the second one. -/
def succeededAfterAll : List Act :=
  undoneOnce ++ takenOver ++ .act 2 (.ran (.ok .null) []) :: commits 2 3 101 ++
  .act 2 (.ran (.ok .null) []) :: commits 2 3 102

/-- **A compensation is not carried through** where its worker is killed after it has undone a task:
the next one runs bodies of tasks again, and here the run succeeds. -/
theorem compensation_broken_off : ∃ (p : System) (l₁ l₂ l₃ : List Ev) (ev ev' : Ev),
    System.init.play (Solo 0 "m.J" 1 twoTasks) succeededAfterAll = some p ∧
    p.log = l₁ ++ ev :: l₂ ++ ev' :: l₃ ∧ ev.pre.exhausted 0 1 twoTasks 1 = false ∧
    ev.post.exhausted 0 1 twoTasks 1 ∧ runsBody 0 ev'.req ∧
    (p.shared.runs.get? 0).map RunRow.status = some .succeeded := by
  have hall : ((System.init.play (Solo 0 "m.J" 1 twoTasks) succeededAfterAll).any fun p =>
      (p.shared.runs.get? 0).map RunRow.status = some .succeeded ∧
        ((p.log[14]?).any fun ev =>
          ev.pre.exhausted 0 1 twoTasks 1 = false ∧ ev.post.exhausted 0 1 twoTasks 1) ∧
        (p.log[25]?).any fun ev => runsBody 0 ev.req) = true := by decide
  obtain ⟨p, hp, hend⟩ := (Option.any_eq_true _ _).1 hall
  obtain ⟨hstatus, hev, hev'⟩ := of_decide_eq_true hend
  obtain ⟨ev, hev, hmoment⟩ := (Option.any_eq_true _ _).1 hev
  obtain ⟨ev', hev', hruns⟩ := (Option.any_eq_true _ _).1 hev'
  obtain ⟨hnot, hx⟩ := of_decide_eq_true hmoment
  obtain ⟨l₁, l₂, l₃, hl⟩ := Pool.split_of_getElem? hev hev' (by decide)
  exact ⟨p, l₁, l₂, l₃, ev, ev', hp, hl, hnot, hx, hruns, hstatus⟩

end Pyreljob
