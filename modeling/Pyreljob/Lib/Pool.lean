import Mathlib.Algebra.Order.BigOperators.Group.Finset
import Mathlib.Logic.Relation
import Pyreljob.Lib.Prog

/-!
Many programs at once, against one shared state.

A `Pool` is the shared state, the processes started so far and the log of everything that was
answered. A step starts a process, answers the request a process waits for, or kills a process. The
schedule is not restricted: any process may be answered next, with any answer that fits, and may be
killed while it waits. A process is named by its number, and numbers are not used again.

A claim about all runs is proved with `Pool.phases`: every process keeps to an automaton of its own,
and an invariant ties the states of the automata (the phases of the processes) to the shared state
and the log. Who may move when is given by a condition `C` on steps, which a run obeys throughout.
-/

namespace Pyreljob.Lib

open Relation

variable {S K Ans : Type} {Req : Type} {Reply : Req → Type} {Exc : Type}

/-- A process: what it was started as, and what is left of its program, if it still lives. -/
structure Proc (K : Type) (Req : Type) (Reply : Req → Type) (Exc : Type) where
  kind : K
  prog : Option (Prog Req Reply Exc Unit)

/-- An answered request: who asked, what came back, and the shared state before and after. -/
structure Event (S Ans : Type) (Req : Type) (Reply : Req → Type) (Exc : Type) where
  pid : ℕ
  req : Req
  ans : Ans
  reply : Except Exc (Reply req)
  pre : S
  post : S

/-- A pool of processes. -/
structure Pool (S K Ans : Type) (Req : Type) (Reply : Req → Type) (Exc : Type) where
  shared : S
  procs : List (Proc K Req Reply Exc) := []
  /-- What has been answered, the latest event last. -/
  log : List (Event S Ans Req Reply Exc) := []

/-- What can happen next. -/
inductive Label (K Ans : Type)
  | spawn (k : K)
  | act (pid : ℕ) (a : Ans)
  | crash (pid : ℕ)

namespace Pool

def live : Prog Req Reply Exc Unit → Option (Prog Req Reply Exc Unit)
  | .ret _ => none
  | p => some p

/-- What a process was started as. -/
def kind? (p : Pool S K Ans Req Reply Exc) (pid : ℕ) : Option K := p.procs[pid]?.map Proc.kind

/-- What is left of the program of a process; `none` if there is no such process any more. -/
def prog? (p : Pool S K Ans Req Reply Exc) (pid : ℕ) : Option (Prog Req Reply Exc Unit) :=
  p.procs[pid]?.bind Proc.prog

/-- The request a process waits for. -/
def pending (p : Pool S K Ans Req Reply Exc) (pid : ℕ) : Option Req :=
  match p.prog? pid with
  | some (.ask r _) => some r
  | _ => none

/-- The process lives. -/
def lives (p : Pool S K Ans Req Reply Exc) (pid : ℕ) : Bool := (p.prog? pid).isSome

lemma lt_of_lives {p : Pool S K Ans Req Reply Exc} {pid : ℕ} (h : p.lives pid) :
    pid < p.procs.length := by
  by_contra hge
  have hnone : p.procs[pid]? = none := List.getElem?_eq_none_iff.2 (Nat.le_of_not_lt hge)
  simp [lives, prog?, hnone] at h

lemma ask_of_live {q q' : Prog Req Reply Exc Unit} (h : live q = some q') :
    q = q' ∧ ∃ r f, q' = .ask r f := by
  cases q with
  | ret v => cases h
  | ask r f =>
    cases h
    exact ⟨rfl, r, f, rfl⟩

lemma prog?_of_pending {p : Pool S K Ans Req Reply Exc} {pid : ℕ} {r : Req}
    (h : p.pending pid = some r) : ∃ f, p.prog? pid = some (.ask r f) := by
  unfold pending at h
  split at h
  · rename_i hf
    cases h
    exact ⟨_, hf⟩
  · cases h

lemma split_concat {α : Type} {l l₁ l₂ : List α} {a b : α} (h : l ++ [a] = l₁ ++ b :: l₂) :
    (l₂ = [] ∧ b = a ∧ l₁ = l) ∨ ∃ l₂', l₂ = l₂' ++ [a] ∧ l = l₁ ++ b :: l₂' := by
  rcases List.eq_nil_or_concat l₂ with rfl | ⟨l₂', a', rfl⟩
  · left
    obtain ⟨hl, ha⟩ := List.append_inj' h rfl
    exact ⟨rfl, (List.cons.inj ha).1.symm, hl.symm⟩
  · right
    rw [List.concat_eq_append, ← List.cons_append, ← List.append_assoc] at h
    obtain ⟨hl, ha⟩ := List.append_inj' h rfl
    obtain rfl := (List.cons.inj ha).1
    exact ⟨l₂', by simp, hl⟩

/-- Two events of a log, the earlier one first, with what lies between them. -/
lemma split_between {α : Type} {l : List α} {a b : α} {n m : ℕ} (hn : l[n]? = some a)
    (hm : l[m]? = some b) (hnm : n < m) :
    l = l.take n ++ a :: (l.take m).drop (n + 1) ++ b :: l.drop (m + 1) := by
  have hcut : ∀ {l : List α} {c : α} {k : ℕ}, l[k]? = some c → l = l.take k ++ c :: l.drop (k + 1) := by
    intro l c k hk
    obtain ⟨hlt, rfl⟩ := List.getElem?_eq_some_iff.1 hk
    rw [List.getElem_cons_drop, List.take_append_drop]
  have hn' : (l.take m)[n]? = some a := by
    rw [List.getElem?_take_of_lt hnm]
    exact hn
  have hfirst := hcut hn'
  rw [List.take_take, Nat.min_eq_left hnm.le] at hfirst
  rw [← hfirst]
  exact hcut hm

lemma split_of_getElem? {α : Type} {l : List α} {a b : α} {n m : ℕ} (hn : l[n]? = some a)
    (hm : l[m]? = some b) (hnm : n < m) : ∃ l₁ l₂ l₃, l = l₁ ++ a :: l₂ ++ b :: l₃ :=
  ⟨_, _, _, split_between hn hm hnm⟩

section Step

variable (answer : S → (r : Req) → Ans → Option (S × Except Exc (Reply r)))
variable (program : K → Prog Req Reply Exc Unit)

/-- **One step of a pool**; `none` if the label does not fit. -/
def step (p : Pool S K Ans Req Reply Exc) : Label K Ans → Option (Pool S K Ans Req Reply Exc)
  | .spawn k => some { p with procs := p.procs ++ [⟨k, live (program k)⟩] }
  | .crash pid =>
    match p.procs[pid]? with
    | none => none
    | some proc => some { p with procs := p.procs.set pid { proc with prog := none } }
  | .act pid a =>
    match p.procs[pid]? with
    | some ⟨kind, some (.ask r f)⟩ =>
      match answer p.shared r a with
      | none => none
      | some (s, y) =>
        some { shared := s
               procs := p.procs.set pid ⟨kind, live (f y)⟩
               log := p.log ++ [⟨pid, r, a, y, p.shared, s⟩] }
    | _ => none

/-- Steps one after the other, each of which must obey `C`. -/
def play (C : Pool S K Ans Req Reply Exc → Label K Ans → Prop) [∀ p l, Decidable (C p l)]
    (p : Pool S K Ans Req Reply Exc) : List (Label K Ans) → Option (Pool S K Ans Req Reply Exc)
  | [] => some p
  | l :: ls => if C p l then (p.step answer program l).bind fun p' => play C p' ls else none

/-- A step that obeys `C`. -/
def Move (C : Pool S K Ans Req Reply Exc → Label K Ans → Prop) (p p' : Pool S K Ans Req Reply Exc) :
    Prop :=
  ∃ l, C p l ∧ p.step answer program l = some p'

/-- A run all of whose steps obey `C`. -/
def Run (C : Pool S K Ans Req Reply Exc → Label K Ans → Prop) :
    Pool S K Ans Req Reply Exc → Pool S K Ans Req Reply Exc → Prop :=
  ReflTransGen (Move answer program C)

variable {answer program}
variable {p p' : Pool S K Ans Req Reply Exc}

/-- What a process that acts does. -/
structure Acts (answer : S → (r : Req) → Ans → Option (S × Except Exc (Reply r)))
    (p : Pool S K Ans Req Reply Exc) (pid : ℕ) (a : Ans) (p' : Pool S K Ans Req Reply Exc)
    (r : Req) (f : Except Exc (Reply r) → Prog Req Reply Exc Unit) (y : Except Exc (Reply r)) :
    Prop where
  /-- It was waiting for `r`. -/
  waiting : p.prog? pid = some (.ask r f)
  /-- The request was answered. -/
  answered : answer p.shared r a = some (p'.shared, y)
  /-- The event is the latest in the log. -/
  logged : p'.log = p.log ++ [⟨pid, r, a, y, p.shared, p'.shared⟩]
  /-- It goes on with the reply, and nobody else moves. -/
  resumed : ∀ q, p'.prog? q = if q = pid then live (f y) else p.prog? q
  /-- Nobody is started. -/
  procs : p'.procs.length = p.procs.length

lemma Acts.pending {pid : ℕ} {a : Ans} {r : Req} {f : Except Exc (Reply r) → Prog Req Reply Exc Unit}
    {y : Except Exc (Reply r)} (h : Acts answer p pid a p' r f y) : p.pending pid = some r := by
  simp only [Pool.pending, h.waiting]

lemma prog?_append {procs : List (Proc K Req Reply Exc)} {proc : Proc K Req Reply Exc} {s : S}
    {log : List (Event S Ans Req Reply Exc)} (q : ℕ) :
    (Pool.mk s (procs ++ [proc]) log).prog? q =
      if q = procs.length then proc.prog else (Pool.mk s procs log).prog? q := by
  unfold prog?
  rcases lt_trichotomy q procs.length with h | h | h
  · simp [List.getElem?_append_left h, h.ne]
  · simp [h]
  · have h₁ : (procs ++ [proc])[q]? = none := by
      rw [List.getElem?_eq_none_iff, List.length_append]
      exact h
    have h₂ : procs[q]? = none := by
      rw [List.getElem?_eq_none_iff]
      exact h.le
    simp [h₁, h₂, h.ne']

lemma prog?_set {procs : List (Proc K Req Reply Exc)} {proc proc₀ : Proc K Req Reply Exc} {s s' : S}
    {log log' : List (Event S Ans Req Reply Exc)} {pid : ℕ} (h : procs[pid]? = some proc₀) (q : ℕ) :
    (Pool.mk s (procs.set pid proc) log).prog? q =
      if q = pid then proc.prog else (Pool.mk s' procs log').prog? q := by
  have hlt : pid < procs.length := (List.getElem?_eq_some_iff.1 h).1
  unfold prog?
  by_cases hq : q = pid
  · subst hq
    simp [hlt]
  · simp [hq, List.getElem?_set_ne (Ne.symm hq)]

lemma step_spawn {k : K} (h : p.step answer program (.spawn k) = some p') :
    p'.shared = p.shared ∧ p'.log = p.log ∧ p'.procs.length = p.procs.length + 1 ∧
      ∀ q, p'.prog? q = if q = p.procs.length then live (program k) else p.prog? q := by
  cases h
  exact ⟨rfl, rfl, by simp, prog?_append⟩

lemma step_crash {pid : ℕ} (h : p.step answer program (.crash pid) = some p') :
    p'.shared = p.shared ∧ p'.log = p.log ∧ p'.procs.length = p.procs.length ∧
      pid < p.procs.length ∧ ∀ q, p'.prog? q = if q = pid then none else p.prog? q := by
  simp only [step] at h
  split at h
  · cases h
  · rename_i proc hproc
    cases h
    exact ⟨rfl, rfl, by simp, (List.getElem?_eq_some_iff.1 hproc).1, prog?_set hproc⟩

lemma step_act {pid : ℕ} {a : Ans} (h : p.step answer program (.act pid a) = some p') :
    ∃ r f y, Acts answer p pid a p' r f y := by
  simp only [step] at h
  split at h
  · rename_i kind r f hproc
    split at h
    · cases h
    · rename_i s y hans
      cases h
      refine ⟨r, f, y, ?_, hans, rfl, prog?_set hproc, by simp⟩
      simp [prog?, hproc]
  · cases h

lemma step_of_answer {pid : ℕ} {a : Ans} {r : Req} {s : S} {y : Except Exc (Reply r)}
    (hr : p.pending pid = some r) (ha : answer p.shared r a = some (s, y)) :
    ∃ p', p.step answer program (.act pid a) = some p' := by
  obtain ⟨f, hf⟩ := prog?_of_pending hr
  obtain ⟨⟨kind, prog⟩, hproc, hprog⟩ := Option.bind_eq_some_iff.1 hf
  obtain rfl : prog = some (.ask r f) := hprog
  simp [step, hproc, ha]

lemma kind?_spawn {k : K} (h : p.step answer program (.spawn k) = some p') (q : ℕ) :
    p'.kind? q = if q = p.procs.length then some k else p.kind? q := by
  cases h
  unfold kind?
  rcases lt_trichotomy q p.procs.length with hq | hq | hq
  · simp [List.getElem?_append_left hq, hq.ne]
  · simp [hq]
  · have hnone : (p.procs ++ [⟨k, live (program k)⟩])[q]? = none := by
      rw [List.getElem?_eq_none_iff, List.length_append]
      exact hq
    simp [hnone, hq.le, hq.ne']

lemma kind?_set {procs : List (Proc K Req Reply Exc)} {proc proc₀ : Proc K Req Reply Exc} {s s' : S}
    {log log' : List (Event S Ans Req Reply Exc)} {pid : ℕ} (h : procs[pid]? = some proc₀)
    (hk : proc.kind = proc₀.kind) (q : ℕ) :
    (Pool.mk s (procs.set pid proc) log).kind? q = (Pool.mk s' procs log').kind? q := by
  have hlt : pid < procs.length := (List.getElem?_eq_some_iff.1 h).1
  unfold kind?
  by_cases hq : pid = q
  · subst hq
    dsimp only
    rw [List.getElem?_set_self hlt, h, Option.map_some, Option.map_some, hk]
  · simp [List.getElem?_set_ne hq]

lemma kind?_crash {pid : ℕ} (h : p.step answer program (.crash pid) = some p') (q : ℕ) :
    p'.kind? q = p.kind? q := by
  simp only [step] at h
  split at h
  · cases h
  · rename_i proc hproc
    cases h
    exact kind?_set hproc (by rfl) q

lemma kind?_act {pid : ℕ} {a : Ans} (h : p.step answer program (.act pid a) = some p') (q : ℕ) :
    p'.kind? q = p.kind? q := by
  simp only [step] at h
  split at h
  · rename_i kind r f hproc
    split at h
    · cases h
    · cases h
      exact kind?_set hproc (by rfl) q
  · cases h

lemma kind?_stays {l : Label K Ans} (h : p.step answer program l = some p') {q : ℕ} {k : K}
    (hk : p.kind? q = some k) : p'.kind? q = some k := by
  cases l with
  | spawn k' =>
    have hlt : q < p.procs.length := by
      obtain ⟨proc, hproc, -⟩ := Option.map_eq_some_iff.1 hk
      exact (List.getElem?_eq_some_iff.1 hproc).1
    rw [kind?_spawn h, if_neg hlt.ne, hk]
  | crash pid => rw [kind?_crash h, hk]
  | act pid a => rw [kind?_act h, hk]

lemma run_of_play {C : Pool S K Ans Req Reply Exc → Label K Ans → Prop} [∀ p l, Decidable (C p l)]
    {ls : List (Label K Ans)} (h : p.play answer program C ls = some p') :
    Run answer program C p p' := by
  induction ls generalizing p with
  | nil =>
    cases h
    exact .refl
  | cons l ls ih =>
    unfold play at h
    split at h
    · rename_i hl
      obtain ⟨p₁, hp₁, hls⟩ := Option.bind_eq_some_iff.1 h
      exact .head ⟨l, hl, hp₁⟩ (ih hls)
    · cases h

/-- Playing a list of labels is a run, where the acts are allowed or not whatever the state. -/
lemma run_of_play_all {C : Label K Ans → Prop} {ls : List (Label K Ans)} (hC : ∀ l ∈ ls, C l)
    (h : p.play answer program (fun _ _ => True) ls = some p') :
    Run answer program (fun _ => C) p p' := by
  induction ls generalizing p with
  | nil =>
    cases h
    exact .refl
  | cons l ls ih =>
    obtain ⟨hl, hls⟩ := List.forall_mem_cons.1 hC
    obtain ⟨p₁, hp₁, hplay⟩ := Option.bind_eq_some_iff.1 h
    exact .head ⟨l, hl, hp₁⟩ (ih hls hplay)

lemma Run.mono {C C' : Pool S K Ans Req Reply Exc → Label K Ans → Prop} (hC : ∀ p l, C p l → C' p l)
    (h : Run answer program C p p') : Run answer program C' p p' := by
  induction h with
  | refl => exact .refl
  | tail _ hstep ih =>
    obtain ⟨l, hl, hs⟩ := hstep
    exact .tail ih ⟨l, hC _ _ hl, hs⟩

/-- **What cannot come about has always held**: what no step of the run brings about, and what holds
at its end, held all the way. -/
theorem Run.backward {C : Pool S K Ans Req Reply Exc → Label K Ans → Prop}
    {P : Pool S K Ans Req Reply Exc → Prop}
    (hP : ∀ p p' l, C p l → p.step answer program l = some p' → P p' → P p)
    (h : Run answer program C p p') (hp' : P p') :
    Run answer program
      (fun p l => C p l ∧ P p ∧ ∀ p', p.step answer program l = some p' → P p') p p' := by
  induction h with
  | refl => exact .refl
  | tail _ hmove ih =>
    obtain ⟨l, hC, hstep⟩ := hmove
    have hp := hP _ _ l hC hstep hp'
    refine (ih hp).tail ⟨l, ⟨hC, hp, fun p₂ hp₂ => ?_⟩, hstep⟩
    obtain rfl := Option.some.inj (hstep.symm.trans hp₂)
    exact hp'

lemma log_prefix {C : Pool S K Ans Req Reply Exc → Label K Ans → Prop}
    (h : Run answer program C p p') : ∃ l, p'.log = p.log ++ l := by
  induction h with
  | refl => exact ⟨[], by simp⟩
  | tail _ hmove ih =>
    obtain ⟨l, hl⟩ := ih
    obtain ⟨lab, -, hstep⟩ := hmove
    cases lab with
    | spawn k => exact ⟨l, (step_spawn hstep).2.1.trans hl⟩
    | crash pid => exact ⟨l, (step_crash hstep).2.1.trans hl⟩
    | act pid a =>
      obtain ⟨r, f, y, hact⟩ := step_act hstep
      exact ⟨l ++ [_], by rw [hact.logged, hl, List.append_assoc]⟩

lemma Run.kind? {C : Pool S K Ans Req Reply Exc → Label K Ans → Prop}
    (h : Run answer program C p p') {q : ℕ} {k : K} (hk : p.kind? q = some k) :
    p'.kind? q = some k := by
  induction h with
  | refl => exact hk
  | tail _ hmove ih =>
    obtain ⟨l, -, hstep⟩ := hmove
    exact kind?_stays hstep ih

lemma log_answered {C : Pool S K Ans Req Reply Exc → Label K Ans → Prop}
    (h : Run answer program C p p')
    (hp : ∀ ev ∈ p.log, answer ev.pre ev.req ev.ans = some (ev.post, ev.reply)) :
    ∀ ev ∈ p'.log, answer ev.pre ev.req ev.ans = some (ev.post, ev.reply) := by
  induction h with
  | refl => exact hp
  | tail _ hmove ih =>
    obtain ⟨l, -, hstep⟩ := hmove
    cases l with
    | spawn k => rwa [(step_spawn hstep).2.1]
    | crash pid => rwa [(step_crash hstep).2.1]
    | act pid a =>
      obtain ⟨r, f, y, hact⟩ := step_act hstep
      rw [hact.logged]
      intro ev hev
      rcases List.mem_append.1 hev with hev | hev
      · exact ih ev hev
      · rw [List.mem_singleton.1 hev]
        exact hact.answered

lemma asks_of_lives {C : Pool S K Ans Req Reply Exc → Label K Ans → Prop}
    (h : Run answer program C p p') (hp : p.procs = []) {pid : ℕ} (hpid : p'.lives pid) :
    ∃ r, p'.pending pid = some r := by
  induction h with
  | refl => simp [lives, prog?, hp] at hpid
  | @tail p₁ p₂ _ hmove ih =>
    obtain ⟨l, -, hstep⟩ := hmove
    obtain ⟨q, hq⟩ := Option.isSome_iff_exists.1 hpid
    have hlive : ∀ {q₀}, p₂.prog? pid = live q₀ → ∃ r, p₂.pending pid = some r := by
      intro q₀ h₀
      rw [h₀] at hq
      obtain ⟨-, r, f, rfl⟩ := ask_of_live hq
      exact ⟨r, by rw [pending, h₀, hq]⟩
    have hkept : p₂.prog? pid = p₁.prog? pid → ∃ r, p₂.pending pid = some r := by
      intro hsame
      rw [lives, hsame] at hpid
      obtain ⟨r, hr⟩ := ih hpid
      exact ⟨r, by rw [pending, hsame, ← hr, pending]⟩
    cases l with
    | spawn k =>
      have hprog := (step_spawn hstep).2.2.2 pid
      split at hprog
      · exact hlive hprog
      · exact hkept hprog
    | crash pid' =>
      have hprog := (step_crash hstep).2.2.2.2 pid
      split at hprog
      · rw [hprog] at hq
        cases hq
      · exact hkept hprog
    | act pid' a =>
      obtain ⟨r, f, y, hact⟩ := step_act hstep
      have hprog := hact.resumed pid
      split at hprog
      · exact hlive hprog
      · exact hkept hprog

/-- **Every event of the log is a step of the run**: between the states that it names, which the run
has passed through. -/
lemma event_step {C : Pool S K Ans Req Reply Exc → Label K Ans → Prop}
    (h : Run answer program C p p') (hp : p.log = []) {l₁ l₂ : List (Event S Ans Req Reply Exc)}
    {ev : Event S Ans Req Reply Exc} (hl : p'.log = l₁ ++ ev :: l₂) :
    ∃ p₁ p₂ f, Run answer program C p p₁ ∧ C p₁ (.act ev.pid ev.ans) ∧
      p₁.step answer program (.act ev.pid ev.ans) = some p₂ ∧
      Acts answer p₁ ev.pid ev.ans p₂ ev.req f ev.reply ∧ Run answer program C p₂ p' ∧
      p₁.log = l₁ ∧ p₁.shared = ev.pre ∧ p₂.log = l₁ ++ [ev] ∧ p₂.shared = ev.post := by
  induction h generalizing l₁ ev l₂ with
  | refl =>
    rw [hp] at hl
    cases l₁ <;> cases hl
  | @tail p₂ p₃ hrun hmove ih =>
    have hsame : p₃.log = p₂.log → ∃ p₁ p₂ f, Run answer program C p p₁ ∧
        C p₁ (.act ev.pid ev.ans) ∧ p₁.step answer program (.act ev.pid ev.ans) = some p₂ ∧
        Acts answer p₁ ev.pid ev.ans p₂ ev.req f ev.reply ∧ Run answer program C p₂ p₃ ∧
        p₁.log = l₁ ∧ p₁.shared = ev.pre ∧ p₂.log = l₁ ++ [ev] ∧ p₂.shared = ev.post := by
      intro hlog
      obtain ⟨q₁, q₂, f, h₁, hC, hs, hact, h₂, hrest⟩ := ih (hlog ▸ hl)
      exact ⟨q₁, q₂, f, h₁, hC, hs, hact, h₂.tail hmove, hrest⟩
    obtain ⟨l, hC, hstep⟩ := hmove
    cases l with
    | spawn k => exact hsame (step_spawn hstep).2.1
    | crash pid => exact hsame (step_crash hstep).2.1
    | act pid a =>
      obtain ⟨r, f, y, hact⟩ := step_act hstep
      have hlog := hact.logged
      rw [hl] at hlog
      rcases split_concat hlog.symm with ⟨rfl, rfl, rfl⟩ | ⟨l₂', rfl, hl'⟩
      · exact ⟨p₂, p₃, f, hrun, hC, hstep, hact, .refl, rfl, rfl, hact.logged, rfl⟩
      · obtain ⟨q₁, q₂, f, h₁, hC', hs', hact', h₂, hrest⟩ := ih hl'
        exact ⟨q₁, q₂, f, h₁, hC', hs', hact', h₂.tail ⟨_, hC, hstep⟩, hrest⟩

lemma events_run {C : Pool S K Ans Req Reply Exc → Label K Ans → Prop}
    (h : Run answer program C p p') (hp : p.log = []) {l₁ l₂ l₃ : List (Event S Ans Req Reply Exc)}
    {ev ev' : Event S Ans Req Reply Exc} (hl : p'.log = l₁ ++ ev :: l₂ ++ ev' :: l₃) :
    ∃ q q', Run answer program C p q ∧ Run answer program C q q' ∧ q.shared = ev.post ∧
      q'.shared = ev'.pre ∧ q'.log = q.log ++ l₂ := by
  obtain ⟨p₁, p₂, f, h₁, -, -, -, -, hlog, hpre, -⟩ := event_step h hp hl
  obtain ⟨q₁, q₂, f', hq₁, hC, hstep, -, hq, -, -, hlog', hpost⟩ := event_step h₁ hp hlog
  exact ⟨q₂, p₁, hq₁.tail ⟨_, hC, hstep⟩, hq, hpost, hpre, by rw [hlog, hlog', List.append_cons]⟩

/-- **What holds was brought about, or held before**: what only an event with `E` brings about, and
what holds at the end of a stretch of a run with no such event, held at its beginning. -/
lemma Run.before {C : Pool S K Ans Req Reply Exc → Label K Ans → Prop} {P : S → Prop}
    {E : Event S Ans Req Reply Exc → Prop}
    (hE : ∀ (q q' : Pool S K Ans Req Reply Exc) l, q.step answer program l = some q' →
      P q'.shared → P q.shared ∨ ∃ ev, q'.log = q.log ++ [ev] ∧ E ev)
    (h : Run answer program C p p') {l : List (Event S Ans Req Reply Exc)}
    (hl : p'.log = p.log ++ l) (hnone : ∀ ev ∈ l, ¬ E ev) (hp' : P p'.shared) : P p.shared := by
  induction h generalizing l with
  | refl => exact hp'
  | @tail q q' hrun hmove ih =>
    obtain ⟨label, hC, hstep⟩ := hmove
    obtain ⟨l₁, hl₁⟩ := log_prefix hrun
    obtain ⟨l₂, hl₂⟩ := log_prefix (Relation.ReflTransGen.single ⟨label, hC, hstep⟩ :
      Run answer program C q q')
    have hsplit : l = l₁ ++ l₂ := by
      rw [hl₂, hl₁, List.append_assoc] at hl
      exact (List.append_cancel_left hl).symm
    refine ih hl₁ (fun ev hev => hnone ev (hsplit ▸ List.mem_append_left _ hev)) ?_
    rcases hE q q' label hstep hp' with hq | ⟨ev, hlog, hev⟩
    · exact hq
    · obtain rfl : l₂ = [ev] := List.append_cancel_left (hl₂.symm.trans hlog)
      exact absurd hev (hnone ev (hsplit ▸ List.mem_append_right _ (List.mem_singleton_self _)))

/-! ### What an event has brought about, and what has come after it -/

/-- An event of the first kind has happened, and none of the second kind since. -/
def since (starts ends : Event S Ans Req Reply Exc → Bool) (log : List (Event S Ans Req Reply Exc)) :
    Bool :=
  log.foldl (fun b ev => starts ev || (b && !ends ev)) false

lemma since_concat (starts ends : Event S Ans Req Reply Exc → Bool)
    (log : List (Event S Ans Req Reply Exc)) (ev : Event S Ans Req Reply Exc) :
    since starts ends (log ++ [ev]) = (starts ev || (since starts ends log && !ends ev)) := by
  simp [since]

/-- **What events of one kind bring about, and only those of another kind undo**, holds as long as the
latter have not come. -/
theorem since_holds {C : Pool S K Ans Req Reply Exc → Label K Ans → Prop} {P : S → Prop}
    {starts ends : Event S Ans Req Reply Exc → Bool}
    (hstarts : ∀ ev, answer ev.pre ev.req ev.ans = some (ev.post, ev.reply) → starts ev → P ev.post)
    (hkept : ∀ ev, answer ev.pre ev.req ev.ans = some (ev.post, ev.reply) → ends ev = false →
      P ev.pre → P ev.post)
    (h : Run answer program C p p') (hp : p.log = []) (hlog : since starts ends p'.log) :
    P p'.shared := by
  induction h with
  | refl =>
    rw [hp] at hlog
    cases hlog
  | tail _ hmove ih =>
    obtain ⟨l, -, hstep⟩ := hmove
    cases l with
    | spawn k =>
      obtain ⟨hshared, hsame, -⟩ := step_spawn hstep
      exact hshared ▸ ih (hsame ▸ hlog)
    | crash pid =>
      obtain ⟨hshared, hsame, -⟩ := step_crash hstep
      exact hshared ▸ ih (hsame ▸ hlog)
    | act pid a =>
      obtain ⟨r, f, y, hact⟩ := step_act hstep
      rw [hact.logged, since_concat, Bool.or_eq_true, Bool.and_eq_true, Bool.not_eq_true'] at hlog
      rcases hlog with hnew | ⟨hold, hnot⟩
      · exact hstarts _ hact.answered hnew
      · exact hkept _ hact.answered hnot (ih hold)

end Step

/-- What the process has said and heard. -/
def said (pid : ℕ) (log : List (Event S Ans Req Reply Exc)) : List (Σ r, Except Exc (Reply r)) :=
  (log.filter fun ev => ev.pid = pid).map fun ev => ⟨ev.req, ev.reply⟩

section Said

variable {log : List (Event S Ans Req Reply Exc)} {pid : ℕ}

lemma mem_of_said {x : Σ r, Except Exc (Reply r)} (h : x ∈ said pid log) :
    ∃ ev ∈ log, ev.pid = pid ∧ (⟨ev.req, ev.reply⟩ : Σ r, Except Exc (Reply r)) = x := by
  obtain ⟨ev, hev, hx⟩ := List.mem_map.1 h
  obtain ⟨hlog, hpid⟩ := List.mem_filter.1 hev
  exact ⟨ev, hlog, of_decide_eq_true hpid, hx⟩

lemma split_of_said {x x' : Σ r, Except Exc (Reply r)} {l l' : List (Σ r, Except Exc (Reply r))}
    (h : said pid log = l ++ x :: x' :: l') :
    ∃ l₁ ev l₂ ev' l₃, log = l₁ ++ ev :: l₂ ++ ev' :: l₃ ∧ ev.pid = pid ∧ ev'.pid = pid ∧
      (⟨ev.req, ev.reply⟩ : Σ r, Except Exc (Reply r)) = x ∧
      (⟨ev'.req, ev'.reply⟩ : Σ r, Except Exc (Reply r)) = x' := by
  obtain ⟨as, bs, hlog, -, hbs⟩ := List.map_eq_append_iff.1 h
  obtain ⟨ev, cs, rfl, hx, hcs⟩ := List.map_eq_cons_iff.1 hbs
  obtain ⟨ev', ds, rfl, hx', -⟩ := List.map_eq_cons_iff.1 hcs
  obtain ⟨l₁, l₂, rfl, -, h₂⟩ := List.filter_eq_append_iff.1 hlog
  obtain ⟨m₁, m₂, rfl, -, hp, h₃⟩ := List.filter_eq_cons_iff.1 h₂
  obtain ⟨n₁, n₂, rfl, -, hp', -⟩ := List.filter_eq_cons_iff.1 h₃
  exact ⟨l₁ ++ m₁, ev, n₁, ev', n₂, by simp, of_decide_eq_true hp, of_decide_eq_true hp', hx, hx'⟩

end Said

/-! ### Phases -/

section Phases

variable {Γ : Type} (A : Γ → (r : Req) → Except Exc (Reply r) → Γ → Prop) (ok : Γ → Req → Prop)
variable (ends : Γ → Prop) (start gone : Γ)

/-- A program that keeps to the automaton, and ends only where it may. -/
def InPhase (q : Prog Req Reply Exc Unit) (c : Γ) : Prop :=
  q.Keeps A ok (fun _ c => ends c) c

/-- Every process keeps to the automaton from its phase on. A process that is no more has the phase
`gone`, one that is still to come the phase `start`. -/
def Phased (p : Pool S K Ans Req Reply Exc) (ph : ℕ → Γ) : Prop :=
  ∀ pid, match p.prog? pid with
    | some q => InPhase A ok ends q (ph pid)
    | none => ph pid = if pid < p.procs.length then gone else start

variable {A ok ends start gone}
variable {p p' : Pool S K Ans Req Reply Exc} {ph : ℕ → Γ}

lemma Phased.of_prog? (h : Phased A ok ends start gone p ph) {pid : ℕ}
    {q : Prog Req Reply Exc Unit} (hq : p.prog? pid = some q) :
    InPhase A ok ends q (ph pid) := by
  have := h pid
  rwa [hq] at this

lemma Phased.lives (h : Phased A ok ends start gone p ph) {pid : ℕ} (hs : ph pid ≠ start)
    (hg : ph pid ≠ gone) : p.lives pid := by
  cases hq : p.prog? pid with
  | some q => simp [Pool.lives, hq]
  | none =>
    have := h pid
    rw [hq] at this
    dsimp only at this
    split at this <;> contradiction

/-- The phases after `pid` alone has moved, to `c` if it goes on and to `gone` if it ends there. -/
lemma Phased.update (h : Phased A ok ends start gone p ph) {pid : ℕ}
    {q : Prog Req Reply Exc Unit} {c : Γ} (hq : InPhase A ok ends q c)
    (hp : ∀ i, p'.prog? i = if i = pid then live q else p.prog? i)
    (hpid : pid < p'.procs.length)
    (hlen : ∀ i, i ≠ pid → (i < p'.procs.length ↔ i < p.procs.length)) :
    Phased A ok ends start gone p' (Function.update ph pid c) ∨
      (ends c ∧ p'.prog? pid = none ∧
        Phased A ok ends start gone p' (Function.update ph pid gone)) := by
  have hother : ∀ {c' : Γ} {i : ℕ}, i ≠ pid → (match p'.prog? i with
      | some q => InPhase A ok ends q (Function.update ph pid c' i)
      | none => Function.update ph pid c' i = if i < p'.procs.length then gone else start) := by
    intro c' i hi
    simp only [hp i, if_neg hi, Function.update_of_ne hi, hlen i hi]
    exact h i
  cases q with
  | ret v =>
    refine .inr ⟨hq, by simp [hp, live], fun i => ?_⟩
    by_cases hi : i = pid
    · subst hi
      simp [hp, live, hpid]
    · exact hother hi
  | ask r f =>
    left
    intro i
    by_cases hi : i = pid
    · subst hi
      simpa [hp, live] using hq
    · exact hother hi

variable {answer : S → (r : Req) → Ans → Option (S × Except Exc (Reply r))}
variable {program : K → Prog Req Reply Exc Unit}
variable {C : Pool S K Ans Req Reply Exc → Label K Ans → Prop}

/-- **The invariant rule.** `G` ties the phases of the processes to the state of the pool. It is kept
if it survives that a process is started, in a phase of its kind's choice, that one is killed, that
one has ended, and that a process in its phase is answered. -/
theorem walk {G : Pool S K Ans Req Reply Exc → (ℕ → Γ) → Prop}
    (hspawn : ∀ p p' ph k, C p (.spawn k) → p.step answer program (.spawn k) = some p' →
      ph p.procs.length = start → G p ph →
        ∃ c, InPhase A ok ends (program k) c ∧ G p' (Function.update ph p.procs.length c))
    (hcrash : ∀ p p' ph pid, C p (.crash pid) → p.step answer program (.crash pid) = some p' →
      Phased A ok ends start gone p ph → G p ph → G p' (Function.update ph pid gone))
    (hend : ∀ p ph pid, p.prog? pid = none → ends (ph pid) → G p ph →
      G p (Function.update ph pid gone))
    (hact : ∀ p p' ph pid a r f y, C p (.act pid a) → p.step answer program (.act pid a) = some p' →
      Phased A ok ends start gone p ph → G p ph → Acts answer p pid a p' r f y → ok (ph pid) r →
        ∃ c, A (ph pid) r y c ∧ G p' (Function.update ph pid c))
    (hrun : Run answer program C p p') (hp : Phased A ok ends start gone p ph) (hG : G p ph) :
    ∃ ph', Phased A ok ends start gone p' ph' ∧ G p' ph' := by
  induction hrun with
  | refl => exact ⟨ph, hp, hG⟩
  | @tail p₁ p₂ _ hmove ih =>
    obtain ⟨ph₁, hp₁, hG₁⟩ := ih
    obtain ⟨l, hC, hstep⟩ := hmove
    -- a process that has moved may have ended by that
    have hended : ∀ {pid : ℕ} {c : Γ}, (ends c ∧ p₂.prog? pid = none ∧ Phased A ok ends start gone p₂
        (Function.update ph₁ pid gone)) → G p₂ (Function.update ph₁ pid c) →
        ∃ ph', Phased A ok ends start gone p₂ ph' ∧ G p₂ ph' := by
      rintro pid c ⟨hends, hnone, h⟩ hG₂
      refine ⟨_, h, ?_⟩
      have := hend p₂ _ pid hnone (by rwa [Function.update_self]) hG₂
      rwa [Function.update_idem] at this
    cases l with
    | spawn k =>
      obtain ⟨hs, hl, hlen, hq⟩ := step_spawn hstep
      have hph : ph₁ p₁.procs.length = start := by
        have := hp₁ p₁.procs.length
        simpa [prog?] using this
      have hother : ∀ i, i ≠ p₁.procs.length → (i < p₂.procs.length ↔ i < p₁.procs.length) := by
        intro i hi
        omega
      obtain ⟨c, hc, hG₂⟩ := hspawn p₁ p₂ ph₁ k hC hstep hph hG₁
      rcases hp₁.update hc hq (by omega) hother with h | h
      · exact ⟨_, h, hG₂⟩
      · exact hended h hG₂
    | crash pid =>
      obtain ⟨hs, hl, hlen, hpid, hq⟩ := step_crash hstep
      refine ⟨Function.update ph₁ pid gone, fun i => ?_, hcrash p₁ p₂ _ _ hC hstep hp₁ hG₁⟩
      by_cases hi : i = pid
      · subst hi
        simp [hq, hlen, hpid]
      · simp only [hq, if_neg hi, Function.update_of_ne hi, hlen]
        exact hp₁ i
    | act pid a =>
      obtain ⟨r, f, y, h⟩ := step_act hstep
      obtain ⟨hok, hk⟩ := hp₁.of_prog? h.waiting
      obtain ⟨c, hmove, hG₂⟩ := hact p₁ p₂ ph₁ pid a r f y hC hstep hp₁ hG₁ h hok
      have hpid : pid < p₂.procs.length := by
        rw [h.procs]
        exact lt_of_lives (by simp [lives, h.waiting])
      rcases hp₁.update (hk y c hmove) h.resumed hpid (fun i _ => by rw [h.procs]) with h' | h'
      · exact ⟨_, h', hG₂⟩
      · exact hended h' hG₂

/-- The invariant rule where every process starts in the same phase, and `G` is about the shared
state and the log only. -/
theorem phases {G : S → List (Event S Ans Req Reply Exc) → (ℕ → Γ) → Prop}
    (hprog : ∀ p k, C p (.spawn k) → InPhase A ok ends (program k) start)
    (hcrash : ∀ p ph pid, C p (.crash pid) → Phased A ok ends start gone p ph →
      G p.shared p.log ph → G p.shared p.log (Function.update ph pid gone))
    (hend : ∀ s log ph pid, ends (ph pid) → G s log ph → G s log (Function.update ph pid gone))
    (hact : ∀ p p' ph pid a r f y, C p (.act pid a) → p.step answer program (.act pid a) = some p' →
      Phased A ok ends start gone p ph → G p.shared p.log ph → Acts answer p pid a p' r f y →
        ok (ph pid) r → ∃ c, A (ph pid) r y c ∧ G p'.shared p'.log (Function.update ph pid c))
    (hrun : Run answer program C p p') (hp : Phased A ok ends start gone p ph)
    (hG : G p.shared p.log ph) :
    ∃ ph', Phased A ok ends start gone p' ph' ∧ G p'.shared p'.log ph' := by
  refine walk (G := fun p ph => G p.shared p.log ph) ?_ ?_ ?_ hact hrun hp hG
  · intro p p' ph k hC hstep hph hG
    obtain ⟨hs, hl, -⟩ := step_spawn hstep
    refine ⟨start, hprog p k hC, ?_⟩
    rw [hs, hl, ← hph, Function.update_eq_self]
    exact hG
  · intro p p' ph pid hC hstep hph hG
    obtain ⟨hs, hl, -⟩ := step_crash hstep
    rw [hs, hl]
    exact hcrash p ph pid hC hph hG
  · exact fun p ph pid _ hends hG => hend _ _ _ _ hends hG

/-- What no process of the run asks, no process waits for. -/
theorem asks_of_run {P : Req → Prop} (hprog : ∀ p k, C p (.spawn k) → (program k).Asks P)
    (hrun : Run answer program C p p') (hp : p.procs = []) {pid : ℕ} {r : Req}
    (hr : p'.pending pid = some r) : P r := by
  have hstart : Phased (fun (_ : Unit) _ _ _ => True) (fun _ r => P r) (fun _ => True) () () p
      fun _ => () := by
    intro pid
    simp [prog?, hp]
  obtain ⟨ph, hph, -⟩ := phases (G := fun _ _ _ => True)
    (fun p k hC => (hprog p k hC () trivial).mono fun _ _ _ => trivial) (fun _ _ _ _ _ _ => trivial)
    (fun _ _ _ _ _ _ => trivial) (fun _ _ _ _ _ _ _ _ _ _ _ _ _ _ => ⟨(), trivial, trivial⟩) hrun
    hstart trivial
  unfold pending at hr
  split at hr
  · rename_i r' f hwait
    cases hr
    exact (hph.of_prog? hwait).1
  · cases hr

/-! #### Watching one process -/

section Watch

variable {next : Γ → (r : Req) → Except Exc (Reply r) → Γ} {first : K → Γ}

/-- Where an automaton that moves by the replies alone stands now, that has watched the process from
its start, in the state that its kind chooses. -/
def watch (next : Γ → (r : Req) → Except Exc (Reply r) → Γ) (first : K → Γ)
    (p : Pool S K Ans Req Reply Exc) (pid : ℕ) : Option Γ :=
  (p.kind? pid).map fun k => (said pid p.log).foldl (fun c x => next c x.1 x.2) (first k)

lemma said_concat (log : List (Event S Ans Req Reply Exc)) (ev : Event S Ans Req Reply Exc) (pid : ℕ) :
    said pid (log ++ [ev]) =
      if ev.pid = pid then said pid log ++ [⟨ev.req, ev.reply⟩] else said pid log := by
  unfold said
  split <;> simp_all [List.filter_append]

lemma said_eq_nil {log : List (Event S Ans Req Reply Exc)} {n pid : ℕ} (hlog : ∀ ev ∈ log, ev.pid < n)
    (hpid : n ≤ pid) : said pid log = [] := by
  rw [said, List.map_eq_nil_iff, List.filter_eq_nil_iff]
  intro ev hev
  have hlt := hlog ev hev
  have hne : ev.pid ≠ pid := by omega
  simpa using hne

lemma watch_act {pid : ℕ} {a : Ans} {r : Req} {f : Except Exc (Reply r) → Prog Req Reply Exc Unit}
    {y : Except Exc (Reply r)} (hstep : p.step answer program (.act pid a) = some p')
    (h : Acts answer p pid a p' r f y) (q : ℕ) : p'.watch next first q =
      if q = pid then (p.watch next first q).map fun c => next c r y else p.watch next first q := by
  unfold watch
  rw [kind?_act hstep, h.logged, said_concat]
  by_cases hq : pid = q
  · subst hq
    simp [Option.map_map, Function.comp_def]
  · simp [hq, Ne.symm hq]

lemma watch_crash {pid : ℕ} (hstep : p.step answer program (.crash pid) = some p') (q : ℕ) :
    p'.watch next first q = p.watch next first q := by
  unfold watch
  rw [kind?_crash hstep, (step_crash hstep).2.1]

lemma watch_spawn {k : K} (hlog : ∀ ev ∈ p.log, ev.pid < p.procs.length)
    (hstep : p.step answer program (.spawn k) = some p') (q : ℕ) : p'.watch next first q =
      if q = p.procs.length then some (first k) else p.watch next first q := by
  unfold watch
  rw [kind?_spawn hstep, (step_spawn hstep).2.1]
  split
  · rename_i hq
    simp [said_eq_nil hlog hq.ge]
  · rfl

lemma pid_lt (hrun : Run answer program C p p') (hp : p.log = []) :
    ∀ ev ∈ p'.log, ev.pid < p'.procs.length := by
  induction hrun with
  | refl => simp [hp]
  | tail _ hmove ih =>
    obtain ⟨l, -, hstep⟩ := hmove
    cases l with
    | spawn k =>
      obtain ⟨-, hl, hlen, -⟩ := step_spawn hstep
      rw [hl, hlen]
      exact fun ev hev => (ih ev hev).trans (Nat.lt_succ_self _)
    | crash pid =>
      obtain ⟨-, hl, hlen, -⟩ := step_crash hstep
      rw [hl, hlen]
      exact ih
    | act pid a =>
      obtain ⟨r, f, y, h⟩ := step_act hstep
      rw [h.logged, h.procs]
      intro ev hev
      rcases List.mem_append.1 hev with hev | hev
      · exact ih ev hev
      · rw [List.mem_singleton.1 hev]
        exact lt_of_lives (by simp [lives, h.waiting])

/-- How the place of a living process may change: it has not moved, or has been started, or has been
answered. -/
lemma watch_cases {l : Label K Ans} (hlog : ∀ ev ∈ p.log, ev.pid < p.procs.length)
    (hstep : p.step answer program l = some p') {q : ℕ} (hq : p'.lives q) {c' : Γ}
    (hc' : p'.watch next first q = some c') :
    ((∀ a, l ≠ .act q a) ∧ p'.prog? q = p.prog? q ∧ p.watch next first q = some c') ∨
      (∃ k, c' = first k) ∨ ∃ a r f y c, l = .act q a ∧ Acts answer p q a p' r f y ∧
        p.watch next first q = some c ∧ c' = next c r y := by
  cases l with
  | spawn k =>
    obtain ⟨-, -, -, hprog⟩ := step_spawn hstep
    rw [watch_spawn hlog hstep] at hc'
    split at hc'
    · exact .inr (.inl ⟨k, (Option.some.inj hc').symm⟩)
    · rename_i hne
      exact .inl ⟨nofun, by rw [hprog, if_neg hne], hc'⟩
  | crash pid =>
    obtain ⟨-, -, -, -, hprog⟩ := step_crash hstep
    rw [watch_crash hstep] at hc'
    rw [lives, hprog] at hq
    split at hq
    · cases hq
    · rename_i hne
      exact .inl ⟨nofun, by rw [hprog, if_neg hne], hc'⟩
  | act pid a =>
    obtain ⟨r, f, y, h⟩ := step_act hstep
    rw [watch_act hstep h] at hc'
    split at hc'
    · rename_i hpid
      subst hpid
      obtain ⟨c, hc, rfl⟩ := Option.map_eq_some_iff.1 hc'
      exact .inr (.inr ⟨a, r, f, y, c, rfl, h, hc, rfl⟩)
    · rename_i hpid
      refine .inl ⟨?_, by rw [h.resumed, if_neg hpid], hc'⟩
      rintro a' heq
      cases heq
      exact hpid rfl

/-- What becomes of the place of a living process: it does not move, or is killed, or is answered. -/
lemma watch_moves {l : Label K Ans} (hlog : ∀ ev ∈ p.log, ev.pid < p.procs.length)
    (hstep : p.step answer program l = some p') {q : ℕ} (hq : p.lives q) {c : Γ}
    (hc : p.watch next first q = some c) :
    (p'.prog? q = p.prog? q ∧ p'.watch next first q = some c) ∨ l = .crash q ∨
      ∃ a r f y, l = .act q a ∧ Acts answer p q a p' r f y ∧
        p'.watch next first q = some (next c r y) := by
  cases l with
  | spawn k =>
    obtain ⟨-, -, -, hprog⟩ := step_spawn hstep
    have hne : q ≠ p.procs.length := (lt_of_lives hq).ne
    exact .inl ⟨by rw [hprog, if_neg hne], by rw [watch_spawn hlog hstep, if_neg hne, hc]⟩
  | crash pid =>
    obtain ⟨-, -, -, -, hprog⟩ := step_crash hstep
    by_cases hpid : q = pid
    · exact .inr (.inl (by rw [hpid]))
    · exact .inl ⟨by rw [hprog, if_neg hpid], by rw [watch_crash hstep, hc]⟩
  | act pid a =>
    obtain ⟨r, f, y, h⟩ := step_act hstep
    by_cases hpid : q = pid
    · subst hpid
      exact .inr (.inr ⟨a, r, f, y, rfl, h, by rw [watch_act hstep h, if_pos rfl, hc, Option.map_some]⟩)
    · exact .inl ⟨by rw [h.resumed, if_neg hpid], by rw [watch_act hstep h, if_neg hpid, hc]⟩

lemma watch_prod {Γ' : Type} {next' : Γ' → (r : Req) → Except Exc (Reply r) → Γ'} {first' : K → Γ'}
    (p : Pool S K Ans Req Reply Exc) (pid : ℕ) :
    p.watch (fun (c : Γ × Γ') r y => (next c.1 r y, next' c.2 r y)) (fun k => (first k, first' k)) pid =
      (p.watch next first pid).bind fun c => (p.watch next' first' pid).map fun c' => (c, c') := by
  have hfold : ∀ (l : List (Σ r, Except Exc (Reply r))) (c : Γ × Γ'),
      l.foldl (fun c x => (next c.1 x.1 x.2, next' c.2 x.1 x.2)) c =
        (l.foldl (fun c x => next c x.1 x.2) c.1, l.foldl (fun c x => next' c x.1 x.2) c.2) := by
    intro l
    induction l with
    | nil => exact fun c => rfl
    | cons x l ih => exact fun c => ih _
  unfold watch
  cases p.kind? pid with
  | none => rfl
  | some k => simp [hfold]

/-- **Every process is where the automaton that watches it stands**, if the programs keep to it. -/
theorem watched
    (hA : ∀ {p p' pid a r f y} (c : Γ), C p (.act pid a) → Acts answer p pid a p' r f y →
      A c r y (next c r y))
    (hprog : ∀ p k, C p (.spawn k) → InPhase A ok ends (program k) (first k))
    (hrun : Run answer program C p p') (hlog : p.log = []) (hprocs : p.procs = []) {pid : ℕ}
    {q : Prog Req Reply Exc Unit} (hq : p'.prog? pid = some q) :
    ∃ c, p'.watch next first pid = some c ∧ InPhase A ok ends q c := by
  induction hrun generalizing pid q with
  | refl => simp [prog?, hprocs] at hq
  | @tail p₁ p₂ hrun hmove ih =>
    obtain ⟨l, hC, hstep⟩ := hmove
    cases l with
    | spawn k =>
      obtain ⟨-, -, -, hprog?⟩ := step_spawn hstep
      rw [watch_spawn (pid_lt hrun hlog) hstep]
      rw [hprog?] at hq
      split at hq
      · rename_i hpid
        refine ⟨_, if_pos hpid, ?_⟩
        have hk := hprog p₁ k hC
        unfold live at hq
        split at hq
        · cases hq
        · rw [Option.some.inj hq] at hk
          exact hk
      · rename_i hpid
        rw [if_neg hpid]
        exact ih hq
    | crash pid' =>
      obtain ⟨-, -, -, -, hprog?⟩ := step_crash hstep
      rw [watch_crash hstep]
      rw [hprog?] at hq
      split at hq
      · cases hq
      · exact ih hq
    | act pid' a =>
      obtain ⟨r, f, y, h⟩ := step_act hstep
      rw [watch_act hstep h]
      rw [h.resumed] at hq
      split at hq
      · rename_i hpid
        subst hpid
        obtain ⟨c, hc, hkeeps⟩ := ih h.waiting
        refine ⟨next c r y, by rw [if_pos rfl, hc, Option.map_some], ?_⟩
        have hk := hkeeps.2 y _ (hA c hC h)
        unfold live at hq
        split at hq
        · cases hq
        · rw [Option.some.inj hq] at hk
          exact hk
      · rename_i hpid
        rw [if_neg hpid]
        exact ih hq

end Watch

/-- **What a process has said leads from its program to what is left of it.** -/
theorem said_goes (hrun : Run answer program C p p') (hlog : p.log = []) (hprocs : p.procs = [])
    {pid : ℕ} {k : K} (hk : p'.kind? pid = some k) :
    ∃ q, (program k).Goes (said pid p'.log) q ∧ ∀ q', p'.prog? pid = some q' → q' = q := by
  induction hrun with
  | refl => simp [kind?, hprocs] at hk
  | @tail p₁ p₂ hrun hmove ih =>
    obtain ⟨l, -, hstep⟩ := hmove
    cases l with
    | spawn k' =>
      obtain ⟨-, hl, -, hprog⟩ := step_spawn hstep
      rw [kind?_spawn hstep] at hk
      rw [hl]
      simp only [hprog]
      split at hk
      · rename_i hpid
        cases hk
        rw [said_eq_nil (pid_lt hrun hlog) hpid.ge]
        refine ⟨program k, .rest _, fun q' hq' => ?_⟩
        rw [if_pos hpid] at hq'
        exact (ask_of_live hq').1.symm
      · rename_i hpid
        simp only [if_neg hpid]
        exact ih hk
    | crash pid' =>
      obtain ⟨-, hl, -, -, hprog⟩ := step_crash hstep
      rw [kind?_crash hstep] at hk
      obtain ⟨q, hgoes, hq⟩ := ih hk
      rw [hl]
      refine ⟨q, hgoes, fun q' hq' => ?_⟩
      rw [hprog] at hq'
      split at hq'
      · cases hq'
      · exact hq q' hq'
    | act pid' a =>
      obtain ⟨r, f, y, hact⟩ := step_act hstep
      rw [kind?_act hstep] at hk
      obtain ⟨q, hgoes, hq⟩ := ih hk
      rw [hact.logged, said_concat]
      simp only [hact.resumed]
      by_cases hpid : pid = pid'
      · subst hpid
        obtain rfl := hq _ hact.waiting
        simp only [if_true]
        exact ⟨f y, hgoes.concat y, fun q' hq' => (ask_of_live hq').1.symm⟩
      · simp only [if_neg hpid, if_neg (Ne.symm hpid)]
        exact ⟨q, hgoes, hq⟩

/-- An event of the log is of some process, which had come as far as asking for it. -/
lemma event_kind (hrun : Run answer program C p p') (hlog : p.log = []) (hprocs : p.procs = [])
    {l₁ l₂ : List (Event S Ans Req Reply Exc)} {ev : Event S Ans Req Reply Exc}
    (hl : p'.log = l₁ ++ ev :: l₂) : ∃ k f, p'.kind? ev.pid = some k ∧
      (program k).Goes (said ev.pid l₁) (.ask ev.req f) := by
  obtain ⟨p₁, p₂, f, h₁, hC, hstep, hact, hrest, rfl, -⟩ := event_step hrun hlog hl
  obtain ⟨proc, hproc⟩ : ∃ proc, p₁.procs[ev.pid]? = some proc :=
    ⟨_, List.getElem?_eq_getElem (lt_of_lives (by simp [lives, hact.waiting]))⟩
  have hkind : p₁.kind? ev.pid = some proc.kind := by simp [kind?, hproc]
  obtain ⟨q, hgoes, hq⟩ := said_goes h₁ hlog hprocs hkind
  exact ⟨proc.kind, f, hrest.kind? (kind?_stays hstep hkind), (hq _ hact.waiting).symm ▸ hgoes⟩

lemma event_goes (hrun : Run answer program C p p') (hlog : p.log = []) (hprocs : p.procs = [])
    {l₁ l₂ : List (Event S Ans Req Reply Exc)} {ev : Event S Ans Req Reply Exc}
    (hl : p'.log = l₁ ++ ev :: l₂) {k : K} (hk : p'.kind? ev.pid = some k) :
    ∃ f, (program k).Goes (said ev.pid l₁) (.ask ev.req f) := by
  obtain ⟨k', f, hk', hgoes⟩ := event_kind hrun hlog hprocs hl
  obtain rfl := Option.some.inj (hk.symm.trans hk')
  exact ⟨f, hgoes⟩

/-- What the processes of a kind never ask, no process of this kind waits for. -/
theorem asks_of_kind {P : K → Req → Prop} (hprog : ∀ k, (program k).Asks (P k))
    (hrun : Run answer program C p p') (hlog : p.log = []) (hprocs : p.procs = []) {pid : ℕ} {r : Req}
    (hr : p'.pending pid = some r) : ∃ k, p'.kind? pid = some k ∧ P k r := by
  have hstay : ∀ (k : K) (l : List (Σ r, Except Exc (Reply r))), l.foldl (fun c _ => c) k = k := by
    intro k l
    induction l with
    | nil => rfl
    | cons x l ih => exact ih
  obtain ⟨f, hf⟩ := prog?_of_pending hr
  have hphase : ∀ k, InPhase (fun (k : K) _ _ k' => k' = k) P (fun _ => True) (program k) (id k) := by
    intro k
    have hwithin : (program k).Within (fun (k : K) _ _ k' => k' = k) P fun k' => k' = k := by
      refine (hprog k).within ?_ ?_
      · rintro c r rfl hr
        exact hr
      · rintro c r y c' rfl rfl
        rfl
    exact (hwithin k rfl).mono fun _ _ _ => trivial
  obtain ⟨k, hk, hkeeps⟩ := watched (A := fun (k : K) (_ : Req) _ k' => k' = k)
    (fun _ _ _ => rfl) (fun _ k _ => hphase k) hrun hlog hprocs hf
  refine ⟨k, ?_, hkeeps.1⟩
  obtain ⟨k', hk', rfl⟩ := Option.map_eq_some_iff.1 hk
  rw [hk', hstay, id]

end Phases

/-! ### Tokens -/

section Tokens

variable {Γ : Type} {w : Γ → ℕ} {ph : ℕ → Γ} {n m : ℕ}

/-- The processes hold at most `n` tokens together, where one in the phase `c` holds `w c`. -/
def AtMost (w : Γ → ℕ) (ph : ℕ → Γ) (n : ℕ) : Prop := ∀ s : Finset ℕ, ∑ pid ∈ s, w (ph pid) ≤ n

lemma atMost_zero (h : ∀ pid, w (ph pid) = 0) : AtMost w ph 0 := by
  intro s
  simp [h]

lemma AtMost.update (h : AtMost w ph n) {pid : ℕ} {c : Γ} (hn : n + w c ≤ m + w (ph pid)) :
    AtMost w (Function.update ph pid c) m := by
  intro s
  have hrest : ∑ i ∈ s.erase pid, w (Function.update ph pid c i) = ∑ i ∈ s.erase pid, w (ph i) :=
    Finset.sum_congr rfl fun i hi => by rw [Function.update_of_ne (Finset.ne_of_mem_erase hi)]
  have hold : ∑ i ∈ s.erase pid, w (ph i) + w (ph pid) ≤ n := by
    have := h (insert pid (s.erase pid))
    rw [Finset.sum_insert (Finset.notMem_erase pid s)] at this
    omega
  have hnew : ∑ i ∈ s, w (Function.update ph pid c i) ≤ ∑ i ∈ s.erase pid, w (ph i) + w c := by
    by_cases hpid : pid ∈ s
    · rw [← Finset.sum_erase_add s _ hpid, hrest, Function.update_self]
    · rw [← hrest, Finset.erase_eq_of_notMem hpid]
      exact Nat.le_add_right _ _
  omega

lemma AtMost.card_le (h : AtMost w ph n) {s : Finset ℕ} (hs : ∀ pid ∈ s, 1 ≤ w (ph pid)) :
    s.card ≤ n := by
  calc s.card = ∑ _pid ∈ s, 1 := Finset.card_eq_sum_ones s
    _ ≤ ∑ pid ∈ s, w (ph pid) := Finset.sum_le_sum hs
    _ ≤ n := h s

end Tokens

end Pool

end Pyreljob.Lib
