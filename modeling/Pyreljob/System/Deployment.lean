import Pyreljob.Lib.Threads
import Pyreljob.Model.Deployment
import Pyreljob.System.Heartbeat

/-!
A deployment is a run of the system.

Whatever the event loops of the worker processes do, on the database they show nothing but programs of
`Kind`: a claim goes on as the execution of the run that it has won, a pass of the heartbeat is one
program, and so is a tick of a beat. So what holds of every run of the system holds of every deployment.
-/

namespace Pyreljob

open Lib Relation

/-! ### The threads of a member -/

/-- What a program goes on with, once it takes what its call has returned. -/
def heard : Option Receipt → Io Unit → Option (Io Unit)
  | none, q => some q
  | some ⟨db, a⟩, q => q.hear answer db a

def Worker.goOn (w : Worker) : Option RunRow → Io Unit
  | none => pure ()
  | some run => w.execute run

/-- What is left of the program that a thread of the process runs. -/
def Node.thread (n : Node) : Slot → Option (Io Unit)
  | .main => n.claim.bind fun q => Pool.live (q >>= n.worker.goOn)
  | .heartbeat => (heard n.told (Process.pass n.worker n.process.heartbeat)).bind Pool.live
  | .execution k => n.process.executions[k]?.bind fun e =>
      (heard (n.replies k) e.co.erase).bind Pool.live
  | .stray => Pool.live (Process.pass n.worker n.stray)

def Member.thread : Member → Slot → Option (Io Unit)
  | client program, .main => Pool.live program
  | beat b, .main => b.tick.bind Pool.live
  | node n, slot => n.thread slot
  | _, _ => none

lemma Member.thread_node (n : Node) (slot : Slot) : (node n).thread slot = n.thread slot := by
  cases slot <;> rfl

def Deployment.thread (d : Deployment) (t : ℕ × Slot) : Option (Io Unit) :=
  d.members[t.1]?.bind fun m => m.thread t.2

section Members

variable {d d' : Deployment} {p : System} {i : ℕ} {m m' : Member}

lemma Deployment.thread_of (hi : d.members[i]? = some m) (slot : Slot) :
    d.thread (i, slot) = m.thread slot := by
  simp [thread, hi]

lemma Deployment.thread_set (hi : d.members[i]? = some m) (db : DB) (t : ℕ × Slot) :
    Deployment.thread { db := db, members := d.members.set i m' } t =
      if t.1 = i then m'.thread t.2 else d.thread t := by
  have hlt := (List.getElem?_eq_some_iff.1 hi).1
  unfold thread
  by_cases ht : i = t.1
  · rw [← ht, List.getElem?_set_self hlt, if_pos rfl]
    rfl
  · simp [List.getElem?_set_ne ht, Ne.symm ht]

lemma Deployment.thread_append (m : Member) (t : ℕ × Slot) :
    Deployment.thread { d with members := d.members ++ [m] } t =
      if t.1 = d.members.length then m.thread t.2 else d.thread t := by
  unfold thread
  rcases lt_trichotomy t.1 d.members.length with h | h | h
  · simp [List.getElem?_append_left h, h.ne]
  · simp [h]
  · have h₁ : (d.members ++ [m])[t.1]? = none := by
      rw [List.getElem?_eq_none_iff, List.length_append]
      exact h
    have h₂ : d.members[t.1]? = none := List.getElem?_eq_none_iff.2 h.le
    simp [h₁, h₂, h.ne']

lemma carries_set {pid : ℕ × Slot → ℕ} (h : Pool.Carries d.thread pid p)
    (hi : d.members[i]? = some m) (db : DB) (ρ : Slot → Slot)
    (hprog : ∀ slot q, m'.thread slot = some q → m.thread (ρ slot) = some q)
    (hinj : ∀ slot slot', (m'.thread slot).isSome → (m'.thread slot').isSome → ρ slot = ρ slot' →
      slot = slot') :
    ∃ pid, Pool.Carries (Deployment.thread { db := db, members := d.members.set i m' }) pid p := by
  refine ⟨_, h.comap (fun t => if t.1 = i then (i, ρ t.2) else t) ?_ ?_⟩
  · intro t q ht
    rw [Deployment.thread_set hi] at ht
    split at ht
    · rename_i heq
      rw [if_pos heq, Deployment.thread_of hi]
      exact hprog _ _ ht
    · rename_i hne
      rw [if_neg hne]
      exact ht
  · intro t t' ht ht' heq
    rw [Deployment.thread_set hi] at ht ht'
    by_cases h₁ : t.1 = i <;> by_cases h₂ : t'.1 = i
    · rw [if_pos h₁] at ht
      rw [if_pos h₂] at ht'
      rw [if_pos h₁, if_pos h₂] at heq
      exact Prod.ext (h₁.trans h₂.symm) (hinj _ _ ht ht' (congrArg Prod.snd heq))
    · rw [if_pos h₁, if_neg h₂] at heq
      exact absurd (congrArg Prod.fst heq).symm h₂
    · rw [if_neg h₁, if_pos h₂] at heq
      exact absurd (congrArg Prod.fst heq) h₁
    · rwa [if_neg h₁, if_neg h₂] at heq

/-- Where one member has changed in one thread only, the other threads are those that were there. -/
lemma thread_set_other (hi : d.members[i]? = some m) {db : DB} {slot : Slot}
    (hother : ∀ slot' ≠ slot, ∀ q, m'.thread slot' = some q → m.thread slot' = some q) :
    ∀ t ≠ (i, slot), ∀ q, Deployment.thread { db := db, members := d.members.set i m' } t = some q →
      d.thread t = some q := by
  rintro ⟨j, slot'⟩ hne q hq
  rw [Deployment.thread_set hi] at hq
  split at hq
  · rename_i heq
    obtain rfl : j = i := heq
    rw [Deployment.thread_of hi]
    exact hother slot' (fun hs => hne (by rw [hs])) q hq
  · exact hq

lemma carries_act {pid : ℕ × Slot → ℕ} (h : Pool.Carries d.thread pid p)
    (hi : d.members[i]? = some m) {slot : Slot} {r : Req} {f : Except Exc r.Reply → Io Unit}
    (ht : m.thread slot = some (.ask r f)) {a : Answer} {db : DB} {y : Except Exc r.Reply}
    (ha : answer p.shared r a = some (db, y))
    (hself : ∀ q, m'.thread slot = some q → Pool.live (f y) = some q)
    (hother : ∀ slot' ≠ slot, ∀ q, m'.thread slot' = some q → m.thread slot' = some q) :
    ∃ p' : System, Pool.step answer Kind.program p (.act (pid (i, slot)) a) = some p' ∧
      p'.shared = db ∧
      ∃ pid, Pool.Carries (Deployment.thread { db := db, members := d.members.set i m' }) pid p' := by
  have hself' : ∀ q, Deployment.thread { db := db, members := d.members.set i m' } (i, slot) = some q →
      Pool.live (f y) = some q := by
    intro q hq
    rw [Deployment.thread_set hi, if_pos rfl] at hq
    exact hself q hq
  obtain ⟨p', hstep, hs, hp'⟩ := h.act Kind.program ((Deployment.thread_of hi slot).trans ht) ha hself'
    (thread_set_other hi hother)
  exact ⟨p', hstep, hs, pid, hp'⟩

lemma carries_spawn {pid : ℕ × Slot → ℕ} (h : Pool.Carries d.thread pid p)
    (hi : d.members[i]? = some m) (slot : Slot) (k : Kind)
    (hself : ∀ q, m'.thread slot = some q → Pool.live k.program = some q)
    (hother : ∀ slot' ≠ slot, ∀ q, m'.thread slot' = some q → m.thread slot' = some q) :
    ∃ p' : System, Pool.step answer Kind.program p (.spawn k) = some p' ∧ p'.shared = p.shared ∧
      ∃ pid, Pool.Carries (Deployment.thread { d with members := d.members.set i m' }) pid p' := by
  have hself' : ∀ q, Deployment.thread { d with members := d.members.set i m' } (i, slot) = some q →
      Pool.live k.program = some q := by
    intro q hq
    rw [Deployment.thread_set hi, if_pos rfl] at hq
    exact hself q hq
  obtain ⟨p', pid', hstep, hs, hp'⟩ := h.spawn answer Kind.program (i, slot) k hself'
    (thread_set_other hi hother)
  exact ⟨p', hstep, hs, pid', hp'⟩

def Calms (m m' : Member) : Prop :=
  ∃ ρ : Slot → Slot, (∀ slot q, m'.thread slot = some q → m.thread (ρ slot) = some q) ∧
    ∀ slot slot', (m'.thread slot).isSome → (m'.thread slot').isSome → ρ slot = ρ slot' → slot = slot'

lemma Calms.of_same (h : ∀ slot q, m'.thread slot = some q → m.thread slot = some q) : Calms m m' :=
  ⟨id, h, fun _ _ _ _ heq => heq⟩

lemma Calms.of_moved (a b : Slot) (ha : ∀ q, m'.thread a ≠ some q)
    (hb : ∀ q, m'.thread b = some q → m.thread a = some q)
    (hother : ∀ slot ≠ a, slot ≠ b → ∀ q, m'.thread slot = some q → m.thread slot = some q) :
    Calms m m' := by
  refine ⟨fun slot => if slot = b then a else slot, fun slot q hq => ?_,
    fun slot slot' hslot hslot' heq => ?_⟩
  · have hne : slot ≠ a := by
      rintro rfl
      exact ha q hq
    dsimp only
    split
    · rename_i heq
      rw [heq] at hq
      exact hb q hq
    · rename_i hneb
      exact hother slot hne hneb q hq
  · have hne : ∀ slot, (m'.thread slot).isSome → slot ≠ a := by
      rintro slot hslot rfl
      obtain ⟨q, hq⟩ := Option.isSome_iff_exists.1 hslot
      exact ha q hq
    have h₁ := hne slot hslot
    have h₂ := hne slot' hslot'
    dsimp only at heq
    split at heq <;> split at heq
    · rename_i h₁ h₂
      rw [h₁, h₂]
    · exact absurd heq.symm h₂
    · exact absurd heq h₁
    · exact heq

/-- One thread of a member is that of a program which is started. -/
def Starts (m m' : Member) : Prop :=
  ∃ slot, ∃ k : Kind, (∀ q, m'.thread slot = some q → Pool.live k.program = some q) ∧
    ∀ slot' ≠ slot, ∀ q, m'.thread slot' = some q → m.thread slot' = some q

def Answers (db : DB) (a : Answer) (db' : DB) (m m' : Member) : Prop :=
  ∃ slot r f y, m.thread slot = some (.ask r f) ∧ answer db r a = some (db', y) ∧
    (∀ q, m'.thread slot = some q → Pool.live (f y) = some q) ∧
    ∀ slot' ≠ slot, ∀ q, m'.thread slot' = some q → m.thread slot' = some q

end Members

/-! ### The moves of a process -/

section Process

open Process

variable {w : Worker} {maxConcurrency : ℤ} {s s' : Process}

lemma step_main_cases (h : s.step w maxConcurrency .main = some s') :
    s'.executions = s.executions ∧
      (s'.heartbeat = s.heartbeat ∨ s'.heartbeat = .ended ∧ s'.main ≠ .claiming) := by
  obtain ⟨-, h⟩ := step_some h
  change s.onMain maxConcurrency = some s' at h
  unfold onMain at h
  split at h
  · cases h
    split
    · exact ⟨rfl, .inl rfl⟩
    · refine ⟨rfl, .inr ⟨rfl, ?_⟩⟩
      unfold wind
      dsimp only
      split <;> simp
  · cases h
    split <;> exact ⟨rfl, .inl rfl⟩
  · cases h
  · cases h
    exact ⟨rfl, .inl rfl⟩
  · cases h
    exact ⟨rfl, .inl rfl⟩
  · cases h
    exact ⟨rfl, .inl rfl⟩
  · split at h
    · cases h
    · cases h
      exact ⟨rfl, .inl rfl⟩
  · cases h

lemma step_heartbeat_cases (h : s.step w maxConcurrency .heartbeat = some s') :
    s'.executions = s.executions ∧ s.heartbeat.call w = none ∧
      (s'.heartbeat = .visit s.active ∨ s'.heartbeat = .sleeping ∨ s'.heartbeat = .ended) := by
  obtain ⟨-, h⟩ := step_some h
  change s.onHeartbeat = some s' at h
  unfold onHeartbeat at h
  split at h
  · rename_i hb
    cases h
    refine ⟨rfl, by rw [hb]; rfl, .inr ?_⟩
    cases s.running <;> simp
  · rename_i hb
    cases h
    refine ⟨rfl, by rw [hb]; rfl, .inr ?_⟩
    cases s.running <;> simp
  · rename_i hb
    cases h
    exact ⟨rfl, by rw [hb]; rfl, .inl rfl⟩
  all_goals cases h

lemma step_claim {v : Except Exc (Option RunRow)}
    (h : s.step w maxConcurrency (.claim v) = some s') :
    s'.heartbeat = s.heartbeat ∧ ((∃ run, v = .ok (some run) ∧ s'.executions = s.executions ++
      [{ runId := run.id, jobId := run.jobId, co := w.coExecute run }]) ∨
      s'.executions = s.executions) := by
  obtain ⟨-, h⟩ := step_some h
  simp only [Process.move] at h
  split at h
  · cases h
    rcases v with e | _ | run
    · exact ⟨rfl, .inr rfl⟩
    · exact ⟨rfl, .inr rfl⟩
    · exact ⟨rfl, .inl ⟨run, rfl, rfl⟩⟩
  · cases h

lemma co_modify (l : List Execution) (k n : ℕ) {f : Execution → Execution}
    (hf : ∀ e, (f e).co = e.co) :
    (l.modify k f)[n]?.map Execution.co = l[n]?.map Execution.co := by
  rw [List.getElem?_modify]
  split
  · cases l[n]? <;> simp [hf]
  · simp

end Process

/-! ### The moves of a node -/

section Nodes

open Process

variable {n n' : Node}

/-- What has returned is there for somebody who awaits it. -/
structure Node.Sound (n : Node) : Prop where
  replies : ∀ k, n.process.executions.length ≤ k → n.replies k = none
  told : n.told.isSome → (n.process.heartbeat.call n.worker).isSome

lemma pass_of_some {w : Worker} {hb : Heartbeat} {c : Call} (h : hb.call w = some c) :
    ∃ f, pass w hb = .ask (.db c) f := by
  cases hb with
  | asking x rest =>
    cases h
    exact ⟨_, rfl⟩
  | renewing x rest =>
    cases h
    exact ⟨_, rfl⟩
  | _ => cases h

lemma Node.thread_execution (n : Node) (k : ℕ) : n.thread (.execution k) =
    (n.process.executions[k]?.map Execution.co).bind fun co =>
      (heard (n.replies k) co.erase).bind Pool.live := by
  rw [Option.bind_map]
  rfl

lemma thread_execution {k : ℕ} {q : Io Unit}
    (hq : (Member.node n').thread (.execution k) = some q)
    (hco : n'.process.executions[k]?.map Execution.co = n.process.executions[k]?.map Execution.co)
    (hr : n'.replies k = n.replies k) : (Member.node n).thread (.execution k) = some q := by
  rw [Member.thread_node, Node.thread_execution, ← hco, ← hr]
  exact (n'.thread_execution k).symm.trans hq

lemma calms_process {s : Process} (hco : ∀ k : ℕ, s.executions[k]?.map Execution.co =
    n.process.executions[k]?.map Execution.co) (hb : s.heartbeat = n.process.heartbeat) :
    Calms (.node n) (.node { n with process := s }) := by
  refine .of_same fun slot q hq => ?_
  cases slot with
  | main => exact hq
  | heartbeat =>
    change (heard n.told (pass n.worker s.heartbeat)).bind Pool.live = some q at hq
    rwa [hb] at hq
  | execution k =>
    exact thread_execution hq (hco k) rfl
  | stray => exact hq

lemma Node.Sound.length (hn : n.Sound) {s : Process}
    (hlen : s.executions.length = n.process.executions.length)
    (hb : s.heartbeat = n.process.heartbeat) : Node.Sound { n with process := s } where
  replies k hk := hn.replies k (hlen ▸ hk)
  told ht := by
    rw [hb]
    exact hn.told ht

lemma node_stop (hn : n.Sound) (h : n.move .stop = some n') :
    n'.Sound ∧ Calms (.node n) (.node n') := by
  simp only [Node.move] at h
  obtain ⟨s, hs, rfl⟩ := Option.map_eq_some_iff.1 h
  obtain ⟨-, hs⟩ := step_some hs
  cases hs
  exact ⟨hn.length rfl rfl, calms_process (fun _ => rfl) rfl⟩

/-- The main loop claims the next run, or cancels the heartbeat, or touches no thread. -/
lemma node_main (hn : n.Sound) (h : n.move .main = some n') :
    n'.Sound ∧ (Calms (.node n) (.node n') ∨ Starts (.node n) (.node n')) := by
  simp only [Node.move] at h
  obtain ⟨s, hs, rfl⟩ := Option.map_eq_some_iff.1 h
  obtain ⟨hexec, hb⟩ := step_main_cases hs
  by_cases hsame : s.heartbeat = n.process.heartbeat
  · simp only [hsame, if_true, true_or]
    refine ⟨⟨fun k hk => hn.replies k (hexec ▸ hk), fun ht => ?_⟩, ?_⟩
    · dsimp only
      rw [hsame]
      exact hn.told ht
    have hother : ∀ (claim : Option (Io (Option RunRow))) (slot : Slot), slot ≠ .main → ∀ q,
        (Member.node { n with process := s, claim := claim }).thread slot = some q →
          (Member.node n).thread slot = some q := by
      intro claim slot hslot q hq
      cases slot with
      | main => exact absurd rfl hslot
      | heartbeat =>
        change (heard n.told (pass n.worker s.heartbeat)).bind Pool.live = some q at hq
        rwa [hsame] at hq
      | execution k =>
        exact thread_execution hq (by rw [hexec]) rfl
      | stray => exact hq
    by_cases hclaim : s.main = .claiming
    · rw [if_pos hclaim]
      refine .inr ⟨.main, .worker n.worker, fun q hq => ?_, hother _⟩
      rw [Member.thread_node] at hq
      exact hq
    · rw [if_neg hclaim]
      refine .inl (.of_same fun slot q hq => ?_)
      by_cases hslot : slot = .main
      · rw [hslot] at hq ⊢
        exact hq
      · exact hother _ slot hslot q hq
  · obtain ⟨hended, hclaim⟩ := hb.resolve_left hsame
    simp only [hsame, if_false, false_or, hclaim]
    refine ⟨⟨fun k hk => hn.replies k (hexec ▸ hk), fun ht => by cases ht⟩, .inl ?_⟩
    have hheartbeat : ∀ stray q, (Member.node { n with
        process := s, told := none, stray := stray }).thread .heartbeat ≠ some q := by
      intro stray q hq
      change Pool.live (pass n.worker s.heartbeat) = some q at hq
      rw [hended] at hq
      cases hq
    cases ht : n.told with
    | none =>
      -- the call under way is a stray one from now on
      refine .of_moved .heartbeat .stray (hheartbeat _) (fun q hq => ?_) fun slot hslot hstray q hq => ?_
      · change (heard n.told (pass n.worker n.process.heartbeat)).bind Pool.live = some q
        rw [ht]
        exact hq
      · cases slot with
        | main => exact hq
        | heartbeat => exact absurd rfl hslot
        | execution k => exact thread_execution hq (by rw [hexec]) rfl
        | stray => exact absurd rfl hstray
    | some receipt =>
      refine .of_same fun slot q hq => ?_
      cases slot with
      | main | stray => exact hq
      | heartbeat => exact absurd hq (hheartbeat _ q)
      | execution k => exact thread_execution hq (by rw [hexec]) rfl

lemma node_heartbeat (hn : n.Sound) (h : n.move .heartbeat = some n') :
    n'.Sound ∧ Starts (.node n) (.node n') := by
  simp only [Node.move] at h
  obtain ⟨s, hs, rfl⟩ := Option.map_eq_some_iff.1 h
  obtain ⟨hexec, hcall, hb⟩ := step_heartbeat_cases hs
  have htold : n.told = none := by
    by_contra hne
    have := hn.told (Option.isSome_iff_ne_none.2 hne)
    rw [hcall] at this
    cases this
  refine ⟨⟨fun k hk => hn.replies k (hexec ▸ hk), fun ht => ?_⟩, .heartbeat,
    .heartbeat n.worker (n.process.active.map key), fun q hq => ?_, fun slot hslot q hq => ?_⟩
  · rw [show n.told = none from htold] at ht
    cases ht
  · change (heard n.told (pass n.worker s.heartbeat)).bind Pool.live = some q at hq
    rw [htold] at hq
    change Pool.live (pass n.worker s.heartbeat) = some q at hq
    rcases hb with hb | hb | hb
    · rw [hb, pass_visit] at hq
      exact hq
    · rw [hb] at hq
      cases hq
    · rw [hb] at hq
      cases hq
  · cases slot with
    | heartbeat => exact absurd rfl hslot
    | execution k => exact thread_execution hq (by rw [hexec]) rfl
    | main | stray => exact hq

/-- **The run that was claimed is executed** by what was the thread of the claim. -/
lemma node_claimed (hn : n.Sound) (h : n.move .claimed = some n') :
    n'.Sound ∧ Calms (.node n) (.node n') := by
  simp only [Node.move] at h
  split at h
  swap
  · cases h
  rename_i v hclaim
  obtain ⟨s, hs, rfl⟩ := Option.map_eq_some_iff.1 h
  obtain ⟨hb, hexec⟩ := step_claim hs
  have hlen : n.process.executions.length ≤ s.executions.length := by
    rcases hexec with ⟨run, -, hexec⟩ | hexec <;> simp [hexec]
  refine ⟨⟨fun k hk => hn.replies k (hlen.trans hk), fun ht => ?_⟩, ?_⟩
  · dsimp only
    rw [hb]
    exact hn.told ht
  have hmain : ∀ q, (Member.node { n with process := s, claim := none }).thread .main ≠ some q := by
    rintro q ⟨⟩
  refine .of_moved .main (.execution n.process.executions.length) hmain (fun q hq => ?_)
    fun slot hslot hnew q hq => ?_
  · rw [Member.thread_node, Node.thread_execution] at hq
    dsimp only at hq
    rcases hexec with ⟨run, rfl, hexec⟩ | hexec
    · rw [hexec, List.getElem?_concat_length, hn.replies _ le_rfl] at hq
      change Pool.live (n.worker.coExecute run).erase = some q at hq
      rw [Worker.erase_coExecute] at hq
      rw [Member.thread_node, Node.thread, hclaim]
      exact hq
    · rw [hexec, List.getElem?_eq_none_iff.2 le_rfl] at hq
      cases hq
  · cases slot with
    | main => exact absurd rfl hslot
    | heartbeat =>
      change (heard n.told (pass n.worker s.heartbeat)).bind Pool.live = some q at hq
      rw [hb] at hq
      exact hq
    | stray => exact hq
    | execution k =>
      have hk : k ≠ n.process.executions.length := fun heq => hnew (by rw [heq])
      refine thread_execution hq ?_ rfl
      rcases hexec with ⟨run, -, hexec⟩ | hexec
      · rcases lt_or_gt_of_ne hk with hlt | hgt
        · rw [hexec, List.getElem?_append_left hlt]
        · have h₁ : s.executions[k]? = none := by
            rw [hexec, List.getElem?_eq_none_iff, List.length_append]
            exact hgt
          have h₂ : n.process.executions[k]? = none := List.getElem?_eq_none_iff.2 hgt.le
          rw [h₁, h₂]
      · rw [hexec]

/-- The heartbeat loop takes what its call has returned, and goes on as the program of a pass does. -/
lemma node_told {db db' : DB} {a : Answer} {c : Call} {y : Except Exc c.Reply} {s : Process}
    (hn : n.Sound) (ht : n.told = some ⟨db, a⟩) {f : Except Exc c.Reply → Io Unit}
    (hpass : pass n.worker n.process.heartbeat = .ask (.db c) f)
    (ha : answer db (.db c) a = some (db', y))
    (hgoes : Pool.live (f y) = Pool.live (pass n.worker s.heartbeat))
    (hlen : s.executions.length = n.process.executions.length)
    (hco : ∀ k : ℕ, s.executions[k]?.map Execution.co = n.process.executions[k]?.map Execution.co) :
    Node.Sound { n with process := s, told := none } ∧
      Calms (.node n) (.node { n with process := s, told := none }) := by
  refine ⟨⟨fun k hk => hn.replies k (hlen ▸ hk), fun ht => by cases ht⟩, .of_same fun slot q hq => ?_⟩
  cases slot with
  | main | stray => exact hq
  | heartbeat =>
    change Pool.live (pass n.worker s.heartbeat) = some q at hq
    change (heard n.told (pass n.worker n.process.heartbeat)).bind Pool.live = some q
    rw [ht, hpass]
    change (((answer db (.db c) a).map fun x => f x.2).bind Pool.live) = some q
    rw [ha]
    exact hgoes.trans hq
  | execution k => exact thread_execution hq (hco k) rfl

lemma node_beaten (hn : n.Sound) (h : n.move .beaten = some n') :
    n'.Sound ∧ Calms (.node n) (.node n') := by
  simp only [Node.move] at h
  split at h
  · rename_i db a x rest ht hb
    obtain ⟨⟨db', y⟩, ha, h⟩ := Option.bind_eq_some_iff.1 h
    obtain ⟨s, hs, h⟩ := Option.bind_eq_some_iff.1 h
    cases h
    obtain ⟨-, hs⟩ := step_some hs
    simp only [Process.move, hb, Option.some.injEq] at hs
    subst hs
    refine node_told hn ht (by rw [hb]; rfl) ha ?_ ?_ fun k => ?_
    · rcases y with e | _ | _
      · rfl
      · rfl
      · exact congrArg Pool.live (pass_visit rest).symm
    · rcases y with e | _ | _
      · rfl
      · rfl
      · exact List.length_modify ..
    · rcases y with e | _ | _
      · rfl
      · rfl
      · exact co_modify _ _ _ fun _ => rfl
  · rename_i db a x rest ht hb
    obtain ⟨⟨db', y⟩, ha, h⟩ := Option.bind_eq_some_iff.1 h
    obtain ⟨s, hs, h⟩ := Option.bind_eq_some_iff.1 h
    cases h
    obtain ⟨-, hs⟩ := step_some hs
    simp only [Process.move, hb, Option.some.injEq] at hs
    subst hs
    refine node_told hn ht (by rw [hb]; rfl) ha ?_ ?_ fun k => ?_
    · rcases y with e | _ | _
      · rfl
      · exact congrArg Pool.live (pass_visit rest).symm
      · exact congrArg Pool.live (pass_visit rest).symm
    · rcases y with e | _ | _
      · rfl
      · exact List.length_modify ..
      · rfl
    · rcases y with e | _ | _
      · rfl
      · exact co_modify _ _ _ fun _ => rfl
      · rfl
  · cases h

/-- **An execution takes what its call has returned**, and goes on as the program of a worker does. -/
lemma node_resumed (hn : n.Sound) {k : ℕ} (h : n.move (.resumed k) = some n') :
    n'.Sound ∧ Calms (.node n) (.node n') := by
  simp only [Node.move] at h
  obtain ⟨⟨db, a⟩, hreply, h⟩ := Option.bind_eq_some_iff.1 h
  obtain ⟨s, hs, h⟩ := Option.bind_eq_some_iff.1 h
  cases h
  obtain ⟨-, hs⟩ := step_some hs
  obtain ⟨e, x, he, hans, rfl⟩ := onExecution_some hs
  have hlt := (List.getElem?_eq_some_iff.1 he).1
  refine ⟨⟨fun k' hk' => ?_, hn.told⟩, .of_same fun slot q hq => ?_⟩
  · dsimp only at hk' ⊢
    rw [List.length_set] at hk'
    by_cases hkk : k' = k
    · rw [hkk, Function.update_self]
    · rw [Function.update_of_ne hkk]
      exact hn.replies k' hk'
  cases slot with
  | main | heartbeat | stray => exact hq
  | execution k' =>
    by_cases hkk : k' = k
    · subst hkk
      rw [Member.thread_node, Node.thread_execution] at hq ⊢
      dsimp only at hq
      rw [List.getElem?_set_self hlt, Function.update_self] at hq
      change Pool.live (settle _ x.1 e.inside n.process.active).1.erase = some q at hq
      rw [erase_settle] at hq
      rw [he, hreply]
      cases hco : e.co with
      | ret v =>
        rw [hco] at hans
        cases hans
      | ask r f =>
        rw [hco] at hans
        cases r with
        | enter | leave => cases hans
        | io r =>
          obtain ⟨⟨db', y⟩, hanswer, rfl⟩ := Option.map_eq_some_iff.1 hans
          change (heard (some ⟨db, a⟩) e.co.erase).bind Pool.live = some q
          rw [hco]
          change (((answer db r a).map fun x => Co.erase (f x.2)).bind Pool.live) = some q
          rw [hanswer]
          exact hq
    · refine thread_execution hq ?_ (Function.update_of_ne hkk _ _)
      rw [List.getElem?_set_ne (Ne.symm hkk)]

/-! #### The calls -/

lemma awaits_some {k : ℕ} {r : Req} (h : n.awaits k = some r) :
    ∃ e f, n.process.executions[k]? = some e ∧ e.co = .ask (.io r) f := by
  unfold Node.awaits at h
  split at h
  · rename_i r' f hco
    cases h
    obtain ⟨e, he, hco⟩ := Option.map_eq_some_iff.1 hco
    exact ⟨e, f, he, hco⟩
  · cases h

/-- **A thread of a process is answered** as the program that it runs. -/
lemma node_call (hn : n.Sound) {db db' : DB} {a : Answer} {slot : Slot}
    (h : n.call db a slot = some (db', n')) :
    n'.Sound ∧ Answers db a db' (.node n) (.node n') := by
  cases slot with
  | main =>
    simp only [Node.call] at h
    split at h
    · rename_i r f hclaim
      obtain ⟨⟨db₁, y⟩, ha, h⟩ := Option.map_eq_some_iff.1 h
      cases h
      refine ⟨⟨hn.replies, hn.told⟩, .main, r, fun y => f y >>= n.worker.goOn, y, ?_, ha, fun q hq => hq,
        fun slot hslot q hq => ?_⟩
      · rw [Member.thread_node, Node.thread, hclaim]
        rfl
      · cases slot with
        | main => exact absurd rfl hslot
        | heartbeat | execution | stray => exact hq
    · cases h
  | heartbeat =>
    simp only [Node.call] at h
    split at h
    · cases h
    · rename_i ht
      have htold : n.told = none := by simpa using ht
      obtain ⟨c, hc, h⟩ := Option.bind_eq_some_iff.1 h
      obtain ⟨⟨db₁, y⟩, ha, h⟩ := Option.bind_eq_some_iff.1 h
      cases h
      obtain ⟨f, hpass⟩ := pass_of_some hc
      refine ⟨⟨hn.replies, fun _ => by rw [hc]; rfl⟩, .heartbeat, .db c, f, y, ?_, ha, fun q hq => ?_,
        fun slot hslot q hq => ?_⟩
      · rw [Member.thread_node, Node.thread, htold, hpass]
        rfl
      · change ((pass n.worker n.process.heartbeat).hear answer db a).bind Pool.live = some q at hq
        rw [hpass] at hq
        change (((answer db (.db c) a).map fun x => f x.2).bind Pool.live) = some q at hq
        rwa [ha] at hq
      · cases slot with
        | heartbeat => exact absurd rfl hslot
        | main | execution | stray => exact hq
  | execution k =>
    simp only [Node.call] at h
    split at h
    · cases h
    · rename_i hr
      have hreply : n.replies k = none := by simpa using hr
      obtain ⟨r, hr, h⟩ := Option.bind_eq_some_iff.1 h
      obtain ⟨⟨db₁, y⟩, ha, h⟩ := Option.bind_eq_some_iff.1 h
      cases h
      obtain ⟨e, f, he, hco⟩ := awaits_some hr
      have hlt := (List.getElem?_eq_some_iff.1 he).1
      refine ⟨⟨fun k' hk' => ?_, hn.told⟩, .execution k, r, fun y => Co.erase (f y), y, ?_, ha,
        fun q hq => ?_, fun slot hslot q hq => ?_⟩
      · dsimp only at hk' ⊢
        have hne : k' ≠ k := by omega
        rw [Function.update_of_ne hne]
        exact hn.replies k' hk'
      · rw [Member.thread_node, Node.thread_execution, he, hreply]
        change (heard none e.co.erase).bind Pool.live = _
        rw [hco]
        rfl
      · rw [Member.thread_node, Node.thread_execution, he] at hq
        dsimp only at hq
        rw [Function.update_self] at hq
        change (e.co.erase.hear answer db a).bind Pool.live = some q at hq
        rw [hco] at hq
        change (((answer db r a).map fun x => Co.erase (f x.2)).bind Pool.live) = some q at hq
        rwa [ha] at hq
      · cases slot with
        | execution k' =>
          have hne : k' ≠ k := fun heq => hslot (by rw [heq])
          exact thread_execution hq rfl (Function.update_of_ne hne _ _)
        | main | heartbeat | stray => exact hq
  | stray =>
    simp only [Node.call] at h
    obtain ⟨c, hc, h⟩ := Option.bind_eq_some_iff.1 h
    obtain ⟨⟨db₁, y⟩, ha, h⟩ := Option.bind_eq_some_iff.1 h
    cases h
    obtain ⟨f, hpass⟩ := pass_of_some hc
    refine ⟨⟨hn.replies, hn.told⟩, .stray, .db c, f, y, ?_, ha, fun q hq => ?_,
      fun slot hslot q hq => ?_⟩
    · change Pool.live (pass n.worker n.stray) = _
      rw [hpass]
      rfl
    · cases hq
    · cases slot with
      | stray => exact absurd rfl hslot
      | main | heartbeat | execution => exact hq

end Nodes

/-! ### The deployment -/

namespace Deployment

variable {d d' : Deployment} {p : System}

/-- What a deployment has under way, the system does: on the same database, with a process for each
thread. -/
structure Carried (d : Deployment) (p : System) : Prop where
  shared : p.shared = d.db
  threads : ∃ pid, Pool.Carries d.thread pid p
  sound : ∀ n, .node n ∈ d.members → n.Sound

lemma sound_set (h : d.Carried p) {i : ℕ} {m : Member} (hm : ∀ n, m = .node n → n.Sound) :
    ∀ n, .node n ∈ d.members.set i m → n.Sound := by
  intro n hn
  rcases List.mem_or_eq_of_mem_set hn with hn | hn
  · exact h.sound n hn
  · exact hm n hn.symm

/-- A member ends threads, or gives them other names: the system stays. -/
lemma Carried.calms (h : d.Carried p) {i : ℕ} {m m' : Member} (hi : d.members[i]? = some m)
    (hcalms : Calms m m') (hm : ∀ n, m' = .node n → n.Sound) :
    Carried { d with members := d.members.set i m' } p := by
  obtain ⟨pid, hpid⟩ := h.threads
  obtain ⟨ρ, hprog, hinj⟩ := hcalms
  exact ⟨h.shared, carries_set hpid hi d.db ρ hprog hinj, sound_set h hm⟩

lemma Carried.starts (h : d.Carried p) {i : ℕ} {m m' : Member} (hi : d.members[i]? = some m)
    (hstarts : Starts m m') (hm : ∀ n, m' = .node n → n.Sound) :
    ∃ p' : System, (∃ l, System.NewIds p l ∧ Pool.step answer Kind.program p l = some p') ∧
      Carried { d with members := d.members.set i m' } p' := by
  obtain ⟨pid, hpid⟩ := h.threads
  obtain ⟨slot, k, hself, hother⟩ := hstarts
  obtain ⟨p', hstep, hs, hp'⟩ := carries_spawn hpid hi slot k hself hother
  exact ⟨p', ⟨.spawn k, trivial, hstep⟩, hs.trans h.shared, hp', sound_set h hm⟩

lemma Carried.answers (h : d.Carried p) {i : ℕ} {m m' : Member} (hi : d.members[i]? = some m)
    {a : Answer} {db' : DB} (hanswers : Answers d.db a db' m m')
    (hnew : ∀ e, a = .commit e → e.Fresh d.db) (hm : ∀ n, m' = .node n → n.Sound) :
    ∃ p' : System, (∃ l, System.NewIds p l ∧ Pool.step answer Kind.program p l = some p') ∧
      Carried { db := db', members := d.members.set i m' } p' := by
  obtain ⟨pid, hpid⟩ := h.threads
  obtain ⟨slot, r, f, y, ht, ha, hself, hother⟩ := hanswers
  rw [← h.shared] at ha
  obtain ⟨p', hstep, hs, hp'⟩ := carries_act hpid hi ht ha hself hother
  refine ⟨p', ⟨_, ?_, hstep⟩, hs, hp', sound_set h hm⟩
  cases a with
  | commit e =>
    change e.Fresh p.shared
    rw [h.shared]
    exact hnew e rfl
  | _ => trivial

lemma Carried.joins (h : d.Carried p) {m : Member} (hm : ∀ n, m = .node n → n.Sound)
    (hnone : ∀ slot, m.thread slot = none) :
    Carried { d with members := d.members ++ [m] } p := by
  obtain ⟨pid, hpid⟩ := h.threads
  refine ⟨h.shared, ⟨pid, hpid.mono fun t q ht => ?_⟩, fun n hn => ?_⟩
  · rw [thread_append] at ht
    split at ht
    · rw [hnone] at ht
      cases ht
    · exact ht
  · rcases List.mem_append.1 hn with hn | hn
    · exact h.sound n hn
    · exact hm n (List.mem_singleton.1 hn).symm

lemma Carried.client (h : d.Carried p) (k : Kind) :
    ∃ p' : System, (∃ l, System.NewIds p l ∧ Pool.step answer Kind.program p l = some p') ∧
      Carried { d with members := d.members ++ [.client k.program] } p' := by
  obtain ⟨pid, hpid⟩ := h.threads
  have hself : ∀ q, thread { d with members := d.members ++ [.client k.program] }
      (d.members.length, .main) = some q → Pool.live k.program = some q := by
    intro q hq
    rw [thread_append, if_pos rfl] at hq
    exact hq
  have hother : ∀ t ≠ (d.members.length, Slot.main), ∀ q,
      thread { d with members := d.members ++ [.client k.program] } t = some q →
        d.thread t = some q := by
    rintro ⟨j, slot⟩ hne q hq
    rw [thread_append] at hq
    split at hq
    · rename_i heq
      obtain rfl : j = d.members.length := heq
      cases slot with
      | main => exact absurd rfl hne
      | heartbeat | execution | stray => cases hq
    · exact hq
  obtain ⟨p', pid', hstep, hs, hp'⟩ := hpid.spawn answer Kind.program _ k hself hother
  refine ⟨p', ⟨.spawn k, trivial, hstep⟩, hs.trans h.shared, ⟨pid', hp'⟩, fun n hn => ?_⟩
  rcases List.mem_append.1 hn with hn | hn
  · exact h.sound n hn
  · cases List.mem_singleton.1 hn

lemma beat_move {b b' : BeatLoop} {m : BeatMove} (h : b.move m = some b') :
    Calms (.beat b) (.beat b') ∨ Starts (.beat b) (.beat b') := by
  cases m with
  | stop =>
    cases h
    exact .inl (.of_same fun slot q hq => by cases slot <;> exact hq)
  | tick fuel =>
    simp only [BeatLoop.move] at h
    split at h
    · cases h
      refine .inr ⟨.main, .beat b.graceSeconds b.misfireGrace fuel, fun q hq => hq,
        fun slot hslot q hq => ?_⟩
      cases slot with
      | main => exact absurd rfl hslot
      | heartbeat | execution | stray => cases hq
    · cases h
  | slept =>
    simp only [BeatLoop.move] at h
    split at h
    · cases h
      exact .inl (.of_same fun slot q hq => by cases slot <;> cases hq)
    · cases h

lemma node_move {n n' : Node} {m : NodeMove} (hn : n.Sound) (h : n.move m = some n') :
    n'.Sound ∧ (Calms (.node n) (.node n') ∨ Starts (.node n) (.node n')) := by
  cases m with
  | stop => exact (node_stop hn h).imp_right .inl
  | main => exact node_main hn h
  | heartbeat => exact (node_heartbeat hn h).imp_right .inr
  | claimed => exact (node_claimed hn h).imp_right .inl
  | beaten => exact (node_beaten hn h).imp_right .inl
  | resumed k => exact (node_resumed hn h).imp_right .inl

lemma member_call {m m' : Member} (hm : ∀ n, m = .node n → n.Sound) {db db' : DB} {a : Answer}
    {slot : Slot} (h : m.call db a slot = some (db', m')) :
    (∀ n, m' = .node n → n.Sound) ∧ Answers db a db' m m' := by
  cases m with
  | client program =>
    cases program with
    | ret v => cases h
    | ask r f =>
      simp only [Member.call] at h
      split at h
      · obtain ⟨⟨db₁, y⟩, ha, h⟩ := Option.map_eq_some_iff.1 h
        cases h
        refine ⟨fun n hn => (by cases hn), .main, r, f, y, rfl, ha, fun q hq => hq,
          fun slot hslot q hq => ?_⟩
        cases slot with
        | main => exact absurd rfl hslot
        | heartbeat | execution | stray => cases hq
      · cases h
  | beat b =>
    simp only [Member.call] at h
    split at h
    · rename_i r f htick
      split at h
      · obtain ⟨⟨db₁, y⟩, ha, h⟩ := Option.map_eq_some_iff.1 h
        cases h
        refine ⟨fun n hn => (by cases hn), .main, r, f, y, ?_, ha, fun q hq => hq,
          fun slot hslot q hq => ?_⟩
        · change b.tick.bind Pool.live = _
          rw [htick]
          rfl
        · cases slot with
          | main => exact absurd rfl hslot
          | heartbeat | execution | stray => cases hq
      · cases h
    · cases h
  | node n =>
    obtain ⟨⟨db₁, n'⟩, hcall, h⟩ := Option.map_eq_some_iff.1 h
    cases h
    obtain ⟨hn', hanswers⟩ := node_call (hm n rfl) hcall
    refine ⟨fun n hn => ?_, hanswers⟩
    cases hn
    exact hn'
  | gone => cases h

/-- **One step of a deployment is none or one of the system.** -/
theorem Carried.step (h : d.Carried p) {x : Happening} (hx : d.NewIds x) (hs : d.step x = some d') :
    ∃ p', System.Run System.NewIds p p' ∧ d'.Carried p' := by
  have hone : (∃ p' : System, (∃ l, System.NewIds p l ∧
      Pool.step answer Kind.program p l = some p') ∧ d'.Carried p') →
      ∃ p', System.Run System.NewIds p p' ∧ d'.Carried p' := by
    rintro ⟨p', hmove, hp'⟩
    exact ⟨p', .single hmove, hp'⟩
  have hsound : ∀ {i : ℕ} {m : Member}, d.members[i]? = some m → ∀ n, m = .node n → n.Sound := by
    rintro i m hi n rfl
    exact h.sound n (List.mem_of_getElem? hi)
  cases x with
  | client k =>
    simp only [Deployment.step] at hs
    split at hs
    · cases hs
      exact hone (h.client k)
    · cases hs
  | beat g m =>
    cases hs
    refine ⟨p, .refl, h.joins (fun n hn => (by cases hn)) fun slot => ?_⟩
    cases slot <;> rfl
  | node w c =>
    cases hs
    refine ⟨p, .refl, h.joins (fun n hn => ?_) fun slot => ?_⟩
    · cases hn
      exact ⟨fun _ _ => rfl, fun ht => (by cases ht)⟩
    · cases slot <;> rfl
  | beatMove i m =>
    simp only [Deployment.step] at hs
    split at hs
    · rename_i b hi
      obtain ⟨b', hb, rfl⟩ := Option.map_eq_some_iff.1 hs
      rcases beat_move hb with hcalms | hstarts
      · exact ⟨p, .refl, h.calms hi hcalms fun n hn => by cases hn⟩
      · exact hone (h.starts hi hstarts fun n hn => by cases hn)
    · cases hs
  | nodeMove i m =>
    simp only [Deployment.step] at hs
    split at hs
    · rename_i n hi
      obtain ⟨n', hn, rfl⟩ := Option.map_eq_some_iff.1 hs
      obtain ⟨hn', hcalms | hstarts⟩ := node_move (hsound hi n rfl) hn
      · exact ⟨p, .refl, h.calms hi hcalms fun n hn => by cases hn; exact hn'⟩
      · exact hone (h.starts hi hstarts fun n hn => by cases hn; exact hn')
    · cases hs
  | call i slot a =>
    obtain ⟨m, hi, hs⟩ := Option.bind_eq_some_iff.1 hs
    obtain ⟨⟨db', m'⟩, hcall, hs⟩ := Option.bind_eq_some_iff.1 hs
    cases hs
    obtain ⟨hm', hanswers⟩ := member_call (hsound hi) hcall
    refine hone (h.answers hi hanswers ?_ hm')
    rintro e rfl
    exact hx
  | kill i =>
    simp only [Deployment.step] at hs
    split at hs
    · rename_i hlt
      cases hs
      refine ⟨p, .refl, h.calms (List.getElem?_eq_getElem hlt) (.of_same fun slot q hq => ?_)
        fun n hn => by cases hn⟩
      cases slot <;> cases hq
    · cases hs

lemma carried_init : Carried {} System.init where
  shared := rfl
  threads := ⟨fun _ => 0, fun _ _ ht => (by cases ht), fun _ _ ht => (by cases ht)⟩
  sound := fun _ hn => by cases hn

theorem carried_of_reached (h : d.Reached) : ∃ p : System, p.Reached System.NewIds ∧ d.Carried p := by
  induction h with
  | refl => exact ⟨System.init, .refl, carried_init⟩
  | tail _ hstep ih =>
    obtain ⟨p, hp, hcarried⟩ := ih
    obtain ⟨x, hx, hs⟩ := hstep
    obtain ⟨p', hrun, hp'⟩ := hcarried.step hx hs
    exact ⟨p', hp.trans hrun, hp'⟩

/-! #### The processes -/

lemma process_of_move {n n' : Node} {m : NodeMove} (h : n.move m = some n') :
    n'.worker = n.worker ∧ n'.maxConcurrency = n.maxConcurrency ∧
      ∃ m', n.step m' = some n'.process := by
  cases m with
  | stop | main | heartbeat =>
    simp only [Node.move] at h
    obtain ⟨s, hs, rfl⟩ := Option.map_eq_some_iff.1 h
    exact ⟨rfl, rfl, _, hs⟩
  | claimed =>
    simp only [Node.move] at h
    split at h
    · obtain ⟨s, hs, rfl⟩ := Option.map_eq_some_iff.1 h
      exact ⟨rfl, rfl, _, hs⟩
    · cases h
  | beaten =>
    simp only [Node.move] at h
    split at h
    · obtain ⟨_, -, h⟩ := Option.bind_eq_some_iff.1 h
      obtain ⟨s, hs, h⟩ := Option.bind_eq_some_iff.1 h
      cases h
      exact ⟨rfl, rfl, _, hs⟩
    · obtain ⟨_, -, h⟩ := Option.bind_eq_some_iff.1 h
      obtain ⟨s, hs, h⟩ := Option.bind_eq_some_iff.1 h
      cases h
      exact ⟨rfl, rfl, _, hs⟩
    · cases h
  | resumed k =>
    simp only [Node.move] at h
    obtain ⟨_, -, h⟩ := Option.bind_eq_some_iff.1 h
    obtain ⟨s, hs, h⟩ := Option.bind_eq_some_iff.1 h
    cases h
    exact ⟨rfl, rfl, _, hs⟩

lemma process_of_call {n n' : Node} {db db' : DB} {a : Answer} {slot : Slot}
    (h : n.call db a slot = some (db', n')) :
    n'.worker = n.worker ∧ n'.maxConcurrency = n.maxConcurrency ∧ n'.process = n.process := by
  cases slot with
  | main =>
    simp only [Node.call] at h
    split at h
    · obtain ⟨_, -, h⟩ := Option.map_eq_some_iff.1 h
      cases h
      exact ⟨rfl, rfl, rfl⟩
    · cases h
  | heartbeat | execution k =>
    simp only [Node.call] at h
    split at h
    · cases h
    · obtain ⟨_, -, h⟩ := Option.bind_eq_some_iff.1 h
      obtain ⟨_, -, h⟩ := Option.bind_eq_some_iff.1 h
      cases h
      exact ⟨rfl, rfl, rfl⟩
  | stray =>
    simp only [Node.call] at h
    obtain ⟨_, -, h⟩ := Option.bind_eq_some_iff.1 h
    obtain ⟨_, -, h⟩ := Option.bind_eq_some_iff.1 h
    cases h
    exact ⟨rfl, rfl, rfl⟩

def Runs (n : Node) : Prop :=
  Process.Reached n.worker n.maxConcurrency (fun _ _ => True) n.process

lemma node_of_call {db db' : DB} {a : Answer} {slot : Slot} {m : Member} {n' : Node}
    (h : m.call db a slot = some (db', .node n')) :
    ∃ n, m = .node n ∧ n.call db a slot = some (db', n') := by
  cases m with
  | node n =>
    obtain ⟨⟨db₁, n₁⟩, hnode, heq⟩ := Option.map_eq_some_iff.1 h
    cases heq
    exact ⟨n, rfl, hnode⟩
  | client program =>
    cases program with
    | ret v => cases h
    | ask r f =>
      simp only [Member.call] at h
      split at h
      · obtain ⟨_, -, heq⟩ := Option.map_eq_some_iff.1 h
        cases heq
      · cases h
  | beat b =>
    simp only [Member.call] at h
    split at h
    · split at h
      · obtain ⟨_, -, heq⟩ := Option.map_eq_some_iff.1 h
        cases heq
      · cases h
    · cases h
  | gone => cases h

/-- Where a worker process comes from: it has just been started, is as before, has moved, or has had a
call answered. -/
lemma node_of_step {x : Happening} (hs : d.step x = some d') {i : ℕ} {n' : Node}
    (hi : d'.members[i]? = some (.node n')) :
    (d.members[i]? = none ∧ ∃ w c, n' = { worker := w, maxConcurrency := c }) ∨
      d.members[i]? = some (.node n') ∨
      (∃ n m, d.members[i]? = some (.node n) ∧ n.move m = some n' ∧ d'.db = d.db) ∨
      ∃ n slot a, d.members[i]? = some (.node n) ∧ n.call d.db a slot = some (d'.db, n') := by
  have hset : ∀ {j m}, (d.members.set j m)[i]? = some (.node n') →
      d.members[i]? = some (.node n') ∨ j = i ∧ m = .node n' := by
    intro j m hm
    rw [List.getElem?_set] at hm
    split at hm
    · rename_i hj
      split at hm
      · exact .inr ⟨hj, Option.some.inj hm⟩
      · cases hm
    · exact .inl hm
  have happend : ∀ {m}, (d.members ++ [m])[i]? = some (.node n') →
      d.members[i]? = some (.node n') ∨ d.members[i]? = none ∧ m = .node n' := by
    intro m hm
    rw [List.getElem?_append] at hm
    split at hm
    · exact .inl hm
    · rename_i hlt
      rw [List.getElem?_singleton] at hm
      split at hm
      · exact .inr ⟨List.getElem?_eq_none_iff.2 (Nat.le_of_not_lt hlt), Option.some.inj hm⟩
      · cases hm
  cases x with
  | client k =>
    simp only [Deployment.step] at hs
    split at hs
    · cases hs
      rcases happend hi with hwas | ⟨-, heq⟩
      · exact .inr (.inl hwas)
      · cases heq
    · cases hs
  | beat g m =>
    cases hs
    rcases happend hi with hwas | ⟨-, heq⟩
    · exact .inr (.inl hwas)
    · cases heq
  | node w c =>
    cases hs
    rcases happend hi with hwas | ⟨hnone, heq⟩
    · exact .inr (.inl hwas)
    · cases heq
      exact .inl ⟨hnone, w, c, rfl⟩
  | beatMove j m =>
    simp only [Deployment.step] at hs
    split at hs
    · obtain ⟨b', -, rfl⟩ := Option.map_eq_some_iff.1 hs
      rcases hset hi with hwas | ⟨-, heq⟩
      · exact .inr (.inl hwas)
      · cases heq
    · cases hs
  | nodeMove j m =>
    simp only [Deployment.step] at hs
    split at hs
    · rename_i n hn
      obtain ⟨n₁, hm, rfl⟩ := Option.map_eq_some_iff.1 hs
      rcases hset hi with hwas | ⟨rfl, heq⟩
      · exact .inr (.inl hwas)
      · cases heq
        exact .inr (.inr (.inl ⟨n, m, hn, hm, rfl⟩))
    · cases hs
  | call j slot a =>
    obtain ⟨m, hm, hs⟩ := Option.bind_eq_some_iff.1 hs
    obtain ⟨⟨db', m'⟩, hcall, hs⟩ := Option.bind_eq_some_iff.1 hs
    cases hs
    rcases hset hi with hwas | ⟨rfl, rfl⟩
    · exact .inr (.inl hwas)
    · obtain ⟨n, rfl, hnode⟩ := node_of_call hcall
      exact .inr (.inr (.inr ⟨n, slot, a, hm, hnode⟩))
  | kill j =>
    simp only [Deployment.step] at hs
    split at hs
    · cases hs
      rcases hset hi with hwas | ⟨-, heq⟩
      · exact .inr (.inl hwas)
      · cases heq
    · cases hs

lemma runs_of_step (h : ∀ n, .node n ∈ d.members → Runs n) {x : Happening} (hs : d.step x = some d') :
    ∀ n, .node n ∈ d'.members → Runs n := by
  intro n' hn'
  obtain ⟨i, hi⟩ := List.getElem?_of_mem hn'
  rcases node_of_step hs hi with ⟨-, w, c, rfl⟩ | hwas | ⟨n, m, hn, hm, -⟩ | ⟨n, slot, a, hn, hcall⟩
  · exact .refl
  · exact h n' (List.mem_of_getElem? hwas)
  · obtain ⟨hw, hc, m', hstep⟩ := process_of_move hm
    unfold Runs
    rw [hw, hc]
    exact (h n (List.mem_of_getElem? hn)).tail ⟨m', trivial, hstep⟩
  · obtain ⟨hw, hc, hp⟩ := process_of_call hcall
    unfold Runs
    rw [hw, hc, hp]
    exact h n (List.mem_of_getElem? hn)

lemma runs_of_reached (h : d.Reached) : ∀ n, .node n ∈ d.members → Runs n := by
  induction h with
  | refl => exact fun n hn => by cases hn
  | tail _ hstep ih =>
    obtain ⟨x, -, hs⟩ := hstep
    exact runs_of_step ih hs

/-- **A deployment is a run of the system, and its worker processes are processes**: whatever the
event loops, the threads, the beats and the clients do, and whoever is killed, the database is one that
the system can reach, and every worker process is in a state that its own moves lead to. -/
theorem deployment_refines (h : d.Reached) :
    (∃ p : System, p.Reached System.NewIds ∧ p.shared = d.db) ∧
      ∀ n, .node n ∈ d.members →
        Process.Reached n.worker n.maxConcurrency (fun _ _ => True) n.process := by
  obtain ⟨p, hp, hcarried⟩ := carried_of_reached h
  exact ⟨⟨p, hp, hcarried.shared⟩, runs_of_reached h⟩

/-! #### A deployment -/

instance (d : Deployment) : DecidablePred d.NewIds
  | .call _ _ (.commit e) => inferInstanceAs (Decidable (e.Fresh d.db))
  | .client _ | .beat .. | .node .. | .beatMove .. | .nodeMove .. | .kill _ | .call _ _ (.fail _)
  | .call _ _ (.time _) | .call _ _ (.lastClaim _) | .call _ _ (.ran _ _) | .call _ _ (.undone _ _)
  | .call _ _ (.next _) => .isTrue trivial

/-- Steps one after the other, with new keys. -/
def play : Deployment → List Happening → Option Deployment
  | d, [] => some d
  | d, x :: xs => if d.NewIds x then (d.step x).bind fun d' => play d' xs else none

lemma reached_of_play {xs : List Happening} (hd : d.Reached) (h : d.play xs = some d') :
    d'.Reached := by
  induction xs generalizing d with
  | nil =>
    cases h
    exact hd
  | cons x xs ih =>
    simp only [play] at h
    split at h
    · rename_i hx
      obtain ⟨d₁, hs, hrest⟩ := Option.bind_eq_some_iff.1 h
      exact ih (hd.tail ⟨x, hx, hs⟩) hrest
    · cases h

/-- A client enqueues a job, and a worker process claims its run and begins to execute it, with the
heartbeat asleep. -/
def working : List Happening :=
  [.client (.enqueue { job := "m.J" } none), .call 0 .main (committed 0),
    .node (.named "A") 1, .nodeMove 1 .main, .nodeMove 1 .main, .call 1 .main (.time (seconds 1)),
    .call 1 .main (.time (seconds 1)), .call 1 .main (committed 1), .call 1 .main (committed 1),
    .nodeMove 1 .claimed, .nodeMove 1 .main, .nodeMove 1 .heartbeat,
    .call 1 (.execution 0) (committed 1), .nodeMove 1 (.resumed 0),
    .call 1 (.execution 0) (committed 1), .nodeMove 1 (.resumed 0)]

def executing : Member → Bool
  | .node n => n.process.executions[0]?.any Execution.unfinished
  | .client _ | .beat _ | .gone => false

theorem deployment_refines_working : ∃ (d : Deployment) (p : System),
    p.Reached System.NewIds ∧ p.shared = d.db ∧
      (d.db.runs.get? 0).any (fun r => r.status = .running ∧ r.workerId = some "A") = true ∧
      ∃ n, .node n ∈ d.members ∧ (∃ e, n.process.executions[0]? = some e ∧ e.unfinished) ∧
        Process.Reached n.worker n.maxConcurrency (fun _ _ => True) n.process := by
  have hall : ((play {} working).any fun d =>
      ((d.db.runs.get? 0).any fun r => r.status = .running ∧ r.workerId = some "A") &&
        d.members[1]?.any executing) = true := by decide
  obtain ⟨d, hd, hstate⟩ := (Option.any_eq_true _ _).1 hall
  obtain ⟨hrun, hmember⟩ := Bool.and_eq_true_iff.1 hstate
  obtain ⟨m, hm, hexec⟩ := (Option.any_eq_true _ _).1 hmember
  cases m with
  | node n =>
    have hmem : .node n ∈ d.members := List.mem_of_getElem? hm
    obtain ⟨⟨p, hp, hshared⟩, hprocess⟩ := deployment_refines (reached_of_play .refl hd)
    exact ⟨d, p, hp, hshared, hrun, n, hmem, (Option.any_eq_true _ _).1 hexec, hprocess n hmem⟩
  | client | beat | gone => cases hexec

end Deployment

end Pyreljob
