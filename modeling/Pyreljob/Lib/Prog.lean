import Mathlib.Logic.Basic

/-!
Programs that talk to their surroundings through requests, and how to reason about them.

A `Prog` is the tree of a sequential program: it has ended, with a value or with an exception that
nobody caught, or it asks for something and goes on with the reply. What a request does is not part
of the program. It is given from outside, by a relation that says which replies a request may get
in a state and what state it leaves, so one program can be run alone, run among others, or cut off
anywhere.

`Keeps` is the one judgement everything else rests on. An automaton watches the program: `A` says how
it moves at an answered request, `ok` which requests it lets through in which of its states. If the
states are those of the surroundings and `A` is what requests do to them, this is a weakest
precondition; if `A` is a function of the reply alone it is a protocol the program keeps to, and
stays true whatever other programs do in between.
-/

namespace Pyreljob.Lib

/-- A program that asks requests `Req`, gets replies `Reply`, raises `Exc`, and returns an `α`. -/
inductive Prog (Req : Type) (Reply : Req → Type) (Exc : Type) (α : Type) : Type
  /-- The program has ended: it returned, or an exception left it. -/
  | ret (v : Except Exc α)
  /-- The program waits for the answer to `r`; the answer is a reply or an exception. -/
  | ask (r : Req) (k : Except Exc (Reply r) → Prog Req Reply Exc α)

namespace Prog

variable {Req : Type} {Reply : Req → Type} {Exc : Type} {α β : Type}

/-- Sequencing: an exception skips what follows. -/
protected def bind : Prog Req Reply Exc α → (α → Prog Req Reply Exc β) → Prog Req Reply Exc β
  | .ret (.ok a), f => f a
  | .ret (.error e), _ => .ret (.error e)
  | .ask r k, f => .ask r fun y => (k y).bind f

protected def tryCatch :
    Prog Req Reply Exc α → (Exc → Prog Req Reply Exc α) → Prog Req Reply Exc α
  | .ret (.ok a), _ => .ret (.ok a)
  | .ret (.error e), h => h e
  | .ask r k, h => .ask r fun y => (k y).tryCatch h

/-- `try: p finally: q`: what `p` returned or raised is passed on once `q` has ended. -/
def tryFinally : Prog Req Reply Exc α → Prog Req Reply Exc Unit → Prog Req Reply Exc α
  | .ret v, q => q.bind fun _ => .ret v
  | .ask r k, q => .ask r fun y => (k y).tryFinally q

instance : Monad (Prog Req Reply Exc) where
  pure a := .ret (.ok a)
  bind := Prog.bind

instance : MonadExceptOf Exc (Prog Req Reply Exc) where
  throw e := .ret (.error e)
  tryCatch := Prog.tryCatch

/-- Ask one request and return its reply; an exception in the answer is raised here. -/
def call (r : Req) : Prog Req Reply Exc (Reply r) := .ask r .ret

def waiting : Prog Req Reply Exc α → Bool
  | .ret _ => false
  | .ask _ _ => true

@[simp] lemma pure_eq (a : α) : (pure a : Prog Req Reply Exc α) = .ret (.ok a) := rfl

lemma bind_pure (p : Prog Req Reply Exc α) : p >>= pure = p := by
  induction p with
  | ret v => cases v <;> rfl
  | ask r k ih => exact congrArg (ask r) (funext ih)

/-! ### Watching a program -/

section Keeps

variable {C : Type}
variable (A : C → (r : Req) → Except Exc (Reply r) → C → Prop) (ok : C → Req → Prop)

/-- **The program keeps to the automaton.** Started where the automaton is in `c`, every request it
asks is `ok`, whatever the replies, and it ends only where `Q` holds. -/
def Keeps : Prog Req Reply Exc α → (Except Exc α → C → Prop) → C → Prop
  | .ret v, Q, c => Q v c
  | .ask r k, Q, c => ok c r ∧ ∀ y c', A c r y c' → Keeps (k y) Q c'

/-- What a sequel `f` needs: an exception is passed on, a value is given to `f`. -/
def seqPost (f : α → Prog Req Reply Exc β) (Q : Except Exc β → C → Prop) : Except Exc α → C → Prop
  | .ok a, c => Keeps A ok (f a) Q c
  | .error e, c => Q (.error e) c

/-- What a handler `h` needs: a value is passed on, an exception is given to `h`. -/
def catchPost (h : Exc → Prog Req Reply Exc α) (Q : Except Exc α → C → Prop) :
    Except Exc α → C → Prop
  | .ok a, c => Q (.ok a) c
  | .error e, c => Keeps A ok (h e) Q c

variable {A ok}

@[simp] lemma keeps_ret (v : Except Exc α) (Q : Except Exc α → C → Prop) (c : C) :
    Keeps A ok (.ret v) Q c ↔ Q v c := Iff.rfl

@[simp] lemma seqPost_ok (f : α → Prog Req Reply Exc β) (Q : Except Exc β → C → Prop) (a : α)
    (c : C) : seqPost A ok f Q (.ok a) c ↔ Keeps A ok (f a) Q c := Iff.rfl

@[simp] lemma seqPost_error (f : α → Prog Req Reply Exc β) (Q : Except Exc β → C → Prop) (e : Exc)
    (c : C) : seqPost A ok f Q (.error e) c ↔ Q (.error e) c := Iff.rfl

/-- A weaker postcondition. -/
theorem Keeps.mono {p : Prog Req Reply Exc α} {Q Q' : Except Exc α → C → Prop} {c : C}
    (hp : Keeps A ok p Q c) (h : ∀ v c, Q v c → Q' v c) : Keeps A ok p Q' c := by
  induction p generalizing c with
  | ret v => exact h v c hp
  | ask r k ih => exact ⟨hp.1, fun y c' hA => ih y (hp.2 y c' hA)⟩

/-- **Sequencing.** -/
theorem Keeps.bind {p : Prog Req Reply Exc α} {f : α → Prog Req Reply Exc β}
    {Q : Except Exc β → C → Prop} {c : C} (hp : Keeps A ok p (seqPost A ok f Q) c) :
    Keeps A ok (p >>= f) Q c := by
  induction p generalizing c with
  | ret v => cases v <;> exact hp
  | ask r k ih => exact ⟨hp.1, fun y c' hA => ih y (hp.2 y c' hA)⟩

/-- The same with what `p` is known to leave. -/
theorem Keeps.then_bind {p : Prog Req Reply Exc α} {f : α → Prog Req Reply Exc β}
    {R : Except Exc α → C → Prop} {Q : Except Exc β → C → Prop} {c : C} (hp : Keeps A ok p R c)
    (hraise : ∀ e c', R (.error e) c' → Q (.error e) c')
    (hf : ∀ a c', R (.ok a) c' → Keeps A ok (f a) Q c') : Keeps A ok (p >>= f) Q c := by
  refine .bind (hp.mono ?_)
  rintro (e | a) c' h
  · exact hraise e c' h
  · exact hf a c' h

/-- **Handling an exception.** -/
theorem Keeps.tryCatch {p : Prog Req Reply Exc α} {h : Exc → Prog Req Reply Exc α}
    {Q : Except Exc α → C → Prop} {c : C} (hp : Keeps A ok p (catchPost A ok h Q) c) :
    Keeps A ok (tryCatch p h) Q c := by
  induction p generalizing c with
  | ret v => cases v <;> exact hp
  | ask r k ih => exact ⟨hp.1, fun y c' hA => ih y (hp.2 y c' hA)⟩

/-- One request, then `f`; an exception in the answer ends the program. -/
theorem Keeps.call_bind {r : Req} {f : Reply r → Prog Req Reply Exc β}
    {Q : Except Exc β → C → Prop} {c : C} (hok : ok c r)
    (hraise : ∀ e c', A c r (.error e) c' → Q (.error e) c')
    (hreply : ∀ a c', A c r (.ok a) c' → Keeps A ok (f a) Q c') :
    Keeps A ok (call r >>= f) Q c := by
  refine ⟨hok, fun y c' hA => ?_⟩
  cases y with
  | error e => exact hraise e c' hA
  | ok a => exact hreply a c' hA

/-- Where nothing is refused, any program may run. -/
theorem Keeps.of_inv {I : C → Prop} (hok : ∀ c r, I c → ok c r)
    (hA : ∀ c r y c', I c → A c r y c' → I c') (p : Prog Req Reply Exc α) {c : C} (hc : I c) :
    Keeps A ok p (fun _ c => I c) c := by
  induction p generalizing c with
  | ret v => exact hc
  | ask r k ih => exact ⟨hok c r hc, fun y c' hmove => ih y (hA c r y c' hc hmove)⟩

/-- One request, and no more. -/
theorem Keeps.call {r : Req} {Q : Except Exc (Reply r) → C → Prop} {c : C} (hok : ok c r)
    (h : ∀ y c', A c r y c' → Q y c') : Keeps A ok (call r) Q c :=
  ⟨hok, fun y c' hA => h y c' hA⟩

/-- The automaton that goes where `next` says whenever a reply comes back that `V` allows. -/
def Moving (V : C → (r : Req) → Except Exc (Reply r) → Prop)
    (next : C → (r : Req) → Except Exc (Reply r) → C) (c : C) (r : Req) (y : Except Exc (Reply r))
    (c' : C) : Prop :=
  V c r y ∧ c' = next c r y

section Moving

variable {V : C → (r : Req) → Except Exc (Reply r) → Prop}
  {next : C → (r : Req) → Except Exc (Reply r) → C}

/-- One request, then `f`. -/
theorem Keeps.ask {r : Req} {f : Reply r → Prog Req Reply Exc β} {Q : Except Exc β → C → Prop} {c : C}
    (hok : ok c r) (hraise : ∀ e, Q (.error e) (next c r (.error e)))
    (hreply : ∀ a, V c r (.ok a) → Keeps (Moving V next) ok (f a) Q (next c r (.ok a))) :
    Keeps (Moving V next) ok (Prog.call r >>= f) Q c := by
  refine .call_bind hok ?_ ?_
  · rintro e _ ⟨-, rfl⟩
    exact hraise e
  · rintro a _ ⟨hv, rfl⟩
    exact hreply a hv

theorem Keeps.last {r : Req} {Q : Except Exc (Reply r) → C → Prop} {c : C} (hok : ok c r)
    (h : ∀ y, Q y (next c r y)) : Keeps (Moving V next) ok (Prog.call r) Q c := by
  refine .call hok ?_
  rintro y _ ⟨-, rfl⟩
  exact h y

end Moving

/-! ### Where the automaton stays -/

/-- Wherever in `I` the automaton is when the program begins, nothing that the program asks is
refused, and the automaton is still in `I` when it ends. -/
def Within (A : C → (r : Req) → Except Exc (Reply r) → C → Prop) (ok : C → Req → Prop) (I : C → Prop)
    (p : Prog Req Reply Exc α) : Prop :=
  ∀ c, I c → Keeps A ok p (fun _ c => I c) c

section Within

variable {I : C → Prop}

lemma Within.ret (v : Except Exc α) : Within A ok I (.ret v : Prog Req Reply Exc α) := fun _ h => h

/-- Sequencing. -/
theorem Within.bind {p : Prog Req Reply Exc α} {f : α → Prog Req Reply Exc β}
    (hp : Within A ok I p) (hf : ∀ a, Within A ok I (f a)) : Within A ok I (p >>= f) :=
  fun c hc => (hp c hc).then_bind (fun _ _ hc' => hc') fun a c' hc' => hf a c' hc'

/-- Handling an exception. -/
theorem Within.tryCatch {p : Prog Req Reply Exc α} {h : Exc → Prog Req Reply Exc α}
    (hp : Within A ok I p) (hh : ∀ e, Within A ok I (h e)) :
    Within A ok I (Prog.tryCatch p h) := by
  intro c hc
  refine .tryCatch ((hp c hc).mono ?_)
  rintro (e | a) c' hc'
  · exact hh e c' hc'
  · exact hc'

/-- One request, and no more. -/
theorem Within.call {r : Req} (hok : ∀ c, I c → ok c r)
    (hA : ∀ c y c', I c → A c r y c' → I c') : Within A ok I (Prog.call r) :=
  fun c hc => .call (hok c hc) fun y c' hmove => hA c y c' hc hmove

/-- One request, then `f`, which may rely on what the reply says. -/
theorem Within.ask {r : Req} {f : Reply r → Prog Req Reply Exc β} (hok : ∀ c, I c → ok c r)
    (hA : ∀ c y c', I c → A c r y c' → I c')
    (hf : ∀ a c c', I c → A c r (.ok a) c' → Within A ok I (f a)) :
    Within A ok I (Prog.call r >>= f) := by
  intro c hc
  refine .call_bind (hok c hc) (fun e c' hmove => hA c _ c' hc hmove) fun a c' hmove => ?_
  exact hf a c c' hc hmove c' (hA c _ c' hc hmove)

/-- A program that stays in `I`, then `f`. -/
theorem Within.then_bind {p : Prog Req Reply Exc α} {f : α → Prog Req Reply Exc β}
    {Q : Except Exc β → C → Prop} {c : C} (hp : Within A ok I p) (hc : I c)
    (hraise : ∀ e c', I c' → Q (.error e) c') (hf : ∀ a c', I c' → Keeps A ok (f a) Q c') :
    Keeps A ok (p >>= f) Q c :=
  (hp c hc).then_bind hraise hf

end Within

/-- **Requests that may be asked in `I`**: where `I` holds, a request that `P` allows is not refused, and
`I` holds after it. -/
structure Closed (A : C → (r : Req) → Except Exc (Reply r) → C → Prop) (ok : C → Req → Prop)
    (I : C → Prop) (P : C → Req → Prop) : Prop where
  ok : ∀ c r, I c → P c r → ok c r
  stays : ∀ c r y c', I c → P c r → A c r y c' → I c'

namespace Closed

variable {I : C → Prop} {P : C → Req → Prop}

/-- One request, then `f`, which may rely on what the reply says. -/
theorem then_ask (h : Closed A ok I P) {r : Req} {f : Reply r → Prog Req Reply Exc β}
    {Q : Except Exc β → C → Prop} {c : C} (hc : I c) (hr : P c r)
    (hraise : ∀ e c', I c' → A c r (.error e) c' → Q (.error e) c')
    (hf : ∀ a c', I c' → A c r (.ok a) c' → Keeps A ok (f a) Q c') :
    Keeps A ok (Prog.call r >>= f) Q c :=
  .call_bind (h.ok c r hc hr) (fun e c' hmove => hraise e c' (h.stays c r _ c' hc hr hmove) hmove)
    fun a c' hmove => hf a c' (h.stays c r _ c' hc hr hmove) hmove

theorem then_last (h : Closed A ok I P) {r : Req} {Q : Except Exc (Reply r) → C → Prop} {c : C}
    (hc : I c) (hr : P c r) (hQ : ∀ y c', I c' → A c r y c' → Q y c') :
    Keeps A ok (Prog.call r) Q c :=
  .call (h.ok c r hc hr) fun y c' hmove => hQ y c' (h.stays c r y c' hc hr hmove) hmove

/-- The same for programs that stay in `I`. -/
theorem ask_reply (h : Closed A ok I P) {r : Req} {f : Reply r → Prog Req Reply Exc β}
    (hr : ∀ c, I c → P c r) (hf : ∀ a c c', I c → A c r (.ok a) c' → Within A ok I (f a)) :
    Within A ok I (Prog.call r >>= f) :=
  fun c hc => h.then_ask hc (hr c hc) (fun _ _ hc' _ => hc') fun a c' hc' hmove =>
    hf a c c' hc hmove c' hc'

theorem ask (h : Closed A ok I P) {r : Req} {f : Reply r → Prog Req Reply Exc β}
    (hr : ∀ c, I c → P c r) (hf : ∀ a, Within A ok I (f a)) : Within A ok I (Prog.call r >>= f) :=
  h.ask_reply hr fun a _ _ _ _ => hf a

theorem last (h : Closed A ok I P) {r : Req} (hr : ∀ c, I c → P c r) :
    Within A ok I (Prog.call r) :=
  fun c hc => h.then_last hc (hr c hc) fun _ _ hc' _ => hc'

/-- Where a request leaves the automaton in its place. -/
theorem ask_at {c : C} (h : Closed A ok (· = c) P) {r : Req} {f : Reply r → Prog Req Reply Exc β}
    {Q : Except Exc β → C → Prop} (hr : P c r) (hraise : ∀ e, Q (.error e) c)
    (hf : ∀ a, A c r (.ok a) c → Keeps A ok (f a) Q c) : Keeps A ok (Prog.call r >>= f) Q c := by
  refine h.then_ask rfl hr ?_ ?_
  · rintro e _ rfl -
    exact hraise e
  · rintro a _ rfl hmove
    exact hf a hmove

theorem last_at {c : C} (h : Closed A ok (· = c) P) {r : Req} {Q : Except Exc (Reply r) → C → Prop}
    (hr : P c r) (hQ : ∀ y, Q y c) : Keeps A ok (Prog.call r) Q c := by
  refine h.then_last rfl hr ?_
  rintro y _ rfl -
  exact hQ y

end Closed

/-- A program that leaves the automaton in its place, then `f`. -/
theorem Within.bind_at {c : C} {p : Prog Req Reply Exc α} {f : α → Prog Req Reply Exc β}
    {Q : Except Exc β → C → Prop} (hp : Within A ok (· = c) p) (hraise : ∀ e, Q (.error e) c)
    (hf : ∀ a, Keeps A ok (f a) Q c) : Keeps A ok (p >>= f) Q c := by
  refine hp.then_bind rfl ?_ ?_
  · rintro e _ rfl
    exact hraise e
  · rintro a _ rfl
    exact hf a

end Keeps

/-- **Two automata at once.** A program that keeps to both keeps to them side by side. -/
theorem Keeps.prod {C₁ C₂ : Type} {A₁ : C₁ → (r : Req) → Except Exc (Reply r) → C₁ → Prop}
    {A₂ : C₂ → (r : Req) → Except Exc (Reply r) → C₂ → Prop} {ok₁ : C₁ → Req → Prop}
    {ok₂ : C₂ → Req → Prop} {p : Prog Req Reply Exc α} {Q₁ : Except Exc α → C₁ → Prop}
    {Q₂ : Except Exc α → C₂ → Prop} {c₁ : C₁} {c₂ : C₂} (h₁ : Keeps A₁ ok₁ p Q₁ c₁)
    (h₂ : Keeps A₂ ok₂ p Q₂ c₂) :
    Keeps (fun c r y c' => A₁ c.1 r y c'.1 ∧ A₂ c.2 r y c'.2) (fun c r => ok₁ c.1 r ∧ ok₂ c.2 r) p
      (fun v c => Q₁ v c.1 ∧ Q₂ v c.2) (c₁, c₂) := by
  induction p generalizing c₁ c₂ with
  | ret v => exact ⟨h₁, h₂⟩
  | ask r k ih =>
    exact ⟨⟨h₁.1, h₂.1⟩, fun y c' hA => ih y (h₁.2 y c'.1 hA.1) (h₂.2 y c'.2 hA.2)⟩

/-- **One automaton seen through another.** A program that keeps to the automaton `A'` keeps to any
one that moves as `A'` does, up to `R`, and asks no less. -/
theorem Keeps.sim {C C' : Type} {A : C → (r : Req) → Except Exc (Reply r) → C → Prop}
    {A' : C' → (r : Req) → Except Exc (Reply r) → C' → Prop} {ok : C → Req → Prop}
    {ok' : C' → Req → Prop} (R : C → C' → Prop)
    (hA : ∀ c c' r y d, R c c' → ok' c' r → A c r y d → ∃ d', A' c' r y d' ∧ R d d')
    (hok : ∀ c c' r, R c c' → ok' c' r → ok c r) {p : Prog Req Reply Exc α}
    {Q : Except Exc α → C' → Prop} {c : C} {c' : C'} (h : Keeps A' ok' p Q c') (hR : R c c') :
    Keeps A ok p (fun v c => ∃ c', R c c' ∧ Q v c') c := by
  induction p generalizing c c' with
  | ret v => exact ⟨c', hR, h⟩
  | ask r k ih =>
    refine ⟨hok c c' r hR h.1, fun y d hmove => ?_⟩
    obtain ⟨d', hmove', hR'⟩ := hA c c' r y d hR h.1 hmove
    exact ih y (h.2 y d' hmove') hR'

/-- Whatever the replies, the program asks only what `P` allows. -/
abbrev Asks (P : Req → Prop) (p : Prog Req Reply Exc α) : Prop :=
  p.Within (fun _ _ _ _ => True) (fun (_ : Unit) r => P r) fun _ => True

lemma Asks.ask {P : Req → Prop} {r : Req} {f : Reply r → Prog Req Reply Exc β} (hr : P r)
    (hf : ∀ a, (f a).Asks P) : (call r >>= f).Asks P :=
  Within.ask (fun _ _ => hr) (fun _ _ _ _ _ => trivial) fun a _ _ _ _ => hf a

lemma Asks.last {P : Req → Prop} {r : Req} (hr : P r) :
    (call r : Prog Req Reply Exc (Reply r)).Asks P :=
  Within.call (fun _ _ => hr) fun _ _ _ _ _ => trivial

lemma Asks.mono {P P' : Req → Prop} {p : Prog Req Reply Exc α} (hp : p.Asks P)
    (h : ∀ r, P r → P' r) : p.Asks P' := by
  intro c hc
  have hasks := hp c hc
  clear hp
  induction p with
  | ret v => trivial
  | ask r k ih => exact ⟨h r hasks.1, fun y c' hmove => ih y (hasks.2 y c' hmove)⟩

/-- A program that asks only what is never refused stays where such requests leave the automaton. -/
theorem Asks.stays {C : Type} {A : C → (r : Req) → Except Exc (Reply r) → C → Prop}
    {ok : C → Req → Prop} {I : C → Prop} {P : Req → Prop} {p : Prog Req Reply Exc α} (hp : p.Asks P)
    (hok : ∀ c r, I c → P r → ok c r) (hA : ∀ c r y c', I c → P r → A c r y c' → I c') :
    p.Within A ok I := by
  intro c hc
  have hasks := hp () trivial
  clear hp
  induction p generalizing c with
  | ret v => exact hc
  | ask r k ih =>
    obtain ⟨hr, hk⟩ := hasks
    exact ⟨hok c r hc hr, fun y c' hmove => ih y c' (hA c r y c' hc hr hmove) (hk y () trivial)⟩

/-- A program that asks only what is never refused stays wherever the automaton always stays. -/
theorem Asks.within {C : Type} {A : C → (r : Req) → Except Exc (Reply r) → C → Prop}
    {ok : C → Req → Prop} {I : C → Prop} {P : Req → Prop} {p : Prog Req Reply Exc α} (hp : p.Asks P)
    (hok : ∀ c r, I c → P r → ok c r) (hA : ∀ c r y c', I c → A c r y c' → I c') :
    p.Within A ok I :=
  hp.stays hok fun c r y c' hc _ => hA c r y c' hc

/-! ### What a program has said and heard -/

/-- The program asks these requests, gets these replies, and ends with `v`. -/
inductive Ends : Prog Req Reply Exc α → List (Σ r, Except Exc (Reply r)) → Except Exc α → Prop
  | ret (v : Except Exc α) : Ends (.ret v) [] v
  | ask {r : Req} {k : Except Exc (Reply r) → Prog Req Reply Exc α} {y : Except Exc (Reply r)}
      {l : List (Σ r, Except Exc (Reply r))} {v : Except Exc α} (h : Ends (k y) l v) :
      Ends (.ask r k) (⟨r, y⟩ :: l) v

@[simp] lemma ends_ret {v v' : Except Exc α} {l : List (Σ r, Except Exc (Reply r))} :
    Ends (.ret v : Prog Req Reply Exc α) l v' ↔ l = [] ∧ v = v' := by
  constructor
  · rintro ⟨⟩
    exact ⟨rfl, rfl⟩
  · rintro ⟨rfl, rfl⟩
    exact .ret v

lemma ends_ask {r : Req} {k : Except Exc (Reply r) → Prog Req Reply Exc α}
    {l : List (Σ r, Except Exc (Reply r))} {v : Except Exc α} :
    Ends (.ask r k) l v ↔ ∃ y l', l = ⟨r, y⟩ :: l' ∧ Ends (k y) l' v := by
  constructor
  · rintro ⟨⟩
    exact ⟨_, _, rfl, ‹_›⟩
  · rintro ⟨y, l', rfl, h⟩
    exact .ask h

lemma ends_call_bind {r : Req} {f : Reply r → Prog Req Reply Exc β}
    {l : List (Σ r, Except Exc (Reply r))} {v : Except Exc β} (h : Ends (call r >>= f) l v) :
    (∃ e, l = [⟨r, .error e⟩] ∧ v = .error e) ∨
      ∃ a l', l = ⟨r, .ok a⟩ :: l' ∧ Ends (f a) l' v := by
  obtain ⟨y, l', rfl, h'⟩ := ends_ask.1 h
  cases y with
  | error e =>
    obtain ⟨rfl, rfl⟩ := ends_ret.1 h'
    exact .inl ⟨e, rfl, rfl⟩
  | ok a => exact .inr ⟨a, l', rfl, h'⟩

lemma ends_call {r : Req} {l : List (Σ r, Except Exc (Reply r))} {v : Except Exc (Reply r)} :
    Ends (call r : Prog Req Reply Exc (Reply r)) l v ↔ l = [⟨r, v⟩] := by
  constructor
  · intro h
    obtain ⟨y, l', rfl, h'⟩ := ends_ask.1 h
    obtain ⟨rfl, rfl⟩ := ends_ret.1 h'
    rfl
  · rintro rfl
    exact .ask (.ret v)

/-- The program asks these requests, gets these replies, and goes on as `q`. -/
inductive Goes : Prog Req Reply Exc α → List (Σ r, Except Exc (Reply r)) → Prog Req Reply Exc α → Prop
  | rest (p : Prog Req Reply Exc α) : Goes p [] p
  | ask {r : Req} {k : Except Exc (Reply r) → Prog Req Reply Exc α} {y : Except Exc (Reply r)}
      {l : List (Σ r, Except Exc (Reply r))} {q : Prog Req Reply Exc α} (h : Goes (k y) l q) :
      Goes (.ask r k) (⟨r, y⟩ :: l) q

section Goes

variable {l : List (Σ r, Except Exc (Reply r))} {q : Prog Req Reply Exc α}

@[simp] lemma goes_ret {v : Except Exc α} : Goes (.ret v) l q ↔ l = [] ∧ q = .ret v := by
  constructor
  · rintro ⟨⟩
    exact ⟨rfl, rfl⟩
  · rintro ⟨rfl, rfl⟩
    exact .rest _

lemma goes_ask {r : Req} {k : Except Exc (Reply r) → Prog Req Reply Exc α} :
    Goes (.ask r k) l q ↔ (l = [] ∧ q = .ask r k) ∨ ∃ y l', l = ⟨r, y⟩ :: l' ∧ Goes (k y) l' q := by
  constructor
  · rintro (_ | h)
    · exact .inl ⟨rfl, rfl⟩
    · exact .inr ⟨_, _, rfl, h⟩
  · rintro (⟨rfl, rfl⟩ | ⟨y, l', rfl, h⟩)
    · exact .rest _
    · exact .ask h

lemma goes_call_bind {r : Req} {f : Reply r → Prog Req Reply Exc α} (h : Goes (call r >>= f) l q) :
    (l = [] ∧ q = (call r >>= f)) ∨ (∃ e, l = [⟨r, .error e⟩] ∧ q = .ret (.error e)) ∨
      ∃ a l', l = ⟨r, .ok a⟩ :: l' ∧ Goes (f a) l' q := by
  rcases goes_ask.1 h with hrest | ⟨y, l', rfl, h'⟩
  · exact .inl hrest
  · cases y with
    | error e =>
      obtain ⟨rfl, rfl⟩ := goes_ret.1 h'
      exact .inr (.inl ⟨e, rfl, rfl⟩)
    | ok a => exact .inr (.inr ⟨a, l', rfl, h'⟩)

lemma Goes.concat {p : Prog Req Reply Exc α} {r : Req}
    {k : Except Exc (Reply r) → Prog Req Reply Exc α} (h : Goes p l (.ask r k))
    (y : Except Exc (Reply r)) : Goes p (l ++ [⟨r, y⟩]) (k y) := by
  generalize hq : Prog.ask r k = q at h
  induction h with
  | rest p =>
    subst hq
    exact .ask (.rest _)
  | ask h ih => exact .ask (ih hq)

lemma Ends.goes {p : Prog Req Reply Exc α} {v : Except Exc α} (h : Ends p l v) :
    Goes p l (.ret v) := by
  induction h with
  | ret v => exact .rest _
  | ask h ih => exact .ask ih

end Goes

/-! ### A program alone -/

section Alone

variable {S : Type} (h : S → (r : Req) → S × Except Exc (Reply r))

/-- Run to its end against surroundings that answer every request at once. -/
def alone : Prog Req Reply Exc α → S → S × Except Exc α
  | .ret v, s => (s, v)
  | .ask r k, s => (k (h s r).2).alone (h s r).1

@[simp] lemma alone_ret (v : Except Exc α) (s : S) : (ret v : Prog Req Reply Exc α).alone h s =
    (s, v) := rfl

variable {h}

lemma alone_bind {p : Prog Req Reply Exc α} {f : α → Prog Req Reply Exc β} {s s' : S} {a : α}
    (hp : p.alone h s = (s', .ok a)) : (p >>= f).alone h s = (f a).alone h s' := by
  induction p generalizing s with
  | ret v =>
    cases hp
    rfl
  | ask r k ih => exact ih _ hp

lemma alone_call_bind {r : Req} {f : Reply r → Prog Req Reply Exc β} {s s' : S} {a : Reply r}
    (hr : h s r = (s', .ok a)) : (call r >>= f).alone h s = (f a).alone h s' := by
  change (Prog.bind (.ret (h s r).2) f).alone h (h s r).1 = _
  rw [hr]
  rfl

end Alone

end Prog

end Pyreljob.Lib
