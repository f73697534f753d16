import Pyreljob.Model.Submit
import Pyreljob.System.Footprint
import Pyreljob.System.Picking

/-!
Claims follow the priorities that the classes declare, where `schedule` was not asked to keep one.

`enqueue` hands the priority of the class on, `schedule` does not, and the row it makes has the
priority 0. What a claim sorts by is the row.
-/

namespace Pyreljob

open Lib

/-! ### What a client runs -/

lemma attempt_bind {α β : Type} (x : Except Exc α) (f : α → Io β) :
    (∃ exc, x = .error exc ∧ (JobManager.attempt x >>= f) = throw exc) ∨
      ∃ v, x = .ok v ∧ (JobManager.attempt x >>= f) = f v := by
  cases x with
  | error exc => exact .inl ⟨exc, rfl, rfl⟩
  | ok v => exact .inr ⟨v, rfl, rfl⟩

/-- **What a client runs that enqueues an instance**: it raises before it asks for anything, or it is the
process that enqueues what the instance and its class say. -/
theorem enqueueJob_program (job : Job) (priority : Option ℤ) (scheduledAt : Option Time) (a : SubmitArgs) :
    (∃ exc, JobManager.enqueueJob job priority scheduledAt a = throw exc) ∨
      ∃ args, job.asDict = .ok args ∧
        (JobManager.enqueueJob job priority scheduledAt a >>= fun _ => pure ()) =
          (Kind.enqueue (job.enqueueSpec args priority a) scheduledAt).program := by
  unfold JobManager.enqueueJob
  rcases attempt_bind job.validate _ with ⟨exc, -, heq⟩ | ⟨_, -, heq⟩
  · exact .inl ⟨exc, heq⟩
  rcases attempt_bind job.asDict fun args => JobManager.enqueue (job.enqueueSpec args priority a) scheduledAt
    with ⟨exc, -, heq'⟩ | ⟨args, hargs, heq'⟩
  · exact .inl ⟨exc, heq.trans heq'⟩
  · refine .inr ⟨args, hargs, ?_⟩
    rw [heq, heq']
    rfl

/-- The same for an instance that is scheduled. -/
theorem scheduleJob_program (job : Job) (a : SubmitArgs) :
    (∃ exc, JobManager.scheduleJob job a = throw exc) ∨
      ∃ args nextRun, job.asDict = .ok args ∧ job.firstRuntime = .ok nextRun ∧
        (JobManager.scheduleJob job a >>= fun _ => pure ()) =
          (Kind.schedule (job.scheduleSpec args nextRun a)).program := by
  unfold JobManager.scheduleJob
  rcases attempt_bind job.validate _ with ⟨exc, -, heq⟩ | ⟨_, -, heq⟩
  · exact .inl ⟨exc, heq⟩
  rcases attempt_bind job.firstRuntime fun nextRun => JobManager.attempt job.asDict >>= fun args =>
    JobManager.schedule (job.scheduleSpec args nextRun a) with ⟨exc, -, heq'⟩ | ⟨nextRun, hnext, heq'⟩
  · exact .inl ⟨exc, heq.trans heq'⟩
  rcases attempt_bind job.asDict fun args => JobManager.schedule (job.scheduleSpec args nextRun a)
    with ⟨exc, -, heq''⟩ | ⟨args, hargs, heq''⟩
  · exact .inl ⟨exc, heq.trans (heq'.trans heq'')⟩
  · refine .inr ⟨args, nextRun, hargs, hnext, ?_⟩
    rw [heq, heq', heq'']
    rfl

/-! ### What the classes declare -/

section

variable (declared : String → ℤ)

/-- The client has called `enqueue` without a priority, or `schedule`; a class declares its priority. -/
def Kind.Submits : Kind → Prop
  | enqueue spec _ => ∃ (job : Job) (args : Dict Value) (a : SubmitArgs),
      job.cls.priority = declared job.cls.name ∧ spec = job.enqueueSpec args none a
  | schedule spec => ∃ (job : Job) (args : Dict Value) (nextRun : Option Time) (a : SubmitArgs),
      job.cls.priority = declared job.cls.name ∧ spec = job.scheduleSpec args nextRun a
  | _ => True

/-- Whoever submits an instance of a class that declares its priority is such a client, or raises before
it asks for anything. -/
theorem submits_of_declared {job : Job} (hjob : job.cls.priority = declared job.cls.name)
    (scheduledAt : Option Time) (a : SubmitArgs) :
    ((∃ exc, JobManager.enqueueJob job none scheduledAt a = throw exc) ∨ ∃ k : Kind,
      k.Submits declared ∧
        (JobManager.enqueueJob job none scheduledAt a >>= fun _ => pure ()) = k.program) ∧
    ((∃ exc, JobManager.scheduleJob job a = throw exc) ∨ ∃ k : Kind, k.Submits declared ∧
      (JobManager.scheduleJob job a >>= fun _ => pure ()) = k.program) := by
  constructor
  · rcases enqueueJob_program job none scheduledAt a with hraises | ⟨args, -, heq⟩
    · exact .inl hraises
    · exact .inr ⟨.enqueue _ scheduledAt, ⟨job, args, a, hjob, rfl⟩, heq⟩
  · rcases scheduleJob_program job a with hraises | ⟨args, nextRun, -, -, heq⟩
    · exact .inl hraises
    · exact .inr ⟨.schedule _, ⟨job, args, nextRun, a, hjob, rfl⟩, heq⟩

/-- Clients submit jobs of classes that declare these priorities; anything else may happen. -/
def SubmitsDeclared (l : Act) : Prop := ∀ k, l = .spawn k → k.Submits declared

/-- And only classes that declare the priority 0 are scheduled. -/
def SchedulesFlat (l : Act) : Prop :=
  SubmitsDeclared declared l ∧ ∀ spec, l = .spawn (.schedule spec) → declared spec.job = 0

/-- The run is the best that the worker may claim: no other one is of a class that declares a higher
priority, or the same one and has a lower id. -/
structure PicksDeclared (db : DB) (queue : Option String) (now leaseExpiry : Time) (r : RunRow)
    (j : JobRow) : Prop where
  pickable : Pickable db queue now leaseExpiry r j
  first : ∀ r' j', Pickable db queue now leaseExpiry r' j' →
    declared j'.job < declared j.job ∨ (declared j.job = declared j'.job ∧ r.id ≤ r'.id)

def Priced (db : DB) : Prop := ∀ j ∈ db.jobs.rows, j.priority = declared j.job

def InsertsPriced : Req → Prop
  | .db (.insertJobAndRun spec _) | .db (.insertJob spec) => spec.priority = declared spec.job
  | _ => True

end

section

variable {declared : String → ℤ} {db db' : DB} {e : Env} {c : Call} {y : Except Exc c.Reply}

lemma JobStep.priced {i : ℕ} {o : Option JobRow} {j' : JobRow} (h : JobStep db e i c o (some j'))
    (hc : InsertsPriced declared (.db c)) (ho : ∀ j, o = some j → j.priority = declared j.job) :
    j'.priority = declared j'.job := by
  cases h with
  | same => exact ho j' rfl
  | enqueued spec t hi => exact hc
  | scheduled spec hi => exact hc
  | cancelled j | incremented j | reset j | fired j | revived j | rearmed j | armed j => exact ho j rfl

lemma Priced.step (h : Priced declared db) (hc : InsertsPriced declared (.db c))
    (hx : c.exec db e = some (db', y)) : Priced declared db' := by
  intro j hj
  have hget : db'.jobs.get? j.id = some j := Table.get?_of_mem hj
  have hstep := exec_job hx j.id
  rw [hget] at hstep
  exact hstep.priced hc fun j' hj' => h j' (Table.mem_of_get? hj')

/-- Where the rows have the priorities of their classes, the best run by the one is the best by the
other. -/
lemma Picks.picksDeclared {queue : Option String} {now leaseExpiry : Time} {r : RunRow} {j : JobRow}
    (h : Picks db queue now leaseExpiry r j) (hpriced : Priced declared db) :
    PicksDeclared declared db queue now leaseExpiry r j := by
  have hrow : ∀ r j, Pickable db queue now leaseExpiry r j → j.priority = declared j.job :=
    fun r j hp => hpriced j (Table.mem_of_get? hp.job)
  refine ⟨h.pickable, fun r' j' hp => ?_⟩
  rw [← hrow r j h.pickable, ← hrow r' j' hp]
  exact h.first r' j' hp

lemma asks_priced {k : Kind} (hk : SchedulesFlat declared (.spawn k)) :
    k.program.Asks (InsertsPriced declared) := by
  refine k.asks_may.mono fun r hr => ?_
  unfold InsertsPriced
  split
  · cases k with
    | enqueue spec t =>
      obtain ⟨rfl, -⟩ := hr
      obtain ⟨job, args, a, hpriority, rfl⟩ := hk.1 _ rfl
      exact hpriority
    | _ => cases hr
  · cases k with
    | schedule spec =>
      obtain rfl := hr
      exact (hk.2 spec rfl).symm
    | _ => cases hr
  · trivial

/-- **Every job has the priority of its class**, in any run in which only classes of the priority 0 are
scheduled. -/
theorem priced_of_reached {p : System} (h : p.Reached fun _ => SchedulesFlat declared) :
    Priced declared p.shared := by
  have hinit : Priced declared System.init.shared := fun j hj => by cases hj
  unfold System.Reached System.Run Pool.Run at h
  induction h with
  | refl => exact hinit
  | @tail p₁ p₂ hrun hmove ih =>
    obtain ⟨l, hC, hstep⟩ := hmove
    rcases System.step_cases hstep with hsame | ⟨pid, c, e, y, rfl, hasks, hx, -⟩
    · rw [hsame]
      exact ih
    · exact ih.step (Pool.asks_of_run (fun _ _ hk => asks_priced hk) hrun rfl hasks) hx

/-- **Claims follow the declared priorities**, whichever way a job was created, in any run in which only
classes of the priority 0 are scheduled. In every state that it reaches, a claim that nobody disturbs,
the portable one or that of PostgreSQL, returns the run of the best class among those that the worker
may claim; and whatever else goes on, so does the `SELECT` of every claim in the run. -/
theorem claims_follow_declared {p : System} (h : p.Reached fun _ => SchedulesFlat declared) :
    (∀ (w : Worker) (now : Time) (lastClaim : Option Time),
      let leaseExpiry := now - seconds w.leaseSeconds
      let claimed := PostgresBackend.claim p.shared (fun _ => false) w.workerId w.queue now leaseExpiry
      w.claim.alone (calmly now lastClaim) p.shared = (claimed.1, .ok claimed.2) ∧
      ∀ r', claimed.2 = some r' →
        ∃ r j, PicksDeclared declared p.shared w.queue now leaseExpiry r j ∧ r'.id = r.id) ∧
    ∀ pid queue now leaseExpiry a i db db',
      (⟨pid, .db (.selectClaimable queue now leaseExpiry), a, .ok (some i), db, db'⟩ : Ev) ∈ p.log →
        ∃ r j, PicksDeclared declared db queue now leaseExpiry r j ∧ i = r.id := by
  refine ⟨fun w now lastClaim => ⟨claim_alone w p.shared now lastClaim, fun r' hclaimed => ?_⟩, ?_⟩
  · rcases postgres_claim_cases p.shared w.workerId w.queue now (now - seconds w.leaseSeconds) with
      ⟨-, hclaim⟩ | ⟨r, j, -, hpicks, hclaim⟩
    · rw [hclaim] at hclaimed
      cases hclaimed
    · rw [hclaim] at hclaimed
      cases hclaimed
      exact ⟨r, j, hpicks.picksDeclared (priced_of_reached h), rfl⟩
  · intro pid queue now leaseExpiry a i db db' hev
    obtain ⟨l₁, l₂, hlog⟩ := List.append_of_mem hev
    obtain ⟨p₁, p₂, f, hrun, -, -, hacts, -, -, hpre, -, -⟩ := Pool.event_step h rfl hlog
    have hanswer := hacts.answered
    rw [hpre] at hanswer
    cases a with
    | commit e =>
      have hselect : db.selectClaimable queue now leaseExpiry = some i :=
        Except.ok.inj (congrArg Prod.snd (Option.some.inj hanswer))
      obtain ⟨⟨r, j⟩, hhead, rfl⟩ := Option.map_eq_some_iff.1 hselect
      have hpriced : Priced declared p₁.shared := priced_of_reached hrun
      rw [hpre] at hpriced
      exact ⟨r, j, (picks_of_head hhead).picksDeclared hpriced, rfl⟩
    | _ => cases hanswer

end

/-! ### A scheduled job of a better class -/

/-- A job of a class with this priority, which is due at once. -/
def billing (priority : ℤ) : Job where
  cls :=
    { name := "app.Billing", shortName := "Billing", tasks := [{ name := "Charge" }]
      priority := priority }
  asDict := .ok []
  firstRuntime := .ok (some 0)

def analytics : Job where
  cls :=
    { name := "app.Analytics", shortName := "Analytics", tasks := [{ name := "Aggregate" }]
      priority := 10 }
  asDict := .ok []

/-- What the two classes declare. -/
def declaring (priority : ℤ) (job : String) : ℤ :=
  if job = "app.Billing" then priority else if job = "app.Analytics" then 10 else 0

/-- Billing is scheduled, and the beat (process 1) fires it; analytics is enqueued. -/
def both (priority : ℤ) : List Act :=
  .spawn (.schedule ((billing priority).scheduleSpec [] (some 0) {})) :: commits 0 2 0 ++
  .spawn (.beat 300 none 1) :: reads 1 1 :: .act 1 (.lastClaim none) :: commits 1 3 1 ++
  reads 1 1 :: commits 1 2 1 ++
  .spawn (.enqueue (analytics.enqueueSpec [] none {}) none) :: commits 2 1 2

lemma both_submits (priority : ℤ) : ∀ l ∈ both priority, SubmitsDeclared (declaring priority) l := by
  intro l hl k hk
  subst hk
  simp only [both, commits, reads, List.replicate, List.cons_append, List.nil_append, List.mem_cons,
    List.not_mem_nil, or_false, reduceCtorEq, Label.spawn.injEq, false_or] at hl
  rcases hl with rfl | rfl | rfl
  · exact ⟨billing priority, [], some 0, {}, rfl, rfl⟩
  · trivial
  · exact ⟨analytics, [], {}, rfl, rfl⟩

/-- Billing declares a higher priority, and a worker is given analytics. -/
theorem scheduled_priority_lost : ∃ p : System,
    p.Reached (fun _ => SubmitsDeclared (declaring 50)) ∧ ∃ r',
      ((Worker.named "A").claim.alone (calmly (seconds 3) none) p.shared).2 = .ok (some r') ∧
      ¬ ∃ r j, PicksDeclared (declaring 50) p.shared none (seconds 3) (seconds 3 - seconds 30) r j ∧
        r'.id = r.id := by
  obtain ⟨p, hplay⟩ : ∃ p : System,
    Pool.play answer Kind.program (fun _ _ => True) System.init (both 50) = some p := ⟨_, rfl⟩
  have hrun : System.Reached (fun _ => SubmitsDeclared (declaring 50)) p :=
    Pool.run_of_play_all (both_submits 50) hplay
  have hbilling : ∃ x ∈ p.shared.claimCandidates none (seconds 3) (seconds 3 - seconds 30),
      x.2.job = "app.Billing" := by
    cases hplay
    exact ⟨_, List.mem_cons_self, rfl⟩
  have hanalytics : ∀ x ∈ p.shared.claimCandidates none (seconds 3) (seconds 3 - seconds 30),
      x.1.id = 2 → x.2.job = "app.Analytics" := by
    cases hplay
    decide
  obtain ⟨r', hclaim, hid⟩ : ∃ r', ((Worker.named "A").claim.alone (calmly (seconds 3) none)
      p.shared).2 = .ok (some r') ∧ r'.id = 2 := by
    cases hplay
    exact ⟨_, rfl, rfl⟩
  refine ⟨p, hrun, r', hclaim, ?_⟩
  rintro ⟨r, j, hpicks, heq⟩
  obtain ⟨⟨r₀, j₀⟩, hmem, hjob₀⟩ := hbilling
  have hjob : j.job = "app.Analytics" :=
    hanalytics (r, j) (mem_claimCandidates.2 hpicks.pickable) (heq.symm.trans hid)
  have hfirst := hpicks.first r₀ j₀ (mem_claimCandidates.1 hmem)
  rw [hjob, show j₀.job = "app.Billing" from hjob₀] at hfirst
  rcases hfirst with hlt | ⟨heq, -⟩
  · exact absurd hlt (by decide)
  · exact absurd heq (by decide)

/-- Where billing declares the priority 0, analytics is the better one. -/
theorem claims_follow_declared_flat : ∃ p : System,
    p.Reached (fun _ => SchedulesFlat (declaring 0)) ∧ ∃ r',
      ((Worker.named "A").claim.alone (calmly (seconds 3) none) p.shared).2 = .ok (some r') ∧
      ∃ r j, PicksDeclared (declaring 0) p.shared none (seconds 3) (seconds 3 - seconds 30) r j ∧
        r'.id = r.id := by
  have hflat : ∀ l ∈ both 0, SchedulesFlat (declaring 0) l := by
    refine fun l hl => ⟨both_submits 0 l hl, ?_⟩
    rintro spec rfl
    have hlast : ∀ k ∈ (both 0).filterMap fun l => match l with
        | .spawn (.schedule spec) => some spec.job
        | _ => none, declaring 0 k = 0 := by decide
    exact hlast _ (List.mem_filterMap.2 ⟨_, hl, rfl⟩)
  have hrun : System.Reached (fun _ => SchedulesFlat (declaring 0)) _ :=
    Pool.run_of_play_all hflat
      (show Pool.play answer Kind.program (fun _ _ => True) System.init (both 0) = some _ from rfl)
  obtain ⟨hclaim, hbest⟩ := (claims_follow_declared hrun).1 (.named "A") (seconds 3) none
  exact ⟨_, hrun, _, rfl, hbest _ rfl⟩

end Pyreljob
