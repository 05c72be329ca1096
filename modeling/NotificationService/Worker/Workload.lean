import Mathlib.Algebra.Ring.Nat
import NotificationService.Worker.Budget

/-! How much work a delivery can cause: every message stands for a limited number of provider calls
and of operations, and only the API, the reconciler and redeliveries enqueue one. -/
namespace NotificationService.Worker

open Transition

variable {V : Type} {svc : TemplateService V} {s t : State V} {a : Action V} {xs : List (Action V)}

/-- The message of the delivery is enqueued, by the API, by the reconciler or by the broker. -/
def Action.enqueues : Action V → Bool
  | .apiPublish | .requeuePublish _ | .redeliver _ => true
  | _ => false

def Action.isRun : Action V → Bool
  | .run _ _ => true
  | _ => false

def Answer.isRaised : Answer V → Bool
  | .raised _ _ => true
  | _ => false

/-- What the execution has still to do itself, and `k` for each retry that is left. -/
def Exec.allowance (k : ℕ) (w : PC V → ℕ) (e : Exec V) : ℕ :=
  if e.live then w e.pc + k * (maxRetries - e.message.retries) else 0

def Message.allowance (k : ℕ) (m : Message) : ℕ := k * (maxRetries + 1 - m.retries)

/-- The work that the queued messages and the executions stand for. -/
def State.allowance (k : ℕ) (w : PC V → ℕ) (s : State V) : ℕ :=
  (s.ready.map (Message.allowance k)).sum + (s.execs.map (Exec.allowance k w)).sum

/-- The provider has still to be called. -/
def PC.attempts : PC V → ℕ
  | .getDelivery | .getNotification _ | .getTemplate _ _ | .send _ _ => 1
  | .select c _ | .commit c _ | .refresh c _ => c.isSent.toNat
  | _ => 0

/-- The refresh after a call, and what follows it. -/
def Call.operations : Call → ℕ
  | .sent _ => 9
  | .delivered => 4
  | .transient _ => 2
  | _ => 1

/-- The most operations that an execution has still to take. -/
def PC.operations : PC V → ℕ
  | .getDelivery => 14
  | .getNotification _ => 13
  | .getTemplate _ _ => 12
  | .select c _ => c.operations + 2
  | .commit c _ => c.operations + 1
  | .refresh c _ => c.operations
  | .send _ _ => 8
  | .sending _ _ => 7
  | .retry => 1
  | .finished _ => 0

/-! ### What one operation costs -/

theorem operations_pos (c : Call) : 1 ≤ c.operations := by
  cases c <;> simp [Call.operations]

theorem operations_le (c : Call) : c.operations ≤ 9 := by
  cases c <;> simp [Call.operations]

theorem providerFailed_operations (r : ℕ) (err : String) :
    (providerFailed r err).operations ≤ 4 := by
  unfold providerFailed
  split <;> simp [Call.operations]

theorem resume_operations (d : Delivery) (c : Call) :
    (c.resume d : PC V).operations + 1 ≤ c.operations := by
  cases c <;> simp [Call.resume, Call.operations, PC.operations]

theorem rescue_operations (err : String) (usable : Bool) (d : Delivery) (c : Call) :
    (c.rescue err usable d : PC V).operations + 1 ≤ c.operations := by
  cases c <;> cases usable <;> simp [Call.rescue, Call.operations, PC.operations]

theorem operations_of_unfinished {p : PC V} (hp : p.isFinished = false) : 1 ≤ p.operations := by
  cases p with
  | refresh c => exact operations_pos c
  | finished => cases hp
  | _ => simp [PC.operations]

/-- Every operation of an execution that has not finished is one of those it had left. -/
theorem operations_edge {m : Message} {row : Delivery} {p q : PC V} {b : Answer V} {f : Effect}
    (h : Edge svc m row p b q f) (hp : p.isFinished = false) : q.operations + 1 ≤ p.operations := by
  cases h with
  | @noTemplate d n =>
    have hle := operations_le (prepare svc d n none)
    simp only [PC.operations]
    omega
  | @prepared d n t =>
    have hle := operations_le (prepare svc d n t)
    simp only [PC.operations]
    omega
  | refreshed => exact resume_operations _ _
  | unrefreshed => exact rescue_operations _ _ _ _
  | @providerError _ _ err =>
    have hle := providerFailed_operations m.retries err
    simp only [PC.operations]
    omega
  | raised => exact operations_of_unfinished hp
  | _ => simp [PC.operations, Call.operations]

theorem isSent_of_not_isFirst {c : Call} (h : c.isFirst = false) : c.isSent = false := by
  cases c <;> simp_all [Call.isFirst, Call.isSent]

@[simp] theorem resume_attempts (d : Delivery) (c : Call) :
    (c.resume d : PC V).attempts = c.isSent.toNat := by
  cases c <;> rfl

@[simp] theorem rescue_attempts (err : String) (usable : Bool) (d : Delivery) (c : Call) :
    (c.rescue err usable d : PC V).attempts = 0 := by
  cases c <;> cases usable <;> rfl

/-- An execution calls the provider at most once. -/
theorem attempts_edge {m : Message} {p q : PC V} {b : Answer V} {f : Effect}
    (h : Edge svc m s.row p b q f) :
    (s.apply f).invoked + q.attempts ≤ s.invoked + p.attempts := by
  cases h with
  | noTemplate | prepared => exact Nat.add_le_add_left (Bool.toNat_le _) _
  | refreshed => exact Nat.add_le_add_left (resume_attempts _ _).le _
  | unrefreshed => simp [State.apply]
  | providerError =>
    simp [State.apply, PC.attempts, isSent_of_not_isFirst (providerFailed_isFirst _ _)]
  | _ => simp [State.apply, PC.attempts, Call.isSent]

/-! ### What one step costs -/

variable {k : ℕ} {w : PC V → ℕ}

theorem allowance_le (e : Exec V) :
    e.allowance k w ≤ w e.pc + k * (maxRetries - e.message.retries) := by
  unfold Exec.allowance
  split <;> omega

theorem allowance_of_live {e : Exec V} (h : e.live = true) :
    e.allowance k w = w e.pc + k * (maxRetries - e.message.retries) := if_pos h

theorem allowance_of_not_live {e : Exec V} (h : e.live = false) : e.allowance k w = 0 := by
  simp [Exec.allowance, h]

@[simp] theorem allowance_retry (m : Message) :
    m.retry.allowance k = k * (maxRetries - m.retries) := by
  simp [Message.allowance, Message.retry, Nat.add_sub_add_right]

theorem setExec_allowance {i : ℕ} {e g : Exec V} (he : s.execs[i]? = some e) :
    (s.setExec i g).allowance k w + e.allowance k w =
      s.allowance k w + g.allowance k w := by
  have hsum := Pool.sum_map_set (a := g) (f := Exec.allowance k w) he
  simp only [State.allowance, State.setExec]
  omega

theorem publish_allowance (m : Message) :
    (s.apply (.publish m)).allowance k w = s.allowance k w + m.allowance k := by
  simp only [State.allowance, State.apply, List.map_append, List.sum_append, List.map_singleton,
    List.sum_singleton]
  omega

theorem apply_allowance {f : Effect} (hf : ∀ m, f ≠ .publish m) :
    (s.apply f).allowance k w = s.allowance k w := by
  cases f with
  | publish m => exact (hf m rfl).elim
  | _ => rfl

theorem publish_edge {m m' : Message} {row : Delivery} {p q : PC V} {b : Answer V}
    (h : Edge svc m row p b q (.publish m')) : q.isFinished = true ∧ m' = m.retry := by
  cases h
  exact ⟨rfl, rfl⟩

theorem finished_edge {m : Message} {row : Delivery} {p q : PC V} {b : Answer V} {f : Effect}
    (h : Edge svc m row p b q f) (hp : p.isFinished = true) : q.isFinished = true ∧ f = .none := by
  cases p with
  | finished =>
    cases h
    exact ⟨rfl, rfl⟩
  | _ => cases hp

theorem own_of_isFinished (hw : ∀ o, w (.finished o) = 0) {p : PC V}
    (hp : p.isFinished = true) : w p = 0 := by
  cases p with
  | finished o => exact hw o
  | _ => cases hp

/-- One operation: what it gives to a retry, the execution had left. -/
theorem run_allowance {i : ℕ} {e : Exec V} {q : PC V} {b : Answer V} {f : Effect}
    (he : s.execs[i]? = some e) (ha : e.alive = true) (hw : ∀ o, w (.finished o) = 0)
    (hedge : Edge svc e.message s.row e.pc b q f) :
    ((s.apply f).setExec i { e with pc := q }).allowance k w + w e.pc ≤
      s.allowance k w + w q := by
  have hset := setExec_allowance (k := k) (w := w) (s := s.apply f)
    (g := { e with pc := q }) (by rw [apply_execs]; exact he)
  cases hfin : e.pc.isFinished with
  | true =>
    obtain ⟨hq, rfl⟩ := finished_edge hedge hfin
    have hnew : ({ e with pc := q } : Exec V).allowance k w = 0 :=
      allowance_of_not_live (by simp [Exec.live, hq])
    have hsame : (s.apply .none).allowance k w = s.allowance k w := rfl
    have hzero := own_of_isFinished hw hfin
    omega
  | false =>
    have hold : e.allowance k w = w e.pc + k * (maxRetries - e.message.retries) :=
      allowance_of_live (by simp [Exec.live, ha, hfin])
    by_cases hf : ∃ m, f = .publish m
    · obtain ⟨m, rfl⟩ := hf
      obtain ⟨hq, rfl⟩ := publish_edge hedge
      have hnew : ({ e with pc := q } : Exec V).allowance k w = 0 :=
        allowance_of_not_live (by simp [Exec.live, hq])
      have hpublish := publish_allowance (k := k) (w := w) (s := s) e.message.retry
      rw [allowance_retry] at hpublish
      omega
    · have hle : ({ e with pc := q } : Exec V).allowance k w ≤
          w q + k * (maxRetries - e.message.retries) := allowance_le _
      have hsame : (s.apply f).allowance k w = s.allowance k w :=
        apply_allowance fun m hm => hf ⟨m, hm⟩
      omega

theorem message_allowance_le (m : Message) : m.allowance k ≤ k * (maxRetries + 1) :=
  Nat.mul_le_mul_left k (Nat.sub_le _ _)

/-- A received message turns into an execution that has no more to do. -/
theorem fresh_allowance {m : Message} (hm : m.retries ≤ maxRetries)
    (hnew : w (.getDelivery : PC V) ≤ k) :
    (⟨m, true, true, .getDelivery⟩ : Exec V).allowance k w ≤ m.allowance k := by
  have hle := allowance_le (k := k) (w := w) ⟨m, true, true, .getDelivery⟩
  have hsucc : maxRetries + 1 - m.retries = maxRetries - m.retries + 1 := by omega
  rw [Message.allowance, hsucc, Nat.mul_add, Nat.mul_one]
  dsimp only at hle
  omega

theorem receive_allowance {m : Message} (hm : m ∈ s.ready) (hs : RetriesBounded s)
    (hnew : w (.getDelivery : PC V) ≤ k) :
    State.allowance k w
      { s with ready := s.ready.erase m, execs := s.execs ++ [⟨m, true, true, .getDelivery⟩] } ≤
      s.allowance k w := by
  have herase := List.sum_map_erase (Message.allowance k) hm
  have hfresh := fresh_allowance (hs.ready m hm) hnew
  simp only [State.allowance, List.map_append, List.sum_append, List.map_singleton,
    List.sum_singleton]
  omega

/-- Only what enqueues the delivery adds to the work, one message at a time. -/
theorem step_allowance (h : Step svc s a t) (hs : RetriesBounded s)
    (hnew : w .getDelivery ≤ k) (ha : a.isRun = false) :
    t.allowance k w ≤ s.allowance k w + k * (maxRetries + 1) * a.enqueues.toNat := by
  cases h with
  | reconcile | requeueNotification => exact Nat.le_add_right _ _
  | @apiPublish q | @requeuePublish _ q =>
    have hpublish := publish_allowance (k := k) (w := w) (s := s) ⟨0, q, 0⟩
    rw [Action.enqueues, Bool.toNat_true, Nat.mul_one]
    exact hpublish.trans_le (Nat.add_le_add_left (message_allowance_le _) _)
  | receive hm => exact (receive_allowance hm hs hnew).trans (Nat.le_add_right _ _)
  | run => cases ha
  | @crash i e he =>
    have hset := setExec_allowance (k := k) (w := w) (g := { e with alive := false }) he
    have hdead : ({ e with alive := false } : Exec V).allowance k w = 0 :=
      allowance_of_not_live (by simp [Exec.live])
    omega
  | @ack i e he | @lose i e he =>
    have hset := setExec_allowance (k := k) (w := w) (g := { e with held := false }) he
    have hsame : ({ e with held := false } : Exec V).allowance k w = e.allowance k w := rfl
    omega
  | @redeliver i e he =>
    have hset := setExec_allowance (k := k) (w := w) (s := s.apply (.publish e.message))
      (g := { e with held := false }) (by rw [apply_execs]; exact he)
    have hsame : ({ e with held := false } : Exec V).allowance k w = e.allowance k w := rfl
    have hpublish := publish_allowance (k := k) (w := w) (s := s) e.message
    have hle := message_allowance_le (k := k) e.message
    simp only [Action.enqueues, Bool.toNat_true, Nat.mul_one]
    omega

/-! ### Runs -/

theorem step_run (h : step svc s a = some t) (ha : a.isRun = true) : ∃ i e b q f,
    s.execs[i]? = some e ∧ e.alive = true ∧ e.pc.isFinished = false ∧
      Edge svc e.message s.row e.pc b q f ∧ t = (s.apply f).setExec i { e with pc := q } := by
  cases a with
  | run i b =>
    obtain ⟨e, he, h⟩ := Option.bind_eq_some_iff.mp h
    simp only [Option.ite_none_right_eq_some, Option.map_eq_some_iff] at h
    obtain ⟨halive, ⟨q, f⟩, hn, rfl⟩ := h
    refine ⟨i, e, b, q, f, he, halive, ?_, next_edge hn, rfl⟩
    cases hp : e.pc with
    | finished o =>
      rw [hp] at hn
      cases b <;> cases hn
    | _ => rfl
  | _ => cases ha

theorem invoked_of_not_run (h : Step svc s a t) (ha : a.isRun = false) : t.invoked = s.invoked := by
  cases h with
  | run => cases ha
  | _ => rfl

theorem retriesBounded_trInv : (sys svc).TrInv RetriesBounded := fun _ _ _ hstep =>
  retriesBounded_step (sys_step hstep)

theorem retriesBounded_initial {ch : Channel} {now : ℤ} {p : Priority} :
    RetriesBounded (initial ch now p : State V) :=
  ⟨by simp [initial], by simp [initial]⟩

/-- A first message has no delay, that of the `n`-th retry has `4 ** (n - 1)` seconds. -/
def Message.Delayed (m : Message) : Prop :=
  m.countdown = if m.retries = 0 then 0 else 4 ^ (m.retries - 1)

structure Delayed (s : State V) : Prop where
  ready : ∀ m ∈ s.ready, m.Delayed
  execs : ∀ e ∈ s.execs, e.message.Delayed

theorem delayed_step (h : Step svc s a t) (hs : Delayed s) : Delayed t := by
  obtain ⟨hready, hexecs⟩ := hs
  constructor
  · cases h with
    | apiPublish | requeuePublish => exact Pool.forall_concat hready rfl
    | receive => exact fun x hx => hready x (List.mem_of_mem_erase hx)
    | @run i e b q f _ _ hedge =>
      generalize e.pc = p at hedge
      cases hedge with
      | retried => exact Pool.forall_concat hready rfl
      | _ => exact hready
    | redeliver he => exact Pool.forall_concat hready (hexecs _ (List.mem_of_getElem? he))
    | reconcile | requeueNotification | crash | ack | lose => exact hready
  · exact eachSession_step (P := fun m _ => m.Delayed) h hexecs hready
      fun i e b q f he _ _ => hexecs e he

theorem delayed_initial {ch : Channel} {now : ℤ} {p : Priority} :
    Delayed (initial ch now p : State V) :=
  ⟨by simp [initial], by simp [initial]⟩

theorem initial_allowance {ch : Channel} {now : ℤ} {p : Priority} :
    (initial ch now p : State V).allowance k w = 0 := by
  simp [initial, State.allowance]

/-- However the processes interleave, the provider is called at most four times for each time that
the delivery was enqueued. -/
theorem calls_bounded {ch : Channel} {now : ℤ} {p : Priority}
    (h : (sys svc).MTr (initial ch now p) xs s) :
    s.invoked ≤ (maxRetries + 1) * xs.countP Action.enqueues ∧
      s.row.retryCount ≤ (maxRetries + 1) * xs.countP Action.enqueues := by
  have hrank : ∀ s a t, (sys svc).Tr s a t → RetriesBounded s →
      t.invoked + t.allowance 1 PC.attempts ≤
        s.invoked + s.allowance 1 PC.attempts + (maxRetries + 1) * a.enqueues.toNat := by
    intro s a t hstep hs
    cases ha : a.isRun with
    | true =>
      obtain ⟨i, e, b, q, f, he, halive, _, hedge, rfl⟩ := step_run hstep ha
      have hrun := run_allowance (k := 1) (w := PC.attempts) he halive (fun _ => rfl) hedge
      have hone := attempts_edge hedge
      have hsame : ((s.apply f).setExec i { e with pc := q }).invoked = (s.apply f).invoked := rfl
      omega
    | false =>
      have hstill := invoked_of_not_run (sys_step hstep) ha
      have hle := step_allowance (k := 1) (w := PC.attempts) (sys_step hstep) hs le_rfl ha
      rw [Nat.one_mul] at hle
      omega
  have hrun := h.rank_le (r := fun s => s.invoked + s.allowance 1 PC.attempts)
    retriesBounded_trInv hrank retriesBounded_initial
  have hzero : (initial ch now p : State V).invoked = 0 := rfl
  rw [initial_allowance, hzero] at hrun
  have hcalls : s.invoked ≤ (maxRetries + 1) * xs.countP Action.enqueues := by omega
  exact ⟨hcalls, (retryCount_le_invoked h).trans hcalls⟩

/-- An execution that lives and has not finished can go on, without anything being raised. -/
theorem live_proceeds {i : ℕ} {e : Exec V} (he : s.execs[i]? = some e) (hlive : e.live = true) :
    ∃ b t, b.isRaised = false ∧ (sys svc).Tr s (.run i b) t := by
  have halive : e.alive = true := by
    cases ha : e.alive <;> simp [Exec.live, ha] at hlive ⊢
  have htr : ∀ b q f, next svc e.message s.row e.pc b = some (q, f) →
      (sys svc).Tr s (.run i b) ((s.apply f).setExec i { e with pc := q }) := by
    intro b q f hn
    change step svc s (.run i b) = _
    simp [step, he, halive, hn]
  cases hp : e.pc with
  | finished o => simp [Exec.live, hp, PC.isFinished] at hlive
  | getNotification d => exact ⟨.notification none, _, rfl, htr _ _ _ (by rw [hp]; rfl)⟩
  | getTemplate d n => exact ⟨.template none, _, rfl, htr _ _ _ (by rw [hp]; rfl)⟩
  | sending out d => exact ⟨.provider .success, _, rfl, htr _ _ _ (by rw [hp]; rfl)⟩
  | _ => exact ⟨.ok, _, rfl, htr _ _ _ (by rw [hp]; rfl)⟩

/-- The work for a delivery ends: all that follows from one time that it is enqueued takes at most
56 operations, and no execution is ever stuck before its end. -/
theorem processing_ends {ch : Channel} {now : ℤ} {p : Priority}
    (h : (sys svc).MTr (initial ch now p) xs s) :
    xs.countP Action.isRun ≤ 56 * xs.countP Action.enqueues ∧
      ∀ (i : ℕ) (e : Exec V), s.execs[i]? = some e → e.live = true →
        ∃ b t, b.isRaised = false ∧ (sys svc).Tr s (.run i b) t := by
  refine ⟨?_, fun i e => live_proceeds⟩
  have hrank : ∀ s a t, (sys svc).Tr s a t → RetriesBounded s →
      t.allowance 14 PC.operations + a.isRun.toNat ≤
        s.allowance 14 PC.operations + 56 * a.enqueues.toNat := by
    intro s a t hstep hs
    cases ha : a.isRun with
    | true =>
      obtain ⟨i, e, b, q, f, he, halive, hfin, hedge, rfl⟩ := step_run hstep ha
      have hrun := run_allowance (k := 14) (w := PC.operations) he halive (fun _ => rfl) hedge
      have hone := operations_edge hedge hfin
      simp only [Bool.toNat_true]
      omega
    | false =>
      have hle := step_allowance (k := 14) (w := PC.operations) (sys_step hstep) hs le_rfl ha
      simp only [maxRetries] at hle
      simp only [Bool.toNat_false]
      omega
  have hcount := h.countP_le retriesBounded_trInv hrank retriesBounded_initial
  rw [initial_allowance] at hcount
  omega

theorem calls_bounded_reconciled : ∃ s, (sys plainText).MTr otpDelivery reconciledRun s ∧
    s.invoked = 5 ∧
    s.invoked ≤ (maxRetries + 1) * reconciledRun.countP Action.enqueues := by
  have hrun : (LTS.run (step plainText) otpDelivery reconciledRun).map (·.invoked) = some 5 := by
    decide
  obtain ⟨s, h, hinvoked⟩ := LTS.exists_mTr hrun
  exact ⟨s, h, hinvoked, (calls_bounded h).1⟩

theorem processing_ends_exhausted : ∃ s, (sys plainText).MTr otpDelivery exhaustRun s ∧
    exhaustRun.countP Action.isRun ≤ 56 * exhaustRun.countP Action.enqueues ∧
    ∀ (i : ℕ) (e : Exec Unit), s.execs[i]? = some e → e.live = true →
      ∃ b t, b.isRaised = false ∧ (sys plainText).Tr s (.run i b) t := by
  have hrun : (LTS.run (step plainText) otpDelivery exhaustRun).map (·.invoked) = some 4 := by
    decide
  obtain ⟨s, h, _⟩ := LTS.exists_mTr hrun
  exact ⟨s, h, processing_ends h⟩

end NotificationService.Worker
