import NotificationService.Foundation.Transition
import NotificationService.Foundation.Pool
import NotificationService.Worker.Task

/-! Everything that acts on one delivery: the handler that enqueues it, the broker, any number of
task executions, and any number of reconciliation ticks. -/
namespace NotificationService.Worker

open Transition

variable {V : Type}

def PC.isFinished : PC V → Bool
  | .finished _ => true
  | _ => false

/-- An execution started by one received message. With `acks_late` the broker holds the message
until it is acknowledged after the task has finished. -/
structure Exec (V : Type) where
  message : Message
  held : Bool
  alive : Bool
  pc : PC V
  deriving DecidableEq, Repr

def Exec.live (e : Exec V) : Bool := e.alive && !e.pc.isFinished

/-- One selected row of a `reconcile_pending_deliveries` tick. -/
inductive Requeue where
  | getNotification
  | applyAsync (queue : String)
  | done
  deriving DecidableEq, Repr

/-- The committed row and its log, the broker, the processes, and three history counters:
invocations of `provider.send`, its successes, and committed `increment_retry` updates. -/
structure State (V : Type) where
  row : Delivery
  logs : List StatusLog
  apiPending : Option String
  ready : List Message
  execs : List (Exec V)
  requeues : List Requeue
  invoked : ℕ
  succeeded : ℕ
  handled : ℕ
  deriving DecidableEq, Repr

/-- The handler has committed the row and has still to enqueue its message. -/
def initial (channel : Channel) (createdAt : ℤ) (priority : Priority) : State V where
  row := (createDelivery channel createdAt).1
  logs := [(createDelivery channel createdAt).2]
  apiPending := some (queueName priority)
  ready := []
  execs := []
  requeues := []
  invoked := 0
  succeeded := 0
  handled := 0

inductive Action (V : Type) where
  | apiPublish
  | reconcile (now : ℤ)
  | requeueNotification (k : ℕ) (n : Option (Notification V))
  | requeuePublish (k : ℕ)
  | receive (m : Message)
  | run (i : ℕ) (a : Answer V)
  | crash (i : ℕ)
  | ack (i : ℕ)
  | redeliver (i : ℕ)
  | lose (i : ℕ)
  deriving DecidableEq, Repr

def State.apply (s : State V) : Effect → State V
  | .none => s
  | .commit c d =>
    { s with
      row := flush d (c.update.assign d) s.row
      logs := s.logs ++ [c.update.log d]
      handled := if c.update.incrementRetry then s.handled + 1 else s.handled }
  | .invoked => { s with invoked := s.invoked + 1 }
  | .succeeded => { s with succeeded := s.succeeded + 1 }
  | .publish m => { s with ready := s.ready ++ [m] }

def State.setExec (s : State V) (i : ℕ) (e : Exec V) : State V :=
  { s with execs := s.execs.set i e }

def step (svc : TemplateService V) (s : State V) : Action V → Option (State V)
  | .apiPublish =>
    s.apiPending.map fun q => { s with apiPending := none, ready := s.ready ++ [⟨0, q, 0⟩] }
  | .reconcile now =>
    if getPendingDeliveries 300 now s.row then
      some { s with requeues := s.requeues ++ [.getNotification] }
    else none
  | .requeueNotification k n =>
    match s.requeues[k]? with
    | some .getNotification =>
      let priority := n.elim .normal (·.priority)
      some { s with requeues := s.requeues.set k (.applyAsync (queueName priority)) }
    | _ => none
  | .requeuePublish k =>
    match s.requeues[k]? with
    | some (.applyAsync q) =>
      some { s with requeues := s.requeues.set k .done, ready := s.ready ++ [⟨0, q, 0⟩] }
    | _ => none
  | .receive m =>
    if m ∈ s.ready then
      some { s with ready := s.ready.erase m, execs := s.execs ++ [⟨m, true, true, .getDelivery⟩] }
    else none
  | .run i a =>
    s.execs[i]?.bind fun e =>
      if e.alive then
        (next svc e.message s.row e.pc a).map fun (q, f) => (s.apply f).setExec i { e with pc := q }
      else none
  | .crash i =>
    s.execs[i]?.bind fun e => if e.live then some (s.setExec i { e with alive := false }) else none
  | .ack i =>
    s.execs[i]?.bind fun e =>
      if e.held && e.pc.isFinished then some (s.setExec i { e with held := false }) else none
  | .redeliver i =>
    s.execs[i]?.bind fun e =>
      if e.held then some ((s.apply (.publish e.message)).setExec i { e with held := false })
      else none
  | .lose i =>
    s.execs[i]?.bind fun e =>
      if e.held && !e.alive then some (s.setExec i { e with held := false }) else none

/-- All interleavings of the delivery's processes. -/
def sys (svc : TemplateService V) : LTS (State V) (Action V) := LTS.ofStep (step svc)

/-- The transitions with their guards and targets, one constructor for each action. -/
inductive Step (svc : TemplateService V) (s : State V) : Action V → State V → Prop where
  | apiPublish {q} : s.apiPending = some q →
      Step svc s .apiPublish { s with apiPending := none, ready := s.ready ++ [⟨0, q, 0⟩] }
  | reconcile {now} : s.row.status = .pending →
      Step svc s (.reconcile now) { s with requeues := s.requeues ++ [.getNotification] }
  | requeueNotification {k n q} : s.requeues[k]? = some .getNotification →
      Step svc s (.requeueNotification k n) { s with requeues := s.requeues.set k (.applyAsync q) }
  | requeuePublish {k q} : s.requeues[k]? = some (.applyAsync q) →
      Step svc s (.requeuePublish k)
        { s with requeues := s.requeues.set k .done, ready := s.ready ++ [⟨0, q, 0⟩] }
  | receive {m} : m ∈ s.ready →
      Step svc s (.receive m) { s with
        ready := s.ready.erase m, execs := s.execs ++ [⟨m, true, true, .getDelivery⟩] }
  | run {i : ℕ} {e : Exec V} {a : Answer V} {q : PC V} {f : Effect} : s.execs[i]? = some e →
    e.alive = true →
      Edge svc e.message s.row e.pc a q f →
      Step svc s (.run i a) ((s.apply f).setExec i { e with pc := q })
  | crash {i : ℕ} {e : Exec V} : s.execs[i]? = some e → e.live = true →
      Step svc s (.crash i) (s.setExec i { e with alive := false })
  | ack {i : ℕ} {e : Exec V} : s.execs[i]? = some e → e.held = true → e.pc.isFinished = true →
      Step svc s (.ack i) (s.setExec i { e with held := false })
  | redeliver {i : ℕ} {e : Exec V} : s.execs[i]? = some e → e.held = true →
      Step svc s (.redeliver i) ((s.apply (.publish e.message)).setExec i { e with held := false })
  | lose {i : ℕ} {e : Exec V} : s.execs[i]? = some e → e.held = true → e.alive = false →
      Step svc s (.lose i) (s.setExec i { e with held := false })

variable {svc : TemplateService V} {s t : State V} {a : Action V}

theorem step_cases (h : step svc s a = some t) : Step svc s a t := by
  cases a with
  | apiPublish =>
    obtain ⟨q, hq, rfl⟩ := Option.map_eq_some_iff.mp h
    exact .apiPublish hq
  | reconcile now =>
    simp only [step, Option.ite_none_right_eq_some, Option.some.injEq] at h
    obtain ⟨hp, rfl⟩ := h
    exact .reconcile (getPendingDeliveries_pending hp)
  | requeueNotification k n =>
    simp only [step] at h
    split at h <;> simp only [Option.some.injEq, reduceCtorEq] at h
    subst h
    exact .requeueNotification ‹_›
  | requeuePublish k =>
    simp only [step] at h
    split at h <;> simp only [Option.some.injEq, reduceCtorEq] at h
    subst h
    exact .requeuePublish ‹_›
  | receive m =>
    simp only [step, Option.ite_none_right_eq_some, Option.some.injEq] at h
    obtain ⟨hm, rfl⟩ := h
    exact .receive hm
  | run i a =>
    obtain ⟨e, he, h⟩ := Option.bind_eq_some_iff.mp h
    simp only [Option.ite_none_right_eq_some, Option.map_eq_some_iff] at h
    obtain ⟨ha, ⟨q, f⟩, hn, rfl⟩ := h
    exact .run he ha (next_edge hn)
  | crash i | ack i | redeliver i | lose i =>
    obtain ⟨e, he, h⟩ := Option.bind_eq_some_iff.mp h
    simp only [Option.ite_none_right_eq_some, Bool.and_eq_true, Bool.not_eq_true',
      Option.some.injEq] at h
    obtain ⟨hg, rfl⟩ := h
    constructor <;> simp_all

@[simp] theorem apply_execs (s : State V) (f : Effect) : (s.apply f).execs = s.execs := by
  cases f <;> rfl

@[simp] theorem setExec_execs (s : State V) (i : ℕ) (e : Exec V) :
    (s.setExec i e).execs = s.execs.set i e := rfl

theorem sys_step (h : (sys svc).Tr s a t) : Step svc s a t := step_cases h

/-- What the executions of a delivery have in common: its committed row and its history. -/
structure Ledger where
  row : Delivery
  invoked : ℕ
  succeeded : ℕ
  handled : ℕ

def State.ledger (s : State V) : Ledger := ⟨s.row, s.invoked, s.succeeded, s.handled⟩

/-- What a step does to the ledger and to the number of executions with `p`. -/
inductive Moves (svc : TemplateService V) (p : Exec V → Bool) (s : State V) (a : Action V)
    (t : State V) : Prop where
  | still : t.ledger = s.ledger → t.execs.countP p = s.execs.countP p → Moves svc p s a t
  | receive {m : Message} : a = .receive m → t.ledger = s.ledger →
      t.execs.countP p = s.execs.countP p + (p ⟨m, true, true, .getDelivery⟩).toNat →
      Moves svc p s a t
  | run {i : ℕ} {e : Exec V} {b : Answer V} {q : PC V} {f : Effect} : a = .run i b →
      s.execs[i]? = some e → e.alive = true → Edge svc e.message s.row e.pc b q f →
      t.ledger = (s.apply f).ledger →
      t.execs.countP p + (p e).toNat = s.execs.countP p + (p { e with pc := q }).toNat →
      Moves svc p s a t
  | crash {i : ℕ} {e : Exec V} : a = .crash i → s.execs[i]? = some e → t.ledger = s.ledger →
      t.execs.countP p + (p e).toNat = s.execs.countP p + (p { e with alive := false }).toNat →
      Moves svc p s a t

/-- The broker's own steps change no count that does not look at `held`. -/
theorem moves_step {p : Exec V → Bool} (hheld : ∀ e, p { e with held := false } = p e)
    (h : Step svc s a t) : Moves svc p s a t := by
  cases h with
  | apiPublish | reconcile | requeueNotification | requeuePublish => exact .still rfl rfl
  | @receive m =>
    refine .receive rfl rfl ?_
    rw [List.countP_append, List.countP_singleton]
    cases p ⟨m, true, true, .getDelivery⟩ <;> rfl
  | run he ha hedge =>
    refine .run rfl he ha hedge rfl ?_
    rw [setExec_execs, apply_execs]
    exact Pool.countP_set he
  | crash he => exact .crash rfl he rfl (Pool.countP_set he)
  | ack he | lose he => exact .still rfl (Pool.countP_set_eq he (hheld _))
  | redeliver he =>
    refine .still rfl ?_
    rw [setExec_execs, apply_execs]
    exact Pool.countP_set_eq he (hheld _)

/-! ### A concrete delivery -/

def plainText : TemplateService Unit := ⟨fun content subject _ => .ok (subject, content), ()⟩

def otpTemplate : Template := ⟨1, "otp", some "Your Code", "Your code is 555666"⟩

def otpNotification : Notification Unit := ⟨1, "user_happy", some 1, none, .high, none⟩

/-- An EMAIL delivery of HIGH priority, created at time 0. -/
def otpDelivery : State Unit := initial .email 0 .high

def otpMessage : Message := ⟨0, "high", 0⟩

/-- A tick 400 seconds after the creation that re-enqueues the delivery. -/
def requeueSteps (k : ℕ) : List (Action Unit) :=
  [.reconcile 400000000, .requeueNotification k (some otpNotification), .requeuePublish k]

/-- From the status check to the COMMIT of the first call, which it does not yet make. -/
def loadSteps (i : ℕ) : List (Action Unit) :=
  [.run i .ok, .run i (.notification (some otpNotification)),
    .run i (.template (some otpTemplate)), .run i .ok]

/-- The COMMIT of SENT, its refresh and the call of the provider. -/
def sendSteps (i : ℕ) : List (Action Unit) := [.run i .ok, .run i .ok, .run i .ok]

/-- The provider's answer, and the SELECT, COMMIT and refresh of the call it leads to. -/
def settleSteps (i : ℕ) (r : SendResult) : List (Action Unit) :=
  [.run i (.provider r), .run i .ok, .run i .ok, .run i .ok]

end NotificationService.Worker
