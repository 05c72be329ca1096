import NotificationService.Api.Preferences
import NotificationService.Api.Templates
import NotificationService.Worker.System

/-! The deployed system: the endpoints, the worker's executions and reconciliation ticks, and Beat,
on one database and one broker. What an operation reads from a table is what the table holds. -/
namespace NotificationService.Deployment

open Transition

/-- The uuid of a delivery row. -/
def deliveryId (d : Api.DeliveryRow) : ℕ × ℕ := (d.notificationId, d.id)

inductive TaskMessage where
  | sendNotificationDelivery (id : ℕ × ℕ) (m : Worker.Message)
  | reconcilePendingDeliveries (queue : String)
  deriving DecidableEq, Repr

def TaskMessage.queue : TaskMessage → String
  | .sendNotificationDelivery _ m => m.queue
  | .reconcilePendingDeliveries queue => queue

/-- The queue of a task that is published with none: `celery_app` does not set
`task_default_queue`, and Beat's schedule names no queue. -/
def taskDefaultQueue : String := "celery"

/-- `-Q critical,high,default,low`. -/
def workerQueues : List String := ["critical", "high", "default", "low"]

structure Exec (V : Type) where
  delivery : ℕ × ℕ
  message : Worker.Message
  held : Bool
  alive : Bool
  pc : Worker.PC V
  deriving DecidableEq, Repr

/-- The operation that `reconcile_pending_deliveries` awaits next, with the stuck rows to go. -/
inductive Tick where
  | getPendingDeliveries
  | getNotification (d : Api.DeliveryRow) (stuck : List Api.DeliveryRow)
  | applyAsync (d : Api.DeliveryRow) (stuck : List Api.DeliveryRow) (queue : String)
  | finished
  deriving DecidableEq, Repr

/-- `deliveries` are the committed rows as the worker has updated them; `api` keeps them as its
sessions hold them. `validated` is history: the subject and body that each handler has rendered. -/
structure State (V : Type) where
  api : Api.State V
  templates : Api.Templates.State
  preferences : Api.Preferences.State
  deliveries : List Api.DeliveryRow
  broker : List TaskMessage
  execs : List (Exec V)
  ticks : List Tick
  validated : ℕ → Option (Option String × String)

/-- An answer that reads a table is given as `ok`. -/
inductive Action (V : Type) where
  | api (a : Api.Action V)
  | template (a : Api.Templates.Action)
  | preference (a : Api.Preferences.Action)
  | beat
  | receive (m : TaskMessage)
  | exec (i : ℕ) (a : Worker.Answer V)
  | crash (i : ℕ)
  | ack (i : ℕ)
  | redeliver (i : ℕ)
  | lose (i : ℕ)
  | tick (k : ℕ) (now : ℤ)
  | tickRaised (k : ℕ)
  deriving DecidableEq, Repr

variable {V : Type}

def initial : State V where
  api := Api.initial
  templates := Api.Templates.initial
  preferences := Api.Preferences.initial fun _ => none
  deliveries := []
  broker := []
  execs := []
  ticks := []
  validated := fun _ => none

/-! ### Lookups -/

def State.row (s : State V) (id : ℕ × ℕ) : Option Worker.Delivery :=
  (s.deliveries.find? (deliveryId · = id)).map (·.columns)

/-- `NotificationRepository.get_by_id`. -/
def State.notification (s : State V) (id : ℕ) : Option (Notification V) :=
  s.api.notifications.find? (·.id = id)

def State.template (s : State V) (id : ℕ) : Option Template :=
  Api.Templates.getById s.templates.templates id

/-- What the awaited operation of a handler yields. -/
def State.answer (s : State V) (h : Api.Handler V) : Api.Answer → Option Api.Answer
  | .template _ | .preference _ => none
  | .ok =>
    match h.pc with
    | .getTemplate =>
      some (.template (Api.Templates.getByName s.templates.templates h.payload.templateName))
    | .getPreference _ => some (.preference (s.preferences.rows h.payload.userId))
    | _ => some .ok
  | a => some a

def State.resolve (s : State V) : Api.Action V → Option (Api.Action V)
  | .run i a => s.api.handlers[i]?.bind fun h => (s.answer h a).map (.run i ·)
  | a => some a

/-- What the awaited operation of an execution yields. -/
def State.taskAnswer (s : State V) (e : Exec V) : Worker.Answer V → Option (Worker.Answer V)
  | .notification _ | .template _ => none
  | .ok =>
    match e.pc with
    | .getNotification _ => some (.notification (s.notification e.delivery.1))
    | .getTemplate _ n => some (.template (n.templateId.bind s.template))
    | _ => some .ok
  | a => some a

/-! ### Effects -/

def State.publish (s : State V) (m : TaskMessage) : State V := { s with broker := s.broker ++ [m] }

def enqueue (m : Api.TaskMessage) : TaskMessage :=
  .sendNotificationDelivery (deliveryId m.delivery) ⟨0, m.queue, 0⟩

/-- The history after an action in which handler `i` validates its template. -/
def State.validate (svc : TemplateService V) (s : State V) :
    Api.Action V → ℕ → Option (Option String × String)
  | .run i (.template (some t)) =>
    match s.api.handlers[i]? with
    | some h =>
      match svc.renderSubjectAndBody t.content t.subject h.payload.vars with
      | .ok r => Function.update s.validated i (some r)
      | .error _ => s.validated
    | none => s.validated
  | _ => s.validated

/-- The rows and messages that an action of the API adds are added to the shared ones. -/
def State.afterApi (svc : TemplateService V) (s : State V) (a : Api.Action V) (t : Api.State V) :
    State V :=
  { s with
    api := t
    deliveries := s.deliveries ++ t.deliveries.drop s.api.deliveries.length
    broker := s.broker ++ (t.messages.drop s.api.messages.length).map enqueue
    validated := s.validate svc a }

def updateRow (id : ℕ × ℕ) (c : Worker.Call) (d : Worker.Delivery) (r : Api.DeliveryRow) :
    Api.DeliveryRow :=
  if deliveryId r = id then { r with columns := Worker.flush d (c.update.assign d) r.columns } else r

def State.apply (s : State V) (id : ℕ × ℕ) : Worker.Effect → State V
  | .commit c d => { s with deliveries := s.deliveries.map (updateRow id c d) }
  | .publish m => s.publish (.sendNotificationDelivery id m)
  | _ => s

def State.setExec (s : State V) (i : ℕ) (e : Exec V) : State V :=
  { s with execs := s.execs.set i e }

def State.setTick (s : State V) (k : ℕ) (p : Tick) : State V := { s with ticks := s.ticks.set k p }

/-- The task starts. -/
def State.start (s : State V) : TaskMessage → State V
  | .sendNotificationDelivery id m =>
    { s with execs := s.execs ++ [⟨id, m, true, true, .getDelivery⟩] }
  | .reconcilePendingDeliveries _ => { s with ticks := s.ticks ++ [.getPendingDeliveries] }

/-! ### Steps -/

/-- One operation of the task on its row. Rows are not deleted, so only the first SELECT can miss. -/
def execute (svc : TemplateService V) (m : Worker.Message) :
    Option Worker.Delivery → Worker.PC V → Worker.Answer V → Option (Worker.PC V × Worker.Effect)
  | some row, p, a => Worker.next svc m row p a
  | none, .getDelivery, .ok => some (.finished .returned, .none)
  | none, .getDelivery, .raised _ _ => some (.finished .raised, .none)
  | none, _, _ => none

def nextStuck : List Api.DeliveryRow → Tick
  | [] => .finished
  | d :: stuck => .getNotification d stuck

def State.runTick (s : State V) (k : ℕ) (now : ℤ) : Tick → Option (State V)
  | .getPendingDeliveries =>
    some (s.setTick k (nextStuck
      (s.deliveries.filter fun d => Worker.getPendingDeliveries 300 now d.columns)))
  | .getNotification d stuck =>
    let priority := (s.notification d.notificationId).elim .normal (·.priority)
    some (s.setTick k (.applyAsync d stuck (queueName priority)))
  | .applyAsync d stuck queue =>
    some ((s.publish (.sendNotificationDelivery (deliveryId d) ⟨0, queue, 0⟩)).setTick k
      (nextStuck stuck))
  | .finished => none

/-- The branches of the task that give a delivery up before it is tried. -/
inductive Branch where
  | deliveryNotFound
  | notificationNotFound
  | templateMissing
  | compilationError
  | unsupportedChannel
  deriving DecidableEq, Repr

def callBranch : Worker.Call → Option Branch
  | .templateMissing => some .templateMissing
  | .renderFailed _ => some .compilationError
  | .unsupportedChannel _ => some .unsupportedChannel
  | _ => none

/-- The branch that an operation of the task enters. -/
def taskBranch (row : Option Worker.Delivery) :
    Worker.PC V → Worker.Answer V → Worker.PC V → Option Branch
  | .getDelivery, .ok, _ => if row.isNone then some .deliveryNotFound else none
  | .getNotification _, .notification none, _ => some .notificationNotFound
  | .getNotification _, _, .select c _ => callBranch c
  | .getTemplate _ _, _, .select c _ => callBranch c
  | _, _, _ => none

def State.branch (svc : TemplateService V) (s : State V) : Action V → Option Branch
  | .exec i a =>
    s.execs[i]?.bind fun e => (s.taskAnswer e a).bind fun b =>
      (execute svc e.message (s.row e.delivery) e.pc b).bind fun (q, _) =>
        taskBranch (s.row e.delivery) e.pc b q
  | _ => none

def step [BEq V] (svc : TemplateService V) (queues : List String) (s : State V) :
    Action V → Option (State V)
  | .api a => (s.resolve a).bind fun a => (Api.step svc s.api a).map (s.afterApi svc a)
  | .template a => (Api.Templates.step s.templates a).map fun t => { s with templates := t }
  | .preference a => (Api.Preferences.step s.preferences a).map fun t => { s with preferences := t }
  | .beat => some (s.publish (.reconcilePendingDeliveries taskDefaultQueue))
  | .receive m =>
    if m ∈ s.broker ∧ m.queue ∈ queues then
      some (State.start { s with broker := s.broker.erase m } m)
    else none
  | .exec i a =>
    s.execs[i]?.bind fun e => (s.taskAnswer e a).bind fun a =>
      if e.alive then
        (execute svc e.message (s.row e.delivery) e.pc a).map fun (q, f) =>
          (s.apply e.delivery f).setExec i { e with pc := q }
      else none
  | .crash i =>
    s.execs[i]?.bind fun e =>
      if e.alive && !e.pc.isFinished then some (s.setExec i { e with alive := false }) else none
  | .ack i =>
    s.execs[i]?.bind fun e =>
      if e.held && e.pc.isFinished then some (s.setExec i { e with held := false }) else none
  | .redeliver i =>
    s.execs[i]?.bind fun e =>
      if e.held then
        some ((s.publish (.sendNotificationDelivery e.delivery e.message)).setExec i
          { e with held := false })
      else none
  | .lose i =>
    s.execs[i]?.bind fun e =>
      if e.held && !e.alive then some (s.setExec i { e with held := false }) else none
  | .tick k now => s.ticks[k]?.bind (s.runTick k now)
  | .tickRaised k =>
    s.ticks[k]?.bind fun p => if p = .finished then none else some (s.setTick k .finished)

/-- The system with a worker that consumes these queues. -/
def sys [BEq V] (svc : TemplateService V) (queues : List String) : LTS (State V) (Action V) :=
  LTS.ofStep (step svc queues)

/-! ### The transitions -/

/-- What the actions do; `marked` is a crash, an acknowledgement or a loss. -/
inductive Step [BEq V] (svc : TemplateService V) (queues : List String) (s : State V) :
    Action V → State V → Prop where
  | api {a b : Api.Action V} {t : Api.State V} : s.resolve a = some b →
      Api.step svc s.api b = some t → Step svc queues s (.api a) (s.afterApi svc b t)
  | template {a : Api.Templates.Action} {t : Api.Templates.State} :
      Api.Templates.step s.templates a = some t →
      Step svc queues s (.template a) { s with templates := t }
  | preference {a : Api.Preferences.Action} {t : Api.Preferences.State} :
      Step svc queues s (.preference a) { s with preferences := t }
  | beat : Step svc queues s .beat (s.publish (.reconcilePendingDeliveries taskDefaultQueue))
  | receive {m : TaskMessage} : m ∈ s.broker → m.queue ∈ queues →
      Step svc queues s (.receive m) (State.start { s with broker := s.broker.erase m } m)
  | exec {i : ℕ} {e : Exec V} {a b : Worker.Answer V} {q : Worker.PC V} {f : Worker.Effect} :
      s.execs[i]? = some e → s.taskAnswer e a = some b →
      execute svc e.message (s.row e.delivery) e.pc b = some (q, f) →
      Step svc queues s (.exec i a) ((s.apply e.delivery f).setExec i { e with pc := q })
  | marked {a : Action V} {i : ℕ} {e : Exec V} {held alive : Bool} :
      (∀ j b, a ≠ .exec j b) → a ≠ .beat → s.execs[i]? = some e →
      Step svc queues s a (s.setExec i { e with held := held, alive := alive })
  | redeliver {i : ℕ} {e : Exec V} : s.execs[i]? = some e → e.held = true →
      Step svc queues s (.redeliver i)
        ((s.publish (.sendNotificationDelivery e.delivery e.message)).setExec i
          { e with held := false })
  | tick {k : ℕ} {now : ℤ} {p : Tick} {t : State V} : s.ticks[k]? = some p →
      s.runTick k now p = some t → Step svc queues s (.tick k now) t
  | tickRaised {k : ℕ} : Step svc queues s (.tickRaised k) (s.setTick k .finished)

variable [BEq V] {svc : TemplateService V} {queues : List String} {s t : State V} {a : Action V}

theorem step_cases (hs : step svc queues s a = some t) : Step svc queues s a t := by
  cases a with
  | api a =>
    obtain ⟨b, hb, hs⟩ := Option.bind_eq_some_iff.mp hs
    obtain ⟨u, hu, rfl⟩ := Option.map_eq_some_iff.mp hs
    exact .api hb hu
  | template a =>
    obtain ⟨u, hu, rfl⟩ := Option.map_eq_some_iff.mp hs
    exact .template hu
  | preference a =>
    obtain ⟨u, _, rfl⟩ := Option.map_eq_some_iff.mp hs
    exact .preference
  | beat =>
    cases hs
    exact .beat
  | receive m =>
    simp only [step, Option.ite_none_right_eq_some, Option.some.injEq] at hs
    obtain ⟨⟨hm, hq⟩, rfl⟩ := hs
    exact .receive hm hq
  | exec i a =>
    obtain ⟨e, he, hs⟩ := Option.bind_eq_some_iff.mp hs
    obtain ⟨b, hb, hs⟩ := Option.bind_eq_some_iff.mp hs
    simp only [Option.ite_none_right_eq_some, Option.map_eq_some_iff] at hs
    obtain ⟨_, ⟨q, f⟩, hn, rfl⟩ := hs
    exact .exec he hb hn
  | crash i | ack i | lose i =>
    obtain ⟨e, he, hs⟩ := Option.bind_eq_some_iff.mp hs
    simp only [Option.ite_none_right_eq_some, Option.some.injEq] at hs
    obtain ⟨_, rfl⟩ := hs
    exact .marked nofun nofun he
  | redeliver i =>
    obtain ⟨e, he, hs⟩ := Option.bind_eq_some_iff.mp hs
    simp only [Option.ite_none_right_eq_some, Option.some.injEq] at hs
    obtain ⟨hheld, rfl⟩ := hs
    exact .redeliver he hheld
  | tick k now =>
    obtain ⟨p, hp, hs⟩ := Option.bind_eq_some_iff.mp hs
    exact .tick hp hs
  | tickRaised k =>
    obtain ⟨p, _, hs⟩ := Option.bind_eq_some_iff.mp hs
    simp only [Option.ite_none_left_eq_some, Option.some.injEq] at hs
    obtain ⟨_, rfl⟩ := hs
    exact .tickRaised

theorem sys_step (hs : (sys svc queues).Tr s a t) : Step svc queues s a t := step_cases hs

end NotificationService.Deployment
