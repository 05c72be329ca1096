import NotificationService.Foundation.ExpiringStore
import NotificationService.Api.Requests

/-! One execution of `send_notification`: its operations on Redis, the database and the broker,
what each does and where it leads, and the exits that delete the key. -/
namespace NotificationService.Api

open ExpiringStore Worker

/-- The rows of an open transaction. -/
structure Tx (V : Type) where
  notification : Notification V
  deliveries : List DeliveryRow
  logs : List LogRow
  deriving DecidableEq, Repr

inductive Response (V : Type) where
  | created (body : NotificationResponse V)
  | cached (statusCode : ℕ) (body : NotificationResponse V)
  | error (err : ApiError)
  deriving DecidableEq, Repr

/-- The operation a handler awaits next, with the locals that it needs later. -/
inductive PC (V : Type) where
  | getEntry
  | setLock
  | checkRateLimit
  | getTemplate
  | getPreference (templateId : ℕ)
  | createNotification (templateId : ℕ) (channels : List ChannelEnum)
  | insertDelivery (channels : List ChannelEnum)
  | insertLog (channels : List ChannelEnum)
  | commit
  | applyAsync (deliveries : List DeliveryRow)
  | reload
  | saveResponse (body : NotificationResponse V)
  | deleteKey (err : ApiError)
  | finished (r : Response V)
  deriving DecidableEq, Repr

/-- A handler with its header and payload. `built` and `failure` are history: the response body it
built, and the operation it failed in, with whether that had taken effect. -/
structure Handler (V : Type) where
  key : Option String
  payload : NotificationRequest V
  alive : Bool
  pc : PC V
  tx : Option (Tx V)
  built : Option (NotificationResponse V)
  failure : Option (PC V × Bool)
  deriving DecidableEq, Repr

/-- A task message: the delivery and the queue. -/
structure TaskMessage where
  delivery : DeliveryRow
  queue : String
  deriving DecidableEq, Repr

/-- Redis, the committed rows, the messages published so far, and the handlers. -/
structure State (V : Type) where
  clock : ℕ
  redis : Store String (IdempotencyEntry V)
  notifications : List (Notification V)
  deliveries : List DeliveryRow
  logs : List LogRow
  messages : List TaskMessage
  handlers : List (Handler V)

/-- What an operation yields where the stores do not decide it. An operation that raises may have
taken effect. The rows of the reload come as they were inserted, or in another order. -/
inductive Answer where
  | ok
  | rateLimited (retryAfter : ℤ)
  | template (t : Option Template)
  | preference (p : Option UserPreference)
  | deliveries (ds : List DeliveryRow)
  | raised (err : String) (applied : Bool)
  deriving DecidableEq, Repr

inductive Effect (V : Type) where
  | none
  | set (key : String) (entry : IdempotencyEntry V) (ttl : ℕ)
  | del (key : String)
  | commit (tx : Tx V)
  | publish (m : TaskMessage)
  deriving DecidableEq, Repr

variable {V : Type}

/-- `if idempotency_key`: the empty header counts as no header. -/
def Handler.lock (h : Handler V) : Option String := h.key.filter (· ≠ "")

/-- The except clauses: delete the key if there is one, then raise. -/
def Handler.cleanup (h : Handler V) (err : ApiError) : PC V :=
  if h.lock.isSome then .deleteKey err else .finished (.error err)

/-- The operations of the outer try block. -/
def PC.inTry : PC V → Bool
  | .getEntry | .setLock | .deleteKey _ | .finished _ => false
  | _ => true

def PC.inCheck : PC V → Bool
  | .getEntry | .setLock => true
  | _ => false

def PC.isFinished : PC V → Bool
  | .finished _ => true
  | _ => false

/-- TTLs in microseconds: `ex=120`, and the default of `IDEMPOTENCY_TTL_SECONDS`. -/
def lockTtl : ℕ := 120 * 1000000

def idempotencyTtl : ℕ := 86400 * 1000000

def State.get (s : State V) (key : String) : Option (IdempotencyEntry V) :=
  ExpiringStore.get s.redis (redisKey key)

/-- A committed row has this non-null key. -/
def State.taken (s : State V) (key : Option String) : Bool :=
  key.isSome && s.notifications.any (·.idempotencyKey = key)

/-- An open transaction holds a row with this non-null key. -/
def State.contended (s : State V) (key : Option String) : Bool :=
  key.isSome && s.handlers.any (·.tx.any (·.notification.idempotencyKey = key))

def State.rowsOf (s : State V) (i : ℕ) : List DeliveryRow :=
  s.deliveries.filter (·.notificationId = i)

/-- The row that handler `i` inserts; its index is its uuid. -/
def Handler.row (h : Handler V) (i templateId : ℕ) : Notification V where
  id := i
  userId := h.payload.userId
  templateId := some templateId
  templateVariables := some h.payload.vars
  priority := h.payload.priority
  idempotencyKey := h.key

def nextDelivery : List ChannelEnum → PC V
  | [] => .commit
  | channels => .insertDelivery channels

def nextPublish : List DeliveryRow → PC V
  | [] => .reload
  | deliveries => .applyAsync deliveries

/-- The operations that write: the next operation, the transaction and the effect. -/
def perform (s : State V) (i : ℕ) (h : Handler V) : Option (PC V × Option (Tx V) × Effect V) :=
  match h.pc, h.lock, h.tx with
  | .setLock, some key, _ =>
    if (s.get key).isNone then
      some (.checkRateLimit, h.tx, .set key ⟨.lock, h.payload, i⟩ lockTtl)
    else none
  -- The INSERT waits for the end of another transaction with the same key.
  | .createNotification templateId channels, _, _ =>
    if s.taken h.key || s.contended h.key then none
    else some (nextDelivery channels, some ⟨h.row i templateId, [], []⟩, .none)
  | .insertDelivery (c :: cs), _, some x =>
    let d := DeliveryRow.mk i x.deliveries.length (createDelivery c.channel s.clock).1
    some (.insertLog (c :: cs), some { x with deliveries := x.deliveries ++ [d] }, .none)
  | .insertLog (c :: cs), _, some x =>
    let l := LogRow.mk i (x.deliveries.length - 1) (createDelivery c.channel s.clock).2
    some (nextDelivery cs, some { x with logs := x.logs ++ [l] }, .none)
  | .commit, _, some x => some (nextPublish x.deliveries, none, .commit x)
  | .applyAsync (d :: ds), _, _ =>
    some (nextPublish ds, h.tx, .publish ⟨d, queueName h.payload.priority⟩)
  | .saveResponse body, some key, _ =>
    some (.finished (.created body), h.tx, .set key ⟨.done 201 body, h.payload, i⟩ idempotencyTtl)
  | .deleteKey err, some key, _ => some (.finished (.error err), h.tx, .del key)
  | _, _, _ => none

def Handler.moved (h : Handler V) (q : PC V) : Handler V := { h with pc := q }

/-- Leave the operation with an error, for `q`. -/
def Handler.fail (h : Handler V) (q : PC V) (applied : Bool) : Handler V :=
  { h with pc := q, failure := some (h.pc, applied) }

/-- The rest of `check_or_lock` on an entry that GET has found. -/
def Handler.onEntry [BEq V] (h : Handler V) (e : IdempotencyEntry V) : Handler V :=
  if e.payload.same h.payload then
    match e.status with
    | .lock => h.fail (.finished (.error lockConflict)) false
    | .done code body => h.moved (.finished (.cached code body))
  else h.fail (.finished (.error payloadConflict)) false

/-- Template lookup and validation. -/
def Handler.onTemplate (svc : TemplateService V) (h : Handler V) : Option Template → Handler V
  | none => h.fail (h.cleanup (templateNotFound h.payload.templateName)) false
  | some t =>
    match svc.renderSubjectAndBody t.content t.subject h.payload.vars with
    | .error err => h.fail (h.cleanup (.http 400 err)) false
    | .ok _ => h.moved (.getPreference t.id)

/-- The reloaded row becomes the response body, which is cached if there is a key. -/
def Handler.onReload (s : State V) (i : ℕ) (ds : List DeliveryRow) (h : Handler V) : Handler V :=
  match s.notifications.find? (·.id = i) with
  | none => h.fail (h.cleanup loadFailed) false
  | some n =>
    let body := .modelValidate n ds
    { h with
      pc := if h.lock.isSome then .saveResponse body else .finished (.created body)
      built := some body }

def Handler.performed (h : Handler V) (tx : Option (Tx V)) : Handler V := { h with tx := tx }

/-- One operation of handler `i`. -/
def next [BEq V] (svc : TemplateService V) (s : State V) (i : ℕ) (h : Handler V) :
    Answer → Option (Handler V × Effect V)
  | .raised err false =>
    match h.pc with
    | .getEntry | .setLock => some (h.fail (.finished (.error (.exception err))) false, .none)
    | .deleteKey _ => some (h.moved (.finished (.error (.exception err))), .none)
    | .finished _ => none
    | _ => some (h.fail (h.cleanup (.exception err)) false, .none)
  | .raised err true =>
    (perform s i h).map fun (_, tx, f) =>
      match h.pc with
      | .setLock => ((h.performed tx).fail (.finished (.error (.exception err))) true, f)
      | .deleteKey _ => ((h.performed tx).moved (.finished (.error (.exception err))), f)
      | _ => ((h.performed tx).fail (h.cleanup (.exception err)) true, f)
  | a =>
    match h.pc, a with
    | .getEntry, .ok =>
      h.lock.map fun key =>
        match s.get key with
        | none => (h.moved .setLock, .none)
        | some e => (h.onEntry e, .none)
    | .checkRateLimit, .ok => some (h.moved .getTemplate, .none)
    | .checkRateLimit, .rateLimited r =>
      some (h.fail (h.cleanup (.rateLimitExceeded r)) false, .none)
    | .getTemplate, .template t => some (h.onTemplate svc t, .none)
    | .getPreference templateId, .preference p =>
      some (h.moved (.createNotification templateId (filterChannels p h.payload.channels)), .none)
    | .reload, .ok => some (h.onReload s i (s.rowsOf i), .none)
    -- `selectinload` has no ORDER BY.
    | .reload, .deliveries ds =>
      if ds.isPerm (s.rowsOf i) then some (h.onReload s i ds, .none) else none
    | .setLock, .ok =>
      if (h.lock.bind s.get).isSome then
        some (h.fail (.finished (.error lockConflict)) false, .none)
      else (perform s i h).map fun (q, tx, f) => ((h.performed tx).moved q, f)
    | .createNotification _ _, .ok =>
      if s.taken h.key then some (h.fail (h.cleanup uniqueViolation) false, .none)
      else (perform s i h).map fun (q, tx, f) => ((h.performed tx).moved q, f)
    | _, .ok => (perform s i h).map fun (q, tx, f) => ((h.performed tx).moved q, f)
    | _, _ => none

end NotificationService.Api
