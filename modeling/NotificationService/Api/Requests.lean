import NotificationService.Worker.Delivery

/-! The data of `POST /notifications`: the request, the rows and the entry it leaves, the answers. -/
namespace NotificationService.Api

open Worker

inductive ChannelEnum where
  | email | sms | push
  deriving DecidableEq, Repr

/-- The row of the preference map that a channel reads. -/
def ChannelEnum.channel : ChannelEnum → Channel
  | .email => .email
  | .sms => .sms
  | .push => .push

structure NotificationRequest (V : Type) where
  userId : String
  channels : Option (List ChannelEnum)
  templateName : String
  vars : V
  priority : Priority
  deriving DecidableEq, Repr

/-- Python's `==` on two dumped payloads, from the one on their variables. -/
def NotificationRequest.same {V : Type} [BEq V] (a b : NotificationRequest V) : Bool :=
  a.userId == b.userId && a.channels == b.channels && a.templateName == b.templateName &&
    a.vars == b.vars && a.priority == b.priority

structure UserPreference where
  emailEnabled : Bool
  smsEnabled : Bool
  pushEnabled : Bool
  deriving DecidableEq, Repr

def UserPreference.enabled (p : UserPreference) : ChannelEnum → Bool
  | .email => p.emailEnabled
  | .sms => p.smsEnabled
  | .push => p.pushEnabled

/-- A user without a row is opted in to every channel; no requested channels means all. -/
def filterChannels (pref : Option UserPreference) (requested : Option (List ChannelEnum)) :
    List ChannelEnum :=
  let ok := (pref.getD ⟨true, true, true⟩).enabled
  match requested with
  | none | some [] => [.email, .sms, .push].filter ok
  | some channels => channels.filter ok

/-- A `notification_deliveries` row with its keys; its uuid is its place in the notification. -/
structure DeliveryRow where
  notificationId : ℕ
  id : ℕ
  columns : Delivery
  deriving DecidableEq, Repr

structure LogRow where
  notificationId : ℕ
  deliveryId : ℕ
  entry : StatusLog
  deriving DecidableEq, Repr

/-- The fields of `NotificationResponse`. -/
structure NotificationResponse (V : Type) where
  id : ℕ
  userId : String
  templateId : Option ℕ
  templateVariables : Option V
  priority : Priority
  deliveries : List DeliveryRow
  deriving DecidableEq, Repr

def NotificationResponse.modelValidate {V : Type} (n : Notification V) (ds : List DeliveryRow) :
    NotificationResponse V :=
  ⟨n.id, n.userId, n.templateId, n.templateVariables, n.priority, ds⟩

inductive EntryStatus (V : Type) where
  | lock
  | done (statusCode : ℕ) (body : NotificationResponse V)
  deriving DecidableEq, Repr

/-- The value under `idempotency:{key}`. Its writer is history, the code stores no owner. -/
structure IdempotencyEntry (V : Type) where
  status : EntryStatus V
  payload : NotificationRequest V
  writer : ℕ
  deriving DecidableEq, Repr

def redisKey (key : String) : String := "idempotency:" ++ key

theorem redisKey_injective {k l : String} (h : redisKey k = redisKey l) : k = l := by
  simpa [redisKey] using h

inductive ApiError where
  | http (statusCode : ℕ) (detail : String)
  | rateLimitExceeded (retryAfter : ℤ)
  | exception (err : String)
  deriving DecidableEq, Repr

def payloadConflict : ApiError :=
  .http 409 "The idempotency key is already associated with a different payload."

def lockConflict : ApiError :=
  .http 409 "A request with this idempotency key is already in progress."

def templateNotFound (name : String) : ApiError :=
  .http 400 ("Template '" ++ name ++ "' not found.")

def loadFailed : ApiError := .http 500 "Notification creation failed on load."

def uniqueViolation : ApiError :=
  .exception "duplicate key value violates unique constraint \"ix_notifications_idempotency_key\""

end NotificationService.Api
