import Mathlib.Data.Int.Basic
import NotificationService.Foundation.UnitOfWork
import NotificationService.Service.Models

/-! The delivery row and its status-log entries, as the notification repository writes them. -/
namespace NotificationService.Worker

inductive Status where
  | pending | sent | delivered | failed
  deriving DecidableEq, Repr

/-- The columns of a `notification_deliveries` row; times are microseconds. -/
structure Delivery where
  channel : Channel
  status : Status
  retryCount : ℕ
  errorMessage : Option String
  createdAt : ℤ
  deriving DecidableEq, Repr

/-- A `notification_status_logs` row; no `fromStatus` is the text NONE. -/
structure StatusLog where
  fromStatus : Option Status
  toStatus : Status
  deriving DecidableEq, Repr

/-- `create_delivery` with its default status. -/
def createDelivery (channel : Channel) (now : ℤ) : Delivery × StatusLog :=
  (⟨channel, .pending, 0, none, now⟩, ⟨none, .pending⟩)

/-- The arguments of one `update_delivery_status` call. -/
structure Update where
  toStatus : Status
  errorMessage : Option String
  incrementRetry : Bool
  deriving DecidableEq, Repr

/-- The attribute assignments of `update_delivery_status` on the session's object. -/
def Update.assign (u : Update) (d : Delivery) : Delivery :=
  { d with
    status := u.toStatus
    errorMessage := if u.errorMessage.isSome then u.errorMessage else d.errorMessage
    retryCount := if u.incrementRetry then d.retryCount + 1 else d.retryCount }

/-- The log entry added beside the assignments, from the session's own `from_status`. -/
def Update.log (u : Update) (d : Delivery) : StatusLog := ⟨some d.status, u.toStatus⟩

/-- The committed row after the UPDATE of a session that loaded `d` and assigned `new`. -/
def flush (d new row : Delivery) : Delivery :=
  { row with
    status := UnitOfWork.writeBack d.status new.status row.status
    errorMessage := UnitOfWork.writeBack d.errorMessage new.errorMessage row.errorMessage
    retryCount := UnitOfWork.writeBack d.retryCount new.retryCount row.retryCount }

/-- `get_pending_deliveries` keeps rows PENDING and created before `now - max_age_seconds`. -/
def getPendingDeliveries (maxAgeSeconds : ℤ) (now : ℤ) (d : Delivery) : Bool :=
  d.status = .pending && d.createdAt < now - maxAgeSeconds * 1000000

variable {u : Update} {d row : Delivery}

@[simp] theorem assign_status : (u.assign d).status = u.toStatus := rfl

theorem flush_status_cases (u : Update) (d row : Delivery) :
    (flush d (u.assign d) row).status = row.status ∨
    (u.toStatus ≠ d.status ∧ (flush d (u.assign d) row).status = u.toStatus) :=
  UnitOfWork.writeBack_cases

theorem flush_status_changed (row : Delivery) (h : u.toStatus ≠ d.status) :
    (flush d (u.assign d) row).status = u.toStatus :=
  UnitOfWork.writeBack_changed h

/-- A session that had loaded the committed row commits exactly what it assigned. -/
theorem flush_fresh : flush row (u.assign row) row = u.assign row := by
  simp [flush, Update.assign]

/-- An increment commits one more than the counter the session loaded, whatever the row holds. -/
theorem flush_retryCount (u : Update) (d row : Delivery) :
    (flush d (u.assign d) row).retryCount =
      if u.incrementRetry then d.retryCount + 1 else row.retryCount := by
  cases hu : u.incrementRetry with
  | false => simp [flush, Update.assign, hu]
  | true =>
    have hne : d.retryCount + 1 ≠ d.retryCount := Nat.succ_ne_self _
    simp [flush, Update.assign, hu, UnitOfWork.writeBack_changed hne]

/-- A PENDING row is selected at every time far enough after its creation. -/
theorem getPendingDeliveries_eventually (maxAgeSeconds : ℤ) (h : d.status = .pending) :
    ∃ old, ∀ now, old < now → getPendingDeliveries maxAgeSeconds now d = true := by
  refine ⟨d.createdAt + maxAgeSeconds * 1000000, ?_⟩
  intro now hnow
  simp only [getPendingDeliveries, h, decide_true, Bool.true_and, decide_eq_true_eq]
  omega

theorem getPendingDeliveries_pending {maxAgeSeconds now : ℤ}
    (h : getPendingDeliveries maxAgeSeconds now d = true) : d.status = .pending := by
  simp only [getPendingDeliveries, Bool.and_eq_true, decide_eq_true_eq] at h
  exact h.1

end NotificationService.Worker
