import Mathlib.Data.List.Basic

/-! The rows and enumerations shared by the API handlers and the worker. -/
namespace NotificationService

inductive Priority where
  | critical | high | normal | low
  deriving DecidableEq, Repr

/-- `priority.value.lower()`. -/
def Priority.lower : Priority → String
  | .critical => "critical"
  | .high => "high"
  | .normal => "normal"
  | .low => "low"

/-- The Celery queue that the handler and the reconciler both compute from a priority. -/
def queueName (p : Priority) : String :=
  if p.lower = "normal" then "default" else p.lower

/-- The channel column is text; requests can only put the first three values there. -/
inductive Channel where
  | email | sms | push
  | other (text : String)
  deriving DecidableEq, Repr

/-- A row of `templates`. -/
structure Template where
  id : ℕ
  name : String
  subject : Option String
  content : String
  deriving DecidableEq, Repr

/-- The columns of a `notifications` row, over the type `V` of template variables. -/
structure Notification (V : Type) where
  id : ℕ
  userId : String
  templateId : Option ℕ
  templateVariables : Option V
  priority : Priority
  idempotencyKey : Option String
  deriving DecidableEq, Repr

/-- What the callers use of `TemplateService`: `render_subject_and_body` on a body, an optional
subject and the variables, and the empty variables `{}`. -/
structure TemplateService (V : Type) where
  renderSubjectAndBody : String → Option String → V → Except String (Option String × String)
  noVariables : V

end NotificationService
