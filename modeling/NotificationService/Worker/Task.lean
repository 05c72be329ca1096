import Mathlib.Algebra.Group.Nat.Defs
import NotificationService.Worker.Delivery

/-! One execution of `send_notification_delivery`: its awaited operations, what each answer leads
to, and the exception paths of its try block. -/
namespace NotificationService.Worker

/-- A message for the delivery: Celery's retry counter, its queue and its delay in seconds. -/
structure Message where
  retries : ℕ
  queue : String
  countdown : ℕ
  deriving DecidableEq, Repr

def maxRetries : ℕ := 3

/-- `self.retry`: the next counter on the same queue, delayed by `4 ** retry_count`. -/
def Message.retry (m : Message) : Message := ⟨m.retries + 1, m.queue, 4 ^ m.retries⟩

/-- The arguments of `provider.send`. -/
structure Outgoing where
  target : String
  content : String
  subject : Option String
  deriving DecidableEq, Repr

inductive SendResult where
  | success
  | providerError (err : String)
  | exception (err : String)
  deriving DecidableEq, Repr

/-- The statement of the try body that a fatal exception came from. -/
inductive TryStatement where
  | sent | send | delivered
  deriving DecidableEq, Repr

/-- The call sites of `update_delivery_status` in the task. -/
inductive Call where
  | templateMissing
  | renderFailed (err : String)
  | unsupportedChannel (text : String)
  | sent (out : Outgoing)
  | delivered
  | exhausted (err : String)
  | transient (err : String)
  | fatal (origin : TryStatement) (err : String)
  deriving DecidableEq, Repr

def Call.update : Call → Update
  | .templateMissing => ⟨.failed, some "Associated template was deleted or not found.", false⟩
  | .renderFailed err => ⟨.failed, some ("Template compilation error: " ++ err), false⟩
  | .unsupportedChannel text => ⟨.failed, some ("Unsupported channel: " ++ text), false⟩
  | .sent _ => ⟨.sent, none, false⟩
  | .delivered => ⟨.delivered, none, false⟩
  | .exhausted err => ⟨.failed, some ("Delivery failed after max retries: " ++ err), true⟩
  | .transient err => ⟨.pending, some ("Provider transient error: " ++ err), true⟩
  | .fatal _ err => ⟨.failed, some ("Fatal exception: " ++ err), false⟩

inductive Outcome where
  | returned | retried | raised
  deriving DecidableEq, Repr

/-- The operation an execution awaits next. `d` is the session's loaded copy of the row; the
three stages of a call are the SELECT, the COMMIT and the refresh of `update_delivery_status`. -/
inductive PC (V : Type) where
  | getDelivery
  | getNotification (d : Delivery)
  | getTemplate (d : Delivery) (n : Notification V)
  | select (c : Call) (d : Delivery)
  | commit (c : Call) (d : Delivery)
  | refresh (c : Call) (d : Delivery)
  | send (out : Outgoing) (d : Delivery)
  | sending (out : Outgoing) (d : Delivery)
  | retry
  | finished (o : Outcome)
  deriving DecidableEq, Repr

/-- What the awaited operation yields. After `raised err usable` the session can still be used
only if `usable`, as when a new transaction could not get a connection. -/
inductive Answer (V : Type) where
  | ok
  | notification (n : Option (Notification V))
  | template (t : Option Template)
  | provider (r : SendResult)
  | raised (err : String) (usable : Bool)
  deriving DecidableEq, Repr

/-- What an operation does outside the execution. -/
inductive Effect where
  | none
  | commit (c : Call) (d : Delivery)
  | invoked
  | succeeded
  | publish (m : Message)
  deriving DecidableEq, Repr

variable {V : Type}

/-- From the loaded template to the first `update_delivery_status`: rendering, then the choice of
provider and target. -/
def prepare (svc : TemplateService V) (d : Delivery) (n : Notification V) : Option Template → Call
  | none => .templateMissing
  | some t =>
    match svc.renderSubjectAndBody t.content t.subject
        (n.templateVariables.getD svc.noVariables) with
    | .error err => .renderFailed err
    | .ok (subject, content) =>
      match d.channel with
      | .email => .sent ⟨n.userId ++ "@example.com", content, subject⟩
      | .sms => .sent ⟨"+15555555555", content, subject⟩
      | .push => .sent ⟨"push_token_" ++ n.userId, content, subject⟩
      | .other text => .unsupportedChannel text

/-- The call made in the `except ProviderError` clause. -/
def providerFailed (retries : ℕ) (err : String) : Call :=
  if retries ≥ maxRetries then .exhausted err else .transient err

/-- The statement after a call has returned, the session holding the refreshed row. -/
def Call.resume (d : Delivery) : Call → PC V
  | .sent out => .send out d
  | .transient _ => .retry
  | .templateMissing | .renderFailed _ | .unsupportedChannel _ | .delivered => .finished .returned
  | .exhausted _ | .fatal _ _ => .finished .raised

/-- Where a failed refresh leads: the two calls of the try body fall into `except Exception`,
whose own call raises in turn when the session is unusable. The session is taken to keep its copy,
although SQLAlchemy expires the attributes before it refreshes them. -/
def Call.rescue (err : String) (usable : Bool) (d : Delivery) : Call → PC V
  | .sent _ => if usable then .select (.fatal .sent err) d else .finished .raised
  | .delivered => if usable then .select (.fatal .delivered err) d else .finished .raised
  | _ => .finished .raised

/-- The task body, one awaited operation at a time; `row` is the committed row at that moment. -/
def next (svc : TemplateService V) (m : Message) (row : Delivery) :
    PC V → Answer V → Option (PC V × Effect)
  | .getDelivery, .ok =>
    some (if row.status ∈ [.sent, .delivered, .failed] then .finished .returned
      else .getNotification row, .none)
  | .getNotification _, .notification none => some (.finished .returned, .none)
  | .getNotification d, .notification (some n) =>
    some (if n.templateId.isSome then .getTemplate d n else .select (prepare svc d n none) d, .none)
  | .getTemplate d n, .template t => some (.select (prepare svc d n t) d, .none)
  -- The SELECT returns the object the session already holds, with its loaded attributes.
  | .select c d, .ok => some (.commit c d, .none)
  -- A COMMIT that takes effect and then raises is this one, followed by a failed refresh.
  | .commit c d, .ok => some (.refresh c (c.update.assign d), .commit c d)
  | .refresh c _, .ok => some (c.resume row, .none)
  | .refresh c d, .raised err usable => some (c.rescue err usable d, .none)
  | .send out d, .ok => some (.sending out d, .invoked)
  | .sending _ d, .provider .success => some (.select .delivered d, .succeeded)
  | .sending _ d, .provider (.providerError err) =>
    some (.select (providerFailed m.retries err) d, .none)
  | .sending _ d, .provider (.exception err) => some (.select (.fatal .send err) d, .none)
  | .retry, .ok => some (.finished .retried, .publish m.retry)
  -- Inside the try body a failed SELECT or COMMIT reaches `except Exception` too, but leaves the
  -- session unusable, so the call made there raises and the exception leaves the task.
  | .getDelivery, .raised _ _ | .getNotification _, .raised _ _ | .getTemplate _ _, .raised _ _
  | .select _ _, .raised _ _ | .commit _ _, .raised _ _ | .retry, .raised _ _ =>
    some (.finished .raised, .none)
  | _, _ => none

/-- The control flow of the task: where each answer of the awaited operation leads, and with what
effect. -/
inductive Edge (svc : TemplateService V) (m : Message) (row : Delivery) :
    PC V → Answer V → PC V → Effect → Prop where
  | skip : row.status ≠ .pending → Edge svc m row .getDelivery .ok (.finished .returned) .none
  | load : row.status = .pending → Edge svc m row .getDelivery .ok (.getNotification row) .none
  | noNotification {d : Delivery} :
      Edge svc m row (.getNotification d) (.notification none) (.finished .returned) .none
  | notification {d : Delivery} {n : Notification V} :
      Edge svc m row (.getNotification d) (.notification (some n)) (.getTemplate d n) .none
  | noTemplate {d : Delivery} {n : Notification V} :
      Edge svc m row (.getNotification d) (.notification (some n))
        (.select (prepare svc d n none) d) .none
  | prepared {d : Delivery} {n : Notification V} {t : Option Template} :
      Edge svc m row (.getTemplate d n) (.template t) (.select (prepare svc d n t) d) .none
  | selected {c : Call} {d : Delivery} : Edge svc m row (.select c d) .ok (.commit c d) .none
  | committed {c : Call} {d : Delivery} :
      Edge svc m row (.commit c d) .ok (.refresh c (c.update.assign d)) (.commit c d)
  | refreshed {c : Call} {d : Delivery} : Edge svc m row (.refresh c d) .ok (c.resume row) .none
  | unrefreshed {c : Call} {d : Delivery} {err : String} {usable : Bool} :
      Edge svc m row (.refresh c d) (.raised err usable) (c.rescue err usable d) .none
  | invoked {out : Outgoing} {d : Delivery} :
      Edge svc m row (.send out d) .ok (.sending out d) .invoked
  | succeeded {out : Outgoing} {d : Delivery} :
      Edge svc m row (.sending out d) (.provider .success) (.select .delivered d) .succeeded
  | providerError {out : Outgoing} {d : Delivery} {err : String} :
      Edge svc m row (.sending out d) (.provider (.providerError err))
        (.select (providerFailed m.retries err) d) .none
  | exception {out : Outgoing} {d : Delivery} {err : String} :
      Edge svc m row (.sending out d) (.provider (.exception err)) (.select (.fatal .send err) d)
        .none
  | retried : Edge svc m row .retry .ok (.finished .retried) (.publish m.retry)
  | raised {p : PC V} {err : String} {usable : Bool} : (∀ c d, p ≠ .refresh c d) →
      Edge svc m row p (.raised err usable) (.finished .raised) .none

theorem next_edge {svc : TemplateService V} {m : Message} {row : Delivery} {p q : PC V}
    {a : Answer V} {f : Effect} (h : next svc m row p a = some (q, f)) :
    Edge svc m row p a q f := by
  unfold next at h
  split at h <;> simp only [Option.some.injEq, Prod.mk.injEq, reduceCtorEq] at h
  case h_1 =>
    obtain ⟨rfl, rfl⟩ := h
    cases hs : row.status <;> simp [Edge.skip, Edge.load, hs]
  case h_3 n =>
    obtain ⟨rfl, rfl⟩ := h
    split
    · exact .notification
    · exact .noTemplate
  all_goals
    obtain ⟨rfl, rfl⟩ := h
    constructor
  all_goals simp

/-- Only the COMMIT of a call writes the row. -/
theorem edge_commit {svc : TemplateService V} {m : Message} {row d : Delivery} {p q : PC V}
    {a : Answer V} {c : Call} (h : Edge svc m row p a q (.commit c d)) :
    p = .commit c d ∧ a = .ok ∧ q = .refresh c (c.update.assign d) := by
  cases h
  exact ⟨rfl, rfl, rfl⟩

end NotificationService.Worker
