import NotificationService.Foundation.Json
import NotificationService.Api.System

/-! The payload comparison of `check_or_lock` on JSON documents. -/
namespace NotificationService.Api
open Transition ExpiringStore

/-- A dictionary of template variables. -/
structure JsonObject where
  keys : Finset String
  value : {k // k ∈ keys} → Json

def JsonObject.toJson (o : JsonObject) : Json := .object o.keys o.value

instance : BEq JsonObject := ⟨fun a b => a.toJson.pyEq b.toJson⟩

def ChannelEnum.value : ChannelEnum → String
  | .email => "EMAIL"
  | .sms => "SMS"
  | .push => "PUSH"

def dumpChannels : Option (List ChannelEnum) → Json
  | none => .scalar .null
  | some l => .array l.length fun i => .scalar (.str l[i].value)

def priorityValue : Priority → String
  | .critical => "CRITICAL"
  | .high => "HIGH"
  | .normal => "NORMAL"
  | .low => "LOW"

def payloadFields : Finset String :=
  {"user_id", "channels", "template_name", "variables", "priority"}

def NotificationRequest.dumpField (r : NotificationRequest JsonObject) (name : String) : Json :=
  if name = "user_id" then .scalar (.str r.userId)
  else if name = "channels" then dumpChannels r.channels
  else if name = "template_name" then .scalar (.str r.templateName)
  else if name = "variables" then r.vars.toJson
  else .scalar (.str (priorityValue r.priority))

/-- `payload_in.model_dump(mode="json")`. -/
def NotificationRequest.modelDump (r : NotificationRequest JsonObject) : Json :=
  .object payloadFields fun k => r.dumpField k.1

variable {a b : NotificationRequest JsonObject} {s : State JsonObject} {i : ℕ}
  {h : Handler JsonObject} {svc : TemplateService JsonObject}

@[simp] theorem pyEq_str (x y : String) :
    (Json.scalar (.str x)).pyEq (.scalar (.str y)) = true ↔ x = y := by
  simp [Json.pyEq, JsonScalar.pyEq, JsonScalar.number]

theorem value_injective {c d : ChannelEnum} (h : c.value = d.value) : c = d := by
  cases c <;> cases d <;> first | rfl | (simp [ChannelEnum.value] at h)

theorem priorityValue_injective {x y : Priority} (h : priorityValue x = priorityValue y) :
    x = y := by
  cases x <;> cases y <;> first | rfl | (simp [priorityValue] at h)

theorem channels_of_pyEq {x y : Option (List ChannelEnum)}
    (h : (dumpChannels x).pyEq (dumpChannels y) = true) : x = y := by
  cases x with
  | none => cases y with
    | none => rfl
    | some m => cases h
  | some l =>
    cases y with
    | none => cases h
    | some m =>
      have hlen : l.length = m.length := by
        by_contra hne
        simp [dumpChannels, Json.pyEq, hne] at h
      have hall : ∀ (j : ℕ) (hl : j < l.length) (hm : j < m.length), l[j].value = m[j].value := by
        have hitem := (Json.pyEq_array hlen).mp h
        exact fun j hl hm => (pyEq_str _ _).mp (hitem ⟨j, hl⟩)
      exact congrArg some (List.ext_getElem hlen fun j hl hm => value_injective (hall j hl hm))

/-- The model's comparison of requests is Python's comparison of the dumped documents. -/
theorem same_iff : a.same b = true ↔ a.modelDump.pyEq b.modelDump = true := by
  have hvars : (a.vars == b.vars) = a.vars.toJson.pyEq b.vars.toJson := rfl
  have hfields : a.modelDump.pyEq b.modelDump = true ↔ a.userId = b.userId ∧
      (dumpChannels a.channels).pyEq (dumpChannels b.channels) = true ∧
      a.templateName = b.templateName ∧ a.vars.toJson.pyEq b.vars.toJson = true ∧
      priorityValue a.priority = priorityValue b.priority := by
    have hforall : a.modelDump.pyEq b.modelDump = true ↔
        ∀ name ∈ payloadFields, (a.dumpField name).pyEq (b.dumpField name) = true :=
      Json.pyEq_object.trans ⟨fun hall name hn => hall ⟨name, hn⟩, fun hall k => hall k.1 k.2⟩
    rw [hforall]
    simp only [payloadFields, Finset.mem_insert, Finset.mem_singleton, forall_eq_or_imp, forall_eq]
    simp [NotificationRequest.dumpField]
  have hchannels : (dumpChannels a.channels).pyEq (dumpChannels b.channels) = true ↔
      a.channels = b.channels := ⟨channels_of_pyEq, fun heq => heq ▸ Json.pyEq_refl _⟩
  have hpriority : priorityValue a.priority = priorityValue b.priority ↔ a.priority = b.priority :=
    ⟨priorityValue_injective, fun heq => heq ▸ rfl⟩
  rw [hfields, hchannels, hpriority]
  simp [NotificationRequest.same, hvars, and_assoc]

theorem lockConflict_ne : lockConflict ≠ payloadConflict := by decide

/-- On an entry, `check_or_lock` raises the conflict or has found the payloads equal. -/
theorem onEntry_pc (e : IdempotencyEntry JsonObject) :
    ((h.onEntry e).pc = .finished (.error payloadConflict) ↔ e.payload.same h.payload = false) ∧
    ∀ code body, (h.onEntry e).pc = .finished (.cached code body) →
      e.payload.same h.payload = true := by
  rw [Handler.onEntry]
  cases hsame : e.payload.same h.payload with
  | true =>
    cases hstatus : e.status with
    | lock => simp [Handler.fail, lockConflict_ne]
    | done code body => simp [Handler.moved]
  | false => simp [Handler.fail]

theorem next_getEntry {key : String} {e : IdempotencyEntry JsonObject} (hpc : h.pc = .getEntry)
    (hlock : h.lock = some key) (hget : s.get key = some e) :
    next svc s i h .ok = some (h.onEntry e, .none) := by
  simp [next, hpc, hlock, hget]

/-- The conflict is raised exactly for different documents, and no body is replayed to a different
one, if and only if scalars that Python identifies are not the only difference. -/
theorem payload_conflict_exact {key : String} {e : IdempotencyEntry JsonObject}
    (hpc : h.pc = .getEntry) (hlock : h.lock = some key) (hget : s.get key = some e) :
    (∃ h' f, next svc s i h .ok = some (h', f) ∧
      (h'.pc = .finished (.error payloadConflict) ↔ e.payload.modelDump ≠ h.payload.modelDump) ∧
      ∀ code body, h'.pc = .finished (.cached code body) →
        e.payload.modelDump = h.payload.modelDump) ↔
    (Json.Clash e.payload.modelDump h.payload.modelDump →
      Json.Apart e.payload.modelDump h.payload.modelDump) := by
  obtain ⟨hconflict, hcached⟩ := onEntry_pc (h := h) e
  have hpy : e.payload.modelDump.pyEq h.payload.modelDump = false ↔
      e.payload.same h.payload = false := by
    rw [← Bool.not_eq_true, ← Bool.not_eq_true, same_iff]
  rw [next_getEntry hpc hlock hget, ← Json.pyEq_exact_iff]
  constructor
  · rintro ⟨h', f, heq, hiff, _⟩
    cases heq
    rw [hpy, ← hconflict, hiff]
  · intro hexact
    rw [hpy] at hexact
    refine ⟨_, _, rfl, hconflict.trans hexact, fun code body hpc' => ?_⟩
    have hsame := hcached code body hpc'
    by_contra hne
    simp [hexact.mpr hne] at hsame

def withVariable (name : String) (x : JsonScalar) : NotificationRequest JsonObject :=
  ⟨"user_happy", some [.email], "welcome_email", ⟨{name}, fun _ => .scalar x⟩, .high⟩

def plainJson : TemplateService JsonObject :=
  ⟨fun content subject _ => .ok (subject, content), ⟨∅, fun _ => .scalar .null⟩⟩

/-- A request that is answered 201. -/
def answeredSteps (p : NotificationRequest JsonObject) : List (Action JsonObject) :=
  [.request (some "order-1") p, .run 0 .ok, .run 0 .ok, .run 0 .ok,
    .run 0 (.template (some welcomeTemplate)), .run 0 (.preference none), .run 0 .ok, .run 0 .ok,
    .run 0 .ok, .run 0 .ok, .run 0 .ok, .run 0 .ok, .run 0 .ok]

/-- Another request then starts with the key. -/
def reuseSteps (p q : NotificationRequest JsonObject) : List (Action JsonObject) :=
  answeredSteps p ++ [.request (some "order-1") q]

theorem answered_run (name : String) (x : JsonScalar) : ∃ s e body,
    (sys plainJson).MTr initial (answeredSteps (withVariable name x)) s ∧ s.handlers.length = 1 ∧
      s.get "order-1" = some e ∧ e.payload = withVariable name x ∧ e.status = .done 201 body :=
  ⟨_, _, _, LTS.mTr_ofStep.mpr rfl, rfl, rfl, rfl, rfl⟩

theorem reuse_run (name : String) (x : JsonScalar) (q : NotificationRequest JsonObject) :
    ∃ s h e body, (sys plainJson).MTr initial (reuseSteps (withVariable name x) q) s ∧
      s.handlers[1]? = some h ∧ h.pc = .getEntry ∧ h.lock = some "order-1" ∧ h.payload = q ∧
      s.get "order-1" = some e ∧ e.payload = withVariable name x ∧ e.status = .done 201 body := by
  obtain ⟨s, e, body, hrun, hlen, hget, hp, hdone⟩ := answered_run name x
  refine ⟨_, start (some "order-1") q, e, body, hrun.concat rfl, ?_, rfl, rfl, rfl, hget, hp, hdone⟩
  simp [hlen]

theorem valueAt_variable (name : String) (x : JsonScalar) :
    (withVariable name x).modelDump.valueAt [.key "variables", .key name] = some (.scalar x) := by
  simp [NotificationRequest.modelDump, NotificationRequest.dumpField, payloadFields, withVariable,
    JsonObject.toJson, Json.valueAt, Json.child]

theorem variable_ne (name : String) {x y : JsonScalar} (hne : x ≠ y) :
    (withVariable name x).modelDump ≠ (withVariable name y).modelDump := by
  intro heq
  have hat := valueAt_variable name x
  rw [heq, valueAt_variable] at hat
  exact hne (Json.scalar.inj (Option.some.inj hat)).symm

theorem payload_conflict_names : ∃ s h e h' f,
    (sys plainJson).MTr initial
      (reuseSteps (withVariable "name" (.str "Ada")) (withVariable "name" (.str "Bob"))) s ∧
    s.handlers[1]? = some h ∧ s.get "order-1" = some e ∧ next plainJson s 1 h .ok = some (h', f) ∧
    h'.pc = .finished (.error payloadConflict) := by
  obtain ⟨s, h, e, _, hrun, hh, hpc, hlock, hq, hget, hp, _⟩ :=
    reuse_run "name" (.str "Ada") (withVariable "name" (.str "Bob"))
  have hapart : Json.Apart e.payload.modelDump h.payload.modelDump := by
    rw [hp, hq]
    refine ⟨_, _, _, valueAt_variable _ _, valueAt_variable _ _, ?_⟩
    simp [Json.headEq, JsonScalar.pyEq, JsonScalar.number]
  have hexact := @payload_conflict_exact s 1 h plainJson "order-1" e hpc hlock hget
  obtain ⟨h', f, hnext, hiff, _⟩ := hexact.mpr fun _ => hapart
  have hne := variable_ne "name" (show JsonScalar.str "Ada" ≠ .str "Bob" by decide)
  exact ⟨s, h, e, h', f, hrun, hh, hget, hnext, hiff.mpr (by rw [hp, hq]; exact hne)⟩

/-- `{"n": true}` and `{"n": 1}` are equal for Python, so the second request gets the response of
the first. -/
theorem replayed_to_other : ∃ s h e h' body,
    (sys plainJson).MTr initial
      (reuseSteps (withVariable "n" (.bool true)) (withVariable "n" (.int 1))) s ∧
    s.handlers[1]? = some h ∧ h.pc = .getEntry ∧ h.lock = some "order-1" ∧
    s.get "order-1" = some e ∧ e.payload.modelDump ≠ h.payload.modelDump ∧
    next plainJson s 1 h .ok = some (h', .none) ∧ h'.pc = .finished (.cached 201 body) := by
  obtain ⟨s, h, e, body, hrun, hh, hpc, hlock, hq, hget, hp, hdone⟩ :=
    reuse_run "n" (.bool true) (withVariable "n" (.int 1))
  have hne := variable_ne "n" (show JsonScalar.bool true ≠ .int 1 by decide)
  have hsame : e.payload.same h.payload = true := by
    rw [hp, hq]
    decide +kernel
  refine ⟨s, h, e, _, body, hrun, hh, hpc, hlock, hget, by rw [hp, hq]; exact hne,
    next_getEntry hpc hlock hget, ?_⟩
  simp [Handler.onEntry, hsame, hdone, Handler.moved]

end NotificationService.Api
