import NotificationService.Api.Rows
import NotificationService.Deployment.System

/-! What links a message on the broker to its delivery, its notification and the template that its
handler has validated, and how the worker keeps these links. -/
namespace NotificationService.Deployment

open Transition

/-- The channels EMAIL, SMS and PUSH. -/
def Supported (ch : Channel) : Prop := ∃ c : Api.ChannelEnum, ch = c.channel

variable {V : Type}

/-- Handler `i` has rendered the template with these variables. -/
def State.Validated (svc : TemplateService V) (s : State V) (i templateId : ℕ) (vars : V) : Prop :=
  ∃ t ∈ s.templates.templates, t.id = templateId ∧ ∃ r, s.validated i = some r ∧
    svc.renderSubjectAndBody t.content t.subject vars = .ok r

/-- The message names a committed row, on the queue of its request's priority. -/
def State.Names (s : State V) (id : ℕ × ℕ) (queue : String) : Prop :=
  id ∈ s.deliveries.map deliveryId ∧
    ∃ h, s.api.handlers[id.1]? = some h ∧ queue = queueName h.payload.priority

/-- Nothing that a later step relies on has been taken away. -/
structure Extends (s t : State V) : Prop where
  handlers : ∀ (i : ℕ) (h : Api.Handler V), s.api.handlers[i]? = some h →
    ∃ h', t.api.handlers[i]? = some h' ∧ h'.payload = h.payload ∧ h'.key = h.key
  notifications : ∀ n ∈ s.api.notifications, n ∈ t.api.notifications
  inserted : ∀ d ∈ s.api.deliveries, d ∈ t.api.deliveries
  keys : ∀ id ∈ s.deliveries.map deliveryId, id ∈ t.deliveries.map deliveryId
  templates : ∀ x ∈ s.templates.templates, x ∈ t.templates.templates
  validated : ∀ i r, s.validated i = some r → t.validated i = some r

/-- The handler's rows come from its payload and its validated template. -/
structure Linked (svc : TemplateService V) (s : State V) (i : ℕ) (h : Api.Handler V) : Prop where
  template : ∀ templateId, h.pc.templateId = some templateId →
    s.Validated svc i templateId h.payload.vars
  before : h.pc.beforeRow = true → h.tx = none
  row : ∀ x, h.tx = some x → ∃ templateId, x.notification = h.row i templateId ∧
    s.Validated svc i templateId h.payload.vars
  deliveries : ∀ x, h.tx = some x → ∀ d ∈ x.deliveries,
    d.notificationId = i ∧ Supported d.columns.channel
  queue : ∀ ds, h.pc = .applyAsync ds → ∀ d ∈ ds, d.notificationId = i ∧ d ∈ s.api.deliveries

def beforeTemplate : Api.PC V → Bool
  | .getEntry | .setLock | .checkRateLimit | .getTemplate => true
  | _ => false

/-- The state of the API and its tables. -/
structure ApiSound (svc : TemplateService V) (s : State V) : Prop where
  settled : Api.Settled 0 s.api
  indexed : Api.Templates.Indexed s.templates.templates
  linked : ∀ (i : ℕ) (h : Api.Handler V), s.api.handlers[i]? = some h → Linked svc s i h
  notifications : ∀ n ∈ s.api.notifications, ∃ h templateId, s.api.handlers[n.id]? = some h ∧
    n = h.row n.id templateId ∧ s.Validated svc n.id templateId h.payload.vars
  keys : s.deliveries.map deliveryId = s.api.deliveries.map deliveryId
  unvalidated : ∀ i, (∀ h, s.api.handlers[i]? = some h → beforeTemplate h.pc = true) →
    s.validated i = none

/-- What an execution has loaded is supported and stored. -/
def Loaded (s : State V) : Worker.PC V → Prop
  | .getNotification d => Supported d.channel
  | .getTemplate d n => Supported d.channel ∧ n ∈ s.api.notifications
  | _ => True

def TickSound (s : State V) : Tick → Prop
  | .getNotification d stuck => ∀ x ∈ d :: stuck, deliveryId x ∈ s.deliveries.map deliveryId
  | .applyAsync d stuck queue => s.Names (deliveryId d) queue ∧
    ∀ x ∈ stuck, deliveryId x ∈ s.deliveries.map deliveryId
  | _ => True

/-- The state of the broker and the worker. -/
structure TaskSound (s : State V) : Prop where
  rows : ∀ d ∈ s.deliveries, Supported d.columns.channel ∧
    ∃ n ∈ s.api.notifications, n.id = d.notificationId
  broker : ∀ id m, .sendNotificationDelivery id m ∈ s.broker → s.Names id m.queue
  execs : ∀ e ∈ s.execs, s.Names e.delivery e.message.queue ∧ Loaded s e.pc
  ticks : ∀ p ∈ s.ticks, TickSound s p

variable {svc : TemplateService V} {s t : State V} {i : ℕ} {h h' : Api.Handler V} {vars : V}
  {templateId : ℕ} {id : ℕ × ℕ} {queue : String}

/-! ### What extensions keep -/

theorem validated_extends (hx : Extends s t) (hv : s.Validated svc i templateId vars) :
    t.Validated svc i templateId vars := by
  obtain ⟨u, hu, hid, r, hr, hrender⟩ := hv
  exact ⟨u, hx.templates u hu, hid, r, hx.validated i r hr, hrender⟩

theorem names_extends (hx : Extends s t) (hn : s.Names id queue) : t.Names id queue := by
  obtain ⟨hid, h, hh, hq⟩ := hn
  obtain ⟨h', hh', hpayload, _⟩ := hx.handlers _ _ hh
  exact ⟨hx.keys id hid, h', hh', by rw [hpayload, hq]⟩

theorem linked_extends (hx : Extends s t) (hl : Linked svc s i h) : Linked svc t i h := by
  refine ⟨fun templateId ht => validated_extends hx (hl.template templateId ht), hl.before, ?_,
    hl.deliveries, ?_⟩
  · intro x htx
    obtain ⟨templateId, hrow, hv⟩ := hl.row x htx
    exact ⟨templateId, hrow, validated_extends hx hv⟩
  · intro ds hpc d hd
    obtain ⟨hi, hmem⟩ := hl.queue ds hpc d hd
    exact ⟨hi, hx.inserted d hmem⟩

theorem loaded_extends (hx : Extends s t) {p : Worker.PC V} (hl : Loaded s p) : Loaded t p := by
  cases p with
  | getTemplate d n => exact ⟨hl.1, hx.notifications n hl.2⟩
  | _ => exact hl

theorem tickSound_extends (hx : Extends s t) {p : Tick} (hp : TickSound s p) : TickSound t p := by
  cases p with
  | getNotification d stuck => exact fun x hm => hx.keys _ (hp x hm)
  | applyAsync d stuck queue => exact ⟨names_extends hx hp.1, fun x hm => hx.keys _ (hp.2 x hm)⟩
  | _ => trivial

/-! ### Steps of the worker -/

/-- The API, its tables and the keys of the delivery rows are as before. -/
structure Keeps (s t : State V) : Prop where
  api : t.api = s.api
  templates : t.templates = s.templates
  validated : t.validated = s.validated
  keys : t.deliveries.map deliveryId = s.deliveries.map deliveryId

theorem Keeps.extends (hk : Keeps s t) : Extends s t where
  handlers i h hh := ⟨h, by rw [hk.api, hh], rfl, rfl⟩
  notifications n hn := hk.api ▸ hn
  inserted d hd := hk.api ▸ hd
  keys id hid := hk.keys ▸ hid
  templates x hx := hk.templates ▸ hx
  validated i r hr := by rw [hk.validated, hr]

theorem apiSound_keeps (hk : Keeps s t) (hs : ApiSound svc s) : ApiSound svc t := by
  have hx := hk.extends
  refine ⟨hk.api ▸ hs.settled, hk.templates ▸ hs.indexed, ?_, ?_, ?_, ?_⟩
  · intro i h hh
    rw [hk.api] at hh
    exact linked_extends hx (hs.linked i h hh)
  · intro n hn
    rw [hk.api] at hn ⊢
    obtain ⟨h, templateId, hh, hrow, hv⟩ := hs.notifications n hn
    exact ⟨h, templateId, hh, hrow, validated_extends hx hv⟩
  · rw [hk.keys, hk.api, hs.keys]
  · rw [hk.api, hk.validated]
    exact hs.unvalidated

theorem taskSound_publish {id : ℕ × ℕ} {m : Worker.Message} (hs : TaskSound s)
    (hm : s.Names id m.queue) : TaskSound (s.publish (.sendNotificationDelivery id m)) := by
  refine ⟨hs.rows, ?_, hs.execs, hs.ticks⟩
  intro id' m' hmem
  rcases List.mem_append.mp hmem with hold | hnew
  · exact hs.broker id' m' hold
  · cases List.mem_singleton.mp hnew
    exact hm

theorem taskSound_setExec {i : ℕ} {e : Exec V} (hs : TaskSound s)
    (he : s.Names e.delivery e.message.queue ∧ Loaded s e.pc) : TaskSound (s.setExec i e) :=
  ⟨hs.rows, hs.broker, Pool.forall_set hs.execs he, hs.ticks⟩

theorem taskSound_setTick {k : ℕ} {p : Tick} (hs : TaskSound s) (hp : TickSound s p) :
    TaskSound (s.setTick k p) :=
  ⟨hs.rows, hs.broker, hs.execs, Pool.forall_set hs.ticks hp⟩

theorem taskSound_receive {m : TaskMessage} (hs : TaskSound s) (hm : m ∈ s.broker) :
    TaskSound (State.start { s with broker := s.broker.erase m } m) := by
  have hbroker : ∀ id m', .sendNotificationDelivery id m' ∈ s.broker.erase m →
    s.Names id m'.queue :=
    fun id m' hmem => hs.broker id m' (List.mem_of_mem_erase hmem)
  cases m with
  | sendNotificationDelivery id m =>
    exact ⟨hs.rows, hbroker, Pool.forall_concat hs.execs ⟨hs.broker id m hm, trivial⟩, hs.ticks⟩
  | reconcilePendingDeliveries queue =>
    exact ⟨hs.rows, hbroker, hs.execs, Pool.forall_concat hs.ticks trivial⟩

@[simp] theorem deliveryId_updateRow (id : ℕ × ℕ) (c : Worker.Call) (d : Worker.Delivery)
    (r : Api.DeliveryRow) : deliveryId (updateRow id c d r) = deliveryId r := by
  unfold updateRow
  split <;> rfl

@[simp] theorem channel_updateRow (id : ℕ × ℕ) (c : Worker.Call) (d : Worker.Delivery)
    (r : Api.DeliveryRow) : (updateRow id c d r).columns.channel = r.columns.channel := by
  unfold updateRow
  split <;> rfl

theorem keeps_apply (s : State V) (id : ℕ × ℕ) (f : Worker.Effect) : Keeps s (s.apply id f) := by
  cases f with
  | commit c d =>
    refine ⟨rfl, rfl, rfl, ?_⟩
    simp [State.apply, Function.comp_def]
  | _ => exact ⟨rfl, rfl, rfl, rfl⟩

theorem taskSound_extends {u : State V} (hs : TaskSound s) (hx : Extends s u)
    (hrows : ∀ d ∈ u.deliveries, Supported d.columns.channel ∧
      ∃ n ∈ u.api.notifications, n.id = d.notificationId)
    (hbroker : ∀ id m, .sendNotificationDelivery id m ∈ u.broker → u.Names id m.queue)
    (hexecs : u.execs = s.execs) (hticks : u.ticks = s.ticks) : TaskSound u := by
  refine ⟨hrows, hbroker, ?_, ?_⟩
  · rw [hexecs]
    exact fun e he => ⟨names_extends hx (hs.execs e he).1, loaded_extends hx (hs.execs e he).2⟩
  · rw [hticks]
    exact fun p hp => tickSound_extends hx (hs.ticks p hp)

theorem taskSound_apply {f : Worker.Effect} (hs : TaskSound s) (hn : s.Names id queue)
    (hf : ∀ m, f = .publish m → m.queue = queue) : TaskSound (s.apply id f) := by
  have hx := (keeps_apply s id f).extends
  cases f with
  | commit c d =>
    refine taskSound_extends hs hx ?_ (fun id m hm => names_extends hx (hs.broker id m hm)) rfl rfl
    intro x hmem
    obtain ⟨r, hr, rfl⟩ := List.mem_map.mp hmem
    obtain ⟨hch, n, hn, hid⟩ := hs.rows r hr
    refine ⟨by rw [channel_updateRow]; exact hch, n, hn, ?_⟩
    have hkey := congrArg Prod.fst (deliveryId_updateRow id c d r)
    exact hid.trans hkey.symm
  | publish m => exact taskSound_publish hs (by rw [hf m rfl]; exact hn)
  | _ => exact hs

/-- The row of a message, as the task's SELECT finds it. -/
theorem row_of_names (hs : TaskSound s) (hn : s.Names id queue) : ∃ d, s.row id = some d ∧
    Supported d.channel ∧ ∃ n ∈ s.api.notifications, n.id = id.1 := by
  obtain ⟨r, hr, hid⟩ := List.mem_map.mp hn.1
  have hsome : (s.deliveries.find? (deliveryId · = id)).isSome = true := by
    rw [List.find?_isSome]
    exact ⟨r, hr, by simp [hid]⟩
  obtain ⟨x, hx⟩ := Option.isSome_iff_exists.mp hsome
  have hxid : deliveryId x = id := by simpa using List.find?_some hx
  obtain ⟨hch, n, hnmem, hnid⟩ := hs.rows x (List.mem_of_find?_eq_some hx)
  exact ⟨x.columns, by simp [State.row, hx], hch, n, hnmem, hnid.trans (congrArg Prod.fst hxid)⟩

theorem taskAnswer_notification {e : Exec V} {a : Worker.Answer V} {o : Option (Notification V)}
    (hb : s.taskAnswer e a = some (.notification o)) : o = s.notification e.delivery.1 := by
  cases a with
  | ok =>
    cases hpc : e.pc <;> simp only [State.taskAnswer, hpc, Option.some.injEq, reduceCtorEq,
      Worker.Answer.notification.injEq] at hb
    exact hb.symm
  | _ => cases hb

theorem taskAnswer_template {e : Exec V} {a : Worker.Answer V} {o : Option Template}
    {d : Worker.Delivery} {n : Notification V} (hpc : e.pc = .getTemplate d n)
    (hb : s.taskAnswer e a = some (.template o)) : o = n.templateId.bind s.template := by
  cases a with
  | ok =>
    simp only [State.taskAnswer, hpc, Option.some.injEq, Worker.Answer.template.injEq] at hb
    exact hb.symm
  | _ => cases hb

theorem mem_of_notification {n : Notification V} {i : ℕ} (hn : s.notification i = some n) :
    n ∈ s.api.notifications ∧ n.id = i :=
  ⟨List.mem_of_find?_eq_some hn, by simpa using List.find?_some hn⟩

theorem loaded_resume (c : Worker.Call) (d : Worker.Delivery) :
    Loaded s (c.resume d : Worker.PC V) := by
  cases c <;> trivial

theorem loaded_rescue (err : String) (usable : Bool) (c : Worker.Call) (d : Worker.Delivery) :
    Loaded s (c.rescue err usable d : Worker.PC V) := by
  cases c <;> cases usable <;> trivial

theorem execute_sound {e : Exec V} {a b : Worker.Answer V} {q : Worker.PC V} {f : Worker.Effect}
    (hs : TaskSound s) (hn : s.Names e.delivery e.message.queue) (hl : Loaded s e.pc)
    (hb : s.taskAnswer e a = some b)
    (hexec : execute svc e.message (s.row e.delivery) e.pc b = some (q, f)) :
    Loaded s q ∧ ∀ m, f = .publish m → m.queue = e.message.queue := by
  obtain ⟨row, hrow, hch, _⟩ := row_of_names hs hn
  rw [hrow] at hexec
  have hedge := Worker.next_edge hexec
  generalize hp : e.pc = p at hedge hl
  cases hedge with
  | load => exact ⟨hch, nofun⟩
  | notification =>
    have ho := taskAnswer_notification hb
    exact ⟨⟨hl, (mem_of_notification ho.symm).1⟩, nofun⟩
  | refreshed => exact ⟨loaded_resume _ _, nofun⟩
  | unrefreshed => exact ⟨loaded_rescue _ _ _ _, nofun⟩
  | retried =>
    refine ⟨trivial, ?_⟩
    intro m hm
    cases hm
    rfl
  | _ => exact ⟨trivial, nofun⟩

theorem tickSound_nextStuck {stuck : List Api.DeliveryRow}
    (hstuck : ∀ x ∈ stuck, deliveryId x ∈ s.deliveries.map deliveryId) :
    TickSound s (nextStuck stuck) := by
  cases stuck with
  | nil => trivial
  | cons d stuck => exact hstuck

/-- The queue that the reconciler computes from the stored notification is the request's. -/
theorem names_notification (ha : ApiSound svc s) (hs : TaskSound s) {d : Api.DeliveryRow}
    (hd : deliveryId d ∈ s.deliveries.map deliveryId) : s.Names (deliveryId d)
      (queueName ((s.notification d.notificationId).elim .normal (·.priority))) := by
  obtain ⟨r, hr, hid⟩ := List.mem_map.mp hd
  obtain ⟨_, n, hn, hni⟩ := hs.rows r hr
  have hkey : r.notificationId = d.notificationId := congrArg Prod.fst hid
  have hsome : (s.notification d.notificationId).isSome = true := by
    rw [State.notification, List.find?_isSome]
    exact ⟨n, hn, by simp [hni, hkey]⟩
  obtain ⟨m, hm⟩ := Option.isSome_iff_exists.mp hsome
  obtain ⟨hmem, hmi⟩ := mem_of_notification hm
  obtain ⟨h, templateId, hh, hrow, _⟩ := ha.notifications m hmem
  have hkey' : m.id = (deliveryId d).1 := hmi
  refine ⟨hd, h, hkey' ▸ hh, ?_⟩
  rw [hm, hrow]
  rfl

theorem runTick_sound {k : ℕ} {now : ℤ} {p : Tick} {t : State V} (ha : ApiSound svc s)
    (hs : TaskSound s) (hp : TickSound s p) (ht : s.runTick k now p = some t) :
    Keeps s t ∧ TaskSound t := by
  cases p with
  | getPendingDeliveries =>
    cases ht
    refine ⟨⟨rfl, rfl, rfl, rfl⟩, taskSound_setTick hs (tickSound_nextStuck ?_)⟩
    intro x hx
    exact List.mem_map_of_mem (List.mem_of_mem_filter hx)
  | getNotification d stuck =>
    cases ht
    refine ⟨⟨rfl, rfl, rfl, rfl⟩, taskSound_setTick hs ⟨?_, ?_⟩⟩
    · exact names_notification ha hs (hp d List.mem_cons_self)
    · exact fun x hx => hp x (List.mem_cons_of_mem _ hx)
  | applyAsync d stuck queue =>
    cases ht
    refine ⟨⟨rfl, rfl, rfl, rfl⟩, taskSound_setTick (taskSound_publish hs hp.1) ?_⟩
    exact tickSound_nextStuck hp.2
  | finished => cases ht

structure Sound (svc : TemplateService V) (s : State V) : Prop where
  api : ApiSound svc s
  task : TaskSound s

/-! ### What the links give the worker -/

/-- The worker finds the rows of the message, on a channel that it supports, and its template renders
to what the handler has validated. -/
def Deliverable (svc : TemplateService V) (s : State V) (id : ℕ × ℕ) : Prop :=
  ∃ d n u r, s.row id = some d ∧ d.channel ∈ [Channel.email, .sms, .push] ∧
    s.notification id.1 = some n ∧ n.templateId.bind s.template = some u ∧
    s.validated id.1 = some r ∧ svc.renderSubjectAndBody u.content u.subject
      (n.templateVariables.getD svc.noVariables) = .ok r

theorem stored_sound (ha : ApiSound svc s) {n : Notification V} (hn : n ∈ s.api.notifications) :
    ∃ u r, n.templateId.bind s.template = some u ∧ s.validated n.id = some r ∧
      svc.renderSubjectAndBody u.content u.subject
        (n.templateVariables.getD svc.noVariables) = .ok r := by
  obtain ⟨h, templateId, _, hrow, u, hu, hid, r, hr, hrender⟩ := ha.notifications n hn
  refine ⟨u, r, ?_, hr, ?_⟩
  · rw [hrow]
    exact hid ▸ Api.Templates.getById_of_mem ha.indexed hu
  · rw [hrow]
    exact hrender

theorem channel_of_supported {ch : Channel} (hch : Supported ch) :
    ch ∈ [Channel.email, .sms, .push] := by
  obtain ⟨c, rfl⟩ := hch
  cases c <;> simp [Api.ChannelEnum.channel]

theorem deliverable_of_names (hs : Sound svc s) {id : ℕ × ℕ} {queue : String}
    (hn : s.Names id queue) : Deliverable svc s id := by
  obtain ⟨d, hrow, hch, n, hmem, hni⟩ := row_of_names hs.task hn
  have hsome : (s.notification id.1).isSome = true := by
    rw [State.notification, List.find?_isSome]
    exact ⟨n, hmem, by simp [hni]⟩
  obtain ⟨m, hm⟩ := Option.isSome_iff_exists.mp hsome
  obtain ⟨hmem', hmi⟩ := mem_of_notification hm
  obtain ⟨u, r, hu, hr, hrender⟩ := stored_sound hs.api hmem'
  exact ⟨d, m, u, r, hrow, channel_of_supported hch, hm, hu, hmi ▸ hr, hrender⟩

theorem prepare_sent {d : Worker.Delivery} {n : Notification V} {u : Template}
    {r : Option String × String} (hch : Supported d.channel)
    (hr : svc.renderSubjectAndBody u.content u.subject
      (n.templateVariables.getD svc.noVariables) = .ok r) :
    callBranch (Worker.prepare svc d n (some u)) = none := by
  obtain ⟨c, hc⟩ := hch
  cases c <;> simp [Worker.prepare, hr, hc, Api.ChannelEnum.channel, callBranch]

theorem taskBranch_none (hs : Sound svc s) {e : Exec V} {a b : Worker.Answer V} {q : Worker.PC V}
    {f : Worker.Effect} (he : e ∈ s.execs) (hb : s.taskAnswer e a = some b)
    (hexec : execute svc e.message (s.row e.delivery) e.pc b = some (q, f)) :
    taskBranch (s.row e.delivery) e.pc b q = none := by
  obtain ⟨hn, hl⟩ := hs.task.execs e he
  obtain ⟨d, n, u, r, hrow, _, hnot, hu, _⟩ := deliverable_of_names hs hn
  rw [hrow] at hexec ⊢
  cases hpc : e.pc with
  | getDelivery => cases b <;> rfl
  | getNotification d' =>
    cases b with
    | notification o =>
      have ho := (taskAnswer_notification hb).trans hnot
      obtain ⟨templateId, hid, _⟩ := Option.bind_eq_some_iff.mp hu
      rw [hpc, ho] at hexec
      simp only [execute, Worker.next, hid, Option.isSome_some, if_true, Option.some.injEq,
        Prod.mk.injEq] at hexec
      rw [ho, ← hexec.1]
      rfl
    | raised =>
      rw [hpc] at hexec
      cases hexec
      rfl
    | _ =>
      rw [hpc] at hexec
      cases hexec
  | getTemplate d' n' =>
    rw [hpc] at hl
    obtain ⟨u', r', hu', _, hrender⟩ := stored_sound hs.api hl.2
    cases b with
    | template o =>
      have ho := (taskAnswer_template hpc hb).trans hu'
      rw [hpc, ho] at hexec
      simp only [execute, Worker.next, Option.some.injEq, Prod.mk.injEq] at hexec
      rw [← hexec.1]
      exact prepare_sent hl.1 hrender
    | raised =>
      rw [hpc] at hexec
      cases hexec
      rfl
    | _ =>
      rw [hpc] at hexec
      cases hexec
  | _ => rfl

theorem branch_none (hs : Sound svc s) (a : Action V) : s.branch svc a = none := by
  cases a with
  | exec i a =>
    cases hbranch : s.branch svc (.exec i a) with
    | none => rfl
    | some x =>
      obtain ⟨e, he, hbranch⟩ := Option.bind_eq_some_iff.mp hbranch
      obtain ⟨b, hb, hbranch⟩ := Option.bind_eq_some_iff.mp hbranch
      obtain ⟨⟨q, f⟩, hexec, hbranch⟩ := Option.bind_eq_some_iff.mp hbranch
      have hnone := taskBranch_none hs (List.mem_of_getElem? he) hb hexec
      cases hnone.symm.trans hbranch
  | _ => rfl

end NotificationService.Deployment
