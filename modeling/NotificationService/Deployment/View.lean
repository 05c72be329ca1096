import NotificationService.Deployment.Deliverable

/-! What one delivery sees of the deployed system, and how it looks after each kind of step: as
before, or as after a step of the system of one delivery. -/
namespace NotificationService.Deployment

open Transition

variable {V : Type}

/-! ### What one delivery sees -/

def messageFor (id : ℕ × ℕ) : TaskMessage → Option Worker.Message
  | .sendNotificationDelivery id' m => if id' = id then some m else none
  | .reconcilePendingDeliveries _ => none

def Exec.view (e : Exec V) : Worker.Exec V := ⟨e.message, e.held, e.alive, e.pc⟩

def execFor (id : ℕ × ℕ) (e : Exec V) : Option (Worker.Exec V) :=
  if e.delivery = id then some e.view else none

/-- The rows that a tick has still to re-enqueue. -/
def Tick.ids : Tick → List (ℕ × ℕ)
  | .getNotification d stuck | .applyAsync d stuck _ => (d :: stuck).map deliveryId
  | _ => []

/-- How far a tick has come with the delivery, if it has selected it. -/
def Tick.stage (id : ℕ × ℕ) : Tick → Option Worker.Requeue
  | .getNotification d stuck =>
    if id ∈ (d :: stuck).map deliveryId then some .getNotification else none
  | .applyAsync d stuck queue =>
    if deliveryId d = id then some (.applyAsync queue)
    else if id ∈ stuck.map deliveryId then some .getNotification else none
  | _ => none

def State.stage (s : State V) (id : ℕ × ℕ) (k : ℕ) : Option Worker.Requeue :=
  s.ticks[k]?.bind (Tick.stage id)

/-- `w` is what the deployed system looks like from the delivery. -/
structure View (id : ℕ × ℕ) (s : State V) (w : Worker.State V) : Prop where
  row : s.row id = some w.row
  ready : s.broker.filterMap (messageFor id) = w.ready
  execs : s.execs.filterMap (execFor id) = w.execs
  pending : ∀ (h : Api.Handler V) (ds : List Api.DeliveryRow), s.api.handlers[id.1]? = some h →
    h.pc = .applyAsync ds → id ∈ ds.map deliveryId →
      w.apiPending = some (queueName h.payload.priority)
  requeues : Pool.Placed (s.stage id) w.requeues

/-- A delivery that the API has just committed. -/
def Created (w : Worker.State V) : Prop :=
  ∃ (c : Api.ChannelEnum) (createdAt : ℕ) (p : Priority),
    w = Worker.initial c.channel createdAt p

variable {svc : TemplateService V} {s t : State V} {id id' : ℕ × ℕ} {w : Worker.State V}

theorem messageFor_eq {m : TaskMessage} {m' : Worker.Message} (h : messageFor id m = some m') :
    m = .sendNotificationDelivery id m' := by
  cases m with
  | sendNotificationDelivery id' m =>
    simp only [messageFor, Option.ite_none_right_eq_some, Option.some.injEq] at h
    obtain ⟨rfl, rfl⟩ := h
    rfl
  | reconcilePendingDeliveries queue => cases h

theorem stage_nextStuck (id : ℕ × ℕ) (stuck : List Api.DeliveryRow) :
    (nextStuck stuck).stage id =
      if id ∈ stuck.map deliveryId then some .getNotification else none := by
  cases stuck <;> rfl

theorem ids_nextStuck (stuck : List Api.DeliveryRow) :
    (nextStuck stuck).ids = stuck.map deliveryId := by
  cases stuck <;> rfl

/-- What a tick does not hold it has not selected. -/
theorem stage_none {p : Tick} (h : id ∉ p.ids) : p.stage id = none := by
  cases p with
  | getNotification d stuck => exact if_neg h
  | applyAsync d stuck queue =>
    simp only [Tick.ids, List.map_cons, List.mem_cons, not_or] at h
    simp [Tick.stage, Ne.symm h.1, h.2]
  | _ => rfl

theorem stage_setTick {k : ℕ} {p q : Tick} (hp : s.ticks[k]? = some p) :
    (s.setTick k q).stage id = Function.update (s.stage id) k (q.stage id) := by
  funext m
  by_cases hm : m = k
  · subst hm
    simp [State.stage, State.setTick, List.getElem?_set_self (List.getElem?_eq_some_iff.mp hp).1]
  · rw [Function.update_of_ne hm]
    simp [State.stage, State.setTick, List.getElem?_set_ne (Ne.symm hm)]

theorem stage_setTick_same {k : ℕ} {p q : Tick} (hp : s.ticks[k]? = some p)
    (hq : q.stage id = p.stage id) : (s.setTick k q).stage id = s.stage id := by
  rw [stage_setTick hp, hq]
  exact Function.update_eq_self_iff.mpr (by simp [State.stage, hp])

/-! ### Rows -/

theorem row_isSome : (s.row id).isSome = true ↔ id ∈ s.deliveries.map deliveryId := by
  simp [State.row, List.find?_isSome]

/-- With one row for each id, the row that is found is the only one. -/
theorem row_of_mem (hkeys : (s.deliveries.map deliveryId).Nodup) {r : Api.DeliveryRow}
    (hr : r ∈ s.deliveries) : s.row (deliveryId r) = some r.columns := by
  obtain ⟨d, hd⟩ := Option.isSome_iff_exists.mp
    ((List.find?_isSome (p := (deliveryId · = deliveryId r))).mpr ⟨r, hr, by simp⟩)
  have hid : deliveryId d = deliveryId r := by simpa using List.find?_some hd
  have heq : d = r := List.inj_on_of_nodup_map hkeys (List.mem_of_find?_eq_some hd) hr hid
  simp [State.row, hd, heq]

theorem row_append {ds : List Api.DeliveryRow} {r : Worker.Delivery} (hrow : s.row id = some r)
    (ht : t.deliveries = s.deliveries ++ ds) : t.row id = some r := by
  obtain ⟨d, hd, rfl⟩ := Option.map_eq_some_iff.mp hrow
  simp [State.row, ht, List.find?_append, hd]

theorem row_commit {c : Worker.Call} {d r : Worker.Delivery} (hrow : s.row id = some r) :
    (s.apply id (.commit c d)).row id = some (Worker.flush d (c.update.assign d) r) := by
  obtain ⟨x, hx, rfl⟩ := Option.map_eq_some_iff.mp hrow
  have hid : deliveryId x = id := by simpa using List.find?_some hx
  have hfind : (s.deliveries.map (updateRow id c d)).find? (deliveryId · = id) =
      some (updateRow id c d x) := by
    simp only [List.find?_map, Function.comp_def, deliveryId_updateRow, hx, Option.map_some]
  simp [State.row, State.apply, hfind, updateRow, hid]

theorem row_commit_other {c : Worker.Call} {d : Worker.Delivery} (hne : id' ≠ id) :
    (s.apply id' (.commit c d)).row id = s.row id := by
  simp only [State.row, State.apply, List.find?_map, Function.comp_def, deliveryId_updateRow,
    Option.map_map]
  cases hx : s.deliveries.find? (deliveryId · = id) with
  | none => rfl
  | some x =>
    have hid : deliveryId x = id := by simpa using List.find?_some hx
    simp [updateRow, hid, Ne.symm hne]

/-! ### Effects and executions -/

/-- The delivery's own execution does to it what it does in the deployed system. -/
theorem view_apply (hw : View id s w) (f : Worker.Effect) : View id (s.apply id f) (w.apply f) := by
  obtain ⟨hrow, hready, hexecs, hpending, hrequeues⟩ := hw
  cases f with
  | commit c d => exact ⟨row_commit hrow, hready, hexecs, hpending, hrequeues⟩
  | publish m =>
    refine ⟨hrow, ?_, hexecs, hpending, hrequeues⟩
    simp [State.apply, State.publish, messageFor, hready, Worker.State.apply]
  | none | invoked | succeeded => exact ⟨hrow, hready, hexecs, hpending, hrequeues⟩

theorem view_apply_other (hne : id' ≠ id) (hw : View id s w) (f : Worker.Effect) :
    View id (s.apply id' f) w := by
  obtain ⟨hrow, hready, hexecs, hpending, hrequeues⟩ := hw
  cases f with
  | commit c d =>
    exact ⟨(row_commit_other hne).trans hrow, hready, hexecs, hpending, hrequeues⟩
  | publish m =>
    refine ⟨hrow, ?_, hexecs, hpending, hrequeues⟩
    simp [State.apply, State.publish, messageFor, hready, hne]
  | none | invoked | succeeded => exact ⟨hrow, hready, hexecs, hpending, hrequeues⟩

@[simp] theorem apply_execs (s : State V) (id : ℕ × ℕ) (f : Worker.Effect) :
    (s.apply id f).execs = s.execs := by
  cases f <;> rfl

/-- The place of an execution among those of its delivery. -/
theorem view_exec (hw : View id s w) {i : ℕ} {e : Exec V} (he : s.execs[i]? = some e)
    (hid : e.delivery = id) : ∃ j, w.execs[j]? = some e.view ∧ ∀ u v (e' : Exec V),
      View id u v → u.execs = s.execs → v.execs = w.execs → e'.delivery = id →
        View id (u.setExec i e') (v.setExec j e'.view) := by
  have hview : execFor id e = some e.view := by simp [execFor, hid]
  obtain ⟨j, hj, hset⟩ := Pool.filterMap_set_some he hview
  rw [hw.execs] at hj hset
  refine ⟨j, hj, ?_⟩
  rintro u v e' ⟨hrow, hready, hexecs, hpending, hrequeues⟩ hu hv hid'
  refine ⟨hrow, hready, ?_, hpending, hrequeues⟩
  rw [Worker.setExec_execs, hv, ← hset e' e'.view (by simp [execFor, hid']), ← hu]
  rfl

theorem view_setExec_other (hw : View id s w) {i : ℕ} {e e' : Exec V}
    (he : s.execs[i]? = some e) (hne : e.delivery ≠ id) (hd : e'.delivery = e.delivery) :
    View id (s.setExec i e') w := by
  obtain ⟨hrow, hready, hexecs, hpending, hrequeues⟩ := hw
  refine ⟨hrow, hready, ?_, hpending, hrequeues⟩
  rw [← hexecs]
  exact Pool.filterMap_set_none he (by simp [execFor, hne]) (by simp [execFor, hd, hne])

/-! ### Steps of the worker -/

/-- A step of the deployed system is hidden from the delivery, or is one of its own. -/
def Matches (svc : TemplateService V) (t : State V) (id : ℕ × ℕ) (w : Worker.State V) : Prop :=
  View id t w ∨ ∃ b w', (Worker.sys svc).Tr w b w' ∧ View id t w'

theorem matches_receive {m : TaskMessage} (hw : View id s w) (hm : m ∈ s.broker) :
    Matches svc (State.start { s with broker := s.broker.erase m } m) id w := by
  obtain ⟨hrow, hready, hexecs, hpending, hrequeues⟩ := hw
  cases m with
  | reconcilePendingDeliveries queue =>
    have hbroker : (s.broker.erase (.reconcilePendingDeliveries queue)).filterMap (messageFor id) =
        w.ready := by
      rw [Pool.filterMap_erase_none rfl, hready]
    refine Or.inl ⟨hrow, hbroker, hexecs, hpending, ?_⟩
    have hstage : (State.start
        { s with broker := s.broker.erase (.reconcilePendingDeliveries queue) }
        (.reconcilePendingDeliveries queue)).stage id = s.stage id := by
      funext k
      simp only [State.stage, State.start, List.getElem?_append]
      split
      · rfl
      · rw [List.getElem?_singleton, List.getElem?_eq_none (by omega)]
        split <;> rfl
    rw [hstage]
    exact hrequeues
  | sendNotificationDelivery id' m =>
    by_cases hid : id' = id
    · subst hid
      have hself : messageFor id' (.sendNotificationDelivery id' m) = some m := by
        simp [messageFor]
      have hmem : m ∈ w.ready := by
        rw [← hready]
        exact List.mem_filterMap.mpr ⟨_, hm, hself⟩
      have hstep : Worker.step svc w (.receive m) = some { w with
          ready := w.ready.erase m, execs := w.execs ++ [⟨m, true, true, .getDelivery⟩] } := by
        simp [Worker.step, hmem]
      refine Or.inr ⟨.receive m, _, hstep, hrow, ?_, ?_, hpending, hrequeues⟩
      · simp only [State.start]
        rw [Pool.filterMap_erase_some (fun x => messageFor_eq) hself, hready]
      · simp [State.start, execFor, Exec.view, hexecs]
    · refine Or.inl ⟨hrow, ?_, ?_, hpending, hrequeues⟩
      · simp only [State.start]
        rw [Pool.filterMap_erase_none (by simp [messageFor, hid]), hready]
      · simp [State.start, execFor, hid, hexecs]

/-- A step of one execution, if the delivery's own system has it. -/
theorem matches_setExec {i : ℕ} {e e' : Exec V} {f : Worker.Effect} (hw : View id s w)
    (he : s.execs[i]? = some e) (hd : e'.delivery = e.delivery)
    (hstep : e.delivery = id → ∀ j, w.execs[j]? = some e.view →
      ∃ b, Worker.step svc w b = some ((w.apply f).setExec j e'.view)) :
    Matches svc ((s.apply e.delivery f).setExec i e') id w := by
  by_cases hid : e.delivery = id
  · obtain ⟨j, hj, hset⟩ := view_exec hw he hid
    obtain ⟨b, hb⟩ := hstep hid j hj
    rw [hid]
    exact Or.inr ⟨b, _, hb, hset _ _ e' (view_apply hw f) (apply_execs s id f)
      (Worker.apply_execs w f) (hd.trans hid)⟩
  · exact Or.inl (view_setExec_other (view_apply_other hid hw f) (by simpa using he) hid hd)

theorem matches_exec {i : ℕ} {e : Exec V} {b : Worker.Answer V} {q : Worker.PC V}
    {f : Worker.Effect} (hw : View id s w) (he : s.execs[i]? = some e) (ha : e.alive = true)
    (hexec : execute svc e.message (s.row e.delivery) e.pc b = some (q, f)) :
    Matches svc ((s.apply e.delivery f).setExec i { e with pc := q }) id w := by
  refine matches_setExec hw he rfl ?_
  intro hid j hj
  rw [hid, hw.row] at hexec
  have hnext : Worker.next svc e.message w.row e.pc b = some (q, f) := hexec
  exact ⟨.run j b, by simp [Worker.step, hj, Exec.view, ha, hnext]⟩

theorem matches_crash {i : ℕ} {e : Exec V} (hw : View id s w) (he : s.execs[i]? = some e)
    (hg : (e.alive && !e.pc.isFinished) = true) :
    Matches svc (s.setExec i { e with alive := false }) id w := by
  refine matches_setExec (f := .none) hw he rfl ?_
  intro _ j hj
  have hlive : e.view.live = true := hg
  exact ⟨.crash j, by rw [Worker.step, hj, Option.bind_some, if_pos hlive]; rfl⟩

theorem matches_ack {i : ℕ} {e : Exec V} (hw : View id s w) (he : s.execs[i]? = some e)
    (hg : (e.held && e.pc.isFinished) = true) :
    Matches svc (s.setExec i { e with held := false }) id w := by
  refine matches_setExec (f := .none) hw he rfl ?_
  intro _ j hj
  have hdone : (e.view.held && e.view.pc.isFinished) = true := hg
  exact ⟨.ack j, by rw [Worker.step, hj, Option.bind_some, if_pos hdone]; rfl⟩

theorem matches_redeliver {i : ℕ} {e : Exec V} (hw : View id s w) (he : s.execs[i]? = some e)
    (hheld : e.held = true) : Matches svc
      ((s.publish (.sendNotificationDelivery e.delivery e.message)).setExec i
        { e with held := false }) id w := by
  refine matches_setExec (f := .publish e.message) hw he rfl ?_
  intro _ j hj
  exact ⟨.redeliver j, by simp [Worker.step, hj, Exec.view, hheld]⟩

theorem matches_lose {i : ℕ} {e : Exec V} (hw : View id s w) (he : s.execs[i]? = some e)
    (hg : (e.held && !e.alive) = true) :
    Matches svc (s.setExec i { e with held := false }) id w := by
  refine matches_setExec (f := .none) hw he rfl ?_
  intro _ j hj
  have hdead : (e.view.held && !e.view.alive) = true := hg
  exact ⟨.lose j, by rw [Worker.step, hj, Option.bind_some, if_pos hdead]; rfl⟩

/-! ### Steps of a reconciliation tick -/

/-- A tick moves on without a message. -/
theorem view_setTick (hw : View id s w) {k : ℕ} {p q : Tick} (hp : s.ticks[k]? = some p)
    (hq : q.stage id = p.stage id ∨ q.stage id = none) : View id (s.setTick k q) w := by
  obtain ⟨hrow, hready, hexecs, hpending, hrequeues⟩ := hw
  refine ⟨hrow, hready, hexecs, hpending, ?_⟩
  rcases hq with hsame | hnone
  · rw [stage_setTick_same hp hsame]
    exact hrequeues
  · rw [stage_setTick hp, hnone]
    exact Pool.placed_drop hrequeues k

theorem matches_selected (hw : View id s w) (hkeys : (s.deliveries.map deliveryId).Nodup) {k : ℕ}
    {now : ℤ} (hp : s.ticks[k]? = some .getPendingDeliveries) :
    Matches svc (s.setTick k (nextStuck
      (s.deliveries.filter fun d => Worker.getPendingDeliveries 300 now d.columns))) id w := by
  have hfresh : s.stage id k = none := by simp [State.stage, hp, Tick.stage]
  obtain ⟨hrow, hready, hexecs, hpending, hrequeues⟩ := hw
  by_cases hmem : id ∈ (s.deliveries.filter fun d =>
      Worker.getPendingDeliveries 300 now d.columns).map deliveryId
  · obtain ⟨d, hd, rfl⟩ := List.mem_map.mp hmem
    obtain ⟨hin, hstuck⟩ := List.mem_filter.mp hd
    have hcolumns := Option.some.inj ((row_of_mem hkeys hin).symm.trans hrow)
    rw [hcolumns] at hstuck
    have hstep : Worker.step svc w (.reconcile now) =
        some { w with requeues := w.requeues ++ [.getNotification] } := by
      simp [Worker.step, hstuck]
    refine Or.inr ⟨.reconcile now, _, hstep, hrow, hready, hexecs, hpending, ?_⟩
    rw [stage_setTick hp, stage_nextStuck, if_pos hmem]
    exact Pool.placed_concat hrequeues hfresh _
  · refine Or.inl (view_setTick ⟨hrow, hready, hexecs, hpending, hrequeues⟩ hp (Or.inr ?_))
    rw [stage_nextStuck, if_neg hmem]

theorem matches_notification (hw : View id s w) {k : ℕ} {d : Api.DeliveryRow}
    {stuck : List Api.DeliveryRow} (hp : s.ticks[k]? = some (.getNotification d stuck)) :
    Matches svc (s.setTick k (.applyAsync d stuck
      (queueName ((s.notification d.notificationId).elim .normal (·.priority))))) id w := by
  by_cases hid : deliveryId d = id
  · obtain ⟨hrow, hready, hexecs, hpending, hrequeues⟩ := hw
    have hstage : s.stage id k = some .getNotification := by
      simp [State.stage, hp, Tick.stage, hid]
    obtain ⟨j, hj, hset⟩ := Pool.placed_set hrequeues hstage
    have hstep : Worker.step svc w (.requeueNotification j (s.notification d.notificationId)) =
        some { w with requeues := w.requeues.set j (.applyAsync
          (queueName ((s.notification d.notificationId).elim .normal (·.priority)))) } := by
      simp [Worker.step, hj]
    refine Or.inr ⟨_, _, hstep, hrow, hready, hexecs, hpending, ?_⟩
    rw [stage_setTick hp]
    refine hset _ _ ?_
    simp [Tick.stage, hid]
  · refine Or.inl (view_setTick hw hp (Or.inl ?_))
    simp [Tick.stage, hid, Ne.symm hid]

theorem matches_requeue (hw : View id s w) {k : ℕ} {d : Api.DeliveryRow}
    {stuck : List Api.DeliveryRow} {queue : String}
    (hp : s.ticks[k]? = some (.applyAsync d stuck queue))
    (hnodup : (Tick.applyAsync d stuck queue).ids.Nodup) : Matches svc
      ((s.publish (.sendNotificationDelivery (deliveryId d) ⟨0, queue, 0⟩)).setTick k
        (nextStuck stuck)) id w := by
  by_cases hid : deliveryId d = id
  · obtain ⟨hrow, hready, hexecs, hpending, hrequeues⟩ := hw
    have hstage : s.stage id k = some (.applyAsync queue) := by
      simp [State.stage, hp, Tick.stage, hid]
    obtain ⟨j, hj, hset⟩ := Pool.placed_set hrequeues hstage
    have hstep : Worker.step svc w (.requeuePublish j) = some { w with
        requeues := w.requeues.set j .done, ready := w.ready ++ [⟨0, queue, 0⟩] } := by
      simp [Worker.step, hj]
    refine Or.inr ⟨_, _, hstep, hrow, ?_, hexecs, hpending, ?_⟩
    · simp [State.publish, State.setTick, messageFor, hid, hready]
    · have hnone : (nextStuck stuck).stage id = none := by
        rw [stage_nextStuck, if_neg]
        rw [← hid]
        exact (List.nodup_cons.mp hnodup).1
      have hticks : (s.publish (.sendNotificationDelivery (deliveryId d) ⟨0, queue, 0⟩)).ticks[k]? =
          some (.applyAsync d stuck queue) := hp
      rw [stage_setTick hticks, hnone]
      exact hset none _ (by simp)
  · have hpublish :
        View id (s.publish (.sendNotificationDelivery (deliveryId d) ⟨0, queue, 0⟩)) w :=
      view_apply_other hid hw (.publish ⟨0, queue, 0⟩)
    refine Or.inl (view_setTick hpublish (p := .applyAsync d stuck queue) hp (Or.inl ?_))
    rw [stage_nextStuck]
    simp [Tick.stage, hid]

/-! ### Steps of the API -/

/-- Other actions of the API leave the delivery alone. -/
theorem view_quiet {b : Api.Action V} {u : Api.State V} (hw : View id s w) (hq : Quiet s u) :
    View id (s.afterApi svc b u) w := by
  obtain ⟨hrow, hready, hexecs, hpending, hrequeues⟩ := hw
  refine ⟨row_append hrow rfl, ?_, hexecs, ?_, hrequeues⟩
  · simp [State.afterApi, hq.messages, hready]
  · intro h ds hh hpc hmem
    rcases hq.origin _ h hh with ⟨g, hg, hpayload, _, hpc', _⟩ | ⟨key, payload, rfl⟩
    · rw [hpayload]
      exact hpending g ds hg (hpc' ▸ hpc) hmem
    · rcases Api.start_cases key payload with hs | hs <;> cases hs.symm.trans hpc

/-- A step of a handler whose effect is on other deliveries. -/
theorem view_run {i : ℕ} {b : Api.Answer} {h' : Api.Handler V} {f : Api.Effect V}
    (hw : View id s w) (hf : ∀ m, f = .publish m → deliveryId m.delivery ≠ id)
    (hpending : ∀ (g : Api.Handler V) (ds : List Api.DeliveryRow),
      (s.api.handlers.set i h')[id.1]? = some g → g.pc = .applyAsync ds →
        id ∈ ds.map deliveryId → w.apiPending = some (queueName g.payload.priority)) :
    View id (s.afterApi svc (.run i b) ((s.api.apply f).setHandler i h')) w := by
  obtain ⟨hrow, hready, hexecs, _, hrequeues⟩ := hw
  rw [afterApi_run]
  refine ⟨row_append hrow rfl, ?_, hexecs, by simpa using hpending, hrequeues⟩
  cases f with
  | publish m => simp [newMessages, enqueue, messageFor, hf m rfl, hready]
  | _ => simp [newMessages, hready]

/-- A delivery that the broker and the worker do not know yet. -/
theorem view_created {d : Api.DeliveryRow} {c : Api.ChannelEnum} {now : ℕ} {p : Priority}
    (hs : TaskSound s) (hnew : deliveryId d ∉ s.deliveries.map deliveryId)
    (hcolumns : d.columns = (Worker.createDelivery c.channel now).1)
    (hd : d ∈ t.deliveries) (hkeys : (t.deliveries.map deliveryId).Nodup)
    (hbroker : t.broker = s.broker) (hexecs : t.execs = s.execs) (hticks : t.ticks = s.ticks)
    (hpriority : ∀ h, t.api.handlers[d.notificationId]? = some h → h.payload.priority = p) :
    View (deliveryId d) t (Worker.initial c.channel now p) := by
  refine ⟨?_, ?_, ?_, ?_, ?_⟩
  · rw [row_of_mem hkeys hd, hcolumns]
    rfl
  · rw [hbroker]
    refine List.filterMap_eq_nil_iff.mpr fun m hm => ?_
    cases m with
    | sendNotificationDelivery id m =>
      have hne : id ≠ deliveryId d := by
        rintro rfl
        exact hnew (hs.broker _ m hm).1
      simp [messageFor, hne]
    | reconcilePendingDeliveries queue => rfl
  · rw [hexecs]
    refine List.filterMap_eq_nil_iff.mpr fun e he => ?_
    have hne : e.delivery ≠ deliveryId d := by
      intro heq
      exact hnew (heq ▸ (hs.execs e he).1.1)
    simp [execFor, hne]
  · intro h ds hh _ _
    rw [hpriority h hh]
    rfl
  · refine Pool.placed_none fun k => ?_
    simp only [State.stage, hticks]
    cases hk : s.ticks[k]? with
    | none => rfl
    | some p =>
      have hsound := hs.ticks p (List.mem_of_getElem? hk)
      refine stage_none fun hid => hnew ?_
      cases p with
      | getNotification x stuck =>
        obtain ⟨y, hy, heq⟩ := List.mem_map.mp hid
        exact heq ▸ hsound y hy
      | applyAsync x stuck queue =>
        obtain ⟨y, hy, heq⟩ := List.mem_map.mp hid
        rcases List.mem_cons.mp hy with rfl | hy
        · exact heq ▸ hsound.1.1
        · exact heq ▸ hsound.2 y hy
      | _ => cases hid

end NotificationService.Deployment
