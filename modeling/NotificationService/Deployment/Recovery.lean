import NotificationService.Deployment.Content

/-! While the worker also consumes the queue of the reconciliation, no PENDING delivery is lost: it
can still be delivered. -/
namespace NotificationService.Deployment

open Transition

variable {V : Type} {svc : TemplateService V} {s t : State V} {id : ℕ × ℕ} {i k : ℕ}
  {d : Worker.Delivery} {p q : Worker.PC V} {f : Worker.Effect}

/-! ### One execution that is not disturbed -/

/-- Execution `i` of the delivery is at `p`, and the committed row is `d`. -/
structure At (svc : TemplateService V) (s : State V) (i : ℕ) (id : ℕ × ℕ) (d : Worker.Delivery)
    (p : Worker.PC V) : Prop where
  sound : Sound svc s
  row : s.row id = some d
  exec : ∃ e, s.execs[i]? = some e ∧ e.delivery = id ∧ e.alive = true ∧ e.pc = p

def rowAfter (d : Worker.Delivery) : Worker.Effect → Worker.Delivery
  | .commit c x => Worker.flush x (c.update.assign x) d
  | _ => d

theorem row_apply (hrow : s.row id = some d) (f : Worker.Effect) :
    (s.apply id f).row id = some (rowAfter d f) := by
  cases f with
  | commit c x => exact row_commit hrow
  | _ => exact hrow

def State.delivered (id : ℕ × ℕ) (s : State V) : Prop :=
  (s.row id).map (·.status) = some .delivered

variable [BEq V] {queues : List String} {xs ys : List (Action V)} {a : Action V}

theorem at_next {a b : Worker.Answer V} (h : At svc s i id d p)
    (hb : ∀ e : Exec V, e.delivery = id → e.pc = p → s.taskAnswer e a = some b)
    (hn : ∀ m, Worker.next svc m d p b = some (q, f)) :
    ∃ t, (sys svc queues).Tr s (.exec i a) t ∧ At svc t i id (rowAfter d f) q := by
  obtain ⟨hs, hrow, e, he, hid, halive, hpc⟩ := h
  have hstep : step svc queues s (.exec i a) =
      some ((s.apply id f).setExec i { e with pc := q }) := by
    simp [step, he, hb e hid hpc, halive, hid, hrow, execute, hpc, hn]
  refine ⟨_, hstep, sound_step (step_cases hstep) hs, row_apply hrow f, { e with pc := q }, ?_, hid,
    halive, rfl⟩
  simp [State.setExec, List.getElem?_set_self (List.getElem?_eq_some_iff.mp he).1]

theorem leads_next {P : State V → Prop} {a b : Worker.Answer V} (h : At svc s i id d p)
    (hb : ∀ e : Exec V, e.delivery = id → e.pc = p → s.taskAnswer e a = some b)
    (hn : ∀ m, Worker.next svc m d p b = some (q, f))
    (hp : ∀ t, At svc t i id (rowAfter d f) q → (sys svc queues).Leads t P) :
    (sys svc queues).Leads s P := by
  obtain ⟨t, hstep, ht⟩ := at_next h hb hn
  exact LTS.leads_step hstep (hp t ht)

/-- An operation that reads no table. -/
theorem leads_ok {P : State V → Prop} (h : At svc s i id d p)
    (hnot : ∀ d, p ≠ .getNotification d) (htemp : ∀ d n, p ≠ .getTemplate d n)
    (hn : ∀ m, Worker.next svc m d p .ok = some (q, f))
    (hp : ∀ t, At svc t i id (rowAfter d f) q → (sys svc queues).Leads t P) :
    (sys svc queues).Leads s P := by
  refine leads_next (a := .ok) h ?_ hn hp
  intro e _ hpc
  cases p <;> simp_all [State.taskAnswer]

/-- A call whose session holds the committed row. -/
theorem commit_leads {c : Worker.Call} {P : State V → Prop} (h : At svc s i id d (.select c d))
    (hp : ∀ t, At svc t i id (c.update.assign d) (.refresh c (c.update.assign d)) →
      (sys svc queues).Leads t P) : (sys svc queues).Leads s P := by
  refine leads_ok (q := .commit c d) h (by simp) (by simp) (fun m => rfl) fun t ht => ?_
  refine leads_ok (q := .refresh c (c.update.assign d)) ht (by simp) (by simp) (fun m => rfl)
    fun u hu => hp u ?_
  have hrow : rowAfter (rowAfter d .none) (.commit c d) = c.update.assign d := Worker.flush_fresh
  rw [hrow] at hu
  exact hu

/-- From the first call on, with a provider that accepts. -/
theorem sent_leads {out : Worker.Outgoing} (h : At svc s i id d (.select (.sent out) d)) :
    (sys svc queues).Leads s (State.delivered id) := by
  generalize hnew : (Worker.Call.sent out).update.assign d = new
  refine commit_leads h fun s₁ h₁ => ?_
  rw [hnew] at h₁
  refine leads_ok (q := .send out new) h₁ (by simp) (by simp) (fun m => rfl) fun s₂ h₂ => ?_
  refine leads_ok (q := .sending out new) h₂ (by simp) (by simp) (fun m => rfl) fun s₃ h₃ => ?_
  refine leads_next (a := .provider .success) (q := .select .delivered new) h₃ (fun _ _ _ => rfl)
    (fun m => rfl) fun s₄ h₄ => ?_
  refine commit_leads h₄ fun s₅ h₅ => LTS.leads_now ?_
  rw [State.delivered, h₅.row]
  rfl

/-- The execution finds its rows, and what it renders is sent. -/
theorem loaded_leads (h : At svc s i id d .getDelivery) (hd : d.status = .pending) :
    (sys svc queues).Leads s (State.delivered id) := by
  refine leads_ok (q := .getNotification d) (f := .none) h (by simp) (by simp) ?_ fun s₁ h₁ => ?_
  · intro m
    simp [Worker.next, hd]
  obtain ⟨e, he, hid, _, _⟩ := h₁.exec
  have hnames := (h₁.sound.task.execs e (List.mem_of_getElem? he)).1
  rw [hid] at hnames
  obtain ⟨d', n, u, r, hrow, _, hnot, hu, _⟩ := deliverable_of_names h₁.sound hnames
  obtain ⟨templateId, htemplate, _⟩ := Option.bind_eq_some_iff.mp hu
  refine leads_next (a := .ok) (b := .notification (some n)) (q := .getTemplate d n) (f := .none) h₁
    ?_ ?_ fun s₂ h₂ => ?_
  · intro e he hpc
    simp [State.taskAnswer, hpc, he, hnot]
  · intro m
    simp [Worker.next, htemplate]
  obtain ⟨e, he, _, _, hpc⟩ := h₂.exec
  have hloaded := (h₂.sound.task.execs e (List.mem_of_getElem? he)).2
  rw [hpc] at hloaded
  obtain ⟨u, r, hu, _, hrender⟩ := stored_sound h₂.sound.api hloaded.2
  obtain ⟨c, hc⟩ := hloaded.1
  refine leads_next (a := .ok) (b := .template (some u))
    (q := .select (.sent ⟨targetOf n.userId c, r.2, r.1⟩) d) (f := .none) h₂ ?_ ?_ fun s₃ h₃ => ?_
  · intro e _ hpc
    simp [State.taskAnswer, hpc, hu]
  · intro m
    simp [Worker.next, prepare_addressed hc hrender]
  exact sent_leads h₃

/-! ### From the broker, and from a tick -/

theorem message_leads {m : Worker.Message} (hs : Sound svc s) (hrow : s.row id = some d)
    (hd : d.status = .pending) (hm : .sendNotificationDelivery id m ∈ s.broker)
    (hq : m.queue ∈ queues) : (sys svc queues).Leads s (State.delivered id) := by
  have hstep : step svc queues s (.receive (.sendNotificationDelivery id m)) = some
      (State.start { s with broker := s.broker.erase (.sendNotificationDelivery id m) }
        (.sendNotificationDelivery id m)) := by
    simp [step, hm, TaskMessage.queue, hq]
  refine LTS.leads_step hstep (loaded_leads (i := s.execs.length) ⟨?_, hrow, ?_⟩ hd)
  · exact sound_step (step_cases hstep) hs
  · exact ⟨⟨id, m, true, true, .getDelivery⟩, by simp [State.start], rfl, rfl, rfl⟩

/-- A tick gets to each row that it has selected. -/
theorem tick_leads (hqueues : ∀ p, queueName p ∈ queues) {stuck : List Api.DeliveryRow}
    (hs : Sound svc s) (hrow : s.row id = some d) (hd : d.status = .pending)
    (hk : s.ticks[k]? = some (nextStuck stuck)) (hid : id ∈ stuck.map deliveryId) :
    (sys svc queues).Leads s (State.delivered id) := by
  induction stuck generalizing s with
  | nil => cases hid
  | cons x stuck ih =>
    have hlt := (List.getElem?_eq_some_iff.mp hk).1
    generalize hq : queueName ((s.notification x.notificationId).elim .normal (·.priority)) = queue
    have hconsumed : queue ∈ queues := hq ▸ hqueues _
    have hfirst : step svc queues s (.tick k 0) =
        some (s.setTick k (.applyAsync x stuck queue)) := by
      simp [step, hk, nextStuck, State.runTick, hq]
    have hs₁ := sound_step (step_cases hfirst) hs
    refine LTS.leads_step hfirst ?_
    have hk₁ : (s.setTick k (.applyAsync x stuck queue)).ticks[k]? =
        some (.applyAsync x stuck queue) := by
      simp [State.setTick, List.getElem?_set_self hlt]
    have hsecond : step svc queues (s.setTick k (.applyAsync x stuck queue)) (.tick k 0) =
        some (((s.setTick k (.applyAsync x stuck queue)).publish (.sendNotificationDelivery
          (deliveryId x) ⟨0, queue, 0⟩)).setTick k (nextStuck stuck)) := by
      simp only [step, hk₁, Option.bind_some, State.runTick]
    have hs₂ := sound_step (step_cases hsecond) hs₁
    refine LTS.leads_step hsecond ?_
    by_cases hx : deliveryId x = id
    · refine message_leads (m := ⟨0, queue, 0⟩) hs₂ hrow hd ?_ hconsumed
      simp [State.setTick, State.publish, hx]
    · refine ih hs₂ hrow ?_ ?_
      · simp [State.setTick, State.publish, hlt]
      · exact (List.mem_cons.mp hid).resolve_left (Ne.symm hx)

/-- A tick that starts late enough selects the row. -/
theorem select_leads (hqueues : ∀ p, queueName p ∈ queues) (hs : Sound svc s)
    (hrow : s.row id = some d) (hd : d.status = .pending)
    (hk : s.ticks[k]? = some .getPendingDeliveries) :
    (sys svc queues).Leads s (State.delivered id) := by
  have hlt := (List.getElem?_eq_some_iff.mp hk).1
  obtain ⟨old, hold⟩ := Worker.getPendingDeliveries_eventually 300 hd
  have hselect : step svc queues s (.tick k (old + 1)) = some (s.setTick k (nextStuck
      (s.deliveries.filter fun d => Worker.getPendingDeliveries 300 (old + 1) d.columns))) := by
    simp only [step, hk, Option.bind_some, State.runTick]
  generalize hstuck : (s.deliveries.filter fun d =>
    Worker.getPendingDeliveries 300 (old + 1) d.columns) = stuck at hselect
  have hs₁ := sound_step (step_cases hselect) hs
  have hk₁ : (s.setTick k (nextStuck stuck)).ticks[k]? = some (nextStuck stuck) := by
    simp [State.setTick, List.getElem?_set_self hlt]
  refine LTS.leads_step hselect (tick_leads hqueues hs₁ hrow hd hk₁ ?_)
  obtain ⟨r, hr, rfl⟩ := Option.map_eq_some_iff.mp hrow
  have hmem := List.mem_of_find?_eq_some hr
  rw [← hstuck]
  refine List.mem_map.mpr ⟨r, List.mem_filter.mpr ⟨hmem, hold _ (by omega)⟩, ?_⟩
  simpa using List.find?_some hr

/-- The handler has committed, and its process dies before it publishes a message. -/
def lostSteps : List (Action Unit) := sendSteps.dropLast ++ [.api (.crash 0)]

end NotificationService.Deployment
