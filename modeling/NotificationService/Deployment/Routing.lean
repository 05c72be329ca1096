import NotificationService.Deployment.Deliverable

/-! Which queues the publishers choose: a delivery message is always on its priority's, Beat's is on
the default one. -/
namespace NotificationService.Deployment

open Transition

variable {V : Type}

/-- The message is on a consumed queue, and if it is for a delivery, on that of its notification's
priority. -/
def State.Routed (s : State V) (queues : List String) (m : TaskMessage) : Prop :=
  m.queue ∈ queues ∧ ∀ id d, m = .sendNotificationDelivery id d →
    ∃ n, s.notification id.1 = some n ∧ d.queue = queueName n.priority

def State.Unscheduled (s : State V) : Prop :=
  ∀ queue, TaskMessage.reconcilePendingDeliveries queue ∉ s.broker

/-- Beat's schedule names no queue. -/
def State.Defaulted (s : State V) : Prop :=
  ∀ queue, TaskMessage.reconcilePendingDeliveries queue ∈ s.broker → queue = taskDefaultQueue

theorem queueName_consumed (p : Priority) : queueName p ∈ workerQueues := by cases p <;> decide

theorem defaulted_initial : (initial : State V).Defaulted := by simp [State.Defaulted, initial]

variable {svc : TemplateService V} {queues : List String} {s t : State V} {a : Action V}
  {xs : List (Action V)} {id : ℕ × ℕ} {m : TaskMessage}

/-! ### Messages for deliveries -/

theorem queue_of_names (hs : Sound svc s) {queue : String} (hn : s.Names id queue) :
    ∃ n, s.notification id.1 = some n ∧ queue = queueName n.priority := by
  obtain ⟨_, n, _, _, _, _, hnot, _⟩ := deliverable_of_names hs hn
  obtain ⟨_, h, hh, hq⟩ := hn
  obtain ⟨hmem, hid⟩ := mem_of_notification hnot
  obtain ⟨g, templateId, hg, hrow, _⟩ := hs.api.notifications n hmem
  rw [hid] at hg
  cases hh.symm.trans hg
  refine ⟨n, hnot, ?_⟩
  rw [hq, hrow]
  rfl

variable [BEq V]

/-- Whatever queues the worker consumes, the handler, a retry and the reconciler agree. -/
theorem delivery_routed (hrun : (sys svc queues).MTr initial xs s) {d : Worker.Message}
    (hm : .sendNotificationDelivery id d ∈ s.broker) :
    ∃ n, s.notification id.1 = some n ∧ d.queue = queueName n.priority := by
  have hs : Sound svc s := LTS.mtrInv_of_trInv sound_trInv hrun sound_initial
  exact queue_of_names hs (hs.task.broker id d hm)

/-! ### Beat's messages -/

/-- A step takes a message off a consumed queue, or adds messages that only Beat's are for the
reconciler. -/
theorem broker_step (hstep : Step svc queues s a t) :
    (∃ ms, t.broker = s.broker ++ ms ∧ ∀ queue, .reconcilePendingDeliveries queue ∈ ms →
      a = .beat ∧ queue = taskDefaultQueue) ∨
    ∃ m, m.queue ∈ queues ∧ t.broker = s.broker.erase m := by
  cases hstep with
  | api hb hu =>
    refine Or.inl ⟨_, rfl, ?_⟩
    intro queue hm
    obtain ⟨m, _, heq⟩ := List.mem_map.mp hm
    cases heq
  | beat =>
    refine Or.inl ⟨_, rfl, ?_⟩
    intro queue hm
    cases List.mem_singleton.mp hm
    exact ⟨rfl, rfl⟩
  | @receive m _ hq =>
    refine Or.inr ⟨m, hq, ?_⟩
    cases m <;> rfl
  | @exec _ e _ _ _ f =>
    cases f with
    | publish m => exact Or.inl ⟨[.sendNotificationDelivery e.delivery m], rfl, by simp⟩
    | _ => exact Or.inl ⟨[], (List.append_nil _).symm, nofun⟩
  | @redeliver i e =>
    exact Or.inl ⟨[.sendNotificationDelivery e.delivery e.message], rfl, by simp⟩
  | @tick _ _ p _ _ hu =>
    cases p with
    | applyAsync d stuck queue =>
      cases hu
      exact Or.inl ⟨[.sendNotificationDelivery (deliveryId d) ⟨0, queue, 0⟩], rfl, by simp⟩
    | finished => cases hu
    | _ =>
      cases hu
      exact Or.inl ⟨[], (List.append_nil _).symm, nofun⟩
  | _ => exact Or.inl ⟨[], (List.append_nil _).symm, nofun⟩

/-- What is on a queue that nobody consumes stays there. -/
theorem unconsumed_step (hstep : Step svc queues s a t) (hm : m ∈ s.broker)
    (hq : m.queue ∉ queues) : m ∈ t.broker := by
  rcases broker_step hstep with ⟨ms, heq, _⟩ | ⟨m', hq', heq⟩
  · rw [heq]
    exact List.mem_append_left _ hm
  · rw [heq]
    refine (List.mem_erase_of_ne ?_).mpr hm
    rintro rfl
    exact hq hq'

theorem scheduled_step (hstep : Step svc queues s a t) {queue : String}
    (hm : .reconcilePendingDeliveries queue ∈ t.broker) :
    .reconcilePendingDeliveries queue ∈ s.broker ∨ a = .beat ∧ queue = taskDefaultQueue := by
  rcases broker_step hstep with ⟨ms, heq, hnew⟩ | ⟨m', _, heq⟩
  · rw [heq] at hm
    exact (List.mem_append.mp hm).imp_right (hnew queue)
  · rw [heq] at hm
    exact Or.inl (List.mem_of_mem_erase hm)

theorem defaulted_trInv : (sys svc queues).TrInv State.Defaulted := by
  intro s a t hstep hs queue hm
  rcases scheduled_step (sys_step hstep) hm with hold | ⟨_, hq⟩
  · exact hs queue hold
  · exact hq

theorem unscheduled_step (hstep : Step svc queues s a t) (hs : s.Unscheduled) :
    t.Unscheduled ↔ a ≠ .beat := by
  constructor
  · rintro ht rfl
    cases hstep with
    | beat => exact ht _ (List.mem_append_right _ (List.mem_singleton_self _))
    | marked _ hne => exact hne rfl
  · intro hne queue hm
    rcases scheduled_step hstep hm with hold | ⟨rfl, _⟩
    · exact hs queue hold
    · exact hne rfl

theorem unscheduled_back (hq : taskDefaultQueue ∉ queues) (hstep : Step svc queues s a t)
    (hs : s.Defaulted) (ht : t.Unscheduled) : s.Unscheduled := by
  intro queue hm
  have hdefault := hs queue hm
  exact ht queue (unconsumed_step hstep hm (hdefault ▸ hq))

/-- While nobody consumes the default queue, the schedule has left nothing on the broker only if it
has published nothing. -/
theorem unscheduled_run (hq : taskDefaultQueue ∉ queues)
    (hrun : (sys svc queues).MTr initial xs s) : s.Unscheduled ↔ Action.beat ∉ xs := by
  have hiff := hrun.restrict_iff (C := fun _ a => a ≠ .beat) (P := State.Unscheduled)
    defaulted_trInv (fun _ _ _ hstep _ hs => unscheduled_step (sys_step hstep) hs)
    (fun _ _ _ hstep => unscheduled_back hq (sys_step hstep)) defaulted_initial
    (by simp [State.Unscheduled, initial])
  rw [hiff, LTS.MTr.restrict_label, and_iff_left hrun]
  constructor
  · exact fun hne hm => hne _ hm rfl
  · rintro hne a hm rfl
    exact hne hm

theorem ticks_step (hq : taskDefaultQueue ∉ queues) (hstep : Step svc queues s a t)
    (hs : s.Defaulted) (hticks : s.ticks = []) : t.ticks = [] := by
  cases hstep with
  | @receive m hm hmq =>
    cases m with
    | sendNotificationDelivery id d => exact hticks
    | reconcilePendingDeliveries queue =>
      have hdefault := hs queue hm
      exact (hq (hdefault ▸ hmq)).elim
  | @exec _ e _ _ _ f => cases f <;> exact hticks
  | tick hp => simp [hticks] at hp
  | tickRaised => simp [State.setTick, hticks]
  | _ => exact hticks

/-- A worker that does not consume the default queue never starts the reconciliation. -/
theorem ticks_run (hq : taskDefaultQueue ∉ queues) (hrun : (sys svc queues).MTr initial xs s) :
    s.ticks = [] := by
  have hinv : (sys svc queues).TrInv fun s => s.Defaulted ∧ s.ticks = [] := by
    rintro s a t hstep ⟨hs, hticks⟩
    exact ⟨defaulted_trInv s a t hstep hs, ticks_step hq (sys_step hstep) hs hticks⟩
  exact (LTS.mtrInv_of_trInv hinv hrun ⟨defaulted_initial, rfl⟩).2

/-- In every run of the deployed system, all messages are where they should be if and only if Beat
has not published its task. -/
theorem messages_routed (hrun : (sys svc workerQueues).MTr initial xs s) :
    (∀ m ∈ s.broker, s.Routed workerQueues m) ↔ Action.beat ∉ xs := by
  have hdefault : taskDefaultQueue ∉ workerQueues := by decide
  rw [← unscheduled_run hdefault hrun]
  constructor
  · intro hall queue hm
    have hs := LTS.mtrInv_of_trInv defaulted_trInv hrun defaulted_initial
    exact hdefault (hs queue hm ▸ (hall _ hm).1)
  · intro hs m hm
    cases m with
    | sendNotificationDelivery id d =>
      obtain ⟨n, hn, hq⟩ := delivery_routed hrun hm
      constructor
      · rw [TaskMessage.queue, hq]
        exact queueName_consumed _
      · rintro _ _ heq
        cases heq
        exact ⟨n, hn, hq⟩
    | reconcilePendingDeliveries queue => exact (hs queue hm).elim

/-- The worker takes the email and schedules its retry. -/
def retrySteps : List (Action Unit) :=
  .receive emailMessage :: List.replicate 7 (.exec 0 .ok) ++
    .exec 0 (.provider (.providerError "Connection timeout")) :: List.replicate 4 (.exec 0 .ok)

theorem messages_routed_retried : ∃ s,
    (sys literalJinja.service workerQueues).MTr initial (sendSteps ++ retrySteps) s ∧
    s.broker = [.sendNotificationDelivery (0, 0) ⟨1, "high", 1⟩] ∧
    ∀ m ∈ s.broker, s.Routed workerQueues m := by
  have hrun : (LTS.run (step literalJinja.service workerQueues) initial
      (sendSteps ++ retrySteps)).map (·.broker) =
        some [.sendNotificationDelivery (0, 0) ⟨1, "high", 1⟩] := by decide
  obtain ⟨s, htr, hbroker⟩ := LTS.exists_mTr hrun
  exact ⟨s, htr, hbroker, (messages_routed htr).mpr (by decide)⟩

/-- Beat publishes once, on a queue that the worker does not consume. -/
theorem scheduled_unconsumed : ¬ ∀ xs s, (sys literalJinja.service workerQueues).MTr initial xs s →
    ∀ m ∈ s.broker, m.queue ∈ workerQueues := by
  intro hall
  have hconsumed := hall [.beat] _ (LTS.mTr_ofStep.mpr rfl) _ (List.mem_singleton_self _)
  exact absurd hconsumed (by decide)

end NotificationService.Deployment
