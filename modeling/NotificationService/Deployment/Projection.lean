import NotificationService.Api.Enqueued
import NotificationService.Worker.Workload
import NotificationService.Deployment.Routing
import NotificationService.Deployment.View

/-! Each delivery of the deployed system lives in the system of one delivery: its row, its messages
and its executions are those of a run of that system, whatever the rest does. -/
namespace NotificationService.Deployment

open Transition

variable {V : Type} {svc : TemplateService V} {s t : State V} {id : ℕ × ℕ} {w : Worker.State V}

/-! ### Ids are unique -/

variable [BEq V] {queues : List String} {a : Action V} {xs : List (Action V)}

theorem numbered_nodup {i : ℕ} {ds : List Api.DeliveryRow} (hds : Api.Numbered i ds) :
    (ds.map deliveryId).Nodup := by
  rw [List.nodup_iff_getElem?_ne_getElem?]
  intro k m hkm hm
  rw [List.length_map] at hm
  have hat : ∀ n, n < ds.length → (ds.map deliveryId)[n]? = some (i, n) := by
    intro n hn
    obtain ⟨_, _, heq⟩ := hds n ds[n] (List.getElem?_eq_getElem hn)
    rw [List.getElem?_map, List.getElem?_eq_getElem hn, heq]
    rfl
  rw [hat k (hkm.trans hm), hat m hm]
  simp
  omega

theorem rowsOf_numbered {u : Api.State V} (ha : Api.Enqueued u) (i : ℕ) :
    Api.Numbered i (u.rowsOf i) := by
  cases hh : u.handlers[i]? with
  | some h => exact (ha.handlers i h hh).rows
  | none =>
    have hs : u.untouched i :=
      ha.settled.quiet i (Nat.zero_le _) fun h hh' => by cases hh.symm.trans hh'
    simp [(Api.untouched_rowsOf hs).1, Api.Numbered]

theorem keys_nodup {u : Api.State V} (ha : Api.Enqueued u) :
    (u.deliveries.map deliveryId).Nodup := by
  rw [List.nodup_iff_count_le_one]
  intro id
  have hcount : (u.deliveries.map deliveryId).count id =
      ((u.rowsOf id.1).map deliveryId).count id := by
    rw [List.count_eq_countP, List.count_eq_countP, List.countP_map, List.countP_map,
      Api.State.rowsOf, List.countP_filter]
    refine List.countP_congr fun d _ => ?_
    simp only [Function.comp_apply, beq_iff_eq, Bool.and_eq_true, decide_eq_true_eq]
    exact ⟨fun h => ⟨h, congrArg Prod.fst h⟩, fun h => h.1⟩
  rw [hcount]
  exact List.nodup_iff_count_le_one.mp (numbered_nodup (rowsOf_numbered ha id.1)) id

/-- The deliveries that a handler has still to publish are different rows. -/
theorem queue_nodup {u : Api.State V} (ha : Api.Enqueued u) {i : ℕ} {h : Api.Handler V}
    {ds : List Api.DeliveryRow} (hh : u.handlers[i]? = some h) (hpc : h.pc = .applyAsync ds) :
    (ds.map deliveryId).Nodup := by
  obtain ⟨_, hrows, ⟨rest, hrest, hqueue, _⟩, _⟩ := ha.handlers i h hh
  obtain rfl := hqueue ds hpc
  have hsuffix : (u.messagesOf i).map (·.delivery) ++ rest = u.rowsOf i := by
    have hmap := congrArg (List.map (·.delivery)) hrest
    simpa [Api.Handler.message, Function.comp_def] using hmap
  have hnodup := numbered_nodup hrows
  rw [← hsuffix, List.map_append] at hnodup
  exact (List.nodup_append.mp hnodup).2.1

/-! ### Steps of the system -/

theorem matches_run {i : ℕ} {h h' : Api.Handler V} {b : Api.Answer} {f : Api.Effect V}
    (hw : View id s w) (ha : Api.Enqueued s.api) (hkeys : s.deliveries.map deliveryId =
      s.api.deliveries.map deliveryId) (hh : s.api.handlers[i]? = some h)
    (hn : Api.next svc s.api i h b = some (h', f)) :
    Matches svc (s.afterApi svc (.run i b) ((s.api.apply f).setHandler i h')) id w := by
  have hlt := (List.getElem?_eq_some_iff.mp hh).1
  have hwrites := Api.writes_next hn
  have htidy := (ha.settled.own i h hh (Nat.zero_le _)).1
  have hf := (Api.tidy_edge (Api.next_edge hn) htidy).2
  by_cases hi : i = id.1
  · subst hi
    have hself : ∀ g, (s.api.handlers.set id.1 h')[id.1]? = some g → g = h' := by
      intro g hg
      rw [List.getElem?_set_self hlt] at hg
      exact (Option.some.inj hg).symm
    cases Api.publishes_edge (Api.next_edge hn) with
    | silent hsilent hno =>
      refine Or.inl (view_run hw ?_ ?_)
      · rintro m rfl
        cases hsilent
      · intro g ds hg hpc
        obtain rfl := hself g hg
        exact absurd hpc (hno ds)
    | committed hpc =>
      -- The delivery cannot be there before its own commit.
      have hfalse : h.committed = false := by
        simp [Api.Handler.committed, hpc, Api.PC.committed, Api.PC.durable]
      have hs : s.api.untouched id.1 := by
        refine ha.settled.quiet _ (Nat.zero_le _) fun g hg => ?_
        cases hh.symm.trans hg
        exact hfalse
      have hid : id ∈ s.api.deliveries.map deliveryId := by
        rw [← hkeys]
        exact row_isSome.mp (by rw [hw.row]; rfl)
      obtain ⟨d, hd, rfl⟩ := List.mem_map.mp hid
      exact absurd rfl (hs.2.1 d hd)
    | @published m ds hpc _ hnext =>
      have hnodup := queue_nodup ha hh hpc
      rw [List.map_cons, List.nodup_cons] at hnodup
      obtain ⟨_, _, hqueue⟩ := hwrites.publish m rfl
      by_cases hm : deliveryId m.delivery = id
      · have hpending := hw.pending h _ hh hpc (by simp [hm])
        have hstep : Worker.step svc w .apiPublish = some { w with
            apiPending := none
            ready := w.ready ++ [⟨0, queueName h.payload.priority, 0⟩] } := by
          simp [Worker.step, hpending]
        obtain ⟨hrow, hready, hexecs, _, hrequeues⟩ := hw
        refine Or.inr ⟨.apiPublish, _, hstep, ?_⟩
        rw [afterApi_run]
        refine ⟨row_append hrow rfl, ?_, hexecs, ?_, hrequeues⟩
        · simp [newMessages, enqueue, messageFor, hm, hready, hqueue]
        · intro g es hg hpc' hmem
          obtain rfl := hself g (by simpa using hg)
          rw [hnext es hpc', ← hm] at hmem
          exact absurd hmem hnodup.1
      · refine Or.inl (view_run hw (fun m' hm' => by cases hm'; exact hm) ?_)
        intro g es hg hpc' hmem
        obtain rfl := hself g hg
        rw [hwrites.payload]
        refine hw.pending h _ hh hpc ?_
        rw [hnext es hpc'] at hmem
        exact List.mem_cons_of_mem _ hmem
  · refine Or.inl (view_run hw ?_ ?_)
    · rintro m rfl hm
      have hmi : m.delivery.notificationId = i := hf
      exact hi (hmi.symm.trans (congrArg Prod.fst hm))
    · intro g ds hg
      rw [List.getElem?_set_ne hi] at hg
      exact hw.pending g ds hg

theorem quiet_step {b : Api.Action V} {u : Api.State V} (hu : Api.step svc s.api b = some u)
    (hb : ∀ i c, b ≠ .run i c) : Quiet s u := by
  cases Api.step_cases hu with
  | tick =>
    exact ⟨rfl, rfl, rfl, fun j g hg => ⟨g, hg, rfl, rfl, rfl, Or.inl rfl⟩,
      fun j g hg => Or.inl ⟨g, hg, rfl, rfl, rfl, Or.inl rfl⟩⟩
  | @request key payload =>
    refine ⟨rfl, rfl, rfl, ?_, ?_⟩
    · exact fun j g hg => Pool.exists_getElem?_concat ⟨g, hg, rfl, rfl, rfl, Or.inl rfl⟩
    · refine Pool.forall_getElem?_concat ?_ (Or.inr ⟨key, payload, rfl⟩)
      exact fun j g hg => Or.inl ⟨g, hg, rfl, rfl, rfl, Or.inl rfl⟩
  | run => exact absurd rfl (hb _ _)
  | crash hh => exact quiet_set hh ⟨rfl, rfl, rfl, Or.inl rfl⟩
  | rollback hh => exact quiet_set hh ⟨rfl, rfl, rfl, Or.inr rfl⟩

theorem matches_step (hstep : step svc queues s a = some t) (hs : Sound svc s)
    (ha : Api.Enqueued s.api) (hticks : ∀ p ∈ s.ticks, p.ids.Nodup) (hw : View id s w) :
    Matches svc t id w := by
  have hkeys : (s.deliveries.map deliveryId).Nodup := hs.api.keys ▸ keys_nodup ha
  cases a with
  | api a =>
    obtain ⟨b, hb, hstep⟩ := Option.bind_eq_some_iff.mp hstep
    obtain ⟨u, hu, rfl⟩ := Option.map_eq_some_iff.mp hstep
    cases b with
    | run i c =>
      obtain ⟨h, h', f, hh, _, hn, rfl⟩ := Api.step_run hu
      exact matches_run hw ha hs.api.keys hh hn
    | _ => exact Or.inl (view_quiet hw (quiet_step hu (by simp)))
  | template a =>
    obtain ⟨u, _, rfl⟩ := Option.map_eq_some_iff.mp hstep
    obtain ⟨hrow, hready, hexecs, hpending, hrequeues⟩ := hw
    exact Or.inl ⟨hrow, hready, hexecs, hpending, hrequeues⟩
  | preference a =>
    obtain ⟨u, _, rfl⟩ := Option.map_eq_some_iff.mp hstep
    obtain ⟨hrow, hready, hexecs, hpending, hrequeues⟩ := hw
    exact Or.inl ⟨hrow, hready, hexecs, hpending, hrequeues⟩
  | beat =>
    cases hstep
    obtain ⟨hrow, hready, hexecs, hpending, hrequeues⟩ := hw
    refine Or.inl ⟨hrow, ?_, hexecs, hpending, hrequeues⟩
    simp [State.publish, messageFor, hready]
  | receive m =>
    simp only [step, Option.ite_none_right_eq_some, Option.some.injEq] at hstep
    obtain ⟨⟨hm, _⟩, rfl⟩ := hstep
    exact matches_receive hw hm
  | exec i a =>
    obtain ⟨e, he, hstep⟩ := Option.bind_eq_some_iff.mp hstep
    obtain ⟨b, _, hstep⟩ := Option.bind_eq_some_iff.mp hstep
    simp only [Option.ite_none_right_eq_some, Option.map_eq_some_iff] at hstep
    obtain ⟨halive, ⟨q, f⟩, hexec, rfl⟩ := hstep
    exact matches_exec hw he halive hexec
  | crash i =>
    obtain ⟨e, he, hstep⟩ := Option.bind_eq_some_iff.mp hstep
    simp only [Option.ite_none_right_eq_some, Option.some.injEq] at hstep
    obtain ⟨hg, rfl⟩ := hstep
    exact matches_crash hw he hg
  | ack i =>
    obtain ⟨e, he, hstep⟩ := Option.bind_eq_some_iff.mp hstep
    simp only [Option.ite_none_right_eq_some, Option.some.injEq] at hstep
    obtain ⟨hg, rfl⟩ := hstep
    exact matches_ack hw he hg
  | redeliver i =>
    obtain ⟨e, he, hstep⟩ := Option.bind_eq_some_iff.mp hstep
    simp only [Option.ite_none_right_eq_some, Option.some.injEq] at hstep
    obtain ⟨hheld, rfl⟩ := hstep
    exact matches_redeliver hw he hheld
  | lose i =>
    obtain ⟨e, he, hstep⟩ := Option.bind_eq_some_iff.mp hstep
    simp only [Option.ite_none_right_eq_some, Option.some.injEq] at hstep
    obtain ⟨hg, rfl⟩ := hstep
    exact matches_lose hw he hg
  | tick k now =>
    obtain ⟨p, hp, hstep⟩ := Option.bind_eq_some_iff.mp hstep
    cases p with
    | getPendingDeliveries =>
      cases hstep
      exact matches_selected hw hkeys hp
    | getNotification d stuck =>
      cases hstep
      exact matches_notification hw hp
    | applyAsync d stuck queue =>
      cases hstep
      exact matches_requeue hw hp (hticks _ (List.mem_of_getElem? hp))
    | finished => cases hstep
  | tickRaised k =>
    obtain ⟨p, hp, hstep⟩ := Option.bind_eq_some_iff.mp hstep
    simp only [Option.ite_none_left_eq_some, Option.some.injEq] at hstep
    obtain ⟨_, rfl⟩ := hstep
    exact Or.inl (view_setTick hw hp (Or.inr rfl))

/-! ### The whole system -/

/-- A tick selects each row once. -/
theorem ids_step (hstep : Step svc queues s a t) (hkeys : (s.deliveries.map deliveryId).Nodup)
    (hticks : ∀ p ∈ s.ticks, p.ids.Nodup) : ∀ p ∈ t.ticks, p.ids.Nodup := by
  cases hstep with
  | @receive m =>
    cases m with
    | sendNotificationDelivery id m => exact hticks
    | reconcilePendingDeliveries queue => exact Pool.forall_concat hticks List.nodup_nil
  | @exec _ e _ _ _ f => cases f <;> exact hticks
  | @tick k now p _ hp hu =>
    have hids := hticks p (List.mem_of_getElem? hp)
    cases p with
    | getPendingDeliveries =>
      cases hu
      refine Pool.forall_set hticks ?_
      rw [ids_nextStuck]
      exact hkeys.sublist (List.filter_sublist.map _)
    | getNotification d stuck =>
      cases hu
      exact Pool.forall_set hticks hids
    | applyAsync d stuck queue =>
      cases hu
      refine Pool.forall_set hticks ?_
      rw [ids_nextStuck]
      exact (List.nodup_cons.mp hids).2
    | finished => cases hu
  | tickRaised => exact Pool.forall_set hticks List.nodup_nil
  | _ => exact hticks

/-- A step is one of the API, or leaves the requests alone. -/
theorem api_cases (hstep : Step svc queues s a t) : t.api = s.api ∨
    ∃ b c, a = .api b ∧ s.resolve b = some c ∧ (Api.sys svc).Tr s.api c t.api := by
  cases hstep with
  | api hb hu => exact Or.inr ⟨_, _, rfl, hb, hu⟩
  | @receive m => cases m <;> exact Or.inl rfl
  | @exec _ e _ _ _ f => cases f <;> exact Or.inl rfl
  | @tick _ _ p _ _ hu => cases p <;> cases hu <;> exact Or.inl rfl
  | _ => exact Or.inl rfl

theorem enqueued_api (hstep : Step svc queues s a t) (ha : Api.Enqueued s.api) :
    Api.Enqueued t.api := by
  rcases api_cases hstep with heq | ⟨b, c, _, _, hu⟩
  · exact heq ▸ ha
  · exact Api.enqueued_step hu ha

/-- The rows that a handler commits are deliveries of their own from then on. -/
theorem created_run {i : ℕ} {h h' : Api.Handler V} {b : Api.Answer} {f : Api.Effect V}
    (hs : Sound svc s) (ha : Api.Enqueued s.api) (hh : s.api.handlers[i]? = some h)
    (hn : Api.next svc s.api i h b = some (h', f))
    (ht : t = s.afterApi svc (.run i b) ((s.api.apply f).setHandler i h'))
    (hkeys : (t.deliveries.map deliveryId).Nodup) (hnew : id ∉ s.deliveries.map deliveryId)
    (hid : id ∈ t.deliveries.map deliveryId) : ∃ w, Created w ∧ View id t w := by
  have hlt := (List.getElem?_eq_some_iff.mp hh).1
  have hwrites := Api.writes_next hn
  rw [afterApi_run] at ht
  have hmem : id ∈ (newRows f).map deliveryId := by
    rw [ht, List.map_append] at hid
    exact (List.mem_append.mp hid).resolve_left hnew
  cases f with
  | commit x =>
    obtain ⟨d, hd, rfl⟩ := List.mem_map.mp hmem
    obtain ⟨k, hk⟩ := List.mem_iff_getElem?.mp hd
    obtain ⟨c, now, hrow⟩ := (ha.handlers i h hh).tx x (hwrites.commit x rfl) k d hk
    have hi : d.notificationId = i := by rw [hrow]
    refine ⟨_, ⟨c, now, h.payload.priority, rfl⟩, view_created hs.task hnew (by rw [hrow])
      (by rw [ht]; exact List.mem_append_right _ hd) hkeys (by simp [ht, newMessages]) (by rw [ht])
      (by rw [ht]) ?_⟩
    intro g hg
    rw [ht, hi] at hg
    have hself : (s.api.handlers.set i h')[i]? = some g := hg
    rw [List.getElem?_set_self hlt] at hself
    cases hself
    rw [hwrites.payload]
  | _ => cases hmem

/-- Only a handler adds rows. -/
theorem created_step (hstep : Step svc queues s a t) (hs : Sound svc s) (ha : Api.Enqueued s.api)
    (hkeys : (t.deliveries.map deliveryId).Nodup) (hnew : id ∉ s.deliveries.map deliveryId)
    (hid : id ∈ t.deliveries.map deliveryId) : ∃ w, Created w ∧ View id t w := by
  cases hstep with
  | @api _ b u _ hu =>
    cases b with
    | run i c =>
      obtain ⟨h, h', f, hh, _, hn, rfl⟩ := Api.step_run hu
      exact created_run hs ha hh hn rfl hkeys hnew hid
    | _ =>
      have hq := quiet_step hu (by simp)
      simp only [State.afterApi, hq.deliveries, List.drop_length, List.append_nil] at hid
      exact absurd hid hnew
  | @receive m => cases m <;> exact absurd hid hnew
  | @exec _ e _ _ _ f _ _ _ =>
    have hsame := (keeps_apply s e.delivery f).keys
    exact absurd (hsame ▸ hid) hnew
  | tick hp hu =>
    have hsound := hs.task.ticks _ (List.mem_of_getElem? hp)
    have hsame := (runTick_sound hs.api hs.task hsound hu).1.keys
    exact absurd (hsame ▸ hid) hnew
  | _ => exact absurd hid hnew

structure Projected (svc : TemplateService V) (s : State V) : Prop where
  sound : Sound svc s
  enqueued : Api.Enqueued s.api
  ticks : ∀ p ∈ s.ticks, p.ids.Nodup
  tracked : ∀ id ∈ s.deliveries.map deliveryId, (Worker.sys svc).Tracks Created (View id) s

theorem projected_step (hstep : (sys svc queues).Tr s a t) (hs : Projected svc s) :
    Projected svc t := by
  have hsound := sound_step (sys_step hstep) hs.sound
  have henqueued := enqueued_api (sys_step hstep) hs.enqueued
  have hkeys : (s.deliveries.map deliveryId).Nodup :=
    hs.sound.api.keys ▸ keys_nodup hs.enqueued
  have hkeys' : (t.deliveries.map deliveryId).Nodup := hsound.api.keys ▸ keys_nodup henqueued
  refine ⟨hsound, henqueued, ids_step (sys_step hstep) hkeys hs.ticks, ?_⟩
  intro id hid
  by_cases hold : id ∈ s.deliveries.map deliveryId
  · refine (hs.tracked id hold).step fun w hw => ?_
    exact matches_step hstep hs.sound hs.enqueued hs.ticks hw
  · obtain ⟨w, hcreated, hw⟩ :=
      created_step (sys_step hstep) hs.sound hs.enqueued hkeys' hold hid
    exact .start hcreated hw

theorem projected_initial : Projected svc (initial : State V) :=
  ⟨sound_initial, Api.enqueued_initial, by simp [initial], by simp [initial]⟩

theorem projected_trInv : (sys svc queues).TrInv (Projected svc) := fun _ _ _ hstep hs =>
  projected_step hstep hs

/-- What every run of the system of one delivery keeps, each delivery of the deployed system has. -/
theorem delivery_inv {P : Worker.State V → Prop} (hP : (Worker.sys svc).TrInv P)
    (hinit : ∀ ch now p, P (Worker.initial ch now p)) (hs : Projected svc s)
    (hid : id ∈ s.deliveries.map deliveryId) : ∃ w, View id s w ∧ P w := by
  refine (hs.tracked id hid).inv hP ?_
  rintro _ ⟨c, now, p, rfl⟩
  exact hinit c.channel now p

/-- Whatever the API, the other deliveries, the reconciler and Beat do, what a delivery sees of the
deployed system is a run of the system of that delivery alone. -/
theorem deliveries_tracked (hrun : (sys svc queues).MTr initial xs s)
    (hid : id ∈ s.deliveries.map deliveryId) :
    ∃ (c : Api.ChannelEnum) (createdAt : ℕ) (p : Priority) (ys : List (Worker.Action V))
      (w : Worker.State V), (Worker.sys svc).MTr (Worker.initial c.channel createdAt p) ys w ∧
      s.row id = some w.row ∧ s.broker.filterMap (messageFor id) = w.ready ∧
      s.execs.filterMap (execFor id) = w.execs := by
  have hs := LTS.mtrInv_of_trInv projected_trInv hrun projected_initial
  obtain ⟨_, ys, w, ⟨c, createdAt, p, rfl⟩, hys, hw⟩ := hs.tracked id hid
  exact ⟨c, createdAt, p, ys, w, hys, hw.row, hw.ready, hw.execs⟩

theorem deliveries_tracked_retried : ∃ s,
    (sys literalJinja.service workerQueues).MTr initial (sendSteps ++ retrySteps) s ∧
    ∃ (c : Api.ChannelEnum) (createdAt : ℕ) (p : Priority) (ys : List (Worker.Action Unit))
      (w : Worker.State Unit),
      (Worker.sys literalJinja.service).MTr (Worker.initial c.channel createdAt p) ys w ∧
      w.row.retryCount = 1 ∧ w.ready = [⟨1, "high", 1⟩] := by
  have hrun : (LTS.run (step literalJinja.service workerQueues) initial
      (sendSteps ++ retrySteps)).map (fun s => (s.deliveries.map deliveryId,
        (s.row (0, 0)).map (·.retryCount), s.broker.filterMap (messageFor (0, 0)))) =
      some ([(0, 0), (0, 1)], some 1, [⟨1, "high", 1⟩]) := by decide
  obtain ⟨s, htr, he⟩ := LTS.exists_mTr hrun
  simp only [Prod.mk.injEq] at he
  obtain ⟨hids, hcount, hready⟩ := he
  have hid : (0, 0) ∈ s.deliveries.map deliveryId := by rw [hids]; decide
  obtain ⟨c, createdAt, p, ys, w, hys, hrow, hready', _⟩ := deliveries_tracked htr hid
  refine ⟨s, htr, c, createdAt, p, ys, w, hys, ?_, hready' ▸ hready⟩
  rw [hrow] at hcount
  exact Option.some.inj hcount

/-- Every message for a delivery, queued or being executed, is within the retries and has the delay
of its retry, wherever it was published. -/
theorem retries_scheduled (hrun : (sys svc queues).MTr initial xs s) {m : Worker.Message}
    (hm : .sendNotificationDelivery id m ∈ s.broker ∨
      ∃ e ∈ s.execs, e.delivery = id ∧ e.message = m) :
    m.retries ≤ Worker.maxRetries ∧
      m.countdown = if m.retries = 0 then 0 else 4 ^ (m.retries - 1) := by
  have hs := LTS.mtrInv_of_trInv projected_trInv hrun projected_initial
  have hid : id ∈ s.deliveries.map deliveryId := by
    rcases hm with hm | ⟨e, he, rfl, _⟩
    · exact (hs.sound.task.broker id m hm).1
    · exact (hs.sound.task.execs e he).1.1
  have hinv : (Worker.sys svc).TrInv fun w => Worker.RetriesBounded w ∧ Worker.Delayed w := by
    rintro w b w' hstep ⟨hretries, hdelayed⟩
    exact ⟨Worker.retriesBounded_step (Worker.sys_step hstep) hretries,
      Worker.delayed_step (Worker.sys_step hstep) hdelayed⟩
  obtain ⟨w, hw, hretries, hdelayed⟩ := delivery_inv hinv
    (fun _ _ _ => ⟨Worker.retriesBounded_initial, Worker.delayed_initial⟩) hs hid
  rcases hm with hm | ⟨e, he, hd, rfl⟩
  · have hready : m ∈ w.ready := by
      rw [← hw.ready]
      exact List.mem_filterMap.mpr ⟨_, hm, by simp [messageFor]⟩
    exact ⟨hretries.ready m hready, hdelayed.ready m hready⟩
  · have hexec : e.view ∈ w.execs := by
      rw [← hw.execs]
      exact List.mem_filterMap.mpr ⟨e, he, by simp [execFor, hd]⟩
    exact ⟨(hretries.execs _ hexec).1, hdelayed.execs _ hexec⟩

theorem retries_scheduled_retried : ∃ s,
    (sys literalJinja.service workerQueues).MTr initial (sendSteps ++ retrySteps) s ∧
    .sendNotificationDelivery (0, 0) ⟨1, "high", 1⟩ ∈ s.broker ∧
    (1 ≤ Worker.maxRetries ∧ 1 = if 1 = 0 then 0 else 4 ^ (1 - 1)) := by
  have hrun : (LTS.run (step literalJinja.service workerQueues) initial
      (sendSteps ++ retrySteps)).map (·.broker) =
        some [.sendNotificationDelivery (0, 0) ⟨1, "high", 1⟩] := by decide
  obtain ⟨s, htr, hbroker⟩ := LTS.exists_mTr hrun
  have hm : .sendNotificationDelivery (0, 0) ⟨1, "high", 1⟩ ∈ s.broker := by simp [hbroker]
  exact ⟨s, htr, hm, retries_scheduled htr (Or.inl hm)⟩

end NotificationService.Deployment
