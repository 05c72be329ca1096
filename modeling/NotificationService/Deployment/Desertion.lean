import NotificationService.Deployment.Recovery

/-! As it is started, the worker does not consume the queue of the reconciliation. A delivery that
has lost its message then stays as it is. -/
namespace NotificationService.Deployment

open Transition

variable {V : Type}

/-- A live handler has still to publish the delivery. -/
def Awaits (u : Api.State V) (id : ℕ × ℕ) : Prop :=
  ∃ h ds, u.handlers[id.1]? = some h ∧ h.alive = true ∧ h.pc = .applyAsync ds ∧
    id ∈ ds.map deliveryId

/-- The execution is over, and the broker no longer holds its message. -/
def Exec.Ended (e : Exec V) : Prop := e.held = false ∧ (e.alive = false ∨ e.pc.isFinished = true)

/-- Nothing is left that would work on the delivery. -/
structure State.Deserted (s : State V) (id : ℕ × ℕ) : Prop where
  row : id ∈ s.deliveries.map deliveryId
  broker : ∀ m ∈ s.broker, messageFor id m = none
  execs : ∀ e ∈ s.execs, e.delivery = id → e.Ended
  handler : ¬ Awaits s.api id

variable {svc : TemplateService V} {s t : State V} {id : ℕ × ℕ} {i : ℕ}

theorem deserted_frame (hs : s.Deserted id) (hrow : t.row id = s.row id)
    (hbroker : ∀ m ∈ t.broker, m ∈ s.broker ∨ messageFor id m = none)
    (hexecs : ∀ e ∈ t.execs, e.delivery = id → e ∈ s.execs ∨ e.Ended)
    (hhandler : Awaits t.api id → Awaits s.api id) : t.row id = s.row id ∧ t.Deserted id := by
  refine ⟨hrow, ?_, ?_, ?_, fun h => hs.handler (hhandler h)⟩
  · rw [← row_isSome, hrow, row_isSome]
    exact hs.row
  · intro m hm
    exact (hbroker m hm).elim (hs.broker m) fun hnone => hnone
  · intro e he hid
    exact (hexecs e he hid).elim (fun hold => hs.execs e hold hid) fun hended => hended

/-- The row is found where it was. -/
theorem row_of_append (hs : s.Deserted id) {ds : List Api.DeliveryRow}
    (ht : t.deliveries = s.deliveries ++ ds) : t.row id = s.row id := by
  obtain ⟨r, hr⟩ := Option.isSome_iff_exists.mp (row_isSome.mpr hs.row)
  rw [row_append hr ht, hr]

/-- An execution is marked as over, or belongs to another delivery. -/
theorem deserted_setExec {e e' : Exec V} (hs : s.Deserted id) (he : s.execs[i]? = some e)
    (hd : e'.delivery = e.delivery) (hended : e.Ended → e'.Ended) :
    (s.setExec i e').row id = s.row id ∧ (s.setExec i e').Deserted id := by
  refine deserted_frame hs rfl (fun m hm => Or.inl hm) ?_ (fun h => h)
  refine Pool.forall_set (fun x hx _ => Or.inl hx) fun hid => Or.inr ?_
  exact hended (hs.execs e (List.mem_of_getElem? he) (hd.symm.trans hid))

theorem awaits_other {h h' : Api.Handler V} {u : Api.State V} (hh : u.handlers[i]? = some h)
    (hsame : h'.alive = true → h.alive = true ∧ h'.pc = h.pc)
    (ha : Awaits (u.setHandler i h') id) : Awaits u id := by
  obtain ⟨g, ds, hg, halive, hpc, hid⟩ := ha
  rw [Api.setHandler_handlers] at hg
  by_cases hi : i = id.1
  · subst hi
    rw [List.getElem?_set_self (List.getElem?_eq_some_iff.mp hh).1] at hg
    cases hg
    obtain ⟨halive', hpc'⟩ := hsame halive
    exact ⟨h, ds, hh, halive', hpc' ▸ hpc, hid⟩
  · rw [List.getElem?_set_ne hi] at hg
    exact ⟨g, ds, hg, halive, hpc, hid⟩

variable [BEq V] {queues : List String} {a : Action V} {xs ys : List (Action V)}

/-- Only its own handler's step brings a delivery nearer to its message. -/
theorem awaits_step {b : Api.Action V} {u : Api.State V} (hu : Api.step svc s.api b = some u)
    (hb : ∀ i c, b ≠ .run i c) (ha : Awaits u id) : Awaits s.api id := by
  cases Api.step_cases hu with
  | tick => exact ha
  | @request key payload =>
    obtain ⟨h, ds, hh, halive, hpc, hid⟩ := ha
    have hold : ∀ (j : ℕ) (g : Api.Handler V),
        (s.api.handlers ++ [Api.start key payload])[j]? = some g →
        g.pc = .applyAsync ds → s.api.handlers[j]? = some g := by
      refine Pool.forall_getElem?_concat (fun j g hg _ => hg) fun hq => ?_
      rcases Api.start_cases key payload with heq | heq <;> cases heq.symm.trans hq
    exact ⟨h, ds, hold _ h hh hpc, halive, hpc, hid⟩
  | run => exact absurd rfl (hb _ _)
  | crash hh =>
    refine awaits_other hh (fun halive => ?_) ha
    cases halive
  | rollback hh =>
    refine awaits_other hh (fun halive => ?_) ha
    exact ⟨halive, rfl⟩

theorem deserted_run {h h' : Api.Handler V} {b : Api.Answer} {f : Api.Effect V}
    (hs : Sound svc s) (ha : Api.Enqueued s.api) (hd : s.Deserted id)
    (hh : s.api.handlers[i]? = some h) (halive : h.alive = true)
    (hn : Api.next svc s.api i h b = some (h', f)) (ht : t =
      s.afterApi svc (.run i b) ((s.api.apply f).setHandler i h')) :
    t.row id = s.row id ∧ t.Deserted id := by
  have hlt := (List.getElem?_eq_some_iff.mp hh).1
  have hf := (Api.tidy_edge (Api.next_edge hn) (ha.settled.own i h hh (Nat.zero_le _)).1).2
  have hpub := Api.publishes_edge (Api.next_edge hn)
  have hrow : t.row id = s.row id := row_of_append hd (by rw [ht, afterApi_run])
  rw [afterApi_run] at ht
  have hself : i = id.1 → ∀ m ds, f = .publish m → h.pc = .applyAsync (m.delivery :: ds) →
      deliveryId m.delivery ≠ id ∧ id ∉ ds.map deliveryId := by
    rintro rfl m ds _ hpc
    have hnot : id ∉ (m.delivery :: ds).map deliveryId :=
      fun hid => hd.handler ⟨h, _, hh, halive, hpc, hid⟩
    rw [List.map_cons, List.mem_cons, not_or] at hnot
    exact ⟨Ne.symm hnot.1, hnot.2⟩
  refine deserted_frame hd hrow ?_ (by rw [ht]; exact fun e he _ => Or.inl he) ?_
  · intro m hm
    rw [ht] at hm
    refine (List.mem_append.mp hm).imp_right fun hnew => ?_
    obtain ⟨m', hm', rfl⟩ := List.mem_map.mp hnew
    cases hpub with
    | @published p ds hpc =>
      obtain rfl := List.mem_singleton.mp hm'
      have hpi : m'.delivery.notificationId = i := hf
      have hne : deliveryId m'.delivery ≠ id := by
        by_cases hi : i = id.1
        · exact (hself hi m' ds rfl hpc).1
        · exact fun hid => hi (hpi.symm.trans (congrArg Prod.fst hid))
      simp [enqueue, messageFor, hne]
    | silent hsilent =>
      cases f with
      | publish => cases hsilent
      | _ => cases hm'
    | committed => cases hm'
  · rintro ⟨g, es, hg, hgalive, hgpc, hid⟩
    rw [ht, Api.setHandler_handlers, Api.apply_handlers] at hg
    by_cases hi : i = id.1
    · subst hi
      rw [List.getElem?_set_self hlt] at hg
      cases hg
      cases hpub with
      | silent _ hno => exact absurd hgpc (hno es)
      | committed hpc _ _ =>
        have hfalse : h.committed = false := by
          simp [Api.Handler.committed, hpc, Api.PC.committed, Api.PC.durable]
        have hnone : s.api.untouched id.1 := by
          refine ha.settled.quiet _ (Nat.zero_le _) fun g hg => ?_
          cases hh.symm.trans hg
          exact hfalse
        have hrow := hd.row
        rw [hs.api.keys] at hrow
        obtain ⟨d, hd', rfl⟩ := List.mem_map.mp hrow
        exact absurd rfl (hnone.2.1 d hd')
      | @published m ds hpc _ hnext =>
        rw [hnext es hgpc] at hid
        exact absurd hid (hself rfl m ds rfl hpc).2
    · rw [List.getElem?_set_ne hi] at hg
      exact ⟨g, es, hg, hgalive, hgpc, hid⟩

theorem deserted_step (hstep : step svc queues s a = some t) (hs : Sound svc s)
    (ha : Api.Enqueued s.api) (hticks : s.ticks = []) (hd : s.Deserted id) :
    t.row id = s.row id ∧ t.Deserted id := by
  have hsame : ∀ e ∈ s.execs, e.delivery = id → e ∈ s.execs ∨ e.Ended := fun e he _ => Or.inl he
  cases a with
  | api a =>
    obtain ⟨b, hb, hstep⟩ := Option.bind_eq_some_iff.mp hstep
    obtain ⟨u, hu, rfl⟩ := Option.map_eq_some_iff.mp hstep
    cases b with
    | run i c =>
      obtain ⟨h, h', f, hh, halive, hn, rfl⟩ := Api.step_run hu
      exact deserted_run hs ha hd hh halive hn rfl
    | _ =>
      have hq := quiet_step hu (by simp)
      refine deserted_frame hd (row_of_append hd rfl) ?_ hsame (awaits_step hu (by simp))
      simp only [State.afterApi, hq.messages, List.drop_length, List.map_nil, List.append_nil]
      exact fun m hm => Or.inl hm
  | template a =>
    obtain ⟨u, _, rfl⟩ := Option.map_eq_some_iff.mp hstep
    exact deserted_frame hd rfl (fun m hm => Or.inl hm) hsame fun h => h
  | preference a =>
    obtain ⟨u, _, rfl⟩ := Option.map_eq_some_iff.mp hstep
    exact deserted_frame hd rfl (fun m hm => Or.inl hm) hsame fun h => h
  | beat =>
    cases hstep
    exact deserted_frame hd rfl (Pool.forall_concat (fun m hm => Or.inl hm) (Or.inr rfl)) hsame
      fun h => h
  | receive m =>
    simp only [step, Option.ite_none_right_eq_some, Option.some.injEq] at hstep
    obtain ⟨⟨hm, _⟩, rfl⟩ := hstep
    have hnone := hd.broker m hm
    cases m with
    | sendNotificationDelivery id' m =>
      refine deserted_frame hd rfl (fun x hx => Or.inl (List.mem_of_mem_erase hx)) ?_ fun h => h
      refine Pool.forall_concat hsame fun hid => ?_
      have hother : id' = id := hid
      simp [messageFor, hother] at hnone
    | reconcilePendingDeliveries queue =>
      exact deserted_frame hd rfl (fun x hx => Or.inl (List.mem_of_mem_erase hx)) hsame fun h => h
  | exec i a =>
    obtain ⟨e, he, hstep⟩ := Option.bind_eq_some_iff.mp hstep
    obtain ⟨b, _, hstep⟩ := Option.bind_eq_some_iff.mp hstep
    simp only [Option.ite_none_right_eq_some, Option.map_eq_some_iff] at hstep
    obtain ⟨halive, ⟨q, f⟩, hexec, rfl⟩ := hstep
    have hmem := List.mem_of_getElem? he
    obtain ⟨row, hrow, _⟩ := row_of_names hs.task (hs.task.execs e hmem).1
    rw [hrow] at hexec
    have hne : e.delivery ≠ id := by
      intro hid
      obtain ⟨_, hdead | hfinished⟩ := hd.execs e hmem hid
      · cases halive.symm.trans hdead
      · cases hpc : e.pc with
        | finished o =>
          rw [hpc] at hexec
          cases b <;> cases hexec
        | _ =>
          rw [hpc] at hfinished
          cases hfinished
    have hframe : ∀ x ∈ s.execs.set i { e with pc := q }, x.delivery = id → x ∈ s.execs ∨ x.Ended :=
      Pool.forall_set hsame fun hid => absurd hid hne
    cases f with
    | commit c d =>
      exact deserted_frame hd (row_commit_other hne) (fun m hm => Or.inl hm) hframe fun h => h
    | publish m =>
      refine deserted_frame hd rfl (Pool.forall_concat (fun m hm => Or.inl hm) (Or.inr ?_)) hframe
        fun h => h
      simp [messageFor, hne]
    | none | invoked | succeeded =>
      exact deserted_frame hd rfl (fun m hm => Or.inl hm) hframe fun h => h
  | crash i =>
    obtain ⟨e, he, hstep⟩ := Option.bind_eq_some_iff.mp hstep
    simp only [Option.ite_none_right_eq_some, Option.some.injEq] at hstep
    obtain ⟨_, rfl⟩ := hstep
    exact deserted_setExec hd he rfl fun hended => ⟨hended.1, Or.inl rfl⟩
  | ack i | lose i =>
    obtain ⟨e, he, hstep⟩ := Option.bind_eq_some_iff.mp hstep
    simp only [Option.ite_none_right_eq_some, Option.some.injEq] at hstep
    obtain ⟨_, rfl⟩ := hstep
    exact deserted_setExec hd he rfl fun hended => ⟨rfl, hended.2⟩
  | redeliver i =>
    obtain ⟨e, he, hstep⟩ := Option.bind_eq_some_iff.mp hstep
    simp only [Option.ite_none_right_eq_some, Option.some.injEq] at hstep
    obtain ⟨hheld, rfl⟩ := hstep
    have hne : e.delivery ≠ id := by
      intro hid
      have hfree := (hd.execs e (List.mem_of_getElem? he) hid).1
      cases hheld.symm.trans hfree
    refine deserted_frame hd rfl (Pool.forall_concat (fun m hm => Or.inl hm) (Or.inr ?_)) ?_
      fun h => h
    · simp [messageFor, hne]
    · exact Pool.forall_set hsame fun hid => absurd hid hne
  | tick k now => simp [step, hticks] at hstep
  | tickRaised k => simp [step, hticks] at hstep

/-- While the default queue is not consumed, a delivery that nothing is left to work on keeps its
row for ever, whatever the API, the worker and Beat do. -/
theorem deserted_forever (hq : taskDefaultQueue ∉ queues)
    (hrun : (sys svc queues).MTr initial xs s) (hd : s.Deserted id)
    (hlater : (sys svc queues).MTr s ys t) : t.row id = s.row id ∧ t.Deserted id := by
  have hinv : (sys svc queues).TrInv fun u => Projected svc u ∧ u.Defaulted ∧ u.ticks = [] ∧
      u.row id = s.row id ∧ u.Deserted id := by
    rintro u a v hstep ⟨hp, hdefault, hticks, hrow, hdes⟩
    obtain ⟨hsame, hdes'⟩ := deserted_step hstep hp.sound hp.enqueued hticks hdes
    exact ⟨projected_step hstep hp, defaulted_trInv u a v hstep hdefault,
      ticks_step hq (sys_step hstep) hdefault hticks, hsame.trans hrow, hdes'⟩
  have hs := LTS.mtrInv_of_trInv projected_trInv hrun projected_initial
  have hdefault := LTS.mtrInv_of_trInv defaulted_trInv hrun defaulted_initial
  have hend := LTS.mtrInv_of_trInv hinv hlater ⟨hs, hdefault, ticks_run hq hrun, rfl, hd⟩
  exact hend.2.2.2

/-- The process dies between the commit and the first message, and Beat goes on. -/
theorem deserted_forever_lost : ∃ s t,
    (sys literalJinja.service workerQueues).MTr initial lostSteps s ∧
    (sys literalJinja.service workerQueues).MTr s [.beat] t ∧
    t.row (0, 0) = some ⟨.email, .pending, 0, none, 0⟩ := by
  have hrun : (LTS.run (step literalJinja.service workerQueues) initial lostSteps).map
      (fun s => (s.broker, s.execs, s.row (0, 0), s.api.handlers.map (·.alive))) =
        some ([], [], some ⟨.email, .pending, 0, none, 0⟩, [false]) := by decide
  obtain ⟨s, htr, he⟩ := LTS.exists_mTr hrun
  simp only [Prod.mk.injEq] at he
  obtain ⟨hbroker, hexecs, hrow, halive⟩ := he
  have hd : s.Deserted (0, 0) := by
    refine ⟨row_isSome.mp (by rw [hrow]; rfl), by simp [hbroker], by simp [hexecs], ?_⟩
    rintro ⟨h, _, hh, hlive, _⟩
    have hmem : h.alive ∈ s.api.handlers.map (·.alive) :=
      List.mem_map_of_mem (List.mem_of_getElem? hh)
    simp [halive, hlive] at hmem
  have hbeat : (sys literalJinja.service workerQueues).MTr s [.beat]
      (s.publish (.reconcilePendingDeliveries taskDefaultQueue)) := .stepL rfl .refl
  exact ⟨s, _, htr, hbeat, (deserted_forever (by decide) htr hd hbeat).1.trans hrow⟩

end NotificationService.Deployment
