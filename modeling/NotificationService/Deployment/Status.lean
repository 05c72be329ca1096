import Mathlib.Data.List.Perm.Basic
import NotificationService.Api.Status
import NotificationService.Deployment.Projection

/-! `GET /notifications/{id}` on the deployed system: what it shows continues what it, or the answer
to the request, has shown before. -/
namespace NotificationService.Deployment

open Transition

variable {V : Type}

def State.rowsOf (s : State V) (i : ℕ) : List Api.DeliveryRow :=
  s.deliveries.filter (·.notificationId = i)

/-- One execution of `get_by_id`: it selects the notification, and `selectinload` afterwards its
deliveries, in an order that the database chooses. -/
structure Read [BEq V] (svc : TemplateService V) (queues : List String) where
  found : State V
  loaded : State V
  between : ∃ xs, (sys svc queues).MTr found xs loaded
  deliveries : List Api.DeliveryRow
  perm : deliveries.Perm loaded.deliveries

/-- The endpoint. -/
def Read.getStatus [BEq V] {svc : TemplateService V} {queues : List String} (q : Read svc queues)
    (id : ℕ) : Except Api.ApiError (Api.NotificationResponse V) :=
  match q.found.notification id with
  | none => .error (Api.notificationNotFound id)
  | some n => .ok (.modelValidate n (q.deliveries.filter (·.notificationId = id)))

/-- What a later read of a row may show. -/
structure Follows (d e : Api.DeliveryRow) : Prop where
  key : deliveryId e = deliveryId d
  channel : e.columns.channel = d.columns.channel
  createdAt : e.columns.createdAt = d.columns.createdAt
  retried : 0 < d.columns.retryCount → 0 < e.columns.retryCount
  explained : d.columns.errorMessage.isSome = true → e.columns.errorMessage.isSome = true

/-- The same notification with the same deliveries in any order, each of them as it was or later. -/
structure Continues (r r' : Api.NotificationResponse V) : Prop where
  notification : r' = { r with deliveries := r'.deliveries }
  deliveries : ∃ l, List.Forall₂ Follows r.deliveries l ∧ l.Perm r'.deliveries

variable {svc : TemplateService V} {s t : State V} {d e : Api.DeliveryRow} {i : ℕ}
  {l m : List Api.DeliveryRow}

/-! ### Rows that go on -/

theorem follows_refl (d : Api.DeliveryRow) : Follows d d := ⟨rfl, rfl, rfl, id, id⟩

theorem follows_all (l : List Api.DeliveryRow) : List.Forall₂ Follows l l :=
  List.forall₂_same.mpr fun d _ => follows_refl d

theorem Follows.trans {x : Api.DeliveryRow} (h : Follows d e) (h' : Follows e x) :
    Follows d x where
  key := h'.key.trans h.key
  channel := h'.channel.trans h.channel
  createdAt := h'.createdAt.trans h.createdAt
  retried hpos := h'.retried (h.retried hpos)
  explained hsome := h'.explained (h.explained hsome)

theorem follows_trans {k : List Api.DeliveryRow} (h : List.Forall₂ Follows k l)
    (h' : List.Forall₂ Follows l m) : List.Forall₂ Follows k m := by
  induction h generalizing m with
  | nil => exact h'
  | cons hd _ ih =>
    cases h' with
    | cons hd' htail => exact .cons (hd.trans hd') (ih htail)

theorem explained_flush (u : Worker.Update) (d row : Worker.Delivery)
    (hrow : row.errorMessage.isSome = true) :
    (Worker.flush d (u.assign d) row).errorMessage.isSome = true := by
  have hcases : (Worker.flush d (u.assign d) row).errorMessage = row.errorMessage ∨
      (u.assign d).errorMessage ≠ d.errorMessage ∧
        (Worker.flush d (u.assign d) row).errorMessage = (u.assign d).errorMessage :=
    UnitOfWork.writeBack_cases
  rcases hcases with hkept | ⟨hne, hnew⟩
  · exact (congrArg Option.isSome hkept).trans hrow
  · refine (congrArg Option.isSome hnew).trans ?_
    cases hu : u.errorMessage with
    | none => simp [Worker.Update.assign, hu] at hne
    | some text => simp [Worker.Update.assign, hu]

/-- A commit of the worker leaves the row what it is, and never takes a retry or a message back. -/
theorem follows_update (id : ℕ × ℕ) (c : Worker.Call) (d : Worker.Delivery)
    (r : Api.DeliveryRow) : Follows r (updateRow id c d r) := by
  unfold updateRow
  split
  · refine ⟨rfl, rfl, rfl, fun hpos => ?_, fun hsome => explained_flush _ _ _ hsome⟩
    simp only [Worker.flush_retryCount]
    split
    · exact Nat.succ_pos _
    · exact hpos
  · exact follows_refl r

theorem follows_apply (s : State V) (id : ℕ × ℕ) (f : Worker.Effect) :
    List.Forall₂ Follows s.deliveries (s.apply id f).deliveries := by
  cases f with
  | commit c d =>
    refine List.forall₂_map_right_iff.mpr ?_
    exact List.forall₂_same.mpr fun r _ => follows_update id c d r
  | _ => exact follows_all _

theorem follows_filter (h : List.Forall₂ Follows l m) (i : ℕ) :
    List.Forall₂ Follows (l.filter (·.notificationId = i)) (m.filter (·.notificationId = i)) := by
  refine List.rel_filter (fun d e hfollows => ?_) h
  have hkey : e.notificationId = d.notificationId := congrArg Prod.fst hfollows.key
  simp [hkey]

/-! ### Steps -/

/-- What a step does to the tables: rows may go on, and those it adds are of a new notification. -/
structure Adds (s t : State V) (new : List Api.DeliveryRow) : Prop where
  notifications : s.api.notifications <+: t.api.notifications
  inserted : t.api.deliveries = s.api.deliveries ++ new
  kept : ∃ l, List.Forall₂ Follows s.deliveries l ∧ t.deliveries = l ++ new
  fresh : ∀ d ∈ new, s.notification d.notificationId = none

theorem adds_nothing (hapi : t.api = s.api)
    (hrows : List.Forall₂ Follows s.deliveries t.deliveries) : Adds s t [] where
  notifications := by rw [hapi]
  inserted := by rw [hapi, List.append_nil]
  kept := ⟨_, hrows, (List.append_nil _).symm⟩
  fresh := by simp

/-- A step keeps the notification, and lets its rows go on. -/
theorem status_step {new : List Api.DeliveryRow} (hadds : Adds s t new) {n : Notification V}
    (hn : s.notification i = some n) :
    t.notification i = some n ∧ List.Forall₂ Follows (s.rowsOf i) (t.rowsOf i) := by
  obtain ⟨ns, hns⟩ := hadds.notifications
  have hn' : t.notification i = some n := by
    unfold State.notification at hn ⊢
    rw [← hns, List.find?_append, hn, Option.some_or]
  have hnone : new.filter (·.notificationId = i) = [] := by
    refine List.filter_eq_nil_iff.mpr fun d hd hid => ?_
    have hfresh := hadds.fresh d hd
    rw [of_decide_eq_true hid, hn] at hfresh
    cases hfresh
  obtain ⟨l, hkept, hl⟩ := hadds.kept
  refine ⟨hn', ?_⟩
  rw [State.rowsOf, State.rowsOf, hl, List.filter_append, hnone, List.append_nil]
  exact follows_filter hkept i

variable [BEq V] {queues : List String} {a : Action V} {xs ys : List (Action V)}

theorem adds_run {h h' : Api.Handler V} {b : Api.Answer} {f : Api.Effect V}
    (ha : Api.Enqueued s.api) (hh : s.api.handlers[i]? = some h)
    (hn : Api.next svc s.api i h b = some (h', f)) :
    Adds s (s.afterApi svc (.run i b) ((s.api.apply f).setHandler i h')) (newRows f) := by
  have hpub := Api.publishes_edge (Api.next_edge hn)
  rw [afterApi_run]
  refine ⟨?_, deliveries_effect s.api f, ⟨_, follows_all _, rfl⟩, ?_⟩
  · cases f with
    | commit x => exact List.prefix_append _ _
    | _ => exact List.prefix_refl _
  · cases f with
    | commit x =>
      cases hpub with
      | silent hsilent => cases hsilent
      | committed hpc htx =>
        have hbelongs := (ha.settled.own i h hh (Nat.zero_le _)).1.tx x htx
        have hquiet := (Api.commit_untouched ha.settled hh hpc).1
        intro d hd
        rw [hbelongs.2.1 d hd, State.notification, List.find?_eq_none]
        simpa using hquiet
    | _ => simp [newRows]

theorem adds_step (hstep : Step svc queues s a t) (ha : Api.Enqueued s.api) :
    ∃ new, Adds s t new := by
  cases hstep with
  | @api _ b u _ hu =>
    cases b with
    | run i c =>
      obtain ⟨h, h', f, hh, _, hn, rfl⟩ := Api.step_run hu
      exact ⟨_, adds_run ha hh hn⟩
    | _ =>
      have hq := quiet_step hu (by simp)
      refine ⟨[], ?_, ?_, ⟨_, follows_all _, ?_⟩, by simp⟩
      · simp [State.afterApi, hq.notifications]
      · simp [State.afterApi, hq.deliveries]
      · simp [State.afterApi, hq.deliveries]
  | @receive m => cases m <;> exact ⟨[], adds_nothing rfl (follows_all _)⟩
  | @exec _ e _ _ _ f =>
    refine ⟨[], adds_nothing ?_ (follows_apply s e.delivery f)⟩
    exact (keeps_apply s e.delivery f).api
  | @tick _ _ p _ _ hu => cases p <;> cases hu <;> exact ⟨[], adds_nothing rfl (follows_all _)⟩
  | _ => exact ⟨[], adds_nothing rfl (follows_all _)⟩

structure Readable (s : State V) : Prop where
  enqueued : Api.Enqueued s.api
  stored : Api.Stored s.api
  current : List.Forall₂ Follows s.api.deliveries s.deliveries

theorem stored_api (hstep : Step svc queues s a t) (ha : Api.Enqueued s.api)
    (hs : Api.Stored s.api) : Api.Stored t.api := by
  rcases api_cases hstep with heq | ⟨b, c, _, _, hu⟩
  · exact heq ▸ hs
  · exact Api.stored_step (Api.sys_step hu) ha hs

theorem readable_step (hstep : Step svc queues s a t) (hs : Readable s) : Readable t := by
  refine ⟨enqueued_api hstep hs.enqueued, stored_api hstep hs.enqueued hs.stored, ?_⟩
  obtain ⟨new, hadds⟩ := adds_step hstep hs.enqueued
  obtain ⟨l, hkept, hl⟩ := hadds.kept
  rw [hadds.inserted, hl]
  exact List.rel_append (follows_trans hs.current hkept) (follows_all new)

theorem readable_trInv : (sys svc queues).TrInv Readable := fun _ _ _ hstep hs =>
  readable_step (sys_step hstep) hs

theorem readable_run (hrun : (sys svc queues).MTr initial xs s) : Readable s :=
  LTS.mtrInv_of_trInv readable_trInv hrun ⟨Api.enqueued_initial, Api.stored_initial, .nil⟩

/-- What is found stays, and its rows go on. -/
theorem status_run (hs : Readable s) (hrun : (sys svc queues).MTr s xs t) {n : Notification V}
    (hn : s.notification i = some n) :
    t.notification i = some n ∧ List.Forall₂ Follows (s.rowsOf i) (t.rowsOf i) := by
  have hinv : (sys svc queues).TrInv fun u => Readable u ∧ u.notification i = some n ∧
      List.Forall₂ Follows (s.rowsOf i) (u.rowsOf i) := by
    rintro u a v hstep ⟨hu, hn, hrows⟩
    obtain ⟨new, hadds⟩ := adds_step (sys_step hstep) hu.enqueued
    obtain ⟨hn', hrows'⟩ := status_step hadds hn
    exact ⟨readable_trInv u a v hstep hu, hn', follows_trans hrows hrows'⟩
  exact (LTS.mtrInv_of_trInv hinv hrun ⟨hs, hn, follows_all _⟩).2

/-! ### Reads -/

variable {q p : Read svc queues}

theorem Read.getStatus_eq {n : Notification V} (hn : q.found.notification i = some n) :
    q.getStatus i = .ok (.modelValidate n (q.deliveries.filter (·.notificationId = i))) := by
  rw [Read.getStatus, hn]

theorem Read.getStatus_ok {r : Api.NotificationResponse V} (hr : q.getStatus i = .ok r) :
    ∃ n, q.found.notification i = some n ∧
      r = .modelValidate n (q.deliveries.filter (·.notificationId = i)) := by
  unfold Read.getStatus at hr
  cases hn : q.found.notification i with
  | none => simp [hn] at hr
  | some n =>
    simp only [hn, Except.ok.injEq] at hr
    exact ⟨n, rfl, hr.symm⟩

theorem Read.perm_rowsOf (q : Read svc queues) (i : ℕ) :
    (q.deliveries.filter (·.notificationId = i)).Perm (q.loaded.rowsOf i) := q.perm.filter _

/-- A read shows rows that its first SELECT has found, in any order, as they were or later. -/
theorem Read.continues (hs : Readable q.found) {n : Notification V}
    (hn : q.found.notification i = some n) {ds : List Api.DeliveryRow}
    (hds : List.Forall₂ Follows l (q.found.rowsOf i)) (hperm : ds.Perm l) :
    ∃ r, q.getStatus i = .ok r ∧ Continues (.modelValidate n ds) r := by
  obtain ⟨zs, hload⟩ := q.between
  have hloaded := follows_trans hds (status_run hs hload hn).2
  obtain ⟨m, hm, hmperm⟩ := List.perm_comp_forall₂ hperm hloaded
  exact ⟨_, q.getStatus_eq hn, rfl, m, hm, hmperm.trans (q.perm_rowsOf i).symm⟩

/-- Monotonic reads: once a notification is found, every later read finds it with the same
deliveries, each of them as it was or later. -/
theorem status_continues (hrun : (sys svc queues).MTr initial xs q.found)
    (hlater : (sys svc queues).MTr q.loaded ys p.found) {r : Api.NotificationResponse V}
    (hr : q.getStatus i = .ok r) : ∃ r', p.getStatus i = .ok r' ∧ Continues r r' := by
  obtain ⟨n, hn, rfl⟩ := q.getStatus_ok hr
  obtain ⟨zs, hload⟩ := q.between
  have hs := readable_run (hrun.append hload)
  have hn' := (status_run (readable_run hrun) hload hn).1
  obtain ⟨hfound, hrows⟩ := status_run hs hlater hn'
  have hs' := readable_run ((hrun.append hload).append hlater)
  exact p.continues hs' hfound hrows (q.perm_rowsOf i)

/-- Read your writes: a notification is found from the commit of its request on, and whoever has
got a 201, also a repeated one, finds what that answer has shown, or later. -/
theorem created_readable (hrun : (sys svc queues).MTr initial xs q.found) :
    (∀ i, (∃ r, q.getStatus i = .ok r) ↔
      ∃ h, q.found.api.handlers[i]? = some h ∧ h.committed = true) ∧
    ∀ (j : ℕ) (h : Api.Handler V) (body : Api.NotificationResponse V),
      q.found.api.handlers[j]? = some h → h.answer201 = some body →
        ∃ r, q.getStatus body.id = .ok r ∧ Continues body r := by
  have hread := readable_run hrun
  obtain ⟨hs, hstored, hcurrent⟩ := hread
  refine ⟨fun i => ⟨?_, ?_⟩, ?_⟩
  · rintro ⟨r, hr⟩
    obtain ⟨n, hn, _⟩ := q.getStatus_ok hr
    obtain ⟨hmem, hid⟩ := mem_of_notification hn
    by_contra hnot
    refine (hs.settled.quiet i (Nat.zero_le _) fun h hh => ?_).1 n hmem hid
    exact Bool.eq_false_iff.mpr fun hc => hnot ⟨h, hh, hc⟩
  · rintro ⟨h, hh, hc⟩
    obtain ⟨n, hn, rfl⟩ := (hs.settled.own i h hh (Nat.zero_le _)).2 hc
    exact ⟨_, q.getStatus_eq (Api.find_of_ids hstored.ids hn)⟩
  · intro j h body hh hbody
    obtain ⟨n, _, _, hid, _, g, hg, hbuilt⟩ := Api.answer_traced hs.traced hh hbody
    obtain ⟨n', hn', hid', hbody'⟩ := hstored.built n.id g hg body hbuilt
    have hrows := (hs.handlers n.id g hg).body body hbuilt
    have hfound : q.found.notification body.id = some n' := by
      rw [hid, ← hid']
      exact Api.find_of_ids hstored.ids hn'
    rw [← hid] at hrows
    obtain ⟨r, hr, hcont⟩ := q.continues (readable_run hrun) hfound
      (follows_filter hcurrent body.id) hrows
    rw [← hbody'] at hcont
    exact ⟨r, hr, hcont⟩

/-- A read whose SELECTs both see the state `s`. -/
def Read.once (svc : TemplateService V) (queues : List String) (s : State V)
    (ds : List Api.DeliveryRow) (h : ds.Perm s.deliveries) : Read svc queues :=
  ⟨s, s, ⟨[], .refl⟩, ds, h⟩

/-- The ids of the deliveries, with their retry counts. -/
def shownRetries (r : Except Api.ApiError (Api.NotificationResponse V)) : List (ℕ × ℕ) :=
  match r with
  | .ok r => r.deliveries.map fun d => (d.id, d.columns.retryCount)
  | .error _ => []

/-- The second read finds the two deliveries the other way round. -/
theorem status_continues_retried : ∃ (q p : Read literalJinja.service workerQueues)
    (r r' : Api.NotificationResponse Unit),
    (sys literalJinja.service workerQueues).MTr initial sendSteps q.found ∧
    (sys literalJinja.service workerQueues).MTr q.loaded retrySteps p.found ∧
    q.getStatus 0 = .ok r ∧ p.getStatus 0 = .ok r' ∧ Continues r r' ∧
    shownRetries (q.getStatus 0) = [(0, 0), (1, 0)] ∧
    shownRetries (p.getStatus 0) = [(1, 0), (0, 1)] := by
  have hrun : ((LTS.run (step literalJinja.service workerQueues) initial sendSteps).bind fun s =>
      (LTS.run (step literalJinja.service workerQueues) s retrySteps).map fun t =>
        (shownRetries ((Read.once literalJinja.service workerQueues s _ (.refl _)).getStatus 0),
          shownRetries ((Read.once literalJinja.service workerQueues t _
            (List.reverse_perm _)).getStatus 0))) =
      some ([(0, 0), (1, 0)], [(1, 0), (0, 1)]) := by decide
  obtain ⟨s, t, hs, ht, he⟩ := LTS.exists_mTrs hrun
  obtain ⟨hbefore, hafter⟩ := Prod.mk.inj he
  let q := Read.once literalJinja.service workerQueues s _ (.refl _)
  let p := Read.once literalJinja.service workerQueues t _ (List.reverse_perm _)
  cases hr : q.getStatus 0 with
  | error err => simp [q, hr, shownRetries] at hbefore
  | ok r =>
    obtain ⟨r', hr', hcont⟩ := status_continues (q := q) (p := p) hs ht hr
    exact ⟨q, p, r, r', hs, ht, hr, hr', hcont, hbefore, hafter⟩

/-- The answer, and an attempt that fails. -/
def answeredSteps : List (Action Unit) :=
  sendSteps ++ [.api (.run 0 .ok), .api (.run 0 .ok)] ++ retrySteps

theorem created_readable_answered : ∃ (q : Read literalJinja.service workerQueues)
    (h : Api.Handler Unit) (body r : Api.NotificationResponse Unit),
    (sys literalJinja.service workerQueues).MTr initial answeredSteps q.found ∧
    q.found.api.handlers[0]? = some h ∧ h.answer201 = some body ∧ q.getStatus body.id = .ok r ∧
    Continues body r := by
  have hrun : (LTS.run (step literalJinja.service workerQueues) initial answeredSteps).map
      (fun s => s.api.handlers.map fun h => h.answer201.isSome) = some [true] := by decide
  obtain ⟨s, htr, he⟩ := LTS.exists_mTr hrun
  obtain ⟨h, l, hl, hsome, _⟩ := List.map_eq_cons_iff.mp he
  obtain ⟨body, hbody⟩ := Option.isSome_iff_exists.mp hsome
  have hh : s.api.handlers[0]? = some h := by simp [hl]
  let q := Read.once literalJinja.service workerQueues s _ (.refl _)
  obtain ⟨r, hr, hcont⟩ := (created_readable (q := q) htr).2 0 h body hh hbody
  exact ⟨q, h, body, r, htr, hh, hbody, hr, hcont⟩

end NotificationService.Deployment
