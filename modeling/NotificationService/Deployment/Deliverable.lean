import NotificationService.Service.Rendering
import NotificationService.Deployment.Links

/-! Everything enqueued is deliverable: the API keeps the links that the worker relies on, whatever
fails or dies in between. -/
namespace NotificationService.Deployment

open Transition

variable {V : Type} {svc : TemplateService V} {s t : State V} {i : ℕ} {h h' : Api.Handler V}

/-! ### Effects and histories -/

/-- The delivery rows and the messages that an effect adds. -/
def newRows : Api.Effect V → List Api.DeliveryRow
  | .commit x => x.deliveries
  | _ => []

def newMessages : Api.Effect V → List Api.TaskMessage
  | .publish m => [m]
  | _ => []

theorem deliveries_effect (s : Api.State V) (f : Api.Effect V) :
    (s.apply f).deliveries = s.deliveries ++ newRows f := by
  cases f <;> simp [Api.State.apply, newRows]

theorem messages_effect (s : Api.State V) (f : Api.Effect V) :
    (s.apply f).messages = s.messages ++ newMessages f := by
  cases f <;> simp [Api.State.apply, newMessages]

theorem row_eq (hpayload : h'.payload = h.payload) (hkey : h'.key = h.key) (i templateId : ℕ) :
    h'.row i templateId = h.row i templateId := by
  simp [Api.Handler.row, hpayload, hkey]

theorem before_of_beforeTemplate {q : Api.PC V} (hb : beforeTemplate q = true) :
    q.beforeRow = true := by
  cases q <;> first | rfl | cases hb

/-- The handler renders a template in this operation, or the history stays as it is. -/
theorem validate_cases (svc : TemplateService V) (b : Api.Answer)
    (hh : s.api.handlers[i]? = some h) :
    (∃ u r, b = .template (some u) ∧
      svc.renderSubjectAndBody u.content u.subject h.payload.vars = .ok r ∧
      s.validate svc (.run i b) = Function.update s.validated i (some r)) ∨
    (s.validate svc (.run i b) = s.validated ∧ ∀ u r, b = .template (some u) →
      svc.renderSubjectAndBody u.content u.subject h.payload.vars ≠ .ok r) := by
  cases b with
  | template o =>
    cases o with
    | none => exact Or.inr ⟨rfl, nofun⟩
    | some u =>
      cases hr : svc.renderSubjectAndBody u.content u.subject h.payload.vars with
      | ok r => exact Or.inl ⟨u, r, rfl, hr, by simp [State.validate, hh, hr]⟩
      | error e =>
        refine Or.inr ⟨by simp [State.validate, hh, hr], ?_⟩
        intro v r hv
        cases hv
        simp [hr]
  | _ => exact Or.inr ⟨rfl, nofun⟩

/-- The state after one operation of handler `i`. -/
theorem afterApi_run (svc : TemplateService V) (s : State V) (i : ℕ) (b : Api.Answer)
    (h' : Api.Handler V) (f : Api.Effect V) :
    s.afterApi svc (.run i b) ((s.api.apply f).setHandler i h') = { s with
      api := (s.api.apply f).setHandler i h'
      deliveries := s.deliveries ++ newRows f
      broker := s.broker ++ (newMessages f).map enqueue
      validated := s.validate svc (.run i b) } := by
  simp [State.afterApi, Api.State.setHandler, deliveries_effect, messages_effect]

theorem answer_template {a : Api.Answer} {u : Template}
    (hb : s.answer h a = some (.template (some u))) : u ∈ s.templates.templates := by
  cases a with
  | ok =>
    cases hpc : h.pc <;> simp only [State.answer, hpc, Option.some.injEq, reduceCtorEq,
      Api.Answer.template.injEq] at hb
    exact List.mem_of_find?_eq_some hb
  | _ => cases hb

/-! ### Other steps of the API -/

/-- The handler is where it was, its session perhaps closed. -/
def Stays (h h' : Api.Handler V) : Prop :=
  h'.payload = h.payload ∧ h'.key = h.key ∧ h'.pc = h.pc ∧ (h'.tx = h.tx ∨ h'.tx = none)

/-- The tables are as before and every old handler is where it was. -/
structure Quiet (s : State V) (u : Api.State V) : Prop where
  notifications : u.notifications = s.api.notifications
  deliveries : u.deliveries = s.api.deliveries
  messages : u.messages = s.api.messages
  stays : ∀ (j : ℕ) (g : Api.Handler V), s.api.handlers[j]? = some g →
    ∃ g', u.handlers[j]? = some g' ∧ Stays g g'
  origin : ∀ (j : ℕ) (g : Api.Handler V), u.handlers[j]? = some g →
    (∃ g₀, s.api.handlers[j]? = some g₀ ∧ Stays g₀ g) ∨ ∃ key payload, g = Api.start key payload

theorem linked_stays (hs : Stays h h') (hl : Linked svc s i h) : Linked svc s i h' := by
  obtain ⟨hpayload, hkey, hpc, htx⟩ := hs
  have hback : ∀ x, h'.tx = some x → h.tx = some x := by
    intro x hx
    rcases htx with heq | hnone
    · exact heq ▸ hx
    · cases hnone.symm.trans hx
  refine ⟨?_, ?_, ?_, fun x hx => hl.deliveries x (hback x hx), ?_⟩
  · rw [hpc, hpayload]
    exact hl.template
  · intro hb
    rw [hpc] at hb
    rcases htx with heq | hnone
    · rw [heq, hl.before hb]
    · exact hnone
  · intro x hx
    rw [hpayload]
    simp only [row_eq hpayload hkey]
    exact hl.row x (hback x hx)
  · rw [hpc]
    exact hl.queue

theorem linked_start (key : Option String) (payload : Api.NotificationRequest V) :
    Linked svc s i (Api.start key payload) := by
  refine ⟨?_, fun _ => rfl, nofun, nofun, ?_⟩
  · intro templateId ht
    rcases Api.start_cases key payload with hq | hq <;> rw [hq] at ht <;> cases ht
  · intro ds hpc
    rcases Api.start_cases key payload with hq | hq <;> cases hq.symm.trans hpc

theorem quiet_sound {a : Api.Action V} {u : Api.State V} (hq : Quiet s u)
    (hval : s.validate svc a = s.validated) (hset : Api.Settled 0 u) (ha : ApiSound svc s)
    (hs : TaskSound s) : ApiSound svc (s.afterApi svc a u) ∧ TaskSound (s.afterApi svc a u) := by
  have hafter : s.afterApi svc a u = { s with api := u } := by
    simp [State.afterApi, hval, hq.deliveries, hq.messages]
  rw [hafter]
  have hx : Extends s { s with api := u } := by
    refine ⟨?_, fun n hn => hq.notifications ▸ hn, fun d hd => hq.deliveries ▸ hd,
      fun _ hid => hid, fun _ hx => hx, fun _ _ hr => hr⟩
    intro j g hg
    obtain ⟨g', hg', hpayload, hkey, _⟩ := hq.stays j g hg
    exact ⟨g', hg', hpayload, hkey⟩
  constructor
  · refine ⟨hset, ha.indexed, ?_, ?_, by rw [hq.deliveries]; exact ha.keys, ?_⟩
    · intro j g hg
      rcases hq.origin j g hg with ⟨g₀, hg₀, hstay⟩ | ⟨key, payload, rfl⟩
      · exact linked_extends hx (linked_stays hstay (ha.linked j g₀ hg₀))
      · exact linked_start key payload
    · intro n hn
      rw [hq.notifications] at hn
      obtain ⟨g, templateId, hg, hrow, hv⟩ := ha.notifications n hn
      obtain ⟨g', hg', hpayload, hkey⟩ := hx.handlers _ _ hg
      exact ⟨g', templateId, hg', by rw [row_eq hpayload hkey]; exact hrow,
        by rw [hpayload]; exact validated_extends hx hv⟩
    · intro k hk
      refine ha.unvalidated k fun g hg => ?_
      obtain ⟨g', hg', _, _, hpc, _⟩ := hq.stays k g hg
      exact hpc ▸ hk g' hg'
  · refine taskSound_extends hs hx ?_ (fun id m hm => names_extends hx (hs.broker id m hm)) rfl rfl
    intro d hd
    obtain ⟨hch, n, hn, hni⟩ := hs.rows d hd
    exact ⟨hch, n, hx.notifications n hn, hni⟩

theorem quiet_set (hh : s.api.handlers[i]? = some h) (hs : Stays h h') :
    Quiet s (s.api.setHandler i h') := by
  refine ⟨rfl, rfl, rfl, ?_, ?_⟩
  · intro j g hg
    rw [Api.setHandler_handlers]
    refine Pool.exists_getElem?_set hh ?_ ⟨g, hg, rfl, rfl, rfl, Or.inl rfl⟩
    rintro rfl _
    cases hh.symm.trans hg
    exact hs
  · rw [Api.setHandler_handlers]
    refine Pool.forall_getElem?_set ?_ (Or.inl ⟨h, hh, hs⟩)
    exact fun j g hg => Or.inl ⟨g, hg, rfl, rfl, rfl, Or.inl rfl⟩

theorem templates_sound {a : Api.Templates.Action} {u : Api.Templates.State} (hs : Sound svc s)
    (hu : Api.Templates.step s.templates a = some u) : Sound svc { s with templates := u } := by
  have hx : Extends s { s with templates := u } := by
    refine ⟨fun i h hh => ⟨h, hh, rfl, rfl⟩, fun _ hn => hn, fun _ hd => hd, fun _ hid => hid, ?_,
      fun _ _ hr => hr⟩
    intro x hx
    rcases Api.Templates.templates_step hu with heq | ⟨c, _, heq⟩
    · exact heq ▸ hx
    · exact heq ▸ List.mem_append_left _ hx
  obtain ⟨ha, ht⟩ := hs
  refine ⟨⟨ha.settled, Api.Templates.indexed_step hu ha.indexed, ?_, ?_, ha.keys, ha.unvalidated⟩,
    ?_⟩
  · exact fun i h hh => linked_extends hx (ha.linked i h hh)
  · intro n hn
    obtain ⟨h, templateId, hh, hrow, hv⟩ := ha.notifications n hn
    exact ⟨h, templateId, hh, hrow, validated_extends hx hv⟩
  · have hbroker := fun id m hm => names_extends hx (ht.broker id m hm)
    exact taskSound_extends ht hx ht.rows hbroker rfl rfl

theorem sound_keeps (hs : Sound svc s) (hk : Keeps s t) (ht : TaskSound t) : Sound svc t :=
  ⟨apiSound_keeps hk hs.api, ht⟩

theorem sound_initial : Sound svc (initial : State V) := by
  refine ⟨⟨Api.settled_idle Api.idle_initial, ⟨by simp [initial, Api.Templates.initial],
    by simp [initial, Api.Templates.initial]⟩, by simp [initial, Api.initial],
    by simp [initial, Api.initial], rfl, fun _ _ => rfl⟩, ?_⟩
  exact ⟨by simp [initial], by simp [initial], by simp [initial], by simp [initial]⟩

/-! ### Steps of a handler, and of the system -/

variable [BEq V] {queues : List String} {a : Action V} {xs : List (Action V)}

theorem beforeTemplate_edge {a : Api.State V} {b : Api.Answer} {f : Api.Effect V}
    (he : Api.Edge a i h b h' f) (hb : beforeTemplate h'.pc = true) :
    beforeTemplate h.pc = true := by
  cases Api.approaches_edge he (before_of_beforeTemplate hb) with
  | missed hpc | locked hpc => rw [hpc]; rfl
  | reads hr =>
    generalize h.pc = p at hr
    cases hr <;> first | rfl | cases hb

theorem next_template {a : Api.State V} {o : Option Template} {f : Api.Effect V}
    (hn : Api.next svc a i h (.template o) = some (h', f)) :
    h.pc = .getTemplate ∧ h' = h.onTemplate svc o := by
  cases hpc : h.pc <;> simp only [Api.next, hpc, reduceCtorEq] at hn
  simp only [Option.some.injEq, Prod.mk.injEq] at hn
  exact ⟨rfl, hn.1.symm⟩

theorem validated_run {b : Api.Answer} {f : Api.Effect V} (ha : ApiSound svc s)
    (hh : s.api.handlers[i]? = some h) (hn : Api.next svc s.api i h b = some (h', f)) :
    ∀ k r, s.validated k = some r → s.validate svc (.run i b) k = some r := by
  intro k r hr
  rcases validate_cases svc b hh with ⟨u, r', rfl, _, heq⟩ | ⟨heq, _⟩
  · have hnone : s.validated i = none := by
      refine ha.unvalidated i fun g hg => ?_
      cases hh.symm.trans hg
      rw [(next_template hn).1]
      rfl
    have hne : k ≠ i := by
      rintro rfl
      cases hnone.symm.trans hr
    rw [heq, Function.update_of_ne hne, hr]
  · rw [heq, hr]

theorem extends_run {b : Api.Answer} {f : Api.Effect V} (ha : ApiSound svc s)
    (hh : s.api.handlers[i]? = some h) (hn : Api.next svc s.api i h b = some (h', f)) :
    Extends s (s.afterApi svc (.run i b) ((s.api.apply f).setHandler i h')) := by
  rw [afterApi_run]
  have hw := Api.writes_next hn
  refine ⟨?_, ?_, ?_, ?_, fun x hx => hx, validated_run ha hh hn⟩
  · intro j g hg
    rw [Api.setHandler_handlers, Api.apply_handlers]
    refine Pool.exists_getElem?_set hh ?_ ⟨g, hg, rfl, rfl⟩
    rintro rfl _
    cases hh.symm.trans hg
    exact ⟨hw.payload, hw.key⟩
  · exact fun n hmem => Api.notifications_apply hmem f
  · intro d hd
    simp only [Api.State.setHandler, deliveries_effect]
    exact List.mem_append_left _ hd
  · intro id hid
    rw [List.map_append]
    exact List.mem_append_left _ hid

/-- The handler that has taken the operation. -/
theorem linked_run {a b : Api.Answer} {f : Api.Effect V} (ha : ApiSound svc s)
    (hh : s.api.handlers[i]? = some h) (hb : s.answer h a = some b)
    (hn : Api.next svc s.api i h b = some (h', f)) :
    Linked svc (s.afterApi svc (.run i b) ((s.api.apply f).setHandler i h')) i h' := by
  have hw := Api.writes_next hn
  have hx := extends_run ha hh hn
  have hl := ha.linked i h hh
  have hrow := row_eq hw.payload hw.key i
  have hold : ∀ templateId, s.Validated svc i templateId h.payload.vars → State.Validated svc
      (s.afterApi svc (.run i b) ((s.api.apply f).setHandler i h')) i templateId h'.payload.vars := by
    intro templateId hv
    rw [hw.payload]
    exact validated_extends hx hv
  refine ⟨?_, ?_, ?_, ?_, ?_⟩
  · intro templateId ht
    rcases hw.template templateId ht with hsame | ⟨u, r, rfl, hpc, hid, hr⟩
    · exact hold templateId (hl.template templateId hsame)
    · refine ⟨u, answer_template hb, hid, r, ?_, by rw [hw.payload, hr]⟩
      simp [afterApi_run, State.validate, hh, hr]
  · intro hbefore
    obtain ⟨hb', htx⟩ := hw.before hbefore
    rw [htx, hl.before hb']
  · intro x htx
    rcases Api.row_grows (htx ▸ hw.tx) with ⟨y, hy, heq⟩ | ⟨templateId, cs, hpc, heq⟩
    · obtain ⟨templateId, hrow', hv⟩ := hl.row y hy
      exact ⟨templateId, by rw [hrow, heq, hrow'], hold templateId hv⟩
    · have hv := hl.template templateId (by rw [hpc]; rfl)
      exact ⟨templateId, by rw [hrow, heq], hold templateId hv⟩
  · intro x htx d hd
    rcases Api.deliveries_grows (htx ▸ hw.tx) hd with ⟨y, hy, hmem⟩ | hnew
    · exact hl.deliveries y hy d hmem
    · exact hnew
  · intro ds hpc d hd
    rw [afterApi_run]
    simp only [Api.State.setHandler, deliveries_effect, List.mem_append]
    rcases hw.queue ds hpc with ⟨x, rfl, rfl⟩ | ⟨d', hpc'⟩
    · exact ⟨(hl.deliveries x (hw.commit x rfl) d hd).1, Or.inr hd⟩
    · obtain ⟨hi, hmem⟩ := hl.queue _ hpc' d (List.mem_cons_of_mem _ hd)
      exact ⟨hi, Or.inl hmem⟩

theorem unvalidated_run {b : Api.Answer} {f : Api.Effect V} (ha : ApiSound svc s)
    (hh : s.api.handlers[i]? = some h) (hn : Api.next svc s.api i h b = some (h', f)) (k : ℕ)
    (hk : ∀ g, (s.api.handlers.set i h')[k]? = some g → beforeTemplate g.pc = true) :
    s.validate svc (.run i b) k = none := by
  have hlt := (List.getElem?_eq_some_iff.mp hh).1
  by_cases hik : i = k
  · subst hik
    have hb : beforeTemplate h'.pc = true := hk h' (List.getElem?_set_self hlt)
    rcases validate_cases svc b hh with ⟨u, r, rfl, hr, _⟩ | ⟨heq, _⟩
    · rw [(next_template hn).2] at hb
      simp [Api.Handler.onTemplate, hr, Api.Handler.moved, beforeTemplate] at hb
    · rw [heq]
      refine ha.unvalidated i fun g hg => ?_
      cases hh.symm.trans hg
      exact beforeTemplate_edge (Api.next_edge hn) hb
  · have hnone : s.validated k = none := by
      refine ha.unvalidated k fun g hg => hk g ?_
      rw [List.getElem?_set_ne hik, hg]
    rcases validate_cases svc b hh with ⟨u, r, _, _, heq⟩ | ⟨heq, _⟩
    · rw [heq, Function.update_of_ne (Ne.symm hik), hnone]
    · rw [heq, hnone]

theorem apiSound_run {a b : Api.Answer} {f : Api.Effect V} (ha : ApiSound svc s)
    (hh : s.api.handlers[i]? = some h) (hb : s.answer h a = some b)
    (hn : Api.next svc s.api i h b = some (h', f))
    (hset : Api.Settled 0 ((s.api.apply f).setHandler i h')) :
    ApiSound svc (s.afterApi svc (.run i b) ((s.api.apply f).setHandler i h')) := by
  have hw := Api.writes_next hn
  have hx := extends_run ha hh hn
  have hlinked := linked_run ha hh hb hn
  refine ⟨hset, ha.indexed, ?_, ?_, ?_, ?_⟩
  · intro j g hg
    rw [afterApi_run, Api.setHandler_handlers, Api.apply_handlers] at hg
    by_cases hij : i = j
    · subst hij
      rw [List.getElem?_set_self (List.getElem?_eq_some_iff.mp hh).1] at hg
      cases hg
      exact hlinked
    · rw [List.getElem?_set_ne hij] at hg
      exact linked_extends hx (ha.linked j g hg)
  · intro n hmem
    have hfrom : ∃ g templateId, s.api.handlers[n.id]? = some g ∧ n = g.row n.id templateId ∧
        s.Validated svc n.id templateId g.payload.vars := by
      rw [afterApi_run, Api.setHandler_notifications] at hmem
      cases f with
      | commit x =>
        rcases List.mem_append.mp hmem with hold | hnew
        · exact ha.notifications n hold
        · obtain rfl := List.mem_singleton.mp hnew
          obtain ⟨templateId, hrow, hv⟩ := (ha.linked i h hh).row x (hw.commit x rfl)
          have hid : x.notification.id = i := by rw [hrow]; rfl
          exact ⟨h, templateId, by rw [hid, hh], by rw [hid, hrow], by rw [hid]; exact hv⟩
      | _ => exact ha.notifications n hmem
    obtain ⟨g, templateId, hg, hrow, hv⟩ := hfrom
    obtain ⟨g', hg', hpayload, hkey⟩ := hx.handlers _ _ hg
    exact ⟨g', templateId, hg', by rw [row_eq hpayload hkey]; exact hrow,
      by rw [hpayload]; exact validated_extends hx hv⟩
  · rw [afterApi_run]
    simp only [Api.State.setHandler, deliveries_effect, List.map_append, ha.keys]
  · intro k hk
    rw [afterApi_run] at hk ⊢
    exact unvalidated_run ha hh hn k (by simpa using hk)

theorem taskSound_run {b : Api.Answer} {f : Api.Effect V} (ha : ApiSound svc s) (hs : TaskSound s)
    (hh : s.api.handlers[i]? = some h) (hn : Api.next svc s.api i h b = some (h', f)) :
    TaskSound (s.afterApi svc (.run i b) ((s.api.apply f).setHandler i h')) := by
  have hw := Api.writes_next hn
  have hx := extends_run ha hh hn
  have hl := ha.linked i h hh
  refine taskSound_extends hs hx ?_ ?_ (by rw [afterApi_run]) (by rw [afterApi_run])
  · intro d hd
    rw [afterApi_run] at hd ⊢
    rcases List.mem_append.mp hd with hold | hnew
    · obtain ⟨hch, n, hmem, hni⟩ := hs.rows d hold
      exact ⟨hch, n, Api.notifications_apply hmem f, hni⟩
    · cases f with
      | commit x =>
        have htx := hw.commit x rfl
        obtain ⟨hdi, hch⟩ := hl.deliveries x htx d hnew
        obtain ⟨templateId, hrow, _⟩ := hl.row x htx
        refine ⟨hch, x.notification, List.mem_append_right _ (List.mem_singleton_self _), ?_⟩
        rw [hdi, hrow]
        rfl
      | _ => cases hnew
  · intro id m hm
    rw [afterApi_run] at hm
    rcases List.mem_append.mp hm with hold | hnew
    · exact names_extends hx (hs.broker id m hold)
    · obtain ⟨m', hm', heq⟩ := List.mem_map.mp hnew
      cases f with
      | publish p =>
        obtain rfl := List.mem_singleton.mp hm'
        obtain ⟨ds, hpc, hqueue⟩ := hw.publish m' rfl
        obtain ⟨hdi, hmem⟩ := hl.queue _ hpc _ List.mem_cons_self
        cases heq
        refine names_extends hx ⟨?_, h, ?_, hqueue⟩
        · rw [ha.keys]
          exact List.mem_map_of_mem hmem
        · have hkey : (deliveryId m'.delivery).1 = i := hdi
          rw [hkey, hh]
      | _ => cases hm'

theorem api_sound {a b : Api.Action V} {u : Api.State V} (ha : ApiSound svc s) (hs : TaskSound s)
    (hb : s.resolve a = some b) (hu : Api.step svc s.api b = some u) :
    ApiSound svc (s.afterApi svc b u) ∧ TaskSound (s.afterApi svc b u) := by
  have hset := Api.settled_step (Api.step_cases hu) ha.settled
  cases a with
  | run i c =>
    obtain ⟨h, hh, hb⟩ := Option.bind_eq_some_iff.mp hb
    obtain ⟨d, hd, rfl⟩ := Option.map_eq_some_iff.mp hb
    obtain ⟨g, h', f, hg, _, hn, rfl⟩ := Api.step_run hu
    cases hh.symm.trans hg
    exact ⟨apiSound_run ha hh hd hn hset, taskSound_run ha hs hh hn⟩
  | tick d =>
    cases hb
    cases hu
    have hq : Quiet s (s.api.elapse d) :=
      ⟨rfl, rfl, rfl, fun j g hg => ⟨g, hg, rfl, rfl, rfl, Or.inl rfl⟩,
        fun j g hg => Or.inl ⟨g, hg, rfl, rfl, rfl, Or.inl rfl⟩⟩
    exact quiet_sound hq rfl hset ha hs
  | request key payload =>
    cases hb
    cases hu
    refine quiet_sound ⟨rfl, rfl, rfl, ?_, ?_⟩ rfl hset ha hs
    · exact fun j g hg => Pool.exists_getElem?_concat ⟨g, hg, rfl, rfl, rfl, Or.inl rfl⟩
    · refine Pool.forall_getElem?_concat ?_ (Or.inr ⟨key, payload, rfl⟩)
      exact fun j g hg => Or.inl ⟨g, hg, rfl, rfl, rfl, Or.inl rfl⟩
  | crash i =>
    cases hb
    cases Api.step_cases hu with
    | @crash _ h hh =>
      have hstays : Stays h { h with alive := false } := ⟨rfl, rfl, rfl, Or.inl rfl⟩
      exact quiet_sound (quiet_set hh hstays) rfl hset ha hs
  | rollback i =>
    cases hb
    cases Api.step_cases hu with
    | @rollback _ h hh =>
      have hstays : Stays h { h with tx := none } := ⟨rfl, rfl, rfl, Or.inr rfl⟩
      exact quiet_sound (quiet_set hh hstays) rfl hset ha hs

theorem sound_step (hstep : Step svc queues s a t) (hs : Sound svc s) : Sound svc t := by
  have ha := hs.api
  have ht := hs.task
  cases hstep with
  | api hb hu =>
    obtain ⟨ha', ht'⟩ := api_sound ha ht hb hu
    exact ⟨ha', ht'⟩
  | template hu => exact templates_sound hs hu
  | preference =>
    exact sound_keeps hs ⟨rfl, rfl, rfl, rfl⟩ ⟨ht.rows, ht.broker, ht.execs, ht.ticks⟩
  | beat =>
    refine sound_keeps hs ⟨rfl, rfl, rfl, rfl⟩ ⟨ht.rows, ?_, ht.execs, ht.ticks⟩
    intro id m hm
    rcases List.mem_append.mp hm with hold | hnew
    · exact ht.broker id m hold
    · cases List.mem_singleton.mp hnew
  | @receive m hm =>
    refine sound_keeps hs ?_ (taskSound_receive ht hm)
    cases m <;> exact ⟨rfl, rfl, rfl, rfl⟩
  | @exec i e a b q f he hb hexec =>
    obtain ⟨hn, hl⟩ := ht.execs e (List.mem_of_getElem? he)
    obtain ⟨hq, hf⟩ := execute_sound ht hn hl hb hexec
    have hk := keeps_apply s e.delivery f
    have hx := hk.extends
    refine sound_keeps hs ⟨hk.api, hk.templates, hk.validated, hk.keys⟩ ?_
    exact taskSound_setExec (taskSound_apply ht hn hf) ⟨names_extends hx hn, loaded_extends hx hq⟩
  | marked _ _ he =>
    have hexec := ht.execs _ (List.mem_of_getElem? he)
    exact sound_keeps hs ⟨rfl, rfl, rfl, rfl⟩ (taskSound_setExec ht hexec)
  | redeliver he =>
    have hexec := ht.execs _ (List.mem_of_getElem? he)
    exact sound_keeps hs ⟨rfl, rfl, rfl, rfl⟩
      (taskSound_setExec (taskSound_publish ht hexec.1) hexec)
  | tick hp hu =>
    obtain ⟨hk, ht'⟩ := runTick_sound ha ht (ht.ticks _ (List.mem_of_getElem? hp)) hu
    exact sound_keeps hs hk ht'
  | tickRaised => exact sound_keeps hs ⟨rfl, rfl, rfl, rfl⟩ (taskSound_setTick ht trivial)

theorem sound_trInv : (sys svc queues).TrInv (Sound svc) := fun _ _ _ hstep hs =>
  sound_step (sys_step hstep) hs

/-- In every run every delivery message, queued or being executed, is deliverable, and no execution
enters a branch that gives its delivery up. -/
theorem everything_deliverable {j : Jinja V} (hrun : (sys j.service queues).MTr initial xs s) :
    (∀ id m, (.sendNotificationDelivery id m ∈ s.broker ∨
        ∃ e ∈ s.execs, e.delivery = id ∧ e.message = m) → Deliverable j.service s id) ∧
      ∀ a, s.branch j.service a = none := by
  have hs : Sound j.service s := LTS.mtrInv_of_trInv sound_trInv hrun sound_initial
  refine ⟨?_, branch_none hs⟩
  rintro id m (hm | ⟨e, he, rfl, rfl⟩)
  · exact deliverable_of_names hs (hs.task.broker id m hm)
  · exact deliverable_of_names hs (hs.task.execs e he).1

/-- An environment in which each text is its own rendering. -/
def literalJinja : Jinja Unit := ⟨fun _ => .ok ∅, fun text _ => .ok text, fun _ => ∅, ()⟩

/-- A template is created and sent to two channels, up to the first message. -/
def sendSteps : List (Action Unit) :=
  [.template (.request ⟨"welcome_email", some "Welcome", "Hello"⟩), .template (.run 0),
    .template (.run 0),
    .api (.request none { Api.emailRequest with channels := some [.email, .sms] })] ++
  List.replicate 10 (.api (.run 0 .ok))

/-- The message of the email delivery. -/
def emailMessage : TaskMessage := .sendNotificationDelivery (0, 0) ⟨0, "high", 0⟩

theorem everything_deliverable_sent : ∃ s,
    (sys literalJinja.service workerQueues).MTr initial
      (sendSteps ++ [.receive emailMessage, .exec 0 .ok, .api (.run 0 .ok)]) s ∧
    .sendNotificationDelivery (0, 1) ⟨0, "high", 0⟩ ∈ s.broker ∧
    Deliverable literalJinja.service s (0, 0) ∧ Deliverable literalJinja.service s (0, 1) ∧
    s.branch literalJinja.service (.exec 0 .ok) = none := by
  have hrun : (LTS.run (step literalJinja.service workerQueues) initial
      (sendSteps ++ [.receive emailMessage, .exec 0 .ok, .api (.run 0 .ok)])).map
        (fun s => (s.broker, s.execs.map (·.delivery))) =
      some ([.sendNotificationDelivery (0, 1) ⟨0, "high", 0⟩], [(0, 0)]) := by decide
  obtain ⟨s, htr, he⟩ := LTS.exists_mTr hrun
  obtain ⟨hbroker, hid⟩ := Prod.mk.inj he
  obtain ⟨e, _, hexecs, hdelivery, _⟩ := List.map_eq_cons_iff.mp hid
  obtain ⟨hall, hbranch⟩ := everything_deliverable htr
  have hqueued : .sendNotificationDelivery (0, 1) ⟨0, "high", 0⟩ ∈ s.broker := by simp [hbroker]
  have hrunning := hall (0, 0) e.message (Or.inr ⟨e, by simp [hexecs], hdelivery, rfl⟩)
  exact ⟨s, htr, hqueued, hrunning, hall _ _ (Or.inl hqueued), hbranch _⟩

end NotificationService.Deployment
