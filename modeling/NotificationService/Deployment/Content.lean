import NotificationService.Worker.Accounting
import NotificationService.Deployment.Projection

/-! What reaches the provider, and what a delivery that fails says: each call carries what the
handler has validated to the user of the request, and no delivery is given up before it is tried. -/
namespace NotificationService.Deployment

open Transition

variable {V : Type}

/-- Where the providers of the three channels are told to send: SMS goes to one number, whoever the
user is. -/
def targetOf (userId : String) : Api.ChannelEnum → String
  | .email => userId ++ "@example.com"
  | .sms => "+15555555555"
  | .push => "push_token_" ++ userId

/-- The channel that the API has stored for the delivery. -/
def State.Channeled (s : State V) (id : ℕ × ℕ) (ch : Channel) : Prop :=
  ∃ d ∈ s.api.deliveries, deliveryId d = id ∧ d.columns.channel = ch

/-- The subject and body that the handler has validated, for the user of its request. -/
def State.Addressed (s : State V) (id : ℕ × ℕ) (out : Worker.Outgoing) : Prop :=
  ∃ (c : Api.ChannelEnum) (h : Api.Handler V) (r : Option String × String),
    s.Channeled id c.channel ∧ s.api.handlers[id.1]? = some h ∧ s.validated id.1 = some r ∧
      out = ⟨targetOf h.payload.userId c, r.2, r.1⟩

/-- The call sends what it should, or is made after the provider was called. -/
def State.Calls (s : State V) (id : ℕ × ℕ) : Worker.Call → Prop
  | .sent out => s.Addressed id out
  | c => c.isFirst = false

/-- What an execution has loaded, and what it makes of it. -/
def State.Holds (s : State V) (id : ℕ × ℕ) : Worker.PC V → Prop
  | .getNotification d => s.Channeled id d.channel
  | .getTemplate d n => s.Channeled id d.channel ∧ n ∈ s.api.notifications ∧ n.id = id.1
  | .select c _ | .commit c _ | .refresh c _ => s.Calls id c
  | .send out _ | .sending out _ => s.Addressed id out
  | _ => True

/-- The texts of a delivery that was tried. -/
def Failure (text : String) : Prop :=
  ∃ err : String, text = "Delivery failed after max retries: " ++ err ∨
    text = "Provider transient error: " ++ err ∨ text = "Fatal exception: " ++ err

structure Faithful (s : State V) : Prop where
  rows : ∀ r ∈ s.deliveries, s.Channeled (deliveryId r) r.columns.channel ∧
    ∀ text, r.columns.errorMessage = some text → Failure text
  execs : ∀ e ∈ s.execs, s.Holds e.delivery e.pc

variable {svc : TemplateService V} {s t : State V} {id : ℕ × ℕ} {queue : String}

/-! ### What extensions keep -/

theorem channeled_extends (hx : Extends s t) {ch : Channel} (h : s.Channeled id ch) :
    t.Channeled id ch := by
  obtain ⟨d, hd, hid, hch⟩ := h
  exact ⟨d, hx.inserted d hd, hid, hch⟩

theorem addressed_extends (hx : Extends s t) {out : Worker.Outgoing} (h : s.Addressed id out) :
    t.Addressed id out := by
  obtain ⟨c, g, r, hch, hg, hr, rfl⟩ := h
  obtain ⟨g', hg', hpayload, _⟩ := hx.handlers _ _ hg
  exact ⟨c, g', r, channeled_extends hx hch, hg', hx.validated _ _ hr, by rw [hpayload]⟩

theorem calls_extends (hx : Extends s t) {c : Worker.Call} (h : s.Calls id c) : t.Calls id c := by
  cases c with
  | sent out => exact addressed_extends hx h
  | _ => exact h

theorem holds_extends (hx : Extends s t) {p : Worker.PC V} (h : s.Holds id p) : t.Holds id p := by
  cases p with
  | getNotification d => exact channeled_extends hx h
  | getTemplate d n => exact ⟨channeled_extends hx h.1, hx.notifications n h.2.1, h.2.2⟩
  | select c d | commit c d | refresh c d => exact calls_extends hx h
  | send out d | sending out d => exact addressed_extends hx h
  | _ => trivial

theorem faithful_extends (hx : Extends s t) (hs : Faithful s)
    (hrows : ∀ r ∈ t.deliveries, r ∈ s.deliveries ∨
      t.Channeled (deliveryId r) r.columns.channel ∧
        ∀ text, r.columns.errorMessage = some text → Failure text)
    (hexecs : t.execs = s.execs) : Faithful t := by
  refine ⟨?_, ?_⟩
  · intro r hr
    rcases hrows r hr with hold | hnew
    · exact ⟨channeled_extends hx (hs.rows r hold).1, (hs.rows r hold).2⟩
    · exact hnew
  · rw [hexecs]
    exact fun e he => holds_extends hx (hs.execs e he)

/-! ### One operation of an execution -/

/-- A supported channel leads to the provider, with what the template renders to. -/
theorem prepare_addressed {d : Worker.Delivery} {n : Notification V} {u : Template}
    {r : Option String × String} {c : Api.ChannelEnum} (hch : d.channel = c.channel)
    (hr : svc.renderSubjectAndBody u.content u.subject
      (n.templateVariables.getD svc.noVariables) = .ok r) :
    Worker.prepare svc d n (some u) = .sent ⟨targetOf n.userId c, r.2, r.1⟩ := by
  cases c <;> simp [Worker.prepare, hr, hch, Api.ChannelEnum.channel, targetOf]

theorem calls_of_late {c : Worker.Call} (hc : c.isFirst = false) : s.Calls id c := by
  cases c with
  | sent => cases hc
  | _ => exact hc

theorem holds_resume {c : Worker.Call} (hc : s.Calls id c) (d : Worker.Delivery) :
    s.Holds id (c.resume d : Worker.PC V) := by
  cases c with
  | sent => exact hc
  | _ => trivial

theorem holds_rescue (err : String) (usable : Bool) (c : Worker.Call) (d : Worker.Delivery) :
    s.Holds id (c.rescue err usable d : Worker.PC V) := by
  cases c <;> cases usable <;> trivial

theorem providerFailed_late (retries : ℕ) (err : String) :
    (Worker.providerFailed retries err).isFirst = false := by
  unfold Worker.providerFailed
  split <;> rfl

theorem holds_execute {e : Exec V} {a b : Worker.Answer V} {q : Worker.PC V} {f : Worker.Effect}
    (hs : Sound svc s) (hf : Faithful s) (he : e ∈ s.execs) (hb : s.taskAnswer e a = some b)
    (hexec : execute svc e.message (s.row e.delivery) e.pc b = some (q, f)) :
    s.Holds e.delivery q := by
  obtain ⟨hn, hl⟩ := hs.task.execs e he
  have hbranch := taskBranch_none hs he hb hexec
  obtain ⟨row, hrow, _⟩ := row_of_names hs.task hn
  rw [hrow] at hexec hbranch
  have hheld := hf.execs e he
  generalize hp : e.pc = p at hexec hbranch hl hheld
  cases Worker.next_edge hexec with
  | load =>
    obtain ⟨r, hr, rfl⟩ := Option.map_eq_some_iff.mp hrow
    have hid : deliveryId r = e.delivery := by simpa using List.find?_some hr
    exact hid ▸ (hf.rows r (List.mem_of_find?_eq_some hr)).1
  | notification =>
    have ho := taskAnswer_notification hb
    obtain ⟨hmem, hid⟩ := mem_of_notification ho.symm
    exact ⟨hheld, hmem, hid⟩
  | noTemplate => cases hbranch
  | @prepared d n u =>
    obtain ⟨hch, hmem, hid⟩ := hheld
    obtain ⟨u', r, hu, hr, hrender⟩ := stored_sound hs.api hmem
    obtain ⟨c, hc⟩ := hl.1
    obtain ⟨h, templateId, hh, hfrom, _⟩ := hs.api.notifications n hmem
    have huser : n.userId = h.payload.userId := by rw [hfrom]; rfl
    rw [(taskAnswer_template hp hb).trans hu, prepare_addressed hc hrender]
    exact ⟨c, h, r, hc ▸ hch, hid ▸ hh, hid ▸ hr, by rw [huser]⟩
  | selected | committed => exact hheld
  | refreshed => exact holds_resume hheld _
  | unrefreshed => exact holds_rescue _ _ _ _
  | invoked => exact hheld
  | providerError => exact calls_of_late (providerFailed_late _ _)
  | _ => trivial

theorem failure_of_calls {c : Worker.Call} {text : String} (hc : s.Calls id c)
    (ht : c.update.errorMessage = some text) : Failure text := by
  cases c with
  | exhausted err => exact ⟨err, Or.inl (Option.some.inj ht).symm⟩
  | transient err => exact ⟨err, Or.inr (Or.inl (Option.some.inj ht).symm)⟩
  | fatal origin err => exact ⟨err, Or.inr (Or.inr (Option.some.inj ht).symm)⟩
  | sent | delivered => cases ht
  | templateMissing | renderFailed | unsupportedChannel => cases hc

theorem rows_apply {f : Worker.Effect} (hf : Faithful s)
    (hcalls : ∀ c d, f = .commit c d → s.Calls id c) {r : Api.DeliveryRow}
    (hr : r ∈ (s.apply id f).deliveries) :
    r ∈ s.deliveries ∨ s.Channeled (deliveryId r) r.columns.channel ∧
      ∀ text, r.columns.errorMessage = some text → Failure text := by
  cases f with
  | commit c d =>
    obtain ⟨x, hx, rfl⟩ := List.mem_map.mp hr
    obtain ⟨hch, htext⟩ := hf.rows x hx
    refine Or.inr ⟨by rw [deliveryId_updateRow, channel_updateRow]; exact hch, ?_⟩
    intro text ht
    unfold updateRow at ht
    split at ht
    · rcases Worker.flush_errorMessage c d x.columns with hsame | ⟨_, hnew⟩
      · exact htext text (hsame ▸ ht)
      · exact failure_of_calls (hcalls c d rfl) (hnew ▸ ht)
    · exact htext text ht
  | _ => exact Or.inl hr

/-! ### Steps and runs -/

theorem quiet_extends {a : Api.Action V} {u : Api.State V} (hq : Quiet s u)
    (hval : s.validate svc a = s.validated) : Extends s (s.afterApi svc a u) := by
  refine ⟨?_, fun n hn => hq.notifications ▸ hn, fun d hd => hq.deliveries ▸ hd, ?_, fun _ hx => hx,
    ?_⟩
  · intro j g hg
    obtain ⟨g', hg', hpayload, hkey, _⟩ := hq.stays j g hg
    exact ⟨g', hg', hpayload, hkey⟩
  · intro id hid
    simp only [State.afterApi, List.map_append]
    exact List.mem_append_left _ hid
  · intro i r hr
    simp only [State.afterApi, hval]
    exact hr

theorem templates_extends {a : Api.Templates.Action} {u : Api.Templates.State}
    (hu : Api.Templates.step s.templates a = some u) : Extends s { s with templates := u } := by
  refine ⟨fun i h hh => ⟨h, hh, rfl, rfl⟩, fun _ hn => hn, fun _ hd => hd, fun _ hid => hid, ?_,
    fun _ _ hr => hr⟩
  intro x hx
  rcases Api.Templates.templates_step hu with heq | ⟨c, _, heq⟩
  · exact heq ▸ hx
  · exact heq ▸ List.mem_append_left _ hx

theorem faithful_keeps (hf : Faithful s) (hk : Keeps s t) (hrows : t.deliveries = s.deliveries)
    (hexecs : ∀ e ∈ t.execs, s.Holds e.delivery e.pc) : Faithful t := by
  have hx := hk.extends
  refine ⟨?_, fun e he => holds_extends hx (hexecs e he)⟩
  rw [hrows]
  exact fun r hr => ⟨channeled_extends hx (hf.rows r hr).1, (hf.rows r hr).2⟩

theorem faithful_exec {i : ℕ} {e : Exec V} {a b : Worker.Answer V} {q : Worker.PC V}
    {f : Worker.Effect} (hs : Sound svc s) (hf : Faithful s) (he : s.execs[i]? = some e)
    (hb : s.taskAnswer e a = some b)
    (hexec : execute svc e.message (s.row e.delivery) e.pc b = some (q, f)) :
    Faithful ((s.apply e.delivery f).setExec i { e with pc := q }) := by
  have hmem := List.mem_of_getElem? he
  have hx := (keeps_apply s e.delivery f).extends
  have hcalls : ∀ c d, f = .commit c d → s.Calls e.delivery c := by
    rintro c d rfl
    obtain ⟨row, hrow, _⟩ := row_of_names hs.task (hs.task.execs e hmem).1
    rw [hrow] at hexec
    have hheld := hf.execs e hmem
    rw [(Worker.edge_commit (Worker.next_edge hexec)).1] at hheld
    exact hheld
  have hq := holds_execute hs hf hmem hb hexec
  refine ⟨?_, ?_⟩
  · intro r hr
    rcases rows_apply hf hcalls hr with hold | ⟨hch, htext⟩
    · exact ⟨channeled_extends hx (hf.rows r hold).1, (hf.rows r hold).2⟩
    · exact ⟨channeled_extends hx hch, htext⟩
  · refine Pool.forall_set ?_ (holds_extends hx hq)
    rw [apply_execs]
    exact fun x hxm => holds_extends hx (hf.execs x hxm)

theorem faithful_initial : Faithful (initial : State V) :=
  ⟨by simp [initial], by simp [initial]⟩

variable [BEq V] {queues : List String} {a : Action V} {xs : List (Action V)}

/-- The rows that a handler adds are the ones the API stores, without an error. -/
theorem faithful_run {i : ℕ} {h h' : Api.Handler V} {b : Api.Answer} {f : Api.Effect V}
    (hs : Sound svc s) (ha : Api.Enqueued s.api) (hf : Faithful s)
    (hh : s.api.handlers[i]? = some h) (hn : Api.next svc s.api i h b = some (h', f)) :
    Faithful (s.afterApi svc (.run i b) ((s.api.apply f).setHandler i h')) := by
  refine faithful_extends (extends_run hs.api hh hn) hf ?_ (by rw [afterApi_run])
  intro r hr
  rw [afterApi_run] at hr ⊢
  rcases List.mem_append.mp hr with hold | hnew
  · exact Or.inl hold
  · right
    refine ⟨⟨r, ?_, rfl, rfl⟩, ?_⟩
    · simp only [Api.State.setHandler, deliveries_effect]
      exact List.mem_append_right _ hnew
    · cases f with
      | commit x =>
        obtain ⟨k, hk⟩ := List.mem_iff_getElem?.mp hnew
        have htx := (Api.writes_next hn).commit x rfl
        obtain ⟨c, now, rfl⟩ := (ha.handlers i h hh).tx x htx k r hk
        intro text ht
        cases ht
      | _ => cases hnew

theorem faithful_step (hstep : Step svc queues s a t) (hs : Sound svc s)
    (ha : Api.Enqueued s.api) (hf : Faithful s) : Faithful t := by
  cases hstep with
  | @api _ b u _ hu =>
    cases b with
    | run i c =>
      obtain ⟨h, h', f, hh, _, hn, rfl⟩ := Api.step_run hu
      exact faithful_run hs ha hf hh hn
    | _ =>
      have hq := quiet_step hu (by simp)
      refine faithful_extends (quiet_extends hq rfl) hf ?_ rfl
      intro r hr
      simp only [State.afterApi, hq.deliveries, List.drop_length, List.append_nil] at hr
      exact Or.inl hr
  | template hu => exact faithful_extends (templates_extends hu) hf (fun r hr => Or.inl hr) rfl
  | preference => exact faithful_keeps hf ⟨rfl, rfl, rfl, rfl⟩ rfl hf.execs
  | beat => exact faithful_keeps hf ⟨rfl, rfl, rfl, rfl⟩ rfl hf.execs
  | @receive m =>
    cases m with
    | sendNotificationDelivery id m =>
      exact faithful_keeps hf ⟨rfl, rfl, rfl, rfl⟩ rfl (Pool.forall_concat hf.execs trivial)
    | reconcilePendingDeliveries queue =>
      exact faithful_keeps hf ⟨rfl, rfl, rfl, rfl⟩ rfl hf.execs
  | exec he hb hexec => exact faithful_exec hs hf he hb hexec
  | marked _ _ he =>
    have hheld := hf.execs _ (List.mem_of_getElem? he)
    exact faithful_keeps hf ⟨rfl, rfl, rfl, rfl⟩ rfl (Pool.forall_set hf.execs hheld)
  | redeliver he =>
    have hheld := hf.execs _ (List.mem_of_getElem? he)
    exact faithful_keeps hf ⟨rfl, rfl, rfl, rfl⟩ rfl (Pool.forall_set hf.execs hheld)
  | @tick k now p _ hp hu =>
    have hsound := hs.task.ticks _ (List.mem_of_getElem? hp)
    have hk := (runTick_sound hs.api hs.task hsound hu).1
    have hsame : t.deliveries = s.deliveries ∧ t.execs = s.execs := by
      cases p <;> cases hu <;> exact ⟨rfl, rfl⟩
    exact faithful_keeps hf hk hsame.1 (hsame.2 ▸ hf.execs)
  | tickRaised => exact faithful_keeps hf ⟨rfl, rfl, rfl, rfl⟩ rfl hf.execs

theorem faithful_trInv : (sys svc queues).TrInv fun s => Projected svc s ∧ Faithful s := by
  rintro s a t hstep ⟨hs, hf⟩
  exact ⟨projected_step hstep hs, faithful_step (sys_step hstep) hs.sound hs.enqueued hf⟩

theorem faithful_run_initial (hrun : (sys svc queues).MTr initial xs s) :
    Projected svc s ∧ Faithful s := by
  have hs := LTS.mtrInv_of_trInv faithful_trInv hrun ⟨projected_initial, faithful_initial⟩
  exact hs

def Exec.inCall (e : Exec V) : Bool :=
  match e.pc with
  | .sending _ _ => true
  | _ => false

end NotificationService.Deployment
