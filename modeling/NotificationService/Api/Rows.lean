import NotificationService.Api.FailedRequest

/-! Where the rows and messages of a request come from, step by step. -/
namespace NotificationService.Api

open Worker

/-- The template that a handler has validated and not yet stored. -/
def PC.templateId {V : Type} : PC V → Option ℕ
  | .getPreference t | .createNotification t _ => some t
  | _ => none

/-- The notification is not inserted yet. -/
def PC.beforeRow {V : Type} : PC V → Bool
  | .getEntry | .setLock | .checkRateLimit | .getTemplate | .getPreference _
  | .createNotification _ _ => true
  | _ => false

variable {V : Type} {s : State V} {i : ℕ} {h h' : Handler V} {f : Effect V}

/-- What a step makes of the handler's transaction. -/
inductive Grows (s : State V) (i : ℕ) (h : Handler V) : Option (Tx V) → Prop where
  | same : Grows s i h h.tx
  | closed : Grows s i h none
  | opened {t : ℕ} {cs : List ChannelEnum} : h.pc = .createNotification t cs →
      Grows s i h (some ⟨h.row i t, [], []⟩)
  | delivery {x : Tx V} {c : ChannelEnum} : h.tx = some x → Grows s i h (some { x with
      deliveries := x.deliveries ++
        [⟨i, x.deliveries.length, (createDelivery c.channel s.clock).1⟩] })
  | log {x : Tx V} {l : LogRow} : h.tx = some x →
      Grows s i h (some { x with logs := x.logs ++ [l] })

/-- The row of a transaction is the old one's, or has just been inserted. -/
theorem row_grows {x : Tx V} (hg : Grows s i h (some x)) :
    (∃ y, h.tx = some y ∧ x.notification = y.notification) ∨
      ∃ t cs, h.pc = .createNotification t cs ∧ x.notification = h.row i t := by
  generalize ho : some x = o at hg
  cases hg with
  | same => exact Or.inl ⟨x, ho.symm, rfl⟩
  | closed => cases ho
  | opened hpc =>
    cases ho
    exact Or.inr ⟨_, _, hpc, rfl⟩
  | delivery htx | log htx =>
    cases ho
    exact Or.inl ⟨_, htx, rfl⟩

theorem deliveries_grows {x : Tx V} (hg : Grows s i h (some x)) {d : DeliveryRow}
    (hd : d ∈ x.deliveries) : (∃ y, h.tx = some y ∧ d ∈ y.deliveries) ∨
      d.notificationId = i ∧ ∃ c : ChannelEnum, d.columns.channel = c.channel := by
  generalize ho : some x = o at hg
  cases hg with
  | same => exact Or.inl ⟨x, ho.symm, hd⟩
  | closed => cases ho
  | opened =>
    cases ho
    cases hd
  | @delivery y c htx =>
    cases ho
    rcases List.mem_append.mp hd with hmem | hnew
    · exact Or.inl ⟨y, htx, hmem⟩
    · obtain rfl := List.mem_singleton.mp hnew
      exact Or.inr ⟨rfl, c, rfl⟩
  | log htx =>
    cases ho
    exact Or.inl ⟨_, htx, hd⟩

/-- The steps that stay before the row. -/
inductive Approaches (h : Handler V) : Handler V → Prop where
  | missed : h.pc = .getEntry → Approaches h (h.moved .setLock)
  | locked : h.pc = .setLock → Approaches h (h.moved .checkRateLimit)
  | reads {q : PC V} : h.pc.Reads q → Approaches h (h.moved q)

theorem grows_perform {q : PC V} {tx : Option (Tx V)} (hp : perform s i h = some (q, tx, f)) :
    Grows s i h tx := by
  unfold perform at hp
  split at hp
  case h_1 =>
    simp only [Option.ite_none_right_eq_some, Option.some.injEq, Prod.mk.injEq] at hp
    obtain ⟨_, _, rfl, _⟩ := hp
    exact .same
  case h_2 t cs hpc =>
    simp only [Option.ite_none_left_eq_some, Option.some.injEq, Prod.mk.injEq] at hp
    obtain ⟨_, _, rfl, _⟩ := hp
    exact .opened hpc
  case h_3 c cs x hpc htx =>
    simp only [Option.some.injEq, Prod.mk.injEq] at hp
    obtain ⟨_, rfl, _⟩ := hp
    exact .delivery htx
  case h_4 c cs x hpc htx =>
    simp only [Option.some.injEq, Prod.mk.injEq] at hp
    obtain ⟨_, rfl, _⟩ := hp
    exact .log htx
  case h_5 =>
    simp only [Option.some.injEq, Prod.mk.injEq] at hp
    obtain ⟨_, rfl, _⟩ := hp
    exact .closed
  case h_9 => cases hp
  all_goals
    simp only [Option.some.injEq, Prod.mk.injEq] at hp
    obtain ⟨_, rfl, _⟩ := hp
    exact .same

theorem silent_effect {P : Tx V → Prop} {Q : TaskMessage → Prop} (hf : f.silent = true) :
    (∀ x, f = .commit x → P x) ∧ ∀ m, f = .publish m → Q m := by
  constructor
  all_goals
    rintro x rfl
    cases hf

/-- Only the commit of a transaction writes rows, and only `apply_async` publishes. -/
theorem effect_perform {q : PC V} {tx : Option (Tx V)} (hp : perform s i h = some (q, tx, f)) :
    (∀ x, f = .commit x → h.tx = some x) ∧
    ∀ m, f = .publish m → ∃ ds, h.pc = .applyAsync (m.delivery :: ds) ∧
      m.queue = queueName h.payload.priority := by
  unfold perform at hp
  split at hp
  case h_1 =>
    simp only [Option.ite_none_right_eq_some, Option.some.injEq, Prod.mk.injEq] at hp
    obtain ⟨_, _, _, rfl⟩ := hp
    exact silent_effect rfl
  case h_2 =>
    simp only [Option.ite_none_left_eq_some, Option.some.injEq, Prod.mk.injEq] at hp
    obtain ⟨_, _, _, rfl⟩ := hp
    exact silent_effect rfl
  case h_5 x hpc htx =>
    simp only [Option.some.injEq, Prod.mk.injEq] at hp
    obtain ⟨_, _, rfl⟩ := hp
    constructor
    · intro y hy
      cases hy
      exact htx
    · intro m hm
      cases hm
  case h_6 d ds hpc =>
    simp only [Option.some.injEq, Prod.mk.injEq] at hp
    obtain ⟨_, _, rfl⟩ := hp
    constructor
    · intro y hy
      cases hy
    · intro m hm
      cases hm
      exact ⟨ds, hpc, rfl⟩
  case h_9 => cases hp
  all_goals
    simp only [Option.some.injEq, Prod.mk.injEq] at hp
    obtain ⟨_, _, rfl⟩ := hp
    exact silent_effect rfl

/-! ### Steps of a handler -/

theorem quiet_performs {q : PC V} {tx : Option (Tx V)} (hp : Performs s i h q tx f)
    (hw : h.pc.writes = false) : tx = h.tx ∧ f.silent = true := by
  cases hp with
  | setLock | saveResponse | deleteKey => exact ⟨rfl, rfl⟩
  | createNotification hpc | insertDelivery hpc | insertLog hpc | commit hpc | applyAsync hpc =>
    rw [hpc] at hw
    cases hw

theorem before_cleanup (h : Handler V) (e : ApiError) : (h.cleanup e).beforeRow = false := by
  rcases cleanup_cases h e with hq | hq <;> rw [hq] <;> rfl

theorem before_nextDelivery (cs : List ChannelEnum) :
    (nextDelivery cs : PC V).beforeRow = false := by
  rcases nextDelivery_cases (V := V) cs with hq | hq <;> rw [hq] <;> rfl

theorem before_nextPublish (ds : List DeliveryRow) : (nextPublish ds : PC V).beforeRow = false := by
  rcases nextPublish_cases (V := V) ds with hq | hq <;> rw [hq] <;> rfl

theorem before_of_templateId {q : PC V} {tid : ℕ} (ht : q.templateId = some tid) :
    q.beforeRow = true := by
  cases q <;> first | rfl | cases ht

/-- Only the lock is a writing operation that leads on to one before the row. -/
theorem approaches_performs {q : PC V} {tx : Option (Tx V)} (hp : Performs s i h q tx f)
    (hb : q.beforeRow = true) : Approaches h ((h.performed tx).moved q) := by
  cases hp with
  | setLock hpc => exact .locked hpc
  | createNotification | insertLog => cases (before_nextDelivery _).symm.trans hb
  | commit | applyAsync => cases (before_nextPublish _).symm.trans hb
  | _ => cases hb

theorem templateId_onTemplate {svc : TemplateService V} {o : Option Template} {tid : ℕ}
    (ht : (h.onTemplate svc o).pc.templateId = some tid) :
    ∃ t r, o = some t ∧ t.id = tid ∧
      svc.renderSubjectAndBody t.content t.subject h.payload.vars = .ok r := by
  cases o with
  | none => cases (before_cleanup h _).symm.trans (before_of_templateId ht)
  | some t =>
    cases hr : svc.renderSubjectAndBody t.content t.subject h.payload.vars with
    | error e =>
      simp only [Handler.onTemplate, hr] at ht
      cases (before_cleanup h _).symm.trans (before_of_templateId ht)
    | ok r =>
      simp only [Handler.onTemplate, hr, Handler.moved, PC.templateId, Option.some.injEq] at ht
      exact ⟨t, r, rfl, ht, hr⟩

theorem applyAsync_performs {q : PC V} {tx : Option (Tx V)} (hp : Performs s i h q tx f)
    {ds : List DeliveryRow} (hq : q = .applyAsync ds) :
    (∃ x, f = .commit x ∧ ds = x.deliveries) ∨ ∃ d, h.pc = .applyAsync (d :: ds) := by
  cases hp with
  | @createNotification _ cs | @insertLog _ cs =>
    rcases nextDelivery_cases (V := V) cs with hd | hd <;> cases hd.symm.trans hq
  | @commit x => exact Or.inl ⟨x, rfl, nextPublish_eq hq⟩
  | @applyAsync d es _ hpc => exact Or.inr ⟨d, by rw [hpc, nextPublish_eq hq]⟩
  | _ => cases hq

variable [BEq V] {svc : TemplateService V} {b : Answer}

theorem quiet_edge (he : Edge s i h b h' f) (hw : h.pc.writes = false) :
    h'.tx = h.tx ∧ f.silent = true := by
  cases he with
  | performed hp | raised _ hp | lockRaised _ hp | deleteRaised _ hp => exact quiet_performs hp hw
  | _ => exact ⟨rfl, rfl⟩

theorem frame_edge (he : Edge s i h b h' f) : h'.payload = h.payload ∧ h'.key = h.key := by
  cases he <;> exact ⟨rfl, rfl⟩

/-- Every other step leaves the way to the row, or has passed it. -/
theorem approaches_edge (he : Edge s i h b h' f) (hb : h'.pc.beforeRow = true) :
    Approaches h h' := by
  cases he with
  | missed hpc => exact .missed hpc
  | reads hr => exact .reads hr
  | performed hp => exact approaches_performs hp hb
  | failed | raised => cases (before_cleanup h _).symm.trans hb
  | @reloaded _ body =>
    rcases nextBuilt_cases h body with hq | hq <;> simp only [hq] at hb <;> cases hb
  | _ => cases hb

theorem before_edge (he : Edge s i h b h' f) (hb : h'.pc.beforeRow = true) :
    h.pc.beforeRow = true ∧ h'.tx = h.tx := by
  cases approaches_edge he hb with
  | missed hpc | locked hpc => exact ⟨by rw [hpc]; rfl, rfl⟩
  | reads hr =>
    refine ⟨?_, rfl⟩
    generalize h.pc = p at hr
    cases hr <;> rfl

theorem before_raised {err : String} {applied : Bool}
    (hn : next svc s i h (.raised err applied) = some (h', f)) : h'.pc.beforeRow = false := by
  cases applied with
  | false =>
    simp only [next] at hn
    split at hn <;> simp only [Option.some.injEq, Prod.mk.injEq, reduceCtorEq] at hn <;>
      obtain ⟨rfl, _⟩ := hn <;>
      first | rfl | exact before_cleanup h _
  | true =>
    obtain ⟨⟨q, tx, g⟩, _, heq⟩ := Option.map_eq_some_iff.mp hn
    cases hpc : h.pc <;> simp only [hpc, Prod.mk.injEq] at heq <;> obtain ⟨rfl, _⟩ := heq <;>
      first | rfl | exact before_cleanup h _

/-- A template id appears when the handler has rendered that template. -/
theorem templateId_next (hn : next svc s i h b = some (h', f)) {tid : ℕ}
    (ht : h'.pc.templateId = some tid) : h.pc.templateId = some tid ∨
      ∃ t r, b = .template (some t) ∧ h.pc = .getTemplate ∧ t.id = tid ∧
        svc.renderSubjectAndBody t.content t.subject h.payload.vars = .ok r := by
  have hb := before_of_templateId ht
  cases approaches_edge (next_edge hn) hb with
  | missed | locked => cases ht
  | @reads q hr =>
    generalize hpc : h.pc = p at hr
    cases hr with
    | checkRateLimit => cases ht
    | getTemplate =>
      right
      cases b with
      | template o =>
        simp only [next, hpc, Option.some.injEq, Prod.mk.injEq] at hn
        rw [← hn.1] at ht
        obtain ⟨t, r, rfl, hid, hr⟩ := templateId_onTemplate ht
        exact ⟨t, r, rfl, rfl, hid, hr⟩
      | raised err applied => cases (before_raised hn).symm.trans hb
      | ok | rateLimited | preference | deliveries => simp [next, hpc, perform] at hn
    | getPreference =>
      left
      cases b with
      | preference p =>
        simp only [next, hpc, Option.some.injEq, Prod.mk.injEq] at hn
        rw [← hn.1] at ht
        exact ht
      | raised err applied => cases (before_raised hn).symm.trans hb
      | ok | rateLimited | template | deliveries => simp [next, hpc, perform] at hn

/-- What one step of a handler may do, as far as its rows and messages are concerned. -/
structure Writes (svc : TemplateService V) (s : State V) (i : ℕ) (h : Handler V) (b : Answer)
    (h' : Handler V) (f : Effect V) : Prop where
  payload : h'.payload = h.payload
  key : h'.key = h.key
  tx : Grows s i h h'.tx
  template : ∀ tid, h'.pc.templateId = some tid → h.pc.templateId = some tid ∨
    ∃ t r, b = .template (some t) ∧ h.pc = .getTemplate ∧ t.id = tid ∧
      svc.renderSubjectAndBody t.content t.subject h.payload.vars = .ok r
  before : h'.pc.beforeRow = true → h.pc.beforeRow = true ∧ h'.tx = h.tx
  commit : ∀ x, f = .commit x → h.tx = some x
  publish : ∀ m, f = .publish m → ∃ ds, h.pc = .applyAsync (m.delivery :: ds) ∧
    m.queue = queueName h.payload.priority
  queue : ∀ ds, h'.pc = .applyAsync ds → (∃ x, f = .commit x ∧ ds = x.deliveries) ∨
    ∃ d, h.pc = .applyAsync (d :: ds)

theorem grows_next (hn : next svc s i h b = some (h', f)) : Grows s i h h'.tx := by
  cases hw : h.pc.writes with
  | false =>
    rw [(quiet_edge (next_edge hn) hw).1]
    exact .same
  | true =>
    rcases next_write hw hn with ⟨q, tx, hp, rfl | ⟨e, rfl⟩⟩ | ⟨_, e, rfl⟩
    · exact grows_perform hp
    · exact grows_perform hp
    · exact .same

theorem applyAsync_edge (he : Edge s i h b h' f) {ds : List DeliveryRow}
    (hq : h'.pc = .applyAsync ds) :
    (∃ x, f = .commit x ∧ ds = x.deliveries) ∨ ∃ d, h.pc = .applyAsync (d :: ds) := by
  cases he with
  | performed hp => exact applyAsync_performs hp hq
  | reads hr =>
    generalize h.pc = p at hr
    cases hr <;> cases hq
  | @failed _ e | @raised _ e => rcases cleanup_cases h e with hc | hc <;> cases hc.symm.trans hq
  | @reloaded _ body => rcases nextBuilt_cases h body with hc | hc <;> cases hc.symm.trans hq
  | _ => cases hq

theorem effect_next (hn : next svc s i h b = some (h', f)) :
    (∀ x, f = .commit x → h.tx = some x) ∧
    ∀ m, f = .publish m → ∃ ds, h.pc = .applyAsync (m.delivery :: ds) ∧
      m.queue = queueName h.payload.priority := by
  cases hw : h.pc.writes with
  | false => exact silent_effect (quiet_edge (next_edge hn) hw).2
  | true =>
    rcases next_write hw hn with ⟨q, tx, hp, _⟩ | ⟨rfl, _⟩
    · exact effect_perform hp
    · exact silent_effect rfl

theorem writes_next (hn : next svc s i h b = some (h', f)) : Writes svc s i h b h' f := by
  have he := next_edge hn
  obtain ⟨hpayload, hkey⟩ := frame_edge he
  obtain ⟨hcommit, hpublish⟩ := effect_next hn
  exact ⟨hpayload, hkey, grows_next hn, fun tid => templateId_next hn, before_edge he, hcommit,
    hpublish, fun ds => applyAsync_edge he⟩

end NotificationService.Api
