import NotificationService.Api.Rows

/-! Rows and messages of one request: it publishes what it has committed, in order and once each,
and every 201 answer comes after all of that. -/
namespace NotificationService.Api

open Transition Worker

variable {V : Type} {s t : State V} {i j : ℕ} {h h' : Handler V} {f : Effect V}

def State.messagesOf (s : State V) (i : ℕ) : List TaskMessage :=
  s.messages.filter (·.delivery.notificationId = i)

/-- The message of a delivery, on the queue of the request's priority. -/
def Handler.message (h : Handler V) (d : DeliveryRow) : TaskMessage :=
  ⟨d, queueName h.payload.priority⟩

/-- The rows of request `i` as `create_delivery` inserts them: one after the other, and PENDING. -/
def Numbered (i : ℕ) (ds : List DeliveryRow) : Prop :=
  ∀ (k : ℕ) (d : DeliveryRow), ds[k]? = some d →
    ∃ (c : ChannelEnum) (now : ℕ), d = ⟨i, k, (createDelivery c.channel now).1⟩

theorem numbered_belongs {ds : List DeliveryRow} (hds : Numbered i ds) :
    ∀ d ∈ ds, d.notificationId = i := by
  intro d hd
  obtain ⟨k, hk⟩ := List.mem_iff_getElem?.mp hd
  obtain ⟨_, _, rfl⟩ := hds k d hk
  rfl

theorem numbered_grows {tx : Option (Tx V)} (hg : Grows s i h tx)
    (hold : ∀ x, h.tx = some x → Numbered i x.deliveries) :
    ∀ x, tx = some x → Numbered i x.deliveries := by
  intro x hx
  cases hg with
  | same => exact hold x hx
  | closed => cases hx
  | opened =>
    cases hx
    simp [Numbered]
  | @delivery y c htx =>
    cases hx
    exact Pool.forall_getElem?_concat (hold y htx) ⟨c, s.clock, rfl⟩
  | @log y l htx =>
    cases hx
    exact hold y htx

/-! ### What an effect adds to the rows and messages of a request -/

theorem rowsOf_apply (hf : f.belongs i) (hij : j ≠ i) :
    (s.apply f).rowsOf j = s.rowsOf j ∧ (s.apply f).messagesOf j = s.messagesOf j := by
  cases f with
  | commit x =>
    have hnone : x.deliveries.filter (·.notificationId = j) = [] := by
      rw [List.filter_eq_nil_iff]
      intro d hd
      simpa [hf.2.1 d hd] using hij.symm
    exact ⟨by simp [State.rowsOf, State.apply, hnone], rfl⟩
  | publish m =>
    have hm : m.delivery.notificationId = i := hf
    refine ⟨rfl, ?_⟩
    simp [State.messagesOf, State.apply, hm, hij.symm]
  | _ => exact ⟨rfl, rfl⟩

theorem rowsOf_silent (hf : f.silent = true) (j : ℕ) :
    (s.apply f).rowsOf j = s.rowsOf j ∧ (s.apply f).messagesOf j = s.messagesOf j := by
  cases f with
  | commit | publish => cases hf
  | _ => exact ⟨rfl, rfl⟩

theorem rowsOf_commit {x : Tx V} (hx : Numbered i x.deliveries) :
    (s.apply (.commit x)).rowsOf i = s.rowsOf i ++ x.deliveries := by
  have hall : x.deliveries.filter (·.notificationId = i) = x.deliveries :=
    List.filter_eq_self.mpr fun d hd => decide_eq_true (numbered_belongs hx d hd)
  simp [State.rowsOf, State.apply, hall]

theorem messagesOf_publish {m : TaskMessage} (hm : m.delivery.notificationId = i) :
    (s.apply (.publish m)).messagesOf i = s.messagesOf i ++ [m] := by
  simp [State.messagesOf, State.apply, hm]

/-- A request that has no row has no message. -/
theorem untouched_rowsOf (hs : s.untouched i) : s.rowsOf i = [] ∧ s.messagesOf i = [] := by
  obtain ⟨_, hd, _, hm⟩ := hs
  constructor
  · rw [State.rowsOf, List.filter_eq_nil_iff]
    simpa using hd
  · rw [State.messagesOf, List.filter_eq_nil_iff]
    simpa using hm

/-! ### The deliveries still to be published -/

/-- What a step does with them. -/
inductive Publishes (h h' : Handler V) : Effect V → Prop where
  | silent {f : Effect V} : f.silent = true → (∀ ds, h'.pc ≠ .applyAsync ds) →
      (h'.pc = .reload ∨ h'.built.isSome = true → h.pc = .reload ∨ h.built.isSome = true) →
      Publishes h h' f
  | committed {x : Tx V} : h.pc = .commit → h.tx = some x → h'.built = h.built →
      (∀ ds, h'.pc = .applyAsync ds → ds = x.deliveries) →
      (h'.pc = .reload → x.deliveries = []) → Publishes h h' (.commit x)
  | published {m : TaskMessage} {ds : List DeliveryRow} : h.pc = .applyAsync (m.delivery :: ds) →
      h'.built = h.built → (∀ es, h'.pc = .applyAsync es → es = ds) →
      (h'.pc = .reload → ds = []) → Publishes h h' (.publish m)

theorem nextPublish_reload {ds : List DeliveryRow} (hq : (nextPublish ds : PC V) = .reload) :
    ds = [] := by
  cases ds with
  | nil => rfl
  | cons => cases hq

theorem quiet_nextDelivery (cs : List ChannelEnum) :
    (∀ ds, (nextDelivery cs : PC V) ≠ .applyAsync ds) ∧ (nextDelivery cs : PC V) ≠ .reload := by
  rcases nextDelivery_cases (V := V) cs with hq | hq <;> rw [hq] <;> exact ⟨by simp, by simp⟩

theorem quiet_cleanup (h : Handler V) (e : ApiError) :
    (∀ ds, h.cleanup e ≠ .applyAsync ds) ∧ h.cleanup e ≠ .reload := by
  rcases cleanup_cases h e with hq | hq <;> rw [hq] <;> exact ⟨by simp, by simp⟩

/-- A step that keeps the body and has no rows or messages to write is silent. -/
theorem publishes_quiet (hf : f.silent = true) (hbuilt : h'.built = h.built)
    (hq : (∀ ds, h'.pc ≠ .applyAsync ds) ∧ h'.pc ≠ .reload) : Publishes h h' f := by
  refine .silent hf hq.1 ?_
  rintro (hr | hb)
  · exact absurd hr hq.2
  · exact Or.inr (hbuilt ▸ hb)

theorem publishes_performs {q : PC V} {tx : Option (Tx V)} (hp : Performs s i h q tx f) :
    Publishes h ((h.performed tx).moved q) f := by
  cases hp with
  | setLock | saveResponse | deleteKey | insertDelivery =>
    exact publishes_quiet rfl rfl ⟨by simp [Handler.moved], by simp [Handler.moved]⟩
  | createNotification | insertLog => exact publishes_quiet rfl rfl (quiet_nextDelivery _)
  | commit hpc htx =>
    exact .committed hpc htx rfl (fun ds hq => nextPublish_eq hq) nextPublish_reload
  | applyAsync hpc => exact .published hpc rfl (fun ds hq => nextPublish_eq hq) nextPublish_reload

/-- The same for an operation that takes effect and raises. -/
theorem publishes_raised {q p : PC V} {tx : Option (Tx V)} (hp : Performs s i h q tx f)
    (hpc' : h'.pc = p) (hbuilt : h'.built = h.built)
    (hq : (∀ ds, p ≠ .applyAsync ds) ∧ p ≠ .reload) : Publishes h h' f := by
  subst hpc'
  cases hp with
  | commit hpc htx =>
    exact .committed hpc htx hbuilt (fun ds hr => absurd hr (hq.1 ds)) fun hr => absurd hr hq.2
  | applyAsync hpc =>
    exact .published hpc hbuilt (fun ds hr => absurd hr (hq.1 ds)) fun hr => absurd hr hq.2
  | _ => exact publishes_quiet rfl hbuilt hq

/-- The messages of request `i` are the first ones of its rows, and all of them once it reloads. -/
structure Handler.Enqueues (s : State V) (i : ℕ) (h : Handler V) : Prop where
  tx : ∀ x, h.tx = some x → Numbered i x.deliveries
  rows : Numbered i (s.rowsOf i)
  rest : ∃ ds, s.messagesOf i ++ ds.map h.message = (s.rowsOf i).map h.message ∧
    (∀ es, h.pc = .applyAsync es → ds = es) ∧ (h.pc = .reload ∨ h.built.isSome = true → ds = [])
  body : ∀ body, h.built = some body → body.deliveries.Perm (s.rowsOf i)

theorem enqueues_start (hs : s.untouched i) (key : Option String)
    (payload : NotificationRequest V) : (start key payload).Enqueues s i := by
  obtain ⟨hrows, hmessages⟩ := untouched_rowsOf hs
  refine ⟨by simp [start], by simp [hrows, Numbered], ⟨[], by simp [hrows, hmessages], ?_, ?_⟩, ?_⟩
  · intro es hq
    rcases start_cases key payload with heq | heq <;> cases heq.symm.trans hq
  · exact fun _ => rfl
  · simp [start]

/-- Only the transaction changes, and the tables of other requests. -/
theorem enqueues_frame (hold : h.Enqueues s i) (htx : ∀ x, h'.tx = some x → h.tx = some x)
    (hpc : h'.pc = h.pc) (hbuilt : h'.built = h.built) (hpayload : h'.payload = h.payload)
    (hst : t.rowsOf i = s.rowsOf i ∧ t.messagesOf i = s.messagesOf i) : h'.Enqueues t i := by
  have hmessage : h'.message = h.message := by
    funext d
    simp [Handler.message, hpayload]
  refine ⟨fun x hx => hold.tx x (htx x hx), hst.1 ▸ hold.rows, ?_, ?_⟩
  · rw [hst.1, hst.2, hmessage, hpc, hbuilt]
    exact hold.rest
  · rw [hst.1, hbuilt]
    exact hold.body

/-- The rows with their messages after one step of the handler. -/
theorem rest_step (hold : h.Enqueues s i) (hpub : Publishes h h' f) (hf : f.belongs i)
    (hqueue : ∀ m, f = .publish m → m.queue = queueName h.payload.priority)
    (hquiet : h.committed = false → s.untouched i) (hnone : h.pc = .commit → h.built = none) :
    ∃ ds, (s.apply f).messagesOf i ++ ds.map h.message = ((s.apply f).rowsOf i).map h.message ∧
      (∀ es, h'.pc = .applyAsync es → ds = es) ∧
        (h'.pc = .reload ∨ h'.built.isSome = true → ds = []) := by
  obtain ⟨ds, hds, happly, hdone⟩ := hold.rest
  cases hpub with
  | silent hsilent hno hback =>
    obtain ⟨hrows, hmessages⟩ := rowsOf_silent (s := s) hsilent i
    refine ⟨ds, by rw [hrows, hmessages, hds], fun es hq => absurd hq (hno es), ?_⟩
    exact fun hr => hdone (hback hr)
  | @committed x hpc htx hbuilt happly hreload =>
    have hfalse : h.committed = false := by
      simp [Handler.committed, hpc, PC.committed, PC.durable]
    obtain ⟨hrows, hmessages⟩ := untouched_rowsOf (hquiet hfalse)
    have hsame : (s.apply (.commit x)).messagesOf i = s.messagesOf i := rfl
    refine ⟨x.deliveries, ?_, fun es hq => (happly es hq).symm, ?_⟩
    · rw [rowsOf_commit (hold.tx x htx), hsame, hrows, hmessages]
      rfl
    · rintro (hr | hb)
      · exact hreload hr
      · simp [hbuilt, hnone hpc] at hb
  | @published m es hpc hbuilt hnext hreload =>
    obtain rfl := happly _ hpc
    have hm : h.message m.delivery = m := by
      rw [Handler.message, ← hqueue m rfl]
    have hsame : (s.apply (.publish m)).rowsOf i = s.rowsOf i := rfl
    refine ⟨es, ?_, fun fs hq => (hnext fs hq).symm, ?_⟩
    · rw [messagesOf_publish hf, hsame, ← hds]
      simp [hm]
    · rintro (hr | hb)
      · exact hreload hr
      · cases hdone (Or.inr (hbuilt ▸ hb))

/-- Rows are numbered, whatever the step adds to them. -/
theorem rows_step (hold : h.Enqueues s i) (hpub : Publishes h h' f)
    (hquiet : h.committed = false → s.untouched i) : Numbered i ((s.apply f).rowsOf i) := by
  cases hpub with
  | silent hsilent =>
    rw [(rowsOf_silent hsilent i).1]
    exact hold.rows
  | committed hpc htx =>
    have hfalse : h.committed = false := by
      simp [Handler.committed, hpc, PC.committed, PC.durable]
    rw [rowsOf_commit (hold.tx _ htx), (untouched_rowsOf (hquiet hfalse)).1]
    exact hold.tx _ htx
  | published => exact hold.rows

variable [BEq V] {svc : TemplateService V} {a : Action V} {b : Answer} {xs : List (Action V)}

theorem publishes_edge (he : Edge s i h b h' f) : Publishes h h' f := by
  cases he with
  | missed | cached | refused | deleteFailed =>
    exact publishes_quiet rfl rfl
      ⟨by simp [Handler.moved, Handler.fail], by simp [Handler.moved, Handler.fail]⟩
  | reads hr =>
    refine publishes_quiet rfl rfl ?_
    generalize h.pc = p at hr
    cases hr <;> exact ⟨by simp [Handler.moved], by simp [Handler.moved]⟩
  | failed => exact publishes_quiet rfl rfl (quiet_cleanup h _)
  | @reloaded _ body _ _ hpc =>
    refine .silent rfl ?_ fun _ => Or.inl hpc
    rcases nextBuilt_cases h body with hq | hq <;> simp [hq]
  | performed hp => exact publishes_performs hp
  | raised _ hp => exact publishes_raised hp rfl rfl (quiet_cleanup h _)
  | lockRaised _ hp | deleteRaised _ hp =>
    exact publishes_raised (p := .finished _) hp rfl rfl ⟨by simp, by simp⟩

/-! ### Steps and runs -/

/-- A body is built from the rows, which no longer change then. -/
theorem body_step (hold : h.Enqueues s i) (ho : h.Own s i) (he : Edge s i h b h' f) :
    ∀ body, h'.built = some body → body.deliveries.Perm ((s.apply f).rowsOf i) := by
  intro body hb
  have hkeep : h.built = some body → body.deliveries.Perm ((s.apply f).rowsOf i) := by
    intro hbuilt
    have hafter := ho.after (by rw [hbuilt]; rfl)
    cases publishes_edge he with
    | silent hsilent =>
      rw [(rowsOf_silent hsilent i).1]
      exact hold.body body hbuilt
    | committed hpc =>
      rw [hpc] at hafter
      cases hafter
    | published => exact hold.body body hbuilt
  cases he with
  | reloaded _ _ _ hds hbody =>
    cases hb
    rw [hbody]
    exact hds
  | _ => exact hkeep hb

structure Enqueued (s : State V) : Prop where
  settled : Settled 0 s
  traced : Traced s
  handlers : ∀ (i : ℕ) (h : Handler V), s.handlers[i]? = some h → h.Enqueues s i

theorem enqueued_initial : Enqueued (initial : State V) :=
  ⟨settled_idle idle_initial, traced_initial, by simp [initial]⟩

theorem enqueues_next (hs : Enqueued s) (hh : s.handlers[i]? = some h)
    (hn : next svc s i h b = some (h', f)) : h'.Enqueues (s.apply f) i := by
  have he := next_edge hn
  have hw := writes_next hn
  have hold := hs.handlers i h hh
  have ho := hs.traced.own i h hh
  have hpub := publishes_edge he
  have hf := (tidy_edge he (hs.settled.own i h hh (Nat.zero_le _)).1).2
  have hquiet : h.committed = false → s.untouched i := by
    intro hfalse
    refine hs.settled.quiet i (Nat.zero_le _) fun g hg => ?_
    cases hh.symm.trans hg
    exact hfalse
  have hnone : h.pc = .commit → h.built = none := by
    intro hpc
    by_contra hsome
    have hafter := ho.after (by simpa [Option.isSome_iff_ne_none] using hsome)
    rw [hpc] at hafter
    cases hafter
  have hmessage : h'.message = h.message := by
    funext d
    simp [Handler.message, hw.payload]
  refine ⟨numbered_grows hw.tx hold.tx, rows_step hold hpub hquiet, ?_, body_step hold ho he⟩
  rw [hmessage]
  refine rest_step hold hpub hf ?_ hquiet hnone
  intro m hm
  obtain ⟨_, _, hqueue⟩ := hw.publish m hm
  exact hqueue

theorem enqueued_step (hstep : (sys svc).Tr s a t) (hs : Enqueued s) : Enqueued t := by
  refine ⟨settled_step (sys_step hstep) hs.settled, traced_step (sys_step hstep) hs.traced, ?_⟩
  cases a with
  | run i b =>
    obtain ⟨h, h', f, hh, _, hn, rfl⟩ := step_run hstep
    have hf := (tidy_edge (next_edge hn) (hs.settled.own i h hh (Nat.zero_le _)).1).2
    intro j g hg
    by_cases hij : j = i
    · subst hij
      rw [setHandler_handlers, apply_handlers,
        List.getElem?_set_self (List.getElem?_eq_some_iff.mp hh).1] at hg
      cases hg
      exact enqueues_frame (enqueues_next hs hh hn) (fun _ hx => hx) rfl rfl rfl ⟨rfl, rfl⟩
    · rw [setHandler_handlers, apply_handlers, List.getElem?_set_ne (Ne.symm hij)] at hg
      exact enqueues_frame (hs.handlers j g hg) (fun _ hx => hx) rfl rfl rfl (rowsOf_apply hf hij)
  | tick d =>
    cases hstep
    intro j g hg
    exact enqueues_frame (hs.handlers j g hg) (fun _ hx => hx) rfl rfl rfl ⟨rfl, rfl⟩
  | request key payload =>
    cases hstep
    refine Pool.forall_getElem?_concat ?_ ?_
    · intro j g hg
      exact enqueues_frame (hs.handlers j g hg) (fun _ hx => hx) rfl rfl rfl ⟨rfl, rfl⟩
    · have hnew : s.untouched s.handlers.length := by
        refine hs.settled.quiet _ (Nat.zero_le _) fun h hh => ?_
        simp at hh
      exact enqueues_frame (enqueues_start hnew key payload) (fun _ hx => hx) rfl rfl rfl ⟨rfl, rfl⟩
  | crash i =>
    obtain ⟨h, hh, hc⟩ := Option.bind_eq_some_iff.mp hstep
    simp only [Option.ite_none_left_eq_some, Option.some.injEq] at hc
    obtain ⟨_, rfl⟩ := hc
    refine Pool.forall_getElem?_set ?_ ?_
    · intro j g hg
      exact enqueues_frame (hs.handlers j g hg) (fun _ hx => hx) rfl rfl rfl ⟨rfl, rfl⟩
    · exact enqueues_frame (hs.handlers i h hh) (fun _ hx => hx) rfl rfl rfl ⟨rfl, rfl⟩
  | rollback i =>
    obtain ⟨h, hh, hc⟩ := Option.bind_eq_some_iff.mp hstep
    simp only [Option.ite_none_right_eq_some, Option.some.injEq] at hc
    obtain ⟨_, rfl⟩ := hc
    refine Pool.forall_getElem?_set ?_ ?_
    · intro j g hg
      exact enqueues_frame (hs.handlers j g hg) (fun _ hx => hx) rfl rfl rfl ⟨rfl, rfl⟩
    · exact enqueues_frame (hs.handlers i h hh) nofun rfl rfl rfl ⟨rfl, rfl⟩

/-- At all times a request has published the messages of its first rows, in their order and once
each, and a 201 answer, also a repeated one, carries all rows, which have their message by then. -/
theorem answers_enqueued (hrun : (sys svc).MTr initial xs s) (hh : s.handlers[i]? = some h) :
    Numbered i (s.rowsOf i) ∧ s.messagesOf i <+: (s.rowsOf i).map h.message ∧
    ∀ body, h.answer201 = some body → body.deliveries.Perm (s.rowsOf body.id) ∧
      s.messagesOf body.id = (s.rowsOf body.id).map h.message := by
  have hinv : (sys svc).TrInv Enqueued := fun s a t hstep hs => enqueued_step hstep hs
  have hs := LTS.mtrInv_of_trInv hinv hrun enqueued_initial
  obtain ⟨_, hrows, ⟨ds, hds, _⟩, _⟩ := hs.handlers i h hh
  refine ⟨hrows, ⟨_, hds⟩, ?_⟩
  intro body hbody
  have hsource : ∃ (j : ℕ) (g : Handler V), s.handlers[j]? = some g ∧ g.built = some body ∧
      g.payload.priority = h.payload.priority := by
    unfold Handler.answer201 at hbody
    split at hbody <;> simp only [Option.some.injEq, reduceCtorEq] at hbody <;> subst hbody
    · exact ⟨i, h, hh, (hs.traced.own i h hh).created _ ‹_›, rfl⟩
    · obtain ⟨_, j, payload, ⟨g, hg, _, rfl, hbuilt⟩, hsame⟩ := hs.traced.replays i h hh _ _ ‹_›
      refine ⟨j, g, hg, hbuilt, ?_⟩
      simp only [NotificationRequest.same, Bool.and_eq_true, beq_iff_eq] at hsame
      exact hsame.2
  obtain ⟨j, g, hg, hbuilt, hpriority⟩ := hsource
  obtain ⟨hid, _⟩ := (hs.traced.own j g hg).body body hbuilt
  obtain ⟨_, _, ⟨es, hes, _, hdone⟩, hrowsOf⟩ := hs.handlers j g hg
  have hmessage : g.message = h.message := by
    funext d
    simp [Handler.message, hpriority]
  obtain rfl := hdone (Or.inr (by rw [hbuilt]; rfl))
  rw [hid]
  refine ⟨hrowsOf body hbuilt, ?_⟩
  rw [← hmessage, ← hes]
  simp

theorem answers_enqueued_repeated : ∃ s h, (sys plainText).MTr initial repeatRun s ∧
    s.handlers[1]? = some h ∧ h.answer201 = some emailBody ∧
      s.messagesOf 0 = [⟨⟨0, 0, ⟨.email, .pending, 0, none, 0⟩⟩, "high"⟩] := by
  have hrun : (LTS.run (step plainText) initial repeatRun).map
      (fun s => s.handlers.map fun h => (h.payload.priority, h.answer201)) =
        some [(.high, some emailBody), (.high, some emailBody)] := by decide
  obtain ⟨s, hrun', he⟩ := LTS.exists_mTr hrun
  obtain ⟨g, l, hl, _, hmap⟩ := List.map_eq_cons_iff.mp he
  obtain ⟨h, r, rfl, hh', _⟩ := List.map_eq_cons_iff.mp hmap
  obtain ⟨hpriority, hanswer⟩ := Prod.mk.inj hh'
  have hh : s.handlers[1]? = some h := by simp [hl]
  obtain ⟨_, _, hall⟩ := answers_enqueued hrun' hh
  obtain ⟨hrows, hmessages⟩ := hall emailBody hanswer
  have hone : s.rowsOf 0 = [⟨0, 0, ⟨.email, .pending, 0, none, 0⟩⟩] :=
    (List.singleton_perm.mp hrows).symm
  refine ⟨s, h, hrun', hh, hanswer, hmessages.trans ?_⟩
  change (s.rowsOf 0).map h.message = _
  simp [hone, Handler.message, hpriority, queueName, Priority.lower]

end NotificationService.Api
