import NotificationService.Api.Progress
import NotificationService.Api.TargetChannels
import NotificationService.Deployment.Content

/-! An opt-out that is committed holds for every request that reads the preferences after it, up to
the call of the provider. -/
namespace NotificationService.Deployment

open Transition

variable {V : Type} {s t : State V} {i : ℕ} {c : Api.ChannelEnum} {userId : String}

/-- The handler has not read the preferences yet. -/
def unread : Api.PC V → Bool
  | .getEntry | .setLock | .checkRateLimit | .getTemplate | .getPreference _ => true
  | _ => false

/-- The user has opted out of the channel. -/
def State.optedOut (userId : String) (c : Api.ChannelEnum) (s : State V) : Bool :=
  (s.preferences.rows userId).any fun p => !p.enabled c

/-- Request `i` has still to read the preferences, or has no row to insert for the channel. -/
structure Spared (c : Api.ChannelEnum) (i : ℕ) (u : Api.State V) : Prop where
  settled : Api.Settled 0 u
  plan : (∀ h, u.handlers[i]? = some h → unread h.pc = true) ∨
    ∃ targets, c.channel ∉ targets ∧ Api.Planned targets i u

theorem not_mem_filterChannels {p : Option Api.UserPreference}
    {requested : Option (List Api.ChannelEnum)} (hp : p.any (fun p => !p.enabled c) = true) :
    c.channel ∉ (Api.filterChannels p requested).map (·.channel) := by
  rw [List.mem_map_of_injective Api.channel_injective]
  cases p with
  | none => cases hp
  | some p =>
    have hoff : p.enabled c = false := by simpa using hp
    unfold Api.filterChannels
    split <;> simp [hoff]

theorem committed_unread {h : Api.Handler V} (hu : unread h.pc = true) : h.committed = false := by
  unfold Api.Handler.committed
  cases hpc : h.pc <;> simp_all [unread, Api.PC.committed, Api.PC.durable]

theorem unread_start (key : Option String) (payload : Api.NotificationRequest V) :
    unread (Api.start key payload).pc = true := by
  rcases Api.start_cases key payload with hpc | hpc <;> rw [hpc] <;> rfl

theorem unread_performs {u : Api.State V} {h : Api.Handler V} {q : Api.PC V}
    {tx : Option (Api.Tx V)} {f : Api.Effect V} (hp : Api.Performs u i h q tx f)
    (hu : unread h.pc = true) : unread q = true := by
  cases hp with
  | setLock => rfl
  | createNotification hpc | insertDelivery hpc | insertLog hpc | commit hpc | applyAsync hpc
  | saveResponse hpc | deleteKey hpc =>
    rw [hpc] at hu
    cases hu

/-- The answer to the read of the preferences is the row of the user. -/
theorem answer_preference {h : Api.Handler V} {a : Api.Answer} {p : Option Api.UserPreference}
    (hb : s.answer h a = some (.preference p)) : p = s.preferences.rows h.payload.userId := by
  cases a with
  | ok =>
    cases hpc : h.pc <;> simp only [State.answer, hpc, Option.some.injEq, reduceCtorEq,
      Api.Answer.preference.injEq] at hb
    exact hb.symm
  | _ => cases hb

theorem resolve_preference {b : Api.Action V} {p : Option Api.UserPreference}
    (hb : s.resolve b = some (.run i (.preference p))) {h : Api.Handler V}
    (hh : s.api.handlers[i]? = some h) : p = s.preferences.rows h.payload.userId := by
  cases b with
  | run j a =>
    obtain ⟨g, hg, hb⟩ := Option.bind_eq_some_iff.mp hb
    obtain ⟨a', ha, heq⟩ := Option.map_eq_some_iff.mp hb
    cases heq
    cases hh.symm.trans hg
    exact answer_preference ha
  | _ => cases hb

/-- A spared request has no row for the channel. -/
theorem spared_rows {u : Api.State V} (hs : Spared c i u) {d : Api.DeliveryRow}
    (hd : d ∈ u.deliveries) (hid : d.notificationId = i) : d.columns.channel ≠ c.channel := by
  -- Only a request that has committed has a row.
  obtain ⟨h, hh, hcommitted⟩ : ∃ h, u.handlers[i]? = some h ∧ h.committed = true := by
    by_contra hnone
    refine (hs.settled.quiet i (Nat.zero_le i) fun h hh => ?_).2.1 d hd hid
    exact Bool.eq_false_iff.mpr fun hc => hnone ⟨h, hh, hc⟩
  rcases hs.plan with hunread | ⟨targets, hout, hplan⟩
  · rw [committed_unread (hunread h hh)] at hcommitted
    cases hcommitted
  · obtain ⟨n, hn, hni⟩ := (hs.settled.own i h hh (Nat.zero_le i)).2 hcommitted
    have hmem : d.columns.channel ∈ u.channelsOf i :=
      List.mem_map_of_mem (List.mem_filter.mpr ⟨hd, decide_eq_true hid⟩)
    rw [hplan.rows n hn hni] at hmem
    rintro heq
    exact hout (heq ▸ hmem)

variable [BEq V] {svc : TemplateService V} {queues : List String} {a : Action V}
  {xs ys : List (Action V)}

/-- The answer to the read of the preferences is a row, or none, or an error. -/
theorem preference_next {u : Api.State V} {h h' : Api.Handler V} {b : Api.Answer}
    {f : Api.Effect V} {n : ℕ} (hn : Api.next svc u i h b = some (h', f))
    (hpc : h.pc = .getPreference n) : h'.pc.late = true ∨ ∃ p, b = .preference p := by
  cases b with
  | preference p => exact Or.inr ⟨p, rfl⟩
  | raised err applied =>
    cases applied <;> simp [Api.next, Api.perform, hpc] at hn
    obtain ⟨rfl, _⟩ := hn
    exact Or.inl (Api.late_cleanup h _)
  | _ => simp [Api.next, Api.perform, hpc] at hn

/-- Before it reads the preferences a handler writes nothing. -/
theorem unread_next {u : Api.State V} {h h' : Api.Handler V} {b : Api.Answer} {f : Api.Effect V}
    (hn : Api.next svc u i h b = some (h', f)) (hu : unread h.pc = true) :
    f.silent = true ∧ (unread h'.pc = true ∨ h'.pc.late = true ∨ ∃ p, b = .preference p) := by
  have he := Api.next_edge hn
  refine ⟨?_, ?_⟩
  · cases Api.publishes_edge he with
    | silent hsilent => exact hsilent
    | committed hpc | published hpc =>
      rw [hpc] at hu
      cases hu
  · cases he with
    | missed => exact Or.inl rfl
    | cached | refused | lockRaised | deleteFailed | deleteRaised => exact Or.inr (Or.inl rfl)
    | failed | raised => exact Or.inr (Or.inl (Api.late_cleanup h _))
    | reloaded hpc =>
      rw [hpc] at hu
      cases hu
    | performed hp => exact Or.inl (unread_performs hp hu)
    | reads hr =>
      generalize hpc : h.pc = p at hr
      cases hr with
      | getPreference => exact Or.inr (preference_next hn hpc)
      | _ => exact Or.inl rfl

theorem spared_request {u v : Api.State V} {b : Api.Action V} (hs : Spared c i u)
    (hstep : (Api.sys svc).Tr u b v)
    (hread : ∀ p h, b = .run i (.preference p) → u.handlers[i]? = some h →
      c.channel ∉ (Api.filterChannels p h.payload.channels).map (·.channel)) : Spared c i v := by
  have hsettled := Api.settled_step (Api.sys_step hstep) hs.settled
  refine ⟨hsettled, ?_⟩
  rcases hs.plan with hunread | ⟨targets, hout, hplan⟩
  case inr => exact Or.inr ⟨targets, hout, Api.planned_step hstep hplan⟩
  have hall : ∀ j h, u.handlers[j]? = some h → j = i → unread h.pc = true := by
    rintro j h hh rfl
    exact hunread h hh
  have hset : ∀ (j : ℕ) (g : Api.Handler V), (j = i → unread g.pc = true) →
      ∀ h, (u.handlers.set j g)[i]? = some h → unread h.pc = true :=
    fun j g hg h hh => Pool.forall_getElem?_set hall hg i h hh rfl
  cases b with
  | tick d =>
    cases hstep
    exact Or.inl hunread
  | request key payload =>
    cases hstep
    have hnew := Pool.forall_getElem?_concat hall fun _ => unread_start key payload
    exact Or.inl fun h hh => hnew i h hh rfl
  | crash j =>
    cases Api.sys_step hstep with
    | @crash _ g hg => exact Or.inl (hset j { g with alive := false } (hall j g hg))
  | rollback j =>
    cases Api.sys_step hstep with
    | @rollback _ g hg => exact Or.inl (hset j { g with tx := none } (hall j g hg))
  | run j b =>
    obtain ⟨h, h', f, hh, _, hn, rfl⟩ := Api.step_run hstep
    rw [Api.setHandler_handlers, Api.apply_handlers]
    by_cases hij : j = i
    · subst hij
      have hlt := (List.getElem?_eq_some_iff.mp hh).1
      have hself := List.getElem?_set_self (a := h') hlt
      obtain ⟨hsilent, hkept | hlate | ⟨p, rfl⟩⟩ := unread_next hn (hunread h hh)
      · refine Or.inl fun g hg => ?_
        cases hself.symm.trans hg
        exact hkept
      · refine Or.inr ⟨[], by simp, hsettled, ⟨h', ?_, Or.inr (Or.inr hlate)⟩, ?_⟩
        · rw [Api.setHandler_handlers, Api.apply_handlers]
          exact hself
        · intro n hn hid
          have hquiet : u.untouched j := by
            refine hs.settled.quiet j (Nat.zero_le j) fun g hg => ?_
            exact committed_unread (hunread g hg)
          exact absurd hid ((Api.untouched_silent hsilent hquiet).1 n hn)
      · exact Or.inr ⟨_, hread p h rfl hh, Api.planned_read hs.settled hh hstep⟩
    · exact Or.inl (hset j h' fun hj => absurd hj hij)

/-! ### The deployed system -/

/-- The step does not opt the user in again. -/
def KeepsOptOut (svc : TemplateService V) (queues : List String) (userId : String)
    (c : Api.ChannelEnum) (s : State V) (a : Action V) : Prop :=
  (step svc queues s a).all (·.optedOut userId c) = true

instance (svc : TemplateService V) (queues : List String) (s : State V) (a : Action V) :
    Decidable (KeepsOptOut svc queues userId c s a) := inferInstanceAs (Decidable (_ = true))

/-- The request is of another user, or spares the channel. -/
structure OptedOut (userId : String) (c : Api.ChannelEnum) (i : ℕ) (s : State V) : Prop where
  stored : s.optedOut userId c = true
  request : (∃ h, s.api.handlers[i]? = some h ∧ h.payload.userId ≠ userId) ∨ Spared c i s.api

theorem optedOut_step (hstep : (sys svc queues).Tr s a t)
    (hkeep : KeepsOptOut svc queues userId c s a) (hs : OptedOut userId c i s) :
    OptedOut userId c i t := by
  have hstored : t.optedOut userId c = true := by
    have hnext : step svc queues s a = some t := hstep
    simpa [KeepsOptOut, hnext] using hkeep
  refine ⟨hstored, ?_⟩
  rcases api_cases (sys_step hstep) with heq | ⟨b, d, _, hd, hu⟩
  · rw [heq]
    exact hs.request
  · by_cases hother : ∃ h, s.api.handlers[i]? = some h ∧ h.payload.userId ≠ userId
    · obtain ⟨h, hh, hne⟩ := hother
      obtain ⟨g, hg, hpayload⟩ := Api.payload_step (Api.sys_step hu) ⟨h, hh, rfl⟩
      exact Or.inl ⟨g, hg, hpayload ▸ hne⟩
    · refine Or.inr (spared_request (hs.request.resolve_left hother) hu ?_)
      rintro p h rfl hh
      have huser : h.payload.userId = userId := by
        by_contra hne
        exact hother ⟨h, hh, hne⟩
      rw [resolve_preference hd hh, huser]
      exact not_mem_filterChannels hs.stored

/-- Once a user has opted out of a channel, and until the user opts in again, no request that reads
the preferences then stores a delivery on the channel, and the providers are called for its
deliveries on other channels only. -/
theorem opt_out_respected (hrun : (sys svc queues).MTr initial xs s)
    (hout : s.optedOut userId c = true)
    (hunread : ∀ h, s.api.handlers[i]? = some h → unread h.pc = true)
    (hlater : ((sys svc queues).restrict (KeepsOptOut svc queues userId c)).MTr s ys t)
    {h : Api.Handler V} (hh : t.api.handlers[i]? = some h) (huser : h.payload.userId = userId) :
    (∀ d ∈ t.deliveries, d.notificationId = i → d.columns.channel ≠ c.channel) ∧
    ∀ e ∈ t.execs, e.delivery.1 = i → ∀ out d, e.pc = .sending out d →
      ∃ c', c' ≠ c ∧ out.target = targetOf userId c' := by
  have hs := faithful_run_initial hrun
  have hinv : ((sys svc queues).restrict (KeepsOptOut svc queues userId c)).TrInv
      (OptedOut userId c i) := by
    rintro s a t ⟨hkeep, hstep⟩ hs
    exact optedOut_step hstep hkeep hs
  have hspare : Spared c i s.api := ⟨hs.1.enqueued.settled, Or.inl hunread⟩
  have hopt := LTS.mtrInv_of_trInv hinv hlater ⟨hout, Or.inr hspare⟩
  have ht := (LTS.mtrInv_of_trInv faithful_trInv hlater.of_restrict hs).2
  have hspared : Spared c i t.api := by
    refine hopt.request.resolve_left ?_
    rintro ⟨g, hg, hne⟩
    cases hh.symm.trans hg
    exact hne huser
  refine ⟨?_, ?_⟩
  · rintro d hd rfl
    obtain ⟨r, hr, hid, hchannel⟩ := (ht.rows d hd).1
    rw [← hchannel]
    exact spared_rows hspared hr (congrArg Prod.fst hid)
  · rintro e he rfl out d hpc
    have hheld := ht.execs e he
    rw [hpc] at hheld
    obtain ⟨c', g, r, ⟨x, hx, hid, hchannel⟩, hg, _, rfl⟩ := hheld
    cases hh.symm.trans hg
    refine ⟨c', ?_, by rw [huser]⟩
    rintro rfl
    exact spared_rows hspared hx (congrArg Prod.fst hid) hchannel

def optOutSteps : List (Action Unit) :=
  [.preference (.request "user_happy" ⟨true, false, true⟩), .preference (.run 0),
    .preference (.run 0)]

/-- A notification for two channels, up to the call of the provider for the one that is left. -/
def optedOutSteps : List (Action Unit) :=
  sendSteps.take 12 ++ retrySteps.take 8

theorem opt_out_respected_sent : ∃ s t e out d,
    (sys literalJinja.service workerQueues).MTr initial optOutSteps s ∧
    ((sys literalJinja.service workerQueues).restrict
      (KeepsOptOut literalJinja.service workerQueues "user_happy" .sms)).MTr s optedOutSteps t ∧
    e ∈ t.execs ∧ e.pc = .sending out d ∧
    ∃ c', c' ≠ .sms ∧ out.target = targetOf "user_happy" c' := by
  have hrun : ((LTS.run (step literalJinja.service workerQueues) initial optOutSteps).bind fun s =>
      (LTS.run (LTS.guarded (KeepsOptOut literalJinja.service workerQueues "user_happy" .sms)
        (step literalJinja.service workerQueues)) s optedOutSteps).map fun t =>
          (s.optedOut "user_happy" .sms && s.api.handlers.isEmpty,
            t.api.handlers.map (·.payload.userId),
            t.execs.map fun e => (e.delivery.1, e.inCall))) =
      some (true, ["user_happy"], [(0, true)]) := by decide
  obtain ⟨s, hs, hrun⟩ := Option.bind_eq_some_iff.mp hrun
  obtain ⟨t, ht, he⟩ := LTS.exists_mTr_guarded hrun
  simp only [Prod.mk.injEq, Bool.and_eq_true, List.isEmpty_iff] at he
  obtain ⟨⟨hout, hnone⟩, husers, hexecs⟩ := he
  obtain ⟨h, _, hl, huser, _⟩ := List.map_eq_cons_iff.mp husers
  obtain ⟨e, _, hel, hdelivery, _⟩ := List.map_eq_cons_iff.mp hexecs
  obtain ⟨hid, hcall⟩ := Prod.mk.inj hdelivery
  have hrespected := (opt_out_respected (i := 0) (h := h) (LTS.mTr_ofStep.mpr hs) hout
    (by simp [hnone]) ht (by simp [hl]) huser).2 e (by simp [hel]) hid
  unfold Exec.inCall at hcall
  split at hcall
  · rename_i out d hpc
    exact ⟨s, t, e, out, d, LTS.mTr_ofStep.mpr hs, ht, by simp [hel], hpc, hrespected out d hpc⟩
  · cases hcall

end NotificationService.Deployment
