import Mathlib.Data.List.Count
import NotificationService.Api.FailedRequest

/-! The delivery rows of a request against the preferences that its user can read. -/
namespace NotificationService.Api

open Transition Worker

structure UserPreferenceResponse where
  userId : String
  emailEnabled : Bool
  smsEnabled : Bool
  pushEnabled : Bool
  deriving DecidableEq, Repr

/-- `GET /users/{userId}/preferences`, with its own default for a missing row. -/
def getPreferences (userId : String) : Option UserPreference → UserPreferenceResponse
  | none => ⟨userId, true, true, true⟩
  | some p => ⟨userId, p.emailEnabled, p.smsEnabled, p.pushEnabled⟩

def UserPreferenceResponse.enabled (r : UserPreferenceResponse) : ChannelEnum → Bool
  | .email => r.emailEnabled
  | .sms => r.smsEnabled
  | .push => r.pushEnabled

/-- No list of channels, or one with `c` in it. -/
def includesChannel (channels : Option (List ChannelEnum)) (c : ChannelEnum) : Bool :=
  channels.all fun l => c ∈ l

/-- The list is not empty, unless the user has opted out of everything, and repeats no channel that
the user is opted in to. -/
def Unambiguous (enabled : ChannelEnum → Bool) (channels : Option (List ChannelEnum)) : Prop :=
  ∀ l, channels = some l → ∀ c, enabled c = true → l ≠ [] ∧ l.count c ≤ 1

def Tx.channels {V : Type} (x : Tx V) : List Channel := x.deliveries.map (·.columns.channel)

/-- The channels of the rows inserted so far and still to be inserted, until the commit. -/
def Handler.targets {V : Type} (h : Handler V) : Option (List Channel) :=
  match h.pc with
  | .createNotification _ cs => some (cs.map (·.channel))
  | .insertDelivery cs => h.tx.map fun x => x.channels ++ cs.map (·.channel)
  | .insertLog cs => h.tx.map fun x => x.channels ++ cs.tail.map (·.channel)
  | .commit => h.tx.map (·.channels)
  | _ => none

/-- The commit is behind the handler, or not reached any more. -/
def PC.late {V : Type} : PC V → Bool
  | .applyAsync _ | .reload | .saveResponse _ | .deleteKey _ | .finished _ => true
  | _ => false

/-- The channels of the committed rows of request `i`. -/
def State.channelsOf {V : Type} (s : State V) (i : ℕ) : List Channel :=
  (s.deliveries.filter (·.notificationId = i)).map (·.columns.channel)

variable {V : Type} {s t u : State V} {i j : ℕ} {h h' : Handler V} {f : Effect V}
  {p : Option UserPreference} {channels : Option (List ChannelEnum)} {targets : List Channel}

/-! ### The filter -/

theorem getPreferences_enabled (userId : String) (p : Option UserPreference) :
    (getPreferences userId p).enabled = (p.getD ⟨true, true, true⟩).enabled := by
  funext c
  cases p <;> cases c <;> rfl

theorem count_all (enabled : ChannelEnum → Bool) (c : ChannelEnum) :
    ([.email, .sms, .push].filter enabled).count c = (enabled c).toNat := by
  have hone : [ChannelEnum.email, .sms, .push].count c = 1 := by cases c <;> rfl
  cases he : enabled c with
  | true => rw [List.count_filter he, hone]; rfl
  | false => exact List.count_eq_zero.mpr (by simp [he])

theorem filterChannels_exact (p : Option UserPreference) (channels : Option (List ChannelEnum)) :
    (∀ c, (filterChannels p channels).count c =
      ((p.getD ⟨true, true, true⟩).enabled c && includesChannel channels c).toNat) ↔
    Unambiguous (p.getD ⟨true, true, true⟩).enabled channels := by
  generalize hen : (p.getD ⟨true, true, true⟩).enabled = enabled
  match channels with
  | none => simp [filterChannels, hen, count_all, includesChannel, Unambiguous]
  | some [] =>
    have hok : ∀ c, (enabled c).toNat = 0 ↔ enabled c = false := by
      intro c
      cases enabled c <;> simp
    simp [filterChannels, hen, count_all, includesChannel, Unambiguous, hok]
  | some (b :: l) =>
    have hcount : ∀ c, ((b :: l).filter enabled).count c =
        (enabled c && includesChannel (some (b :: l)) c).toNat ↔
        (enabled c = true → (b :: l).count c ≤ 1) := by
      intro c
      cases he : enabled c with
      | false => simp [List.count_eq_zero, he]
      | true =>
        rw [List.count_filter he]
        by_cases hc : c ∈ b :: l
        · have hpos := List.count_pos_iff.mpr hc
          simp only [includesChannel, Option.all_some, hc, decide_true, Bool.and_self,
            Bool.toNat_true, forall_const]
          omega
        · have hzero := List.count_eq_zero.mpr hc
          simp [includesChannel, hc, hzero]
    simp only [filterChannels, hen, hcount, Unambiguous, Option.some.injEq, forall_eq']
    simp

/-! ### The rows of a transaction -/

theorem targets_nextDelivery {x : Tx V} {cs : List ChannelEnum}
    (heq : x.channels ++ cs.map (·.channel) = targets) :
    ((h.performed (some x)).moved (nextDelivery cs)).targets = some targets := by
  rcases nextDelivery_cases (V := V) cs with hq | hq
  · cases cs with
    | nil => simpa [Handler.targets, Handler.moved, Handler.performed, nextDelivery] using heq
    | cons => cases hq
  · simpa [Handler.targets, Handler.moved, Handler.performed, hq] using heq

theorem late_nextPublish (ds : List DeliveryRow) : (nextPublish ds : PC V).late = true := by
  rcases nextPublish_cases (V := V) ds with hq | hq <;> rw [hq] <;> rfl

/-- A write keeps to the planned channels, and commits no other rows. -/
theorem targets_perform {q : PC V} {tx : Option (Tx V)} (hp : perform s i h = some (q, tx, f))
    (ht : h.targets = some targets) :
    ((h.performed tx).moved q).targets = some targets ∧ (∀ x, f ≠ .commit x) ∨
      q.late = true ∧ ∃ x, f = .commit x ∧ x.channels = targets := by
  unfold perform at hp
  split at hp
  case h_2 templateId cs hpc =>
    simp only [Option.ite_none_left_eq_some, Option.some.injEq, Prod.mk.injEq] at hp
    obtain ⟨_, rfl, rfl, rfl⟩ := hp
    simp only [Handler.targets, hpc, Option.some.injEq] at ht
    exact Or.inl ⟨targets_nextDelivery ht, nofun⟩
  case h_3 c cs x hpc htx =>
    simp only [Option.some.injEq, Prod.mk.injEq] at hp
    obtain ⟨rfl, rfl, rfl⟩ := hp
    simp only [Handler.targets, hpc, htx, Option.map_some, Option.some.injEq] at ht
    refine Or.inl ⟨?_, nofun⟩
    simpa [Handler.targets, Handler.moved, Handler.performed, Tx.channels, createDelivery] using ht
  case h_4 c cs x hpc htx =>
    simp only [Option.some.injEq, Prod.mk.injEq] at hp
    obtain ⟨rfl, rfl, rfl⟩ := hp
    simp only [Handler.targets, hpc, htx, Option.map_some, Option.some.injEq] at ht
    exact Or.inl ⟨targets_nextDelivery ht, nofun⟩
  case h_5 x hpc htx =>
    simp only [Option.some.injEq, Prod.mk.injEq] at hp
    obtain ⟨rfl, rfl, rfl⟩ := hp
    simp only [Handler.targets, hpc, htx, Option.map_some, Option.some.injEq] at ht
    exact Or.inr ⟨late_nextPublish _, x, rfl, ht⟩
  all_goals simp_all [Handler.targets]

theorem writes_of_targets (ht : h.targets = some targets) : h.pc.writes = true := by
  cases hpc : h.pc <;> simp [Handler.targets, hpc, PC.writes] at ht ⊢

theorem committed_of_targets (ht : h.targets = some targets) : h.committed = false := by
  cases hpc : h.pc <;> simp [Handler.targets, hpc] at ht <;> simp [Handler.committed, hpc] <;> rfl

theorem late_cleanup (h : Handler V) (e : ApiError) : (h.cleanup e).late = true := by
  rcases cleanup_cases h e with hq | hq <;> rw [hq] <;> rfl

theorem late_performs {q : PC V} {tx : Option (Tx V)} (hp : Performs s i h q tx f)
    (hl : h.pc.late = true) : q.late = true ∧ ∀ x, f ≠ .commit x := by
  cases hp with
  | applyAsync => exact ⟨late_nextPublish _, nofun⟩
  | saveResponse | deleteKey => exact ⟨rfl, nofun⟩
  | setLock hpc | createNotification hpc | insertDelivery hpc | insertLog hpc | commit hpc =>
    rw [hpc] at hl
    cases hl

theorem late_reads {p q : PC V} (hr : p.Reads q) : p.late = false := by
  cases hr <;> rfl

theorem channelsOf_apply (hf : f.belongs j) (hno : j = i → ∀ x, f ≠ .commit x) :
    (s.apply f).channelsOf i = s.channelsOf i := by
  cases f with
  | commit x =>
    by_cases hji : j = i
    · exact (hno hji x rfl).elim
    · have hnone : x.deliveries.filter (·.notificationId = i) = [] := by
        simp only [List.filter_eq_nil_iff, decide_eq_true_eq]
        exact fun d hd hdi => hji ((hf.2.1 d hd).symm.trans hdi)
      simp [State.channelsOf, State.apply, hnone]
  | _ => rfl

theorem channelsOf_commit {x : Tx V} (hx : x.belongs i) (hs : s.untouched i) :
    (s.apply (.commit x)).channelsOf i = x.channels := by
  have hnone : s.deliveries.filter (·.notificationId = i) = [] := by
    simpa [List.filter_eq_nil_iff] using hs.2.1
  have hall : x.deliveries.filter (·.notificationId = i) = x.deliveries := by
    simpa [List.filter_eq_self] using hx.2.1
  simp [State.channelsOf, State.apply, hnone, hall, Tx.channels]

/-- The handler goes on with these channels, or writes no more rows. -/
def Handler.KeepsTo (targets : List Channel) (h : Handler V) : Prop :=
  h.isOver = true ∨ h.targets = some targets ∨ h.pc.late = true

structure Planned (targets : List Channel) (i : ℕ) (s : State V) : Prop where
  settled : Settled 0 s
  plan : ∃ h, s.handlers[i]? = some h ∧ h.KeepsTo targets
  rows : ∀ n ∈ s.notifications, n.id = i → s.channelsOf i = targets

theorem planned_set (hs : Planned targets i s) (hset : Settled 0 ((s.apply f).setHandler j h'))
    (hh : s.handlers[j]? = some h) (hf : f.belongs j)
    (hplan : j = i → h.KeepsTo targets → h'.KeepsTo targets)
    (hcommit : ∀ x, j = i → f = .commit x → s.untouched i ∧ x.channels = targets) :
    Planned targets i ((s.apply f).setHandler j h') := by
  refine ⟨hset, ?_, ?_⟩
  · rw [setHandler_handlers, apply_handlers]
    exact Pool.exists_getElem?_set hh (fun hij => hplan hij.symm) hs.plan
  · intro n hn hni
    have hchannels : ((s.apply f).setHandler j h').channelsOf i = (s.apply f).channelsOf i := rfl
    rw [hchannels]
    by_cases hcom : j = i ∧ ∃ x, f = .commit x
    · obtain ⟨rfl, x, rfl⟩ := hcom
      obtain ⟨hun, hx⟩ := hcommit x rfl rfl
      exact (channelsOf_commit hf hun).trans hx
    · have hno : j = i → ∀ x, f ≠ .commit x := fun hji x hx => hcom ⟨hji, x, hx⟩
      rw [channelsOf_apply hf hno]
      refine hs.rows n ?_ hni
      cases f with
      | commit x =>
        rcases List.mem_append.mp hn with hold | hnew
        · exact hold
        · obtain rfl := List.mem_singleton.mp hnew
          exact (hno (hf.1.symm.trans hni) x rfl).elim
      | _ => exact hn

variable [BEq V] {svc : TemplateService V} {a : Action V} {xs : List (Action V)}

theorem late_edge {b : Answer} (he : Edge s i h b h' f) (hl : h.pc.late = true) :
    h'.pc.late = true ∧ ∀ x, f ≠ .commit x := by
  cases he with
  | missed hpc | cached hpc =>
    rw [hpc] at hl
    cases hl
  | refused hin => exact ⟨rfl, nofun⟩
  | reads hr => cases (late_reads hr).symm.trans hl
  | failed => exact ⟨late_cleanup _ _, nofun⟩
  | @reloaded n body =>
    refine ⟨?_, nofun⟩
    rcases nextBuilt_cases h body with hq | hq <;> simp only [hq] <;> rfl
  | performed hp => exact late_performs hp hl
  | raised _ hp => exact ⟨late_cleanup _ _, (late_performs hp hl).2⟩
  | lockRaised _ hp | deleteRaised _ hp => exact ⟨rfl, (late_performs hp hl).2⟩
  | deleteFailed => exact ⟨rfl, nofun⟩

/-- The rows to insert stay the same until a commit of exactly these rows, or a failure. -/
theorem targets_next {b : Answer} (hn : next svc s i h b = some (h', f))
    (ht : h.targets = some targets) :
    (h'.targets = some targets ∨ h'.pc.late = true) ∧
      ∀ x, f = .commit x → x.channels = targets := by
  rcases next_write (writes_of_targets ht) hn with ⟨q, tx, hp, hh'⟩ | ⟨rfl, e, rfl⟩
  · rcases targets_perform hp ht with ⟨hsame, hno⟩ | ⟨hlate, x, rfl, hx⟩
    · refine ⟨?_, fun x hf => (hno x hf).elim⟩
      rcases hh' with rfl | ⟨e, rfl⟩
      · exact Or.inl hsame
      · exact Or.inr (late_cleanup _ _)
    · refine ⟨Or.inr ?_, ?_⟩
      · rcases hh' with rfl | ⟨e, rfl⟩
        · exact hlate
        · exact late_cleanup _ _
      · rintro y hy
        cases hy
        exact hx
  · exact ⟨Or.inr (late_cleanup _ _), nofun⟩

/-! ### Steps and runs -/

theorem planned_step (hstep : step svc s a = some t) (hs : Planned targets i s) :
    Planned targets i t := by
  have hset := settled_step (step_cases hstep) hs.settled
  cases a with
  | tick d =>
    cases hstep
    exact ⟨hset, hs.plan, hs.rows⟩
  | request key payload =>
    cases hstep
    exact ⟨hset, Pool.exists_getElem?_concat hs.plan, hs.rows⟩
  | run j b =>
    obtain ⟨h, h', f, hh, ha, hn, rfl⟩ := step_run hstep
    have he := next_edge hn
    have hbelongs := (tidy_edge he (hs.settled.own j h hh (Nat.zero_le j)).1).2
    have hkeep : h.KeepsTo targets → h.targets = some targets ∨ h.pc.late = true := by
      intro hk
      refine hk.resolve_left fun hover => ?_
      simp [Handler.isOver, ha, running_edge he] at hover
    refine planned_set hs hset hh hbelongs ?_ ?_
    · intro _ hk
      rcases hkeep hk with ht | hl
      · exact Or.inr (targets_next hn ht).1
      · exact Or.inr (Or.inr (late_edge he hl).1)
    · rintro x rfl hx
      obtain ⟨g, hg, hk⟩ := hs.plan
      cases hh.symm.trans hg
      rcases hkeep hk with ht | hl
      · refine ⟨hs.settled.quiet j (Nat.zero_le j) ?_, (targets_next hn ht).2 x hx⟩
        intro g hg
        cases hh.symm.trans hg
        exact committed_of_targets ht
      · exact ((late_edge he hl).2 x hx).elim
  | crash j =>
    cases step_cases hstep with
    | crash hh =>
      exact planned_set (f := .none) hs hset hh trivial (fun _ _ => Or.inl rfl) (by simp)
  | rollback j =>
    cases step_cases hstep with
    | rollback hh hover =>
      exact planned_set (f := .none) hs hset hh trivial (fun _ _ => Or.inl hover) (by simp)

/-- From the moment that a handler reads the preference. -/
theorem planned_read (hs : Settled 0 s) (hh : s.handlers[i]? = some h)
    (hread : step svc s (.run i (.preference p)) = some t) :
    Planned ((filterChannels p h.payload.channels).map (·.channel)) i t := by
  have hset := settled_step (step_cases hread) hs
  obtain ⟨g, h', f, hg, _, hn, rfl⟩ := step_run hread
  cases hh.symm.trans hg
  cases hpc : h.pc <;> simp only [next, hpc, reduceCtorEq] at hn
  case getPreference templateId =>
    simp only [Option.some.injEq, Prod.mk.injEq] at hn
    obtain ⟨rfl, rfl⟩ := hn
    have hlt := (List.getElem?_eq_some_iff.mp hh).1
    let targets := filterChannels p h.payload.channels
    refine ⟨hset, ⟨h.moved (.createNotification templateId targets), ?_, Or.inr (Or.inl rfl)⟩, ?_⟩
    · rw [setHandler_handlers, apply_handlers]
      exact List.getElem?_set_self hlt
    · intro n hn hni
      have hun : s.untouched i := by
        refine hs.quiet i (Nat.zero_le i) fun g hg => ?_
        cases hh.symm.trans hg
        rw [Handler.committed, hpc]
        rfl
      exact (hun.1 n hn hni).elim

theorem channel_injective : Function.Injective ChannelEnum.channel := by
  intro c d hcd
  cases c <;> cases d <;> first | rfl | cases hcd

/-- The rows of a created notification are for channels of the enumeration, one for each channel
that is enabled and requested, if and only if the request is unambiguous. -/
theorem target_channels {ys : List (Action V)} {n : Notification V}
    (hrun : (sys svc).MTr initial xs s) (hh : s.handlers[i]? = some h)
    (hread : (sys svc).Tr s (.run i (.preference p)) t) (hrest : (sys svc).MTr t ys u)
    (hn : n ∈ u.notifications) (hni : n.id = i) :
    (∀ ch ∈ u.channelsOf i, ∃ c : ChannelEnum, ch = c.channel) ∧
    ((∀ c : ChannelEnum, (u.channelsOf i).count c.channel =
        ((getPreferences h.payload.userId p).enabled c &&
          includesChannel h.payload.channels c).toNat) ↔
      Unambiguous (getPreferences h.payload.userId p).enabled h.payload.channels) := by
  have hsettled : (sys svc).TrInv (Settled 0) := by
    intro s a t hstep hs
    exact settled_step (sys_step hstep) hs
  have hinv : (sys svc).TrInv
      (Planned ((filterChannels p h.payload.channels).map (·.channel)) i) := by
    intro s a t hstep hs
    exact planned_step hstep hs
  have hs := LTS.mtrInv_of_trInv hsettled hrun (settled_idle idle_initial)
  have hu := LTS.mtrInv_of_trInv hinv hrest (planned_read hs hh hread)
  rw [hu.rows n hn hni, getPreferences_enabled, ← filterChannels_exact]
  constructor
  · intro ch hch
    obtain ⟨c, _, rfl⟩ := List.mem_map.mp hch
    exact ⟨c, rfl⟩
  · simp only [List.count_map_of_injective _ _ channel_injective]

/-- A request for these channels, up to the read of the preference. -/
def readSteps (channels : Option (List ChannelEnum)) : List (Action Unit) :=
  [.request none { emailRequest with channels := channels }, .run 0 .ok,
    .run 0 (.template (some welcomeTemplate))]

/-- The rows of `n` deliveries, and the commit. -/
def rowSteps (n : ℕ) : List (Action Unit) := List.replicate (2 * n + 2) (.run 0 .ok)

theorem target_channels_filtered : ∃ s t u,
    (sys plainText).MTr initial (readSteps (some [.email, .sms])) s ∧
    (sys plainText).Tr s (.run 0 (.preference (some ⟨true, false, true⟩))) t ∧
    (sys plainText).MTr t (rowSteps 1) u ∧
    ∀ c : ChannelEnum, (u.channelsOf 0).count c.channel = (c = .email : Bool).toNat := by
  have hrun : ((LTS.run (step plainText) initial (readSteps (some [.email, .sms]))).bind fun s =>
      (LTS.run (step plainText) s [.run 0 (.preference (some ⟨true, false, true⟩))]).bind fun t =>
        (LTS.run (step plainText) t (rowSteps 1)).map fun u =>
          (s.handlers.map (·.payload), u.notifications.map (·.id))) =
      some ([{ emailRequest with channels := some [.email, .sms] }], [0]) := by decide
  obtain ⟨s, hs, hrun⟩ := Option.bind_eq_some_iff.mp hrun
  obtain ⟨t, u, ht, hu, he⟩ := LTS.exists_mTrs hrun
  obtain ⟨hpayload, hid⟩ := Prod.mk.inj he
  obtain ⟨h, _, hl, hp, _⟩ := List.map_eq_cons_iff.mp hpayload
  obtain ⟨n, _, hn, hni, _⟩ := List.map_eq_cons_iff.mp hid
  have hread := LTS.tr_of_mTr_singleton ht
  obtain ⟨_, hiff⟩ := target_channels (h := h) (i := 0) (n := n) (LTS.mTr_ofStep.mpr hs)
    (by simp [hl]) hread hu (by simp [hn]) hni
  rw [hp] at hiff
  have hcount := hiff.mpr (by
    intro l hl c _
    cases hl
    cases c <;> decide)
  refine ⟨s, t, u, LTS.mTr_ofStep.mpr hs, hread, hu, fun c => ?_⟩
  rw [hcount c]
  cases c <;> rfl

/-- Two rows for a channel that is named twice, and a row for SMS although the list is empty. -/
theorem targeted_otherwise :
    (∃ u, (sys plainText).MTr initial
        (readSteps (some [.email, .email]) ++ .run 0 (.preference none) :: rowSteps 2) u ∧
      (u.channelsOf 0).count .email = 2) ∧
    ∃ u, (sys plainText).MTr initial
        (readSteps (some []) ++ .run 0 (.preference none) :: rowSteps 3) u ∧
      (u.channelsOf 0).count .sms = 1 ∧ includesChannel (some []) .sms = false := by
  constructor
  · have hrun : (LTS.run (step plainText) initial (readSteps (some [.email, .email]) ++
        .run 0 (.preference none) :: rowSteps 2)).map (fun u => (u.channelsOf 0).count .email) =
        some 2 := by decide
    exact LTS.exists_mTr hrun
  · have hrun : (LTS.run (step plainText) initial (readSteps (some []) ++
        .run 0 (.preference none) :: rowSteps 3)).map (fun u => (u.channelsOf 0).count .sms) =
        some 1 := by decide
    obtain ⟨u, hu, hc⟩ := LTS.exists_mTr hrun
    exact ⟨u, hu, hc, rfl⟩

end NotificationService.Api
