import NotificationService.Api.Progress
import NotificationService.Api.Limited

/-! The calls of `check_rate_limit` are the requests' own: each notification has an accepted call of
its user behind it, and each 429 a rejected one. -/
namespace NotificationService.Api.Limited

open Transition

variable {V : Type} {s t : State V} {i j k : ℕ} {user : String} {c : RateLimit.Call}

def State.userOf (s : State V) (i : ℕ) : Option String :=
  s.api.handlers[i]?.map (·.payload.userId)

/-- The call that request `i` has made. -/
def State.callOf (s : State V) (i : ℕ) : Option RateLimit.Call :=
  (s.userOf i).bind fun user => (s.call i).bind fun j => (s.limiters user).calls[j]?

theorem callOf_eq (hu : s.userOf i = some user) (hj : s.call i = some j) :
    s.callOf i = (s.limiters user).calls[j]? := by
  rw [State.callOf, hu, Option.bind_some, hj, Option.bind_some]

theorem callOf_cases (hc : s.callOf i = some c) : ∃ user j, s.userOf i = some user ∧
    s.call i = some j ∧ (s.limiters user).calls[j]? = some c := by
  obtain ⟨user, hu, hc⟩ := Option.bind_eq_some_iff.mp hc
  obtain ⟨j, hj, hc⟩ := Option.bind_eq_some_iff.mp hc
  exact ⟨user, j, hu, hj, hc⟩

/-- Requests keep their users and their calls, and calls their readings and outcomes. -/
structure Extends (s t : State V) : Prop where
  users : ∀ i user, s.userOf i = some user → t.userOf i = some user
  call : ∀ i j, s.call i = some j → t.call i = some j
  calls : ∀ (user : String) (j : ℕ) (c : RateLimit.Call), (s.limiters user).calls[j]? = some c →
    ∃ d, (t.limiters user).calls[j]? = some d ∧ d.now = c.now ∧ (c.isOver = true → d = c)

theorem Extends.callOf (he : Extends s t) (hc : s.callOf i = some c) :
    ∃ d, t.callOf i = some d ∧ d.now = c.now ∧ (c.isOver = true → d = c) := by
  obtain ⟨user, j, hu, hj, hc⟩ := callOf_cases hc
  rw [callOf_eq (he.users i user hu) (he.call i j hj)]
  exact he.calls user j c hc

/-- The call of request `i` has ended in this way. -/
def State.Ended (s : State V) (i : ℕ) (stage : RateLimit.Stage) : Prop :=
  ∃ c, s.callOf i = some c ∧ c.stage = stage

theorem Extends.ended (he : Extends s t) {stage : RateLimit.Stage} (hc : s.Ended i stage)
    (hover : RateLimit.Call.isOver ⟨0, stage⟩ = true) : t.Ended i stage := by
  obtain ⟨c, hc, rfl⟩ := hc
  obtain ⟨d, hd, _, heq⟩ := he.callOf hc
  exact ⟨d, hd, by rw [heq hover]⟩

/-! ### Whose calls they are -/

/-- The calls on the key of a user belong to requests of the user, one to each. -/
structure Linked (s : State V) : Prop where
  placed : ∀ i j, s.call i = some j →
    ∃ user, s.userOf i = some user ∧ j < (s.limiters user).calls.length
  distinct : ∀ i k j, s.userOf i = s.userOf k → s.call i = some j → s.call k = some j → i = k
  owned : ∀ user, ∀ j < (s.limiters user).calls.length,
    ∃ i, s.userOf i = some user ∧ s.call i = some j

theorem linked_initial : Linked (initial : State V) :=
  ⟨nofun, nofun, fun _ _ hj => absurd hj (Nat.not_lt_zero _)⟩

theorem linked_frame (he : Extends s t) (hcall : t.call = s.call)
    (hlength : ∀ user, (t.limiters user).calls.length = (s.limiters user).calls.length)
    (hs : Linked s) : Linked t := by
  refine ⟨fun i j hj => ?_, fun i k j huser hi hk => ?_, fun user j hj => ?_⟩
  · rw [hcall] at hj
    obtain ⟨user, hu, hlt⟩ := hs.placed i j hj
    exact ⟨user, he.users i user hu, hlength user ▸ hlt⟩
  · rw [hcall] at hi hk
    obtain ⟨u, hu, _⟩ := hs.placed i j hi
    obtain ⟨v, hv, _⟩ := hs.placed k j hk
    rw [he.users i u hu, he.users k v hv] at huser
    exact hs.distinct i k j (by rw [hu, hv, huser]) hi hk
  · obtain ⟨i, hu, hi⟩ := hs.owned user j (hlength user ▸ hj)
    exact ⟨i, he.users i user hu, hcall ▸ hi⟩

/-- A request that reads the clock gets the next call of its user. -/
theorem linked_readClock (hs : Linked s) (hu : s.userOf i = some user) (hnone : s.call i = none) :
    Linked { s.setLimiter user (begun (s.limiters user)) with
      call := Function.update s.call i (some (s.limiters user).calls.length) } := by
  have hlength : ∀ v, ((s.setLimiter user (begun (s.limiters user))).limiters v).calls.length =
      (s.limiters v).calls.length + if v = user then 1 else 0 := by
    intro v
    by_cases hv : v = user
    · subst hv
      simp [setLimiter_self, begun]
    · simp [setLimiter_of_ne hv, hv]
  have hne : ∀ m l, s.call m = some l → m ≠ i := by
    rintro m l hm rfl
    cases hm.symm.trans hnone
  have hold : ∀ m, m ≠ i → Function.update s.call i (some (s.limiters user).calls.length) m =
      s.call m := fun m hm => Function.update_of_ne hm _ _
  -- No other request of the user has the new call.
  have hfresh : ∀ m, s.userOf m = some user → s.call m ≠ some (s.limiters user).calls.length := by
    intro m hm hcall
    obtain ⟨v, hv, hlt⟩ := hs.placed m _ hcall
    cases hm.symm.trans hv
    exact Nat.lt_irrefl _ hlt
  refine ⟨fun m l hl => ?_, fun m n l huser hm hn => ?_, fun v l hl => ?_⟩
  · by_cases hm : m = i
    · subst hm
      simp only [Function.update_self, Option.some.injEq] at hl
      subst hl
      exact ⟨user, hu, by rw [hlength, if_pos rfl]; exact Nat.lt_succ_self _⟩
    · simp only [hold m hm] at hl
      obtain ⟨v, hv, hlt⟩ := hs.placed m l hl
      exact ⟨v, hv, by rw [hlength]; omega⟩
  · change s.userOf m = s.userOf n at huser
    by_cases hmi : m = i <;> by_cases hni : n = i
    · exact hmi.trans hni.symm
    · subst hmi
      simp only [Function.update_self, Option.some.injEq, hold n hni] at hm hn
      exact absurd (hm ▸ hn) (hfresh n (huser ▸ hu))
    · subst hni
      simp only [Function.update_self, Option.some.injEq, hold m hmi] at hm hn
      exact absurd (hn ▸ hm) (hfresh m (huser ▸ hu))
    · simp only [hold m hmi, hold n hni] at hm hn
      exact hs.distinct m n l huser hm hn
  · rw [hlength] at hl
    by_cases hlt : l < (s.limiters v).calls.length
    · obtain ⟨m, hm, hcall⟩ := hs.owned v l hlt
      exact ⟨m, hm, (hold m (hne m l hcall)).trans hcall⟩
    · split at hl
      · subst v
        obtain rfl : l = (s.limiters user).calls.length := by omega
        exact ⟨i, hu, Function.update_self ..⟩
      · omega

/-! ### Steps -/

/-- The request is past `check_rate_limit` and has not ended. -/
def cleared : Api.PC V → Bool
  | .getEntry | .setLock | .checkRateLimit | .deleteKey _ | .finished _ => false
  | _ => true

theorem cleared_cleanup (h : Handler V) (e : ApiError) : cleared (h.cleanup e) = false := by
  rcases cleanup_cases h e with hq | hq <;> rw [hq] <;> rfl

theorem cleared_performs {u : Api.State V} {h : Handler V} {q : Api.PC V} {tx : Option (Tx V)}
    {f : Effect V} (hp : Performs u i h q tx f) (hq : cleared q = true) :
    cleared h.pc = true := by
  cases hp with
  | createNotification hpc | insertDelivery hpc | insertLog hpc | commit hpc | applyAsync hpc =>
    rw [hpc]
    rfl
  | setLock | saveResponse | deleteKey => cases hq

variable [BEq V] {cfg : RateLimit.Settings} {svc : TemplateService V} {a : Action V}
  {xs : List (Action V)} {u : Api.State V} {h h' : Handler V} {b : Answer} {f : Effect V} {r : ℤ}

/-- Elsewhere than in `check_rate_limit` no request is let through. -/
theorem cleared_next (hn : next svc u i h b = some (h', f)) (hq : cleared h'.pc = true)
    (hpc : h.pc ≠ .checkRateLimit) : cleared h.pc = true := by
  cases next_edge hn with
  | missed | cached | refused | lockRaised | deleteFailed | deleteRaised => cases hq
  | failed | raised => cases (cleared_cleanup h _).symm.trans hq
  | reads hr =>
    generalize hp : h.pc = p at hr
    cases hr with
    | checkRateLimit => exact absurd hp hpc
    | getTemplate | getPreference => rfl
  | reloaded hreload =>
    rw [hreload]
    rfl
  | performed hp => exact cleared_performs hp hq

/-- `check_rate_limit` lets a request through only when it returns. -/
theorem cleared_check (hn : next svc u i h b = some (h', f)) (hq : cleared h'.pc = true)
    (hpc : h.pc = .checkRateLimit) : b = .ok := by
  cases b with
  | ok => rfl
  | rateLimited r =>
    simp only [next, hpc, Option.some.injEq, Prod.mk.injEq] at hn
    obtain ⟨rfl, _⟩ := hn
    cases (cleared_cleanup h _).symm.trans hq
  | raised err applied =>
    cases applied with
    | true => simp [next, perform, hpc] at hn
    | false =>
      simp only [next, hpc, Option.some.injEq, Prod.mk.injEq] at hn
      obtain ⟨rfl, _⟩ := hn
      cases (cleared_cleanup h _).symm.trans hq
  | _ => simp [next, hpc] at hn

/-- A 429 comes from `check_rate_limit`. -/
theorem limited_next (hn : next svc u i h b = some (h', f))
    (he : h'.pc.error = some (.rateLimitExceeded r)) :
    h.pc.error = some (.rateLimitExceeded r) ∨ h.pc = .checkRateLimit ∧ b = .rateLimited r := by
  generalize herr : ApiError.rateLimitExceeded r = e at he
  cases raises_next hn he with
  | rateLimited hpc =>
    cases herr
    exact Or.inr ⟨hpc, rfl⟩
  | again hpc =>
    subst herr
    rw [hpc]
    exact Or.inl rfl
  | _ => cases herr

theorem userOf_step (hs : Step cfg svc s a t) (hu : s.userOf i = some user) :
    t.userOf i = some user := by
  obtain ⟨h, hh, rfl⟩ := Option.map_eq_some_iff.mp hu
  obtain ⟨g, hg, hpayload⟩ : ∃ g, t.api.handlers[i]? = some g ∧ g.payload = h.payload := by
    rcases api_step hs with heq | ⟨b, hb⟩
    · exact ⟨h, heq ▸ hh, rfl⟩
    · exact payload_step (Api.sys_step hb) ⟨h, hh, rfl⟩
  rw [State.userOf, hg, Option.map_some, hpayload]

theorem extends_step (hs : Step cfg svc s a t) : Extends s t := by
  refine ⟨fun i user => userOf_step hs, fun i j hj => ?_, fun user j c hc => ?_⟩
  · cases hs with
    | @readClock k _ _ _ hnone =>
      have hne : i ≠ k := by
        rintro rfl
        cases hj.symm.trans hnone
      exact (Function.update_of_ne hne _ _).trans hj
    | _ => exact hj
  · rcases limiter_step hs 0 user with heq | ⟨b, hb, _⟩
    · exact ⟨c, heq ▸ hc, rfl, fun _ => rfl⟩
    · exact RateLimit.call_step (RateLimit.sys_step hb) hc

omit [BEq V] in
theorem length_pipeline {l m : RateLimit.State} {b : RateLimit.Action}
    (hb : (RateLimit.sys cfg).Tr l b m) (hcall : b.call = some j) :
    m.calls.length = l.calls.length := by
  cases RateLimit.moves_step (RateLimit.sys_step hb) with
  | same hnone | starts hnone => cases hnone.symm.trans hcall
  | moves _ _ _ heq => rw [heq, List.length_set]

omit [BEq V] in
theorem length_setLimiter {owner : String} {l : RateLimit.State} {b : RateLimit.Action}
    (hb : (RateLimit.sys cfg).Tr (s.limiters owner) b l) (hcall : b.call = some j) (v : String) :
    ((s.setLimiter owner l).limiters v).calls.length = (s.limiters v).calls.length := by
  by_cases hv : v = owner
  · subst hv
    rw [setLimiter_self, length_pipeline hb hcall]
  · rw [setLimiter_of_ne hv]

omit [BEq V] in
theorem after_calls (b : Api.Action V) (l : RateLimit.State) : (after b l).calls = l.calls := by
  cases b with
  | tick d =>
    simp only [after, elapse]
    split <;> rfl
  | _ => rfl

theorem linked_step (hs : Step cfg svc s a t) (hl : Linked s) : Linked t := by
  have he := extends_step hs
  cases hs with
  | @api b => exact linked_frame he rfl (fun v => by rw [after_calls]) hl
  | readClock hh _ hnone =>
    exact linked_readClock hl (by rw [State.userOf, hh]; rfl) hnone
  | proceeds _ htr | answers _ htr =>
    exact linked_frame he rfl (length_setLimiter htr (action_call _ _)) hl
  | crash _ htr => exact linked_frame he rfl (length_setLimiter htr rfl) hl

/-! ### What a call decides -/

/-- A request that is let through has an accepted call, one that is answered 429 a rejected one. -/
structure Answered (s : State V) (i : ℕ) (h : Handler V) : Prop where
  accepted : cleared h.pc = true → s.Ended i .accepted
  rejected : ∀ r, h.pc.error = some (.rateLimitExceeded r) → s.Ended i (.rejected r)

structure Decided (s : State V) : Prop where
  handlers : ∀ (i : ℕ) (h : Handler V), s.api.handlers[i]? = some h → Answered s i h
  rows : ∀ n ∈ s.api.notifications, s.userOf n.id = some n.userId ∧ s.Ended n.id .accepted

omit [BEq V] in
theorem Answered.mono (ha : Answered s i h) (he : Extends s t) (hpc : h'.pc = h.pc) :
    Answered t i h' :=
  ⟨fun hq => he.ended (ha.accepted (hpc ▸ hq)) rfl,
    fun r hr => he.ended (ha.rejected r (hpc ▸ hr)) rfl⟩

omit [BEq V] in
theorem rows_mono (hs : Decided s) (he : Extends s t) :
    ∀ n ∈ s.api.notifications, t.userOf n.id = some n.userId ∧ t.Ended n.id .accepted :=
  fun n hn => ⟨he.users _ _ (hs.rows n hn).1, he.ended (hs.rows n hn).2 rfl⟩

omit [BEq V] in
theorem decided_same (hs : Decided s) (he : Extends s t) (heq : t.api = s.api) : Decided t := by
  refine ⟨fun i h hh => ?_, fun n hn => ?_⟩
  · exact (hs.handlers i h (heq ▸ hh)).mono he rfl
  · exact rows_mono hs he n (heq ▸ hn)

/-- A row is inserted for a request that was let through. -/
theorem rows_run (hs : Decided s) (he : Extends s t) (ha : Enqueued s.api)
    (hh : s.api.handlers[i]? = some h) (hn : next svc s.api i h b = some (h', f)) :
    ∀ n ∈ (s.api.apply f).notifications,
      t.userOf n.id = some n.userId ∧ t.Ended n.id .accepted := by
  have hold := rows_mono hs he
  have hpub := publishes_edge (next_edge hn)
  cases f with
  | commit x =>
    refine Pool.forall_concat hold ?_
    cases hpub with
    | silent hsilent => cases hsilent
    | committed hpc htx =>
      obtain ⟨hid, huser, _⟩ := (ha.traced.own i h hh).tx x htx
      rw [hid, huser]
      refine ⟨he.users i _ (by rw [State.userOf, hh]; rfl), he.ended ?_ rfl⟩
      exact (hs.handlers i h hh).accepted (by rw [hpc]; rfl)
  | _ => exact hold

theorem decided_api {b : Api.Action V} (hs : Decided s) (he : Extends s t) (ha : Enqueued s.api)
    (hu : (Api.sys svc).Tr s.api b t.api)
    (hrun : ∀ i x h h' f, b = .run i x → s.api.handlers[i]? = some h →
      next svc s.api i h x = some (h', f) → Answered t i h') : Decided t := by
  have hold : ∀ j g, s.api.handlers[j]? = some g → Answered t j g :=
    fun j g hg => (hs.handlers j g hg).mono he rfl
  generalize hv : t.api = v at hu
  suffices hboth : (∀ j g, v.handlers[j]? = some g → Answered t j g) ∧
      ∀ n ∈ v.notifications, t.userOf n.id = some n.userId ∧ t.Ended n.id .accepted from
    ⟨hv.symm ▸ hboth.1, hv.symm ▸ hboth.2⟩
  cases b with
  | run i x =>
    obtain ⟨h, h', f, hh, _, hn, rfl⟩ := step_run hu
    refine ⟨?_, rows_run hs he ha hh hn⟩
    rw [setHandler_handlers, apply_handlers]
    exact Pool.forall_getElem?_set hold (hrun i x h h' f rfl hh hn)
  | tick d =>
    cases hu
    exact ⟨hold, rows_mono hs he⟩
  | request key payload =>
    cases hu
    refine ⟨Pool.forall_getElem?_concat hold ⟨fun hq => ?_, fun r hr => ?_⟩, rows_mono hs he⟩
    · rcases start_cases key payload with hpc | hpc <;> rw [hpc] at hq <;> cases hq
    · rcases start_cases key payload with hpc | hpc <;> rw [hpc] at hr <;> cases hr
  | crash i =>
    cases Api.sys_step hu with
    | crash hh =>
      exact ⟨Pool.forall_getElem?_set hold ((hs.handlers i _ hh).mono he rfl), rows_mono hs he⟩
  | rollback i =>
    cases Api.sys_step hu with
    | rollback hh =>
      exact ⟨Pool.forall_getElem?_set hold ((hs.handlers i _ hh).mono he rfl), rows_mono hs he⟩

omit [BEq V] in
theorem answer_ok {p : Pipeline} {stage : RateLimit.Stage} (hb : p.answer stage = some .ok) :
    stage = .accepted := by
  cases p <;> cases stage <;> simp_all [Pipeline.answer]

omit [BEq V] in
theorem answer_limited {p : Pipeline} {stage : RateLimit.Stage}
    (hb : p.answer stage = some (.rateLimited r)) : stage = .rejected r := by
  cases p <;> cases stage <;> simp_all [Pipeline.answer]

/-- An operation outside leaves the decision as it was. -/
theorem answered_outside (hs : Answered s i h) (he : Extends s t) (hpc : h.pc ≠ .checkRateLimit)
    (hn : next svc u i h b = some (h', f)) : Answered t i h' := by
  refine ⟨fun hq => he.ended (hs.accepted (cleared_next hn hq hpc)) rfl, fun r hr => ?_⟩
  rcases limited_next hn hr with hold | ⟨hcheck, _⟩
  · exact he.ended (hs.rejected r hold) rfl
  · exact absurd hcheck hpc

/-- The end of `check_rate_limit` is decided by the call. -/
theorem answered_check {p : Pipeline} (hc : t.callOf i = some c) (hb : p.answer c.stage = some b)
    (hpc : h.pc = .checkRateLimit) (hn : next svc u i h b = some (h', f)) : Answered t i h' := by
  refine ⟨fun hq => ⟨c, hc, ?_⟩, fun r hr => ⟨c, hc, ?_⟩⟩
  · obtain rfl := cleared_check hn hq hpc
    exact answer_ok hb
  · rcases limited_next hn hr with hold | ⟨_, rfl⟩
    · rw [hpc] at hold
      cases hold
    · exact answer_limited hb

theorem decided_step (hstep : Step cfg svc s a t) (ha : Enqueued s.api) (hs : Decided s) :
    Decided t := by
  have he := extends_step hstep
  cases hstep with
  | @api b _ hout hu =>
    refine decided_api hs he ha hu ?_
    rintro i x h h' f rfl hh hn
    refine answered_outside (hs.handlers i h hh) he (fun hpc => ?_) hn
    simp [State.outside, hh, hpc, limiting] at hout
  | readClock | proceeds => exact decided_same hs he rfl
  | @answers i j h p l c b u hcall _ hc hb hu =>
    refine decided_api hs he ha hu ?_
    rintro _ _ g h' f heq hg hn
    cases heq
    cases hcall.handler.symm.trans hg
    have huser : s.userOf i = some h.payload.userId := by rw [State.userOf, hcall.handler]; rfl
    refine answered_check ?_ hb hcall.pc hn
    rw [callOf_eq (he.users i _ huser) hcall.call]
    change ((s.setLimiter h.payload.userId l).limiters h.payload.userId).calls[j]? = some c
    rw [setLimiter_self, hc]
  | crash _ _ hu => exact decided_api hs he ha hu (fun _ _ _ _ _ heq => by cases heq)

end NotificationService.Api.Limited
