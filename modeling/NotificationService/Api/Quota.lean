import NotificationService.Api.Admission

/-! The rate limit as the requests see it: how many notifications of a user are let through, and why
a request is answered 429. -/
namespace NotificationService.Api.Limited

open Transition

variable {V : Type} [BEq V] {cfg : RateLimit.Settings} {svc : TemplateService V} {s t : State V}
  {a : Action V} {xs : List (Action V)} {i k : ℕ} {h : Handler V} {r : ℤ}

structure Sound (s : State V) : Prop where
  enqueued : Enqueued s.api
  stored : Stored s.api
  linked : Linked s
  decided : Decided s

theorem sound_step (hstep : Step cfg svc s a t) (hs : Sound s) : Sound t := by
  refine ⟨?_, ?_, linked_step hstep hs.linked, decided_step hstep hs.enqueued hs.decided⟩
  · rcases api_step hstep with heq | ⟨b, hb⟩
    · exact heq ▸ hs.enqueued
    · exact enqueued_step hb hs.enqueued
  · rcases api_step hstep with heq | ⟨b, hb⟩
    · exact heq ▸ hs.stored
    · exact stored_step (Api.sys_step hb) hs.enqueued hs.stored

theorem sound_run (hrun : (sys cfg svc).MTr initial xs s) : Sound s := by
  have hinv : (sys cfg svc).TrInv Sound := fun s a t hstep hs => sound_step (sys_step hstep) hs
  refine LTS.mtrInv_of_trInv hinv hrun ⟨enqueued_initial, stored_initial, linked_initial, ?_⟩
  exact ⟨by simp [initial, Api.initial], by simp [initial, Api.initial]⟩

/-- With the rate limiter inside, the API is still a run of the API, each key is a run of the rate
limiter, and what `check_rate_limit` answers to a request is the outcome of its own call. -/
theorem checks_refined (hrun : (sys cfg svc).MTr initial xs s) :
    (∃ ys, (Api.sys svc).MTr Api.initial ys s.api) ∧
    (∀ user, ∃ ys, (RateLimit.sys cfg).MTr (RateLimit.initial 0) ys (s.limiters user)) ∧
    Linked s ∧ Decided s :=
  ⟨api_run hrun, limiter_run hrun, (sound_run hrun).linked, (sound_run hrun).decided⟩

/-- A request with no key, through `check_rate_limit`. -/
def letInSteps (i : ℕ) : List (Action Unit) :=
  [.api (.request none emailRequest), .readClock i, .execute i .count, .execute i .add]

/-- A second request while the first one fills the window of ten seconds. -/
def rejectedSteps : List (Action Unit) :=
  letInSteps 0 ++ [.api (.tick 1000000), .api (.request none emailRequest), .readClock 1,
    .execute 1 .count]

theorem rejected_run : ∃ s h, (sys ⟨1, 10⟩ plainText).MTr initial rejectedSteps s ∧
    s.api.handlers[1]? = some h ∧ h.pc.error = some (.rateLimitExceeded 9) := by
  have hrun : (LTS.run (step ⟨1, 10⟩ plainText) initial rejectedSteps).map
      (fun s => s.api.handlers[1]?.bind (·.pc.error)) = some (some (.rateLimitExceeded 9)) := by
    decide +kernel
  obtain ⟨s, hs, he⟩ := LTS.exists_mTr hrun
  obtain ⟨h, hh, herr⟩ := Option.bind_eq_some_iff.mp he
  exact ⟨s, h, hs, hh, herr⟩

theorem checks_refined_rejected : ∃ s, (sys ⟨1, 10⟩ plainText).MTr initial rejectedSteps s ∧
    (∃ ys, (Api.sys plainText).MTr Api.initial ys s.api) ∧ s.Ended 1 (.rejected 9) := by
  obtain ⟨s, h, hs, hh, herr⟩ := rejected_run
  obtain ⟨hapi, _, _, hdecided⟩ := checks_refined hs
  exact ⟨s, hs, hapi, (hdecided.handlers 1 h hh).rejected 9 herr⟩

/-- The stored notifications of a user whose requests read the clock in `p`. -/
def State.admitted (s : State V) (user : String) (p : ℚ → Bool) : ℕ :=
  s.api.notifications.countP fun n => n.userId = user && (s.callOf n.id).any (p ·.now)

/-- Each of them stands for an accepted call of the user. -/
theorem admitted_le (hs : Sound s) (user : String) (p : ℚ → Bool) :
    s.admitted user p ≤ (s.limiters user).calls.countP (RateLimit.Call.acceptedIn p) := by
  have hcall : ∀ n ∈ s.api.notifications,
      (decide (n.userId = user) && (s.callOf n.id).any (p ·.now)) = true →
      ∃ j c, s.userOf n.id = some user ∧ s.call n.id = some j ∧
        (s.limiters user).calls[j]? = some c ∧ RateLimit.Call.acceptedIn p c = true := by
    intro n hn hp
    obtain ⟨huser, hp⟩ := Bool.and_eq_true_iff.mp hp
    obtain ⟨hu, c, hc, hstage⟩ := hs.decided.rows n hn
    rw [of_decide_eq_true huser] at hu
    rw [hc, Option.any_some] at hp
    obtain ⟨v, j, hv, hj, hcall⟩ := callOf_cases hc
    cases hu.symm.trans hv
    exact ⟨j, c, hu, hj, hcall, by simp [RateLimit.Call.acceptedIn, hstage, hp]⟩
  refine Pool.countP_le_of_inj (f := fun n => (s.call n.id).getD 0) ?_ ?_ ?_
  · exact (List.Nodup.of_map _ hs.stored.ids).filter _
  · intro n hn hp
    obtain ⟨j, c, _, hj, hc, haccepted⟩ := hcall n hn hp
    exact ⟨c, by rw [hj, Option.getD_some, hc], haccepted⟩
  · intro n hn m hm hpn hpm heq
    obtain ⟨j, _, hun, hjn, _⟩ := hcall n hn hpn
    obtain ⟨l, _, hum, hjm, _⟩ := hcall m hm hpm
    rw [hjn, hjm, Option.getD_some, Option.getD_some] at heq
    subst heq
    exact List.inj_on_of_nodup_map hs.stored.ids hn hm
      (hs.linked.distinct _ _ _ (hun.trans hum.symm) hjn hjm)

theorem admitted_run (hrun : ((sys cfg svc).restrict (Concurrent k)).MTr initial xs s)
    (user : String) {p : ℚ → Bool} (hp : SlidingWindow.Short cfg.window p) :
    s.admitted user p ≤ cfg.maxRequests + 2 * k - 1 := by
  obtain ⟨ys, hlimiter⟩ := limiter_run_concurrent hrun user
  calc s.admitted user p
      ≤ (s.limiters user).calls.countP (RateLimit.Call.acceptedIn p) :=
        admitted_le (sound_run hrun.of_restrict) user p
    _ = (s.limiters user).accepted.countP p := (RateLimit.accepted_run p hlimiter.of_restrict).symm
    _ ≤ cfg.maxRequests + 2 * k - 1 := RateLimit.accepts_le hp hlimiter

/-- With at most `k` calls of a user under way at a time, the requests that read the clock in one
window store at most `limit + 2 k - 1` notifications of the user. -/
theorem notifications_limited (hrun : ((sys cfg svc).restrict (Concurrent k)).MTr initial xs s)
    (user : String) (a : ℚ) :
    s.admitted user (fun x => a ≤ x ∧ x < a + cfg.window) ≤ cfg.maxRequests + 2 * k - 1 ∧
      s.admitted user (fun x => a < x ∧ x ≤ a + cfg.window) ≤ cfg.maxRequests + 2 * k - 1 :=
  ⟨admitted_run hrun user (SlidingWindow.short_closedOpen _ a),
    admitted_run hrun user (SlidingWindow.short_openClosed _ a)⟩

/-- The rest of such a request, up to the COMMIT. -/
def storeSteps (i : ℕ) : List (Action Unit) :=
  ((insertSteps i).tail ++ [Api.Action.run i .ok]).map .api

/-- A request reads the clock, and the key expires before its first pipeline. -/
def lapsedSteps : List (Action Unit) :=
  letInSteps 0 ++ storeSteps 0 ++
    [.api (.tick 9000000), .api (.request none emailRequest), .readClock 1, .api (.tick 1000000),
      .execute 1 .count, .execute 1 .add] ++ storeSteps 1

theorem notifications_limited_attained :
    ∃ s, ((sys ⟨1, 10⟩ plainText).restrict (Concurrent 1)).MTr initial lapsedSteps s ∧
    s.admitted "user_happy" (fun x => 0 ≤ x ∧ x < 0 + (RateLimit.Settings.mk 1 10).window) = 2 ∧
    s.admitted "user_happy" (fun x => 0 ≤ x ∧ x < 0 + (RateLimit.Settings.mk 1 10).window) ≤
      1 + 2 * 1 - 1 := by
  have hrun : (LTS.run (LTS.guarded (Concurrent 1) (step ⟨1, 10⟩ plainText)) initial
      lapsedSteps).map (fun s => s.admitted "user_happy" fun x =>
        0 ≤ x ∧ x < 0 + (RateLimit.Settings.mk 1 10).window) = some 2 := by
    decide +kernel
  obtain ⟨s, hs, htwo⟩ := LTS.exists_mTr_guarded hrun
  exact ⟨s, hs, htwo, (notifications_limited hs "user_happy" 0).1⟩

/-- The requests of a user that were let through, or failed in a pipeline, with a reading after
`low`. -/
def State.entered (s : State V) (user : String) (low : ℚ) : ℕ :=
  (List.range s.api.handlers.length).countP fun i =>
    s.userOf i = some user && (s.callOf i).any (RateLimit.Call.enteredAfter low)

omit [BEq V] in
theorem calls_le_entered (hs : Linked s) (user : String) (low : ℚ) :
    (s.limiters user).calls.countP (RateLimit.Call.enteredAfter low) ≤ s.entered user low := by
  have howner : ∀ j, ∃ i, j < (s.limiters user).calls.length →
      s.userOf i = some user ∧ s.call i = some j := by
    intro j
    by_cases hj : j < (s.limiters user).calls.length
    · obtain ⟨i, hi⟩ := hs.owned user j hj
      exact ⟨i, fun _ => hi⟩
    · exact ⟨0, fun hlt => absurd hlt hj⟩
  choose owner howner using howner
  rw [← Pool.countP_range]
  refine Pool.countP_le_of_inj (f := owner) (List.nodup_range.filter _) ?_ ?_
  · intro j hj hc
    obtain ⟨hu, hcall⟩ := howner j (List.mem_range.mp hj)
    obtain ⟨h, hh, _⟩ := Option.map_eq_some_iff.mp hu
    refine ⟨owner j, List.getElem?_range (List.getElem?_eq_some_iff.mp hh).1, ?_⟩
    rw [callOf_eq hu hcall, hc, hu]
    simp
  · intro j hj l hl _ _ heq
    have hjcall := (howner j (List.mem_range.mp hj)).2
    have hlcall := (howner l (List.mem_range.mp hl)).2
    rw [heq] at hjcall
    exact Option.some.inj (hjcall.symm.trans hlcall)

/-- A request is answered 429 only if `limit` requests of the same user entered the window before
its own reading, whatever other users do; and it is told to wait for a second at least. -/
theorem rejections_earned (hrun : (sys cfg svc).MTr initial xs s)
    (hh : s.api.handlers[i]? = some h) (hr : h.pc.error = some (.rateLimitExceeded r)) :
    1 ≤ r ∧ ∃ now, s.callOf i = some ⟨now, .rejected r⟩ ∧
      cfg.maxRequests ≤ s.entered h.payload.userId (now - cfg.window) := by
  have hs := sound_run hrun
  obtain ⟨⟨now, stage⟩, hc, rfl⟩ := (hs.decided.handlers i h hh).rejected r hr
  obtain ⟨user, j, hu, _, hcall⟩ := callOf_cases hc
  obtain rfl : h.payload.userId = user := by
    rw [State.userOf, hh, Option.map_some] at hu
    exact Option.some.inj hu
  obtain ⟨ys, hlimiter⟩ := limiter_run hrun h.payload.userId
  have hearned := RateLimit.earned_run hlimiter _ (List.mem_of_getElem? hcall)
  obtain ⟨hwait, hfull⟩ := hearned r rfl
  exact ⟨hwait, now, hc, hfull.trans (calls_le_entered hs.linked _ _)⟩

theorem rejections_earned_rejected : ∃ s h, (sys ⟨1, 10⟩ plainText).MTr initial rejectedSteps s ∧
    s.api.handlers[1]? = some h ∧ ∃ now, s.callOf 1 = some ⟨now, .rejected 9⟩ ∧
      1 ≤ s.entered h.payload.userId (now - (RateLimit.Settings.mk 1 10).window) := by
  obtain ⟨s, h, hs, hh, herr⟩ := rejected_run
  exact ⟨s, h, hs, hh, (rejections_earned hs hh herr).2⟩

end NotificationService.Api.Limited
