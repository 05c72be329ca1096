import NotificationService.Service.Overshoot
import NotificationService.Service.SequentialLimit

/-! Calls one after the other against calls that overlap: for each user the first are a run of the
second in which no call starts before the one before it is over. -/
namespace NotificationService.RateLimit.Sequential

open Transition SortedSet SlidingLog

def Policy.settings (p : Policy) : Settings := ⟨p.limit.toNat, p.windowSeconds.toNat⟩

def Outcome.stage : Outcome → Stage
  | .accepted => .accepted
  | .rateLimitExceeded r => .rejected r

/-- What the other model has at `now` is what this key holds then. -/
structure Holds (k : Key Member ℚ) (now : ℚ) (l : RateLimit.State) : Prop where
  clock : l.clock = now
  scores : l.zset.map (·.2) = k.scores now
  expiry : l.expiry = (k.live now).expiresAt

variable {p : Policy} {cfg : Settings} {s t : State} {c : Call} {l : RateLimit.State}
  {xs : List Call} {user : String} {now cut : ℚ} {k : Key Member ℚ}

/-! ### The key -/

theorem purge_live (now cut : ℚ) (k : Key Member ℚ) :
    (purge now cut k).live now = purge now cut k := by
  refine live_of_not_expired ?_
  have hlive := live_not_expired k now
  unfold Key.expired purge at *
  simp only
  split
  · rfl
  · exact hlive

theorem expire_add {m : Member} {x window : ℚ} (hw : 0 < window)
    (hm : ∀ e ∈ (k.live now).members, e.1 ≠ m) : expire now window (add now m x k) =
      ⟨(m, x) :: (k.live now).members, some (now + window)⟩ := by
  have hadd : add now m x k = { k.live now with members := (m, x) :: (k.live now).members } := by
    rw [SlidingLog.add, add_of_fresh hm]
  have hlive : (add now m x k).live now = add now m x k :=
    live_of_not_expired (live_not_expired k now)
  rw [expire, hlive, hadd, if_neg (List.cons_ne_nil _ _), if_pos hw]

theorem Holds.live (h : Holds k now l) (hk : k.live now = k) :
    l.zset.map (·.2) = k.members.map (·.2) ∧ l.expiry = k.expiresAt := by
  have hscores := h.scores
  have hexpiry := h.expiry
  rw [Key.scores, hk] at hscores
  rw [hk] at hexpiry
  exact ⟨hscores, hexpiry⟩

/-- The key expires in both, or in none. -/
theorem holds_tick (cfg : Settings) {start : ℚ} (h : Holds k start l) (hle : start ≤ now) :
    ∃ l', (RateLimit.sys cfg).Tr l (.tick (now - start)) l' ∧ Holds k now l' ∧
      l'.calls = l.calls := by
  have hd : 0 ≤ now - start := sub_nonneg.mpr hle
  have hnow : l.clock + (now - start) = now := by rw [h.clock, add_sub_cancel]
  cases hx : l.expires (now - start) with
  | true =>
    refine ⟨{ l with clock := l.clock + (now - start), zset := [], expiry := none }, ?_, ?_, rfl⟩
    · simp [RateLimit.sys, LTS.ofStep, RateLimit.step, hd, hx]
    · have hexpired : k.expired now = true := by
        rw [RateLimit.State.expires, h.expiry, hnow] at hx
        cases hk : k.expired start with
        | true => exact expired_later hk hle
        | false =>
          rw [live_of_not_expired hk] at hx
          exact hx
      exact ⟨hnow, (scores_of_expired hexpired).symm, by rw [live_of_expired hexpired]; rfl⟩
  | false =>
    refine ⟨{ l with clock := l.clock + (now - start) }, ?_, ?_, rfl⟩
    · simp [RateLimit.sys, LTS.ofStep, RateLimit.step, hd, hx]
    · have hsame : k.live now = k.live start := by
        cases hk : k.expired start with
        | true => rw [live_of_expired hk, live_of_expired (expired_later hk hle)]
        | false =>
          rw [RateLimit.State.expires, h.expiry, hnow, live_of_not_expired hk] at hx
          rw [live_of_not_expired hk, live_of_not_expired hx]
      exact ⟨hnow, by rw [Key.scores, hsame]; exact h.scores, hsame ▸ h.expiry⟩

theorem holds_sweep (h : Holds k now l) : Holds (purge now cut k) now (l.sweep cut) := by
  have hscores : (removeThrough cut l.zset).map (·.2) =
      (removeThrough cut (k.live now).members).map (·.2) := by
    rw [map_removeThrough, map_removeThrough, h.scores]
    rfl
  refine ⟨h.clock, ?_, ?_⟩
  · rw [Key.scores, purge_live]
    exact hscores
  · have hnil : removeThrough cut l.zset = [] ↔ removeThrough cut (k.live now).members = [] := by
      rw [← List.map_eq_nil_iff, hscores, List.map_eq_nil_iff]
    rw [purge_live]
    simp only [RateLimit.State.sweep, purge, hnil, h.expiry]

theorem holds_insert {m n : Member} (h : Holds k now l) (hw : 0 < cfg.window) (hn : n.now = now)
    (hm : ∀ e ∈ (k.live now).members, e.1 ≠ m) (hl : ∀ e ∈ l.zset, e.1 ≠ n) :
    Holds (expire now cfg.window (add now m now k)) now (l.insert cfg n) := by
  have hkey := expire_add (x := now) hw hm
  have hlive : (expire now cfg.window (add now m now k)).live now =
      expire now cfg.window (add now m now k) := by
    refine live_of_not_expired ?_
    rw [hkey]
    simpa [Key.expired] using hw
  refine ⟨h.clock, ?_, ?_⟩
  · rw [Key.scores, hlive, hkey, RateLimit.State.insert, add_of_fresh hl, List.map_cons,
      List.map_cons, hn, h.scores]
    rfl
  · rw [hlive, hkey, RateLimit.State.insert, h.clock]

/-! ### One call -/

theorem settings_window (p : Policy) : p.settings.window = p.window := by
  have hpos : 0 ≤ p.windowSeconds := le_trans (by decide) p.one_le
  have hcast : ((p.windowSeconds.toNat : ℤ) : ℚ) = p.windowSeconds := by
    rw [Int.toNat_of_nonneg hpos]
  exact hcast

theorem retryAfter_settings (p : Policy) (now : ℚ) (oldest : Option ℚ) :
    RateLimit.retryAfter p.settings now oldest = p.retryAfter now oldest := by
  cases oldest with
  | none => rfl
  | some x => rw [RateLimit.retryAfter, Policy.retryAfter, settings_window]

/-- Both models look at the same scores, so they decide alike. -/
theorem branch_eq (p : Policy) (now : ℚ) {z current : List (Member × ℚ)}
    (h : z.map (·.2) = current.map (·.2)) :
    branch p.settings now z = if (current.length : ℤ) ≥ p.limit then
      .rejected (p.retryAfter now (lowest current)) else .adding := by
  have hlength : z.length = current.length := by
    have hmap := congrArg List.length h
    rwa [List.length_map, List.length_map] at hmap
  have hlowest : lowest z = lowest current := by rw [lowest, lowest, h]
  have hlimit : z.length ≥ p.settings.maxRequests ↔ (current.length : ℤ) ≥ p.limit := by
    rw [hlength]
    simp only [Policy.settings]
    omega
  unfold branch
  rw [retryAfter_settings, hlowest]
  by_cases hfull : (current.length : ℤ) ≥ p.limit
  · rw [if_pos (hlimit.mpr hfull), if_pos hfull]
  · rw [if_neg (hlimit.not.mpr hfull), if_neg hfull]

/-- A call starts while no other one is under way, and the pipelines are in order. -/
def NonOverlapping (s : RateLimit.State) (a : Action) : Prop := Concurrent 1 s a ∧ InOrder s a

/-- No call is under way, and none has read a time that is still to come. -/
structure Resting (l : RateLimit.State) : Prop where
  ended : ∀ b ∈ l.calls, b.isOver = true
  past : ∀ b ∈ l.calls, b.now ≤ l.clock
  signed : RateLimit.Signed l

/-- A call reads the clock, and its first pipeline follows at once. -/
theorem first_run (hl : Resting l) (h : Holds k now l) : ∃ l',
    ((RateLimit.sys p.settings).restrict NonOverlapping).MTr l [.start, .check l.calls.length] l' ∧
    Holds (purge now (now - p.window) k) now l' ∧ RateLimit.Signed l' ∧
    l'.calls = l.calls ++ [⟨now,
      if ((purge now (now - p.window) k).members.length : ℤ) ≥ p.limit then
        .rejected (p.retryAfter now (lowest (purge now (now - p.window) k).members))
      else .adding⟩] := by
  have hnone : l.calls.countP RateLimit.Call.inProgress = 0 := by
    refine List.countP_eq_zero.mpr fun b hb => ?_
    simp [RateLimit.Call.inProgress, hl.ended b hb]
  generalize hu : { l with calls := l.calls ++ [RateLimit.Call.mk now .checking] } = u
  have hcalls : u.calls = l.calls ++ [⟨now, .checking⟩] := by rw [← hu]
  have hholds : Holds k now u := by
    rw [← hu]
    exact ⟨h.clock, h.scores, h.expiry⟩
  have hstart : (RateLimit.sys p.settings).Tr l .start u := by
    rw [← hu]
    simp [RateLimit.sys, LTS.ofStep, RateLimit.step, h.clock]
  have hget : u.calls[l.calls.length]? = some ⟨now, .checking⟩ := by rw [hcalls]; simp
  have hsweep : Holds (purge now (now - p.window) k) now (u.sweep (now - p.window)) :=
    holds_sweep hholds
  have hbranch := branch_eq p now (hsweep.live (purge_live _ _ _)).1
  have hcheck : (RateLimit.sys p.settings).Tr u (.check l.calls.length)
      ((u.sweep (now - p.window)).setCall l.calls.length
        ⟨now, branch p.settings now (u.sweep (now - p.window)).zset⟩) := by
    simp [RateLimit.sys, LTS.ofStep, RateLimit.step, hget, settings_window]
  have horder : InOrder u (.check l.calls.length) := by
    constructor
    · rw [hcalls, List.all_append, Bool.and_eq_true, List.all_eq_true]
      refine ⟨fun b hb => ?_, rfl⟩
      have hover := hl.ended b hb
      simp only [RateLimit.Call.isOver, Bool.and_eq_true] at hover
      exact hover.2
    · rw [hget, Option.all_some, hcalls, List.all_append, Bool.and_eq_true, List.all_eq_true]
      refine ⟨fun b hb => ?_, rfl⟩
      have hpast := hl.past b hb
      rw [h.clock] at hpast
      simp [hpast]
  refine ⟨_, .stepL ⟨⟨hnone.trans_lt Nat.one_pos, trivial⟩, hstart⟩
    (.stepL ⟨⟨trivial, horder⟩, hcheck⟩ .refl), ?_, ?_, ?_⟩
  · exact ⟨hsweep.clock, hsweep.scores, hsweep.expiry⟩
  · have hsigned := RateLimit.signed_step (RateLimit.sys_step hstart) hl.signed
    exact RateLimit.signed_step (RateLimit.sys_step hcheck) hsigned
  · rw [setCall_calls, hbranch]
    change u.calls.set l.calls.length _ = _
    rw [hcalls, List.set_append_right _ _ le_rfl, Nat.sub_self]
    rfl

/-- The steps of a call that nothing comes between. -/
theorem call_run {uuid : ℕ} (hl : Resting l) (h : Holds k now l)
    (hm : ∀ e ∈ k.members, e.1 ≠ ⟨now, uuid⟩) : ∃ ys l',
      ((RateLimit.sys p.settings).restrict NonOverlapping).MTr l ys l' ∧
      l'.calls = l.calls ++ [⟨now, (checkRateLimit p now uuid k).2.stage⟩] ∧
      Holds (checkRateLimit p now uuid k).1 now l' := by
  obtain ⟨l', hrun, hholds, hsigned, hcalls⟩ := first_run (p := p) hl h
  unfold checkRateLimit
  simp only [purge_live]
  by_cases hfull : ((purge now (now - p.window) k).members.length : ℤ) ≥ p.limit
  · rw [if_pos hfull] at hcalls
    rw [if_pos hfull]
    exact ⟨_, l', hrun, hcalls, hholds⟩
  · rw [if_neg hfull] at hcalls
    rw [if_neg hfull]
    have hget : l'.calls[l.calls.length]? = some ⟨now, .adding⟩ := by rw [hcalls]; simp
    have hadd : (RateLimit.sys p.settings).Tr l' (.add l.calls.length)
        ({ l'.insert p.settings ⟨now, l.calls.length⟩ with accepted := now :: l'.accepted }.setCall
          l.calls.length ⟨now, .accepted⟩) := by
      simp [RateLimit.sys, LTS.ofStep, RateLimit.step, hget]
    have hwindow : 0 < p.settings.window := settings_window p ▸ window_pos p
    have hfresh : ∀ e ∈ ((purge now (now - p.window) k).live now).members, e.1 ≠ ⟨now, uuid⟩ :=
      fun e he => hm e (mem_of_mem_purge (mem_of_mem_live he))
    have hinsert := holds_insert (n := ⟨now, l.calls.length⟩) hholds hwindow rfl hfresh
      (RateLimit.fresh_of_signed hsigned hget rfl)
    rw [settings_window] at hinsert
    have halone : NonOverlapping l' (.add l.calls.length) := ⟨trivial, trivial⟩
    refine ⟨_, _, hrun.concat ⟨halone, hadd⟩, ?_, ?_⟩
    · change l'.calls.set l.calls.length _ = _
      rw [hcalls, List.set_append_right _ _ le_rfl, Nat.sub_self]
      rfl
    · exact ⟨hinsert.clock, hinsert.scores, hinsert.expiry⟩

/-! ### Runs -/

/-- What the user's key holds at the clock, and the calls of the user with their outcomes. -/
structure Mirrors (user : String) (s : State) (l : RateLimit.State) : Prop where
  key : Holds (s.redis (rateLimitKey user)) s.clock l
  calls : l.calls = (s.history.filter (·.1.user = user)).map fun e => ⟨e.1.now, e.2.stage⟩

theorem over_of_mirrors (h : Mirrors user s l) : ∀ b ∈ l.calls, b.isOver = true := by
  intro b hb
  rw [h.calls] at hb
  obtain ⟨⟨c, o⟩, _, rfl⟩ := List.mem_map.mp hb
  cases o <;> rfl

/-- A call of the user is one of the other model, and one of another user passes time there. -/
theorem mirrors_step {start : ℚ} {ys : List Action} (hstep : (sys p).Tr s c t)
    (hs : Faithful p s)
    (hrun : ((RateLimit.sys p.settings).restrict NonOverlapping).MTr (RateLimit.initial start) ys l)
    (h : Mirrors user s l) : ∃ ys l', Mirrors user t l' ∧
      ((RateLimit.sys p.settings).restrict NonOverlapping).MTr (RateLimit.initial start) ys l' := by
  obtain ⟨hc, rfl⟩ := step_iff.mp hstep
  obtain ⟨m, htick, hholds, hcalls⟩ := holds_tick p.settings h.key hc
  have hover : ∀ b ∈ m.calls, b.isOver = true := hcalls ▸ over_of_mirrors h
  have halone : NonOverlapping l (.tick (c.now - s.clock)) := by
    refine ⟨trivial, fun _ => List.all_eq_true.mpr fun b hb => ?_⟩
    have hb := over_of_mirrors h b hb
    simp only [RateLimit.Call.isOver, Bool.and_eq_true] at hb
    exact hb.1
  have hm := hrun.concat ⟨halone, htick⟩
  by_cases huser : c.user = user
  · subst huser
    have hinv : (RateLimit.sys p.settings).TrInv fun l => Timely l ∧ RateLimit.Signed l :=
      fun _ _ _ hl hi => ⟨timely_step (RateLimit.sys_step hl) hi.1,
        RateLimit.signed_step (RateLimit.sys_step hl) hi.2⟩
    obtain ⟨htimely, hsigned⟩ := LTS.mtrInv_of_trInv hinv hm.of_restrict
      ⟨⟨by simp [RateLimit.initial], by simp [RateLimit.initial]⟩,
        fun e he => by simp [RateLimit.initial] at he⟩
    have hresting : Resting m := ⟨hover, htimely.readings, hsigned⟩
    obtain ⟨zs, l', hcall, hlast, hkey⟩ := call_run (p := p) hresting hholds
      (Sequential.fresh_of_signed (hs.signed _) c.now)
    refine ⟨_, l', ⟨?_, ?_⟩, hm.append hcall⟩
    · have hself : (s.after p c).redis (rateLimitKey c.user) = (s.check p c).1 :=
        Function.update_self ..
      rw [hself]
      exact hkey
    · rw [hlast, hcalls, h.calls]
      simp [State.after, State.check]
  · have hne : rateLimitKey user ≠ rateLimitKey c.user :=
      fun heq => huser (rateLimitKey_injective heq).symm
    have hother : (s.after p c).redis (rateLimitKey user) = s.redis (rateLimitKey user) :=
      Function.update_of_ne hne ..
    refine ⟨_, m, ⟨?_, ?_⟩, hm⟩
    · rw [hother]
      exact hholds
    · rw [hcalls, h.calls]
      simp [State.after, huser]

/-- Calls that do not overlap are a run of the model in which they may: with the same readings,
outcomes and waiting times for each user, and the same key in the end. -/
theorem calls_simulated {start : ℚ} (h : (sys p).MTr (initial start) xs s) (user : String) :
    ∃ ys l, Mirrors user s l ∧
      ((RateLimit.sys p.settings).restrict NonOverlapping).MTr (RateLimit.initial start) ys l := by
  have hinv : (sys p).TrInv fun s => Faithful p s ∧ ∃ ys l, Mirrors user s l ∧
      ((RateLimit.sys p.settings).restrict NonOverlapping).MTr (RateLimit.initial start) ys l := by
    rintro s c t hstep ⟨hs, ys, l, hl, hrun⟩
    exact ⟨faithful_step hstep hs, mirrors_step hstep hs hrun hl⟩
  exact (LTS.mtrInv_of_trInv hinv h
    ⟨faithful_initial start, [], _, ⟨⟨rfl, rfl, rfl⟩, rfl⟩, .refl⟩).2

theorem calls_simulated_full : ∃ s ys l, (sys twoInTen).MTr (initial 0) fullWindow s ∧
    ((RateLimit.sys twoInTen.settings).restrict NonOverlapping).MTr (RateLimit.initial 0) ys l ∧
    l.calls = [⟨0, .accepted⟩, ⟨0, .accepted⟩, ⟨5, .rejected 5⟩] := by
  have hrun : (LTS.run (step twoInTen) (initial 0) fullWindow).map (fun s =>
      (s.history.filter (·.1.user = "alice")).map fun e => RateLimit.Call.mk e.1.now e.2.stage) =
      some [⟨0, .accepted⟩, ⟨0, .accepted⟩, ⟨5, .rejected 5⟩] := by decide +kernel
  obtain ⟨s, hs, hcalls⟩ := LTS.exists_mTr hrun
  obtain ⟨ys, l, hmirrors, hl⟩ := calls_simulated hs "alice"
  exact ⟨s, ys, l, hs, hl, hmirrors.calls.trans hcalls⟩

end NotificationService.RateLimit.Sequential
