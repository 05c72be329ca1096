import NotificationService.Service.Earned

/-! How far the calls of one user exceed the limit when at most `k` of them are in progress at a
time, and how much the key in Redis then holds. -/
namespace NotificationService.RateLimit

open Transition SortedSet SlidingWindow

variable {cfg : Settings} {s t : State} {a : Action} {xs : List Action} {k i : ℕ} {n : ℚ}
  {b stage : Stage} {p : ℚ → Bool}

def Call.inProgress (c : Call) : Bool := !c.isOver

/-- A call starts only while less than `k` others are in progress. -/
def Concurrent (k : ℕ) (s : State) : Action → Prop
  | .start => s.calls.countP Call.inProgress < k
  | _ => True

instance (k : ℕ) (s : State) (a : Action) : Decidable (Concurrent k s a) := by
  unfold Concurrent
  split <;> infer_instance

def Call.addsIn (p : ℚ → Bool) (c : Call) : Bool := c.isAdding && p c.now

def Call.checksIn (p : ℚ → Bool) (c : Call) : Bool := c.isChecking && p c.now

/-- The calls with a reading in `p` that await their second pipeline. -/
def State.adds (p : ℚ → Bool) (s : State) : ℕ := s.calls.countP (Call.addsIn p)

/-- The calls with a reading in `p` that await their first pipeline. -/
def State.checks (p : ℚ → Bool) (s : State) : ℕ := s.calls.countP (Call.checksIn p)

/-- The members with a score in `p`. -/
def State.stored (p : ℚ → Bool) (s : State) : ℕ := s.zset.countP fun e => p e.2

def State.accepts (p : ℚ → Bool) (s : State) : ℕ := s.accepted.countP p

/-! ### Counting calls -/

def AtMost (k : ℕ) (s : State) : Prop := s.calls.countP Call.inProgress ≤ k

theorem atMost_step (h : Step cfg s a t) (hc : Concurrent k s a) (hs : AtMost k s) :
    AtMost k t := by
  unfold AtMost at hs ⊢
  cases h with
  | tick | expire => exact hs
  | start =>
    rw [List.countP_append, List.countP_singleton]
    exact Nat.succ_le_of_lt hc
  | check hi => exact (Pool.countP_set_le_of_imp hi fun _ => rfl).trans hs
  | add hi => exact (Pool.countP_set_le hi rfl).trans hs
  | @failCheck i n applied hi | @failAdd i n applied hi =>
    cases applied <;> exact (Pool.countP_set_le hi rfl).trans hs

theorem adds_le (hs : AtMost k s) : s.adds p ≤ k := by
  refine le_trans (List.countP_mono_left ?_) hs
  intro c _ hc
  simp only [Call.addsIn, Bool.and_eq_true] at hc
  simp [Call.inProgress, Call.isOver, hc.1]

theorem checks_le (hs : AtMost k s) : s.checks p ≤ k := by
  refine le_trans (List.countP_mono_left ?_) hs
  intro c _ hc
  simp only [Call.checksIn, Bool.and_eq_true] at hc
  simp [Call.inProgress, Call.isOver, hc.1]

/-- The call that steps counts as its new stage says. -/
theorem adds_set (p : ℚ → Bool) (stage : Stage) (hi : s.calls[i]? = some ⟨n, b⟩) :
    (s.calls.set i ⟨n, stage⟩).countP (Call.addsIn p) + (Call.addsIn p ⟨n, b⟩).toNat =
      s.adds p + (Call.addsIn p ⟨n, stage⟩).toNat :=
  Pool.countP_set hi

theorem checks_set (p : ℚ → Bool) (stage : Stage) (hi : s.calls[i]? = some ⟨n, b⟩) :
    (s.calls.set i ⟨n, stage⟩).countP (Call.checksIn p) + (Call.checksIn p ⟨n, b⟩).toNat =
      s.checks p + (Call.checksIn p ⟨n, stage⟩).toNat :=
  Pool.countP_set hi

/-- A call that leaves its first pipeline counts once at most, as before. -/
theorem adds_checks_set (hi : s.calls[i]? = some ⟨n, .checking⟩) (hb : stage ≠ .checking) :
    (s.calls.set i ⟨n, stage⟩).countP (Call.addsIn p) +
      (s.calls.set i ⟨n, stage⟩).countP (Call.checksIn p) ≤ s.adds p + s.checks p := by
  have hadds := adds_set p stage hi
  have hchecks := checks_set p stage hi
  have hold : (Call.addsIn p ⟨n, .checking⟩).toNat = 0 := rfl
  have hold' : (Call.checksIn p ⟨n, .checking⟩).toNat = (p n).toNat := by
    simp [Call.checksIn, Call.isChecking]
  have hnew : (Call.checksIn p ⟨n, stage⟩).toNat = 0 := by
    simp [Call.checksIn, Call.isChecking, hb]
  have hle : (Call.addsIn p ⟨n, stage⟩).toNat ≤ (p n).toNat := by
    unfold Call.addsIn
    cases p n <;> simp [Bool.toNat_le]
  omega

/-! ### Members and accepted calls -/

theorem stored_sweep {cutoff : ℚ} (hkeep : ∀ e ∈ s.zset, p e.2 = true → cutoff < e.2) :
    (s.sweep cutoff).stored p = s.stored p := by
  simp only [State.stored, State.sweep, removeThrough, List.countP_filter]
  refine List.countP_congr ?_
  intro e he
  simp only [Bool.and_eq_true, decide_eq_true_eq, and_iff_left_iff_imp]
  exact hkeep e he

theorem stored_insert (cfg : Settings) (hs : Signed s) (hi : s.calls[i]? = some ⟨n, .adding⟩) :
    (s.insert cfg ⟨n, i⟩).stored p = s.stored p + (p n).toNat := by
  simp only [State.stored, State.insert, add_of_fresh (fresh_of_signed hs hi rfl),
    List.countP_cons]
  cases p n <;> rfl

/-! ### Until something recent is lost, and after -/

/-- Nothing that was accepted in `p` is missing in the set. -/
structure Counted (cfg : Settings) (k : ℕ) (p : ℚ → Bool) (s : State) : Prop where
  stored : s.accepts p ≤ s.stored p
  bound : s.accepts p + s.adds p ≤ cfg.maxRequests + k - 1

/-- The clock has left `p`, and what can still be accepted there is under way. -/
structure Passed (cfg : Settings) (k : ℕ) (p : ℚ → Bool) (s : State) : Prop where
  past : ∃ y, p y = true ∧ y + cfg.window ≤ s.clock
  bound : s.accepts p + s.adds p + s.checks p ≤ cfg.maxRequests + 2 * k - 1

def Reckoned (cfg : Settings) (k : ℕ) (p : ℚ → Bool) (s : State) : Prop :=
  Counted cfg k p s ∨ Passed cfg k p s

theorem Counted.total (h : Counted cfg k p s) (hs : AtMost k s) :
    s.accepts p + s.adds p + s.checks p ≤ cfg.maxRequests + 2 * k - 1 := by
  have hbound := h.bound
  have hadds := adds_le (p := p) hs
  have hchecks := checks_le (p := p) hs
  omega

theorem Passed.mono (h : Passed cfg k p s) (hclock : s.clock ≤ t.clock)
    (hle : t.accepts p + t.adds p + t.checks p ≤ s.accepts p + s.adds p + s.checks p) :
    Passed cfg k p t := by
  obtain ⟨y, hy, hpast⟩ := h.past
  exact ⟨⟨y, hy, hpast.trans hclock⟩, hle.trans h.bound⟩

/-- The first pipeline may lose a member of `p`, but only when the clock has left `p`. -/
theorem reckoned_sweep (hi : s.calls[i]? = some ⟨n, .checking⟩) (hn : n ≤ s.clock)
    (hstage : stage ≠ .checking)
    (hroom : stage = .adding → (removeThrough (n - cfg.window) s.zset).length < cfg.maxRequests)
    (hk : AtMost k s) (hk' : AtMost k ((s.sweep (n - cfg.window)).setCall i ⟨n, stage⟩))
    (hs : Reckoned cfg k p s) :
    Reckoned cfg k p ((s.sweep (n - cfg.window)).setCall i ⟨n, stage⟩) := by
  have htotal : ((s.sweep (n - cfg.window)).setCall i ⟨n, stage⟩).adds p +
      ((s.sweep (n - cfg.window)).setCall i ⟨n, stage⟩).checks p ≤ s.adds p + s.checks p :=
    adds_checks_set hi hstage
  have haccepts : ((s.sweep (n - cfg.window)).setCall i ⟨n, stage⟩).accepts p = s.accepts p := rfl
  rcases hs with hs | hs
  · by_cases hkeep : ∀ e ∈ s.zset, p e.2 = true → n - cfg.window < e.2
    · have hstored : ((s.sweep (n - cfg.window)).setCall i ⟨n, stage⟩).stored p = s.stored p :=
        stored_sweep hkeep
      have hcounted := hs.stored
      refine Or.inl ⟨by omega, ?_⟩
      by_cases hadding : stage = .adding
      · have hadds := adds_le (p := p) hk'
        have hlength := hroom hadding
        have hle : ((s.sweep (n - cfg.window)).setCall i ⟨n, stage⟩).stored p ≤
            (removeThrough (n - cfg.window) s.zset).length := List.countP_le_length
        omega
      · have hsame : ((s.sweep (n - cfg.window)).setCall i ⟨n, stage⟩).adds p ≤ s.adds p :=
          Pool.countP_set_le hi (by simp [Call.addsIn, Call.isAdding, hadding])
        have hbound := hs.bound
        omega
    · push Not at hkeep
      obtain ⟨e, _, hpe, hle⟩ := hkeep
      have hbound := hs.total hk
      refine Or.inr ⟨⟨e.2, hpe, ?_⟩, by omega⟩
      exact (le_sub_iff_add_le.mp hle).trans hn
  · exact Or.inr (hs.mono le_rfl (by omega))

theorem reckoned_fail (hi : s.calls[i]? = some ⟨n, b⟩) (hs : Reckoned cfg k p s) :
    Reckoned cfg k p (s.setCall i ⟨n, .failed⟩) := by
  have hadds : (s.setCall i ⟨n, .failed⟩).adds p ≤ s.adds p := Pool.countP_set_le hi rfl
  have hchecks : (s.setCall i ⟨n, .failed⟩).checks p ≤ s.checks p := Pool.countP_set_le hi rfl
  have haccepts : (s.setCall i ⟨n, .failed⟩).accepts p = s.accepts p := rfl
  refine hs.imp (fun h => ⟨h.stored, ?_⟩) fun h => h.mono le_rfl (by omega)
  have hbound := h.bound
  omega

/-- The second pipeline moves a call from those under way to those accepted. -/
theorem reckoned_insert (hsigned : Signed s) (hi : s.calls[i]? = some ⟨n, .adding⟩)
    (hstage : Call.isOver ⟨n, stage⟩ = true) {l : List ℚ}
    (hl : l = s.accepted ∨ l = n :: s.accepted) (hs : Reckoned cfg k p s) :
    Reckoned cfg k p
      (State.setCall { s.insert cfg ⟨n, i⟩ with accepted := l } i ⟨n, stage⟩) := by
  generalize ht : State.setCall { s.insert cfg ⟨n, i⟩ with accepted := l } i ⟨n, stage⟩ = t
  have hover : Call.isChecking ⟨n, stage⟩ = false ∧ Call.isAdding ⟨n, stage⟩ = false := by
    simpa [Call.isOver] using hstage
  have hadds : t.adds p + (p n).toNat = s.adds p := by
    have hset := adds_set p stage hi
    have hold : Call.addsIn p ⟨n, .adding⟩ = p n := by simp [Call.addsIn, Call.isAdding]
    have hnew : Call.addsIn p ⟨n, stage⟩ = false := by simp [Call.addsIn, hover.2]
    rw [hold, hnew] at hset
    rw [← ht]
    exact hset
  have hchecks : t.checks p ≤ s.checks p := by
    rw [← ht]
    exact Pool.countP_set_le hi (by simp [Call.checksIn, hover.1])
  have hstored : t.stored p = s.stored p + (p n).toNat := by
    rw [← ht]
    exact stored_insert cfg hsigned hi
  have haccepts : t.accepts p ≤ s.accepts p + (p n).toNat := by
    rw [← ht]
    rcases hl with rfl | rfl
    · exact Nat.le_add_right _ _
    · simp only [State.accepts, setCall_accepted, List.countP_cons]
      cases p n <;> simp
  have hclock : t.clock = s.clock := by
    rw [← ht]
    rfl
  refine hs.imp (fun h => ⟨?_, ?_⟩) fun h => h.mono hclock.ge (by omega)
  · have hcounted := h.stored
    omega
  · have hbound := h.bound
    omega

/-- When the key expires, everything accepted is a window old. -/
theorem reckoned_expire {d : ℚ} (hd : 0 ≤ d) (he : s.expires d = true) (hr : Retained cfg s)
    (hk : AtMost k s) (hs : Reckoned cfg k p s) :
    Reckoned cfg k p { s with clock := s.clock + d, zset := [], expiry := none } := by
  rcases hs with hs | hs
  · rcases Nat.eq_zero_or_pos (s.accepts p) with hzero | hpos
    · exact Or.inl ⟨hzero.le, hs.bound⟩
    · obtain ⟨x, hx, hpx⟩ := List.countP_pos_iff.mp hpos
      exact Or.inr ⟨⟨x, hpx, hr.out he x hx⟩, hs.total hk⟩
  · exact Or.inr (hs.mono (le_add_of_nonneg_right hd) le_rfl)

theorem reckoned_step (hp : Short cfg.window p) (h : Step cfg s a t) (htimely : Timely s)
    (hsigned : Signed s) (hr : Retained cfg s) (hk : AtMost k s) (hk' : AtMost k t)
    (hs : Reckoned cfg k p s) : Reckoned cfg k p t := by
  cases h with
  | tick hd =>
    exact hs.imp (fun h => ⟨h.stored, h.bound⟩)
      fun h => h.mono (le_add_of_nonneg_right hd) le_rfl
  | expire hd he => exact reckoned_expire hd he hr hk hs
  | start =>
    have hadds : (s.calls ++ [Call.mk s.clock .checking]).countP (Call.addsIn p) = s.adds p := by
      rw [List.countP_append, List.countP_singleton]
      rfl
    rcases hs with hs | hs
    · exact Or.inl ⟨hs.stored, (congrArg (s.accepts p + ·) hadds).trans_le hs.bound⟩
    obtain ⟨y, hy, hpast⟩ := hs.past
    have hout : p s.clock = false := by
      refine Bool.eq_false_iff.mpr fun hclock => ?_
      have hlt := hp _ _ hclock hy
      exact absurd (sub_lt_iff_lt_add.mp hlt) (not_lt.mpr hpast)
    have hchecks : (s.calls ++ [Call.mk s.clock .checking]).countP (Call.checksIn p) =
        s.checks p := by
      rw [List.countP_append, List.countP_singleton]
      simp [Call.checksIn, hout, State.checks]
    exact Or.inr (hs.mono le_rfl (congrArg₂ (s.accepts p + · + ·) hadds hchecks).le)
  | check hi =>
    have hn := htimely.readings _ (List.mem_of_getElem? hi)
    exact reckoned_sweep hi hn (branch_ne_checking _ _) length_of_branch_adding hk hk' hs
  | add hi => exact reckoned_insert hsigned hi rfl (Or.inr rfl) hs
  | @failCheck i n applied hi =>
    have hn := htimely.readings _ (List.mem_of_getElem? hi)
    cases applied with
    | false => exact reckoned_fail hi hs
    | true => exact reckoned_sweep hi hn (by simp) (by simp) hk hk' hs
  | @failAdd i n applied hi =>
    cases applied with
    | false => exact reckoned_fail hi hs
    | true => exact reckoned_insert hsigned hi rfl (Or.inl rfl) hs

structure Overlapping (cfg : Settings) (k : ℕ) (s : State) : Prop where
  timely : Timely s
  signed : Signed s
  retained : Retained cfg s
  atMost : AtMost k s

theorem overlapping_step (h : Step cfg s a t) (hc : Concurrent k s a)
    (hs : Overlapping cfg k s) : Overlapping cfg k t where
  timely := timely_step h hs.timely
  signed := signed_step h hs.signed
  retained := retained_step h hs.timely hs.retained
  atMost := atMost_step h hc hs.atMost

theorem overlapping_initial (cfg : Settings) (k : ℕ) (clock : ℚ) :
    Overlapping cfg k (initial clock) := by
  have hstrict : Strict cfg (initial clock) := strict_initial clock
  exact ⟨hstrict.timely, hstrict.signed, hstrict.retained, Nat.zero_le _⟩

theorem reckoned_run {clock : ℚ} (hp : Short cfg.window p)
    (h : ((sys cfg).restrict (Concurrent k)).MTr (initial clock) xs s) :
    Reckoned cfg k p s ∧ AtMost k s := by
  have hinv : ((sys cfg).restrict (Concurrent k)).TrInv fun s =>
      Overlapping cfg k s ∧ Reckoned cfg k p s := by
    rintro s a t ⟨hc, hstep⟩ ⟨ho, hs⟩
    have ho' := overlapping_step (sys_step hstep) hc ho
    exact ⟨ho', reckoned_step hp (sys_step hstep) ho.timely ho.signed ho.retained ho.atMost
      ho'.atMost hs⟩
  have hs := LTS.mtrInv_of_trInv hinv h
    ⟨overlapping_initial cfg k clock, Or.inl ⟨le_rfl, Nat.zero_le _⟩⟩
  exact ⟨hs.2, hs.1.atMost⟩

theorem accepts_le {clock : ℚ} (hp : Short cfg.window p)
    (h : ((sys cfg).restrict (Concurrent k)).MTr (initial clock) xs s) :
    s.accepts p ≤ cfg.maxRequests + 2 * k - 1 := by
  obtain ⟨hs, hk⟩ := reckoned_run hp h
  rcases hs with hs | hs
  · have htotal := hs.total hk
    omega
  · have hbound := hs.bound
    omega

/-- With at most `k` calls in progress at a time, every half-open interval as long as the window
holds the timestamps of at most `limit + 2 k - 1` accepted calls, whatever fails or expires. -/
theorem limit_overshoot {clock : ℚ}
    (h : ((sys cfg).restrict (Concurrent k)).MTr (initial clock) xs s) (a : ℚ) :
    s.accepted.countP (fun x => a ≤ x ∧ x < a + cfg.window) ≤ cfg.maxRequests + 2 * k - 1 ∧
      s.accepted.countP (fun x => a < x ∧ x ≤ a + cfg.window) ≤ cfg.maxRequests + 2 * k - 1 :=
  ⟨accepts_le (short_closedOpen _ a) h, accepts_le (short_openClosed _ a) h⟩

/-- Two calls count before either adds its member; when the key expires, two more have read the
clock already. -/
def lapsedRun : List Action :=
  [.start, .start, .check 0, .check 1, .add 0, .add 1, .tick 3599, .start, .start, .tick 1,
    .check 2, .check 3, .add 2, .add 3]

theorem limit_overshoot_attained :
    ∃ s, ((sys ⟨1, 3600⟩).restrict (Concurrent 2)).MTr (initial 0) lapsedRun s ∧
    s.accepted.countP (fun x => 0 ≤ x ∧ x < 0 + (Settings.mk 1 3600).window) = 4 ∧
    s.accepted.countP (fun x => 0 ≤ x ∧ x < 0 + (Settings.mk 1 3600).window) ≤ 1 + 2 * 2 - 1 := by
  have hrun : (LTS.run (LTS.guarded (Concurrent 2) (step ⟨1, 3600⟩)) (initial 0) lapsedRun).map
      (fun s => s.accepted.countP fun x => 0 ≤ x ∧ x < 0 + (Settings.mk 1 3600).window) =
        some 4 := by
    decide +kernel
  obtain ⟨s, h, hcount⟩ := LTS.exists_mTr_guarded hrun
  exact ⟨s, h, hcount, (limit_overshoot h 0).1⟩

/-! ### The size of the key -/

def State.adding (s : State) : ℕ := s.adds fun _ => true

theorem addsIn_true (c : Call) : Call.addsIn (fun _ => true) c = c.isAdding := by
  simp [Call.addsIn]

/-- Each call lets at most one member in, after it has seen room. -/
def Sized (cfg : Settings) (k : ℕ) (s : State) : Prop :=
  s.zset.length + s.adding ≤ cfg.maxRequests + k - 1

/-- A key with members expires within a window. -/
def Expiring (cfg : Settings) (s : State) : Prop :=
  s.zset = [] ∧ s.expiry = none ∨ ∃ e, s.expiry = some e ∧ e ≤ s.clock + cfg.window

theorem sized_sweep {cutoff : ℚ} (hi : s.calls[i]? = some ⟨n, .checking⟩)
    (hroom : stage = .adding → (removeThrough cutoff s.zset).length < cfg.maxRequests)
    (hk : AtMost k ((s.sweep cutoff).setCall i ⟨n, stage⟩)) (hs : Sized cfg k s) :
    Sized cfg k ((s.sweep cutoff).setCall i ⟨n, stage⟩) := by
  unfold Sized at hs ⊢
  generalize ht : (s.sweep cutoff).setCall i ⟨n, stage⟩ = t at hk ⊢
  have hzset : t.zset = removeThrough cutoff s.zset := by
    rw [← ht]
    rfl
  have hlength : t.zset.length ≤ s.zset.length := by
    rw [hzset]
    exact List.length_filter_le _ _
  by_cases hstage : stage = .adding
  · have hlt := hroom hstage
    have hadding : t.adding ≤ k := adds_le hk
    rw [hzset]
    omega
  · have hadding : t.adding ≤ s.adding := by
      rw [← ht]
      refine Pool.countP_set_le hi ?_
      simp [addsIn_true, Call.isAdding, hstage]
    omega

theorem sized_insert (hsigned : Signed s) (hi : s.calls[i]? = some ⟨n, .adding⟩)
    (hstage : stage ≠ .adding) {l : List ℚ} (hs : Sized cfg k s) :
    Sized cfg k (State.setCall { s.insert cfg ⟨n, i⟩ with accepted := l } i ⟨n, stage⟩) := by
  generalize ht : State.setCall { s.insert cfg ⟨n, i⟩ with accepted := l } i ⟨n, stage⟩ = t
  have hlength : t.zset.length = s.zset.length + 1 := by
    rw [← ht, setCall_zset]
    simp only [State.insert, add_of_fresh (fresh_of_signed hsigned hi rfl), List.length_cons]
  have hadding : t.adding + 1 = s.adding := by
    have hset := adds_set (fun _ => true) stage hi
    have hnew : Call.addsIn (fun _ => true) ⟨n, stage⟩ = false := by
      simp [addsIn_true, Call.isAdding, hstage]
    rw [hnew] at hset
    rw [← ht]
    exact hset
  unfold Sized at hs ⊢
  omega

theorem sized_step (h : Step cfg s a t) (hsigned : Signed s) (hk : AtMost k t)
    (hs : Sized cfg k s) : Sized cfg k t := by
  cases h with
  | tick => exact hs
  | expire =>
    unfold Sized at hs ⊢
    exact (Nat.add_le_add_right (Nat.zero_le _) _).trans hs
  | start =>
    unfold Sized State.adding State.adds at hs ⊢
    rw [List.countP_append, List.countP_singleton]
    exact hs
  | check hi => exact sized_sweep hi length_of_branch_adding hk hs
  | add hi => exact sized_insert hsigned hi (by simp) hs
  | @failCheck i n applied hi =>
    cases applied with
    | false => exact (Nat.add_le_add_left (Pool.countP_set_le hi rfl) _).trans hs
    | true => exact sized_sweep hi (by simp) hk hs
  | @failAdd i n applied hi =>
    cases applied with
    | false => exact (Nat.add_le_add_left (Pool.countP_set_le hi rfl) _).trans hs
    | true => exact sized_insert hsigned hi (by simp) hs

theorem expiring_sweep {cutoff : ℚ} (hs : Expiring cfg s) : Expiring cfg (s.sweep cutoff) := by
  unfold Expiring State.sweep at *
  by_cases hz : removeThrough cutoff s.zset = []
  · simp [hz]
  · rcases hs with ⟨hnil, _⟩ | hs
    · simp [hnil, removeThrough] at hz
    · exact Or.inr (by simpa [hz] using hs)

theorem expiring_step (h : Step cfg s a t) (hs : Expiring cfg s) : Expiring cfg t := by
  cases h with
  | tick hd =>
    refine hs.imp_right fun ⟨e, he, hle⟩ => ⟨e, he, hle.trans ?_⟩
    exact add_le_add_left (le_add_of_nonneg_right hd) _
  | expire => exact Or.inl ⟨rfl, rfl⟩
  | start => exact hs
  | check => exact expiring_sweep hs
  | add => exact Or.inr ⟨_, rfl, le_rfl⟩
  | @failCheck i n applied =>
    cases applied with
    | false => exact hs
    | true => exact expiring_sweep hs
  | @failAdd i n applied =>
    cases applied with
    | false => exact hs
    | true => exact Or.inr ⟨_, rfl, le_rfl⟩

/-- The set of a user never holds more than `limit + k - 1` members, each of a call that was let
through or raised and no two of one call, so rejected calls add none; and a window without a step
empties it. -/
theorem storage_bounded {clock : ℚ}
    (h : ((sys cfg).restrict (Concurrent k)).MTr (initial clock) xs s) :
    s.zset.length ≤ cfg.maxRequests + k - 1 ∧
    (∀ e ∈ s.zset, ∃ c, s.calls[e.1.uuid]? = some c ∧ c.now = e.2 ∧
      (c.stage = .accepted ∨ c.stage = .failed)) ∧
    (s.zset.map (·.1.uuid)).Nodup ∧
    ∀ d t, cfg.window ≤ d → (sys cfg).Tr s (.tick d) t → t.zset = [] ∧ t.expiry = none := by
  have hinv : ((sys cfg).restrict (Concurrent k)).TrInv fun s =>
      Overlapping cfg k s ∧ Sized cfg k s ∧ Expiring cfg s := by
    rintro s a t ⟨hc, hstep⟩ ⟨ho, hsize, hexpiry⟩
    have ho' := overlapping_step (sys_step hstep) hc ho
    exact ⟨ho', sized_step (sys_step hstep) ho.signed ho'.atMost hsize,
      expiring_step (sys_step hstep) hexpiry⟩
  obtain ⟨_, hsize, hexpiry⟩ := LTS.mtrInv_of_trInv hinv h
    ⟨overlapping_initial cfg k clock, Nat.zero_le _, Or.inl ⟨rfl, rfl⟩⟩
  obtain ⟨hmembers, hdistinct⟩ := attributed_run h.of_restrict
  refine ⟨(Nat.le_add_right _ _).trans hsize, ?_, hdistinct, ?_⟩
  · intro e he
    obtain ⟨c, hc, hnow, hentered⟩ := hmembers e he
    exact ⟨c, hc, hnow, by simpa [Call.entered] using hentered⟩
  · intro d t hd htick
    cases sys_step htick with
    | expire => exact ⟨rfl, rfl⟩
    | tick _ he =>
      rcases hexpiry with hempty | ⟨e, hsome, hle⟩
      · exact hempty
      · have hgone : e ≤ s.clock + d := hle.trans (add_le_add_right hd _)
        simp [State.expires, hsome, hgone] at he

/-- Of two calls that overlap both are let through; the third is rejected and leaves nothing. -/
def fullRun : List Action := [.start, .start, .check 0, .check 1, .add 0, .add 1, .start, .check 2]

theorem storage_bounded_full :
    ∃ s c, ((sys ⟨1, 3600⟩).restrict (Concurrent 2)).MTr (initial 0) fullRun s ∧
    s.calls[2]? = some c ∧ c.stage = .rejected 3600 ∧ s.zset.length = 2 ∧
    s.zset.length ≤ 1 + 2 - 1 ∧ ∀ e ∈ s.zset, e.1.uuid ≠ 2 := by
  have hrun : (LTS.run (LTS.guarded (Concurrent 2) (step ⟨1, 3600⟩)) (initial 0) fullRun).map
      (fun s => (s.zset.length, (s.calls[2]?).map (·.stage))) =
        some (2, some (.rejected 3600)) := by
    decide +kernel
  obtain ⟨s, h, hsize⟩ := LTS.exists_mTr_guarded hrun
  obtain ⟨hlength, hstage⟩ := Prod.mk.inj hsize
  obtain ⟨c, hc, hrejected⟩ := Option.map_eq_some_iff.mp hstage
  obtain ⟨hle, hmembers, _⟩ := storage_bounded h
  refine ⟨s, c, h, hc, hrejected, hlength, hle, fun e he hid => ?_⟩
  obtain ⟨d, hd, _, hentered⟩ := hmembers e he
  rw [hid] at hd
  cases hc.symm.trans hd
  simp [hrejected] at hentered

end NotificationService.RateLimit
