import NotificationService.Foundation.SlidingWindow
import NotificationService.Service.RateLimiter

/-! The limit over every window: stale counts break it, and calls whose first pipelines come in
the order of their readings keep it. -/
namespace NotificationService.RateLimit

open Transition SortedSet SlidingWindow

variable {cfg : Settings} {s t : State} {a : Action} {xs : List Action}

def Call.isChecking (c : Call) : Bool := c.stage = .checking

def Call.isAdding (c : Call) : Bool := c.stage = .adding

/-- First pipelines run in the order of the clock readings and never between the two pipelines of
another call, and the key does not expire while a call that has read the clock awaits its first. -/
def InOrder (s : State) : Action → Prop
  | .check i =>
    s.calls.all (!·.isAdding) = true ∧
      s.calls[i]?.all (fun c => s.calls.all fun b => b.isChecking || b.now ≤ c.now) = true
  | .tick d => s.expires d = true → s.calls.all (!·.isChecking) = true
  | _ => True

instance (s : State) (a : Action) : Decidable (InOrder s a) := by
  unfold InOrder
  split <;> infer_instance

/-! ### Readings and members -/

/-- No reading is ahead of the clock. -/
structure Timely (s : State) : Prop where
  readings : ∀ c ∈ s.calls, c.now ≤ s.clock
  past : ∀ x ∈ s.accepted, x ≤ s.clock

theorem timely_step (h : Step cfg s a t) (hs : Timely s) : Timely t := by
  obtain ⟨hreadings, hpast⟩ := hs
  cases h with
  | tick hd | expire hd =>
    have hle : s.clock ≤ s.clock + _ := le_add_of_nonneg_right hd
    exact ⟨fun c hc => (hreadings c hc).trans hle, fun x hx => (hpast x hx).trans hle⟩
  | start => exact ⟨Pool.forall_concat hreadings le_rfl, hpast⟩
  | check hc =>
    have hn := hreadings _ (List.mem_of_getElem? hc)
    exact ⟨Pool.forall_set hreadings hn, hpast⟩
  | add hc =>
    have hn := hreadings _ (List.mem_of_getElem? hc)
    refine ⟨Pool.forall_set hreadings hn, ?_⟩
    exact List.forall_mem_cons.mpr ⟨hn, hpast⟩
  | @failCheck i n applied hc | @failAdd i n applied hc =>
    have hn := hreadings _ (List.mem_of_getElem? hc)
    cases applied <;> exact ⟨Pool.forall_set hreadings hn, hpast⟩

def Call.isOver (c : Call) : Bool := !c.isChecking && !c.isAdding

/-- Each member was added by a call that is over. -/
def Signed (s : State) : Prop :=
  ∀ e ∈ s.zset, ∃ c, s.calls[e.1.uuid]? = some c ∧ c.isOver = true

theorem signed_set {i j : ℕ} {b c : Call} (hi : s.calls[i]? = some b) (hb : b.isOver = false)
    (h : ∃ c, s.calls[j]? = some c ∧ c.isOver = true) :
    ∃ d, (s.calls.set i c)[j]? = some d ∧ d.isOver = true := by
  obtain ⟨d, hd, hover⟩ := h
  have hne : i ≠ j := by
    rintro rfl
    cases hi.symm.trans hd
    simp [hb] at hover
  exact ⟨d, by rw [List.getElem?_set_ne hne, hd], hover⟩

/-- The member of a call under way is not in the set yet. -/
theorem fresh_of_signed (hs : Signed s) {i : ℕ} {n : ℚ} {b : Call} (hi : s.calls[i]? = some b)
    (hb : b.isOver = false) : ∀ e ∈ s.zset, e.1 ≠ ⟨n, i⟩ := by
  rintro e he heq
  obtain ⟨c, hc, hover⟩ := hs e he
  rw [heq] at hc
  cases hi.symm.trans hc
  simp [hb] at hover

theorem signed_sweep (hs : Signed s) (cutoff : ℚ) : Signed (s.sweep cutoff) :=
  fun e he => hs e (mem_of_mem_removeThrough he)

theorem signed_insert (cfg : Settings) (hs : Signed s) {i : ℕ} {n : ℚ} {b c : Call}
    (hi : s.calls[i]? = some b)
    (hb : b.isOver = false) (hc : c.isOver = true) :
    Signed ((s.insert cfg ⟨n, i⟩).setCall i c) := by
  intro e he
  simp only [setCall_zset, State.insert, add_of_fresh (fresh_of_signed hs hi hb)] at he
  rcases List.mem_cons.mp he with rfl | he
  · refine ⟨c, ?_, hc⟩
    simp only [setCall_calls, State.insert]
    rw [List.getElem?_set_self (List.getElem?_eq_some_iff.mp hi).1]
  · exact signed_set hi hb (hs e he)

theorem signed_step (h : Step cfg s a t) (hs : Signed s) : Signed t := by
  cases h with
  | tick => exact hs
  | expire => exact fun e he => by cases he
  | start =>
    intro e he
    obtain ⟨c, hc, hover⟩ := hs e he
    exact ⟨c, List.getElem?_append_left (List.getElem?_eq_some_iff.mp hc).1 ▸ hc, hover⟩
  | check hc => exact fun e he => signed_set hc rfl (signed_sweep hs _ e he)
  | add hc => exact signed_insert cfg hs hc rfl rfl
  | @failCheck i n applied hc =>
    cases applied with
    | false => exact fun e he => signed_set hc rfl (hs e he)
    | true => exact fun e he => signed_set hc rfl (signed_sweep hs _ e he)
  | @failAdd i n applied hc =>
    cases applied with
    | false => exact fun e he => signed_set hc rfl (hs e he)
    | true => exact signed_insert cfg hs hc rfl rfl

/-! ### Nothing recent expires -/

/-- The key outlives the window of every accepted timestamp. -/
def Retained (cfg : Settings) (s : State) : Prop :=
  ∀ e, s.expiry = some e → ∀ x ∈ s.accepted, x + cfg.window ≤ e

theorem retained_sweep (hs : Retained cfg s) (cutoff : ℚ) : Retained cfg (s.sweep cutoff) := by
  intro e he
  simp only [State.sweep] at he
  split at he
  · cases he
  · exact hs e he

theorem retained_step (h : Step cfg s a t) (htimely : Timely s) (hs : Retained cfg s) :
    Retained cfg t := by
  obtain ⟨hreadings, hpast⟩ := htimely
  cases h with
  | tick | start => exact hs
  | expire => exact fun e he => by cases he
  | check => exact retained_sweep hs _
  | add hc =>
    intro e he x hx
    cases he
    rcases List.mem_cons.mp hx with rfl | hx
    · exact add_le_add_left (hreadings _ (List.mem_of_getElem? hc)) _
    · exact add_le_add_left (hpast x hx) _
  | @failCheck i n applied hc =>
    cases applied with
    | false => exact hs
    | true => exact retained_sweep hs _
  | @failAdd i n applied hc =>
    cases applied with
    | false => exact hs
    | true =>
      intro e he x hx
      cases he
      exact add_le_add_left (hpast x hx) _

theorem Retained.out (hs : Retained cfg s) {d : ℚ} (he : s.expires d = true) :
    ∀ x ∈ s.accepted, x + cfg.window ≤ s.clock + d := by
  intro x hx
  unfold State.expires at he
  cases hexp : s.expiry with
  | none => simp [hexp] at he
  | some e => exact (hs e hexp x hx).trans (by simpa [hexp] using he)

/-! ### The set counts every recent acceptance -/

/-- Every accepted timestamp over `low` is counted, and no call that may still run its first
pipeline in order looks below `low`. -/
structure Complete (window low : ℚ) (s : State) : Prop where
  clock : low ≤ s.clock - window
  waiting : ∀ c ∈ s.calls, c.isChecking = true →
    (∀ b ∈ s.calls, b.isChecking = false → b.now ≤ c.now) → low ≤ c.now - window
  count : ∀ x, low ≤ x → s.accepted.countP (x < ·) ≤ above x s.zset

variable {i : ℕ} {n low x : ℚ} {b stage : Stage}

/-- A call that moves on keeps its reading, so it lets no other call wait any less. -/
theorem waiting_set {window : ℚ} {l : List Call} (hi : l[i]? = some ⟨n, b⟩)
    (hstage : stage ≠ .checking)
    (hw : ∀ c ∈ l, c.isChecking = true →
      (∀ d ∈ l, d.isChecking = false → d.now ≤ c.now) → low ≤ c.now - window) :
    ∀ c ∈ l.set i ⟨n, stage⟩, c.isChecking = true →
      (∀ d ∈ l.set i ⟨n, stage⟩, d.isChecking = false → d.now ≤ c.now) →
        n ≤ c.now ∧ low ≤ c.now - window := by
  intro c hc hchecking hle
  have hnew : n ≤ c.now := by
    refine hle ⟨n, stage⟩ ?_ (by simp [Call.isChecking, hstage])
    exact List.mem_set (List.getElem?_eq_some_iff.mp hi).1 _
  refine ⟨hnew, ?_⟩
  rcases List.mem_or_eq_of_mem_set hc with hold | rfl
  · refine hw c hold hchecking ?_
    intro d hd hover
    rcases Pool.mem_set_or_eq (a := ⟨n, stage⟩) hi hd with hmem | rfl
    · exact hle d hmem hover
    · exact hnew
  · simp [Call.isChecking, hstage] at hchecking

theorem complete_setCall {window : ℚ} (h : Complete window low s) (hi : s.calls[i]? = some ⟨n, b⟩)
    (hstage : stage ≠ .checking) : Complete window low (s.setCall i ⟨n, stage⟩) :=
  ⟨h.clock, fun c hc hchecking hle => (waiting_set hi hstage h.waiting c hc hchecking hle).2,
    h.count⟩

theorem complete_sweep {window : ℚ} (h : Complete window low s) (hi : s.calls[i]? = some ⟨n, b⟩)
    (hn : n ≤ s.clock) (hstage : stage ≠ .checking) :
    Complete window (max low (n - window)) ((s.sweep (n - window)).setCall i ⟨n, stage⟩) := by
  refine ⟨max_le h.clock (sub_le_sub_right hn _), ?_, ?_⟩
  · intro c hc hchecking hle
    obtain ⟨hnow, hlow⟩ := waiting_set hi hstage h.waiting c hc hchecking hle
    exact max_le hlow (sub_le_sub_right hnow _)
  · intro x hx
    obtain ⟨hlow, hcut⟩ := max_le_iff.mp hx
    exact (h.count x hlow).trans_eq (above_removeThrough hcut).symm

/-- The set may count more than was accepted, but not less. -/
theorem complete_insert (h : Complete cfg.window low s) (hs : Signed s)
    (hi : s.calls[i]? = some ⟨n, .adding⟩) (hstage : stage ≠ .checking) {l : List ℚ}
    (hl : l = s.accepted ∨ l = n :: s.accepted) :
    Complete cfg.window low
      (State.setCall { s.insert cfg ⟨n, i⟩ with accepted := l } i ⟨n, stage⟩) := by
  refine ⟨h.clock, fun c hc hchecking hle => (waiting_set hi hstage h.waiting c hc hchecking hle).2,
    ?_⟩
  intro x hx
  have hcount := h.count x hx
  have hfresh := fresh_of_signed (n := n) hs hi rfl
  simp only [setCall_zset, State.insert, add_of_fresh hfresh, above_cons, setCall_accepted]
  rcases hl with rfl | rfl
  · omega
  · simp only [List.countP_cons, decide_eq_true_eq]
    omega

/-- When the key expires, every accepted timestamp has left the window. -/
theorem complete_expire {d : ℚ} (ho : InOrder s (.tick d)) (hr : Retained cfg s)
    (he : s.expires d = true) : Complete cfg.window (s.clock + d - cfg.window)
      { s with clock := s.clock + d, zset := [], expiry := none } := by
  refine ⟨le_rfl, ?_, ?_⟩
  · intro c hmem hchecking
    have hover := List.all_eq_true.mp (ho he) c hmem
    rw [hchecking] at hover
    cases hover
  · intro x hx
    have hzero : s.accepted.countP (x < ·) = 0 := by
      refine List.countP_eq_zero.mpr ?_
      intro y hy
      have hold := hr.out he y hy
      simp only [decide_eq_true_eq, not_lt]
      exact (le_sub_iff_add_le.mpr hold).trans hx
    rw [hzero]
    exact Nat.zero_le _

theorem complete_step (h : Step cfg s a t) (ho : InOrder s a) (htimely : Timely s) (hs : Signed s)
    (hr : Retained cfg s) (hc : ∃ low, Complete cfg.window low s) :
    ∃ low, Complete cfg.window low t := by
  obtain ⟨low, hc⟩ := hc
  cases h with
  | tick hd =>
    have hle : s.clock ≤ s.clock + _ := le_add_of_nonneg_right hd
    exact ⟨low, hc.clock.trans (sub_le_sub_right hle _), hc.waiting, hc.count⟩
  | expire _ he => exact ⟨_, complete_expire ho hr he⟩
  | start =>
    refine ⟨low, hc.clock, ?_, hc.count⟩
    intro c hmem hchecking hle
    rcases List.mem_append.mp hmem with hold | hnew
    · exact hc.waiting c hold hchecking fun d hd => hle d (List.mem_append_left _ hd)
    · rw [List.mem_singleton.mp hnew]
      exact hc.clock
  | check hi =>
    have hn := htimely.readings _ (List.mem_of_getElem? hi)
    exact ⟨_, complete_sweep hc hi hn (branch_ne_checking _ _)⟩
  | add hi =>
    refine ⟨low, complete_insert hc hs hi ?_ (Or.inr rfl)⟩
    exact nofun
  | @failCheck i n applied hi =>
    have hn := htimely.readings _ (List.mem_of_getElem? hi)
    cases applied with
    | false => exact ⟨low, complete_setCall hc hi nofun⟩
    | true => exact ⟨_, complete_sweep hc hi hn nofun⟩
  | @failAdd i n applied hi =>
    cases applied with
    | false => exact ⟨low, complete_setCall hc hi nofun⟩
    | true =>
      refine ⟨low, complete_insert hc hs hi ?_ (Or.inl rfl)⟩
      exact nofun

/-! ### Room for the call between its pipelines -/

def OneAdding (s : State) : Prop := s.calls.countP Call.isAdding ≤ 1

/-- A call that was let through still has room in its window. -/
def Room (cfg : Settings) (s : State) : Prop :=
  ∀ c ∈ s.calls, c.isAdding = true →
    s.accepted.countP (c.now - cfg.window < ·) < cfg.maxRequests

/-- The first pipeline of a call in order counts everything accepted in its window. -/
theorem room_of_branch (hc : Complete cfg.window low s) (hi : s.calls[i]? = some ⟨n, .checking⟩)
    (ho : InOrder s (.check i))
    (hb : branch cfg n (removeThrough (n - cfg.window) s.zset) = .adding) :
    s.accepted.countP (n - cfg.window < ·) < cfg.maxRequests := by
  have hlow : low ≤ n - cfg.window := by
    refine hc.waiting _ (List.mem_of_getElem? hi) rfl ?_
    intro d hd hover
    have hall := ho.2
    simp only [hi, Option.all_some, List.all_eq_true] at hall
    simpa [hover] using hall d hd
  have hlength := length_of_branch_adding hb
  rw [length_removeThrough] at hlength
  exact (hc.count _ hlow).trans_lt hlength

theorem none_adding (ho : InOrder s (.check i)) : ∀ c ∈ s.calls, c.isAdding = false := by
  intro c hc
  simpa using List.all_eq_true.mp ho.1 c hc

theorem oneAdding_step (h : Step cfg s a t) (ho : InOrder s a) (hone : OneAdding s) :
    OneAdding t := by
  unfold OneAdding at hone ⊢
  cases h with
  | tick | expire => exact hone
  | start => simpa [List.countP_append, Call.isAdding] using hone
  | @check i n hi =>
    have hzero : s.calls.countP Call.isAdding = 0 := by
      simpa [List.countP_eq_zero] using none_adding ho
    have hset := Pool.countP_set (p := Call.isAdding)
      (a := ⟨n, branch cfg n (removeThrough (n - cfg.window) s.zset)⟩) hi
    have hnew :=
      Bool.toNat_le (Call.isAdding ⟨n, branch cfg n (removeThrough (n - cfg.window) s.zset)⟩)
    simp only [setCall_calls, State.sweep]
    omega
  | add hi => exact (Pool.countP_set_le hi rfl).trans hone
  | @failCheck i n applied hi | @failAdd i n applied hi =>
    cases applied <;> exact (Pool.countP_set_le hi rfl).trans hone

theorem room_step (h : Step cfg s a t) (ho : InOrder s a) (hone : OneAdding s)
    (hc : ∃ low, Complete cfg.window low s) (hroom : Room cfg s) : Room cfg t := by
  obtain ⟨low, hc⟩ := hc
  cases h with
  | tick | expire => exact hroom
  | start => exact Pool.forall_concat hroom nofun
  | check hi =>
    refine Pool.forall_set hroom ?_
    intro hadding
    have hbranch := room_of_branch hc hi ho (by simpa [Call.isAdding] using hadding)
    exact hbranch
  | add hi =>
    exact Pool.forall_set_of_sole hone hi rfl nofun
  | @failCheck i n applied hi | @failAdd i n applied hi =>
    cases applied <;> exact Pool.forall_set hroom nofun

theorem admitted_step (h : Step cfg s a t) (hroom : Room cfg s)
    (hs : Admitted cfg.window cfg.maxRequests s.accepted) :
    Admitted cfg.window cfg.maxRequests t.accepted := by
  cases h with
  | add hi =>
    have hfree := hroom _ (List.mem_of_getElem? hi) rfl
    exact Admitted.cons hfree hs
  | @failCheck i n applied | @failAdd i n applied => cases applied <;> exact hs
  | _ => exact hs

structure Strict (cfg : Settings) (s : State) : Prop where
  timely : Timely s
  signed : Signed s
  retained : Retained cfg s
  complete : ∃ low, Complete cfg.window low s
  one : OneAdding s
  room : Room cfg s
  admitted : Admitted cfg.window cfg.maxRequests s.accepted

theorem strict_step (h : Step cfg s a t) (ho : InOrder s a) (hs : Strict cfg s) : Strict cfg t where
  timely := timely_step h hs.timely
  signed := signed_step h hs.signed
  retained := retained_step h hs.timely hs.retained
  complete := complete_step h ho hs.timely hs.signed hs.retained hs.complete
  one := oneAdding_step h ho hs.one
  room := room_step h ho hs.one hs.complete hs.room
  admitted := admitted_step h hs.room hs.admitted

theorem strict_initial (clock : ℚ) : Strict cfg (initial clock) where
  timely := ⟨nofun, nofun⟩
  signed := nofun
  retained := nofun
  complete := ⟨clock - cfg.window, le_rfl, nofun, fun _ _ => Nat.zero_le _⟩
  one := Nat.zero_le _
  room := nofun
  admitted := trivial

/-- In every run in order, every half-open interval as long as the window holds the timestamps of
at most `limit` accepted calls. -/
theorem limit_strict {clock : ℚ} (h : ((sys cfg).restrict InOrder).MTr (initial clock) xs s)
    (a : ℚ) :
    s.accepted.countP (fun x => a ≤ x ∧ x < a + cfg.window) ≤ cfg.maxRequests ∧
      s.accepted.countP (fun x => a < x ∧ x ≤ a + cfg.window) ≤ cfg.maxRequests := by
  have hinv : ((sys cfg).restrict InOrder).TrInv (Strict cfg) := by
    rintro s a t ⟨ho, hstep⟩ hs
    exact strict_step (sys_step hstep) ho hs
  have hs := (LTS.mtrInv_of_trInv hinv h (strict_initial clock)).admitted
  exact ⟨hs.closedOpen a, hs.openClosed a⟩

/-- Two calls are accepted, a third is rejected, and a fourth finds the first one gone. -/
def orderedRun : List Action :=
  [.start, .check 0, .add 0, .tick 10, .start, .check 1, .add 1, .tick 10, .start, .check 2,
    .tick 3581, .start, .check 3, .add 3]

theorem limit_strict_ordered :
    ∃ s, ((sys ⟨2, 3600⟩).restrict InOrder).MTr (initial 0) orderedRun s ∧
    s.calls = [⟨0, .accepted⟩, ⟨10, .accepted⟩, ⟨20, .rejected 3580⟩, ⟨3601, .accepted⟩] ∧
    ∀ a, s.accepted.countP (fun x => a ≤ x ∧ x < a + (Settings.mk 2 3600).window) ≤ 2 := by
  have hrun : (LTS.run (LTS.guarded InOrder (step ⟨2, 3600⟩)) (initial 0) orderedRun).map (·.calls) =
      some [⟨0, .accepted⟩, ⟨10, .accepted⟩, ⟨20, .rejected 3580⟩, ⟨3601, .accepted⟩] := by
    decide +kernel
  obtain ⟨s, h, hcalls⟩ := LTS.exists_mTr_guarded hrun
  exact ⟨s, h, hcalls, fun a => (limit_strict h a).1⟩

/-- Two calls count before either adds its member. -/
def staleCountRun : List Action :=
  [.start, .start, .check 0, .check 1, .add 0, .add 1]

theorem limit_exceeded : ¬ ∀ cfg, 1 ≤ cfg.maxRequests → 1 ≤ cfg.windowSeconds → ∀ clock xs s,
    (sys cfg).MTr (initial clock) xs s →
      ∀ a, s.accepted.countP (fun x => a ≤ x ∧ x < a + cfg.window) ≤ cfg.maxRequests := by
  intro h
  have hrun : (LTS.run (step ⟨1, 3600⟩) (initial 0) staleCountRun).map
      (fun s => s.accepted.countP fun x => 0 ≤ x ∧ x < 0 + (Settings.mk 1 3600).window) = some 2 := by
    decide +kernel
  obtain ⟨s, hs, hcount⟩ := LTS.exists_mTr hrun
  have hle := h ⟨1, 3600⟩ le_rfl (by decide) 0 staleCountRun s hs 0
  rw [hcount] at hle
  exact absurd hle (by decide)

end NotificationService.RateLimit
