import NotificationService.Service.StrictLimit

/-! No call is rejected without cause: the calls that fill the window are still known. -/
namespace NotificationService.RateLimit

open Transition SortedSet

variable {cfg : Settings} {s t : State} {a : Action} {xs : List Action} {i j : ℕ} {n : ℚ} {c : Call}

/-- The call whose pipeline runs. -/
def Action.call : Action → Option ℕ
  | .check i | .add i | .fail i _ => some i
  | .tick _ | .start => none

/-- What a step does to the calls. -/
inductive Moves (s : State) (a : Action) (t : State) : Prop where
  | same : a.call = none → t.calls = s.calls → Moves s a t
  | starts : a.call = none → t.calls = s.calls ++ [⟨s.clock, .checking⟩] → Moves s a t
  | moves {i : ℕ} {n : ℚ} {b stage : Stage} : a.call = some i → s.calls[i]? = some ⟨n, b⟩ →
      Call.isOver ⟨n, b⟩ = false → t.calls = s.calls.set i ⟨n, stage⟩ → Moves s a t

theorem moves_step (h : Step cfg s a t) : Moves s a t := by
  cases h with
  | tick | expire => exact .same rfl rfl
  | start => exact .starts rfl rfl
  | check hi | add hi => exact .moves rfl hi rfl rfl
  | @failCheck _ _ applied hi | @failAdd _ _ applied hi =>
    cases applied <;> exact .moves rfl hi rfl rfl

/-- A call keeps its reading, and its outcome once it has one. -/
theorem call_step (h : Step cfg s a t) (hc : s.calls[j]? = some c) :
    ∃ d, t.calls[j]? = some d ∧ d.now = c.now ∧ (c.isOver = true → d = c) := by
  cases moves_step h with
  | same _ heq => exact ⟨c, heq ▸ hc, rfl, fun _ => rfl⟩
  | starts _ heq =>
    rw [heq, List.getElem?_append_left (List.getElem?_eq_some_iff.mp hc).1]
    exact ⟨c, hc, rfl, fun _ => rfl⟩
  | @moves i n b stage _ hi hb heq =>
    rw [heq]
    by_cases hij : i = j
    · subst hij
      cases hc.symm.trans hi
      refine ⟨_, List.getElem?_set_self (List.getElem?_eq_some_iff.mp hi).1, rfl, fun hover => ?_⟩
      rw [hb] at hover
      cases hover
    · exact ⟨c, by rw [List.getElem?_set_ne hij, hc], rfl, fun _ => rfl⟩

/-- The call whose pipeline runs is there before and after. -/
theorem exists_call (h : Step cfg s a t) (ha : a.call = some j) : ∃ c, t.calls[j]? = some c := by
  cases moves_step h with
  | same hnone | starts hnone => cases hnone.symm.trans ha
  | moves hi hc _ heq =>
    cases hi.symm.trans ha
    rw [heq]
    exact ⟨_, List.getElem?_set_self (List.getElem?_eq_some_iff.mp hc).1⟩

/-! ### Members and rejected calls -/

/-- The call was let through, or raised; only such a call can have a member. -/
def Call.entered (c : Call) : Bool := c.stage = .accepted || c.stage = .failed

/-- It entered with a reading after `low`. -/
def Call.enteredAfter (low : ℚ) (c : Call) : Bool := c.entered && low < c.now

theorem over_of_entered (hc : c.entered = true) : c.isOver = true := by
  unfold Call.entered at hc
  rcases Bool.or_eq_true_iff.mp hc with hc | hc <;>
    simp [Call.isOver, Call.isChecking, Call.isAdding, of_decide_eq_true hc]

/-- Each member has the reading of its own call, and no call has two. -/
structure Attributed (s : State) : Prop where
  members : ∀ e ∈ s.zset, ∃ c, s.calls[e.1.uuid]? = some c ∧ c.now = e.2 ∧ c.entered = true
  distinct : (s.zset.map (·.1.uuid)).Nodup

theorem Attributed.signed (hs : Attributed s) : Signed s := by
  intro e he
  obtain ⟨c, hc, _, hentered⟩ := hs.members e he
  exact ⟨c, hc, over_of_entered hentered⟩

/-- Members that stay keep their calls. -/
theorem members_step (h : Step cfg s a t) (hs : Attributed s) :
    ∀ e ∈ s.zset, ∃ c, t.calls[e.1.uuid]? = some c ∧ c.now = e.2 ∧ c.entered = true := by
  intro e he
  obtain ⟨c, hc, hnow, hentered⟩ := hs.members e he
  obtain ⟨d, hd, _, hover⟩ := call_step h hc
  rw [hover (over_of_entered hentered)] at hd
  exact ⟨c, hd, hnow, hentered⟩

theorem attributed_sublist (h : Step cfg s a t) (hs : Attributed s)
    (hsub : t.zset.Sublist s.zset) : Attributed t :=
  ⟨fun e he => members_step h hs e (hsub.subset he), hs.distinct.sublist (hsub.map _)⟩

/-- The second pipeline adds a member for its own call. -/
theorem attributed_insert (h : Step cfg s a t) (hs : Attributed s)
    (hi : s.calls[i]? = some ⟨n, .adding⟩) (hz : t.zset = (s.insert cfg ⟨n, i⟩).zset)
    (hc : t.calls[i]? = some c) (hnow : c.now = n) (hentered : c.entered = true) :
    Attributed t := by
  have hzset : t.zset = (⟨n, i⟩, n) :: s.zset := by
    rw [hz, State.insert, add_of_fresh (fresh_of_signed hs.signed hi rfl)]
  constructor
  · intro e he
    rw [hzset] at he
    rcases List.mem_cons.mp he with rfl | he
    · exact ⟨c, hc, hnow, hentered⟩
    · exact members_step h hs e he
  · rw [hzset, List.map_cons, List.nodup_cons]
    refine ⟨fun hmem => ?_, hs.distinct⟩
    obtain ⟨e, he, hid⟩ := List.mem_map.mp hmem
    obtain ⟨d, hd, _, hdone⟩ := hs.members e he
    rw [hid] at hd
    cases hi.symm.trans hd
    cases hdone

theorem attributed_step (h : Step cfg s a t) (hs : Attributed s) : Attributed t := by
  cases id h with
  | tick | start => exact attributed_sublist h hs (List.Sublist.refl _)
  | expire => exact attributed_sublist h hs (List.nil_sublist _)
  | check => exact attributed_sublist h hs List.filter_sublist
  | @add i n hi =>
    have hlt := (List.getElem?_eq_some_iff.mp hi).1
    have hself := List.getElem?_set_self (a := Call.mk n .accepted) hlt
    exact attributed_insert h hs hi rfl hself rfl rfl
  | @failCheck i n applied hi =>
    cases applied with
    | false => exact attributed_sublist h hs (List.Sublist.refl _)
    | true => exact attributed_sublist h hs List.filter_sublist
  | @failAdd i n applied hi =>
    cases applied with
    | false => exact attributed_sublist h hs (List.Sublist.refl _)
    | true =>
      have hlt := (List.getElem?_eq_some_iff.mp hi).1
      have hself := List.getElem?_set_self (a := Call.mk n .failed) hlt
      exact attributed_insert h hs hi rfl hself rfl rfl

/-- What fills the window of a first pipeline are calls that entered in it. -/
theorem length_le_entered (hs : Attributed s) (low : ℚ) :
    (removeThrough low s.zset).length ≤ s.calls.countP (Call.enteredAfter low) := by
  have hdistinct : ((removeThrough low s.zset).map (·.1.uuid)).Nodup :=
    hs.distinct.sublist (List.filter_sublist.map _)
  rw [← List.countP_true]
  refine Pool.countP_le_of_inj (f := fun e => e.1.uuid) ?_ ?_ ?_
  · exact (List.Nodup.of_map _ hdistinct).filter _
  · intro e he _
    obtain ⟨c, hc, hnow, hentered⟩ := hs.members e (mem_of_mem_removeThrough he)
    have hlow : low < e.2 := of_decide_eq_true (List.mem_filter.mp he).2
    exact ⟨c, hc, by simp [Call.enteredAfter, hentered, hnow, hlow]⟩
  · exact fun x hx y hy _ _ heq => List.inj_on_of_nodup_map hdistinct hx hy heq

theorem entered_step (h : Step cfg s a t) (low : ℚ) :
    s.calls.countP (Call.enteredAfter low) ≤ t.calls.countP (Call.enteredAfter low) := by
  cases moves_step h with
  | same _ heq => exact (congrArg _ heq).ge
  | starts _ heq =>
    rw [heq, List.countP_append]
    exact Nat.le_add_right _ _
  | @moves i n b stage _ hi hb heq =>
    have hset := Pool.countP_set (a := ⟨n, stage⟩) (p := Call.enteredAfter low) hi
    have hnot : Call.enteredAfter low ⟨n, b⟩ = false := by
      refine Bool.eq_false_iff.mpr fun hentered => ?_
      have hover := over_of_entered (Bool.and_eq_true_iff.mp hentered).1
      exact Bool.false_ne_true (hb.symm.trans hover)
    rw [hnot, Bool.toNat_false] at hset
    rw [heq]
    omega

/-- A rejected call was told to wait, and as many calls as the limit entered its window. -/
def Call.Earned (cfg : Settings) (s : State) (c : Call) : Prop :=
  ∀ r, c.stage = .rejected r → 1 ≤ r ∧
    cfg.maxRequests ≤ s.calls.countP (Call.enteredAfter (c.now - cfg.window))

theorem one_le_retryAfter (n : ℚ) (oldest : Option ℚ) : 1 ≤ retryAfter cfg n oldest := by
  cases oldest with
  | none => exact le_rfl
  | some x => exact le_max_left _ _

theorem earned_branch (hs : Attributed s) (n : ℚ) : Call.Earned cfg s
    ⟨n, branch cfg n (removeThrough (n - cfg.window) s.zset)⟩ := by
  intro r hr
  simp only [branch] at hr
  split at hr
  · obtain rfl := Stage.rejected.inj hr
    exact ⟨one_le_retryAfter _ _, le_trans ‹_› (length_le_entered hs _)⟩
  · cases hr

theorem Call.Earned.mono (hc : c.Earned cfg s) (h : Step cfg s a t) : c.Earned cfg t :=
  fun r hr => ⟨(hc r hr).1, (hc r hr).2.trans (entered_step h _)⟩

theorem earned_step (h : Step cfg s a t) (ha : Attributed s)
    (hs : ∀ c ∈ s.calls, c.Earned cfg s) : ∀ c ∈ t.calls, c.Earned cfg t := by
  have hold : ∀ c ∈ s.calls, c.Earned cfg t := fun c hc => (hs c hc).mono h
  cases id h with
  | tick | expire => exact hold
  | start => exact Pool.forall_concat hold nofun
  | check hi => exact Pool.forall_set hold ((earned_branch ha _).mono h)
  | add => exact Pool.forall_set hold nofun
  | @failCheck _ _ applied | @failAdd _ _ applied =>
    cases applied <;> exact Pool.forall_set hold nofun

theorem attributed_initial (clock : ℚ) : Attributed (initial clock) :=
  ⟨by simp [initial], List.nodup_nil⟩

theorem attributed_run {clock : ℚ} (h : (sys cfg).MTr (initial clock) xs s) : Attributed s := by
  have hinv : (sys cfg).TrInv Attributed := fun _ _ _ hstep => attributed_step (sys_step hstep)
  exact LTS.mtrInv_of_trInv hinv h (attributed_initial clock)

theorem earned_run {clock : ℚ} (h : (sys cfg).MTr (initial clock) xs s) :
    ∀ c ∈ s.calls, c.Earned cfg s := by
  have hinv : (sys cfg).TrInv fun s => Attributed s ∧ ∀ c ∈ s.calls, c.Earned cfg s :=
    fun s a t hstep hs => ⟨attributed_step (sys_step hstep) hs.1,
      earned_step (sys_step hstep) hs.1 hs.2⟩
  exact (LTS.mtrInv_of_trInv hinv h ⟨attributed_initial clock, by simp [initial]⟩).2

/-! ### Accepted calls -/

def Call.acceptedIn (p : ℚ → Bool) (c : Call) : Bool := c.stage = .accepted && p c.now

theorem acceptedIn_branch (p : ℚ → Bool) (n : ℚ) (z : List (Member × ℚ)) :
    Call.acceptedIn p ⟨n, branch cfg n z⟩ = false := by
  unfold Call.acceptedIn branch
  split <;> rfl

/-- The accepted timestamps are those of the accepted calls. -/
theorem accepted_step {p : ℚ → Bool} (h : Step cfg s a t)
    (hs : s.accepted.countP p = s.calls.countP (Call.acceptedIn p)) :
    t.accepted.countP p = t.calls.countP (Call.acceptedIn p) := by
  cases h with
  | tick | expire => exact hs
  | start =>
    rw [List.countP_append, ← hs]
    rfl
  | check hi => exact hs.trans (Pool.countP_set_eq hi (acceptedIn_branch p _ _)).symm
  | @add i n hi =>
    have hset := Pool.countP_set (a := ⟨n, .accepted⟩) (p := Call.acceptedIn p) hi
    have hold : Call.acceptedIn p ⟨n, .adding⟩ = false := rfl
    have hnew : Call.acceptedIn p ⟨n, .accepted⟩ = p n := rfl
    rw [hold, hnew, Bool.toNat_false, ← hs] at hset
    change (n :: s.accepted).countP p = (s.calls.set i ⟨n, .accepted⟩).countP (Call.acceptedIn p)
    rw [List.countP_cons]
    cases hp : p n <;> simp only [hp, Bool.toNat_false, Bool.toNat_true] at hset <;> simp <;> omega
  | @failCheck _ n applied hi | @failAdd _ n applied hi =>
    have hset := Pool.countP_set_eq (a := ⟨n, .failed⟩) (p := Call.acceptedIn p) hi rfl
    cases applied <;> exact hs.trans hset.symm

theorem accepted_run {clock : ℚ} (p : ℚ → Bool) (h : (sys cfg).MTr (initial clock) xs s) :
    s.accepted.countP p = s.calls.countP (Call.acceptedIn p) := by
  have hinv : (sys cfg).TrInv fun s => s.accepted.countP p = s.calls.countP (Call.acceptedIn p) :=
    fun _ _ _ hstep hs => accepted_step (sys_step hstep) hs
  exact LTS.mtrInv_of_trInv (P := fun s => s.accepted.countP p = s.calls.countP (Call.acceptedIn p))
    hinv h rfl

end NotificationService.RateLimit
