import NotificationService.Api.Enqueued

/-! Every request ends: it takes a limited number of operations, and always one is possible, its
own or one of the request that it waits for. -/
namespace NotificationService.Api

open Transition

variable {V : Type} {s t : State V} {i j : ℕ} {h h' g : Handler V} {f : Effect V}

/-- The most channels that a request is for. -/
def NotificationRequest.targets (r : NotificationRequest V) : ℕ :=
  match r.channels with
  | none | some [] => 3
  | some channels => channels.length

/-- The operations on Redis, the database and the broker that a step stands for: `check_rate_limit`
executes two pipelines, and `get_by_id` two SELECTs. A BEGIN belongs to the statement after it. -/
def PC.weight : PC V → ℕ
  | .checkRateLimit | .reload => 2
  | .finished _ => 0
  | _ => 1

/-- The most operations that a handler has still to take, with the rows that it has inserted. -/
def PC.operations (targets inserted : ℕ) : PC V → ℕ
  | .getEntry => 12 + 3 * targets
  | .setLock => 11 + 3 * targets
  | .checkRateLimit => 10 + 3 * targets
  | .getTemplate => 8 + 3 * targets
  | .getPreference _ => 7 + 3 * targets
  | .createNotification _ channels => 6 + 3 * channels.length
  | .insertDelivery channels => 5 + 3 * channels.length + inserted
  | .insertLog channels => 3 + 3 * channels.length + inserted
  | .commit => 5 + inserted
  | .applyAsync deliveries => 4 + deliveries.length
  | .reload => 4
  | .saveResponse _ => 2
  | .deleteKey _ => 1
  | .finished _ => 0

def Handler.inserted (h : Handler V) : ℕ := h.tx.elim 0 (·.deliveries.length)

def Handler.operations (h : Handler V) : ℕ := h.pc.operations h.payload.targets h.inserted

theorem filterChannels_length (p : Option UserPreference) (r : NotificationRequest V) :
    (filterChannels p r.channels).length ≤ r.targets := by
  unfold filterChannels NotificationRequest.targets
  rcases r.channels with _ | _ | ⟨c, cs⟩ <;> exact List.length_filter_le _ _

/-! ### What one step costs -/

theorem weight_le (p : PC V) (n d : ℕ) : p.weight ≤ p.operations n d := by
  cases p <;> simp only [PC.weight, PC.operations] <;> omega

/-- In the try block the deletion of the key still fits in. -/
theorem weight_inTry {p : PC V} (hp : p.inTry = true) (n d : ℕ) :
    p.weight + 1 ≤ p.operations n d := by
  cases p <;> simp [PC.weight, PC.operations, PC.inTry] at hp ⊢ <;> omega

theorem operations_cleanup (h : Handler V) (e : ApiError) (n d : ℕ) :
    (h.cleanup e).operations n d ≤ 1 := by
  rcases cleanup_cases h e with hq | hq <;> rw [hq] <;> simp [PC.operations]

@[simp] theorem operations_nextDelivery (cs : List ChannelEnum) (n d : ℕ) :
    (nextDelivery cs : PC V).operations n d = 5 + 3 * cs.length + d := by
  cases cs <;> simp [nextDelivery, PC.operations]

@[simp] theorem operations_nextPublish (ds : List DeliveryRow) (n d : ℕ) :
    (nextPublish ds : PC V).operations n d = 4 + ds.length := by
  cases ds <;> simp [nextPublish, PC.operations]

theorem operations_performs {q : PC V} {tx : Option (Tx V)} (hp : Performs s i h q tx f) :
    ((h.performed tx).moved q).operations + h.pc.weight ≤ h.operations := by
  unfold Handler.operations Handler.inserted Handler.moved Handler.performed
  cases hp with
  | setLock hpc | createNotification hpc | saveResponse hpc | deleteKey hpc | applyAsync hpc =>
    simp only [hpc, operations_nextDelivery, operations_nextPublish]
    simp only [PC.operations, PC.weight, Option.elim_some, List.length_cons, List.length_nil]
    omega
  | insertDelivery hpc htx | insertLog hpc htx | commit hpc htx =>
    simp only [hpc, htx, operations_nextDelivery, operations_nextPublish]
    simp only [PC.operations, PC.weight, Option.elim_some, List.length_append, List.length_cons,
      List.length_nil]
    omega

theorem operations_rollback (h : Handler V) :
    ({ h with tx := none } : Handler V).operations ≤ h.operations := by
  unfold Handler.operations Handler.inserted
  cases h.pc <;> simp [PC.operations]

/-! ### All operations of a request -/

/-- The operations of request `i` in a step. -/
def State.weight (i : ℕ) (s : State V) : Action V → ℕ
  | .run j _ => if j = i then s.handlers[i]?.elim 0 (·.pc.weight) else 0
  | _ => 0

/-- What request `i` has still to do, with a bound for the time before it comes. -/
def State.operationsOf (s : State V) (i bound : ℕ) : ℕ :=
  s.handlers[i]?.elim bound Handler.operations

theorem operations_start (key : Option String) (payload : NotificationRequest V) :
    (start key payload).operations ≤ 12 + 3 * payload.targets := by
  have hpayload : (start key payload).payload = payload := rfl
  unfold Handler.operations
  rw [hpayload]
  rcases start_cases key payload with hq | hq <;> rw [hq] <;> simp only [PC.operations] <;> omega

/-- Another handler's step leaves a request alone. -/
theorem operationsOf_set {bound : ℕ} (hh : s.handlers[j]? = some h)
    (ht : t.handlers = s.handlers.set j h') (hle : h'.operations ≤ h.operations) :
    t.operationsOf i bound ≤ s.operationsOf i bound := by
  unfold State.operationsOf
  rw [ht]
  by_cases hij : j = i
  · subst hij
    rw [List.getElem?_set_self (List.getElem?_eq_some_iff.mp hh).1, hh]
    exact hle
  · rw [List.getElem?_set_ne hij]

/-! ### No request is stuck -/

/-- The operation finds the key, the rows and the transaction that it needs. -/
def PC.Fits (keyed inTx : Bool) : PC V → Prop
  | .getEntry | .setLock => keyed = true ∧ inTx = false
  | .checkRateLimit | .getTemplate | .getPreference _ | .createNotification _ _ => inTx = false
  | .insertDelivery channels | .insertLog channels => channels ≠ [] ∧ inTx = true
  | .commit => inTx = true
  | .applyAsync deliveries => deliveries ≠ []
  | .saveResponse _ | .deleteKey _ => keyed = true
  | .reload | .finished _ => True

def Handler.Fits (h : Handler V) : Prop := h.pc.Fits h.lock.isSome h.tx.isSome

theorem fits_start (key : Option String) (payload : NotificationRequest V) :
    (start key payload).Fits := by
  unfold Handler.Fits Handler.lock start
  cases (key.filter (· ≠ "")).isSome <;> simp [PC.Fits]

theorem fits_cleanup (h : Handler V) (e : ApiError) (inTx : Bool) :
    (h.cleanup e).Fits h.lock.isSome inTx := by
  unfold Handler.cleanup
  cases h.lock.isSome <;> simp [PC.Fits]

theorem fits_nextDelivery (keyed : Bool) (cs : List ChannelEnum) :
    (nextDelivery cs : PC V).Fits keyed true := by
  cases cs <;> simp [nextDelivery, PC.Fits]

theorem fits_nextPublish (keyed inTx : Bool) (ds : List DeliveryRow) :
    (nextPublish ds : PC V).Fits keyed inTx := by
  cases ds <;> simp [nextPublish, PC.Fits]

theorem fits_performs {q : PC V} {tx : Option (Tx V)} (hp : Performs s i h q tx f) (hs : h.Fits) :
    ((h.performed tx).moved q).Fits := by
  unfold Handler.Fits at *
  cases hp with
  | setLock hpc =>
    rw [hpc] at hs
    exact hs.2
  | createNotification | insertLog => exact fits_nextDelivery _ _
  | insertDelivery => exact ⟨by simp, rfl⟩
  | commit | applyAsync => exact fits_nextPublish _ _ _
  | saveResponse | deleteKey => trivial

variable [BEq V] {svc : TemplateService V} {a : Action V} {b : Answer} {xs : List (Action V)}

theorem operations_edge (he : Edge s i h b h' f) (hpc : ∀ t, h.pc ≠ .getPreference t) :
    h'.operations + h.pc.weight ≤ h.operations := by
  cases he with
  | missed hp =>
    simp only [Handler.operations, Handler.moved, hp, PC.operations, PC.weight]
    omega
  | reloaded hp =>
    cases h.lock.isSome <;> simp [Handler.operations, hp, PC.operations, PC.weight]
  | reads hr =>
    unfold Handler.operations Handler.moved
    generalize hp : h.pc = p at hr
    cases hr with
    | checkRateLimit | getTemplate =>
      simp only [PC.operations, PC.weight]
      omega
    | getPreference => exact absurd hp (hpc _)
  | @failed _ e htry | @raised _ e _ _ _ htry =>
    have hall : h.pc.weight + 1 ≤ h.operations := weight_inTry htry _ _
    have hone := operations_cleanup h e h.payload.targets
    simp only [Handler.operations, Handler.fail, Handler.performed] at hall ⊢
    exact (Nat.add_le_add_right (hone _) _).trans ((Nat.add_comm _ _).trans_le hall)
  | performed hp => exact operations_performs hp
  | _ => exact (Nat.zero_add _).trans_le (weight_le _ _ _)

theorem operations_next (hn : next svc s i h b = some (h', f)) :
    h'.operations + h.pc.weight ≤ h.operations := by
  by_cases hpc : ∃ t, h.pc = .getPreference t
  · obtain ⟨t, hpc⟩ := hpc
    cases b with
    | preference p =>
      simp only [next, hpc, Option.some.injEq, Prod.mk.injEq] at hn
      obtain ⟨rfl, rfl⟩ := hn
      have hlength := filterChannels_length p h.payload
      simp only [Handler.operations, Handler.moved, hpc, PC.operations, PC.weight]
      omega
    | raised err applied =>
      cases applied <;> simp [next, hpc, perform] at hn
      obtain ⟨rfl, rfl⟩ := hn
      have hone := operations_cleanup h (.exception err) h.payload.targets h.inserted
      simp only [Handler.operations, Handler.fail, Handler.inserted, hpc, PC.operations,
        PC.weight] at hone ⊢
      omega
    | _ => simp [next, hpc, perform] at hn
  · exact operations_edge (next_edge hn) (by simpa using hpc)

/-- A handler keeps its request. -/
theorem payload_step {p : NotificationRequest V} (hstep : Step s a t)
    (hs : ∃ h, s.handlers[i]? = some h ∧ h.payload = p) :
    ∃ h, t.handlers[i]? = some h ∧ h.payload = p := by
  cases hstep with
  | tick => exact hs
  | request => exact Pool.exists_getElem?_concat hs
  | run hh _ he =>
    rw [setHandler_handlers, apply_handlers]
    exact Pool.exists_getElem?_set hh (fun _ hp => (frame_edge he).1.trans hp) hs
  | crash hh | rollback hh => exact Pool.exists_getElem?_set hh (fun _ hp => hp) hs

theorem operationsOf_step {bound : ℕ} (hstep : (sys svc).Tr s a t)
    (hbound : ∀ g, t.handlers[i]? = some g → 12 + 3 * g.payload.targets ≤ bound) :
    t.operationsOf i bound + s.weight i a ≤ s.operationsOf i bound := by
  cases a with
  | run j b =>
    obtain ⟨h, h', f, hh, _, hn, rfl⟩ := step_run hstep
    have hcost := operations_next hn
    have hlt := (List.getElem?_eq_some_iff.mp hh).1
    by_cases hij : j = i
    · subst hij
      have hweight : s.weight j (.run j b) = h.pc.weight := by simp [State.weight, hh]
      unfold State.operationsOf
      rw [hweight, setHandler_handlers, apply_handlers, List.getElem?_set_self hlt, hh]
      exact hcost
    · have hzero : s.weight i (.run j b) = 0 := if_neg hij
      have ht : ((s.apply f).setHandler j h').handlers = s.handlers.set j h' := by simp
      rw [hzero]
      exact operationsOf_set hh ht (Nat.le_of_add_right_le hcost)
  | tick d =>
    cases sys_step hstep
    exact le_rfl
  | request key payload =>
    cases hstep
    unfold State.operationsOf at *
    rcases Nat.lt_trichotomy i s.handlers.length with hi | rfl | hi
    · rw [List.getElem?_append_left hi]
      exact le_rfl
    · have hnew : (s.handlers ++ [start key payload])[s.handlers.length]? =
          some (start key payload) := List.getElem?_concat_length
      rw [hnew, List.getElem?_eq_none le_rfl]
      exact (operations_start key payload).trans (hbound _ hnew)
    · rw [List.getElem?_eq_none (by simp; omega), List.getElem?_eq_none hi.le]
      exact le_rfl
  | crash j =>
    cases sys_step hstep with
    | crash hh => exact operationsOf_set hh rfl le_rfl
  | rollback j =>
    cases sys_step hstep with
    | rollback hh => exact operationsOf_set hh rfl (operations_rollback _)

theorem payload_run {p : NotificationRequest V} (hrun : (sys svc).MTr s xs t)
    (hs : ∃ h, s.handlers[i]? = some h ∧ h.payload = p) :
    ∃ h, t.handlers[i]? = some h ∧ h.payload = p := by
  have hinv : (sys svc).TrInv fun s => ∃ h, s.handlers[i]? = some h ∧ h.payload = p :=
    fun _ _ _ hstep => payload_step (sys_step hstep)
  exact LTS.mtrInv_of_trInv (P := fun s => ∃ h, s.handlers[i]? = some h ∧ h.payload = p) hinv hrun
    hs

/-- The operations in a run are among those that were left before it. -/
theorem operationsOf_run (hrun : (sys svc).MTr s xs t) (hh : t.handlers[i]? = some h) :
    t.operationsOf i (12 + 3 * h.payload.targets) + LTS.cost (step svc) (State.weight i) s xs ≤
      s.operationsOf i (12 + 3 * h.payload.targets) := by
  induction hrun with
  | refl => exact le_rfl
  | @stepL s u t a xs hstep hrest ih =>
    have hbound : ∀ g, u.handlers[i]? = some g →
        12 + 3 * g.payload.targets ≤ 12 + 3 * h.payload.targets := by
      intro g hg
      obtain ⟨h', hh', hpayload⟩ := payload_run hrest ⟨g, hg, rfl⟩
      cases hh.symm.trans hh'
      rw [hpayload]
    have hone := operationsOf_step hstep hbound
    have hall := ih hh
    rw [LTS.cost_cons hstep]
    omega

theorem fits_edge (he : Edge s i h b h' f) (hs : h.Fits) : h'.Fits := by
  cases he with
  | missed hpc =>
    unfold Handler.Fits at hs
    rw [hpc] at hs
    exact hs
  | reads hr =>
    unfold Handler.Fits at hs
    generalize h.pc = p at hr hs
    cases hr <;> exact hs
  | failed | raised => exact fits_cleanup h _ _
  | reloaded hpc =>
    unfold Handler.Fits
    cases hlock : h.lock.isSome
    · simp [PC.Fits]
    · exact hlock
  | performed hp => exact fits_performs hp hs
  | _ => trivial

/-- Only a handler that is alive needs its transaction. -/
def Ready (s : State V) : Prop := ∀ h ∈ s.handlers, h.alive = true → h.Fits

theorem ready_step (hstep : Step s a t) (hs : Ready s) : Ready t := by
  cases hstep with
  | tick => exact hs
  | request => exact Pool.forall_concat hs fun _ => fits_start _ _
  | run hh halive he =>
    have hfits := fits_edge he (hs _ (List.mem_of_getElem? hh) halive)
    unfold Ready
    rw [setHandler_handlers, apply_handlers]
    exact Pool.forall_set hs fun _ => hfits
  | crash => exact Pool.forall_set hs fun halive => by cases halive
  | @rollback i h hh hover =>
    refine Pool.forall_set hs fun halive => ?_
    have ha : h.alive = true := halive
    have hfin : h.pc.isFinished = true := by simpa [Handler.isOver, ha] using hover
    unfold Handler.Fits
    cases hpc : h.pc <;> simp [hpc, PC.isFinished] at hfin ⊢
    trivial

/-- The INSERT waits for a transaction with the same key. -/
def Handler.Waits (s : State V) (h : Handler V) : Prop :=
  s.contended h.key = true ∧ ∃ t cs, h.pc = .createNotification t cs

def Answer.isRaised : Answer → Bool
  | .raised _ _ => true
  | _ => false

/-- A request that is not over can take its next operation, unless it waits. -/
theorem next_enabled (svc : TemplateService V) (i : ℕ) (hs : h.Fits)
    (hp : h.pc.isFinished = false) (hw : ¬ h.Waits s) :
    ∃ b h' f, b.isRaised = false ∧ next svc s i h b = some (h', f) := by
  have hany : ∀ b : Answer, b.isRaised = false → (next svc s i h b).isSome = true →
      ∃ b h' f, b.isRaised = false ∧ next svc s i h b = some (h', f) := by
    intro b hb hn
    obtain ⟨⟨h', f⟩, hn⟩ := Option.isSome_iff_exists.mp hn
    exact ⟨b, h', f, hb, hn⟩
  unfold Handler.Fits at hs
  cases hpc : h.pc with
  | finished r => simp [hpc, PC.isFinished] at hp
  | checkRateLimit | reload => exact hany .ok rfl (by simp [next, hpc])
  | getTemplate => exact hany (.template none) rfl (by simp [next, hpc])
  | getPreference t => exact hany (.preference none) rfl (by simp [next, hpc])
  | getEntry =>
    rw [hpc] at hs
    exact hany .ok rfl (by simpa [next, hpc] using hs.1)
  | setLock =>
    rw [hpc] at hs
    obtain ⟨key, hkey⟩ := Option.isSome_iff_exists.mp hs.1
    refine hany .ok rfl ?_
    cases hget : s.get key <;> simp [next, perform, hpc, hkey, hget]
  | createNotification t cs =>
    refine hany .ok rfl ?_
    cases htaken : s.taken h.key with
    | true => simp [next, hpc, htaken]
    | false =>
      have hfree : s.contended h.key = false := by
        refine Bool.eq_false_iff.mpr fun hc => hw ⟨hc, t, cs, hpc⟩
      simp [next, perform, hpc, htaken, hfree]
  | insertDelivery cs | insertLog cs =>
    rw [hpc] at hs
    obtain ⟨x, hx⟩ := Option.isSome_iff_exists.mp hs.2
    obtain ⟨c, cs, rfl⟩ := List.exists_cons_of_ne_nil hs.1
    exact hany .ok rfl (by simp [next, perform, hpc, hx])
  | commit =>
    rw [hpc] at hs
    obtain ⟨x, hx⟩ := Option.isSome_iff_exists.mp hs
    exact hany .ok rfl (by simp [next, perform, hpc, hx])
  | applyAsync ds =>
    rw [hpc] at hs
    obtain ⟨d, ds, rfl⟩ := List.exists_cons_of_ne_nil hs
    exact hany .ok rfl (by simp [next, perform, hpc])
  | saveResponse body | deleteKey err =>
    rw [hpc] at hs
    obtain ⟨key, hkey⟩ := Option.isSome_iff_exists.mp hs
    exact hany .ok rfl (by simp [next, perform, hpc, hkey])

/-- Request `i` can take an operation of its own that does not raise. -/
def Proceeds (svc : TemplateService V) (s : State V) (i : ℕ) : Prop :=
  ∃ b t, b.isRaised = false ∧ (sys svc).Tr s (.run i b) t

theorem proceeds_of_fits (svc : TemplateService V) (hh : s.handlers[i]? = some h)
    (hs : h.Fits) (hover : h.isOver = false) (hw : ¬ h.Waits s) : Proceeds svc s i := by
  simp only [Handler.isOver, Bool.or_eq_false_iff, Bool.not_eq_eq_eq_not, Bool.not_false] at hover
  obtain ⟨b, h', f, hb, hn⟩ := next_enabled svc i hs hover.2 hw
  refine ⟨b, (s.apply f).setHandler i h', hb, ?_⟩
  change step svc s (.run i b) = _
  simp [step, hh, hover.1, hn]

/-- The transaction that a request waits for can go on, or its session can be closed. -/
theorem waits_enabled (svc : TemplateService V) (hs : Ready s) (hw : h.Waits s) :
    ∃ j g, s.handlers[j]? = some g ∧ g.tx.any (·.notification.idempotencyKey = h.key) = true ∧
      (Proceeds svc s j ∨ ∃ t, (sys svc).Tr s (.rollback j) t) := by
  have hc := hw.1
  simp only [State.contended, Bool.and_eq_true, List.any_eq_true] at hc
  obtain ⟨g, hg, htx⟩ := hc.2
  obtain ⟨j, hj⟩ := List.mem_iff_getElem?.mp hg
  refine ⟨j, g, hj, htx, ?_⟩
  cases hover : g.isOver with
  | true =>
    refine Or.inr ⟨s.setHandler j { g with tx := none }, ?_⟩
    change step svc s (.rollback j) = _
    simp [step, hj, hover]
  | false =>
    have halive : g.alive = true := by
      cases ha : g.alive <;> simp [Handler.isOver, ha] at hover ⊢
    have hfits := hs g hg halive
    refine Or.inl (proceeds_of_fits svc hj hfits hover ?_)
    -- A request that waits has not begun its transaction.
    rintro ⟨_, t, cs, hpc⟩
    unfold Handler.Fits at hfits
    rw [hpc] at hfits
    cases htx' : g.tx with
    | none => simp [htx'] at htx
    | some x => simp [PC.Fits, htx'] at hfits

/-- Everything goes well until the answer cannot be saved. -/
def longestRun : List (Action Unit) :=
  commitSteps 0 "order-1" ++ [.run 0 .ok, .run 0 .ok, .run 0 (.raised "connection lost" false),
    .run 0 .ok]

end NotificationService.Api
