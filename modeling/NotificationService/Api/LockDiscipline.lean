import NotificationService.Api.Agreement
import NotificationService.Api.Ownership

/-! The idempotency lock while no entry expires under its writer: one holder, and what each way of
answering a request leaves in Redis. -/
namespace NotificationService.Api

open Transition

variable {V : Type} {s t : State V} {i : ℕ} {h h' : Handler V} {f : Effect V}

/-- The operations of the idempotency service: GET, SET NX, SET and DEL. -/
def PC.onEntry : PC V → Bool
  | .getEntry | .setLock | .saveResponse _ | .deleteKey _ => true
  | _ => false

/-- No entry expires while the request that wrote it is running, and no operation on one fails. -/
def Undisturbed (s : State V) : Action V → Prop
  | .tick d => ∀ i < s.handlers.length, s.spares d i = true
  | .run i (.raised _ _) => s.handlers[i]?.all (!·.pc.onEntry) = true
  | _ => True

instance (s : State V) : (a : Action V) → Decidable (Undisturbed s a)
  | .tick _ => inferInstanceAs (Decidable (∀ i < s.handlers.length, _ = true))
  | .run _ (.raised _ _) => inferInstanceAs (Decidable (_ = true))
  | .request _ _ | .crash _ | .rollback _ | .run _ .ok | .run _ (.rateLimited _)
  | .run _ (.template _) | .run _ (.preference _) | .run _ (.deliveries _) =>
    inferInstanceAs (Decidable True)

/-- The handler has locked the key and has neither saved its response nor deleted the key. -/
def Handler.inside (key : String) (h : Handler V) : Prop :=
  h.alive = true ∧ h.pc.pastCheck = true ∧ h.lock = some key

/-- The operation that failed was one of `check_or_lock`. -/
def Handler.failedInCheck (h : Handler V) : Bool := h.failure.any (·.1.inCheck)

/-- The answer is a replay or an error of `check_or_lock`. -/
def Handler.answeredByCheck (h : Handler V) : Bool :=
  match h.pc with
  | .finished (.cached _ _) => true
  | .finished (.error _) => h.failedInCheck
  | _ => false

/-- The handler has got past `check_or_lock`, even if it has answered since. -/
def Handler.passed (h : Handler V) : Bool := !h.pc.inCheck && !h.answeredByCheck

theorem keepsEntries_of_undisturbed {a : Action V} (hu : Undisturbed s a) : KeepsEntries s a := by
  cases a with
  | tick d => exact hu
  | run i b =>
    cases b with
    | raised err applied =>
      cases applied with
      | false => trivial
      | true =>
        simp only [Undisturbed, Option.all_eq_true, Bool.not_eq_true'] at hu
        simp only [KeepsEntries, Option.all_eq_true, Bool.not_eq_true']
        intro h hh
        have hno := hu h hh
        cases hpc : h.pc <;> simp_all [PC.onEntry, PC.isSave]
    | _ => trivial
  | _ => trivial

/-- An operation of the idempotency service does not raise. -/
theorem not_raised {err : String} {applied : Bool}
    (hu : Undisturbed s (.run i (.raised err applied)))
    (hh : s.handlers[i]? = some h) (hpc : h.pc.onEntry = true) : False := by
  simp [Undisturbed, hh, hpc] at hu

/-- A failure in `check_or_lock` ends the request. -/
def Handler.Ended (h : Handler V) : Prop := h.failedInCheck = true → h.pc.isFinished = true

theorem passed_of_pastCheck (hp : h.pc.pastCheck = true) : h.passed = true := by
  cases hpc : h.pc <;> simp_all [Handler.passed, Handler.answeredByCheck, PC.pastCheck, PC.inCheck]

theorem inCheck_of_inTry {p : PC V} (hp : p.inTry = true) : p.inCheck = false := by
  cases p <;> simp_all [PC.inTry, PC.inCheck]

theorem passed_created {body : NotificationResponse V} (hp : h.pc = .finished (.created body)) :
    h.passed = true := by
  simp [Handler.passed, Handler.answeredByCheck, PC.inCheck, hp]

theorem passed_error {err : ApiError} (hp : h.pc = .finished (.error err))
    (hf : h.failedInCheck = false) : h.passed = true := by
  simp [Handler.passed, Handler.answeredByCheck, PC.inCheck, hp, hf]

/-- The except clauses answer for a failure behind `check_or_lock`. -/
theorem passed_fail {tx : Option (Tx V)} {err : ApiError} {applied : Bool}
    (hp : h.pc.inTry = true) :
    ((h.performed tx).fail (h.cleanup err) applied).passed = true := by
  rcases cleanup_cases h err with hc | hc
  · exact passed_of_pastCheck (by rw [Handler.fail, hc]; rfl)
  · have herr : ((h.performed tx).fail (h.cleanup err) applied).pc = .finished (.error err) := hc
    exact passed_error herr (inCheck_of_inTry hp)

theorem failedInCheck_of_running (he : h.Ended) (hp : h.pc.isFinished = false) :
    h.failedInCheck = false := by
  cases hf : h.failedInCheck with
  | false => rfl
  | true => exact absurd (he hf) (by simp [hp])

/-- A writing operation leads on behind `check_or_lock`, or ends the request on its key. -/
theorem ends_performs {q : PC V} {tx : Option (Tx V)} (hp : Performs s i h q tx f) :
    q.pastCheck = true ∨
    (∃ key body, q = .finished (.created body) ∧ h.lock = some key ∧
      f = .set key ⟨.done 201 body, h.payload, i⟩ idempotencyTtl) ∨
    ∃ key err, h.pc = .deleteKey err ∧ h.lock = some key ∧ q = .finished (.error err) ∧
      f = .del key := by
  cases hp with
  | setLock | insertDelivery => exact Or.inl rfl
  | @createNotification _ cs | @insertLog _ cs => exact Or.inl (by cases cs <;> rfl)
  | @commit x => exact Or.inl (by cases x.deliveries <;> rfl)
  | @applyAsync d ds => exact Or.inl (by cases ds <;> rfl)
  | saveResponse _ hlock => exact Or.inr (Or.inl ⟨_, _, rfl, hlock, rfl⟩)
  | deleteKey hpc hlock => exact Or.inr (Or.inr ⟨_, _, hpc, hlock, rfl, rfl⟩)

theorem passed_performs {q : PC V} {tx : Option (Tx V)} (hp : Performs s i h q tx f)
    (he : h.Ended) :
    ((h.performed tx).moved q).passed = true := by
  rcases ends_performs hp with hq | ⟨_, _, rfl, _⟩ | ⟨_, _, hpc, _, rfl, _⟩
  · exact passed_of_pastCheck hq
  · exact passed_created rfl
  · have hf : h.failedInCheck = false := failedInCheck_of_running he (by rw [hpc]; rfl)
    exact passed_error rfl hf

theorem pastCheck_of_reads_target {p q : PC V} (hr : p.Reads q) : q.pastCheck = true := by
  cases hr <;> rfl

/-- A handler inside has the only LOCK on its key. -/
theorem inside_unique {j : ℕ} {g : Handler V} {key : String} (hs : Owned s)
    (hg : s.handlers[i]? = some g) (hh : s.handlers[j]? = some h) (hgi : g.inside key)
    (hhi : h.inside key) : i = j := by
  obtain ⟨hga, hgp, hgl⟩ := hgi
  obtain ⟨hha, hhp, hhl⟩ := hhi
  obtain ⟨e, hget, hw, _⟩ := hs i g hg hga hgp key hgl
  obtain ⟨e', hget', hw', _⟩ := hs j h hh hha hhp key hhl
  cases hget.symm.trans hget'
  exact hw.symm.trans hw'

variable [BEq V] {svc : TemplateService V} {a : Action V} {xs ys : List (Action V)}

/-- A step of a request that will be answered by `check_or_lock` has no effect. -/
theorem edge_none_or_passed {b : Answer} (he : Edge s i h b h' f) (hend : h.Ended)
    (hu : Undisturbed s (.run i b)) (hh : s.handlers[i]? = some h) : f = .none ∨ h'.passed = true := by
  cases he with
  | performed hp => exact Or.inr (passed_performs hp hend)
  | raised htry hp => exact Or.inr (passed_fail htry)
  | lockRaised hpc => exact (not_raised hu hh (by rw [hpc]; rfl)).elim
  | deleteRaised hpc => exact (not_raised hu hh (by rw [hpc]; rfl)).elim
  | _ => exact Or.inl rfl

/-- A request behind `check_or_lock` stays there. -/
theorem passed_edge {b : Answer} (he : Edge s i h b h' f) (hend : h.Ended) (hp : h.passed = true) :
    h'.passed = true := by
  have hcheck : h.pc.inCheck = false := by
    simp only [Handler.passed, Bool.and_eq_true, Bool.not_eq_true'] at hp
    exact hp.1
  cases he with
  | missed hpc | cached hpc | lockRaised hpc => simp [hpc, PC.inCheck] at hcheck
  | refused hin => simp [hin] at hcheck
  | reads hr => exact passed_of_pastCheck (pastCheck_of_reads_target hr)
  | @failed b err htry =>
    have hp : ((h.performed h.tx).fail (h.cleanup err) false).passed = true := passed_fail htry
    exact hp
  | @reloaded n body =>
    rcases nextBuilt_cases h body with hq | hq
    · exact passed_of_pastCheck (by rw [hq]; rfl)
    · exact passed_created hq
  | performed hperf => exact passed_performs hperf hend
  | raised htry => exact passed_fail htry
  | deleteFailed hpc | deleteRaised hpc =>
    have hf : h.failedInCheck = false := failedInCheck_of_running hend (by rw [hpc]; rfl)
    exact passed_error rfl hf

theorem ended_edge {b : Answer} (he : Edge s i h b h' f) (hend : h.Ended) : h'.Ended := by
  have hf : h.failedInCheck = false := failedInCheck_of_running hend (running_edge he)
  intro hfailed
  cases he with
  | refused | lockRaised => rfl
  | failed htry | raised htry =>
    have hno : h.pc.inCheck = true := hfailed
    simp [inCheck_of_inTry htry] at hno
  | _ =>
    have hold : h.failedInCheck = true := hfailed
    simp [hf] at hold

theorem ended_step (hs : Step s a t) (hall : ∀ h ∈ s.handlers, h.Ended) :
    ∀ h ∈ t.handlers, h.Ended := by
  cases hs with
  | tick => exact hall
  | request => exact Pool.forall_concat hall (fun hf => by cases hf)
  | @run i h h' b f hh ha he =>
    rw [setHandler_handlers, apply_handlers]
    exact Pool.forall_set hall (ended_edge he (hall h (List.mem_of_getElem? hh)))
  | @crash i h hh | @rollback i h hh =>
    have hold := hall h (List.mem_of_getElem? hh)
    exact Pool.forall_set hall hold

/-- A step runs the handler, or leaves its operation and its failure as they were. -/
theorem handler_step (hs : Step s a t) (hh : s.handlers[i]? = some h) :
    ∃ h', t.handlers[i]? = some h' ∧ ((h'.pc = h.pc ∧ h'.failure = h.failure) ∨
      ∃ b f, a = .run i b ∧ h.alive = true ∧ Edge s i h b h' f ∧
        t = (s.apply f).setHandler i h') := by
  have hi := (List.getElem?_eq_some_iff.mp hh).1
  cases hs with
  | tick => exact ⟨h, hh, Or.inl ⟨rfl, rfl⟩⟩
  | request => exact ⟨h, by rw [List.getElem?_append_left hi, hh], Or.inl ⟨rfl, rfl⟩⟩
  | @run j g g' b f hg ha he =>
    rw [setHandler_handlers, apply_handlers]
    by_cases hij : j = i
    · subst hij
      cases hh.symm.trans hg
      exact ⟨g', List.getElem?_set_self hi, Or.inr ⟨b, f, rfl, ha, he, rfl⟩⟩
    · exact ⟨h, by rw [List.getElem?_set_ne hij, hh], Or.inl ⟨rfl, rfl⟩⟩
  | @crash j g hg | @rollback j g hg =>
    rw [setHandler_handlers]
    by_cases hij : j = i
    · subst hij
      cases hh.symm.trans hg
      exact ⟨_, List.getElem?_set_self hi, Or.inl ⟨rfl, rfl⟩⟩
    · exact ⟨h, by rw [List.getElem?_set_ne hij, hh], Or.inl ⟨rfl, rfl⟩⟩

theorem passed_step (hs : Step s a t) (hall : ∀ h ∈ s.handlers, h.Ended)
    (hh : s.handlers[i]? = some h) (hp : h.passed = true) :
    ∃ h', t.handlers[i]? = some h' ∧ h'.passed = true := by
  obtain ⟨h', hh', ⟨hpc, hf⟩ | ⟨b, f, _, _, he, _⟩⟩ := handler_step hs hh
  · refine ⟨h', hh', ?_⟩
    simp only [Handler.passed, Handler.answeredByCheck, Handler.failedInCheck, hpc, hf] at hp ⊢
    exact hp
  · exact ⟨h', hh', passed_edge he (hall h (List.mem_of_getElem? hh)) hp⟩

theorem ended_trInv :
    ((sys svc).restrict Undisturbed).TrInv (fun s => ∀ h ∈ s.handlers, h.Ended) := by
  rintro s a t ⟨_, hstep⟩ hs
  exact ended_step (sys_step hstep) hs

theorem passed_run (hrun : ((sys svc).restrict Undisturbed).MTr s xs t)
    (hall : ∀ h ∈ s.handlers, h.Ended) (hh : s.handlers[i]? = some h) (hp : h.passed = true) :
    ∃ h', t.handlers[i]? = some h' ∧ h'.passed = true := by
  induction hrun generalizing h with
  | refl => exact ⟨h, hh, hp⟩
  | stepL hstep _ ih =>
    obtain ⟨h', hh', hp'⟩ := passed_step (sys_step hstep.2) hall hh hp
    exact ih (ended_trInv _ _ _ hstep hall) hh' hp'

/-! ### What a request leaves behind -/

/-- A step of a request with a key stays in `check_or_lock`, stays behind it, or ends the request with
its response saved or its key deleted. -/
theorem ends_edge {b : Answer} {key : String} (he : Edge s i h b h' f)
    (hu : Undisturbed s (.run i b)) (hh : s.handlers[i]? = some h) (hlock : h.lock = some key) :
    (h.pc.inCheck = true ∧ ∀ body, h'.pc ≠ .finished (.created body)) ∨ h'.pc.pastCheck = true ∨
    (∃ body, h'.pc = .finished (.created body) ∧
      f = .set key ⟨.done 201 body, h.payload, i⟩ idempotencyTtl) ∨
    ∃ err, h'.pc = .finished (.error err) ∧ f = .del key := by
  have hclean : ∀ e, h.cleanup e = .deleteKey e := by simp [Handler.cleanup, hlock]
  cases he with
  | missed hpc | cached hpc => exact Or.inl ⟨by rw [hpc]; rfl, fun _ hq => by cases hq⟩
  | refused hin => exact Or.inl ⟨hin, fun _ hq => by cases hq⟩
  | reads hr => exact Or.inr (Or.inl (pastCheck_of_reads_target hr))
  | failed | raised => exact Or.inr (Or.inl (by rw [Handler.fail, hclean]; rfl))
  | reloaded => exact Or.inr (Or.inl (by simp [hlock, PC.pastCheck]))
  | performed hp =>
    rcases ends_performs hp with hq | ⟨l, body, hq, hl, hf⟩ | ⟨l, err, _, hl, hq, hf⟩
    · exact Or.inr (Or.inl hq)
    · cases hlock.symm.trans hl
      exact Or.inr (Or.inr (Or.inl ⟨body, hq, hf⟩))
    · cases hlock.symm.trans hl
      exact Or.inr (Or.inr (Or.inr ⟨err, hq, hf⟩))
  | lockRaised hpc | deleteFailed hpc | deleteRaised hpc =>
    exact (not_raised hu hh (by rw [hpc]; rfl)).elim

/-- A new request with the key takes the lock in its first two operations. -/
def State.lockable (svc : TemplateService V) (s : State V) (key : String) : Prop :=
  ∀ payload, ∃ t h, (sys svc).MTr s [.request (some key) payload, .run s.handlers.length .ok,
    .run s.handlers.length .ok] t ∧ t.handlers[s.handlers.length]? = some h ∧ h.inside key

theorem tr_run {b : Answer} (hh : s.handlers[i]? = some h) (ha : h.alive = true)
    (hn : next svc s i h b = some (h', f)) :
    (sys svc).Tr s (.run i b) ((s.apply f).setHandler i h') := by
  simp [sys, LTS.ofStep, step, hh, ha, hn]

theorem next_missed {key : String} (hpc : h.pc = .getEntry) (hlock : h.lock = some key)
    (hget : s.get key = none) : next svc s i h .ok = some (h.moved .setLock, .none) := by
  simp [next, hpc, hlock, hget]

theorem next_locked {key : String} (hpc : h.pc = .setLock) (hlock : h.lock = some key)
    (hget : s.get key = none) : next svc s i h .ok =
      some (h.moved .checkRateLimit, .set key ⟨.lock, h.payload, i⟩ lockTtl) := by
  simp [next, perform, hpc, hlock, hget, Handler.performed, Handler.moved]

theorem lockable_of_get {key : String} (hkey : key ≠ "") (hget : s.get key = none) :
    s.lockable svc key := by
  intro payload
  let g : Handler V := start (some key) payload
  let s₁ : State V := { s with handlers := s.handlers ++ [g] }
  let s₂ : State V := s₁.setHandler s.handlers.length (g.moved .setLock)
  have hlock : g.lock = some key := by simp [g, Handler.lock, start, hkey]
  have hs₁ : s₁.handlers[s.handlers.length]? = some g := by simp [s₁]
  have hs₂ : s₂.handlers[s.handlers.length]? = some (g.moved .setLock) := by simp [s₂, s₁]
  have hrequest : (sys svc).Tr s (.request (some key) payload) s₁ := rfl
  have hmissed : (sys svc).Tr s₁ (.run s.handlers.length .ok) s₂ :=
    tr_run hs₁ rfl (next_missed (start_pc hlock) hlock hget)
  have hnext : next svc s₂ s.handlers.length (g.moved .setLock) .ok = _ :=
    next_locked rfl hlock hget
  have hlocked := tr_run hs₂ rfl hnext
  exact ⟨_, (g.moved .setLock).moved .checkRateLimit,
    .stepL hrequest (.stepL hmissed (.stepL hlocked .refl)), by simp [s₂, s₁], rfl, rfl, hlock⟩

theorem owned_trInv : ((sys svc).restrict Undisturbed).TrInv Owned := by
  rintro s a t ⟨hu, hstep⟩ hs
  exact owned_step (sys_step hstep) (keepsEntries_of_undisturbed hu) hs

/-- A step of a request that will be answered by `check_or_lock` leaves Redis alone. -/
theorem redis_of_answered {b : Answer} {u : State V} {g : Handler V}
    (hall : ∀ h ∈ s.handlers, h.Ended) (hstep : ((sys svc).restrict Undisturbed).Tr s (.run i b) t)
    (hrun : ((sys svc).restrict Undisturbed).MTr t ys u) (hg : u.handlers[i]? = some g)
    (hans : g.answeredByCheck = true) : t.redis = s.redis := by
  have hall' := ended_trInv _ _ _ hstep hall
  obtain ⟨hu, htr⟩ := hstep
  cases sys_step htr with
  | @run _ h h' _ f hh _ he =>
    rcases edge_none_or_passed he (hall h (List.mem_of_getElem? hh)) hu hh with rfl | hp
    · rfl
    · have hh' : ((s.apply f).setHandler i h').handlers[i]? = some h' := by
        rw [setHandler_handlers, apply_handlers]
        exact List.getElem?_set_self (List.getElem?_eq_some_iff.mp hh).1
      obtain ⟨g', hg', hp'⟩ := passed_run hrun hall' hh' hp
      cases hg.symm.trans hg'
      simp [Handler.passed, hans] at hp'

/-- The entry that the last step of a request behind `check_or_lock` leaves. -/
theorem entry_of_ended {b : Answer} {key : String} (hu : Undisturbed s (.run i b))
    (hstep : Step s (.run i b) t) (hh : s.handlers[i]? = some h) (hh' : t.handlers[i]? = some h')
    (hlock : h.lock = some key) :
    (∀ body, h'.pc = .finished (.created body) → t.get key = some ⟨.done 201 body, h.payload, i⟩) ∧
    ∀ err, h.pc.pastCheck = true → h'.pc = .finished (.error err) → t.get key = none := by
  cases hstep with
  | @run _ g g' _ f hg _ he =>
    cases hh.symm.trans hg
    rw [setHandler_handlers, apply_handlers,
      List.getElem?_set_self (List.getElem?_eq_some_iff.mp hh).1] at hh'
    cases hh'
    rcases ends_edge he hu hh hlock with ⟨hin, hno⟩ | hpast | ⟨body, hq, rfl⟩ | ⟨err, hq, rfl⟩
    · refine ⟨fun body hpc => absurd hpc (hno body), fun err hpast => ?_⟩
      cases hpc : h.pc <;> simp_all [PC.inCheck, PC.pastCheck]
    · refine ⟨fun body hpc => ?_, fun err _ hpc => ?_⟩ <;> rw [hpc] at hpast <;> cases hpast
    · refine ⟨fun body' hpc => ?_, fun err _ hpc => by cases hq.symm.trans hpc⟩
      cases hq.symm.trans hpc
      exact apply_set_self _ _ _
    · refine ⟨fun body hpc => (by cases hq.symm.trans hpc), fun err' _ hpc => ?_⟩
      simp [State.apply, State.get, State.setHandler]

/-- In every undisturbed run: at most one request holds a key's lock; a 201 leaves the request's own
DONE entry; an error behind the lock leaves the key free for the next request; and no step of a
request that is answered by `check_or_lock` changes Redis. -/
theorem lock_discipline (hrun : ((sys svc).restrict Undisturbed).MTr initial xs s) :
    (∀ (key : String) (i j : ℕ) (g h : Handler V), s.handlers[i]? = some g →
      s.handlers[j]? = some h → g.inside key → h.inside key → i = j) ∧
    ∀ (i : ℕ) (b : Answer) (t : State V) (h h' : Handler V) (key : String),
      ((sys svc).restrict Undisturbed).Tr s (.run i b) t →
      s.handlers[i]? = some h → t.handlers[i]? = some h' → h.lock = some key →
      (∀ body, h'.pc = .finished (.created body) →
        t.get key = some ⟨.done 201 body, h.payload, i⟩) ∧
      (∀ err, h.pc.pastCheck = true → h'.pc = .finished (.error err) →
        t.get key = none ∧ t.lockable svc key) ∧
      ∀ ys u g, ((sys svc).restrict Undisturbed).MTr t ys u → u.handlers[i]? = some g →
        g.answeredByCheck = true → t.redis = s.redis := by
  have hs : Owned s := LTS.mtrInv_of_trInv owned_trInv hrun (by simp [Owned, initial])
  have hall : ∀ h ∈ s.handlers, h.Ended :=
    LTS.mtrInv_of_trInv ended_trInv hrun (by simp [initial])
  refine ⟨fun key i j g h hg hh => inside_unique hs hg hh, ?_⟩
  intro i b t h h' key hstep hh hh' hlock
  obtain ⟨hcreated, herror⟩ := entry_of_ended hstep.1 (sys_step hstep.2) hh hh' hlock
  refine ⟨hcreated, fun err hpast hpc => ?_, ?_⟩
  · have hget := herror err hpast hpc
    exact ⟨hget, lockable_of_get (lock_ne hlock) hget⟩
  · intro ys u g hrest hg hans
    exact redis_of_answered hall hstep hrest hg hans

/-- A request for an unknown template, about to delete its key. -/
def unknownTemplateRun : List (Action Unit) :=
  [.request (some "order-1") emailRequest, .run 0 .ok, .run 0 .ok, .run 0 .ok,
    .run 0 (.template none)]

theorem lock_discipline_rejected : ∃ s t,
    ((sys plainText).restrict Undisturbed).MTr initial unknownTemplateRun s ∧
    ((sys plainText).restrict Undisturbed).Tr s (.run 0 .ok) t ∧
    t.get "order-1" = none ∧ t.lockable plainText "order-1" := by
  have hrun : ((LTS.run (LTS.guarded Undisturbed (step plainText)) initial unknownTemplateRun).bind
      fun s => (LTS.run (LTS.guarded Undisturbed (step plainText)) s [.run 0 .ok]).map fun t =>
        (s.handlers.map fun h => (h.pc.pastCheck, h.lock), t.handlers.map (·.pc))) =
      some ([(true, some "order-1")],
        [.finished (.error (templateNotFound "welcome_email"))]) := by decide
  obtain ⟨s, t, hrun', ht, he⟩ := LTS.exists_mTrs_guarded hrun
  obtain ⟨hbefore, hafter⟩ := Prod.mk.inj he
  obtain ⟨h, l, hl, hh, _⟩ := List.map_eq_cons_iff.mp hbefore
  obtain ⟨h', l', hl', hpc, _⟩ := List.map_eq_cons_iff.mp hafter
  obtain ⟨hpast, hlock⟩ := Prod.mk.inj hh
  have hstep := LTS.tr_of_mTr_singleton ht
  obtain ⟨_, hleft⟩ := lock_discipline hrun'
  obtain ⟨_, herror, _⟩ := hleft 0 .ok t h h' "order-1" hstep (by simp [hl]) (by simp [hl']) hlock
  obtain ⟨hget, hretry⟩ := herror _ hpast hpc
  exact ⟨s, t, hrun', hstep, hget, hretry⟩

end NotificationService.Api
