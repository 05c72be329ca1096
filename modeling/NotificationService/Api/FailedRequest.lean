import NotificationService.Api.Agreement

/-! What a request that ends with an error leaves behind: nothing if it failed before its commit had
taken effect, its rows otherwise. -/
namespace NotificationService.Api

open Transition

variable {V : Type} {s s₀ t : State V} {i j n : ℕ} {h h' : Handler V} {f : Effect V}

/-- The rows are committed when this operation raises, having taken effect or not. -/
def PC.durable : PC V → Bool → Bool
  | .commit, applied => applied
  | .applyAsync _, _ | .reload, _ | .saveResponse _, _ => true
  | _, _ => false

/-- The request has ended with an error, or has only to delete its key before that. -/
def PC.isError : PC V → Bool
  | .deleteKey _ | .finished (.error _) => true
  | _ => false

def PC.committed : PC V → Option (PC V × Bool) → Bool
  | .finished (.created _), _ => true
  | .deleteKey _, failure | .finished (.error _), failure =>
    failure.any fun (op, applied) => op.durable applied
  | p, _ => p.durable false

/-- The rows of the handler are committed. -/
def Handler.committed (h : Handler V) : Bool := h.pc.committed h.failure

/-- No row and no message of request `i`. -/
def State.untouched (s : State V) (i : ℕ) : Prop :=
  (∀ n ∈ s.notifications, n.id ≠ i) ∧ (∀ d ∈ s.deliveries, d.notificationId ≠ i) ∧
    (∀ l ∈ s.logs, l.notificationId ≠ i) ∧ ∀ m ∈ s.messages, m.delivery.notificationId ≠ i

def Tx.belongs (i : ℕ) (x : Tx V) : Prop :=
  x.notification.id = i ∧ (∀ d ∈ x.deliveries, d.notificationId = i) ∧
    ∀ l ∈ x.logs, l.notificationId = i

def Effect.belongs (i : ℕ) : Effect V → Prop
  | .commit x => x.belongs i
  | .publish m => m.delivery.notificationId = i
  | _ => True

/-- The effect is on Redis only. -/
def Effect.silent : Effect V → Bool
  | .commit _ | .publish _ => false
  | _ => true

theorem untouched_apply (hf : f.belongs i) (hij : j ≠ i) (hs : s.untouched j) :
    (s.apply f).untouched j := by
  obtain ⟨hn, hd, hl, hm⟩ := hs
  cases f with
  | commit x =>
    obtain ⟨hxn, hxd, hxl⟩ := hf
    refine ⟨Pool.forall_concat hn (by rw [hxn]; exact hij.symm), ?_, ?_, hm⟩
    · intro d hmem
      rcases List.mem_append.mp hmem with hold | hnew
      · exact hd d hold
      · rw [hxd d hnew]
        exact hij.symm
    · intro l hmem
      rcases List.mem_append.mp hmem with hold | hnew
      · exact hl l hold
      · rw [hxl l hnew]
        exact hij.symm
  | publish m =>
    have hmi : m.delivery.notificationId = i := hf
    exact ⟨hn, hd, hl, Pool.forall_concat hm (by rw [hmi]; exact hij.symm)⟩
  | _ => exact ⟨hn, hd, hl, hm⟩

theorem untouched_silent (hf : f.silent = true) (hs : s.untouched i) : (s.apply f).untouched i := by
  cases f with
  | commit | publish => cases hf
  | _ => exact hs

/-! ### Rows and messages carry the id of their request -/

structure Handler.Tidy (i : ℕ) (h : Handler V) : Prop where
  tx : ∀ x, h.tx = some x → x.belongs i
  queue : ∀ ds, h.pc = .applyAsync ds → ∀ d ∈ ds, d.notificationId = i
  failed : h.pc.isError = true → h.failure.isSome = true

theorem tidy_start (key : Option String) (payload : NotificationRequest V) :
    (start key payload).Tidy i := by
  refine ⟨by simp [start], ?_, ?_⟩
  · intro ds hq
    rcases start_cases key payload with heq | heq <;> cases heq.symm.trans hq
  · intro hq
    rcases start_cases key payload with heq | heq <;> rw [heq] at hq <;> cases hq

theorem belongs_performs {q : PC V} {tx : Option (Tx V)} (hp : Performs s i h q tx f)
    (ho : h.Tidy i) : f.belongs i ∧ ∀ x, tx = some x → x.belongs i := by
  cases hp with
  | createNotification =>
    refine ⟨trivial, ?_⟩
    intro x hx
    cases hx
    exact ⟨rfl, nofun, nofun⟩
  | insertDelivery _ htx hd =>
    refine ⟨trivial, ?_⟩
    intro x hx
    cases hx
    obtain ⟨hn, hds, hls⟩ := ho.tx _ htx
    exact ⟨hn, Pool.forall_concat hds hd, hls⟩
  | insertLog _ htx hl =>
    refine ⟨trivial, ?_⟩
    intro x hx
    cases hx
    obtain ⟨hn, hds, hls⟩ := ho.tx _ htx
    exact ⟨hn, hds, Pool.forall_concat hls hl⟩
  | commit _ htx => exact ⟨ho.tx _ htx, nofun⟩
  | applyAsync hpc => exact ⟨ho.queue _ hpc _ List.mem_cons_self, ho.tx⟩
  | setLock | saveResponse | deleteKey => exact ⟨trivial, ho.tx⟩

theorem nextPublish_eq {ds es : List DeliveryRow} (hq : (nextPublish ds : PC V) = .applyAsync es) :
    es = ds := by
  rcases nextPublish_cases (V := V) ds with heq | heq
  · cases heq.symm.trans hq
  · cases heq.symm.trans hq
    rfl

theorem queue_performs {q : PC V} {tx : Option (Tx V)} (hp : Performs s i h q tx f)
    (ho : h.Tidy i) : ∀ ds, q = .applyAsync ds → ∀ d ∈ ds, d.notificationId = i := by
  intro ds hq
  cases hp with
  | @createNotification _ cs | @insertLog _ cs =>
    rcases nextDelivery_cases (V := V) cs with heq | heq <;> cases heq.symm.trans hq
  | commit _ htx =>
    rw [nextPublish_eq hq]
    exact (ho.tx _ htx).2.1
  | applyAsync hpc =>
    rw [nextPublish_eq hq]
    exact fun d hd => ho.queue _ hpc d (List.mem_cons_of_mem _ hd)
  | _ => cases hq

/-- A writing operation only ends with an error after one. -/
theorem isError_performs {q : PC V} {tx : Option (Tx V)} (hp : Performs s i h q tx f)
    (hq : q.isError = true) : h.pc.isError = true := by
  cases hp with
  | @createNotification _ cs | @insertLog _ cs =>
    rcases nextDelivery_cases (V := V) cs with heq | heq <;> rw [heq] at hq <;> cases hq
  | @commit x =>
    rcases nextPublish_cases (V := V) x.deliveries with heq | heq <;> rw [heq] at hq <;> cases hq
  | @applyAsync _ ds =>
    rcases nextPublish_cases (V := V) ds with heq | heq <;> rw [heq] at hq <;> cases hq
  | deleteKey hpc =>
    rw [hpc]
    rfl
  | _ => cases hq

theorem reads_plain {p q : PC V} (hr : p.Reads q) :
    q.isError = false ∧ (∀ ds, q ≠ .applyAsync ds) ∧ ∀ failure failure',
      p.committed failure = false ∧ q.committed failure' = false := by
  cases hr <;> exact ⟨rfl, nofun, fun _ _ => ⟨rfl, rfl⟩⟩

theorem tidy_fail {e : ApiError} {tx : Option (Tx V)} {failure : PC V × Bool}
    (htx : ∀ x, tx = some x → x.belongs i) :
    Handler.Tidy i { h with pc := h.cleanup e, tx := tx, failure := some failure } := by
  refine ⟨htx, ?_, fun _ => rfl⟩
  intro ds hq
  rcases cleanup_cases h e with heq | heq <;> cases heq.symm.trans hq

/-! ### When the rows are committed -/

theorem committed_start (key : Option String) (payload : NotificationRequest V) :
    (start key payload).committed = false := by
  unfold Handler.committed
  rcases start_cases key payload with hq | hq <;> rw [hq] <;> rfl

theorem committed_cleanup (h : Handler V) (e : ApiError) (op : PC V) (applied : Bool) :
    (h.cleanup e).committed (some (op, applied)) = op.durable applied := by
  rcases cleanup_cases h e with hq | hq <;> rw [hq] <;> rfl

theorem committed_of_inTry (htry : h.pc.inTry = true) : h.committed = h.pc.durable false := by
  unfold Handler.committed
  cases hpc : h.pc <;> simp_all [PC.inTry, PC.committed]

theorem committed_of_isError {op : PC V} {applied : Bool} (hfail : h.pc.isError = true)
    (hop : h.failure = some (op, applied)) : h.committed = op.durable applied := by
  unfold Handler.committed
  rw [hop]
  cases hpc : h.pc with
  | deleteKey => rfl
  | finished r =>
    rw [hpc] at hfail
    cases r with
    | error => rfl
    | _ => cases hfail
  | _ =>
    rw [hpc] at hfail
    cases hfail

/-- The rows become committed, or stay as they are, with messages only after the commit. -/
def Commits (h h' : Handler V) (f : Effect V) : Prop :=
  (h'.committed = h.committed ∧ (f.silent = true ∨ h.committed = true)) ∨
    (h'.committed = true ∧ ∃ x, f = .commit x)

theorem commits_performs {q : PC V} {tx : Option (Tx V)} (hp : Performs s i h q tx f) :
    Commits h ((h.performed tx).moved q) f := by
  unfold Commits Handler.committed Handler.moved Handler.performed
  cases hp with
  | setLock hpc | insertDelivery hpc => exact Or.inl ⟨by rw [hpc]; rfl, Or.inl rfl⟩
  | @createNotification _ cs hpc | @insertLog _ cs _ _ hpc =>
    refine Or.inl ⟨?_, Or.inl rfl⟩
    rcases nextDelivery_cases (V := V) cs with hq | hq <;> simp only [hpc, hq] <;> rfl
  | @commit x =>
    refine Or.inr ⟨?_, x, rfl⟩
    rcases nextPublish_cases (V := V) x.deliveries with hq | hq <;> simp only [hq] <;> rfl
  | @applyAsync _ ds _ hpc =>
    refine Or.inl ⟨?_, Or.inr (by rw [hpc]; rfl)⟩
    rcases nextPublish_cases (V := V) ds with hq | hq <;> simp only [hpc, hq] <;> rfl
  | saveResponse hpc | deleteKey hpc => exact Or.inl ⟨by simp only [hpc]; rfl, Or.inl rfl⟩

/-- The same for an operation that takes effect and raises. -/
theorem commits_raised {q : PC V} {tx : Option (Tx V)} (hp : Performs s i h q tx f)
    (htry : h.pc.inTry = true) (e : ApiError) :
    Commits h ((h.performed tx).fail (h.cleanup e) true) f := by
  have hafter : ((h.performed tx).fail (h.cleanup e) true).committed = h.pc.durable true :=
    committed_cleanup h e _ _
  unfold Commits
  rw [hafter, committed_of_inTry htry]
  cases hp with
  | commit hpc => exact Or.inr ⟨by rw [hpc]; rfl, _, rfl⟩
  | applyAsync hpc => exact Or.inl ⟨by rw [hpc]; rfl, Or.inr (by rw [hpc]; rfl)⟩
  | setLock hpc | createNotification hpc | insertDelivery hpc | insertLog hpc | saveResponse hpc
  | deleteKey hpc => exact Or.inl ⟨by rw [hpc]; rfl, Or.inl rfl⟩

theorem silent_performs {q : PC V} {tx : Option (Tx V)} (hp : Performs s i h q tx f)
    (hpc : h.pc.inTry = false) : f.silent = true := by
  cases hp with
  | commit hpc' | applyAsync hpc' =>
    rw [hpc'] at hpc
    cases hpc
  | _ => rfl

/-! ### Steps and runs -/

/-- Requests below `n` are over; each later one has committed rows exactly when it is past its
commit, and nothing before that. -/
structure Settled (n : ℕ) (s : State V) : Prop where
  served : n ≤ s.handlers.length
  ended : ∀ (i : ℕ) (h : Handler V), s.handlers[i]? = some h → i < n → h.isOver = true
  own : ∀ (i : ℕ) (h : Handler V), s.handlers[i]? = some h → n ≤ i → h.Tidy i ∧
    (h.committed = true → ∃ m ∈ s.notifications, m.id = i)
  quiet : ∀ i, n ≤ i → (∀ h, s.handlers[i]? = some h → h.committed = false) → s.untouched i

/-- No request is running, and the ids of later ones are new. The stores are arbitrary. -/
def State.idle (s : State V) : Prop :=
  (∀ h ∈ s.handlers, h.isOver = true) ∧ ∀ i, s.handlers.length ≤ i → s.untouched i

theorem idle_initial : (initial : State V).idle := by
  simp [State.idle, State.untouched, initial]

theorem settled_idle (hs : s.idle) : Settled s.handlers.length s := by
  refine ⟨le_rfl, fun i h hh _ => hs.1 h (List.mem_of_getElem? hh), ?_, fun i hi _ => hs.2 i hi⟩
  intro i h hh hi
  have hlt := (List.getElem?_eq_some_iff.mp hh).1
  omega

theorem settled_set (hs : Settled n s) (hh : s.handlers[i]? = some h)
    (hover : i < n → h'.isOver = true) (htidy : n ≤ i → h'.Tidy i) (hf : f.belongs i)
    (hc : Commits h h' f) : Settled n ((s.apply f).setHandler i h') := by
  refine ⟨?_, ?_, ?_, ?_⟩
  · simpa using hs.served
  · rw [setHandler_handlers, apply_handlers]
    exact Pool.forall_getElem?_set hs.ended hover
  · rw [setHandler_handlers, apply_handlers]
    refine Pool.forall_getElem?_set ?_ ?_
    · intro j g hg hj
      obtain ⟨hold, hrow⟩ := hs.own j g hg hj
      refine ⟨hold, fun hcom => ?_⟩
      obtain ⟨m, hm, hmj⟩ := hrow hcom
      exact ⟨m, notifications_apply hm f, hmj⟩
    · intro hi
      refine ⟨htidy hi, fun hcom => ?_⟩
      rcases hc with ⟨heq, _⟩ | ⟨_, x, rfl⟩
      · obtain ⟨m, hm, hmi⟩ := (hs.own i h hh hi).2 (heq ▸ hcom)
        exact ⟨m, notifications_apply hm f, hmi⟩
      · exact ⟨x.notification, List.mem_append_right _ (List.mem_singleton_self _), hf.1⟩
  · intro j hj hno
    rw [setHandler_handlers, apply_handlers] at hno
    by_cases hij : i = j
    · subst hij
      have hfalse := hno h' (by rw [List.getElem?_set_self (List.getElem?_eq_some_iff.mp hh).1])
      rcases hc with ⟨heq, hsilent⟩ | ⟨htrue, _⟩
      · rw [heq] at hfalse
        rcases hsilent with hsilent | htrue
        · refine untouched_silent hsilent (hs.quiet i hj ?_)
          intro g hg
          cases hh.symm.trans hg
          exact hfalse
        · cases hfalse.symm.trans htrue
      · cases hfalse.symm.trans htrue
    · rw [List.getElem?_set_ne hij] at hno
      exact untouched_apply hf (Ne.symm hij) (hs.quiet j hj hno)

variable [BEq V] {svc : TemplateService V} {a : Action V} {xs : List (Action V)}

theorem tidy_edge {b : Answer} (he : Edge s i h b h' f) (ho : h.Tidy i) :
    h'.Tidy i ∧ f.belongs i := by
  cases he with
  | missed | cached => exact ⟨⟨ho.tx, nofun, nofun⟩, trivial⟩
  | refused => exact ⟨⟨ho.tx, nofun, fun _ => rfl⟩, trivial⟩
  | reads hr =>
    obtain ⟨herr, hqueue, _⟩ := reads_plain hr
    refine ⟨⟨ho.tx, fun ds hq => (hqueue ds hq).elim, fun hq => ?_⟩, trivial⟩
    cases herr.symm.trans hq
  | failed => exact ⟨tidy_fail ho.tx, trivial⟩
  | @reloaded _ body =>
    refine ⟨⟨ho.tx, ?_, ?_⟩, trivial⟩
    · intro ds hq
      rcases nextBuilt_cases h body with heq | heq <;> cases heq.symm.trans hq
    · intro hq
      rcases nextBuilt_cases h body with heq | heq <;> simp only [heq] at hq <;> cases hq
  | performed hp =>
    obtain ⟨hf, htx⟩ := belongs_performs hp ho
    exact ⟨⟨htx, queue_performs hp ho, fun hq => ho.failed (isError_performs hp hq)⟩, hf⟩
  | raised _ hp =>
    obtain ⟨hf, htx⟩ := belongs_performs hp ho
    exact ⟨tidy_fail htx, hf⟩
  | lockRaised _ hp =>
    obtain ⟨hf, htx⟩ := belongs_performs hp ho
    exact ⟨⟨htx, nofun, fun _ => rfl⟩, hf⟩
  | deleteFailed hpc => exact ⟨⟨ho.tx, nofun, fun _ => ho.failed (by rw [hpc]; rfl)⟩, trivial⟩
  | deleteRaised hpc hp =>
    obtain ⟨hf, htx⟩ := belongs_performs hp ho
    exact ⟨⟨htx, nofun, fun _ => ho.failed (by rw [hpc]; rfl)⟩, hf⟩

theorem commits_edge {b : Answer} (he : Edge s i h b h' f) : Commits h h' f := by
  cases he with
  | performed hp => exact commits_performs hp
  | raised htry hp => exact commits_raised hp htry _
  | failed htry =>
    refine Or.inl ⟨?_, Or.inl rfl⟩
    rw [committed_of_inTry htry]
    exact committed_cleanup h _ _ _
  | missed hpc | cached hpc => exact Or.inl ⟨by simp only [Handler.committed, hpc]; rfl, Or.inl rfl⟩
  | refused hin =>
    refine Or.inl ⟨?_, Or.inl rfl⟩
    cases hpc : h.pc <;> simp_all [PC.inCheck, Handler.committed, Handler.fail, PC.committed,
      PC.durable]
  | reads hr =>
    obtain ⟨_, _, hno⟩ := reads_plain hr
    exact Or.inl ⟨(hno h.failure h.failure).2.trans (hno h.failure h.failure).1.symm, Or.inl rfl⟩
  | @reloaded _ body _ _ hpc =>
    refine Or.inl ⟨?_, Or.inl rfl⟩
    rcases nextBuilt_cases h body with hq | hq <;> simp only [Handler.committed, hpc, hq] <;> rfl
  | lockRaised hpc hp =>
    refine Or.inl ⟨?_, Or.inl (silent_performs hp (by rw [hpc]; rfl))⟩
    simp only [Handler.committed, Handler.fail, Handler.performed, hpc]
    rfl
  | deleteFailed hpc =>
    refine Or.inl ⟨?_, Or.inl rfl⟩
    simp only [Handler.committed, Handler.moved, hpc]
    rfl
  | deleteRaised hpc hp =>
    refine Or.inl ⟨?_, Or.inl (silent_performs hp (by rw [hpc]; rfl))⟩
    simp only [Handler.committed, Handler.moved, Handler.performed, hpc]
    rfl

theorem settled_step (hstep : Step s a t) (hs : Settled n s) : Settled n t := by
  cases hstep with
  | tick => exact ⟨hs.served, hs.ended, hs.own, hs.quiet⟩
  | @request key payload =>
    have hlen := hs.served
    refine ⟨by simp only [List.length_append]; omega, ?_, ?_, ?_⟩
    · exact Pool.forall_getElem?_concat hs.ended (by omega)
    · refine Pool.forall_getElem?_concat hs.own ?_
      intro _
      refine ⟨tidy_start key payload, fun hc => ?_⟩
      cases (committed_start key payload).symm.trans hc
    · intro j hj hno
      refine hs.quiet j hj ?_
      intro g hg
      exact hno g (by rw [List.getElem?_append_left (List.getElem?_eq_some_iff.mp hg).1, hg])
  | @run i h h' b f hh ha he =>
    have hnew : n ≤ i := by
      by_contra hlt
      have hover := hs.ended i h hh (by omega)
      simp [Handler.isOver, ha, running_edge he] at hover
    obtain ⟨htidy, hf⟩ := tidy_edge he (hs.own i h hh hnew).1
    exact settled_set hs hh (fun hi => by omega) (fun _ => htidy) hf (commits_edge he)
  | @crash i h hh =>
    refine settled_set (f := .none) hs hh (fun _ => rfl) ?_ trivial (Or.inl ⟨rfl, Or.inl rfl⟩)
    intro hi
    obtain ⟨htx, hqueue, hfailed⟩ := (hs.own i h hh hi).1
    exact ⟨htx, hqueue, hfailed⟩
  | @rollback i h hh hover =>
    refine settled_set (f := .none) hs hh (fun _ => hover) ?_ trivial (Or.inl ⟨rfl, Or.inl rfl⟩)
    intro hi
    obtain ⟨_, hqueue, hfailed⟩ := (hs.own i h hh hi).1
    exact ⟨by simp, hqueue, hfailed⟩

/-- From any stores: when a request has failed, none of its rows is committed and none of its
messages published if and only if the operation that failed comes before the commit, or is a commit
that had not taken effect. -/
theorem failed_untouched (hidle : s₀.idle) (hrun : (sys svc).MTr s₀ xs s)
    (hnew : s₀.handlers.length ≤ i) (hh : s.handlers[i]? = some h) (hfail : h.pc.isError = true) :
    s.untouched i ↔ ∃ op applied, h.failure = some (op, applied) ∧ op.durable applied = false := by
  have hinv : (sys svc).TrInv (Settled s₀.handlers.length) := by
    intro s a t hstep hs
    exact settled_step (sys_step hstep) hs
  have hs := LTS.mtrInv_of_trInv hinv hrun (settled_idle hidle)
  obtain ⟨⟨_, _, hfailed⟩, hrows⟩ := hs.own i h hh hnew
  obtain ⟨⟨op, applied⟩, hop⟩ := Option.isSome_iff_exists.mp (hfailed hfail)
  have hcom := committed_of_isError hfail hop
  constructor
  · rintro ⟨hnone, _⟩
    refine ⟨op, applied, hop, ?_⟩
    by_contra htrue
    obtain ⟨m, hm, hmi⟩ := hrows (by simpa [hcom] using htrue)
    exact hnone m hm hmi
  · rintro ⟨op', applied', hop', hfalse⟩
    cases hop.symm.trans hop'
    refine hs.quiet i hnew ?_
    intro g hg
    cases hh.symm.trans hg
    exact hcom.trans hfalse

/-- The commit fails, so nothing is left. -/
def failedCommitRun : List (Action Unit) :=
  [.request (some "order-1") emailRequest, .run 0 .ok, .run 0 .ok] ++ insertSteps 0 ++
    [.run 0 (.raised "connection lost" false), .run 0 .ok]

theorem failed_untouched_commit : ∃ s h, (sys plainText).MTr initial failedCommitRun s ∧
    s.handlers[0]? = some h ∧ h.pc.isError = true ∧ s.untouched 0 := by
  have hrun : (LTS.run (step plainText) initial failedCommitRun).map
      (fun s => s.handlers.map fun h => (h.pc.isError, h.failure)) =
        some [(true, some (.commit, false))] := by decide
  obtain ⟨s, hrun', he⟩ := LTS.exists_mTr hrun
  obtain ⟨h, l, hl, hh', _⟩ := List.map_eq_cons_iff.mp he
  obtain ⟨herr, hfailure⟩ := Prod.mk.inj hh'
  have hh : s.handlers[0]? = some h := by simp [hl]
  exact ⟨s, h, hrun', hh, herr, (failed_untouched idle_initial hrun' (Nat.zero_le _) hh herr).mpr
    ⟨.commit, false, hfailure, rfl⟩⟩

/-- The broker is unreachable after the commit: the row stays and the key is freed. -/
theorem failed_with_row : ¬ ∀ xs s i h err, (sys plainText).MTr initial xs s →
    s.handlers[i]? = some h → h.pc = .finished (.error err) → s.untouched i := by
  intro hall
  have hrun : (LTS.run (step plainText) initial (commitSteps 0 "order-1" ++
      [.run 0 (.raised "broker unreachable" false), .run 0 .ok])).map
      (fun s => (s.handlers.map (·.pc), s.notifications.map (·.id))) =
        some ([.finished (.error (.exception "broker unreachable"))], [0]) := by decide
  obtain ⟨s, hs, he⟩ := LTS.exists_mTr hrun
  obtain ⟨hpcs, hids⟩ := Prod.mk.inj he
  obtain ⟨h, _, hl, hpc, _⟩ := List.map_eq_cons_iff.mp hpcs
  obtain ⟨m, _, hm, hmid, _⟩ := List.map_eq_cons_iff.mp hids
  have hnone := hall _ s 0 h _ hs (by simp [hl]) hpc
  exact hnone.1 m (by simp [hm]) hmid

end NotificationService.Api
