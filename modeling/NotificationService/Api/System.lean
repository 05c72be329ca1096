import NotificationService.Foundation.Transition
import NotificationService.Foundation.Pool
import NotificationService.Api.Handler

/-! Any number of requests on shared stores: their handlers interleave operation by operation,
time passes, and web processes die. -/
namespace NotificationService.Api

open Transition ExpiringStore

variable {V : Type}

inductive Action (V : Type) where
  | tick (d : ℕ)
  | request (key : Option String) (payload : NotificationRequest V)
  | run (i : ℕ) (a : Answer)
  | crash (i : ℕ)
  | rollback (i : ℕ)
  deriving DecidableEq, Repr

def initial : State V := ⟨0, empty, [], [], [], [], []⟩

def State.apply (s : State V) : Effect V → State V
  | .none => s
  | .set key e ttl => { s with redis := set s.redis (redisKey key) e (s.clock + ttl) }
  | .del key => { s with redis := del s.redis (redisKey key) }
  | .commit x =>
    { s with
      notifications := s.notifications ++ [x.notification]
      deliveries := s.deliveries ++ x.deliveries
      logs := s.logs ++ x.logs }
  | .publish m => { s with messages := s.messages ++ [m] }

def State.setHandler (s : State V) (i : ℕ) (h : Handler V) : State V :=
  { s with handlers := s.handlers.set i h }

def State.elapse (s : State V) (d : ℕ) : State V :=
  { s with clock := s.clock + d, redis := expire (s.clock + d) s.redis }

/-- A new handler, which skips the idempotency step without a key. -/
def start (key : Option String) (payload : NotificationRequest V) : Handler V where
  key := key
  payload := payload
  alive := true
  pc := if (key.filter (· ≠ "")).isSome then .getEntry else .checkRateLimit
  tx := none
  built := none
  failure := none

/-- The handler no longer runs, so its session is closed. -/
def Handler.isOver (h : Handler V) : Bool := !h.alive || h.pc.isFinished

def step [BEq V] (svc : TemplateService V) (s : State V) : Action V → Option (State V)
  | .tick d => some (s.elapse d)
  | .request key payload => some { s with handlers := s.handlers ++ [start key payload] }
  | .run i a =>
    s.handlers[i]?.bind fun h =>
      if h.alive then (next svc s i h a).map fun (h', f) => (s.apply f).setHandler i h' else none
  | .crash i =>
    s.handlers[i]?.bind fun h =>
      if h.isOver then none else some (s.setHandler i { h with alive := false })
  | .rollback i =>
    s.handlers[i]?.bind fun h =>
      if h.isOver then some (s.setHandler i { h with tx := none }) else none

/-- The operations that write to the database or the broker. -/
def PC.writes : PC V → Bool
  | .createNotification _ _ | .insertDelivery _ | .insertLog _ | .commit | .applyAsync _ => true
  | _ => false

def sys [BEq V] (svc : TemplateService V) : LTS (State V) (Action V) := LTS.ofStep (step svc)

/-! ### The transitions -/

/-- What the writing operations do, one constructor for each. -/
inductive Performs (s : State V) (i : ℕ) (h : Handler V) :
    PC V → Option (Tx V) → Effect V → Prop where
  | setLock {key : String} : h.pc = .setLock → h.lock = some key → s.get key = none →
      Performs s i h .checkRateLimit h.tx (.set key ⟨.lock, h.payload, i⟩ lockTtl)
  | createNotification {t : ℕ} {cs : List ChannelEnum} : h.pc = .createNotification t cs →
      s.taken h.key = false → s.contended h.key = false →
      Performs s i h (nextDelivery cs) (some ⟨h.row i t, [], []⟩) .none
  | insertDelivery {c : ChannelEnum} {cs : List ChannelEnum} {x : Tx V} {d : DeliveryRow} :
      h.pc = .insertDelivery (c :: cs) → h.tx = some x → d.notificationId = i →
      Performs s i h (.insertLog (c :: cs))
        (some { x with deliveries := x.deliveries ++ [d] }) .none
  | insertLog {c : ChannelEnum} {cs : List ChannelEnum} {x : Tx V} {l : LogRow} :
      h.pc = .insertLog (c :: cs) → h.tx = some x → l.notificationId = i →
      Performs s i h (nextDelivery cs) (some { x with logs := x.logs ++ [l] }) .none
  | commit {x : Tx V} : h.pc = .commit → h.tx = some x →
      Performs s i h (nextPublish x.deliveries) none (.commit x)
  | applyAsync {d : DeliveryRow} {ds : List DeliveryRow} {q : String} : h.pc = .applyAsync (d :: ds) →
      Performs s i h (nextPublish ds) h.tx (.publish ⟨d, q⟩)
  | saveResponse {key : String} {body : NotificationResponse V} : h.pc = .saveResponse body →
      h.lock = some key → Performs s i h (.finished (.created body)) h.tx
        (.set key ⟨.done 201 body, h.payload, i⟩ idempotencyTtl)
  | deleteKey {key : String} {err : ApiError} : h.pc = .deleteKey err → h.lock = some key →
      Performs s i h (.finished (.error err)) h.tx (.del key)

/-- The operations of the try block that only read. -/
inductive PC.Reads : PC V → PC V → Prop where
  | checkRateLimit : Reads .checkRateLimit .getTemplate
  | getTemplate {t : ℕ} : Reads .getTemplate (.getPreference t)
  | getPreference {t : ℕ} {cs : List ChannelEnum} :
      Reads (.getPreference t) (.createNotification t cs)

/-- The control flow of a handler. -/
inductive Edge [BEq V] (s : State V) (i : ℕ) (h : Handler V) :
    Answer → Handler V → Effect V → Prop where
  | missed {key : String} : h.pc = .getEntry → h.lock = some key → s.get key = none →
      Edge s i h .ok (h.moved .setLock) .none
  | cached {key : String} {e : IdempotencyEntry V} {code : ℕ} {body : NotificationResponse V} :
      h.pc = .getEntry → h.lock = some key → s.get key = some e → e.payload.same h.payload = true →
      e.status = .done code body → Edge s i h .ok (h.moved (.finished (.cached code body))) .none
  | refused {a : Answer} {err : ApiError} : h.pc.inCheck = true →
      Edge s i h a (h.fail (.finished (.error err)) false) .none
  | reads {a : Answer} {q : PC V} : h.pc.Reads q → Edge s i h a (h.moved q) .none
  | failed {a : Answer} {err : ApiError} : h.pc.inTry = true →
      Edge s i h a (h.fail (h.cleanup err) false) .none
  | reloaded {n : Notification V} {body : NotificationResponse V} {a : Answer}
      {ds : List DeliveryRow} : h.pc = .reload →
      n ∈ s.notifications → n.id = i → ds.Perm (s.rowsOf i) → body = .modelValidate n ds →
      Edge s i h a { h with
        pc := if h.lock.isSome then .saveResponse body else .finished (.created body)
        built := some body } .none
  | performed {q : PC V} {tx : Option (Tx V)} {f : Effect V} : Performs s i h q tx f →
      Edge s i h .ok ((h.performed tx).moved q) f
  | raised {err : String} {e : ApiError} {q : PC V} {tx : Option (Tx V)} {f : Effect V} :
      h.pc.inTry = true → Performs s i h q tx f →
      Edge s i h (.raised err true) ((h.performed tx).fail (h.cleanup e) true) f
  | lockRaised {err : String} {e : ApiError} {q : PC V} {tx : Option (Tx V)} {f : Effect V} :
      h.pc = .setLock → Performs s i h q tx f →
      Edge s i h (.raised err true) ((h.performed tx).fail (.finished (.error e)) true) f
  | deleteFailed {err : String} {e e' : ApiError} : h.pc = .deleteKey e →
      Edge s i h (.raised err false) (h.moved (.finished (.error e'))) .none
  | deleteRaised {err : String} {e e' : ApiError} {q : PC V} {tx : Option (Tx V)} {f : Effect V} :
      h.pc = .deleteKey e → Performs s i h q tx f →
      Edge s i h (.raised err true) ((h.performed tx).moved (.finished (.error e'))) f

inductive Step [BEq V] (s : State V) : Action V → State V → Prop where
  | tick {d : ℕ} : Step s (.tick d) (s.elapse d)
  | request {key : Option String} {payload : NotificationRequest V} :
      Step s (.request key payload) { s with handlers := s.handlers ++ [start key payload] }
  | run {i : ℕ} {h h' : Handler V} {a : Answer} {f : Effect V} : s.handlers[i]? = some h →
      h.alive = true → Edge s i h a h' f → Step s (.run i a) ((s.apply f).setHandler i h')
  | crash {i : ℕ} {h : Handler V} : s.handlers[i]? = some h → h.isOver = false →
      Step s (.crash i) (s.setHandler i { h with alive := false })
  | rollback {i : ℕ} {h : Handler V} : s.handlers[i]? = some h → h.isOver = true →
      Step s (.rollback i) (s.setHandler i { h with tx := none })

variable {svc : TemplateService V} {s t : State V} {a : Action V} {i : ℕ} {h h' : Handler V}

@[simp] theorem apply_handlers (s : State V) (f : Effect V) : (s.apply f).handlers = s.handlers := by
  cases f <;> rfl

@[simp] theorem setHandler_handlers (s : State V) (i : ℕ) (h : Handler V) :
    (s.setHandler i h).handlers = s.handlers.set i h := rfl

@[simp] theorem setHandler_notifications (s : State V) (i : ℕ) (h : Handler V) :
    (s.setHandler i h).notifications = s.notifications := rfl

@[simp] theorem setHandler_get (s : State V) (i : ℕ) (h : Handler V) (key : String) :
    (s.setHandler i h).get key = s.get key := rfl

theorem start_cases (key : Option String) (payload : NotificationRequest V) :
    (start key payload).pc = .getEntry ∨ (start key payload).pc = .checkRateLimit := by
  unfold start
  simp only
  split
  · exact Or.inl rfl
  · exact Or.inr rfl

/-- A request with a usable key starts with GET. -/
theorem start_pc {key : Option String} {payload : NotificationRequest V} {l : String}
    (hl : (start key payload).lock = some l) : (start key payload).pc = .getEntry := by
  simp only [Handler.lock, start] at hl ⊢
  rw [hl]
  rfl

theorem lock_eq {key : String} (hl : h.lock = some key) : h.key = some key := by
  exact (Option.filter_eq_some_iff.mp hl).1

theorem lock_ne {key : String} (hl : h.lock = some key) : key ≠ "" := by
  simpa using (Option.filter_eq_some_iff.mp hl).2

theorem perform_cases {q : PC V} {tx : Option (Tx V)} {f : Effect V}
    (hp : perform s i h = some (q, tx, f)) : Performs s i h q tx f := by
  unfold perform at hp
  split at hp <;> (try split at hp) <;>
    simp only [Option.some.injEq, Prod.mk.injEq, reduceCtorEq] at hp <;> obtain ⟨rfl, rfl, rfl⟩ := hp
  · exact .setLock ‹_› ‹_› (by simp_all)
  · exact .createNotification ‹_› (by simp_all) (by simp_all)
  · exact .insertDelivery ‹_› ‹_› rfl
  · exact .insertLog ‹_› ‹_› rfl
  · exact .commit ‹_› ‹_›
  · exact .applyAsync ‹_›
  · exact .saveResponse ‹_› ‹_›
  · exact .deleteKey ‹_› ‹_›

variable [BEq V]

theorem onEntry_edge {key : String} {e : IdempotencyEntry V} (hpc : h.pc = .getEntry)
    (hlock : h.lock = some key) (he : s.get key = some e) : Edge s i h .ok (h.onEntry e) .none := by
  unfold Handler.onEntry
  split
  · split
    · exact .refused (by simp [hpc, PC.inCheck])
    · exact .cached hpc hlock he ‹_› ‹_›
  · exact .refused (by simp [hpc, PC.inCheck])

theorem onTemplate_edge {t : Option Template} (hpc : h.pc = .getTemplate) :
    Edge s i h (.template t) (h.onTemplate svc t) .none := by
  unfold Handler.onTemplate
  split
  · exact .failed (by simp [hpc, PC.inTry])
  · split
    · exact .failed (by simp [hpc, PC.inTry])
    · exact .reads (hpc ▸ .getTemplate)

theorem onReload_edge {b : Answer} {ds : List DeliveryRow} (hpc : h.pc = .reload)
    (hds : ds.Perm (s.rowsOf i)) : Edge s i h b (h.onReload s i ds) .none := by
  unfold Handler.onReload
  split
  · exact .failed (by simp [hpc, PC.inTry])
  · rename_i n hn
    exact .reloaded hpc (List.mem_of_find?_eq_some hn)
      (by simpa using List.find?_some hn) hds rfl

theorem success_edge {f : Effect V}
    (hn : (perform s i h).map (fun (q, tx, f) => ((h.performed tx).moved q, f)) = some (h', f)) :
    Edge s i h .ok h' f := by
  obtain ⟨⟨q, tx, g⟩, hp, hn⟩ := Option.map_eq_some_iff.mp hn
  simp only [Prod.mk.injEq] at hn
  obtain ⟨rfl, rfl⟩ := hn
  exact .performed (perform_cases hp)

theorem next_edge {b : Answer} {f : Effect V} (hn : next svc s i h b = some (h', f)) :
    Edge s i h b h' f := by
  unfold next at hn
  split at hn
  · split at hn <;> simp only [Option.some.injEq, Prod.mk.injEq, reduceCtorEq] at hn <;>
      obtain ⟨rfl, rfl⟩ := hn
    · exact .refused (by simp_all [PC.inCheck])
    · exact .refused (by simp_all [PC.inCheck])
    · exact .deleteFailed ‹_›
    · exact .failed (by cases hpc : h.pc <;> simp_all [PC.inTry])
  · obtain ⟨⟨q, tx, g⟩, hp, hn⟩ := Option.map_eq_some_iff.mp hn
    have hperf := perform_cases hp
    simp only at hn
    split at hn <;> simp only [Prod.mk.injEq] at hn <;> obtain ⟨rfl, rfl⟩ := hn
    · exact .lockRaised ‹_› hperf
    · exact .deleteRaised ‹_› hperf
    · refine .raised ?_ hperf
      cases hperf <;> simp_all [PC.inTry]
  · split at hn
    case h_1 hpc _ _ =>
      obtain ⟨key, hlock, hn⟩ := Option.map_eq_some_iff.mp hn
      split at hn <;> simp only [Prod.mk.injEq] at hn <;> obtain ⟨rfl, rfl⟩ := hn
      · exact .missed hpc hlock ‹_›
      · exact onEntry_edge hpc hlock ‹_›
    case h_7 hpc _ _ =>
      simp only [Option.ite_none_right_eq_some, Option.some.injEq, Prod.mk.injEq] at hn
      obtain ⟨hds, rfl, rfl⟩ := hn
      exact onReload_edge hpc (List.isPerm_iff.mp hds)
    case h_8 hpc _ _ =>
      split at hn
      · simp only [Option.some.injEq, Prod.mk.injEq] at hn
        obtain ⟨rfl, rfl⟩ := hn
        exact .refused (by simp [hpc, PC.inCheck])
      · exact success_edge hn
    case h_9 hpc _ _ =>
      split at hn
      · simp only [Option.some.injEq, Prod.mk.injEq] at hn
        obtain ⟨rfl, rfl⟩ := hn
        exact .failed (by simp [hpc, PC.inTry])
      · exact success_edge hn
    case h_10 => exact success_edge hn
    case h_11 => cases hn
    all_goals
      simp only [Option.some.injEq, Prod.mk.injEq] at hn
      obtain ⟨rfl, rfl⟩ := hn
    case h_2 hpc _ _ => exact .reads (hpc ▸ .checkRateLimit)
    case h_3 hpc _ _ => exact .failed (by simp [hpc, PC.inTry])
    case h_4 hpc _ _ => exact onTemplate_edge hpc
    case h_5 hpc _ _ => exact .reads (hpc ▸ .getPreference)
    case h_6 hpc _ _ => exact onReload_edge hpc (.refl _)

/-- A writing operation is `perform`, before or after an exception, or it fails. -/
theorem next_write {b : Answer} (hw : h.pc.writes = true) (hn : next svc s i h b = some (h', f)) :
    (∃ q tx, perform s i h = some (q, tx, f) ∧ (h' = (h.performed tx).moved q ∨
      ∃ e, h' = (h.performed tx).fail (h.cleanup e) true)) ∨
    (f = .none ∧ ∃ e, h' = h.fail (h.cleanup e) false) := by
  cases b with
  | raised err applied =>
    cases applied with
    | false =>
      right
      cases hpc : h.pc <;> simp only [hpc, PC.writes, Bool.false_eq_true] at hw <;>
        simp only [next, hpc, Option.some.injEq, Prod.mk.injEq] at hn <;>
        exact ⟨hn.2.symm, _, hn.1.symm⟩
    | true =>
      left
      obtain ⟨⟨q, tx, f'⟩, hp, heq⟩ := Option.map_eq_some_iff.mp hn
      cases hpc : h.pc <;> simp only [hpc, PC.writes, Bool.false_eq_true] at hw <;>
        simp only [hpc, Prod.mk.injEq] at heq <;>
        exact ⟨q, tx, heq.2 ▸ hp, Or.inr ⟨_, heq.1.symm⟩⟩
  | ok =>
    cases hpc : h.pc <;> simp only [hpc, PC.writes, Bool.false_eq_true] at hw <;>
      simp only [next, hpc, Option.map_eq_some_iff, Prod.mk.injEq, Prod.exists] at hn
    case createNotification =>
      split at hn
      · simp only [Option.some.injEq, Prod.mk.injEq] at hn
        exact Or.inr ⟨hn.2.symm, _, hn.1.symm⟩
      · simp only [Option.map_eq_some_iff, Prod.mk.injEq, Prod.exists] at hn
        obtain ⟨q, tx, _, hp, rfl, rfl⟩ := hn
        exact Or.inl ⟨q, tx, hp, Or.inl rfl⟩
    all_goals
      obtain ⟨q, tx, _, hp, rfl, rfl⟩ := hn
      exact Or.inl ⟨q, tx, hp, Or.inl rfl⟩
  | rateLimited | template | preference | deliveries =>
    cases hpc : h.pc <;> simp only [hpc, PC.writes, Bool.false_eq_true] at hw <;>
      simp [next, hpc] at hn

theorem running_edge {b : Answer} (he : Edge s i h b h' f) : h.pc.isFinished = false := by
  cases hpc : h.pc with
  | finished r =>
    cases he with
    | refused hin | failed hin | raised hin =>
      rw [hpc] at hin
      cases hin
    | reads hr =>
      rw [hpc] at hr
      cases hr
    | missed hpc' | cached hpc' | reloaded hpc' | lockRaised hpc' | deleteFailed hpc'
    | deleteRaised hpc' => cases hpc.symm.trans hpc'
    | performed hp => cases hp <;> simp_all
  | _ => rfl

theorem step_run {b : Answer} (hs : step svc s (.run i b) = some t) : ∃ h h' f,
    s.handlers[i]? = some h ∧ h.alive = true ∧ next svc s i h b = some (h', f) ∧
      t = (s.apply f).setHandler i h' := by
  obtain ⟨h, hh, hs⟩ := Option.bind_eq_some_iff.mp hs
  simp only [Option.ite_none_right_eq_some, Option.map_eq_some_iff] at hs
  obtain ⟨ha, ⟨h', f⟩, hn, rfl⟩ := hs
  exact ⟨h, h', f, hh, ha, hn, rfl⟩

theorem step_cases (hs : step svc s a = some t) : Step s a t := by
  cases a with
  | tick d =>
    simp only [step, Option.some.injEq] at hs
    exact hs ▸ .tick
  | request key payload =>
    simp only [step, Option.some.injEq] at hs
    exact hs ▸ .request
  | run i b =>
    obtain ⟨h, h', f, hh, ha, hn, rfl⟩ := step_run hs
    exact .run hh ha (next_edge hn)
  | crash i =>
    obtain ⟨h, hh, hs⟩ := Option.bind_eq_some_iff.mp hs
    simp only [Option.ite_none_left_eq_some, Option.some.injEq, Bool.not_eq_true] at hs
    obtain ⟨ho, rfl⟩ := hs
    exact .crash hh ho
  | rollback i =>
    obtain ⟨h, hh, hs⟩ := Option.bind_eq_some_iff.mp hs
    simp only [Option.ite_none_right_eq_some, Option.some.injEq] at hs
    obtain ⟨ho, rfl⟩ := hs
    exact .rollback hh ho

theorem sys_step (hs : (sys svc).Tr s a t) : Step s a t := step_cases hs

/-! ### Concrete requests -/

def plainText : TemplateService Unit := ⟨fun content subject _ => .ok (subject, content), ()⟩

def welcomeTemplate : Template := ⟨1, "welcome_email", some "Welcome", "Hello"⟩

def emailRequest : NotificationRequest Unit :=
  ⟨"user_happy", some [.email], "welcome_email", (), .high⟩

/-- From the rate limit to the row of the one delivery, which is not yet committed. -/
def insertSteps (i : ℕ) : List (Action Unit) :=
  [.run i .ok, .run i (.template (some welcomeTemplate)), .run i (.preference none), .run i .ok,
    .run i .ok, .run i .ok]

/-- A request with a key, up to the COMMIT. -/
def commitSteps (i : ℕ) (key : String) : List (Action Unit) :=
  [.request (some key) emailRequest, .run i .ok, .run i .ok] ++ insertSteps i ++ [.run i .ok]

/-- A request with a key, up to its 201 answer. -/
def createSteps (i : ℕ) (key : String) : List (Action Unit) :=
  commitSteps i key ++ [.run i .ok, .run i .ok, .run i .ok]

end NotificationService.Api
