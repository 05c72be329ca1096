import NotificationService.Api.System

/-! Idempotent agreement: one row for each key, and one body in all its 201 answers, through lost
locks, overwritten entries, exceptions and crashes. -/
namespace NotificationService.Api

open Transition ExpiringStore

variable {V : Type} {s t : State V} {i : ℕ} {h h' : Handler V} {f : Effect V}

/-! ### One row for each key -/

def keyed (key : String) (n : Notification V) : Bool := n.idempotencyKey = some key

/-- The handler's open transaction holds a row with the key. -/
def Handler.holds (key : String) (h : Handler V) : Bool :=
  h.tx.any fun x => keyed key x.notification

/-- Rows with the key, committed or in an open transaction. -/
def State.claims (s : State V) (key : String) : ℕ :=
  s.notifications.countP (keyed key) + s.handlers.countP (Handler.holds key)

theorem not_claimed (key : String) (ht : s.taken (some key) = false)
    (hc : s.contended (some key) = false) : s.claims key = 0 := by
  have hrows : s.notifications.countP (keyed key) = 0 := by
    simpa [State.taken, keyed, List.countP_eq_zero] using ht
  have hopen : s.handlers.countP (Handler.holds key) = 0 := by
    simpa [State.contended, Handler.holds, keyed, List.countP_eq_zero] using hc
  simp [State.claims, hrows, hopen]

/-- A writing operation moves a claim from the transaction to the table, or makes the first one. -/
theorem claims_performs {q : PC V} {tx : Option (Tx V)} (hp : Performs s i h q tx f)
    (key : String) :
    (s.apply f).notifications.countP (keyed key) +
      (tx.any fun x => keyed key x.notification).toNat ≤
        s.notifications.countP (keyed key) + (h.holds key).toNat ∨
      (s.claims key = 0 ∧ (s.apply f).notifications = s.notifications) := by
  cases hp with
  | @createNotification t cs hpc ht hc =>
    cases hk : keyed key (h.row i t) with
    | false => exact Or.inl (by simp [State.apply, hk])
    | true =>
      have hkey : h.key = some key := of_decide_eq_true hk
      rw [hkey] at ht hc
      exact Or.inr ⟨not_claimed key ht hc, rfl⟩
  | insertDelivery _ htx | insertLog _ htx =>
    exact Or.inl (by simp [State.apply, Handler.holds, htx])
  | @commit x _ htx =>
    left
    simp only [State.apply, Handler.holds, htx, List.countP_append, Option.any_some]
    cases hk : keyed key x.notification <;> simp [hk]
  | _ => exact Or.inl le_rfl

/-! ### What rows, bodies and entries come from -/

def PC.afterReload : PC V → Bool
  | .saveResponse _ | .deleteKey _ | .finished _ => true
  | _ => false

/-- The rows of a handler's transaction, and the body it built, are its own. -/
structure Handler.Own (s : State V) (i : ℕ) (h : Handler V) : Prop where
  tx : ∀ x, h.tx = some x → x.notification.id = i ∧
    x.notification.userId = h.payload.userId ∧ x.notification.idempotencyKey = h.key
  body : ∀ b, h.built = some b → b.id = i ∧ b.userId = h.payload.userId ∧
    ∃ n ∈ s.notifications, n.id = i
  after : h.built.isSome = true → h.pc.afterReload = true
  save : ∀ b, h.pc = .saveResponse b → h.built = some b
  created : ∀ b, h.pc = .finished (.created b) → h.built = some b

/-- A handler with this key built the body from this payload. -/
def Handler.Built (key : Option String) (payload : NotificationRequest V)
    (body : NotificationResponse V) (h : Handler V) : Prop :=
  h.key = key ∧ h.payload = payload ∧ h.built = some body

theorem cleanup_cases (h : Handler V) (e : ApiError) :
    h.cleanup e = .deleteKey e ∨ h.cleanup e = .finished (.error e) := by
  unfold Handler.cleanup
  split
  · exact Or.inl rfl
  · exact Or.inr rfl

theorem notifications_apply {n : Notification V} (hn : n ∈ s.notifications) (f : Effect V) :
    n ∈ (s.apply f).notifications := by
  cases f with
  | commit x => exact List.mem_append_left _ hn
  | _ => exact hn

/-- A handler that keeps its body keeps what it owns, if its next operation fits the body. -/
theorem own_update (ho : h.Own s i) (hsub : ∀ n ∈ s.notifications, n ∈ t.notifications)
    {q : PC V} {tx : Option (Tx V)} {fl : Option (PC V × Bool)}
    (htx : ∀ x, tx = some x → x.notification.id = i ∧
      x.notification.userId = h.payload.userId ∧ x.notification.idempotencyKey = h.key)
    (hafter : h.built.isSome = true → q.afterReload = true)
    (hsave : ∀ b, q = .saveResponse b → h.built = some b)
    (hcreated : ∀ b, q = .finished (.created b) → h.built = some b) :
    Handler.Own t i { h with pc := q, tx := tx, failure := fl } := by
  refine ⟨htx, ?_, hafter, hsave, hcreated⟩
  intro b hb
  obtain ⟨hid, huser, n, hn, hni⟩ := ho.body b hb
  exact ⟨hid, huser, n, hsub n hn, hni⟩

theorem tx_performs {q : PC V} {tx : Option (Tx V)} (hp : Performs s i h q tx f) (ho : h.Own s i) :
    ∀ x, tx = some x → x.notification.id = i ∧
      x.notification.userId = h.payload.userId ∧ x.notification.idempotencyKey = h.key := by
  intro x hx
  cases hp with
  | createNotification =>
    cases hx
    exact ⟨rfl, rfl, rfl⟩
  | insertDelivery _ htx | insertLog _ htx =>
    cases hx
    have hold := ho.tx _ htx
    exact hold
  | commit => cases hx
  | _ => exact ho.tx x hx

theorem nextDelivery_cases (cs : List ChannelEnum) :
    (nextDelivery cs : PC V) = .commit ∨ (nextDelivery cs : PC V) = .insertDelivery cs := by
  cases cs with
  | nil => exact Or.inl rfl
  | cons c cs => exact Or.inr rfl

theorem nextPublish_cases (ds : List DeliveryRow) :
    (nextPublish ds : PC V) = .reload ∨ (nextPublish ds : PC V) = .applyAsync ds := by
  cases ds with
  | nil => exact Or.inl rfl
  | cons d ds => exact Or.inr rfl

/-- What follows a writing operation answers only with the body that was saved. -/
theorem pc_performs {q : PC V} {tx : Option (Tx V)} (hp : Performs s i h q tx f) (ho : h.Own s i) :
    (h.built.isSome = true → q.afterReload = true) ∧ (∀ b, q ≠ .saveResponse b) ∧
      (∀ b, q = .finished (.created b) → h.built = some b) ∧
        ∀ c b, q ≠ .finished (.cached c b) := by
  have hafter := ho.after
  cases hp with
  | saveResponse hpc =>
    refine ⟨fun _ => rfl, nofun, ?_, nofun⟩
    intro b hb
    cases hb
    exact ho.save _ hpc
  | deleteKey => exact ⟨fun _ => rfl, nofun, nofun, nofun⟩
  | @createNotification t cs hpc | @insertLog c cs x l hpc =>
    rw [hpc] at hafter
    rcases nextDelivery_cases (V := V) cs with hq | hq <;> rw [hq] <;>
      exact ⟨hafter, nofun, nofun, nofun⟩
  | @commit x hpc =>
    rw [hpc] at hafter
    rcases nextPublish_cases (V := V) x.deliveries with hq | hq <;> rw [hq] <;>
      exact ⟨hafter, nofun, nofun, nofun⟩
  | @applyAsync d ds q hpc =>
    rw [hpc] at hafter
    rcases nextPublish_cases (V := V) ds with hq | hq <;> rw [hq] <;>
      exact ⟨hafter, nofun, nofun, nofun⟩
  | setLock hpc | insertDelivery hpc =>
    rw [hpc] at hafter
    exact ⟨hafter, nofun, nofun, nofun⟩

theorem reads_before {p q : PC V} (hr : p.Reads q) :
    p.afterReload = false ∧ q.afterReload = false := by
  cases hr <;> exact ⟨rfl, rfl⟩

theorem nextBuilt_cases (h : Handler V) (body : NotificationResponse V) :
    (if h.lock.isSome then PC.saveResponse body else .finished (.created body)) = .saveResponse body ∨
      (if h.lock.isSome then PC.saveResponse body else .finished (.created body)) =
        .finished (.created body) := by
  split
  · exact Or.inl rfl
  · exact Or.inr rfl

theorem own_reloaded (ho : h.Own s i) {n : Notification V}
    {body : NotificationResponse V} {ds : List DeliveryRow} (hn : n ∈ s.notifications)
      (hni : n.id = i)
    (huser : n.userId = h.payload.userId) (hbody : body = .modelValidate n ds) :
    Handler.Own s i { h with
      pc := if h.lock.isSome then .saveResponse body else .finished (.created body)
      built := some body } := by
  subst hbody
  refine ⟨ho.tx, ?_, ?_, ?_, ?_⟩
  · intro b hb
    cases hb
    exact ⟨hni, huser, n, hn, hni⟩
  all_goals
    rcases nextBuilt_cases h (.modelValidate n ds) with hq | hq <;> simp [hq, PC.afterReload]

theorem own_mono (ho : h.Own s i) (hsub : ∀ n ∈ s.notifications, n ∈ t.notifications) :
    h.Own t i := by
  refine ⟨ho.tx, ?_, ho.after, ho.save, ho.created⟩
  intro b hb
  obtain ⟨hid, huser, n, hn, hni⟩ := ho.body b hb
  exact ⟨hid, huser, n, hsub n hn, hni⟩

theorem own_start (key : Option String) (payload : NotificationRequest V) :
    (start key payload).Own s i := by
  refine ⟨nofun, nofun, nofun, ?_, ?_⟩ <;> intro b hb <;>
    rcases start_cases key payload with hq | hq <;> cases hq.symm.trans hb

/-! ### Steps and runs -/

variable [BEq V] {svc : TemplateService V} {a : Action V} {xs : List (Action V)}

theorem claims_edge {b : Answer} (he : Edge s i h b h' f) (key : String) :
    (s.apply f).notifications.countP (keyed key) + (h'.holds key).toNat ≤
        s.notifications.countP (keyed key) + (h.holds key).toNat ∨
      (s.claims key = 0 ∧ (s.apply f).notifications = s.notifications) := by
  cases he with
  | performed hp | raised _ hp | lockRaised _ hp | deleteRaised _ hp => exact claims_performs hp key
  | _ => exact Or.inl le_rfl

theorem claims_step (hs : Step s a t) (key : String) (hone : s.claims key ≤ 1) :
    t.claims key ≤ 1 := by
  unfold State.claims at hone ⊢
  cases hs with
  | tick => exact hone
  | request => simpa [List.countP_append, Handler.holds, start] using hone
  | @run i h h' b f hh _ he =>
    have hset := Pool.countP_set (a := h') (p := Handler.holds key) hh
    simp only [setHandler_notifications, setHandler_handlers, apply_handlers]
    rcases claims_edge he key with hle | ⟨hzero, hrows⟩
    · omega
    · unfold State.claims at hzero
      have hnew := Bool.toNat_le (h'.holds key)
      rw [hrows]
      omega
  | @crash i h hh =>
    have hset := Pool.countP_set_eq (a := { h with alive := false }) (p := Handler.holds key) hh rfl
    simp only [setHandler_notifications, setHandler_handlers]
    omega
  | @rollback i h hh =>
    have hset := Pool.countP_set_le (a := { h with tx := none }) (p := Handler.holds key) hh rfl
    simp only [setHandler_notifications, setHandler_handlers]
    omega

structure Traced (s : State V) : Prop where
  own : ∀ (i : ℕ) (h : Handler V), s.handlers[i]? = some h → h.Own s i
  rows : ∀ n ∈ s.notifications, ∃ h, s.handlers[n.id]? = some h ∧
    n.userId = h.payload.userId ∧ n.idempotencyKey = h.key
  entries : ∀ (key : String) (e : IdempotencyEntry V) (code : ℕ) (body : NotificationResponse V),
    s.get key = some e → e.status = .done code body →
      code = 201 ∧ ∃ h, s.handlers[e.writer]? = some h ∧ h.Built (some key) e.payload body
  replays : ∀ (i : ℕ) (h : Handler V), s.handlers[i]? = some h →
    ∀ (code : ℕ) (body : NotificationResponse V), h.pc = .finished (.cached code body) →
      code = 201 ∧ ∃ (j : ℕ) (payload : NotificationRequest V),
        (∃ g, s.handlers[j]? = some g ∧ g.Built h.key payload body) ∧ payload.same h.payload = true

theorem own_edge {b : Answer} (he : Edge s i h b h' f) (ho : h.Own s i)
    (huser : ∀ n ∈ s.notifications, n.id = i → n.userId = h.payload.userId) :
    h'.Own (s.apply f) i := by
  have hsub : ∀ n ∈ s.notifications, n ∈ (s.apply f).notifications :=
    fun n hn => notifications_apply hn f
  cases he with
  | missed hpc =>
    have hafter := ho.after
    rw [hpc] at hafter
    exact own_update ho hsub ho.tx hafter nofun nofun
  | cached | refused | deleteFailed => exact own_update ho hsub ho.tx (fun _ => rfl) nofun nofun
  | @reads b q hr =>
    obtain ⟨hp, hq⟩ := reads_before hr
    refine own_update ho hsub ho.tx ?_ ?_ ?_
    · intro hb
      have hafter := ho.after hb
      rw [hp] at hafter
      cases hafter
    all_goals
      rintro b rfl
      cases hq
  | @failed b e =>
    rcases cleanup_cases h e with hq | hq <;>
      exact own_update ho hsub ho.tx (by simp [hq, PC.afterReload]) (by simp [hq]) (by simp [hq])
  | reloaded _ hn hni _ hbody => exact own_reloaded ho hn hni (huser _ hn hni) hbody
  | performed hp =>
    obtain ⟨hafter, hsave, hcreated, _⟩ := pc_performs hp ho
    exact own_update ho hsub (tx_performs hp ho) hafter (fun b hb => (hsave b hb).elim) hcreated
  | @raised err e q tx f _ hp =>
    rcases cleanup_cases h e with hq | hq <;>
      exact own_update ho hsub (tx_performs hp ho) (by simp [hq, PC.afterReload]) (by simp [hq])
        (by simp [hq])
  | lockRaised _ hp | deleteRaised _ hp =>
    exact own_update ho hsub (tx_performs hp ho) (fun _ => rfl) nofun nofun

theorem origin_edge {b : Answer} (he : Edge s i h b h' f) :
    h'.key = h.key ∧ h'.payload = h.payload := by
  cases he <;> exact ⟨rfl, rfl⟩

/-- A body is never replaced. -/
theorem built_edge {b : Answer} (he : Edge s i h b h' f) (ho : h.Own s i) {key : Option String}
    {payload : NotificationRequest V} {body : NotificationResponse V}
    (hb : h.Built key payload body) : h'.Built key payload body := by
  obtain ⟨hkey, hpayload, hbuilt⟩ := hb
  cases he with
  | reloaded hpc =>
    have hafter := ho.after (by rw [hbuilt]; rfl)
    rw [hpc] at hafter
    cases hafter
  | _ => exact ⟨hkey, hpayload, hbuilt⟩

/-- A cached answer comes from a finished entry with the same payload. -/
theorem cached_edge {b : Answer} (he : Edge s i h b h' f) (ho : h.Own s i) {code : ℕ}
    {body : NotificationResponse V} (hc : h'.pc = .finished (.cached code body)) :
    ∃ key e, h.key = some key ∧ s.get key = some e ∧ e.payload.same h.payload = true ∧
      e.status = .done code body := by
  cases he with
  | cached _ hlock hget hsame hdone =>
    cases hc
    exact ⟨_, _, lock_eq hlock, hget, hsame, hdone⟩
  | @reads b q hr =>
    have hq : q = .finished (.cached code body) := hc
    subst hq
    cases (reads_before hr).2
  | failed =>
    rcases cleanup_cases h _ with hq | hq <;> cases hq.symm.trans hc
  | raised =>
    rcases cleanup_cases h _ with hq | hq <;> cases hq.symm.trans hc
  | performed hp => exact ((pc_performs hp ho).2.2.2 _ _ hc).elim
  | reloaded =>
    rcases nextBuilt_cases h _ with hq | hq <;> cases hq.symm.trans hc
  | _ => cases hc

theorem row_edge {b : Answer} (he : Edge s i h b h' f) (ho : h.Own s i) {n : Notification V}
    (hn : n ∈ (s.apply f).notifications) : n ∈ s.notifications ∨
      (n.id = i ∧ n.userId = h.payload.userId ∧ n.idempotencyKey = h.key) := by
  cases f with
  | commit x =>
    rcases List.mem_append.mp hn with hn | hn
    · exact Or.inl hn
    · right
      rw [List.mem_singleton.mp hn]
      cases he with
      | performed hp | raised _ hp | lockRaised _ hp | deleteRaised _ hp =>
        cases hp with
        | commit _ htx => exact ho.tx x htx
  | _ => exact Or.inl hn

/-- Only the handler that built a body writes it into an entry. -/
theorem entry_edge {b : Answer} (he : Edge s i h b h' f) (ho : h.Own s i) {key : String}
    {e : IdempotencyEntry V} {code : ℕ} {body : NotificationResponse V}
    (hget : (s.apply f).get key = some e) (hdone : e.status = .done code body) :
    s.get key = some e ∨ (code = 201 ∧ e.writer = i ∧ h.Built (some key) e.payload body) := by
  cases f with
  | del k => exact Or.inl (get_of_get_del hget)
  | set k e' ttl =>
    rcases get_set_cases hget with ⟨hk, rfl⟩ | hold
    · right
      obtain rfl := redisKey_injective hk
      cases he with
      | performed hp | raised _ hp | lockRaised _ hp | deleteRaised _ hp =>
        cases hp with
        | setLock => cases hdone
        | saveResponse hpc hlock =>
          cases hdone
          exact ⟨rfl, rfl, lock_eq hlock, rfl, ho.save _ hpc⟩
    · exact Or.inl hold
  | _ => exact Or.inl hget

theorem user_of_rows (hs : Traced s) (hh : s.handlers[i]? = some h) :
    ∀ n ∈ s.notifications, n.id = i → n.userId = h.payload.userId := by
  intro n hn hni
  obtain ⟨g, hg, huser, _⟩ := hs.rows n hn
  rw [hni, hh] at hg
  cases hg
  exact huser

/-- The common part of every step that replaces one handler. -/
theorem traced_update (hs : Traced s) (hh : s.handlers[i]? = some h)
    (ht : t.handlers = s.handlers.set i h') (horigin : h'.key = h.key ∧ h'.payload = h.payload)
    (hbuilt : ∀ key payload body, h.Built key payload body → h'.Built key payload body)
    (hsub : ∀ n ∈ s.notifications, n ∈ t.notifications) (hown : h'.Own t i)
    (hrows : ∀ n ∈ t.notifications, n ∈ s.notifications ∨
      (n.id = i ∧ n.userId = h.payload.userId ∧ n.idempotencyKey = h.key))
    (hentries : ∀ key e code body, t.get key = some e → e.status = .done code body →
      s.get key = some e ∨ (code = 201 ∧ e.writer = i ∧ h.Built (some key) e.payload body))
    (hcached : ∀ code body, h'.pc = .finished (.cached code body) → code = 201 ∧
      ∃ (j : ℕ) (payload : NotificationRequest V),
        (∃ g, s.handlers[j]? = some g ∧ g.Built h.key payload body) ∧
          payload.same h.payload = true) :
    Traced t := by
  obtain ⟨hkey', hpayload'⟩ := horigin
  have hkeep : ∀ {j : ℕ} {key payload body},
      (∃ g : Handler V, s.handlers[j]? = some g ∧ g.Built key payload body) →
        ∃ g : Handler V, t.handlers[j]? = some g ∧ g.Built key payload body :=
    fun hg => ht ▸ Pool.exists_getElem?_set hh (fun _ hb => hbuilt _ _ _ hb) hg
  refine ⟨?_, ?_, ?_, ?_⟩
  · rw [ht]
    refine Pool.forall_getElem?_set (R := fun j (g : Handler V) => g.Own t j) ?_ hown
    exact fun j g hg => own_mono (hs.own j g hg) hsub
  · intro n hn
    rw [ht]
    rcases hrows n hn with hold | ⟨hni, huser, hkey⟩
    · refine Pool.exists_getElem?_set hh ?_ (hs.rows n hold)
      rintro _ ⟨huser, hkey⟩
      exact ⟨hpayload' ▸ huser, hkey' ▸ hkey⟩
    · refine ⟨h', ?_, hpayload' ▸ huser, hkey' ▸ hkey⟩
      rw [hni, List.getElem?_set_self (List.getElem?_eq_some_iff.mp hh).1]
  · intro key e code body hget hdone
    rcases hentries key e code body hget hdone with hold | ⟨hcode, hwriter, hb⟩
    · obtain ⟨hcode, hg⟩ := hs.entries key e code body hold hdone
      exact ⟨hcode, hkeep hg⟩
    · exact ⟨hcode, hkeep ⟨h, hwriter ▸ hh, hb⟩⟩
  · rw [ht]
    refine Pool.forall_getElem?_set ?_ ?_
    · intro j g hg code body hpc
      obtain ⟨hcode, k, payload, hb, hsame⟩ := hs.replays j g hg code body hpc
      exact ⟨hcode, k, payload, ht ▸ hkeep hb, hsame⟩
    · intro code body hpc
      obtain ⟨hcode, k, payload, hb, hsame⟩ := hcached code body hpc
      exact ⟨hcode, k, payload, ht ▸ hkey' ▸ hkeep hb, hpayload' ▸ hsame⟩

theorem traced_run {b : Answer} (hs : Traced s) (hh : s.handlers[i]? = some h)
    (he : Edge s i h b h' f) : Traced ((s.apply f).setHandler i h') := by
  have ho := hs.own i h hh
  have hown := own_edge he ho (user_of_rows hs hh)
  refine traced_update hs hh (by simp) (origin_edge he) (fun _ _ _ hb => built_edge he ho hb)
    (fun n hn => notifications_apply hn f) (own_mono hown fun _ hn => hn)
    (fun n hn => row_edge he ho hn) (fun _ _ _ _ hget hdone => entry_edge he ho hget hdone) ?_
  intro code body hpc
  obtain ⟨key, e, hkey, hget, hsame, hdone⟩ := cached_edge he ho hpc
  obtain ⟨hcode, hg⟩ := hs.entries key e code body hget hdone
  exact ⟨hcode, e.writer, e.payload, hkey ▸ hg, hsame⟩

theorem traced_step (hstep : Step s a t) (hs : Traced s) : Traced t := by
  cases hstep with
  | tick =>
    refine ⟨fun j g hg => own_mono (hs.own j g hg) fun _ hn => hn, hs.rows, ?_, hs.replays⟩
    exact fun key e code body hget => hs.entries key e code body (get_of_get_expire hget)
  | @request key payload =>
    refine ⟨?_, fun n hn => Pool.exists_getElem?_concat (hs.rows n hn), ?_, ?_⟩
    · refine Pool.forall_getElem?_concat ?_ (own_start _ _)
      exact fun j g hg => own_mono (hs.own j g hg) fun _ hn => hn
    · intro key e code body hget hdone
      obtain ⟨hcode, hg⟩ := hs.entries key e code body hget hdone
      exact ⟨hcode, Pool.exists_getElem?_concat hg⟩
    · refine Pool.forall_getElem?_concat ?_ ?_
      · intro j g hg code body hpc
        obtain ⟨hcode, k, payload, hb, hsame⟩ := hs.replays j g hg code body hpc
        exact ⟨hcode, k, payload, Pool.exists_getElem?_concat hb, hsame⟩
      · intro code body hpc
        rcases start_cases key payload with hq | hq <;> cases hq.symm.trans hpc
  | run hh _ he => exact traced_run hs hh he
  | @crash i h hh =>
    obtain ⟨htx, hbody, hafter, hsave, hcreated⟩ := hs.own i h hh
    exact traced_update hs hh rfl ⟨rfl, rfl⟩ (fun _ _ _ hb => hb) (fun _ hn => hn)
      ⟨htx, hbody, hafter, hsave, hcreated⟩ (fun _ hn => Or.inl hn)
      (fun _ _ _ _ hget _ => Or.inl hget) (hs.replays i h hh)
  | @rollback i h hh =>
    obtain ⟨_, hbody, hafter, hsave, hcreated⟩ := hs.own i h hh
    exact traced_update hs hh rfl ⟨rfl, rfl⟩ (fun _ _ _ hb => hb) (fun _ hn => hn)
      ⟨by simp, hbody, hafter, hsave, hcreated⟩ (fun _ hn => Or.inl hn)
      (fun _ _ _ _ hget _ => Or.inl hget) (hs.replays i h hh)

/-! ### Agreement -/

/-- The body of a 201 answer. -/
def Handler.answer201 (h : Handler V) : Option (NotificationResponse V) :=
  match h.pc with
  | .finished (.created body) => some body
  | .finished (.cached 201 body) => some body
  | _ => none

/-- A 201 answer was built by the handler of a committed row with the same key and user. -/
theorem answer_traced (hs : Traced s) (hh : s.handlers[i]? = some h) {body : NotificationResponse V}
    (ha : h.answer201 = some body) : ∃ n ∈ s.notifications, n.idempotencyKey = h.key ∧
      body.id = n.id ∧ body.userId = h.payload.userId ∧
      ∃ g, s.handlers[n.id]? = some g ∧ g.built = some body := by
  have hb : ∃ (j : ℕ) (payload : NotificationRequest V),
      (∃ g, s.handlers[j]? = some g ∧ g.Built h.key payload body) ∧
        payload.userId = h.payload.userId := by
    unfold Handler.answer201 at ha
    split at ha <;> simp only [Option.some.injEq, reduceCtorEq] at ha <;> subst ha
    · exact ⟨i, h.payload, ⟨h, hh, rfl, rfl, (hs.own i h hh).created _ ‹_›⟩, rfl⟩
    · obtain ⟨_, j, payload, hg, hsame⟩ := hs.replays i h hh _ _ ‹_›
      refine ⟨j, payload, hg, ?_⟩
      simp only [NotificationRequest.same, Bool.and_eq_true, beq_iff_eq] at hsame
      exact hsame.1.1.1.1
  obtain ⟨j, payload, ⟨g, hg, hkey, rfl, hbuilt⟩, huser⟩ := hb
  obtain ⟨hid, hbuser, n, hn, rfl⟩ := (hs.own j g hg).body body hbuilt
  obtain ⟨g', hg', _, hnkey⟩ := hs.rows n hn
  cases hg.symm.trans hg'
  exact ⟨n, hn, hnkey.trans hkey, hid, hbuser.trans huser, g, hg, hbuilt⟩

theorem traced_initial : Traced (initial : State V) where
  own := by simp [initial]
  rows := by simp [initial]
  entries := by
    intro key e code body hget
    simp [State.get, ExpiringStore.get, initial, empty] at hget
  replays := by simp [initial]

/-- For every key: at most one committed row, and all 201 answers to requests with the key carry
one body, which has the id of that row and the user of each of the requests. -/
theorem idempotent_agreement (hrun : (sys svc).MTr initial xs s) (key : String) :
    s.notifications.countP (·.idempotencyKey = some key) ≤ 1 ∧
      ∀ (i j : ℕ) (g h : Handler V) (b c : NotificationResponse V),
        s.handlers[i]? = some g → s.handlers[j]? = some h → g.key = some key →
        h.key = some key → g.answer201 = some b → h.answer201 = some c →
        b = c ∧ b.userId = g.payload.userId ∧
          ∃ n ∈ s.notifications, n.idempotencyKey = some key ∧ b.id = n.id := by
  have hinv : (sys svc).TrInv (fun s => s.claims key ≤ 1 ∧ Traced s) := by
    rintro s a t hstep ⟨hone, hs⟩
    exact ⟨claims_step (sys_step hstep) key hone, traced_step (sys_step hstep) hs⟩
  obtain ⟨hone, hs⟩ := LTS.mtrInv_of_trInv hinv hrun ⟨Nat.zero_le _, traced_initial⟩
  have hrows : s.notifications.countP (keyed key) ≤ 1 := by
    unfold State.claims at hone
    omega
  refine ⟨hrows, ?_⟩
  intro i j g h b c hg hh hgk hhk hb hc
  obtain ⟨n, hn, hnk, hbn, hbu, x, hx, hxb⟩ := answer_traced hs hg hb
  obtain ⟨m, hm, hmk, _, _, y, hy, hyc⟩ := answer_traced hs hh hc
  have hnk' := hnk.trans hgk
  have heq : n = m := Pool.eq_of_countP_le_one hrows hn hm (by simp [keyed, hnk'])
    (by simp [keyed, hmk.trans hhk])
  subst heq
  cases hx.symm.trans hy
  exact ⟨Option.some.inj (hxb.symm.trans hyc), hbu, n, hn, hnk', hbn⟩

/-- A request and its repetition. -/
def repeatRun : List (Action Unit) :=
  createSteps 0 "order-1" ++ [.request (some "order-1") emailRequest, .run 1 .ok]

def emailBody : NotificationResponse Unit :=
  ⟨0, "user_happy", some 1, some (), .high, [⟨0, 0, ⟨.email, .pending, 0, none, 0⟩⟩]⟩

theorem idempotent_agreement_repeated : ∃ s g h, (sys plainText).MTr initial repeatRun s ∧
    s.handlers[0]? = some g ∧ g.answer201 = some emailBody ∧
    s.handlers[1]? = some h ∧ h.answer201 = some emailBody ∧ emailBody.userId = h.payload.userId ∧
    s.notifications.countP (·.idempotencyKey = some "order-1") ≤ 1 := by
  have hrun : (LTS.run (step plainText) initial repeatRun).map
      (fun s => s.handlers.map fun h => (h.key, h.answer201)) =
        some [(some "order-1", some emailBody), (some "order-1", some emailBody)] := by decide
  obtain ⟨s, hrun', he⟩ := LTS.exists_mTr hrun
  obtain ⟨g, l, hl, hg', hmap⟩ := List.map_eq_cons_iff.mp he
  obtain ⟨h, r, rfl, hh', _⟩ := List.map_eq_cons_iff.mp hmap
  obtain ⟨hgk, hga⟩ := Prod.mk.inj hg'
  obtain ⟨hhk, hha⟩ := Prod.mk.inj hh'
  have hg : s.handlers[0]? = some g := by simp [hl]
  have hh : s.handlers[1]? = some h := by simp [hl]
  obtain ⟨hone, hagree⟩ := idempotent_agreement hrun' "order-1"
  have huser := (hagree 1 0 h g emailBody emailBody hh hg hhk hgk hha hga).2.1
  exact ⟨s, g, h, hrun', hg, hga, hh, hha, huser, hone⟩

end NotificationService.Api
