import NotificationService.Api.Agreement
import NotificationService.Api.Ownership

/-! The Redis entries against the unique column: entries that lapse under a permanent row, and
agreement while they do not. -/
namespace NotificationService.Api

open Transition ExpiringStore

variable {V : Type} {s t : State V} {i : ℕ} {h h' : Handler V} {f : Effect V} {a : Action V}
  {key : String}

/-- Past `check_or_lock`, with no row committed yet. -/
def PC.beforeCommit : PC V → Bool
  | .checkRateLimit | .getTemplate | .getPreference _ | .createNotification _ _
  | .insertDelivery _ | .insertLog _ | .commit => true
  | _ => false

/-- The handler runs past its check, with this header. -/
def Handler.runsWith (key : String) (h : Handler V) : Bool :=
  h.alive && h.pc.pastCheck && h.key = some key

def PC.isDelete : PC V → Bool
  | .deleteKey _ => true
  | _ => false

/-- An entry leaves Redis, by expiry or by `delete_key`, only while no committed row has its key; by
expiry, moreover, only while no request with its key runs past its check. At most one request has an
empty header. -/
def Lasting (s : State V) : Action V → Prop
  | .tick d =>
    s.notifications.all (·.idempotencyKey.all (!s.expires d ·)) = true ∧
      s.handlers.all (fun h => h.lock.all fun key => !h.runsWith key || !s.expires d key) = true
  | .request key _ => key = some "" → s.handlers.all (·.key ≠ key) = true
  | .run i .ok | .run i (.raised _ true) =>
    s.handlers[i]?.all (fun h => !h.pc.isDelete || !s.taken h.lock) = true
  | _ => True

instance (s : State V) : (a : Action V) → Decidable (Lasting s a)
  | .tick _ => inferInstanceAs (Decidable (_ ∧ _))
  | .request _ _ => inferInstanceAs (Decidable (_ → _))
  | .run _ .ok | .run _ (.raised _ true) => inferInstanceAs (Decidable (_ = true))
  | .run _ (.rateLimited _) | .run _ (.template _) | .run _ (.preference _)
  | .run _ (.deliveries _) | .run _ (.raised _ false) | .crash _ | .rollback _ => isTrue trivial

/-- The header of the request that an action takes past the idempotency step. -/
def State.admits (s : State V) : Action V → Option (Option String)
  | .request key _ => if (key.filter (· ≠ "")).isSome then none else some key
  | .run i .ok =>
    s.handlers[i]?.bind fun h =>
      match h.pc, h.lock with
      | .setLock, some key => if (s.get key).isNone then some h.key else none
      | _, _ => none
  | _ => none

/-- A usable key has an entry. -/
def State.hasEntry (s : State V) (key : String) : Prop := key ≠ "" → (s.get key).isSome = true

/-- What holds of one key in runs whose entries last. -/
structure AgreeOn (key : String) (s : State V) : Prop where
  entry : s.taken (some key) = true → s.hasEntry key
  running : ∀ h ∈ s.handlers, h.runsWith key = true →
    s.hasEntry key ∧ (h.pc.beforeCommit = true → s.taken (some key) = false)
  one : s.handlers.countP (Handler.runsWith key) ≤ 1

/-- The key of the row that an effect commits. -/
def Effect.row : Effect V → Option String
  | .commit x => x.notification.idempotencyKey
  | _ => .none

/-- The effect puts an entry under the free key. -/
def Effect.Takes (key : String) (s : State V) (f : Effect V) : Prop :=
  key ≠ "" ∧ s.get key = .none ∧ f.row = .none ∧ ((s.apply f).get key).isSome = true

/-- The effect is on no entry and no row with the key. -/
def Effect.Leaves (key : String) (s : State V) (f : Effect V) : Prop :=
  (s.apply f).get key = s.get key ∧ f.row ≠ some key

theorem taken_apply : (s.apply f).taken (some key) = true ↔
    s.taken (some key) = true ∨ f.row = some key := by
  cases f with
  | commit x => simp [State.taken, State.apply, Effect.row]
  | _ => simp [State.taken, State.apply, Effect.row]

theorem taken_of_row_ne (hrow : f.row ≠ some key) :
    (s.apply f).taken (some key) = s.taken (some key) :=
  Bool.eq_iff_iff.mpr (taken_apply.trans (or_iff_left hrow))

theorem runsWith_iff : h.runsWith key = true ↔
    h.alive = true ∧ h.pc.pastCheck = true ∧ h.key = some key := by
  simp [Handler.runsWith, and_assoc]

theorem lock_of_key (hk : h.key = some key) (hne : key ≠ "") : h.lock = some key := by
  simp [Handler.lock, hk, hne]

/-- A live request without the key has not passed its check with it. -/
theorem pastCheck_of_not_runsWith (hruns : h.runsWith key = false) (ha : h.alive = true)
    (hk : h.key = some key) : h.pc.pastCheck = false := by
  simpa [Handler.runsWith, ha, hk] using hruns

theorem row_performs {q : PC V} {tx : Option (Tx V)} (hp : Performs s i h q tx f) (ho : h.Own s i) :
    f.row = .none ∨ (h.pc = .commit ∧ f.row = h.key ∧ ∃ ds, q = nextPublish ds) := by
  cases hp with
  | commit hpc htx => exact Or.inr ⟨hpc, (ho.tx _ htx).2.2, _, rfl⟩
  | _ => exact Or.inl rfl

/-- The next operation is still before the commit only if this one was. -/
theorem beforeCommit_performs {q : PC V} {tx : Option (Tx V)} (hp : Performs s i h q tx f)
    (hq : q.beforeCommit = true) : h.pc.beforeCommit = true ∨ h.pc = .setLock := by
  cases hp with
  | setLock hpc => exact Or.inr hpc
  | createNotification hpc | insertDelivery hpc | insertLog hpc | commit hpc =>
    exact Or.inl (by rw [hpc]; rfl)
  | @applyAsync d ds q hpc =>
    rcases nextPublish_cases (V := V) ds with heq | heq <;> rw [heq] at hq <;> cases hq
  | saveResponse | deleteKey => cases hq

theorem isSome_set (e : IdempotencyEntry V) (ttl : ℕ) :
    ((s.apply (.set key e ttl)).get key).isSome = true := by
  rw [apply_set_self]
  rfl

/-- A writing operation of the request that holds the key. -/
theorem performs_running {q : PC V} {tx : Option (Tx V)} (hp : Performs s i h q tx f)
    (ho : h.Own s i)
    (hruns : h.runsWith key = true) (hget : s.hasEntry key)
    (hdel : h.pc.isDelete = true → s.taken h.lock = false) :
    ((s.apply f).hasEntry key ∨
        (h.pc.isDelete = true ∧ q.isFinished = true ∧ (s.apply f).taken (some key) = false)) ∧
      (f.row = some key → q.beforeCommit = false) := by
  obtain ⟨_, hpast, hkey⟩ := runsWith_iff.mp hruns
  have hrow : f.row = some key → q.beforeCommit = false := by
    intro hrow
    rcases row_performs hp ho with hnone | ⟨_, _, ds, rfl⟩
    · cases hnone.symm.trans hrow
    · rcases nextPublish_cases (V := V) ds with hq | hq <;> rw [hq] <;> rfl
  refine ⟨?_, hrow⟩
  cases keys_performs hp with
  | frame _ hframe =>
    left
    intro hne
    rw [hframe]
    exact hget hne
  | locks hpc =>
    rw [hpc] at hpast
    cases hpast
  | saves _ hl _ hf =>
    cases hkey.symm.trans (lock_eq hl)
    exact Or.inl fun _ => hf ▸ isSome_set _ _
  | deletes hpc hl hq hf =>
    have hno := hdel (by rw [hpc]; rfl)
    rw [hl] at hno
    cases hkey.symm.trans (lock_eq hl)
    subst hf hq
    exact Or.inr ⟨by rw [hpc]; rfl, rfl, (taken_of_row_ne (by simp [Effect.row])).trans hno⟩

/-- A writing operation of another request leaves the key alone, or is its `check_or_lock`. -/
theorem performs_aside {q : PC V} {tx : Option (Tx V)} (hp : Performs s i h q tx f) (ho : h.Own s i)
    (hruns : h.runsWith key = false) (ha : h.alive = true) :
    f.Takes key s ∨ (f.Leaves key s ∧ (h.key = some key → q.pastCheck = false)) := by
  have hpast := fun hk => pastCheck_of_not_runsWith hruns ha hk
  have hrow : f.row ≠ some key := by
    intro hr
    rcases row_performs hp ho with hnone | ⟨hpc, hkey, _⟩
    · cases hnone.symm.trans hr
    · have hfalse := hpast (hkey.symm.trans hr)
      rw [hpc] at hfalse
      cases hfalse
  have hne : h.pc.pastCheck = true → ∀ l, h.lock = some l → key ≠ l := by
    rintro hp l hl rfl
    have hfalse := hpast (lock_eq hl)
    rw [hp] at hfalse
    cases hfalse
  cases keys_performs hp with
  | frame hpc hframe =>
    refine Or.inr ⟨⟨hframe key, hrow⟩, ?_⟩
    intro hk
    have hfalse := hpast hk
    rw [hpc] at hfalse
    cases hfalse
  | @locks l hpc hl hget _ hf =>
    subst hf
    by_cases hkl : key = l
    · subst hkl
      exact Or.inl ⟨lock_ne hl, hget, rfl, isSome_set _ _⟩
    · refine Or.inr ⟨⟨apply_set_of_ne hkl _ _, hrow⟩, ?_⟩
      intro hk
      exact (hkl (Option.some.inj (hk.symm.trans (lock_eq hl)))).elim
  | saves hpc hl hq hf =>
    subst hf hq
    exact Or.inr ⟨⟨apply_set_of_ne (hne (by rw [hpc]; rfl) _ hl) _ _, hrow⟩, fun _ => rfl⟩
  | deletes hpc hl hq hf =>
    subst hf hq
    exact Or.inr ⟨⟨apply_del_of_ne (hne (by rw [hpc]; rfl) _ hl), hrow⟩, fun _ => rfl⟩

theorem cleanup_before (h : Handler V) (e : ApiError) : (h.cleanup e).beforeCommit = false := by
  rcases cleanup_cases h e with hq | hq <;> rw [hq] <;> rfl

theorem isDelete_of_inTry {p : PC V} (hp : p.inTry = true) : p.isDelete = false := by
  cases p <;> simp_all [PC.inTry, PC.isDelete]

theorem pastCheck_of_isFinished {p : PC V} (hp : p.isFinished = true) : p.pastCheck = false := by
  cases p <;> simp_all [PC.isFinished, PC.pastCheck]

theorem beforeCommit_of_reads {p q : PC V} (hr : p.Reads q) : p.beforeCommit = true := by
  cases hr <;> rfl

/-- The entry covers the row, and a request past its check. -/
def Covers (key : String) (s : State V) (p : PC V) : Prop :=
  (s.taken (some key) = true → s.hasEntry key) ∧
    (p.pastCheck = true →
      s.hasEntry key ∧ (p.beforeCommit = true → s.taken (some key) = false))

theorem covers_performs {q r : PC V} {tx : Option (Tx V)} (hp : Performs s i h q tx f)
    (ho : h.Own s i)
    (hruns : h.runsWith key = true) (hs : Covers key s h.pc)
    (hdel : h.pc.isDelete = true → s.taken h.lock = false)
    (hr : r = q ∨ (r.beforeCommit = false ∧ (h.pc.isDelete = true → r.pastCheck = false))) :
    Covers key (s.apply f) r := by
  obtain ⟨_, hpast, _⟩ := runsWith_iff.mp hruns
  obtain ⟨hget, hbefore⟩ := hs.2 hpast
  obtain ⟨hkeep, hrow⟩ := performs_running hp ho hruns hget hdel
  have hno : r.beforeCommit = true → (s.apply f).taken (some key) = false := by
    intro hrb
    rcases hr with rfl | ⟨hfalse, _⟩
    · have hne : f.row ≠ some key := fun heq => by
        have hfalse := hrow heq
        rw [hrb] at hfalse
        cases hfalse
      rw [taken_of_row_ne hne]
      rcases beforeCommit_performs hp hrb with hb | hpc
      · exact hbefore hb
      · rw [hpc] at hpast
        cases hpast
    · rw [hrb] at hfalse
      cases hfalse
  rcases hkeep with hsome | ⟨hisdel, hfin, htaken⟩
  · exact ⟨fun _ => hsome, fun _ => ⟨hsome, hno⟩⟩
  · refine ⟨fun htrue => ?_, fun hrp => ?_⟩
    · rw [htaken] at htrue
      cases htrue
    · rcases hr with rfl | ⟨_, hover⟩
      · rw [pastCheck_of_isFinished hfin] at hrp
        cases hrp
      · rw [hover hisdel] at hrp
        cases hrp

/-- The entry of a committed row, or of a running request, does not expire. -/
theorem lasting_tick {d : ℕ} (hl : Lasting s (.tick d)) (hne : key ≠ "")
    (hneed : s.taken (some key) = true ∨ ∃ h ∈ s.handlers, h.runsWith key = true) :
    s.expires d key = false := by
  obtain ⟨hrows, hruns⟩ := hl
  rcases hneed with htaken | ⟨h, hh, hr⟩
  · simp only [State.taken, Option.isSome_some, Bool.true_and, List.any_eq_true,
      decide_eq_true_eq] at htaken
    obtain ⟨n, hn, hkey⟩ := htaken
    have hkeep := List.all_eq_true.mp hrows n hn
    simpa [hkey] using hkeep
  · have hkeep := List.all_eq_true.mp hruns h hh
    simpa [lock_of_key (runsWith_iff.mp hr).2.2 hne, hr] using hkeep

theorem agreeOn_tick {d : ℕ} (hl : Lasting s (.tick d)) (ha : AgreeOn key s) :
    AgreeOn key (s.elapse d) := by
  refine ⟨?_, ?_, ha.one⟩
  · intro htaken hne
    rw [elapse_get (lasting_tick hl hne (Or.inl htaken))]
    exact ha.entry htaken hne
  · intro h hh hruns
    obtain ⟨hget, hbefore⟩ := ha.running h hh hruns
    refine ⟨fun hne => ?_, hbefore⟩
    rw [elapse_get (lasting_tick hl hne (Or.inr ⟨h, hh, hruns⟩))]
    exact hget hne

/-- `delete_key` finds no committed row. -/
theorem lasting_delete {b : Answer} (hl : Lasting s (.run i b)) (hh : s.handlers[i]? = some h)
    (hb : b = .ok ∨ ∃ err, b = .raised err true) (hdel : h.pc.isDelete = true) :
    s.taken h.lock = false := by
  rcases hb with rfl | ⟨err, rfl⟩ <;> simpa [Lasting, hh, hdel] using hl

/-- Without an entry there is no row. -/
theorem AgreeOn.not_taken (ha : AgreeOn key s) (hne : key ≠ "") (hget : s.get key = none) :
    s.taken (some key) = false := by
  by_contra ht
  have hgot := ha.entry (by simpa using ht) hne
  rw [hget] at hgot
  cases hgot

/-- The request that holds the key takes a step. -/
theorem agreeOn_running (ha : AgreeOn key s) (hh : s.handlers[i]? = some h)
    (hruns : h.runsWith key = true) (hc : Covers key (s.apply f) h'.pc) :
    AgreeOn key ((s.apply f).setHandler i h') := by
  refine ⟨hc.1, ?_, ?_⟩
  · rw [setHandler_handlers, apply_handlers]
    exact Pool.forall_set_of_sole ha.one hh hruns fun hr => hc.2 (runsWith_iff.mp hr).2.1
  · have hset := Pool.countP_set (a := h') (p := Handler.runsWith key) hh
    have hone := ha.one
    have hnew := Bool.toNat_le (h'.runsWith key)
    rw [hruns, Bool.toNat_true] at hset
    rw [setHandler_handlers, apply_handlers]
    omega

/-- A request takes the free key. -/
theorem agreeOn_takes (ha : AgreeOn key s) (hh : s.handlers[i]? = some h) (hf : f.Takes key s) :
    AgreeOn key ((s.apply f).setHandler i h') := by
  obtain ⟨hne, hget, hrow, hsome⟩ := hf
  have hnone : ∀ g ∈ s.handlers, g.runsWith key = false := by
    intro g hg
    by_contra hr
    have hgot := (ha.running g hg (by simpa using hr)).1 hne
    rw [hget] at hgot
    cases hgot
  have hfree : (s.apply f).taken (some key) = false := by
    rw [taken_of_row_ne (by simp [hrow]), ha.not_taken hne hget]
  refine ⟨fun _ _ => hsome, ?_, ?_⟩
  · rw [setHandler_handlers, apply_handlers]
    refine Pool.forall_set ?_ fun _ => ⟨fun _ => hsome, fun _ => hfree⟩
    intro g hg hr
    rw [hnone g hg] at hr
    cases hr
  · have hset := Pool.countP_set (a := h') (p := Handler.runsWith key) hh
    have hzero : s.handlers.countP (Handler.runsWith key) = 0 :=
      List.countP_eq_zero.mpr fun g hg => by simp [hnone g hg]
    have hnew := Bool.toNat_le (h'.runsWith key)
    rw [setHandler_handlers, apply_handlers]
    omega

/-- A step that leaves the key alone. -/
theorem agreeOn_leaves (ha : AgreeOn key s) (hh : s.handlers[i]? = some h) (hf : f.Leaves key s)
    (hnot : h'.runsWith key = false) : AgreeOn key ((s.apply f).setHandler i h') := by
  obtain ⟨hget, hrow⟩ := hf
  have hsame : (s.apply f).taken (some key) = s.taken (some key) := taken_of_row_ne hrow
  refine ⟨?_, ?_, ?_⟩
  · intro htaken hne
    rw [setHandler_get, hget]
    exact ha.entry (hsame ▸ htaken) hne
  · rw [setHandler_handlers, apply_handlers]
    refine Pool.forall_set ?_ ?_
    · intro g hg hr
      obtain ⟨hgot, hbefore⟩ := ha.running g hg hr
      refine ⟨fun hne => ?_, fun hb => hsame.trans (hbefore hb)⟩
      rw [setHandler_get, hget]
      exact hgot hne
    · intro hr
      rw [hnot] at hr
      cases hr
  · have hle := Pool.countP_set_le (a := h') (p := Handler.runsWith key) hh hnot
    have hone := ha.one
    rw [setHandler_handlers, apply_handlers]
    omega

/-- A request starts past its check only with an empty header, or without one. -/
theorem start_runsWith {l : Option String} {payload : NotificationRequest V}
    (hr : (start l payload).runsWith key = true) : key = "" ∧ l = some "" := by
  obtain ⟨_, hpast, hk⟩ := runsWith_iff.mp hr
  by_cases hne : key = ""
  · subst hne
    exact ⟨rfl, hk⟩
  · rw [start_pc (lock_of_key hk hne)] at hpast
    cases hpast

theorem lasting_empty {payload : NotificationRequest V}
    (hl : Lasting s (.request (some "") payload)) :
    ∀ h ∈ s.handlers, h.key ≠ some "" := by
  intro h hh
  simpa using List.all_eq_true.mp (hl rfl) h hh

theorem agreeOn_initial (key : String) : AgreeOn key (initial : State V) := by
  refine ⟨?_, ?_, ?_⟩ <;> simp [initial, State.taken]

/-- Past `check_or_lock`, a request finds no committed row with its key. -/
theorem AgreeOn.free (ha : ∀ key, AgreeOn key s) (hh : h ∈ s.handlers) (halive : h.alive = true)
    (hpast : h.pc.pastCheck = true) (hbefore : h.pc.beforeCommit = true) :
    s.taken h.key = false := by
  cases hk : h.key with
  | none => rfl
  | some key => exact ((ha key).running h hh (runsWith_iff.mpr ⟨halive, hpast, hk⟩)).2 hbefore

/-! ### Steps and runs -/

variable [BEq V] {svc : TemplateService V} {xs : List (Action V)}

/-- A key that no request has had is on no row, and no request runs with it. -/
theorem first_use (hs : Traced s) (hnone : ∀ h ∈ s.handlers, h.key ≠ some key) :
    s.taken (some key) = false ∧ s.handlers.countP (Handler.runsWith key) = 0 := by
  constructor
  · by_contra ht
    simp only [State.taken, Option.isSome_some, Bool.true_and, List.any_eq_true, decide_eq_true_eq,
      Bool.not_eq_false] at ht
    obtain ⟨n, hn, hkey⟩ := ht
    obtain ⟨h, hh, _, hk⟩ := hs.rows n hn
    exact hnone h (List.mem_of_getElem? hh) (hk.symm.trans hkey)
  · refine List.countP_eq_zero.mpr ?_
    intro h hh hr
    exact hnone h hh (runsWith_iff.mp hr).2.2

theorem agreeOn_request {l : Option String} {payload : NotificationRequest V}
    (hl : Lasting s (.request l payload)) (hs : Traced s) (ha : AgreeOn key s) :
    AgreeOn key { s with handlers := s.handlers ++ [start l payload] } := by
  have hone := ha.one
  refine ⟨ha.entry, Pool.forall_concat ha.running ?_, ?_⟩
  · intro hr
    obtain ⟨rfl, rfl⟩ := start_runsWith hr
    exact ⟨fun hne => (hne rfl).elim, fun _ => (first_use hs (lasting_empty hl)).1⟩
  · rw [List.countP_append, List.countP_singleton]
    split
    · rename_i hr
      obtain ⟨rfl, rfl⟩ := start_runsWith hr
      have hzero := (first_use hs (lasting_empty hl)).2
      omega
    · exact hone

/-- A step of the request that holds the key. -/
theorem covers_running {b : Answer} (he : Edge s i h b h' f) (ho : h.Own s i)
    (hruns : h.runsWith key = true) (hs : Covers key s h.pc)
    (hdel : b = .ok ∨ (∃ err, b = .raised err true) → h.pc.isDelete = true →
      s.taken h.lock = false) : Covers key (s.apply f) h'.pc := by
  obtain ⟨hget, hbefore⟩ := hs.2 (runsWith_iff.mp hruns).2.1
  cases he with
  | missed | cached | refused | deleteFailed => exact ⟨hs.1, fun hp => by cases hp⟩
  | reads hr => exact ⟨hs.1, fun _ => ⟨hget, fun _ => hbefore (beforeCommit_of_reads hr)⟩⟩
  | @failed b e =>
    refine ⟨hs.1, fun _ => ⟨hget, fun hb => ?_⟩⟩
    cases (cleanup_before h e).symm.trans hb
  | reloaded =>
    refine ⟨hs.1, fun _ => ⟨hget, fun hb => ?_⟩⟩
    rcases nextBuilt_cases h _ with hq | hq <;> rw [hq] at hb <;> cases hb
  | performed hp => exact covers_performs hp ho hruns hs (hdel (Or.inl rfl)) (Or.inl rfl)
  | @raised err e q tx f htry hp =>
    refine covers_performs hp ho hruns hs (hdel (Or.inr ⟨_, rfl⟩)) (Or.inr ⟨cleanup_before h e, ?_⟩)
    intro hisdel
    cases (isDelete_of_inTry htry).symm.trans hisdel
  | lockRaised _ hp | deleteRaised _ hp =>
    exact covers_performs hp ho hruns hs (hdel (Or.inr ⟨_, rfl⟩)) (Or.inr ⟨rfl, fun _ => rfl⟩)

/-- A step of another request: it takes the free key, or leaves everything of the key alone. -/
theorem covers_aside {b : Answer} (he : Edge s i h b h' f) (ho : h.Own s i)
    (hruns : h.runsWith key = false) (ha : h.alive = true) :
    f.Takes key s ∨ (f.Leaves key s ∧ h'.runsWith key = false) := by
  have hpast := fun hk => pastCheck_of_not_runsWith hruns ha hk
  have hstay : (h.key = some key → h'.pc.pastCheck = false) → h'.runsWith key = false := by
    intro hfalse
    by_contra hn
    obtain ⟨_, hp, hk⟩ := runsWith_iff.mp (by simpa using hn)
    rw [(origin_edge he).1] at hk
    rw [hfalse hk] at hp
    cases hp
  have hnone : (Effect.none : Effect V).Leaves key s := ⟨rfl, by simp [Effect.row]⟩
  cases he with
  | missed | cached | refused | deleteFailed => exact Or.inr ⟨hnone, hstay fun _ => rfl⟩
  | reads hr =>
    refine Or.inr ⟨hnone, hstay fun hk => ?_⟩
    cases (pastCheck_of_reads hr).symm.trans (hpast hk)
  | failed htry =>
    refine Or.inr ⟨hnone, hstay fun hk => ?_⟩
    cases (pastCheck_of_inTry htry).symm.trans (hpast hk)
  | reloaded hpc =>
    refine Or.inr ⟨hnone, hstay fun hk => ?_⟩
    rw [hpc] at hpast
    cases hpast hk
  | performed hp =>
    refine (performs_aside hp ho hruns ha).imp_right ?_
    rintro ⟨hleaves, hq⟩
    exact ⟨hleaves, hstay hq⟩
  | raised htry hp =>
    refine (performs_aside hp ho hruns ha).imp_right ?_
    rintro ⟨hleaves, _⟩
    refine ⟨hleaves, hstay fun hk => ?_⟩
    cases (pastCheck_of_inTry htry).symm.trans (hpast hk)
  | lockRaised _ hp | deleteRaised _ hp =>
    refine (performs_aside hp ho hruns ha).imp_right ?_
    rintro ⟨hleaves, _⟩
    exact ⟨hleaves, hstay fun _ => rfl⟩

theorem agreeOn_step (hstep : Step s a t) (hl : Lasting s a) (hs : Traced s)
    (ha : AgreeOn key s) : AgreeOn key t := by
  cases hstep with
  | tick => exact agreeOn_tick hl ha
  | request => exact agreeOn_request hl hs ha
  | @run i h h' b f hh halive he =>
    have ho := hs.own i h hh
    have hmem := List.mem_of_getElem? hh
    cases hruns : h.runsWith key with
    | true =>
      refine agreeOn_running ha hh hruns (covers_running he ho hruns ?_ ?_)
      · exact ⟨ha.entry, fun _ => ha.running h hmem hruns⟩
      · exact lasting_delete hl hh
    | false =>
      rcases covers_aside he ho hruns halive with hf | ⟨hf, hnot⟩
      · exact agreeOn_takes ha hh hf
      · exact agreeOn_leaves ha hh hf hnot
  | @crash i h hh => exact agreeOn_leaves (f := .none) ha hh ⟨rfl, by simp [Effect.row]⟩ rfl
  | @rollback i h hh =>
    refine ⟨ha.entry, Pool.forall_set ha.running (ha.running h (List.mem_of_getElem? hh)), ?_⟩
    have heq := Pool.countP_set_eq (a := { h with tx := none }) (p := Handler.runsWith key) hh rfl
    have hone := ha.one
    rw [setHandler_handlers]
    omega

/-- A request that the idempotency step admits finds no committed row with its key. -/
theorem admits_free (hs : Traced s) (ha : ∀ key, AgreeOn key s) (hl : Lasting s a)
    {k : Option String} (hadm : s.admits a = some k) : s.taken k = false := by
  unfold State.admits at hadm
  split at hadm
  case h_1 key payload =>
    cases key with
    | none =>
      cases hadm
      rfl
    | some l =>
      by_cases hempty : l = ""
      · subst hempty
        cases hadm
        exact (first_use hs (lasting_empty hl)).1
      · simp [hempty] at hadm
  case h_2 i =>
    obtain ⟨h, hh, hadm⟩ := Option.bind_eq_some_iff.mp hadm
    split at hadm
    case h_1 key _ hlock =>
      simp only [Option.ite_none_right_eq_some, Option.some.injEq,
        Option.isNone_iff_eq_none] at hadm
      obtain ⟨hget, rfl⟩ := hadm
      rw [lock_eq hlock]
      exact (ha key).not_taken (lock_ne hlock) hget
    case h_2 => cases hadm
  case h_3 => cases hadm

/-- In every run whose entries last, no committed row has the key of a request that gets past the
idempotency step, or of one that is about to insert. -/
theorem stores_agree (hrun : ((sys svc).restrict Lasting).MTr initial xs s) :
    (∀ a t k, ((sys svc).restrict Lasting).Tr s a t → s.admits a = some k → s.taken k = false) ∧
      ∀ h ∈ s.handlers, h.alive = true → ∀ templateId channels,
        h.pc = .createNotification templateId channels → s.taken h.key = false := by
  have hinv : ((sys svc).restrict Lasting).TrInv
      (fun s => Traced s ∧ ∀ key, AgreeOn key s) := by
    rintro s a t ⟨hl, hstep⟩ ⟨hs, ha⟩
    have hst := sys_step hstep
    exact ⟨traced_step hst hs, fun key => agreeOn_step hst hl hs (ha key)⟩
  obtain ⟨hs, ha⟩ := LTS.mtrInv_of_trInv hinv hrun ⟨traced_initial, agreeOn_initial⟩
  refine ⟨?_, ?_⟩
  · rintro a t k ⟨hl, _⟩ hadm
    exact admits_free hs ha hl hadm
  · intro h hh halive templateId channels hpc
    exact AgreeOn.free ha hh halive (by rw [hpc]; rfl) (by rw [hpc]; rfl)

/-- A request that is admitted after another one has committed its row. -/
theorem stores_agree_committed : ∃ s t, ((sys plainText).restrict Lasting).MTr initial
      (createSteps 0 "order-1" ++ [.request (some "order-2") emailRequest, .run 1 .ok]) s ∧
    ((sys plainText).restrict Lasting).Tr s (.run 1 .ok) t ∧
    s.admits (.run 1 .ok) = some (some "order-2") ∧ s.taken (some "order-1") = true ∧
    s.taken (some "order-2") = false := by
  have hrun : ((LTS.run (LTS.guarded Lasting (step plainText)) initial
      (createSteps 0 "order-1" ++ [.request (some "order-2") emailRequest, .run 1 .ok])).bind fun s =>
        (LTS.run (LTS.guarded Lasting (step plainText)) s [.run 1 .ok]).map fun _ =>
          (s.admits (.run 1 .ok), s.taken (some "order-1"))) =
      some (some (some "order-2"), true) := by decide
  obtain ⟨s, t, hrun', ht, he⟩ := LTS.exists_mTrs_guarded hrun
  obtain ⟨hadm, htaken⟩ := Prod.mk.inj he
  have hstep := LTS.tr_of_mTr_singleton ht
  exact ⟨s, t, hrun', hstep, hadm, htaken, (stores_agree hrun').1 _ t _ hstep hadm⟩

/-- The entry of a successful request expires after 24 hours, its row does not. -/
theorem admitted_over_a_row : ¬ ∀ xs s a t k, (sys plainText).MTr initial xs s →
    (sys plainText).Tr s a t → s.admits a = some k → s.taken k = false := by
  intro h
  have hrun : ((LTS.run (step plainText) initial (createSteps 0 "order-1" ++
      [.tick idempotencyTtl, .request (some "order-1") emailRequest, .run 1 .ok])).bind fun s =>
        (LTS.run (step plainText) s [.run 1 .ok]).map fun _ =>
          (s.admits (.run 1 .ok), s.taken (some "order-1"))) =
      some (some (some "order-1"), true) := by decide
  obtain ⟨s, t, hs, ht, he⟩ := LTS.exists_mTrs hrun
  obtain ⟨hadm, htaken⟩ := Prod.mk.inj he
  have hstep := LTS.tr_of_mTr_singleton ht
  have hfree := h _ s _ t _ hs hstep hadm
  rw [htaken] at hfree
  cases hfree

end NotificationService.Api
