import NotificationService.Api.System

/-! Who touches an idempotency entry: the take-over after a lock has expired, and ownership while
locks outlive their holders. -/
namespace NotificationService.Api

open Transition ExpiringStore

variable {V : Type} {s t : State V} {i : ℕ} {h h' : Handler V} {f : Effect V}

/-- Past `check_or_lock`, until the handler has answered. -/
def PC.pastCheck : PC V → Bool
  | .getEntry | .setLock | .finished _ => false
  | _ => true

/-- The entry under the key is gone after `d`. -/
def State.expires (s : State V) (d : ℕ) (key : String) : Bool :=
  ExpiringStore.expires (s.clock + d) s.redis (redisKey key)

theorem elapse_get {d : ℕ} {key : String} (he : s.expires d key = false) :
    (s.elapse d).get key = s.get key :=
  get_expire_of_not_expires he

/-- What the writing operations do to Redis. -/
inductive Keys (s : State V) (i : ℕ) (h : Handler V) (q : PC V) (f : Effect V) : Prop where
  | frame : h.pc.pastCheck = true → (∀ key, (s.apply f).get key = s.get key) → Keys s i h q f
  | locks {key : String} : h.pc = .setLock → h.lock = some key → s.get key = none →
      q = .checkRateLimit → f = .set key ⟨.lock, h.payload, i⟩ lockTtl → Keys s i h q f
  | saves {key : String} {body : NotificationResponse V} : h.pc = .saveResponse body →
      h.lock = some key → q = .finished (.created body) →
      f = .set key ⟨.done 201 body, h.payload, i⟩ idempotencyTtl → Keys s i h q f
  | deletes {key : String} {err : ApiError} : h.pc = .deleteKey err → h.lock = some key →
      q = .finished (.error err) → f = .del key → Keys s i h q f

theorem keys_performs {q : PC V} {tx : Option (Tx V)} (hp : Performs s i h q tx f) :
    Keys s i h q f := by
  cases hp with
  | setLock hpc hlock hget => exact .locks hpc hlock hget rfl rfl
  | saveResponse hpc hlock => exact .saves hpc hlock rfl rfl
  | deleteKey hpc hlock => exact .deletes hpc hlock rfl rfl
  | createNotification hpc | insertDelivery hpc | insertLog hpc | commit hpc | applyAsync hpc =>
    exact .frame (by rw [hpc]; rfl) fun _ => rfl

theorem apply_set_self (key : String) (e : IdempotencyEntry V) (ttl : ℕ) :
    (s.apply (.set key e ttl)).get key = some e := by
  simp [State.apply, State.get]

theorem apply_set_of_ne {key l : String} (hne : l ≠ key) (e : IdempotencyEntry V) (ttl : ℕ) :
    (s.apply (.set key e ttl)).get l = s.get l :=
  get_set_of_ne fun heq => hne (redisKey_injective heq)

theorem apply_del_of_ne {key l : String} (hne : l ≠ key) :
    (s.apply (.del key)).get l = s.get l :=
  get_del_of_ne fun heq => hne (redisKey_injective heq)

/-- The request and the key of a `save_response` or `delete_key` that takes effect. -/
def State.touches (s : State V) : Action V → Option (ℕ × String)
  | .run i .ok | .run i (.raised _ true) =>
    s.handlers[i]?.bind fun h =>
      match h.pc with
      | .saveResponse _ | .deleteKey _ => h.lock.map (i, ·)
      | _ => none
  | _ => none

def PC.isSave : PC V → Bool
  | .saveResponse _ => true
  | _ => false

/-- The entry that handler `i` wrote, while it runs, is not gone after `d`. -/
def State.spares (s : State V) (d i : ℕ) : Bool :=
  s.handlers[i]?.all fun h => h.isOver || h.lock.all fun key =>
    !(s.get key).any (·.writer = i) || !s.expires d key

/-- No entry expires while the request that wrote it is running, and no `save_response` raises after
it has taken effect. -/
def KeepsEntries (s : State V) : Action V → Prop
  | .tick d => ∀ i < s.handlers.length, s.spares d i = true
  | .run i (.raised _ true) => s.handlers[i]?.all (!·.pc.isSave) = true
  | _ => True

instance (s : State V) (a : Action V) : Decidable (KeepsEntries s a) := by
  unfold KeepsEntries
  split <;> infer_instance

/-- Each request that runs past its check has its own LOCK in Redis. -/
def Owned (s : State V) : Prop :=
  ∀ (i : ℕ) (h : Handler V), s.handlers[i]? = some h → h.alive = true → h.pc.pastCheck = true →
    ∀ key, h.lock = some key → ∃ e, s.get key = some e ∧ e.writer = i ∧ e.status = .lock

/-- An entry that `i` needs is not one that another request may touch. -/
theorem owned_other {j : ℕ} {key l : String} {e : IdempotencyEntry V}
    (hl : ∃ e', s.get l = some e' ∧ e'.writer = i ∧ e'.status = .lock) (hij : i ≠ j)
    (hget : s.get key = some e) (hw : e.writer = j) : l ≠ key := by
  rintro rfl
  obtain ⟨e', he', hw', _⟩ := hl
  cases hget.symm.trans he'
  exact hij (hw'.symm.trans hw)

theorem keys_other {q : PC V} {j : ℕ} {l : String} (hk : Keys s i h q f) (hs : Owned s)
    (hh : s.handlers[i]? = some h) (ha : h.alive = true) (hij : j ≠ i)
    (hl : ∃ e, s.get l = some e ∧ e.writer = j ∧ e.status = .lock) :
    (s.apply f).get l = s.get l := by
  cases hk with
  | frame _ hframe => exact hframe l
  | @locks key hpc hlock hget _ hf =>
    subst hf
    refine apply_set_of_ne ?_ _ _
    rintro rfl
    obtain ⟨e, he, _⟩ := hl
    cases hget.symm.trans he
  | saves hpc hlock _ hf =>
    subst hf
    obtain ⟨e, hget, hw, _⟩ := hs i h hh ha (by rw [hpc]; rfl) _ hlock
    exact apply_set_of_ne (owned_other hl hij hget hw) _ _
  | deletes hpc hlock _ hf =>
    subst hf
    obtain ⟨e, hget, hw, _⟩ := hs i h hh ha (by rw [hpc]; rfl) _ hlock
    exact apply_del_of_ne (owned_other hl hij hget hw)

theorem pastCheck_of_reads {p q : PC V} (hr : p.Reads q) : p.pastCheck = true := by
  cases hr <;> rfl

theorem pastCheck_of_inTry {p : PC V} (hp : p.inTry = true) : p.pastCheck = true := by
  cases p <;> simp_all [PC.inTry, PC.pastCheck]

theorem touches_run {b : Answer} {j : ℕ} {key : String} (hh : s.handlers[j]? = some h)
    (htouch : s.touches (.run j b) = some (i, key)) :
    i = j ∧ h.lock = some key ∧ h.pc.pastCheck = true := by
  unfold State.touches at htouch
  split at htouch
  case h_3 => cases htouch
  all_goals
    rename_i heq
    cases heq
    simp only [hh, Option.bind_some] at htouch
    split at htouch
    case h_3 => cases htouch
    all_goals
      rename_i hpc
      simp only [Option.map_eq_some_iff, Prod.mk.injEq] at htouch
      obtain ⟨_, hlock, rfl, rfl⟩ := htouch
      exact ⟨rfl, hlock, by rw [hpc]; rfl⟩

variable [BEq V] {svc : TemplateService V} {a : Action V} {xs ys : List (Action V)}

theorem lock_edge {b : Answer} (he : Edge s i h b h' f) : h'.lock = h.lock := by
  cases he <;> rfl

theorem get_edge_other {b : Answer} {j : ℕ} {l : String} (he : Edge s i h b h' f) (hs : Owned s)
    (hh : s.handlers[i]? = some h) (ha : h.alive = true) (hij : j ≠ i)
    (hl : ∃ e, s.get l = some e ∧ e.writer = j ∧ e.status = .lock) :
    (s.apply f).get l = s.get l := by
  cases he with
  | performed hp | raised _ hp | lockRaised _ hp | deleteRaised _ hp =>
    exact keys_other (keys_performs hp) hs hh ha hij hl
  | _ => rfl

/-- A handler keeps its LOCK until it answers. -/
theorem owned_edge {b : Answer} (he : Edge s i h b h' f) {key : String} (hlock : h.lock = some key)
    (hsave : ∀ err, b = .raised err true → h.pc.isSave = false)
    (ho : h.pc.pastCheck = true → ∃ e, s.get key = some e ∧ e.writer = i ∧ e.status = .lock)
    (hpast : h'.pc.pastCheck = true) :
    ∃ e, (s.apply f).get key = some e ∧ e.writer = i ∧ e.status = .lock := by
  cases he with
  | reads hr => exact ho (pastCheck_of_reads hr)
  | failed htry => exact ho (pastCheck_of_inTry htry)
  | reloaded hpc => exact ho (by rw [hpc]; rfl)
  | performed hp =>
    cases keys_performs hp with
    | frame hpc hframe =>
      obtain ⟨e, hget, he⟩ := ho hpc
      exact ⟨e, (hframe key).trans hget, he⟩
    | locks _ hl _ _ hf =>
      cases hlock.symm.trans hl
      subst hf
      exact ⟨_, apply_set_self _ _ _, rfl, rfl⟩
    | saves _ _ hq | deletes _ _ hq =>
      subst hq
      cases hpast
  | raised htry hp =>
    cases keys_performs hp with
    | frame hpc hframe =>
      obtain ⟨e, hget, he⟩ := ho hpc
      exact ⟨e, (hframe key).trans hget, he⟩
    | saves hpc =>
      have hno := hsave _ rfl
      rw [hpc] at hno
      cases hno
    | locks hpc | deletes hpc =>
      rw [hpc] at htry
      cases htry
  | _ => cases hpast

theorem owned_step (hstep : Step s a t) (hk : KeepsEntries s a) (hs : Owned s) : Owned t := by
  cases hstep with
  | @tick d =>
    intro j g hg ha hpast key hlock
    change s.handlers[j]? = some g at hg
    obtain ⟨e, hget, hw, hstatus⟩ := hs j g hg ha hpast key hlock
    have hspare := hk j (List.getElem?_eq_some_iff.mp hg).1
    have hover : g.isOver = false := by
      cases hpc : g.pc <;> simp_all [Handler.isOver, PC.isFinished, PC.pastCheck]
    have hkeep : s.expires d key = false := by
      simpa [State.spares, hg, hover, hlock, hget, hw] using hspare
    exact ⟨e, (elapse_get hkeep).trans hget, hw, hstatus⟩
  | @request key payload =>
    refine Pool.forall_getElem?_concat hs ?_
    intro _ hpast l hlock
    rw [start_pc hlock] at hpast
    cases hpast
  | @run i h h' b f hh ha he =>
    have hsave : ∀ err, b = .raised err true → h.pc.isSave = false := by
      rintro err rfl
      simpa [KeepsEntries, hh] using hk
    simp only [Owned, setHandler_handlers, apply_handlers, setHandler_get]
    intro j g hg hga hpast key hlock
    by_cases hij : i = j
    · subst hij
      rw [List.getElem?_set_self (List.getElem?_eq_some_iff.mp hh).1] at hg
      cases hg
      rw [lock_edge he] at hlock
      exact owned_edge he hlock hsave (fun hp => hs i h hh ha hp key hlock) hpast
    · rw [List.getElem?_set_ne hij] at hg
      have hown := hs j g hg hga hpast key hlock
      rw [get_edge_other he hs hh ha (Ne.symm hij) hown]
      exact hown
  | @crash i h hh =>
    exact Pool.forall_getElem?_set hs nofun
  | @rollback i h hh =>
    have hold := hs i h hh
    exact Pool.forall_getElem?_set hs hold

/-- In every run that keeps entries, a `delete_key` or `save_response` finds no entry, or the LOCK
that the same request's `check_or_lock` wrote. -/
theorem touches_own {key : String} {e : IdempotencyEntry V}
    (hrun : ((sys svc).restrict KeepsEntries).MTr initial xs s)
    (hstep : ((sys svc).restrict KeepsEntries).Tr s a t) (htouch : s.touches a = some (i, key))
    (hget : s.get key = some e) : e.writer = i ∧ e.status = .lock := by
  have hinv : ((sys svc).restrict KeepsEntries).TrInv Owned := by
    rintro s a t ⟨hk, hstep⟩ hs
    exact owned_step (sys_step hstep) hk hs
  have hs : Owned s := LTS.mtrInv_of_trInv hinv hrun (by simp [Owned, initial])
  cases sys_step hstep.2 with
  | @run j h h' b f hh ha he =>
    obtain ⟨rfl, hlock, hpast⟩ := touches_run hh htouch
    obtain ⟨e', he', hw, hstatus⟩ := hs i h hh ha hpast key hlock
    cases hget.symm.trans he'
    exact ⟨hw, hstatus⟩
  | _ => cases htouch

theorem touches_own_saved : ∃ s t e, ((sys plainText).restrict KeepsEntries).MTr initial
      (commitSteps 0 "order-1" ++ [.run 0 .ok, .run 0 .ok]) s ∧
    ((sys plainText).restrict KeepsEntries).Tr s (.run 0 .ok) t ∧
    s.touches (.run 0 .ok) = some (0, "order-1") ∧ s.get "order-1" = some e ∧
    e.writer = 0 ∧ e.status = .lock := by
  have hrun : ((LTS.run (LTS.guarded KeepsEntries (step plainText)) initial
      (commitSteps 0 "order-1" ++ [.run 0 .ok, .run 0 .ok])).bind fun s =>
        (LTS.run (LTS.guarded KeepsEntries (step plainText)) s [.run 0 .ok]).map fun _ =>
          (s.touches (.run 0 .ok), (s.get "order-1").isSome)) =
      some (some (0, "order-1"), true) := by decide
  obtain ⟨s, t, hrun', ht, he⟩ := LTS.exists_mTrs_guarded hrun
  obtain ⟨htouch, hsome⟩ := Prod.mk.inj he
  obtain ⟨e, hget⟩ := Option.isSome_iff_exists.mp hsome
  have hstep := LTS.tr_of_mTr_singleton ht
  exact ⟨s, t, e, hrun', hstep, htouch, hget, touches_own hrun' hstep htouch hget⟩

/-- The first request's lock expires and a second request takes the key over; then the first one
fails and is about to delete the key. -/
def takenOverRun : List (Action Unit) :=
  [.request (some "order-1") emailRequest, .run 0 .ok, .run 0 .ok, .tick lockTtl,
    .request (some "order-1") emailRequest, .run 1 .ok, .run 1 .ok,
    .run 0 (.raised "connection lost" false)]

theorem lock_of_another_deleted : ¬ ∀ xs s t i b key e, (sys plainText).MTr initial xs s →
    (sys plainText).Tr s (.run i b) t → s.touches (.run i b) = some (i, key) →
      s.get key = some e → e.writer = i ∧ e.status = .lock := by
  intro h
  have hrun : ((LTS.run (step plainText) initial takenOverRun).bind fun s =>
      (LTS.run (step plainText) s [.run 0 .ok]).map fun _ =>
        (s.touches (.run 0 .ok), (s.get "order-1").map (·.writer))) =
      some (some (0, "order-1"), some 1) := by decide
  obtain ⟨s, t, hs, ht, he⟩ := LTS.exists_mTrs hrun
  obtain ⟨htouch, hwriter⟩ := Prod.mk.inj he
  obtain ⟨e, hget, hw⟩ := Option.map_eq_some_iff.mp hwriter
  have hstep := LTS.tr_of_mTr_singleton ht
  have hown := (h takenOverRun s t 0 .ok "order-1" e hs hstep htouch hget).1
  omega

end NotificationService.Api
