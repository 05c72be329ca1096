import NotificationService.Api.System

/-! What a request that takes no more step leaves in Redis: its lock for two minutes, its response
for a day. -/
namespace NotificationService.Api

open Transition ExpiringStore

variable {V : Type} {s t : State V} {i : ℕ} {h h' : Handler V} {f : Effect V}
  {P : IdempotencyEntry V → Prop}

/-- The TTL that an entry is set with. -/
def EntryStatus.ttl : EntryStatus V → ℕ
  | .lock => lockTtl
  | .done _ _ => idempotencyTtl

theorem ttl_pos (status : EntryStatus V) : 0 < status.ttl := by
  cases status <;> simp [EntryStatus.ttl, lockTtl, idempotencyTtl]

/-- The entries with `P` were set at `since` or before. -/
def State.Lapses (P : IdempotencyEntry V → Prop) (since : ℕ) (s : State V) : Prop :=
  ExpiringStore.Lapses P s.clock (fun e => since + e.status.ttl) s.redis

def Action.isRunOf (i : ℕ) : Action V → Bool
  | .run j _ => j = i
  | _ => false

/-- An effect sets an entry of its own request, with the TTL of its status. -/
def Effect.sets (i : ℕ) : Effect V → Prop
  | .set _ e ttl => e.writer = i ∧ ttl = e.status.ttl
  | _ => True

theorem sets_performs {q : PC V} {tx : Option (Tx V)} (hp : Performs s i h q tx f) :
    f.sets i := by
  cases hp with
  | setLock | saveResponse => exact ⟨rfl, rfl⟩
  | _ => trivial

theorem lapses_apply {since : ℕ} (hf : f.sets i) (hP : ∀ e, P e → e.writer = i → s.clock ≤ since)
    (hs : s.Lapses P since) : (s.apply f).Lapses P since := by
  cases f with
  | set key e ttl =>
    obtain ⟨hw, rfl⟩ := hf
    refine ExpiringStore.Lapses.set hs fun hp => ?_
    have hclock := hP e hp hw
    have hpos := ttl_pos e.status
    have hsame : (s.apply (.set key e e.status.ttl)).clock = s.clock := rfl
    omega
  | del key => exact ExpiringStore.Lapses.del hs
  | _ => exact hs

theorem lapses_tick {since later : ℕ} (d : ℕ) (hle : since ≤ later) (hs : s.Lapses P since) :
    (s.elapse d).Lapses P later := by
  refine ExpiringStore.Lapses.expire hs fun e => ?_
  omega

variable [BEq V] {svc : TemplateService V} {a : Action V} {b : Answer} {xs ys : List (Action V)}

theorem sets_edge (he : Edge s i h b h' f) : f.sets i := by
  cases he with
  | performed hp | raised _ hp | lockRaised _ hp | deleteRaised _ hp => exact sets_performs hp
  | _ => trivial

/-- No entry is set to live longer than its TTL from now on. -/
theorem lapses_now (hstep : Step s a t) (hs : s.Lapses (fun _ => True) s.clock) :
    t.Lapses (fun _ => True) t.clock := by
  cases hstep with
  | tick => exact lapses_tick _ (Nat.le_add_right _ _) hs
  | @run i h h' b f hh _ he =>
    have hclock : ((s.apply f).setHandler i h').clock = s.clock := by cases f <;> rfl
    rw [hclock]
    exact lapses_apply (sets_edge he) (fun _ _ _ => le_rfl) hs
  | _ => exact hs

/-- The entries of a request that takes no step get no younger. -/
theorem lapses_step {since : ℕ} (hstep : Step s a t) (hidle : a.isRunOf i = false)
    (hs : s.Lapses (·.writer = i) since) : t.Lapses (·.writer = i) since := by
  cases hstep with
  | tick => exact lapses_tick _ le_rfl hs
  | @run j h h' b f hh _ he =>
    refine lapses_apply (sets_edge he) (fun e hi hj => ?_) hs
    simp [Action.isRunOf, ← hi, hj] at hidle
  | _ => exact hs

/-- Two minutes after the last step of a request, dead or not, no lock of it is left, and after a
day no entry, whatever the other requests do. -/
theorem locks_lapse (hrun : (sys svc).MTr initial xs s) (hlater : (sys svc).MTr s ys t)
    (hidle : ∀ a ∈ ys, a.isRunOf i = false) {key : String} {e : IdempotencyEntry V}
    (hget : t.get key = some e) (hw : e.writer = i) :
    (s.clock + lockTtl ≤ t.clock → e.status ≠ .lock) ∧ t.clock < s.clock + idempotencyTtl := by
  have hinv : (sys svc).TrInv fun s => s.Lapses (fun _ => True) s.clock :=
    fun _ _ _ hstep => lapses_now (sys_step hstep)
  have hs := LTS.mtrInv_of_trInv hinv hrun (by simp [State.Lapses, ExpiringStore.Lapses, initial,
    empty])
  have hold : s.Lapses (·.writer = i) s.clock := fun k e he _ => hs k e he trivial
  have hkeep : ((sys svc).restrict fun _ a => a.isRunOf i = false).TrInv
      fun u => u.Lapses (·.writer = i) s.clock := by
    rintro u a v ⟨hc, hstep⟩
    exact lapses_step (sys_step hstep) hc
  have ht := LTS.mtrInv_of_trInv hkeep (LTS.MTr.restrict_label.mpr ⟨hidle, hlater⟩) hold
  have hlt := ht.lt hget hw
  refine ⟨?_, ?_⟩
  · intro hclock hlock
    rw [hlock] at hlt
    exact absurd hlt (Nat.not_lt.mpr hclock)
  · cases hstatus : e.status <;> rw [hstatus] at hlt <;>
      simp only [EntryStatus.ttl, lockTtl, idempotencyTtl] at hlt ⊢ <;> omega

/-- A response that is saved, and a later request on another key while two minutes pass. -/
def restingSteps : List (Action Unit) :=
  [.request (some "order-2") emailRequest, .run 1 .ok, .tick lockTtl, .run 1 .ok]

theorem locks_lapse_saved : ∃ s t e, (sys plainText).MTr initial (createSteps 0 "order-1") s ∧
    (sys plainText).MTr s restingSteps t ∧ t.get "order-1" = some e ∧ e.status ≠ .lock := by
  have hrun : ((LTS.run (step plainText) initial (createSteps 0 "order-1")).bind fun s =>
      (LTS.run (step plainText) s restingSteps).map fun t =>
        (s.clock, t.clock, (t.get "order-1").map (·.writer))) =
      some (0, lockTtl, some 0) := by decide
  obtain ⟨s, t, hs, ht, he⟩ := LTS.exists_mTrs hrun
  simp only [Prod.mk.injEq, Option.map_eq_some_iff] at he
  obtain ⟨hzero, hclock, e, hget, hw⟩ := he
  have hlapse := locks_lapse hs ht (by decide) hget hw
  exact ⟨s, t, e, hs, ht, hget, hlapse.1 (by omega)⟩

end NotificationService.Api
