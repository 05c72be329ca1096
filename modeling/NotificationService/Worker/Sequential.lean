import NotificationService.Worker.Session

/-! Executions that do not interleave between the status check and the last refresh: the session
copy of the engaged execution is the committed row. -/
namespace NotificationService.Worker

open Transition

variable {V : Type} {svc : TemplateService V} {s t : State V} {a : Action V} {xs : List (Action V)}

/-- The session's copy of the row, from the status check to the last refresh. -/
def PC.copy : PC V → Option Delivery
  | .getNotification d | .getTemplate d _ | .select _ d | .commit _ d | .refresh _ d
  | .send _ d | .sending _ d => some d
  | .getDelivery | .retry | .finished _ => none

def PC.engaged (p : PC V) : Bool := p.copy.isSome

def Exec.engaged (e : Exec V) : Bool := e.alive && e.pc.engaged

theorem engaged_of {e : Exec V} (ha : e.alive = true) (hp : e.pc.engaged = true) :
    e.engaged = true := by
  simp [Exec.engaged, ha, hp]

/-- A COMMIT whose session is up to date writes over the row that it has loaded. -/
theorem commit_synced {c : Call} {d row : Delivery}
    (h : (PC.commit c d : PC V).engaged = true →
      (PC.commit c d : PC V).copy = some row) : d = row :=
  Option.some.inj (h rfl)

/-- The message of the execution that an action takes past its status check. -/
def State.passes (s : State V) : Action V → Option Message
  | .run i .ok =>
    s.execs[i]?.bind fun e =>
      match e.pc with
      | .getDelivery => if s.row.status = .pending then some e.message else none
      | _ => none
  | _ => none

/-- The status check is passed only while no other execution is engaged. -/
def Apart (s : State V) (a : Action V) : Prop :=
  (s.passes a).isSome = true → s.execs.countP Exec.engaged = 0

instance (s : State V) (a : Action V) : Decidable (Apart s a) :=
  inferInstanceAs (Decidable (_ → _))

theorem passes_run {i : ℕ} {e : Exec V} (he : s.execs[i]? = some e) (hp : e.pc = .getDelivery)
    (hrow : s.row.status = .pending) : s.passes (.run i .ok) = some e.message := by
  simp [State.passes, he, hp, hrow]

/-- An execution that is not engaged passes the status check, or touches nothing of the ledger. -/
theorem edge_unengaged {m : Message} {p q : PC V} {b : Answer V} {f : Effect}
    (h : Edge svc m s.row p b q f) (hp : p.engaged = false) :
    (p = .getDelivery ∧ b = .ok ∧ s.row.status = .pending) ∨
      (q.engaged = false ∧ (s.apply f).ledger = s.ledger) := by
  cases h with
  | load hrow => exact Or.inl ⟨rfl, rfl, hrow⟩
  | skip | retried | raised => exact Or.inr ⟨rfl, rfl⟩
  | _ => cases hp

/-- At most one execution is engaged. -/
def OneEngaged (s : State V) : Prop := s.execs.countP Exec.engaged ≤ 1

theorem oneEngaged_step (h : Step svc s a t) (hapart : Apart s a) (hone : OneEngaged s) :
    OneEngaged t := by
  unfold OneEngaged at hone ⊢
  cases moves_step (p := Exec.engaged) (fun _ => rfl) h with
  | still _ hall => exact hall.trans_le hone
  | receive _ _ hall => exact hall.trans_le hone
  | @run i e b q f hrun he ha hedge _ hall =>
    subst hrun
    have hold : e.engaged = e.pc.engaged := by simp [Exec.engaged, ha]
    have hnew := Bool.toNat_le (Exec.engaged { e with pc := q })
    cases hp : e.pc.engaged with
    | true =>
      rw [hold, hp, Bool.toNat_true] at hall
      omega
    | false =>
      rw [hold, hp, Bool.toNat_false] at hall
      rcases edge_unengaged hedge hp with ⟨hpc, rfl, hrow⟩ | ⟨hq, _⟩
      · have hzero := hapart (by simp [passes_run he hpc hrow])
        omega
      · have hidle : Exec.engaged { e with pc := q } = false := by simp [Exec.engaged, hq]
        rw [hidle, Bool.toNat_false] at hall
        omega
  | @crash i e _ _ _ hall =>
    have hdead : Exec.engaged { e with alive := false } = false := by simp [Exec.engaged]
    rw [hdead, Bool.toNat_false] at hall
    omega

/-- A property of the ledger and of each engaged execution. -/
def EachEngaged (P : Ledger → Message → PC V → Prop) (s : State V) : Prop :=
  ∀ e ∈ s.execs, e.engaged = true → P s.ledger e.message e.pc

/-- Rule: what every operation of an execution preserves for itself, every step preserves. -/
theorem eachEngaged_step {P : Ledger → Message → PC V → Prop} (h : Step svc s a t)
    (hapart : Apart s a) (hone : OneEngaged s) (hs : EachEngaged P s)
    (hrun : ∀ i e b q f, a = .run i b → s.execs[i]? = some e → e.alive = true →
      Edge svc e.message s.row e.pc b q f → (e.pc.engaged = true → P s.ledger e.message e.pc) →
      q.engaged = true → P (s.apply f).ledger e.message q) :
    EachEngaged P t := by
  cases h with
  | apiPublish | reconcile | requeueNotification | requeuePublish => exact hs
  | receive =>
    refine Pool.forall_concat hs ?_
    intro hnew
    simp [Exec.engaged, PC.engaged, PC.copy] at hnew
  | @run i e b q f he ha hedge =>
    have hq := hrun i e b q f rfl he ha hedge
    have hnew : Exec.engaged { e with pc := q } = true → P (s.apply f).ledger e.message q := by
      intro hqe
      refine hq (fun hpe => hs e (List.mem_of_getElem? he) ?_) ?_
      · exact engaged_of ha hpe
      · simp only [Exec.engaged, Bool.and_eq_true] at hqe
        exact hqe.2
    simp only [EachEngaged, setExec_execs, apply_execs]
    cases hp : e.pc.engaged with
    | true =>
      exact Pool.forall_set_of_sole (P := fun x => P (s.apply f).ledger x.message x.pc)
        hone he (engaged_of ha hp) hnew
    | false =>
      rcases edge_unengaged hedge hp with ⟨hpc, rfl, hrow⟩ | ⟨_, hledger⟩
      · have hzero := hapart (by simp [passes_run he hpc hrow])
        have hidle := List.countP_eq_zero.mp hzero
        exact Pool.forall_set (fun x hx hxe => (hidle x hx hxe).elim) hnew
      · refine Pool.forall_set (fun x hx hxe => ?_) hnew
        exact hledger ▸ hs x hx hxe
  | crash he =>
    refine Pool.forall_set hs ?_
    intro hdead
    simp [Exec.engaged] at hdead
  | ack he | redeliver he | lose he =>
    have hold := hs _ (List.mem_of_getElem? he)
    refine Pool.forall_set hs ?_
    exact hold

/-- A session that has seen the committed row commits what it assigned. -/
theorem ledger_commit (c : Call) : (s.apply (.commit c s.row)).ledger =
    ⟨c.update.assign s.row, s.invoked, s.succeeded,
      if c.update.incrementRetry then s.handled + 1 else s.handled⟩ := by
  simp only [State.apply, State.ledger, flush_fresh]

/-- The engaged session has seen every committed change of the row. -/
def Synced (s : State V) : Prop := EachEngaged (fun l _ p => p.copy = some l.row) s

theorem synced_edge {m : Message} {p q : PC V} {b : Answer V} {f : Effect}
    (h : Edge svc m s.row p b q f) (hp : p.engaged = true → p.copy = some s.row)
    (hq : q.engaged = true) : q.copy = some (s.apply f).row := by
  cases h with
  | load => rfl
  | @committed c d =>
    obtain rfl := commit_synced hp
    simp [PC.copy, State.apply, flush_fresh]
  | @refreshed c d => cases c <;> first | rfl | cases hq
  | @unrefreshed c d err usable =>
    obtain rfl : d = s.row := Option.some.inj (hp rfl)
    cases c <;> cases usable <;> first | rfl | cases hq
  | skip | noNotification | retried | raised => cases hq
  | _ => exact hp rfl

theorem synced_step (h : Step svc s a t) (hapart : Apart s a) (hone : OneEngaged s)
    (hs : Synced s) : Synced t :=
  eachEngaged_step h hapart hone hs fun _ _ _ _ _ _ _ _ hedge hp hq => synced_edge hedge hp hq

/-- A message is received only while no other execution lives. -/
def NonOverlapping (s : State V) : Action V → Prop
  | .receive _ => s.execs.all (!·.live) = true
  | _ => True

instance (s : State V) (a : Action V) : Decidable (NonOverlapping s a) := by
  unfold NonOverlapping
  split <;> infer_instance

end NotificationService.Worker
