import NotificationService.Worker.SingleSend

/-! Terminal states: how a stale execution leaves them, and when they absorb. -/
namespace NotificationService.Worker

open Transition

variable {V : Type} {svc : TemplateService V} {s t : State V} {a : Action V}
  {xs ys : List (Action V)}

def Status.terminal : Status → Bool
  | .delivered | .failed => true
  | _ => false

/-- Every commit but the one that settles the execution's own SENT finds the row PENDING. -/
def FirstOverPending (s : State V) (a : Action V) : Prop :=
  (s.commits a).any (fun c => !c.settles) = true → s.row.status = .pending

instance (s : State V) (a : Action V) : Decidable (FirstOverPending s a) :=
  inferInstanceAs (Decidable (_ → _))

/-- The execution has committed SENT and has not yet recorded its outcome. -/
def PC.claims : PC V → Bool
  | .send _ _ | .sending _ _ => true
  | .refresh c _ => c.isSent
  | .select c _ | .commit c _ => c.settles
  | _ => false

def Exec.claims (e : Exec V) : Bool := e.alive && e.pc.claims

/-- A row that is not SENT is free to be claimed. -/
def Delivery.free (d : Delivery) : ℕ := if d.status = .sent then 0 else 1

theorem free_le_one (d : Delivery) : d.free ≤ 1 := by
  unfold Delivery.free
  split <;> omega

theorem free_eq_one {d : Delivery} (h : d.status ≠ .sent) : d.free = 1 := by
  simp [Delivery.free, h]

theorem settles_of_isFirst {c : Call} (h : c.isFirst = true) : c.settles = false := by
  cases c <;> simp_all [Call.isFirst, Call.settles]

@[simp] theorem prepare_settles (d : Delivery) (n : Notification V) (t : Option Template) :
    (prepare svc d n t).settles = false :=
  settles_of_isFirst (prepare_isFirst svc d n t)

theorem providerFailed_settles (r : ℕ) (err : String) : (providerFailed r err).settles = true := by
  unfold providerFailed
  split <;> rfl

/-- An operation moves the claim between the row and the execution, and never copies it. -/
theorem claim_edge {m : Message} {p q : PC V} {b : Answer V} {f : Effect}
    (h : Edge svc m s.row p b q f) (hp : p.SessionOk)
    (hc : ∀ c d, f = .commit c d → c.settles = false → s.row.status = .pending) :
    q.claims.toNat + (s.apply f).row.free ≤ p.claims.toNat + s.row.free := by
  cases h with
  | @committed c d =>
    have hone := free_le_one (flush d (c.update.assign d) s.row)
    cases hset : c.settles with
    | true =>
      have hq : (PC.refresh c (c.update.assign d) : PC V).claims = false := by
        cases c <;> simp_all [PC.claims, Call.isSent, Call.settles]
      simp only [PC.claims, hset, State.apply] at hq ⊢
      simp only [hq, Bool.toNat_true, Bool.toNat_false]
      omega
    | false =>
      have hrow : s.row.free = 1 := free_eq_one (by simp [hc c d rfl hset])
      cases c with
      | sent out =>
        have hnew : (flush d ((Call.sent out).update.assign d) s.row).status = .sent :=
          flush_status_changed _ (by simp [hp rfl, Call.update])
        simp [PC.claims, Call.isSent, State.apply, Delivery.free, hnew, hc _ d rfl hset]
      | _ =>
        simp only [PC.claims, Call.isSent, State.apply, hset, hrow, Bool.toNat_false]
        omega
  | @refreshed c d => cases c <;> simp [Call.resume, PC.claims, State.apply, Call.isSent]
  | @unrefreshed c d err usable =>
    cases c <;> cases usable <;>
      simp [Call.rescue, PC.claims, State.apply, Call.isSent, Call.settles]
  | providerError => simp [PC.claims, State.apply, providerFailed_settles]
  | succeeded | exception => simp [PC.claims, State.apply, Call.settles]
  | selected => exact le_rfl
  | _ => simp [PC.claims, State.apply]

/-- The claims held by executions, and the free row, are one in all. -/
def Exclusive (s : State V) : Prop := s.execs.countP Exec.claims + s.row.free ≤ 1

theorem exclusive_step (h : Step svc s a t) (hs : SessionsOk s) (hc : FirstOverPending s a)
    (hx : Exclusive s) : Exclusive t := by
  unfold Exclusive at hx ⊢
  cases moves_step (p := Exec.claims) (fun _ => rfl) h with
  | still hledger hall | receive _ hledger hall =>
    obtain ⟨hrow, _⟩ := Ledger.mk.inj hledger
    have hle : t.execs.countP Exec.claims ≤ s.execs.countP Exec.claims := hall.le
    rw [hrow]
    omega
  | @run i e b q f hrun he ha hedge hledger hall =>
    subst hrun
    obtain ⟨hrow, _⟩ := Ledger.mk.inj hledger
    have hfirst : ∀ c d, f = .commit c d → c.settles = false → s.row.status = .pending := by
      rintro c d rfl hset
      obtain ⟨hp, rfl, _⟩ := edge_commit hedge
      exact hc (by simp [commits_run he hp, hset])
    have hone := claim_edge hedge (hs _ (List.mem_of_getElem? he)) hfirst
    have hold : e.claims = e.pc.claims := by simp [Exec.claims, ha]
    have hnew : Exec.claims { e with pc := q } = q.claims := by simp [Exec.claims, ha]
    rw [hold, hnew] at hall
    rw [hrow]
    omega
  | @crash i e _ _ hledger hall =>
    obtain ⟨hrow, _⟩ := Ledger.mk.inj hledger
    have hdead : Exec.claims { e with alive := false } = false := by simp [Exec.claims]
    rw [hdead, Bool.toNat_false] at hall
    rw [hrow]
    omega

/-- On a terminal row no commit is left to any execution. -/
theorem terminal_step (h : Step svc s a t) (hc : FirstOverPending s a) (hx : Exclusive s)
    (ht : s.row.status.terminal = true) : t.row.status = s.row.status := by
  cases h with
  | @run i e b q f he ha hedge =>
    cases f with
    | commit c d =>
      exfalso
      obtain ⟨hp, rfl, _⟩ := edge_commit hedge
      have hset : c.settles = true := by
        by_contra hn
        have hpending := hc (by simp [commits_run he hp, hn])
        simp [hpending, Status.terminal] at ht
      have hclaims : e.claims = true := by simp [Exec.claims, ha, hp, PC.claims, hset]
      have hpos : 0 < s.execs.countP Exec.claims :=
        List.countP_pos_iff.mpr ⟨e, List.mem_of_getElem? he, hclaims⟩
      have hfree : s.row.free = 1 :=
        free_eq_one (by intro hsent; simp [hsent, Status.terminal] at ht)
      unfold Exclusive at hx
      omega
    | _ => rfl
  | _ => rfl

theorem exclusive_initial {ch : Channel} {now : ℤ} {p : Priority} :
    Exclusive (initial ch now p : State V) := le_rfl

theorem exclusive_trInv : ((sys svc).restrict FirstOverPending).TrInv
    (fun s => SessionsOk s ∧ Exclusive s) := by
  rintro s a t ⟨hc, hstep⟩ ⟨hs, hx⟩
  exact ⟨sessionsOk_step (sys_step hstep) hs, exclusive_step (sys_step hstep) hs hc hx⟩

theorem terminal_run (hs : SessionsOk s) (hx : Exclusive s)
    (h : ((sys svc).restrict FirstOverPending).MTr s ys t)
    (ht : s.row.status.terminal = true) : t.row.status = s.row.status := by
  induction h with
  | refl => rfl
  | stepL hstep _ ih =>
    obtain ⟨hs', hx'⟩ := exclusive_trInv _ _ _ hstep ⟨hs, hx⟩
    have heq := terminal_step (sys_step hstep.2) hstep.1 hx ht
    exact (ih hs' hx' (heq ▸ ht)).trans heq

/-- In every run whose first commits find the row PENDING, DELIVERED and FAILED are never left. -/
theorem terminal_absorbing {ch : Channel} {now : ℤ} {p : Priority}
    (h : ((sys svc).restrict FirstOverPending).MTr (initial ch now p) xs s)
    (hafter : ((sys svc).restrict FirstOverPending).MTr s ys t)
    (ht : s.row.status.terminal = true) : t.row.status = s.row.status := by
  obtain ⟨hs, hx⟩ := LTS.mtrInv_of_trInv exclusive_trInv h ⟨sessionsOk_initial, exclusive_initial⟩
  exact terminal_run hs hx hafter ht

/-- One execution delivers while a duplicate message is still queued. -/
def duplicateRun : List (Action Unit) := requeueSteps 0 ++ deliverRun

theorem terminal_absorbing_duplicate : ∃ s t,
    ((sys plainText).restrict FirstOverPending).MTr otpDelivery duplicateRun s ∧
    ((sys plainText).restrict FirstOverPending).MTr s [.receive otpMessage, .run 1 .ok] t ∧
    s.row.status = .delivered ∧ t.row.status = s.row.status := by
  have hrun :
    ((LTS.run (LTS.guarded FirstOverPending (step plainText)) otpDelivery duplicateRun).bind
      fun s => (LTS.run (LTS.guarded FirstOverPending (step plainText)) s
        [.receive otpMessage, .run 1 .ok]).map fun _ => s.row.status) = some .delivered := by
    decide
  obtain ⟨s, t, hbefore, hafter, he⟩ := LTS.exists_mTrs_guarded hrun
  exact ⟨s, t, hbefore, hafter, he,
    terminal_absorbing hbefore hafter (by rw [he]; rfl)⟩

/-- The second execution has checked the status before the first one delivers. -/
def staleRun : List (Action Unit) :=
  [.apiPublish] ++ requeueSteps 0 ++ [.receive otpMessage, .receive otpMessage] ++
    loadSteps 0 ++ loadSteps 1 ++ sendSteps 0 ++ settleSteps 0 .success

/-- Its commit then takes the row from DELIVERED back to SENT. -/
theorem delivered_overwritten : ¬ ∀ xs s ys t, (sys plainText).MTr otpDelivery xs s →
    (sys plainText).MTr s ys t → s.row.status.terminal = true → t.row.status = s.row.status := by
  intro h
  have hrun : ((LTS.run (step plainText) otpDelivery staleRun).bind fun s =>
      (LTS.run (step plainText) s [.run 1 .ok]).map fun t => (s.row.status, t.row.status)) =
      some (.delivered, .sent) := by decide
  obtain ⟨s, t, hs, ht, he⟩ := LTS.exists_mTrs hrun
  obtain ⟨hd, hsent⟩ := Prod.mk.inj he
  have habs := h staleRun s _ t hs ht (by rw [hd]; rfl)
  simp [hd, hsent] at habs

end NotificationService.Worker
