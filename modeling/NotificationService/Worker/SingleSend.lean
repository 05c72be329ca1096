import NotificationService.Worker.Session

/-! At most one successful send: the race that breaks it, and the compare-and-set that the
commit of SENT would need. -/
namespace NotificationService.Worker

open Transition

variable {V : Type} {svc : TemplateService V} {s t : State V} {a : Action V} {xs : List (Action V)}

/-- The call whose COMMIT an action performs. -/
def State.commits (s : State V) : Action V → Option Call
  | .run i .ok =>
    s.execs[i]?.bind fun e =>
      match e.pc with
      | .commit c _ => some c
      | _ => none
  | _ => none

theorem commits_run {i : ℕ} {e : Exec V} {c : Call} {d : Delivery} (he : s.execs[i]? = some e)
    (hp : e.pc = .commit c d) : s.commits (.run i .ok) = some c := by
  simp [State.commits, he, hp]

/-- SENT is committed only while the committed status is still PENDING. -/
def SentOverPending (s : State V) (a : Action V) : Prop :=
  (s.commits a).any Call.isSent = true → s.row.status = .pending

instance (s : State V) (a : Action V) : Decidable (SentOverPending s a) :=
  inferInstanceAs (Decidable (_ → _))

/-- The execution has committed SENT and can still reach a success or hand back PENDING. -/
def PC.mayDeliver : PC V → Bool
  | .send _ _ | .sending _ _ => true
  | .refresh c _ => c.isSent
  | .select c _ | .commit c _ => c.isTransient
  | _ => false

def Exec.mayDeliver (e : Exec V) : Bool := e.alive && e.pc.mayDeliver

/-- A PENDING row is one chance of a success. -/
def Delivery.chance (d : Delivery) : ℕ := if d.status = .pending then 1 else 0

/-- Successes so far, plus every chance of one more. -/
def chances (s : State V) : ℕ := s.succeeded + s.execs.countP Exec.mayDeliver + s.row.chance

theorem chance_le_one (d : Delivery) : d.chance ≤ 1 := by
  unfold Delivery.chance
  split <;> omega

theorem flush_chance_le {u : Update} {d row : Delivery} (h : u.toStatus ≠ .pending) :
    (flush d (u.assign d) row).chance ≤ row.chance := by
  unfold Delivery.chance
  rcases flush_status_cases u d row with hw | ⟨_, hw⟩
  · rw [hw]
  · simp [hw, h]

theorem flush_chance_changed {u : Update} {d : Delivery} (row : Delivery)
    (h : u.toStatus ≠ .pending) (hd : d.status = .pending) :
      (flush d (u.assign d) row).chance = 0 := by
  have hs := flush_status_changed row (hd ▸ h : u.toStatus ≠ d.status)
  simp [Delivery.chance, hs, h]

/-- No operation of an execution creates a chance, if SENT is committed over PENDING only. -/
theorem chance_edge {m : Message} {p q : PC V} {b : Answer V} {f : Effect}
    (h : Edge svc m s.row p b q f) (hp : p.SessionOk)
    (hc : ∀ out d, f = .commit (.sent out) d → s.row.status = .pending) :
    (s.apply f).succeeded + q.mayDeliver.toNat + (s.apply f).row.chance ≤
      s.succeeded + p.mayDeliver.toNat + s.row.chance := by
  cases h with
  | @committed c d =>
    cases c with
    | sent out =>
      have hnew :=
        flush_chance_changed (u := (Call.sent out).update) s.row (by simp [Call.update]) (hp rfl)
      have hold : s.row.chance = 1 := by simp [Delivery.chance, hc out d rfl]
      simp only [State.apply, hnew, hold, PC.mayDeliver, Call.isSent, Call.isTransient]
      simp
    | transient err =>
      have hnew := chance_le_one (flush d ((Call.transient err).update.assign d) s.row)
      simp only [State.apply, PC.mayDeliver, Call.isSent, Call.isTransient]
      simp
      omega
    | _ =>
      simp only [State.apply, PC.mayDeliver, Call.isSent, Call.isTransient]
      exact Nat.add_le_add_left (flush_chance_le (by simp [Call.update])) _
  | @refreshed c d =>
    cases c <;> simp [Call.resume, PC.mayDeliver, State.apply, Call.isSent]
  | @unrefreshed c d err usable =>
    cases c <;> cases usable <;>
      simp [Call.rescue, PC.mayDeliver, State.apply, Call.isSent, Call.isTransient]
  | providerError =>
    unfold providerFailed
    split <;> simp [PC.mayDeliver, State.apply, Call.isTransient]
  | succeeded | exception => simp [PC.mayDeliver, State.apply, Call.isTransient]
  | selected => exact le_rfl
  | _ => simp [PC.mayDeliver, State.apply]

theorem chances_step (h : Step svc s a t) (hs : SessionsOk s) (hc : SentOverPending s a) :
    chances t ≤ chances s := by
  unfold chances
  cases moves_step (p := Exec.mayDeliver) (fun _ => rfl) h with
  | still hledger hall | receive _ hledger hall =>
    obtain ⟨hrow, _, hsucc, _⟩ := Ledger.mk.inj hledger
    have hle : t.execs.countP Exec.mayDeliver ≤ s.execs.countP Exec.mayDeliver := hall.le
    rw [hrow, hsucc]
    omega
  | @run i e b q f hrun he ha hedge hledger hall =>
    subst hrun
    obtain ⟨hrow, _, hsucc, _⟩ := Ledger.mk.inj hledger
    have hsent : ∀ out d, f = .commit (.sent out) d → s.row.status = .pending := by
      rintro out d rfl
      obtain ⟨hp, rfl, _⟩ := edge_commit hedge
      exact hc (by simp [commits_run he hp, Call.isSent])
    have hone := chance_edge hedge (hs _ (List.mem_of_getElem? he)) hsent
    have hold : e.mayDeliver = e.pc.mayDeliver := by simp [Exec.mayDeliver, ha]
    have hnew : Exec.mayDeliver { e with pc := q } = q.mayDeliver := by simp [Exec.mayDeliver, ha]
    rw [hold, hnew] at hall
    rw [hrow, hsucc]
    omega
  | @crash i e _ _ hledger hall =>
    obtain ⟨hrow, _, hsucc, _⟩ := Ledger.mk.inj hledger
    have hdead : Exec.mayDeliver { e with alive := false } = false := by simp [Exec.mayDeliver]
    rw [hdead, Bool.toNat_false] at hall
    rw [hrow, hsucc]
    omega

theorem chances_initial {ch : Channel} {now : ℤ} {p : Priority} :
    chances (initial ch now p : State V) = 1 := rfl

/-- In every run whose commits of SENT find the row PENDING, the provider succeeds at most once. -/
theorem single_send {ch : Channel} {now : ℤ} {p : Priority}
    (h : ((sys svc).restrict SentOverPending).MTr (initial ch now p) xs s) : s.succeeded ≤ 1 := by
  have hinv : ((sys svc).restrict SentOverPending).TrInv
      (fun s => SessionsOk s ∧ chances s ≤ 1) := by
    rintro s a t ⟨hc, hstep⟩ ⟨hs, hle⟩
    have hcases := sys_step hstep
    exact ⟨sessionsOk_step hcases hs, (chances_step hcases hs hc).trans hle⟩
  obtain ⟨_, hle⟩ := LTS.mtrInv_of_trInv hinv h ⟨sessionsOk_initial, chances_initial.le⟩
  unfold chances at hle
  omega

/-- One execution, from the handler's message to DELIVERED. -/
def deliverRun : List (Action Unit) :=
  [.apiPublish, .receive otpMessage] ++ loadSteps 0 ++ sendSteps 0 ++ settleSteps 0 .success

theorem single_send_delivered : ∃ s, ((sys plainText).restrict SentOverPending).MTr otpDelivery
    deliverRun s ∧ s.row.status = .delivered ∧ s.succeeded = 1 ∧ s.succeeded ≤ 1 := by
  have hrun : (LTS.run (LTS.guarded SentOverPending (step plainText)) otpDelivery deliverRun).map
      (fun s => (s.row.status, s.succeeded)) = some (.delivered, 1) := by decide
  obtain ⟨s, h, he⟩ := LTS.exists_mTr_guarded hrun
  exact ⟨s, h, congrArg Prod.fst he, congrArg Prod.snd he, single_send h⟩

/-- Two executions check the status before either commits SENT, and both send. -/
def raceRun : List (Action Unit) :=
  [.apiPublish] ++ requeueSteps 0 ++ [.receive otpMessage, .receive otpMessage] ++
    loadSteps 0 ++ loadSteps 1 ++ sendSteps 0 ++ sendSteps 1 ++
    [.run 0 (.provider .success), .run 1 (.provider .success)]

theorem two_successful_sends :
    ¬ ∀ xs s, (sys plainText).MTr otpDelivery xs s → s.succeeded ≤ 1 := by
  intro h
  have hrun : (LTS.run (step plainText) otpDelivery raceRun).map (·.succeeded) = some 2 := by
    decide
  obtain ⟨s, hs, h2⟩ := LTS.exists_mTr hrun
  have h1 := h raceRun s hs
  omega

end NotificationService.Worker
