import NotificationService.Worker.Sequential

/-! The retry budget: the counter in the messages against the counter in the row. -/
namespace NotificationService.Worker

open Transition

variable {V : Type} {svc : TemplateService V} {s t : State V} {a : Action V} {xs : List (Action V)}

/-! ### The retry counter follows the calls, in every run -/

/-- The counter of the session's copy. -/
def PC.retryCount : PC V → ℕ
  | .getNotification d | .getTemplate d _ | .select _ d | .commit _ d | .refresh _ d
  | .send _ d | .sending _ d => d.retryCount
  | _ => 0

/-- A provider call whose failure has still to be committed. -/
def PC.owes : PC V → Bool
  | .sending _ _ => true
  | .select c _ | .commit c _ => c.update.incrementRetry
  | _ => false

def Exec.owes (e : Exec V) : Bool := e.pc.owes

theorem incrementRetry_of_isFirst {c : Call} (h : c.isFirst = true) :
    c.update.incrementRetry = false := by
  cases c <;> simp_all [Call.isFirst, Call.update]

@[simp] theorem prepare_incrementRetry (d : Delivery) (n : Notification V) (t : Option Template) :
    (prepare svc d n t).update.incrementRetry = false :=
  incrementRetry_of_isFirst (prepare_isFirst svc d n t)

theorem providerFailed_incrementRetry (r : ℕ) (err : String) :
    (providerFailed r err).update.incrementRetry = true := by
  unfold providerFailed
  split <;> rfl

@[simp] theorem resume_owes (d : Delivery) (c : Call) : (c.resume d : PC V).owes = false := by
  cases c <;> rfl

@[simp] theorem rescue_owes (err : String) (usable : Bool) (d : Delivery) (c : Call) :
    (c.rescue err usable d : PC V).owes = false := by
  cases c <;> cases usable <;> rfl

/-- Each call is paid for by at most one increment. -/
theorem owes_edge {m : Message} {p q : PC V} {b : Answer V} {f : Effect}
    (h : Edge svc m s.row p b q f) :
    (s.apply f).handled + q.owes.toNat + s.invoked ≤
      s.handled + p.owes.toNat + (s.apply f).invoked := by
  cases h with
  | @committed c d => cases hc : c.update.incrementRetry <;> simp [State.apply, PC.owes, hc]
  | providerError => simp [State.apply, PC.owes, providerFailed_incrementRetry]
  | refreshed | unrefreshed =>
    simp only [State.apply, resume_owes, rescue_owes, Bool.toNat_false]
    omega
  | invoked =>
    simp only [State.apply, PC.owes, Bool.toNat_true, Bool.toNat_false]
    omega
  | succeeded | exception => simp [State.apply, PC.owes, Call.update]
  | selected => exact le_rfl
  | _ => simp [State.apply, PC.owes]

theorem retryCount_resume_le {d : Delivery} {n : ℕ} (hd : d.retryCount ≤ n) (c : Call) :
    (c.resume d : PC V).retryCount ≤ n := by
  cases c <;> simp [Call.resume, PC.retryCount, hd]

theorem retryCount_rescue_le {d : Delivery} {n : ℕ} (hd : d.retryCount ≤ n) (err : String)
    (usable : Bool) (c : Call) : (c.rescue err usable d : PC V).retryCount ≤ n := by
  cases c <;> cases usable <;> simp [Call.rescue, PC.retryCount, hd]

theorem apply_handled_le (s : State V) (f : Effect) : s.handled ≤ (s.apply f).handled := by
  cases f <;> simp only [State.apply, le_refl]
  split <;> omega

/-- `k` of the committed increments are in neither the row nor the session's copy. -/
theorem retryCount_edge {m : Message} {p q : PC V} {b : Answer V} {f : Effect} {k : ℕ}
    (h : Edge svc m s.row p b q f) (hrow : s.row.retryCount + k ≤ s.handled)
    (hp : p.retryCount + k ≤ s.handled) :
    (s.apply f).row.retryCount + k ≤ (s.apply f).handled ∧
      q.retryCount + k ≤ (s.apply f).handled := by
  have hk : 0 + k ≤ s.handled := (Nat.add_le_add_right (Nat.zero_le _) k).trans hrow
  cases h with
  | @committed c d =>
    have hd : d.retryCount + k ≤ s.handled := hp
    simp only [State.apply, flush_retryCount]
    cases hc : c.update.incrementRetry <;> simp [PC.retryCount, Update.assign, hc] <;> omega
  | @refreshed c =>
    have hle := retryCount_resume_le (V := V) (le_refl s.row.retryCount) c
    exact ⟨hrow, (Nat.add_le_add_right hle k).trans hrow⟩
  | @unrefreshed c d err usable =>
    have hle := retryCount_rescue_le (V := V) (le_refl d.retryCount) err usable c
    exact ⟨hrow, (Nat.add_le_add_right hle k).trans hp⟩
  | load => exact ⟨hrow, hrow⟩
  | skip | noNotification | retried | raised => exact ⟨hrow, hk⟩
  | _ => exact ⟨hrow, hp⟩

/-- At least `k` of the committed increments are in neither the row nor any session's copy. -/
structure Behind (k : ℕ) (s : State V) : Prop where
  row : s.row.retryCount + k ≤ s.handled
  sessions : ∀ e ∈ s.execs, e.pc.retryCount + k ≤ s.handled

theorem handled_le (h : Step svc s a t) : s.handled ≤ t.handled := by
  cases h with
  | @run i e b q f => exact apply_handled_le s f
  | _ => exact le_rfl

/-- What has been lost does not come back. -/
theorem behind_step {k : ℕ} (h : Step svc s a t) (hs : Behind k s) : Behind k t := by
  obtain ⟨hrow, hsess⟩ := hs
  have hmono := handled_le h
  constructor
  · cases h with
    | run he _ hedge => exact (retryCount_edge hedge hrow (hsess _ (List.mem_of_getElem? he))).1
    | _ => exact hrow
  · refine eachSession_step (P := fun _ p => p.retryCount + k ≤ t.handled) h ?_ ?_ ?_
    · intro e he
      exact (hsess e he).trans hmono
    · intro m _
      have hzero : (PC.getDelivery : PC V).retryCount = 0 := rfl
      omega
    · rintro i e b q f he hedge rfl
      exact (retryCount_edge hedge hrow (hsess e he)).2

theorem behind_initial {ch : Channel} {now : ℤ} {p : Priority} :
    Behind 0 (initial ch now p : State V) :=
  ⟨le_rfl, by simp [initial]⟩

structure Counted (s : State V) : Prop where
  row : s.row.retryCount ≤ s.handled
  sessions : ∀ e ∈ s.execs, e.pc.retryCount ≤ s.handled
  calls : s.handled + s.execs.countP Exec.owes ≤ s.invoked

theorem owes_step (h : Step svc s a t) (hs : s.handled + s.execs.countP Exec.owes ≤ s.invoked) :
    t.handled + t.execs.countP Exec.owes ≤ t.invoked := by
  cases moves_step (p := Exec.owes) (fun _ => rfl) h with
  | still hledger hall | receive _ hledger hall =>
    obtain ⟨_, hinvoked, _, hhandled⟩ := Ledger.mk.inj hledger
    have hle : t.execs.countP Exec.owes ≤ s.execs.countP Exec.owes := hall.le
    omega
  | @run i e b q f hrun he ha hedge hledger hall =>
    obtain ⟨_, hinvoked, _, hhandled⟩ := Ledger.mk.inj hledger
    have hone := owes_edge hedge
    have hold : e.owes = e.pc.owes := rfl
    have hnew : Exec.owes { e with pc := q } = q.owes := rfl
    rw [hold, hnew] at hall
    omega
  | @crash i e _ _ hledger hall =>
    obtain ⟨_, hinvoked, _, hhandled⟩ := Ledger.mk.inj hledger
    have hdead : Exec.owes { e with alive := false } = e.owes := rfl
    rw [hdead] at hall
    omega

theorem counted_step (h : Step svc s a t) (hs : Counted s) : Counted t := by
  obtain ⟨hrow, hsess⟩ := behind_step (k := 0) h ⟨hs.row, hs.sessions⟩
  exact ⟨hrow, hsess, owes_step h hs.calls⟩

theorem counted_initial {ch : Channel} {now : ℤ} {p : Priority} :
    Counted (initial ch now p : State V) :=
  ⟨le_rfl, by simp [initial], le_rfl⟩

theorem retryCount_le_invoked {ch : Channel} {now : ℤ} {p : Priority}
    (h : (sys svc).MTr (initial ch now p) xs s) : s.row.retryCount ≤ s.invoked := by
  have hinv : (sys svc).TrInv Counted := fun _ _ _ hstep => counted_step (sys_step hstep)
  obtain ⟨hrow, _, hcalls⟩ := LTS.mtrInv_of_trInv hinv h counted_initial
  omega

/-! ### The counters of the messages -/

/-- The execution is on its way to `self.retry`. -/
def PC.willRetry : PC V → Bool
  | .select c _ | .commit c _ | .refresh c _ => c.isTransient
  | .retry => true
  | _ => false

/-- The counter is in range, and below the maximum on the way to a retry. -/
def PC.RetriesOk (r : ℕ) (p : PC V) : Prop :=
  r ≤ maxRetries ∧ (p.willRetry = true → r < maxRetries)

@[simp] theorem resume_willRetry (d : Delivery) (c : Call) :
    (c.resume d : PC V).willRetry = c.isTransient := by
  cases c <;> rfl

@[simp] theorem rescue_willRetry (err : String) (usable : Bool) (d : Delivery) (c : Call) :
    (c.rescue err usable d : PC V).willRetry = false := by
  cases c <;> cases usable <;> rfl

theorem providerFailed_isTransient {r : ℕ} {err : String}
    (h : (providerFailed r err).isTransient = true) : r < maxRetries := by
  unfold providerFailed at h
  split at h
  · cases h
  · omega

theorem retriesOk_edge {m : Message} {row : Delivery} {p q : PC V} {b : Answer V} {f : Effect}
    (h : Edge svc m row p b q f) (hp : p.RetriesOk m.retries) : q.RetriesOk m.retries := by
  obtain ⟨hle, hlt⟩ := hp
  refine ⟨hle, ?_⟩
  intro hq
  cases h with
  | selected | committed => exact hlt hq
  | refreshed =>
    rw [resume_willRetry] at hq
    exact hlt hq
  | providerError => exact providerFailed_isTransient hq
  | noTemplate | prepared => simp [PC.willRetry] at hq
  | unrefreshed => simp at hq
  | _ => cases hq

/-- No message, received or not, carries a counter beyond `max_retries`. -/
structure RetriesBounded (s : State V) : Prop where
  ready : ∀ m ∈ s.ready, m.retries ≤ maxRetries
  execs : ∀ e ∈ s.execs, e.pc.RetriesOk e.message.retries

theorem ready_edge {m : Message} {p q : PC V} {b : Answer V} {f : Effect}
    (h : Edge svc m s.row p b q f) (hp : p.RetriesOk m.retries)
    (hs : ∀ m ∈ s.ready, m.retries ≤ maxRetries) :
    ∀ m ∈ (s.apply f).ready, m.retries ≤ maxRetries := by
  cases h with
  | retried => exact Pool.forall_concat hs (hp.2 rfl)
  | _ => exact hs

theorem retriesBounded_step (h : Step svc s a t) (hs : RetriesBounded s) : RetriesBounded t := by
  obtain ⟨hready, hexecs⟩ := hs
  constructor
  · cases h with
    | apiPublish | requeuePublish => exact Pool.forall_concat hready (Nat.zero_le _)
    | receive => exact fun x hx => hready x (List.mem_of_mem_erase hx)
    | run he _ hedge => exact ready_edge hedge (hexecs _ (List.mem_of_getElem? he)) hready
    | redeliver he => exact Pool.forall_concat hready (hexecs _ (List.mem_of_getElem? he)).1
    | reconcile | requeueNotification | crash | ack | lose => exact hready
  · refine eachSession_step (P := fun m p => p.RetriesOk m.retries) h hexecs ?_ ?_
    · intro m hm
      exact ⟨hready m hm, fun hq => by cases hq⟩
    · intro i e b q f he hedge _
      exact retriesOk_edge hedge (hexecs e he)

/-! ### The budget -/

/-- The status check is passed only while no other execution is engaged, and only by a message
whose counter is not behind the counter of the row. -/
def WithinBudget (s : State V) (a : Action V) : Prop :=
  Apart s a ∧ (s.passes a).all (s.row.retryCount ≤ ·.retries) = true

instance (s : State V) (a : Action V) : Decidable (WithinBudget s a) :=
  inferInstanceAs (Decidable (_ ∧ _))

/-- The row is SENT and the call that it stands for has still to be made. -/
structure Unspent (l : Ledger) (r : ℕ) : Prop where
  sent : l.row.status = .sent
  calls : l.invoked ≤ l.row.retryCount
  counter : l.row.retryCount ≤ r

/-- An engaged execution that has still to call the provider has the budget for it. -/
def PC.Paid (l : Ledger) (r : ℕ) : PC V → Prop
  | .getNotification _ | .getTemplate _ _ => l.row.retryCount ≤ r
  | .select c _ | .commit c _ => c.isFirst = true → l.row.retryCount ≤ r
  | .refresh c _ => c.isSent = true → Unspent l r
  | .send _ _ => Unspent l r
  | _ => True

/-- Every call but that of the engaged execution has been counted in the row. -/
structure Ledger.Spent (l : Ledger) : Prop where
  calls : l.invoked ≤ maxRetries + 1
  pending : l.row.status = .pending → l.invoked ≤ l.row.retryCount
  counted : l.invoked ≤ l.row.retryCount + 1

theorem providerFailed_isFirst (r : ℕ) (err : String) : (providerFailed r err).isFirst = false := by
  unfold providerFailed
  split <;> rfl

theorem isFirst_of_isSent {c : Call} (h : c.isSent = true) : c.isFirst = true := by
  cases c <;> simp_all [Call.isFirst, Call.isSent]

theorem paid_edge {m : Message} {p q : PC V} {b : Answer V} {f : Effect}
    (h : Edge svc m s.row p b q f) (hsession : p.SessionOk)
    (hsync : p.engaged = true → p.copy = some s.row) (hspent : s.ledger.Spent)
    (hpass : p = .getDelivery → b = .ok → s.row.status = .pending → s.row.retryCount ≤ m.retries)
    (hp : p.engaged = true → p.Paid s.ledger m.retries) : q.Paid (s.apply f).ledger m.retries := by
  cases h with
  | load hrow => exact hpass rfl rfl hrow
  | notification => exact hp rfl
  | noTemplate | prepared => exact fun _ => hp rfl
  | selected => exact hp rfl
  | @committed c d =>
    intro hsent
    obtain rfl := commit_synced hsync
    have hpending : s.row.status = .pending := hsession (isFirst_of_isSent hsent)
    have hcounter : s.row.retryCount ≤ m.retries := hp rfl (isFirst_of_isSent hsent)
    have hcalls : s.invoked ≤ s.row.retryCount := hspent.pending hpending
    rw [ledger_commit]
    cases c with
    | sent out => exact ⟨rfl, hcalls, hcounter⟩
    | _ => cases hsent
  | @refreshed c d =>
    have hunspent := hp rfl
    cases c <;> first | trivial | exact hunspent rfl
  | @unrefreshed c d err usable =>
    cases c <;> cases usable <;> first | trivial | exact fun hfirst => by cases hfirst
  | providerError => exact fun hfirst => by simp [providerFailed_isFirst] at hfirst
  | succeeded | exception => exact fun hfirst => by cases hfirst
  | _ => trivial

theorem spent_edge {m : Message} {p q : PC V} {b : Answer V} {f : Effect}
    (h : Edge svc m s.row p b q f) (hretries : p.RetriesOk m.retries)
    (hsync : p.engaged = true → p.copy = some s.row)
    (hp : p.engaged = true → p.Paid s.ledger m.retries) (hs : s.ledger.Spent) :
    (s.apply f).ledger.Spent := by
  obtain ⟨hcalls, hpending, hcounted⟩ := hs
  cases h with
  | @committed c d =>
    obtain rfl := commit_synced hsync
    rw [ledger_commit]
    cases c with
    | transient err => exact ⟨hcalls, fun _ => hcounted, hcounted.trans (Nat.le_succ _)⟩
    | exhausted err =>
      exact ⟨hcalls, (fun hrow => by cases hrow), hcounted.trans (Nat.le_succ _)⟩
    | _ => exact ⟨hcalls, (fun hrow => by cases hrow), hcounted⟩
  | invoked =>
    obtain ⟨hsent, hle, hcounter⟩ := hp rfl
    have hmax := hretries.1
    refine ⟨Nat.succ_le_succ (hle.trans (hcounter.trans hmax)), ?_, Nat.succ_le_succ hle⟩
    intro hrow
    cases hsent.symm.trans hrow
  | _ => exact ⟨hcalls, hpending, hcounted⟩

structure Budgeted (s : State V) : Prop where
  sessions : SessionsOk s
  retries : RetriesBounded s
  one : OneEngaged s
  synced : Synced s
  paid : EachEngaged (fun l m p => p.Paid l m.retries) s
  spent : s.ledger.Spent

theorem spent_step (h : Step svc s a t) (hs : Budgeted s) : t.ledger.Spent := by
  cases h with
  | @run i e b q f he ha hedge =>
    have hmem := List.mem_of_getElem? he
    exact spent_edge hedge (hs.retries.execs e hmem) (fun hp => hs.synced e hmem (engaged_of ha hp))
      (fun hp => hs.paid e hmem (engaged_of ha hp)) hs.spent
  | _ => exact hs.spent

theorem budgeted_step (h : Step svc s a t) (hb : WithinBudget s a) (hs : Budgeted s) :
    Budgeted t := by
  obtain ⟨hapart, hcounter⟩ := hb
  refine ⟨sessionsOk_step h hs.sessions, retriesBounded_step h hs.retries,
    oneEngaged_step h hapart hs.one, synced_step h hapart hs.one hs.synced, ?_, spent_step h hs⟩
  refine eachEngaged_step h hapart hs.one hs.paid ?_
  intro i e b q f ha he halive hedge hp _
  have hmem := List.mem_of_getElem? he
  refine paid_edge hedge (hs.sessions e hmem) (fun hp => hs.synced e hmem (engaged_of halive hp))
    hs.spent ?_ hp
  rintro hpc rfl hrow
  subst ha
  simpa [passes_run he hpc hrow] using hcounter

theorem budgeted_initial {ch : Channel} {now : ℤ} {p : Priority} :
    Budgeted (initial ch now p : State V) where
  sessions := sessionsOk_initial
  retries := ⟨by simp [initial], by simp [initial]⟩
  one := Nat.zero_le _
  synced := by simp [Synced, EachEngaged, initial]
  paid := by simp [EachEngaged, initial]
  spent := ⟨Nat.zero_le _, fun _ => Nat.zero_le _, Nat.zero_le _⟩

/-- In every run within the budget, four calls and a counter of four are never exceeded. -/
theorem retry_budget {ch : Channel} {now : ℤ} {p : Priority}
    (h : ((sys svc).restrict WithinBudget).MTr (initial ch now p) xs s) :
    s.invoked ≤ maxRetries + 1 ∧ s.row.retryCount ≤ maxRetries + 1 := by
  have hinv : ((sys svc).restrict WithinBudget).TrInv Budgeted := by
    rintro s a t ⟨hb, hstep⟩ hs
    exact budgeted_step (sys_step hstep) hb hs
  have hspent := (LTS.mtrInv_of_trInv hinv h budgeted_initial).spent
  exact ⟨hspent.calls, (retryCount_le_invoked h.of_restrict).trans hspent.calls⟩

/-- One execution that meets a `ProviderError`, up to the COMMIT and refresh of what follows. -/
def failSteps (i : ℕ) (m : Message) : List (Action Unit) :=
  .receive m :: loadSteps i ++ sendSteps i ++ settleSteps i (.providerError "timeout")

/-- The first attempt and three retries, all failing. -/
def exhaustRun : List (Action Unit) :=
  .apiPublish :: failSteps 0 ⟨0, "high", 0⟩ ++ .run 0 .ok :: failSteps 1 ⟨1, "high", 1⟩ ++
    .run 1 .ok :: failSteps 2 ⟨2, "high", 4⟩ ++ .run 2 .ok :: failSteps 3 ⟨3, "high", 16⟩

theorem retry_budget_exhausted : ∃ s, ((sys plainText).restrict WithinBudget).MTr otpDelivery
    exhaustRun s ∧ s.row.status = .failed ∧ s.invoked = 4 ∧
    s.invoked ≤ maxRetries + 1 ∧ s.row.retryCount ≤ maxRetries + 1 := by
  have hrun : (LTS.run (LTS.guarded WithinBudget (step plainText)) otpDelivery exhaustRun).map
      (fun s => (s.row.status, s.invoked)) = some (.failed, 4) := by decide
  obtain ⟨s, h, he⟩ := LTS.exists_mTr_guarded hrun
  exact ⟨s, h, congrArg Prod.fst he, congrArg Prod.snd he, retry_budget h⟩

/-- One tick during the first delay starts a second chain; the executions never overlap. -/
def reconciledRun : List (Action Unit) :=
  .apiPublish :: failSteps 0 ⟨0, "high", 0⟩ ++ .run 0 .ok :: requeueSteps 0 ++
    failSteps 1 ⟨0, "high", 0⟩ ++ .run 1 .ok :: failSteps 2 ⟨1, "high", 1⟩ ++
    .run 2 .ok :: failSteps 3 ⟨1, "high", 1⟩ ++ .run 3 .ok :: failSteps 4 ⟨2, "high", 4⟩

theorem budget_exceeded : ¬ ∀ xs s, ((sys plainText).restrict NonOverlapping).MTr otpDelivery xs s →
    s.invoked ≤ maxRetries + 1 ∧ s.row.retryCount ≤ maxRetries + 1 := by
  intro h
  have hrun : (LTS.run (LTS.guarded NonOverlapping (step plainText)) otpDelivery reconciledRun).map
      (fun s => (s.invoked, s.row.retryCount)) = some (5, 5) := by decide
  obtain ⟨s, hs, he⟩ := LTS.exists_mTr_guarded hrun
  have hle := (h reconciledRun s hs).1
  have h5 : s.invoked = 5 := congrArg Prod.fst he
  rw [h5] at hle
  simp [maxRetries] at hle

end NotificationService.Worker
