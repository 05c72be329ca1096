import NotificationService.Worker.Absorption

/-! Worker crashes: the window that strands a delivery in SENT, and progress outside it. -/
namespace NotificationService.Worker

open Transition

variable {V : Type} {svc : TemplateService V} {s t : State V} {a : Action V}
  {xs ys : List (Action V)}

/-- The messages the broker holds for the delivery, unacknowledged ones included. -/
def State.brokered (s : State V) : List Message :=
  s.ready ++ (s.execs.filter (·.held)).map (·.message)

/-- The delivery with this one message and nothing else in progress. -/
def State.only (s : State V) (m : Message) : State V :=
  { s with apiPending := none, ready := [m], execs := [], requeues := [] }

/-- Processing the message alone can reach the call of the provider. -/
def Attempts (svc : TemplateService V) (s : State V) (m : Message) : Prop :=
  ∃ (answers : List (Answer V)) (t : State V),
    (sys svc).MTr (s.only m) (.receive m :: answers.map (.run 0)) t ∧ s.invoked < t.invoked

/-- A brokered message would attempt the provider, or the reconciler selects the row once it is
old enough. -/
def CanProgress (svc : TemplateService V) (s : State V) : Prop :=
  (∃ m ∈ s.brokered, Attempts svc s m) ∨
    ∃ old, ∀ now, old < now → getPendingDeliveries 300 now s.row = true

def PC.isRefresh : PC V → Bool
  | .refresh _ _ => true
  | _ => false

/-- No execution dies, or loses its session to a database error, between its COMMIT of SENT and
the COMMIT of the outcome. -/
def KeepsClaim (s : State V) : Action V → Prop
  | .crash i => s.execs[i]?.all (fun e => !e.claims) = true
  | .run i (.raised _ usable) =>
    s.execs[i]?.all (fun e => !e.claims || (usable && e.pc.isRefresh)) = true
  | _ => True

instance (s : State V) : (a : Action V) → Decidable (KeepsClaim s a)
  | .crash _ | .run _ (.raised _ _) => inferInstanceAs (Decidable (_ = true))
  | .run _ .ok | .run _ (.notification _) | .run _ (.template _) | .run _ (.provider _) | .apiPublish
  | .reconcile _ | .requeueNotification _ _ | .requeuePublish _ | .receive _ | .ack _ | .redeliver _
  | .lose _ => isTrue trivial

/-- The execution claims the row and knows it to be SENT, so its next commit will leave SENT. -/
def PC.guards : PC V → Bool
  | .send _ d | .sending _ d => d.status = .sent
  | .refresh c _ => c.isSent
  | .select c d | .commit c d => c.settles && d.status = .sent
  | _ => false

def Exec.guards (e : Exec V) : Bool := e.alive && e.pc.guards

theorem claims_of_guards {p : PC V} (h : p.guards = true) : p.claims = true := by
  cases p <;> simp_all [PC.guards, PC.claims]

theorem toStatus_ne_sent {c : Call} (h : c.isSent = false) : c.update.toStatus ≠ .sent := by
  cases c <;> simp_all [Call.isSent, Call.update]

theorem guards_or {p q : PC V} (hkeep : p.guards = true → q.guards = true)
    (hrow : s.row.status = .sent) :
    q.guards = true ∨ (p.guards = false ∧ s.row.status = .sent) := by
  cases hp : p.guards with
  | true => exact Or.inl (hkeep hp)
  | false => exact Or.inr ⟨rfl, hrow⟩

/-- A SENT row after an operation has this execution as its guard, or had another. -/
theorem guard_edge {m : Message} {p q : PC V} {b : Answer V} {f : Effect}
    (h : Edge svc m s.row p b q f) (hp : p.SessionOk)
    (hk : ∀ err usable, b = .raised err usable → p.claims = true → usable = true ∧ p.isRefresh = true)
    (hsent : (s.apply f).row.status = .sent) :
    q.guards = true ∨ (p.guards = false ∧ s.row.status = .sent) := by
  cases h with
  | @committed c d =>
    cases hc : c.isSent with
    | true => exact Or.inl hc
    | false =>
      right
      have hne := toStatus_ne_sent hc
      rcases flush_status_cases c.update d s.row with hsame | ⟨_, hnew⟩
      · refine ⟨?_, hsame ▸ hsent⟩
        by_contra hg
        have hd : d.status = .sent := by simp_all [PC.guards]
        have hchanged := flush_status_changed s.row (hd ▸ hne : c.update.toStatus ≠ d.status)
        exact hne (hchanged.symm.trans hsent)
      · exact (hne (hnew.symm.trans hsent)).elim
  | @refreshed c d =>
    have hrow : s.row.status = .sent := hsent
    cases c <;> simp [Call.resume, PC.guards, Call.isSent, hrow]
  | @unrefreshed c d err usable =>
    have hrow : s.row.status = .sent := hsent
    cases c with
    | sent out =>
      have hu := (hk err usable rfl rfl).1
      have hd : d.status = .sent := hp
      simp [Call.rescue, hu, PC.guards, Call.settles, hd]
    | _ => exact Or.inr ⟨rfl, hrow⟩
  | selected | invoked => exact guards_or id hsent
  | succeeded | exception =>
    exact guards_or (fun h => by simpa [PC.guards, Call.settles] using h) hsent
  | providerError =>
    exact guards_or (fun h => by simpa [PC.guards, providerFailed_settles] using h) hsent
  | @raised p err usable hne =>
    right
    refine ⟨?_, hsent⟩
    by_contra hg
    have href := (hk err usable rfl (claims_of_guards (by simpa using hg))).2
    cases p <;> simp_all [PC.isRefresh]
  | _ => exact Or.inr ⟨rfl, hsent⟩

/-- A SENT row has an execution that will move it on. -/
def Guarded (s : State V) : Prop := s.row.status = .sent → 0 < s.execs.countP Exec.guards

theorem guarded_step (h : Step svc s a t) (hs : SessionsOk s) (hk : KeepsClaim s a)
    (hg : Guarded s) : Guarded t := by
  intro hsent
  cases moves_step (p := Exec.guards) (fun _ => rfl) h with
  | still hledger hall | receive _ hledger hall =>
    obtain ⟨hrow, _⟩ := Ledger.mk.inj hledger
    have hle : s.execs.countP Exec.guards ≤ t.execs.countP Exec.guards := hall.ge
    exact (hg (hrow ▸ hsent)).trans_le hle
  | @run i e b q f hrun he ha hedge hledger hall =>
    subst hrun
    obtain ⟨hnew, _⟩ := Ledger.mk.inj hledger
    have hkeep : ∀ err usable, b = .raised err usable → e.pc.claims = true →
        usable = true ∧ e.pc.isRefresh = true := by
      rintro err usable rfl hc
      simpa [KeepsClaim, he, Exec.claims, ha, hc] using hk
    have hmem := List.mem_of_getElem? he
    rcases guard_edge hedge (hs _ hmem) hkeep (hnew ▸ hsent) with hq | ⟨hp, hrow⟩
    · have hguards : Exec.guards { e with pc := q } = true := by simp [Exec.guards, ha, hq]
      have hle := Pool.toNat_le_countP (p := Exec.guards) he
      rw [hguards, Bool.toNat_true] at hall
      omega
    · have hpos := hg hrow
      have hold : e.guards = false := by simp [Exec.guards, hp]
      rw [hold, Bool.toNat_false] at hall
      omega
  | @crash i e hcrash he hledger hall =>
    subst hcrash
    obtain ⟨hrow, _⟩ := Ledger.mk.inj hledger
    have hold : e.guards = false := by
      by_contra hn
      have hc : e.alive = true ∧ e.pc.claims = true := by
        simp only [Exec.guards, Bool.not_eq_false, Bool.and_eq_true] at hn
        exact ⟨hn.1, claims_of_guards hn.2⟩
      simp [KeepsClaim, he, Exec.claims, hc] at hk
    have hpos := hg (hrow ▸ hsent)
    rw [hold, Bool.toNat_false] at hall
    omega

theorem live_of_guards {e : Exec V} (h : e.guards = true) : e.live = true := by
  simp only [Exec.guards, Bool.and_eq_true] at h
  obtain ⟨ha, hp⟩ := h
  cases hpc : e.pc <;> simp_all [Exec.live, PC.isFinished, PC.guards]

/-- In every run that keeps its claims, a delivery at rest is terminal or PENDING. -/
theorem rest_not_sent {ch : Channel} {now : ℤ} {p : Priority}
    (h : ((sys svc).restrict KeepsClaim).MTr (initial ch now p) xs s)
    (hrest : ∀ e ∈ s.execs, e.live = false) : s.row.status ≠ .sent := by
  have hinv : ((sys svc).restrict KeepsClaim).TrInv (fun s => SessionsOk s ∧ Guarded s) := by
    rintro s a t ⟨hk, hstep⟩ ⟨hs, hg⟩
    exact ⟨sessionsOk_step (sys_step hstep) hs, guarded_step (sys_step hstep) hs hk hg⟩
  have hstart : Guarded (initial ch now p : State V) := by
    intro hsent
    cases hsent
  obtain ⟨_, hg⟩ := LTS.mtrInv_of_trInv hinv h ⟨sessionsOk_initial, hstart⟩
  intro hsent
  obtain ⟨e, he, hguards⟩ := List.countP_pos_iff.mp (hg hsent)
  have hlive := live_of_guards hguards
  simp [hrest e he] at hlive

/-- So no such delivery is stranded. -/
theorem rest_can_progress {ch : Channel} {now : ℤ} {p : Priority}
    (h : ((sys svc).restrict KeepsClaim).MTr (initial ch now p) xs s)
    (hrest : ∀ e ∈ s.execs, e.live = false) (ht : s.row.status.terminal = false) :
    CanProgress svc s ∧ s.row.status ≠ .sent := by
  have hne := rest_not_sent h hrest
  refine ⟨Or.inr (getPendingDeliveries_eventually 300 ?_), hne⟩
  cases hs : s.row.status <;> simp_all [Status.terminal]

/-- The worker dies before SENT is committed, and its message is lost. -/
def earlyCrashRun : List (Action Unit) :=
  [.apiPublish, .receive otpMessage] ++ loadSteps 0 ++ [.crash 0, .lose 0]

theorem rest_can_progress_crashed : ∃ s,
    ((sys plainText).restrict KeepsClaim).MTr otpDelivery earlyCrashRun s ∧
    s.row.status = .pending ∧ s.brokered = [] ∧ CanProgress plainText s ∧ s.row.status ≠ .sent := by
  have hrun : (LTS.run (LTS.guarded KeepsClaim (step plainText)) otpDelivery earlyCrashRun).map
      (fun s => (s.row.status, s.brokered, s.execs.all (!·.live))) = some (.pending, [], true) := by
    decide
  obtain ⟨s, h, he⟩ := LTS.exists_mTr_guarded hrun
  simp only [Prod.mk.injEq, List.all_eq_true, Bool.not_eq_true'] at he
  obtain ⟨hrow, hbrokered, hrest⟩ := he
  exact ⟨s, h, hrow, hbrokered, rest_can_progress h hrest (by rw [hrow]; rfl)⟩

/-! ### The window -/

/-- Only fresh executions run, and the status check will stop them. -/
def Stranded (s : State V) : Prop :=
  s.row.status ≠ .pending ∧ ∀ e ∈ s.execs, e.live = true → e.pc = .getDelivery

/-- What can be taken from a row that is not PENDING without touching it or the provider. -/
theorem stranded_edge {m : Message} {row : Delivery} {p q : PC V} {b : Answer V} {f : Effect}
    (h : Edge svc m row p b q f) (hrow : row.status ≠ .pending)
    (hp : p.isFinished = true ∨ p = .getDelivery) : q.isFinished = true ∧ f = .none := by
  rcases hp with hp | rfl
  · cases h <;> simp_all [PC.isFinished]
  · cases h with
    | skip | raised => exact ⟨rfl, rfl⟩
    | load hpending => exact (hrow hpending).elim

theorem stranded_step (h : Step svc s a t) (hs : Stranded s) :
    Stranded t ∧ t.row = s.row ∧ t.invoked = s.invoked := by
  obtain ⟨hrow, hexecs⟩ := hs
  cases h with
  | apiPublish | reconcile | requeueNotification | requeuePublish =>
    exact ⟨⟨hrow, hexecs⟩, rfl, rfl⟩
  | receive => exact ⟨⟨hrow, Pool.forall_concat hexecs fun _ => rfl⟩, rfl, rfl⟩
  | @run i e b q f he ha hedge =>
    have hmem := List.mem_of_getElem? he
    have hp : e.pc.isFinished = true ∨ e.pc = .getDelivery := by
      cases hfin : e.pc.isFinished with
      | true => exact Or.inl rfl
      | false => exact Or.inr (hexecs e hmem (by simp [Exec.live, ha, hfin]))
    obtain ⟨hq, rfl⟩ := stranded_edge hedge hrow hp
    refine ⟨⟨hrow, Pool.forall_set hexecs ?_⟩, rfl, rfl⟩
    intro hlive
    simp [Exec.live, hq] at hlive
  | crash he =>
    refine ⟨⟨hrow, Pool.forall_set hexecs ?_⟩, rfl, rfl⟩
    intro hlive
    simp [Exec.live] at hlive
  | ack he | redeliver he | lose he =>
    have hold := hexecs _ (List.mem_of_getElem? he)
    exact ⟨⟨hrow, Pool.forall_set hexecs hold⟩, rfl, rfl⟩

/-- A SENT row at rest stays as it is, and the provider is not called again, whatever follows. -/
theorem stranded_run (hs : Stranded s) (h : (sys svc).MTr s ys t) :
    t.row = s.row ∧ t.invoked = s.invoked := by
  induction h with
  | refl => exact ⟨rfl, rfl⟩
  | stepL hstep _ ih =>
    obtain ⟨hu, hrow, hinvoked⟩ := stranded_step (sys_step hstep) hs
    obtain ⟨hrow', hinvoked'⟩ := ih hu
    exact ⟨hrow'.trans hrow, hinvoked'.trans hinvoked⟩

theorem not_attempts (h : s.row.status ≠ .pending) (m : Message) : ¬ Attempts svc s m := by
  rintro ⟨answers, t, hrun, hlt⟩
  have hstranded : Stranded (s.only m) := ⟨h, by simp [State.only]⟩
  have heq : t.invoked = s.invoked := (stranded_run hstranded hrun).2
  omega

/-- A SENT row at rest can make no progress. -/
theorem sent_cannot_progress (h : s.row.status = .sent) : ¬ CanProgress svc s := by
  rintro (⟨m, _, hm⟩ | ⟨old, hold⟩)
  · exact not_attempts (by simp [h]) m hm
  · have hselected := getPendingDeliveries_pending (hold (old + 1) (by omega))
    simp [h] at hselected

/-- The worker dies between the COMMIT of SENT and the call of the provider; the broker delivers
its message again. -/
def sentCrashRun : List (Action Unit) :=
  [.apiPublish, .receive otpMessage] ++ loadSteps 0 ++ [.run 0 .ok, .run 0 .ok, .crash 0,
    .redeliver 0]

theorem stranded_in_sent : ¬ ∀ xs s, (sys plainText).MTr otpDelivery xs s →
    (∀ e ∈ s.execs, e.live = false) → s.row.status.terminal = false →
      CanProgress plainText s ∧ s.row.status ≠ .sent := by
  intro h
  have hrun : (LTS.run (step plainText) otpDelivery sentCrashRun).map
      (fun s => (s.row.status, s.execs.all (!·.live))) = some (.sent, true) := by decide
  obtain ⟨s, hs, he⟩ := LTS.exists_mTr hrun
  simp only [Prod.mk.injEq, List.all_eq_true, Bool.not_eq_true'] at he
  obtain ⟨hrow, hrest⟩ := he
  have hprogress := h sentCrashRun s hs hrest (by rw [hrow]; rfl)
  exact sent_cannot_progress hrow hprogress.1

end NotificationService.Worker
