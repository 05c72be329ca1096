import NotificationService.Worker.AuditTrail
import NotificationService.Worker.Budget

/-! What the row and its log are evidence of, in every interleaving: each provider call is announced
in the log, each DELIVERED is a successful call, and each failure carries its reason. -/
namespace NotificationService.Worker

open Transition

variable {V : Type} {svc : TemplateService V} {s t : State V} {a : Action V} {xs : List (Action V)}

/-- SENT is committed and its provider call has still to be made. -/
def PC.announced : PC V → Bool
  | .refresh c _ => c.isSent
  | .send _ _ => true
  | _ => false

def PC.inCall : PC V → Bool
  | .sending _ _ => true
  | _ => false

def Call.isDelivered : Call → Bool
  | .delivered => true
  | _ => false

/-- The provider has succeeded and DELIVERED has still to be committed. -/
def PC.succeeded : PC V → Bool
  | .select c _ | .commit c _ => c.isDelivered
  | _ => false

/-! ### The balance of two counts -/

/-- What the counts of a state depend on. -/
structure Books where
  ledger : Ledger
  logs : List StatusLog

def State.books (s : State V) : Books := ⟨s.ledger, s.logs⟩

/-- How many entries of the log lead to this status. -/
def Books.entries (b : Books) (st : Status) : ℕ := b.logs.countP (·.toStatus = st)

def State.entries (s : State V) (st : Status) : ℕ := s.books.entries st

theorem countP_set_pc {p : PC V → Bool} {l : List (Exec V)} {i : ℕ} {e : Exec V}
    (he : l[i]? = some e) (held alive : Bool) :
    (l.set i { e with held := held, alive := alive }).countP (fun e => p e.pc) =
      l.countP fun e => p e.pc :=
  Pool.countP_set_eq he rfl

/-- Rule: where each operation of an execution keeps the balance of two counts and of the executions
in one phase, every step does. -/
theorem balance_step {x y : Books → ℕ} {f g : Effect → ℕ} {p : PC V → Bool}
    (hnew : p .getDelivery = false) (hx : ∀ u, x (s.apply u).books = x s.books + f u)
    (hy : ∀ u, y (s.apply u).books = y s.books + g u)
    (hedge : ∀ m p₀ q b u, Edge svc m s.row p₀ b q u → f u + (p q).toNat ≤ (p p₀).toNat + g u)
    (h : Step svc s a t) (hs : x s.books + s.execs.countP (fun e => p e.pc) ≤ y s.books) :
    x t.books + t.execs.countP (fun e => p e.pc) ≤ y t.books := by
  cases h with
  | apiPublish | reconcile | requeueNotification | requeuePublish => exact hs
  | receive =>
    rw [List.countP_append, List.countP_singleton, if_neg (by simp [hnew])]
    exact hs
  | @run i e b q u he ha hrun =>
    have hone := hedge _ _ _ _ _ hrun
    have hset := Pool.countP_set (p := fun e : Exec V => p e.pc) (a := { e with pc := q }) he
    have hbooks : ((s.apply u).setExec i { e with pc := q }).books = (s.apply u).books := rfl
    rw [hbooks, hx, hy, setExec_execs, apply_execs]
    dsimp only at hset
    omega
  | crash he | ack he | lose he =>
    rw [setExec_execs, countP_set_pc he]
    exact hs
  | redeliver he =>
    rw [setExec_execs, apply_execs, countP_set_pc he]
    exact hs

/-! ### Announced, called, succeeded, recorded -/

@[simp] theorem resume_announced (d : Delivery) (c : Call) :
    (c.resume d : PC V).announced = c.isSent := by
  cases c <;> rfl

@[simp] theorem rescue_announced (err : String) (usable : Bool) (d : Delivery) (c : Call) :
    (c.rescue err usable d : PC V).announced = false := by
  cases c <;> cases usable <;> rfl

@[simp] theorem resume_inCall (d : Delivery) (c : Call) : (c.resume d : PC V).inCall = false := by
  cases c <;> rfl

@[simp] theorem rescue_inCall (err : String) (usable : Bool) (d : Delivery) (c : Call) :
    (c.rescue err usable d : PC V).inCall = false := by
  cases c <;> cases usable <;> rfl

@[simp] theorem resume_succeeded (d : Delivery) (c : Call) :
    (c.resume d : PC V).succeeded = false := by
  cases c <;> rfl

@[simp] theorem rescue_succeeded (err : String) (usable : Bool) (d : Delivery) (c : Call) :
    (c.rescue err usable d : PC V).succeeded = false := by
  cases c <;> cases usable <;> rfl

theorem isSent_iff (c : Call) : c.isSent = decide (c.update.toStatus = .sent) := by
  cases c <;> rfl

theorem isDelivered_iff (c : Call) : c.isDelivered = decide (c.update.toStatus = .delivered) := by
  cases c <;> rfl

theorem isDelivered_of_isFirst {c : Call} (h : c.isFirst = true) : c.isDelivered = false := by
  cases c <;> simp_all [Call.isFirst, Call.isDelivered]

theorem providerFailed_isDelivered (r : ℕ) (err : String) :
    (providerFailed r err).isDelivered = false := by
  unfold providerFailed
  split <;> rfl

/-- What an effect adds to the entries of a status, to the provider calls and to their successes. -/
def Effect.entry (st : Status) : Effect → ℕ
  | .commit c _ => (decide (c.update.toStatus = st)).toNat
  | _ => 0

def Effect.calls : Effect → ℕ
  | .invoked => 1
  | _ => 0

def Effect.successes : Effect → ℕ
  | .succeeded => 1
  | _ => 0

theorem entries_apply (s : State V) (st : Status) (f : Effect) :
    (s.apply f).entries st = s.entries st + f.entry st := by
  cases f with
  | commit c d =>
    simp only [State.entries, State.books, Books.entries, State.apply, List.countP_append,
      List.countP_singleton, Update.log, Effect.entry]
    by_cases h : c.update.toStatus = st <;> simp [h]
  | _ => rfl

theorem invoked_apply (s : State V) (f : Effect) : (s.apply f).invoked = s.invoked + f.calls := by
  cases f <;> rfl

theorem succeeded_apply (s : State V) (f : Effect) :
    (s.apply f).succeeded = s.succeeded + f.successes := by
  cases f <;> rfl

theorem announced_edge {m : Message} {row : Delivery} {p q : PC V} {b : Answer V} {f : Effect}
    (h : Edge svc m row p b q f) :
    f.calls + q.announced.toNat ≤ p.announced.toNat + f.entry .sent := by
  cases h with
  | committed => simp [PC.announced, Effect.calls, Effect.entry, isSent_iff]
  | refreshed =>
    rw [resume_announced]
    exact (Nat.zero_add _).le
  | unrefreshed => simp [Effect.calls]
  | _ => simp [PC.announced, Effect.calls]

theorem called_edge {m : Message} {row : Delivery} {p q : PC V} {b : Answer V} {f : Effect}
    (h : Edge svc m row p b q f) : f.successes + q.inCall.toNat ≤ p.inCall.toNat + f.calls := by
  cases h with
  | refreshed | unrefreshed => simp [Effect.successes]
  | _ => simp [PC.inCall, Effect.successes, Effect.calls]

theorem entered_edge {m : Message} {row : Delivery} {p q : PC V} {b : Answer V} {f : Effect}
    (h : Edge svc m row p b q f) :
    f.entry .delivered + q.succeeded.toNat ≤ p.succeeded.toNat + f.successes := by
  cases h with
  | committed => simp [PC.succeeded, Effect.entry, isDelivered_iff]
  | @noTemplate d n =>
    simp [PC.succeeded, Effect.entry, isDelivered_of_isFirst (prepare_isFirst svc d n none)]
  | @prepared d n t =>
    simp [PC.succeeded, Effect.entry, isDelivered_of_isFirst (prepare_isFirst svc d n t)]
  | providerError => simp [PC.succeeded, Effect.entry, providerFailed_isDelivered]
  | refreshed | unrefreshed => simp [Effect.entry]
  | _ => simp [PC.succeeded, Effect.entry, Effect.successes, Call.isDelivered]

/-- The provider calls made and about to be made are all announced, each success is one of them, and
each DELIVERED recorded or about to be is one of the successes. -/
structure Accounts (s : State V) : Prop where
  announced : s.invoked + s.execs.countP (·.pc.announced) ≤ s.entries .sent
  called : s.succeeded + s.execs.countP (·.pc.inCall) ≤ s.invoked
  recorded : s.entries .delivered + s.execs.countP (·.pc.succeeded) ≤ s.succeeded

theorem accounts_step (h : Step svc s a t) (hs : Accounts s) : Accounts t := by
  obtain ⟨hannounced, hcalled, hrecorded⟩ := hs
  exact ⟨
    balance_step (x := (·.ledger.invoked)) (y := (·.entries .sent)) rfl (invoked_apply s)
      (entries_apply s .sent) (fun _ _ _ _ _ => announced_edge) h hannounced,
    balance_step (x := (·.ledger.succeeded)) (y := (·.ledger.invoked)) rfl (succeeded_apply s)
      (invoked_apply s) (fun _ _ _ _ _ => called_edge) h hcalled,
    balance_step (x := (·.entries .delivered)) (y := (·.ledger.succeeded)) rfl
      (entries_apply s .delivered) (succeeded_apply s) (fun _ _ _ _ _ => entered_edge) h hrecorded⟩

theorem accounts_initial {ch : Channel} {now : ℤ} {p : Priority} :
    Accounts (initial ch now p : State V) := by
  constructor <;> simp [initial, State.entries, State.books, Books.entries, createDelivery]

/-! ### The status and its reason -/

/-- The committed status is in the log. -/
def Logged (s : State V) : Prop := ∃ l ∈ s.logs, l.toStatus = s.row.status

theorem logged_step (h : Step svc s a t) (hs : Logged s) : Logged t := by
  obtain ⟨l, hl, hstatus⟩ := hs
  rcases logs_step h with ⟨_, hrow, hlogs⟩ | ⟨c, d, _, hrow, hlogs⟩
  · exact ⟨l, by rw [hlogs]; exact hl, by rw [hrow]; exact hstatus⟩
  · rcases flush_status_cases c.update d s.row with hsame | ⟨_, hnew⟩
    · refine ⟨l, ?_, by rw [hrow, hsame]; exact hstatus⟩
      rw [hlogs]
      exact List.mem_append_left _ hl
    · refine ⟨c.update.log d, ?_, by rw [hrow, hnew]; rfl⟩
      rw [hlogs]
      exact List.mem_append_right _ (List.mem_singleton_self _)

/-- The text is one that a failing call writes. -/
def Reason (text : String) : Prop := ∃ c : Call, c.update.errorMessage = some text

/-- A row that has failed, or failed and been retried, says why. -/
structure Explained (d : Delivery) : Prop where
  reason : ∀ text, d.errorMessage = some text → Reason text
  failed : d.status = .failed ∨ 0 < d.retryCount → d.errorMessage.isSome = true

/-- No session has a reason that the row has not, and each reason is a call's. -/
structure Explains (s : State V) : Prop where
  row : Explained s.row
  sessions : ∀ e ∈ s.execs, ∀ d, e.pc.copy = some d → d.errorMessage.isSome = true →
    s.row.errorMessage.isSome = true

theorem errorMessage_of_failing {c : Call}
    (h : c.update.toStatus = .failed ∨ c.update.incrementRetry = true) :
    c.update.errorMessage.isSome = true := by
  cases c <;> simp_all [Call.update]

/-- A commit leaves the row with its reason, or writes that of the call. -/
theorem flush_errorMessage (c : Call) (d row : Delivery) :
    (flush d (c.update.assign d) row).errorMessage = row.errorMessage ∨
      c.update.errorMessage.isSome = true ∧
        (flush d (c.update.assign d) row).errorMessage = c.update.errorMessage := by
  cases hc : c.update.errorMessage with
  | none => exact Or.inl (by simp [flush, Update.assign, hc])
  | some text =>
    have hassign : (c.update.assign d).errorMessage = some text := by simp [Update.assign, hc]
    refine UnitOfWork.writeBack_cases.imp id ?_
    rintro ⟨_, hnew⟩
    exact ⟨rfl, hnew.trans hassign⟩

/-- No commit clears a reason. -/
theorem flush_keeps_reason (c : Call) {d row : Delivery} (h : row.errorMessage.isSome = true) :
    (flush d (c.update.assign d) row).errorMessage.isSome = true := by
  rcases flush_errorMessage c d row with hsame | ⟨hsome, hnew⟩
  · rw [hsame, h]
  · rw [hnew, hsome]

/-- A failing call leaves a reason, its own or the one that the session has seen. -/
theorem flush_leaves_reason {c : Call} {d row : Delivery}
    (hc : c.update.errorMessage.isSome = true)
    (hcopy : d.errorMessage.isSome = true → row.errorMessage.isSome = true) :
    (flush d (c.update.assign d) row).errorMessage.isSome = true := by
  obtain ⟨text, htext⟩ := Option.isSome_iff_exists.mp hc
  have hassign : (c.update.assign d).errorMessage = some text := by simp [Update.assign, htext]
  by_cases hsame : (c.update.assign d).errorMessage = d.errorMessage
  · exact flush_keeps_reason c (hcopy (by rw [← hsame, hassign]; rfl))
  · have hnew : (flush d (c.update.assign d) row).errorMessage = some text :=
      (UnitOfWork.writeBack_changed hsame).trans hassign
    rw [hnew]
    rfl

theorem explained_commit {c : Call} {d row : Delivery} (hrow : Explained row)
    (hcopy : d.errorMessage.isSome = true → row.errorMessage.isSome = true) :
    Explained (flush d (c.update.assign d) row) := by
  constructor
  · intro text ht
    rcases flush_errorMessage c d row with hsame | ⟨_, hnew⟩
    · exact hrow.reason text (hsame.symm.trans ht)
    · exact ⟨c, hnew.symm.trans ht⟩
  · rintro (hstatus | hcount)
    · rcases flush_status_cases c.update d row with hsame | ⟨_, hnew⟩
      · exact flush_keeps_reason c (hrow.failed (Or.inl (hsame.symm.trans hstatus)))
      · have hfailed : c.update.toStatus = .failed := hnew.symm.trans hstatus
        exact flush_leaves_reason (errorMessage_of_failing (Or.inl hfailed)) hcopy
    · rw [flush_retryCount] at hcount
      cases hc : c.update.incrementRetry with
      | true => exact flush_leaves_reason (errorMessage_of_failing (Or.inr hc)) hcopy
      | false => exact flush_keeps_reason c (hrow.failed (Or.inr (by simpa [hc] using hcount)))

theorem explained_edge {m : Message} {p q : PC V} {b : Answer V} {f : Effect}
    (h : Edge svc m s.row p b q f) (hrow : Explained s.row)
    (hp : ∀ d, p.copy = some d → d.errorMessage.isSome = true → s.row.errorMessage.isSome = true) :
    Explained (s.apply f).row ∧
      (s.row.errorMessage.isSome = true → (s.apply f).row.errorMessage.isSome = true) ∧
      ∀ d, q.copy = some d → d.errorMessage.isSome = true →
        (s.apply f).row.errorMessage.isSome = true := by
  cases h with
  | @committed c d =>
    have hcopy := hp d rfl
    refine ⟨explained_commit hrow hcopy, flush_keeps_reason c, ?_⟩
    rintro _ ⟨⟩ hsome
    cases hc : c.update.errorMessage.isSome with
    | true => exact flush_leaves_reason hc hcopy
    | false =>
      have hsame : (c.update.assign d).errorMessage = d.errorMessage := by
        simp [Update.assign, hc]
      exact flush_keeps_reason c (hcopy (hsame ▸ hsome))
  | load =>
    refine ⟨hrow, id, ?_⟩
    rintro _ ⟨⟩ hsome
    exact hsome
  | @refreshed c =>
    refine ⟨hrow, id, ?_⟩
    intro d hd hsome
    cases c <;> cases hd
    exact hsome
  | @unrefreshed c d err usable =>
    refine ⟨hrow, id, ?_⟩
    cases c <;> cases usable <;> rintro _ ⟨⟩ hsome <;> exact hp _ rfl hsome
  | skip | noNotification | retried | raised => exact ⟨hrow, id, fun d hd => by cases hd⟩
  | _ => exact ⟨hrow, id, hp⟩

theorem explains_step (h : Step svc s a t) (hs : Explains s) : Explains t := by
  obtain ⟨hrow, hsess⟩ := hs
  have hkeep : Explained t.row ∧
      (s.row.errorMessage.isSome = true → t.row.errorMessage.isSome = true) := by
    cases h with
    | run he _ hedge =>
      obtain ⟨hnew, hmono, _⟩ := explained_edge hedge hrow (hsess _ (List.mem_of_getElem? he))
      exact ⟨hnew, hmono⟩
    | _ => exact ⟨hrow, id⟩
  refine ⟨hkeep.1, ?_⟩
  refine eachSession_step (P := fun _ p => ∀ d, p.copy = some d → d.errorMessage.isSome = true →
    t.row.errorMessage.isSome = true) h ?_ (fun _ _ _ => nofun) ?_
  · exact fun e he d hd hsome => hkeep.2 (hsess e he d hd hsome)
  · rintro i e b q f he hedge rfl
    exact (explained_edge hedge hrow (hsess e he)).2.2

theorem explains_initial {ch : Channel} {now : ℤ} {p : Priority} :
    Explains (initial ch now p : State V) := by
  constructor
  · constructor <;> simp [initial, createDelivery]
  · simp [initial]

/-- However the executions interleave, every DELIVERED in the log is a call that succeeded, every
call was announced by a SENT, and a DELIVERED row is backed by a success. -/
theorem log_accounts {ch : Channel} {now : ℤ} {p : Priority}
    (h : (sys svc).MTr (initial ch now p) xs s) :
    s.entries .delivered ≤ s.succeeded ∧ s.succeeded ≤ s.invoked ∧ s.invoked ≤ s.entries .sent ∧
      (s.row.status = .delivered → 0 < s.succeeded) := by
  have hinv : (sys svc).TrInv fun s => Accounts s ∧ Logged s := by
    rintro s a t hstep ⟨hs, hlogged⟩
    exact ⟨accounts_step (sys_step hstep) hs, logged_step (sys_step hstep) hlogged⟩
  obtain ⟨⟨hannounced, hcalled, hrecorded⟩, l, hl, hstatus⟩ :=
    LTS.mtrInv_of_trInv hinv h ⟨accounts_initial, _, List.mem_singleton_self _, rfl⟩
  refine ⟨by omega, by omega, by omega, ?_⟩
  intro hdelivered
  have hpos : 0 < s.entries .delivered :=
    List.countP_pos_iff.mpr ⟨l, hl, by simp [hstatus, hdelivered]⟩
  omega

theorem log_accounts_duplicate : ∃ s, (sys plainText).MTr otpDelivery duplicateRun s ∧
    s.row.status = .delivered ∧ s.entries .delivered ≤ s.succeeded ∧ 0 < s.succeeded := by
  have hrun : (LTS.run (step plainText) otpDelivery duplicateRun).map (·.row.status) =
      some .delivered := by decide
  obtain ⟨s, h, hstatus⟩ := LTS.exists_mTr hrun
  obtain ⟨hle, _, _, hpos⟩ := log_accounts h
  exact ⟨s, h, hstatus, hle, hpos hstatus⟩

end NotificationService.Worker
