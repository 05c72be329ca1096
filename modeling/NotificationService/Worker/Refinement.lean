import NotificationService.Worker.Absorption
import NotificationService.Worker.Budget

/-! The documented state machine of a delivery, and its refinement by executions that do not
overlap. -/
namespace NotificationService.Worker

open Transition

variable {V : Type} {svc : TemplateService V} {s t : State V} {a : Action V} {xs : List (Action V)}

/-! ### The documented machine -/

/-- A delivery as the documentation sees it: its status, the provider's successes and the
provider errors handled so far. -/
structure Documented where
  status : Status
  succeeded : ℕ
  handled : ℕ
  deriving DecidableEq

inductive Event where
  | claim | reject | accept | deliver | backOff | exhaust | abort
  deriving DecidableEq

inductive Documented.Tr : Documented → Event → Documented → Prop where
  | claim {n r : ℕ} : Tr ⟨.pending, n, r⟩ .claim ⟨.sent, n, r⟩
  | reject {n r : ℕ} : Tr ⟨.pending, n, r⟩ .reject ⟨.failed, n, r⟩
  | accept {r : ℕ} : Tr ⟨.sent, 0, r⟩ .accept ⟨.sent, 1, r⟩
  | deliver {r : ℕ} : Tr ⟨.sent, 1, r⟩ .deliver ⟨.delivered, 1, r⟩
  | backOff {r : ℕ} : Tr ⟨.sent, 0, r⟩ .backOff ⟨.pending, 0, r + 1⟩
  | exhaust {r : ℕ} : Tr ⟨.sent, 0, r⟩ .exhaust ⟨.failed, 0, r + 1⟩
  | abort {r : ℕ} : Tr ⟨.sent, 0, r⟩ .abort ⟨.failed, 0, r⟩

def documented : LTS Documented Event := ⟨Documented.Tr⟩

/-- The documented status changes. -/
def Status.changes : List (Status × Status) :=
  [(.pending, .sent), (.sent, .delivered), (.sent, .pending), (.sent, .failed), (.pending, .failed)]

/-- A status tells how often the provider has succeeded; only SENT leaves it open. -/
structure Documented.Consistent (x : Documented) : Prop where
  once : x.succeeded ≤ 1
  delivered : x.status = .delivered → x.succeeded = 1
  never : x.status = .pending ∨ x.status = .failed → x.succeeded = 0

theorem consistent_step : documented.TrInv Documented.Consistent := by
  intro x e y h hx
  obtain ⟨honce, _, hnever⟩ := hx
  cases h with
  | claim => exact ⟨honce, nofun, nofun⟩
  | reject =>
    have hzero := hnever (Or.inl rfl)
    exact ⟨honce, nofun, fun _ => hzero⟩
  | accept => exact ⟨le_rfl, nofun, nofun⟩
  | deliver => exact ⟨le_rfl, fun _ => rfl, nofun⟩
  | backOff | exhaust | abort => exact ⟨Nat.zero_le _, nofun, fun _ => rfl⟩

theorem changes_step {x y : Documented} {e : Event} (h : documented.Tr x e y) :
    y.status = x.status ∨ (x.status, y.status) ∈ Status.changes := by
  cases h with
  | accept => exact Or.inl rfl
  | _ => exact Or.inr (by simp [Status.changes])

/-! ### Executions that do not overlap -/

theorem providerFailed_ne_delivered (r : ℕ) (err : String) : providerFailed r err ≠ .delivered := by
  unfold providerFailed
  split <;> nofun

def PC.isRetry : PC V → Bool
  | .retry => true
  | _ => false

/-- Database operations do not fail; the publication of a retry may. -/
def DatabaseOk (s : State V) : Action V → Prop
  | .run i (.raised _ _) => s.execs[i]?.all (·.pc.isRetry) = true
  | _ => True

instance (s : State V) : (a : Action V) → Decidable (DatabaseOk s a)
  | .run _ (.raised _ _) => inferInstanceAs (Decidable (_ = true))
  | .run _ .ok | .run _ (.notification _) | .run _ (.template _) | .run _ (.provider _) | .apiPublish
  | .reconcile _ | .requeueNotification _ _ | .requeuePublish _ | .receive _ | .crash _ | .ack _
  | .redeliver _ | .lose _ => isTrue trivial

def Serial (s : State V) (a : Action V) : Prop := NonOverlapping s a ∧ DatabaseOk s a

instance (s : State V) (a : Action V) : Decidable (Serial s a) :=
  inferInstanceAs (Decidable (_ ∧ _))

/-- At most one execution lives. -/
def OneLive (s : State V) : Prop := s.execs.countP Exec.live ≤ 1

theorem isFinished_edge {m : Message} {row : Delivery} {p q : PC V} {b : Answer V} {f : Effect}
    (h : Edge svc m row p b q f) (hp : p.isFinished = true) : q.isFinished = true := by
  cases h with
  | raised => rfl
  | _ => cases hp

theorem oneLive_step (h : Step svc s a t) (hn : NonOverlapping s a) (hone : OneLive s) :
    OneLive t := by
  unfold OneLive at hone ⊢
  cases moves_step (p := Exec.live) (fun _ => rfl) h with
  | still _ hall => exact hall.trans_le hone
  | receive hm _ hall =>
    subst hm
    have hzero : s.execs.countP Exec.live = 0 := by
      simpa [NonOverlapping, List.countP_eq_zero] using hn
    rw [hall, hzero]
    exact Nat.le_of_eq rfl
  | @run i e b q f _ _ ha hedge _ hall =>
    have hle : (Exec.live { e with pc := q }).toNat ≤ e.live.toNat := by
      cases hp : e.pc.isFinished with
      | true => simp [Exec.live, hp, isFinished_edge hedge hp]
      | false => simpa [Exec.live, ha, hp] using Bool.toNat_le _
    omega
  | @crash i e _ _ _ hall =>
    have hdead : Exec.live { e with alive := false } = false := by simp [Exec.live]
    rw [hdead, Bool.toNat_false] at hall
    omega

theorem live_of_engaged {e : Exec V} (h : e.engaged = true) : e.live = true := by
  simp only [Exec.engaged, Bool.and_eq_true] at h
  obtain ⟨ha, hp⟩ := h
  cases hpc : e.pc <;> simp_all [Exec.live, PC.isFinished, PC.engaged, PC.copy]

theorem apart_of_oneLive (h : Step svc s a t) (hone : OneLive s) : Apart s a := by
  cases h with
  | @run i e b q f he ha hedge =>
    intro hpass
    have hpc : e.pc = .getDelivery := by
      cases b <;> simp [State.passes, he] at hpass
      split at hpass <;> simp_all
    have hold : e.live = true := by simp [Exec.live, ha, hpc, PC.isFinished]
    have hnew : Exec.live { e with alive := false } = false := by simp [Exec.live]
    have hlive := Pool.countP_set (a := { e with alive := false }) (p := Exec.live) he
    have hengaged := Pool.countP_set_eq (a := { e with alive := false }) (p := Exec.engaged) he
      (by simp [Exec.engaged, hpc, PC.engaged, PC.copy])
    have hle : (s.execs.set i { e with alive := false }).countP Exec.engaged ≤
        (s.execs.set i { e with alive := false }).countP Exec.live :=
      List.countP_mono_left fun _ _ hx => live_of_engaged hx
    rw [hold, hnew, Bool.toNat_true, Bool.toNat_false] at hlive
    unfold OneLive at hone
    omega
  | _ =>
    intro hpass
    cases hpass

/-! ### The refinement -/

def State.documented (s : State V) : Documented := ⟨s.row.status, s.succeeded, s.row.retryCount⟩

/-- What the row and the history show while an execution stands at this point. -/
def PC.Recorded (l : Ledger) : PC V → Prop
  | .getNotification _ | .getTemplate _ _ => l.row.status = .pending ∧ l.succeeded = 0
  | .select c _ | .commit c _ =>
    (c.isFirst = true ∧ l.row.status = .pending ∧ l.succeeded = 0) ∨
      (c.settles = true ∧ l.row.status = .sent ∧ l.succeeded = if c = .delivered then 1 else 0)
  | .refresh c _ => c.isSent = true → l.row.status = .sent ∧ l.succeeded = 0
  | .send _ _ | .sending _ _ => l.row.status = .sent ∧ l.succeeded = 0
  | _ => True

theorem recorded_edge {m : Message} {p q : PC V} {b : Answer V} {f : Effect}
    (h : Edge svc m s.row p b q f) (hdb : ∀ err usable, b = .raised err usable → p.isRetry = true)
    (hsync : p.engaged = true → p.copy = some s.row) (hcons : s.documented.Consistent)
    (hp : p.engaged = true → p.Recorded s.ledger) : q.Recorded (s.apply f).ledger := by
  cases h with
  | load hrow => exact ⟨hrow, hcons.never (Or.inl hrow)⟩
  | notification => exact hp rfl
  | noTemplate | prepared => exact Or.inl ⟨prepare_isFirst svc _ _ _, hp rfl⟩
  | selected => exact hp rfl
  | @committed c d =>
    intro hsent
    obtain rfl := commit_synced hsync
    rw [ledger_commit]
    cases c with
    | sent out =>
      rcases hp rfl with ⟨_, _, hzero⟩ | ⟨hset, _⟩
      · exact ⟨rfl, hzero⟩
      · cases hset
    | _ => cases hsent
  | @refreshed c d =>
    have hrec := hp rfl
    cases c <;> first | trivial | exact hrec rfl
  | unrefreshed => cases hdb _ _ rfl
  | invoked => exact hp rfl
  | succeeded =>
    obtain ⟨hsent, hzero⟩ := hp rfl
    exact Or.inr ⟨rfl, hsent, by simpa [State.apply, State.ledger] using hzero⟩
  | providerError =>
    obtain ⟨hsent, hzero⟩ := hp rfl
    refine Or.inr ⟨providerFailed_settles _ _, hsent, ?_⟩
    rw [if_neg (providerFailed_ne_delivered _ _)]
    exact hzero
  | exception => exact Or.inr ⟨rfl, hp rfl⟩
  | _ => trivial

theorem documented_of {x : Status} {n : ℕ} (hrow : s.row.status = x) (hn : s.succeeded = n) :
    s.documented = ⟨x, n, s.row.retryCount⟩ := by
  simp [State.documented, hrow, hn]

theorem documented_commit (c : Call) : (s.apply (.commit c s.row)).documented =
    ⟨c.update.toStatus, s.succeeded, (c.update.assign s.row).retryCount⟩ := by
  simp [State.documented, State.apply, flush_fresh]

theorem documented_first {c : Call} (hc : c.isFirst = true) (hrow : s.row.status = .pending) :
    ∃ e, Documented.Tr s.documented e (s.apply (.commit c s.row)).documented := by
  rw [documented_of hrow rfl, documented_commit]
  cases c with
  | sent out => exact ⟨.claim, .claim⟩
  | templateMissing | renderFailed | unsupportedChannel => exact ⟨.reject, .reject⟩
  | _ => cases hc

theorem documented_settles {c : Call} (hc : c.settles = true) (hrow : s.row.status = .sent)
    (hn : s.succeeded = if c = .delivered then 1 else 0) :
    ∃ e, Documented.Tr s.documented e (s.apply (.commit c s.row)).documented := by
  rw [documented_of hrow hn, documented_commit, hn]
  cases c with
  | delivered => exact ⟨.deliver, .deliver⟩
  | exhausted err => exact ⟨.exhaust, .exhaust⟩
  | transient err => exact ⟨.backOff, .backOff⟩
  | fatal origin err =>
    cases origin with
    | sent | send => exact ⟨.abort, .abort⟩
    | delivered => cases hc
  | _ => cases hc

/-- Each operation is hidden or is one transition of the documented machine. -/
theorem documented_edge {m : Message} {p q : PC V} {b : Answer V} {f : Effect}
    (h : Edge svc m s.row p b q f) (hsync : p.engaged = true → p.copy = some s.row)
    (hp : p.engaged = true → p.Recorded s.ledger) :
    (s.apply f).documented = s.documented ∨
      ∃ e, Documented.Tr s.documented e (s.apply f).documented := by
  cases h with
  | @committed c d =>
    right
    obtain rfl := commit_synced hsync
    rcases hp rfl with ⟨hfirst, hrow, _⟩ | ⟨hset, hrow, hn⟩
    · exact documented_first hfirst hrow
    · exact documented_settles hset hrow hn
  | succeeded =>
    obtain ⟨hsent, hzero⟩ := hp rfl
    right
    refine ⟨.accept, ?_⟩
    rw [documented_of hsent hzero,
      documented_of (s := s.apply .succeeded) hsent (congrArg Nat.succ hzero)]
    exact .accept
  | _ => exact Or.inl rfl

/-- The counter of the row counts the handled provider errors. -/
theorem counted_edge {m : Message} {p q : PC V} {b : Answer V} {f : Effect}
    (h : Edge svc m s.row p b q f) (hsync : p.engaged = true → p.copy = some s.row)
    (hs : s.row.retryCount = s.handled) : (s.apply f).row.retryCount = (s.apply f).handled := by
  cases h with
  | @committed c d =>
    obtain rfl := commit_synced hsync
    simp only [State.apply, flush_fresh]
    cases hc : c.update.incrementRetry <;> simp [Update.assign, hc, hs]
  | _ => exact hs

structure SerialOk (s : State V) : Prop where
  live : OneLive s
  one : OneEngaged s
  synced : Synced s
  recorded : EachEngaged (fun l _ p => p.Recorded l) s
  counted : s.row.retryCount = s.handled

theorem databaseOk_run {i : ℕ} {e : Exec V} {b : Answer V} (he : s.execs[i]? = some e)
    (h : DatabaseOk s (.run i b)) :
    ∀ err usable, b = .raised err usable → e.pc.isRetry = true := by
  rintro err usable rfl
  simpa [DatabaseOk, he] using h

theorem serialOk_step (h : Step svc s a t) (hserial : Serial s a) (hs : SerialOk s)
    (hcons : s.documented.Consistent) : SerialOk t := by
  obtain ⟨hn, hdb⟩ := hserial
  have hapart := apart_of_oneLive h hs.live
  refine ⟨oneLive_step h hn hs.live, oneEngaged_step h hapart hs.one,
    synced_step h hapart hs.one hs.synced, ?_, ?_⟩
  · refine eachEngaged_step h hapart hs.one hs.recorded ?_
    rintro i e b q f rfl he ha hedge hp _
    have hmem := List.mem_of_getElem? he
    exact recorded_edge hedge (databaseOk_run he hdb)
      (fun hp => hs.synced e hmem (engaged_of ha hp)) hcons hp
  · cases h with
    | @run i e b q f he ha hedge =>
      exact counted_edge hedge (fun hp => hs.synced e (List.mem_of_getElem? he) (engaged_of ha hp))
        hs.counted
    | _ => exact hs.counted

theorem documented_step (h : Step svc s a t) (hs : SerialOk s) :
    t.documented = s.documented ∨ ∃ e, Documented.Tr s.documented e t.documented := by
  cases h with
  | @run i e b q f he ha hedge =>
    have hmem := List.mem_of_getElem? he
    exact documented_edge hedge (fun hp => hs.synced e hmem (engaged_of ha hp))
      (fun hp => hs.recorded e hmem (engaged_of ha hp))
  | _ => exact Or.inl rfl

theorem refines_documented : ((sys svc).restrict Serial).Refines documented State.documented
    (fun s => SerialOk s ∧ s.documented.Consistent) := by
  refine LTS.Refines.of_abstract consistent_step ?_ ?_
  · rintro s a t ⟨hserial, hstep⟩ hs hcons
    exact serialOk_step (sys_step hstep) hserial hs hcons
  · rintro s a t ⟨_, hstep⟩ hs _
    exact documented_step (sys_step hstep) hs

theorem serial_initial {ch : Channel} {now : ℤ} {p : Priority} :
    SerialOk (initial ch now p : State V) ∧ (initial ch now p : State V).documented.Consistent := by
  constructor
  · exact ⟨Nat.zero_le _, Nat.zero_le _, by simp [Synced, EachEngaged, initial],
      by simp [EachEngaged, initial], rfl⟩
  · refine ⟨Nat.zero_le _, ?_, fun _ => rfl⟩
    intro hd
    cases hd

/-- Executions that do not overlap follow the documented machine: the run is one of its traces,
every committed status change is one of its edges, and the status tells the provider's history. -/
theorem serial_documented {ch : Channel} {now : ℤ} {p : Priority}
    (h : ((sys svc).restrict Serial).MTr (initial ch now p) xs s) :
    (∃ es, documented.MTr ⟨.pending, 0, 0⟩ es s.documented) ∧
      (∀ a t, ((sys svc).restrict Serial).Tr s a t →
        t.row.status = s.row.status ∨ (s.row.status, t.row.status) ∈ Status.changes) ∧
      s.succeeded ≤ 1 ∧ (s.row.status = .delivered → s.succeeded = 1) ∧
      (s.row.status = .pending ∨ s.row.status = .failed → s.succeeded = 0) ∧
      s.row.retryCount = s.handled := by
  obtain ⟨hs, hcons⟩ := LTS.mtrInv_of_trInv refines_documented.inv h serial_initial
  refine ⟨refines_documented.mTr h serial_initial, ?_, hcons.once, hcons.delivered, hcons.never,
    hs.counted⟩
  intro a t hstep
  rcases refines_documented.step s a t hstep ⟨hs, hcons⟩ with heq | ⟨e, he⟩
  · exact Or.inl (congrArg Documented.status heq)
  · exact changes_step he

/-- A provider error, an execution that dies on its retry before SENT, and the redelivery that
succeeds. -/
def recoveredRun : List (Action Unit) :=
  .apiPublish :: failSteps 0 ⟨0, "high", 0⟩ ++ [.run 0 .ok, .receive ⟨1, "high", 1⟩] ++
    loadSteps 1 ++ [.crash 1, .redeliver 1, .receive ⟨1, "high", 1⟩] ++
    loadSteps 2 ++ sendSteps 2 ++ settleSteps 2 .success

theorem serial_documented_recovered : ∃ s,
    ((sys plainText).restrict Serial).MTr otpDelivery recoveredRun s ∧
    s.row.status = .delivered ∧ s.succeeded = 1 ∧ s.row.retryCount = 1 ∧
    (∃ es, documented.MTr ⟨.pending, 0, 0⟩ es s.documented) ∧ s.row.retryCount = s.handled := by
  have hrun : (LTS.run (LTS.guarded Serial (step plainText)) otpDelivery recoveredRun).map
      (fun s => (s.row.status, s.row.retryCount)) = some (.delivered, 1) := by decide
  obtain ⟨s, h, he⟩ := LTS.exists_mTr_guarded hrun
  obtain ⟨htrace, _, _, hdelivered, _, hcounted⟩ := serial_documented h
  have hrow : s.row.status = .delivered := congrArg Prod.fst he
  exact ⟨s, h, hrow, hdelivered hrow, congrArg Prod.snd he, htrace, hcounted⟩

end NotificationService.Worker
