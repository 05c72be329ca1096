import NotificationService.Worker.System

/-! What every execution's session copy satisfies, in every interleaving. -/
namespace NotificationService.Worker

open Transition

variable {V : Type} {svc : TemplateService V} {s t : State V} {a : Action V} {xs : List (Action V)}

/-- The calls made before the execution has committed SENT. -/
def Call.isFirst : Call → Bool
  | .templateMissing | .renderFailed _ | .unsupportedChannel _ | .sent _ => true
  | _ => false

/-- The calls that record what became of the execution's own SENT. -/
def Call.settles : Call → Bool
  | .delivered | .exhausted _ | .transient _ | .fatal .sent _ | .fatal .send _ => true
  | _ => false

def Call.isSent : Call → Bool
  | .sent _ => true
  | _ => false

def Call.isTransient : Call → Bool
  | .transient _ => true
  | _ => false

theorem prepare_isFirst (svc : TemplateService V) (d : Delivery) (n : Notification V)
    (t : Option Template) : (prepare svc d n t).isFirst = true := by
  unfold prepare
  split
  · rfl
  · split
    · rfl
    · split <;> rfl

theorem isTransient_of_isFirst {c : Call} (h : c.isFirst = true) : c.isTransient = false := by
  cases c <;> simp_all [Call.isFirst, Call.isTransient]

@[simp] theorem prepare_isTransient (d : Delivery) (n : Notification V) (t : Option Template) :
    (prepare svc d n t).isTransient = false :=
  isTransient_of_isFirst (prepare_isFirst svc d n t)

/-- Until its first call commits, a session holds the PENDING row it started from; between a
commit and the refresh it holds the status it wrote. -/
def PC.SessionOk : PC V → Prop
  | .getNotification d | .getTemplate d _ => d.status = .pending
  | .select c d | .commit c d => c.isFirst = true → d.status = .pending
  | .refresh c d => d.status = c.update.toStatus
  | _ => True

theorem sessionOk_edge {m : Message} {row : Delivery} {p q : PC V} {b : Answer V} {f : Effect}
    (h : Edge svc m row p b q f) (hp : p.SessionOk) : q.SessionOk := by
  cases h with
  | load hs => exact hs
  | notification => exact hp
  | noTemplate => exact fun _ => hp
  | prepared => exact fun _ => hp
  | selected => exact hp
  | @refreshed c d => cases c <;> simp [Call.resume, PC.SessionOk]
  | @unrefreshed c d err usable =>
    cases c <;> cases usable <;> simp [Call.rescue, PC.SessionOk, Call.isFirst]
  | providerError =>
    unfold providerFailed
    split <;> simp [PC.SessionOk, Call.isFirst]
  | exception => simp [PC.SessionOk, Call.isFirst]
  | committed => rfl
  | succeeded => simp [PC.SessionOk, Call.isFirst]
  | skip | noNotification | invoked | retried | raised => trivial

/-- Rule: what a new session has, and what every operation of a session leaves it with, all sessions
have after a step. -/
theorem eachSession_step {P : Message → PC V → Prop} (h : Step svc s a t)
    (hs : ∀ e ∈ s.execs, P e.message e.pc) (hnew : ∀ m ∈ s.ready, P m .getDelivery)
    (hrun : ∀ i e b q f, e ∈ s.execs → Edge svc e.message s.row e.pc b q f →
      t = (s.apply f).setExec i { e with pc := q } → P e.message q) :
    ∀ e ∈ t.execs, P e.message e.pc := by
  cases h with
  | apiPublish | reconcile | requeueNotification | requeuePublish => exact hs
  | receive hm => exact Pool.forall_concat hs (hnew _ hm)
  | run he _ hedge =>
    have hq := hrun _ _ _ _ _ (List.mem_of_getElem? he) hedge rfl
    simp only [setExec_execs, apply_execs]
    exact Pool.forall_set hs hq
  | crash he | ack he | redeliver he | lose he =>
    have hold := hs _ (List.mem_of_getElem? he)
    simp only [setExec_execs, apply_execs]
    exact Pool.forall_set hs hold

def SessionsOk (s : State V) : Prop := ∀ e ∈ s.execs, e.pc.SessionOk

theorem sessionsOk_step (h : Step svc s a t) (hs : SessionsOk s) : SessionsOk t := by
  refine eachSession_step (P := fun _ p => p.SessionOk) h hs (fun _ _ => trivial) ?_
  intro i e b q f he hedge _
  exact sessionOk_edge hedge (hs e he)

theorem sessionsOk_initial {ch : Channel} {now : ℤ} {p : Priority} :
    SessionsOk (initial ch now p : State V) := by
  intro e he
  simp [initial] at he

end NotificationService.Worker
