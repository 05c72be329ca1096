import NotificationService.Worker.Budget

/-! The retry counter of the row against the increments committed to it: which commits lose one. -/
namespace NotificationService.Worker

open Transition

variable {V : Type} {svc : TemplateService V} {s t : State V} {a : Action V} {xs : List (Action V)}

/-- The copy from which the session is about to commit an increment. -/
def PC.incrementCopy : PC V → Option Delivery
  | .commit c d => if c.update.incrementRetry then some d else none
  | _ => none

/-- The copy from which an action commits an increment. -/
def State.incrementCopy (s : State V) : Action V → Option Delivery
  | .run i .ok => s.execs[i]?.bind (·.pc.incrementCopy)
  | _ => none

/-- An increment is committed only from a copy whose counter is still the row's. -/
def CountsOn (s : State V) (a : Action V) : Prop :=
  (s.incrementCopy a).all (·.retryCount = s.row.retryCount) = true

instance (s : State V) (a : Action V) : Decidable (CountsOn s a) :=
  inferInstanceAs (Decidable (_ = true))

/-- What an operation does to the counter of the row and to the number of committed increments. -/
theorem counts_edge {m : Message} {p q : PC V} {b : Answer V} {f : Effect}
    (h : Edge svc m s.row p b q f) :
    ((b = .ok → p.incrementCopy = none) ∧ (s.apply f).row.retryCount = s.row.retryCount ∧
      (s.apply f).handled = s.handled) ∨
    ∃ d, b = .ok ∧ p.incrementCopy = some d ∧ (s.apply f).row.retryCount = d.retryCount + 1 ∧
      (s.apply f).handled = s.handled + 1 ∧ q.retryCount = d.retryCount + 1 := by
  cases h with
  | @committed c d =>
    have hflush := flush_retryCount c.update d s.row
    cases hc : c.update.incrementRetry with
    | false => exact Or.inl (by simp_all [State.apply, PC.incrementCopy])
    | true =>
      rw [hc, if_pos rfl] at hflush
      refine Or.inr ⟨d, rfl, ?_, hflush, ?_, ?_⟩
      · simp [PC.incrementCopy, hc]
      · simp [State.apply, hc]
      · simp [PC.retryCount, Update.assign, hc]
  | raised => exact Or.inl ⟨by simp, rfl, rfl⟩
  | _ => exact Or.inl ⟨fun _ => rfl, rfl, rfl⟩

/-- The same of any step, with the copies that the sessions hold after an increment. -/
theorem counts_step (h : Step svc s a t) :
    (s.incrementCopy a = none ∧ t.row.retryCount = s.row.retryCount ∧ t.handled = s.handled) ∨
    ∃ d, s.incrementCopy a = some d ∧ t.row.retryCount = d.retryCount + 1 ∧
      t.handled = s.handled + 1 ∧
      ∀ e ∈ t.execs, e.pc.retryCount = d.retryCount + 1 ∨ e ∈ s.execs := by
  cases h with
  | @run i e b q f he ha hedge =>
    have hat : s.execs[i]?.bind (·.pc.incrementCopy) = e.pc.incrementCopy := by simp [he]
    rcases counts_edge hedge with ⟨hnone, hrow, hhandled⟩ | ⟨d, rfl, hd, hrow, hhandled, hq⟩
    · refine Or.inl ⟨?_, hrow, hhandled⟩
      cases b with
      | ok => exact hat.trans (hnone rfl)
      | _ => rfl
    · refine Or.inr ⟨d, hat.trans hd, hrow, hhandled, ?_⟩
      simp only [setExec_execs, apply_execs]
      exact Pool.forall_set (fun _ => Or.inr) (Or.inl hq)
  | _ => exact Or.inl ⟨rfl, rfl, rfl⟩

/-- The row counts all the increments, and no session is ahead of it. -/
structure Exact (s : State V) : Prop where
  behind : Behind 0 s
  row : s.row.retryCount = s.handled

theorem exact_step (h : Step svc s a t) (hs : Exact s) (hc : CountsOn s a) : Exact t := by
  refine ⟨behind_step h hs.behind, ?_⟩
  have hrow := hs.row
  rcases counts_step h with ⟨_, hsame, hhandled⟩ | ⟨d, hd, hnew, hhandled, _⟩
  · omega
  · have hcopy : d.retryCount = s.row.retryCount := by simpa [CountsOn, hd] using hc
    omega

/-- An increment from a stale copy is lost to the row and to every session. -/
theorem behind_of_stale (h : Step svc s a t) (hs : Exact s) (hc : ¬ CountsOn s a) :
    Behind 1 t := by
  have hrow := hs.row
  have hle := (behind_step h hs.behind).row
  rcases counts_step h with ⟨hnone, _, _⟩ | ⟨d, hd, hnew, hhandled, hsess⟩
  · simp [CountsOn, hnone] at hc
  · have hstale : d.retryCount ≠ s.row.retryCount := by simpa [CountsOn, hd] using hc
    refine ⟨by omega, ?_⟩
    intro e he
    rcases hsess e he with hq | hold
    · omega
    · have hcopy := hs.behind.sessions e hold
      omega

/-- The row counts every increment of a run exactly when each was committed from a copy whose
counter was still the row's. -/
theorem retryCount_exact {ch : Channel} {now : ℤ} {p : Priority}
    (h : (sys svc).MTr (initial ch now p) xs s) :
    s.row.retryCount = s.handled ↔ ((sys svc).restrict CountsOn).MTr (initial ch now p) xs s := by
  have hbehind : Behind 0 s :=
    LTS.mtrInv_of_trInv (fun _ _ _ hstep => behind_step (sys_step hstep)) h behind_initial
  have hiff : Exact s ↔ ((sys svc).restrict CountsOn).MTr (initial ch now p) xs s := by
    refine h.restrict_iff_of_lost (L := Behind 1) ?_ ?_ ?_ ?_ ⟨behind_initial, rfl⟩
    · intro s a t hstep hs hc
      exact exact_step (sys_step hstep) hs hc
    · intro s a t hstep hs hc
      exact behind_of_stale (sys_step hstep) hs hc
    · intro s a t hstep hs
      exact behind_step (sys_step hstep) hs
    · intro s hs hlost
      have hrow := hs.row
      have hlt := hlost.row
      omega
  rw [← hiff]
  exact ⟨fun hrow => ⟨hbehind, hrow⟩, Exact.row⟩

/-- One attempt that fails, and the retry after it that fails too. -/
def retryRun : List (Action Unit) :=
  .apiPublish :: failSteps 0 ⟨0, "high", 0⟩ ++ .run 0 .ok :: failSteps 1 ⟨1, "high", 1⟩

theorem retryCount_exact_retry : ∃ s, (sys plainText).MTr otpDelivery retryRun s ∧
    s.handled = 2 ∧ s.row.retryCount = s.handled := by
  have hrun : (LTS.run (LTS.guarded CountsOn (step plainText)) otpDelivery retryRun).map
      (·.handled) = some 2 := by decide
  obtain ⟨s, h, hhandled⟩ := LTS.exists_mTr_guarded hrun
  exact ⟨s, h.of_restrict, hhandled, (retryCount_exact h.of_restrict).mpr h⟩

/-- The handler's message and the reconciler's are both loaded before either call is made. -/
def lostRetryRun : List (Action Unit) :=
  [.apiPublish] ++ requeueSteps 0 ++ [.receive otpMessage, .receive otpMessage] ++
    loadSteps 0 ++ loadSteps 1 ++ sendSteps 0 ++ sendSteps 1 ++
    settleSteps 0 (.providerError "timeout") ++ settleSteps 1 (.providerError "timeout")

/-- Both executions then commit the counter 1. -/
theorem increment_lost :
    ¬ ∀ xs s, (sys plainText).MTr otpDelivery xs s → s.row.retryCount = s.handled := by
  intro h
  have hrun : (LTS.run (step plainText) otpDelivery lostRetryRun).map
      (fun s => (s.row.retryCount, s.handled)) = some (1, 2) := by decide
  obtain ⟨s, hs, he⟩ := LTS.exists_mTr hrun
  obtain ⟨hcount, hhandled⟩ := Prod.mk.inj he
  have heq := h lostRetryRun s hs
  rw [hcount, hhandled] at heq
  cases heq

end NotificationService.Worker
