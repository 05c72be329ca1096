import Mathlib.Data.List.Chain
import NotificationService.Worker.Absorption

/-! The status log in commit order: it is a chain exactly while every COMMIT comes from a session
whose copy of the row has the committed status. -/
namespace NotificationService.Worker

open Transition

variable {V : Type} {svc : TemplateService V} {s t : State V} {a : Action V} {xs : List (Action V)}

/-- From NONE, entry by entry, to the committed status. -/
structure AuditChain (logs : List StatusLog) (status : Status) : Prop where
  first : ∃ l, logs.head? = some l ∧ l.fromStatus = none
  linked : logs.IsChain fun l l' => l'.fromStatus = some l.toStatus
  last : ∃ l, logs.getLast? = some l ∧ l.toStatus = status

/-- The session's copy of the row in the COMMIT that an action performs. -/
def State.commitCopy (s : State V) : Action V → Option Delivery
  | .run i .ok =>
    s.execs[i]?.bind fun e =>
      match e.pc with
      | .commit _ d => some d
      | _ => none
  | _ => none

theorem commitCopy_run {i : ℕ} {e : Exec V} {c : Call} {d : Delivery} (he : s.execs[i]? = some e)
    (hp : e.pc = .commit c d) : s.commitCopy (.run i .ok) = some d := by
  simp [State.commitCopy, he, hp]

/-- No COMMIT comes from a session whose copy has another status than the committed row. -/
def UpToDate (s : State V) (a : Action V) : Prop :=
  ∀ d ∈ s.commitCopy a, d.status = s.row.status

instance (s : State V) (a : Action V) : Decidable (UpToDate s a) :=
  inferInstanceAs (Decidable (∀ d ∈ _, _))

theorem commitCopy_edge {i : ℕ} {e : Exec V} {b : Answer V} {q : PC V} {f : Effect}
    (he : s.execs[i]? = some e) (hedge : Edge svc e.message s.row e.pc b q f)
    (hf : ∀ c d, f ≠ .commit c d) : s.commitCopy (.run i b) = none := by
  generalize hp : e.pc = p at hedge
  cases hedge with
  | committed => exact absurd rfl (hf _ _)
  | raised => rfl
  | _ => simp [State.commitCopy, he, hp]

/-- A step leaves the row and its log alone, or is the COMMIT of one call. -/
theorem logs_step (h : Step svc s a t) :
    (s.commitCopy a = none ∧ t.row = s.row ∧ t.logs = s.logs) ∨
    ∃ (c : Call) (d : Delivery), s.commitCopy a = some d ∧
      t.row = flush d (c.update.assign d) s.row ∧ t.logs = s.logs ++ [c.update.log d] := by
  cases h with
  | @run i e b q f he ha hedge =>
    cases f with
    | commit c d =>
      obtain ⟨hp, rfl, _⟩ := edge_commit hedge
      exact Or.inr ⟨c, d, commitCopy_run he hp, rfl, rfl⟩
    | _ => exact Or.inl ⟨commitCopy_edge he hedge (by simp), rfl, rfl⟩
  | _ => exact Or.inl ⟨rfl, rfl, rfl⟩

theorem auditChain_initial {ch : Channel} {now : ℤ} {p : Priority} :
    AuditChain (initial ch now p : State V).logs (initial ch now p : State V).row.status :=
  ⟨⟨_, rfl, rfl⟩, List.IsChain.singleton _, ⟨_, rfl, rfl⟩⟩

/-- The entry of a COMMIT links up with the log before it exactly if the copy was up to date. -/
theorem linked_concat {logs : List StatusLog} {status : Status} {l : StatusLog}
    (hc : AuditChain logs status) :
    (logs ++ [l]).IsChain (fun l l' => l'.fromStatus = some l.toStatus) ↔
      l.fromStatus = some status := by
  obtain ⟨k, hk, hstatus⟩ := hc.last
  have hlink : (∀ x ∈ logs.getLast?, l.fromStatus = some x.toStatus) ↔
      l.fromStatus = some status := by
    simp [hk, hstatus]
  rw [List.isChain_append]
  simpa [hc.linked] using hlink

/-- A COMMIT of an up-to-date session writes its status. -/
theorem flush_status {u : Update} {d row : Delivery} (h : d.status = row.status) :
    (flush d (u.assign d) row).status = u.toStatus := by
  simp [flush, h]

theorem auditChain_step (h : Step svc s a t) (hu : UpToDate s a)
    (hs : AuditChain s.logs s.row.status) : AuditChain t.logs t.row.status := by
  rcases logs_step h with ⟨_, hrow, hlogs⟩ | ⟨c, d, hcopy, hrow, hlogs⟩
  · rw [hrow, hlogs]
    exact hs
  · have hd : d.status = s.row.status := hu d hcopy
    obtain ⟨k, hk, hfrom⟩ := hs.first
    rw [hrow, hlogs, flush_status hd]
    refine ⟨⟨k, ?_, hfrom⟩, (linked_concat hs).mpr ?_, ⟨c.update.log d, by simp, rfl⟩⟩
    · rw [List.head?_append, hk, Option.some_or]
    · rw [← hd]
      rfl

/-- A chain that a COMMIT has broken stays broken, for the log only grows. -/
theorem logs_prefix_step (h : Step svc s a t) : s.logs <+: t.logs := by
  rcases logs_step h with ⟨_, _, hlogs⟩ | ⟨c, d, _, _, hlogs⟩
  · exact hlogs ▸ List.prefix_rfl
  · exact hlogs ▸ List.prefix_append _ _

theorem upToDate_of_linked (h : Step svc s a t) (hs : AuditChain s.logs s.row.status)
    (ht : t.logs.IsChain fun l l' => l'.fromStatus = some l.toStatus) : UpToDate s a := by
  intro d hd
  rcases logs_step h with ⟨hnone, _⟩ | ⟨c, d', hcopy, _, hlogs⟩
  · rw [hnone] at hd
    cases hd
  · obtain rfl : d' = d := Option.some.inj (hcopy.symm.trans hd)
    rw [hlogs, linked_concat hs] at ht
    exact Option.some.inj ht

/-- In every reachable state the log is a chain if and only if every COMMIT of the run came from an
up-to-date session. -/
theorem audit_trail {ch : Channel} {now : ℤ} {p : Priority}
    (h : (sys svc).MTr (initial ch now p) xs s) : AuditChain s.logs s.row.status ↔
      ((sys svc).restrict UpToDate).MTr (initial ch now p) xs s := by
  refine h.restrict_iff_of_lost (P := fun s => AuditChain s.logs s.row.status)
    (L := fun s => ¬ s.logs.IsChain fun l l' => l'.fromStatus = some l.toStatus) ?_ ?_ ?_ ?_
    auditChain_initial
  · intro s a t hstep hs hu
    exact auditChain_step (sys_step hstep) hu hs
  · intro s a t hstep hs hu
    exact mt (upToDate_of_linked (sys_step hstep) hs) hu
  · intro s a t hstep hs
    exact mt (fun ht => ht.prefix (logs_prefix_step (sys_step hstep))) hs
  · intro s hs hbroken
    exact hbroken hs.linked

/-- A duplicate message is received after the delivery is over. -/
theorem audit_trail_duplicate : ∃ s, (sys plainText).MTr otpDelivery
    (duplicateRun ++ [.receive otpMessage, .run 1 .ok]) s ∧ s.row.status = .delivered ∧
    AuditChain s.logs s.row.status := by
  have hrun : (LTS.run (LTS.guarded UpToDate (step plainText)) otpDelivery
      (duplicateRun ++ [.receive otpMessage, .run 1 .ok])).map (·.row.status) = some .delivered := by
    decide
  obtain ⟨s, hup, he⟩ := LTS.exists_mTr_guarded hrun
  exact ⟨s, hup.of_restrict, he, (audit_trail hup.of_restrict).mpr hup⟩

/-- Two executions have loaded the PENDING row when they commit SENT one after the other. -/
theorem audit_trail_broken : ¬ ∀ xs s, (sys plainText).MTr otpDelivery xs s →
    AuditChain s.logs s.row.status := by
  intro h
  have hrun : (LTS.run (step plainText) otpDelivery (staleRun ++ [.run 1 .ok])).map (·.logs) =
      some [⟨none, .pending⟩, ⟨some .pending, .sent⟩, ⟨some .sent, .delivered⟩,
        ⟨some .pending, .sent⟩] := by decide
  obtain ⟨s, hs, hlogs⟩ := LTS.exists_mTr hrun
  have hlinked := (h _ s hs).linked
  rw [hlogs] at hlinked
  simp at hlinked

end NotificationService.Worker
