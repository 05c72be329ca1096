import Mathlib.Data.List.Nodup
import NotificationService.Api.Enqueued

/-! The row behind `GET /notifications/{id}`: ids are unique, and a response shows the row that its
request has stored. -/
namespace NotificationService.Api

open Transition

variable {V : Type} {s t : State V} {i : ℕ} {h h' : Handler V} {f : Effect V}

def notificationNotFound (id : ℕ) : ApiError :=
  .http 404 ("Notification with ID " ++ toString id ++ " not found.")

/-- No id occurs twice, and each body was built from a row. -/
structure Stored (s : State V) : Prop where
  ids : (s.notifications.map (·.id)).Nodup
  built : ∀ (i : ℕ) (h : Handler V), s.handlers[i]? = some h → ∀ body, h.built = some body →
    ∃ n ∈ s.notifications, n.id = i ∧ body = .modelValidate n body.deliveries

theorem stored_initial : Stored (initial : State V) := ⟨List.nodup_nil, by simp [initial]⟩

/-- A request that has still to commit has no row. -/
theorem commit_untouched (hs : Settled 0 s) (hh : s.handlers[i]? = some h) (hpc : h.pc = .commit) :
    s.untouched i := by
  refine hs.quiet i (Nat.zero_le _) fun g hg => ?_
  cases hh.symm.trans hg
  simp [Handler.committed, hpc, PC.committed, PC.durable]

theorem find_of_ids (hs : (s.notifications.map (·.id)).Nodup) {n : Notification V}
    (hn : n ∈ s.notifications) : s.notifications.find? (·.id = n.id) = some n := by
  cases hfind : s.notifications.find? (·.id = n.id) with
  | none => simpa using List.find?_eq_none.mp hfind n hn
  | some m =>
    have hid : m.id = n.id := by simpa using List.find?_some hfind
    rw [List.inj_on_of_nodup_map hs (List.mem_of_find?_eq_some hfind) hn hid]

/-- A handler that keeps its body keeps the row behind it. -/
theorem built_frame (hs : Stored s) (hsub : ∀ n ∈ s.notifications, n ∈ t.notifications)
    (hh : s.handlers[i]? = some h) (hbuilt : h'.built = h.built) :
    ∀ body, h'.built = some body →
      ∃ n ∈ t.notifications, n.id = i ∧ body = .modelValidate n body.deliveries := by
  intro body hb
  obtain ⟨n, hn, hid, hbody⟩ := hs.built i h hh body (hbuilt ▸ hb)
  exact ⟨n, hsub n hn, hid, hbody⟩

variable [BEq V] {svc : TemplateService V} {a : Action V} {b : Answer}

theorem built_cases (he : Edge s i h b h' f) : h'.built = h.built ∨
    ∃ n ∈ s.notifications, n.id = i ∧ ∃ ds, h'.built = some (.modelValidate n ds) := by
  cases he with
  | reloaded _ hn hid _ hbody =>
    subst hbody
    exact Or.inr ⟨_, hn, hid, _, rfl⟩
  | _ => exact Or.inl rfl

theorem ids_edge (hs : Enqueued s) (hst : Stored s) (hh : s.handlers[i]? = some h)
    (he : Edge s i h b h' f) : ((s.apply f).notifications.map (·.id)).Nodup := by
  have hpub := publishes_edge he
  cases f with
  | commit x =>
    cases hpub with
    | silent hsilent => cases hsilent
    | committed hpc htx =>
      have hquiet := (commit_untouched hs.settled hh hpc).1
      have hid := ((hs.traced.own i h hh).tx x htx).1
      simp only [State.apply, List.map_append, List.map_cons, List.map_nil]
      refine List.nodup_append.mpr ⟨hst.ids, by simp, ?_⟩
      intro k hk l hl
      obtain ⟨n, hn, rfl⟩ := List.mem_map.mp hk
      rw [List.mem_singleton.mp hl, hid]
      exact hquiet n hn
  | _ => exact hst.ids

theorem stored_step (hstep : Step s a t) (hs : Enqueued s) (hst : Stored s) : Stored t := by
  cases hstep with
  | tick => exact ⟨hst.ids, hst.built⟩
  | request =>
    refine ⟨hst.ids, Pool.forall_getElem?_concat hst.built ?_⟩
    simp [start]
  | @run i h h' b f hh _ he =>
    have hsub : ∀ n ∈ s.notifications, n ∈ (s.apply f).notifications :=
      fun n hn => notifications_apply hn f
    refine ⟨ids_edge hs hst hh he, ?_⟩
    rw [setHandler_handlers, apply_handlers]
    refine Pool.forall_getElem?_set ?_ ?_
    · exact fun j g hg => built_frame hst hsub hg rfl
    · intro body hb
      rcases built_cases he with hsame | ⟨n, hn, hid, ds, hds⟩
      · exact built_frame hst hsub hh hsame body hb
      · cases hds.symm.trans hb
        exact ⟨n, hsub n hn, hid, rfl⟩
  | crash hh | rollback hh =>
    refine ⟨hst.ids, Pool.forall_getElem?_set hst.built ?_⟩
    exact built_frame hst (fun n hn => hn) hh rfl

end NotificationService.Api
