import NotificationService.Foundation.Intake
import NotificationService.Api.Enqueued
import NotificationService.Api.Ownership
import NotificationService.Api.Responses

/-! The answers to `POST /notifications`, and what each error says about the request. -/
namespace NotificationService.Api

open Transition ExpiringStore

variable {V : Type} {s t : State V} {i : ℕ} {h h' : Handler V} {f : Effect V} {e : ApiError}

/-- A request with this header and payload is handled, or has been. -/
def State.serves (key : Option String) (payload : NotificationRequest V) (s : State V) : Prop :=
  ∃ (i : ℕ) (h : Handler V), s.handlers[i]? = some h ∧ h.key = key ∧ h.payload = payload

/-- The error that the handler raises, perhaps after it has deleted its key. -/
def PC.error : PC V → Option ApiError
  | .deleteKey e | .finished (.error e) => some e
  | _ => none

/-- How an operation with this answer can raise an error. -/
inductive Raises [BEq V] (svc : TemplateService V) (s : State V) (i : ℕ) (h : Handler V) :
    Answer → ApiError → Prop where
  | conflict {b : Answer} {key : String} {e : IdempotencyEntry V} : h.pc.inCheck = true →
      h.lock = some key → s.get key = some e → e.payload.same h.payload = false →
      Raises svc s i h b payloadConflict
  | locked {b : Answer} {key : String} {e : IdempotencyEntry V} : h.pc.inCheck = true →
      h.lock = some key → s.get key = some e → Raises svc s i h b lockConflict
  | rateLimited {r : ℤ} : h.pc = .checkRateLimit →
      Raises svc s i h (.rateLimited r) (.rateLimitExceeded r)
  | unknown : h.pc = .getTemplate →
      Raises svc s i h (.template none) (templateNotFound h.payload.templateName)
  | rendering {t : Template} {err : String} : h.pc = .getTemplate →
      svc.renderSubjectAndBody t.content t.subject h.payload.vars = .error err →
      Raises svc s i h (.template (some t)) (.http 400 err)
  | duplicate {b : Answer} {t : ℕ} {cs : List ChannelEnum} : h.pc = .createNotification t cs →
      s.taken h.key = true → Raises svc s i h b uniqueViolation
  | lost {b : Answer} : h.pc = .reload → s.notifications.find? (·.id = i) = none →
      Raises svc s i h b loadFailed
  | again {b : Answer} {e : ApiError} : h.pc = .deleteKey e → Raises svc s i h b e
  | unhandled {err : String} {applied : Bool} :
      Raises svc s i h (.raised err applied) (.exception err)

/-- What an error says: of the requests that have been there, of the rows, or of an operation of
request `i` in the run. -/
inductive Cause [BEq V] (svc : TemplateService V) (xs : List (Action V)) (s : State V) (i : ℕ)
    (h : Handler V) : ApiError → Prop where
  | conflict {key : String} {j : ℕ} {g : Handler V} : h.lock = some key → j ≠ i →
      s.handlers[j]? = some g → g.lock = some key → g.payload.same h.payload = false →
      Cause svc xs s i h payloadConflict
  | locked {key : String} {j : ℕ} {g : Handler V} : h.lock = some key → j ≠ i →
      s.handlers[j]? = some g → g.lock = some key → Cause svc xs s i h lockConflict
  | rateLimited {r : ℤ} : .run i (.rateLimited r) ∈ xs → Cause svc xs s i h (.rateLimitExceeded r)
  | unknown : .run i (.template none) ∈ xs →
      Cause svc xs s i h (templateNotFound h.payload.templateName)
  | rendering {t : Template} {err : String} : .run i (.template (some t)) ∈ xs →
      svc.renderSubjectAndBody t.content t.subject h.payload.vars = .error err →
      Cause svc xs s i h (.http 400 err)
  | duplicate {key : String} {n : Notification V} : h.key = some key → n ∈ s.notifications →
      n.id ≠ i → n.idempotencyKey = some key → Cause svc xs s i h uniqueViolation
  | unhandled {err : String} {applied : Bool} : .run i (.raised err applied) ∈ xs →
      Cause svc xs s i h (.exception err)

theorem error_cleanup (h : Handler V) (e : ApiError) : (h.cleanup e).error = some e := by
  rcases cleanup_cases h e with hq | hq <;> rw [hq] <;> rfl

/-- An operation that succeeds raises only the error that it was to raise. -/
theorem error_performs {q : PC V} {tx : Option (Tx V)} (hp : Performs s i h q tx f)
    (he : q.error = some e) : h.pc = .deleteKey e := by
  cases hp with
  | @createNotification _ cs | @insertLog _ cs =>
    rcases nextDelivery_cases (V := V) cs with hq | hq <;> rw [hq] at he <;> cases he
  | @commit x =>
    rcases nextPublish_cases (V := V) x.deliveries with hq | hq <;> rw [hq] at he <;> cases he
  | @applyAsync _ ds =>
    rcases nextPublish_cases (V := V) ds with hq | hq <;> rw [hq] at he <;> cases he
  | deleteKey hpc =>
    cases he
    exact hpc
  | _ => cases he

/-- An entry is set for the request that sets it. -/
def Effect.SetFor (i : ℕ) (h : Handler V) : Effect V → Prop
  | .set key entry _ => entry.writer = i ∧ h.lock = some key ∧ entry.payload = h.payload
  | _ => True

theorem setFor_performs {q : PC V} {tx : Option (Tx V)} (hp : Performs s i h q tx f) :
    f.SetFor i h := by
  cases hp with
  | setLock _ hlock | saveResponse _ hlock => exact ⟨rfl, hlock, rfl⟩
  | _ => trivial

theorem inCheck_cleanup (h : Handler V) (e : ApiError) : (h.cleanup e).inCheck = false := by
  rcases cleanup_cases h e with hq | hq <;> rw [hq] <;> rfl

theorem inCheck_performs {q : PC V} {tx : Option (Tx V)} (hp : Performs s i h q tx f) :
    q.inCheck = false := by
  cases hp with
  | @createNotification _ cs | @insertLog _ cs =>
    rcases nextDelivery_cases (V := V) cs with hq | hq <;> rw [hq] <;> rfl
  | @commit x => rcases nextPublish_cases (V := V) x.deliveries with hq | hq <;> rw [hq] <;> rfl
  | @applyAsync _ ds => rcases nextPublish_cases (V := V) ds with hq | hq <;> rw [hq] <;> rfl
  | _ => rfl

/-- The request that wrote the entry under the key, which is past its own check. -/
def State.writerOf (s : State V) (key : String) (entry : IdempotencyEntry V) (g : Handler V) :
    Prop :=
  s.handlers[entry.writer]? = some g ∧ g.lock = some key ∧ g.payload = entry.payload ∧
    g.pc.inCheck = false

def Written (s : State V) : Prop :=
  ∀ (key : String) (entry : IdempotencyEntry V), s.get key = some entry →
    ∃ g, s.writerOf key entry g

/-- A request in its check is not the writer of an entry. -/
theorem other_writer (hs : Written s) (hh : s.handlers[i]? = some h) (hin : h.pc.inCheck = true)
    {key : String} {entry : IdempotencyEntry V} (hget : s.get key = some entry) :
    entry.writer ≠ i ∧ ∃ g, s.writerOf key entry g := by
  obtain ⟨g, hw, hrest⟩ := hs key entry hget
  refine ⟨fun hi => ?_, g, hw, hrest⟩
  rw [hi] at hw
  cases hh.symm.trans hw
  rw [hin] at hrest
  cases hrest.2.2

/-- A request that has failed before its commit, or with an error of its own. -/
def Handler.Undone (h : Handler V) (e : ApiError) : Prop :=
  (∃ err, e = .exception err) ∨ h.committed = false

theorem get_cases {key : String} {entry : IdempotencyEntry V}
    (hget : (s.apply f).get key = some entry) :
    s.get key = some entry ∨ ∃ ttl, f = .set key entry ttl := by
  cases f with
  | set l e ttl =>
    by_cases hkl : key = l
    · subst hkl
      rw [apply_set_self] at hget
      cases hget
      exact Or.inr ⟨ttl, rfl⟩
    · exact Or.inl ((apply_set_of_ne hkl e ttl).symm.trans hget)
  | del l => exact Or.inl (get_of_get_del hget)
  | _ => exact Or.inl hget

/-- Nothing is committed before the template has been validated. -/
theorem committed_early
    (hpc : h.pc.inCheck = true ∨ h.pc = .checkRateLimit ∨ h.pc = .getTemplate) :
    h.committed = false ∧ h.pc ≠ .commit := by
  unfold Handler.committed
  cases hp : h.pc <;> simp_all [PC.inCheck, PC.committed, PC.durable]

variable [BEq V] {svc : TemplateService V} {a : Action V} {b : Answer}
  {xs ys : List (Action V)}

/-! ### What an operation raises -/

theorem raises_onEntry {key : String} {entry : IdempotencyEntry V} (hpc : h.pc = .getEntry)
    (hlock : h.lock = some key) (hget : s.get key = some entry)
    (he : (h.onEntry entry).pc.error = some e) : Raises svc s i h b e := by
  have hin : h.pc.inCheck = true := by rw [hpc]; rfl
  unfold Handler.onEntry at he
  split at he
  case isTrue =>
    split at he <;> cases he
    exact .locked hin hlock hget
  case isFalse hne =>
    cases he
    exact .conflict hin hlock hget (Bool.eq_false_iff.mpr hne)

theorem raises_onTemplate {t : Option Template} (hpc : h.pc = .getTemplate)
    (he : (h.onTemplate svc t).pc.error = some e) : Raises svc s i h (.template t) e := by
  unfold Handler.onTemplate at he
  split at he
  · cases (error_cleanup h _).symm.trans he
    exact .unknown hpc
  · split at he
    · cases (error_cleanup h _).symm.trans he
      exact .rendering hpc ‹_›
    · cases he

theorem raises_onReload {ds : List DeliveryRow} (hpc : h.pc = .reload)
    (he : (h.onReload s i ds).pc.error = some e) : Raises svc s i h b e := by
  unfold Handler.onReload at he
  split at he
  · cases (error_cleanup h _).symm.trans he
    exact .lost hpc ‹_›
  · simp only at he
    split at he <;> cases he

theorem raises_success (hn : (perform s i h).map (fun (q, tx, f) =>
    ((h.performed tx).moved q, f)) = some (h', f)) (he : h'.pc.error = some e) :
    Raises svc s i h b e := by
  obtain ⟨⟨q, tx, g⟩, hp, hn⟩ := Option.map_eq_some_iff.mp hn
  simp only [Prod.mk.injEq] at hn
  obtain ⟨rfl, rfl⟩ := hn
  exact .again (error_performs (perform_cases hp) he)

theorem raises_next (hn : next svc s i h b = some (h', f)) (he : h'.pc.error = some e) :
    Raises svc s i h b e := by
  unfold next at hn
  split at hn
  · split at hn <;> simp only [Option.some.injEq, Prod.mk.injEq, reduceCtorEq] at hn <;>
      obtain ⟨rfl, rfl⟩ := hn
    · cases he
      exact .unhandled
    · cases he
      exact .unhandled
    · cases he
      exact .unhandled
    · cases (error_cleanup h _).symm.trans he
      exact .unhandled
  · obtain ⟨⟨q, tx, g⟩, hp, hn⟩ := Option.map_eq_some_iff.mp hn
    simp only at hn
    split at hn <;> simp only [Prod.mk.injEq] at hn <;> obtain ⟨rfl, rfl⟩ := hn
    · cases he
      exact .unhandled
    · cases he
      exact .unhandled
    · cases (error_cleanup h _).symm.trans he
      exact .unhandled
  · split at hn
    case h_1 hpc _ _ =>
      obtain ⟨key, hlock, hn⟩ := Option.map_eq_some_iff.mp hn
      split at hn <;> simp only [Prod.mk.injEq] at hn <;> obtain ⟨rfl, rfl⟩ := hn
      · cases he
      · exact raises_onEntry hpc hlock ‹_› he
    case h_7 hpc _ _ =>
      simp only [Option.ite_none_right_eq_some, Option.some.injEq, Prod.mk.injEq] at hn
      obtain ⟨_, rfl, rfl⟩ := hn
      exact raises_onReload hpc he
    case h_8 hpc _ _ =>
      split at hn
      case isTrue hsome =>
        simp only [Option.some.injEq, Prod.mk.injEq] at hn
        obtain ⟨rfl, rfl⟩ := hn
        cases he
        obtain ⟨entry, hentry⟩ := Option.isSome_iff_exists.mp hsome
        obtain ⟨key, hlock, hget⟩ := Option.bind_eq_some_iff.mp hentry
        exact .locked (by rw [hpc]; rfl) hlock hget
      case isFalse => exact raises_success hn he
    case h_9 hpc _ _ =>
      split at hn
      · simp only [Option.some.injEq, Prod.mk.injEq] at hn
        obtain ⟨rfl, rfl⟩ := hn
        cases (error_cleanup h _).symm.trans he
        exact .duplicate hpc ‹_›
      · exact raises_success hn he
    case h_10 => exact raises_success hn he
    case h_11 => cases hn
    all_goals
      simp only [Option.some.injEq, Prod.mk.injEq] at hn
      obtain ⟨rfl, rfl⟩ := hn
    case h_2 => cases he
    case h_3 hpc _ _ =>
      cases (error_cleanup h _).symm.trans he
      exact .rateLimited hpc
    case h_4 hpc _ _ => exact raises_onTemplate hpc he
    case h_5 => cases he
    case h_6 hpc _ _ => exact raises_onReload hpc he

/-! ### Entries of other requests -/

theorem setFor_edge (he : Edge s i h b h' f) : f.SetFor i h := by
  cases he with
  | performed hp | raised _ hp | lockRaised _ hp | deleteRaised _ hp => exact setFor_performs hp
  | _ => trivial

/-- Only the GET that finds no entry stays in the check. -/
theorem inCheck_edge (he : Edge s i h b h' f) (hin : h'.pc.inCheck = true) :
    h.pc.inCheck = true ∧ f = .none := by
  cases he with
  | missed hpc => exact ⟨by rw [hpc]; rfl, rfl⟩
  | reads hr =>
    simp only [Handler.moved] at hin
    generalize h.pc = p at hr
    cases hr <;> cases hin
  | failed | raised => exact absurd hin (Bool.eq_false_iff.mp (inCheck_cleanup h _))
  | @reloaded _ body =>
    rcases nextBuilt_cases h body with hq | hq <;> rw [hq] at hin <;> cases hin
  | performed hp => exact absurd hin (Bool.eq_false_iff.mp (inCheck_performs hp))
  | _ => cases hin

theorem written_run (hs : Written s) (hh : s.handlers[i]? = some h) (he : Edge s i h b h' f) :
    Written ((s.apply f).setHandler i h') := by
  intro key entry hget
  have hlt := (List.getElem?_eq_some_iff.mp hh).1
  obtain ⟨hkey, hpayload⟩ := origin_edge he
  unfold State.writerOf
  rw [setHandler_handlers, apply_handlers]
  rcases get_cases (f := f) (by simpa using hget) with hold | ⟨ttl, rfl⟩
  · obtain ⟨g, hg, hlock, hp, hin⟩ := hs key entry hold
    by_cases hj : entry.writer = i
    · rw [hj] at hg ⊢
      cases hh.symm.trans hg
      refine ⟨h', List.getElem?_set_self hlt, by rw [lock_edge he, hlock], by rw [hpayload, hp], ?_⟩
      by_contra hcheck
      have hbefore := (inCheck_edge he (by simpa using hcheck)).1
      rw [hin] at hbefore
      cases hbefore
    · exact ⟨g, by rw [List.getElem?_set_ne (Ne.symm hj), hg], hlock, hp, hin⟩
  · obtain ⟨hw, hlock, hp⟩ := setFor_edge he
    rw [hw]
    refine ⟨h', List.getElem?_set_self hlt, by rw [lock_edge he, hlock], by rw [hpayload, hp], ?_⟩
    by_contra hcheck
    cases (inCheck_edge he (by simpa using hcheck)).2

theorem written_step (hstep : Step s a t) (hs : Written s) : Written t := by
  cases hstep with
  | tick =>
    intro key entry hget
    exact hs key entry (get_of_get_expire hget)
  | request =>
    intro key entry hget
    obtain ⟨g, hg, hrest⟩ := hs key entry hget
    exact ⟨g, List.getElem?_append_left (List.getElem?_eq_some_iff.mp hg).1 ▸ hg, hrest⟩
  | run hh _ he => exact written_run hs hh he
  | crash hh | rollback hh =>
    intro key entry hget
    exact Pool.exists_getElem?_set hh (fun _ hg => hg) (hs key entry hget)

/-! ### Causes -/

/-- A step keeps the requests, with their keys and payloads. -/
theorem served_step (hstep : Step s a t) {j : ℕ} {g : Handler V} (hg : s.handlers[j]? = some g) :
    ∃ g', t.handlers[j]? = some g' ∧ g'.key = g.key ∧ g'.payload = g.payload := by
  have hself : ∃ g', s.handlers[j]? = some g' ∧ g'.key = g.key ∧ g'.payload = g.payload :=
    ⟨g, hg, rfl, rfl⟩
  cases hstep with
  | tick => exact hself
  | request => exact Pool.exists_getElem?_concat hself
  | run hh _ he =>
    obtain ⟨hkey, hpayload⟩ := origin_edge he
    rw [setHandler_handlers, apply_handlers]
    exact Pool.exists_getElem?_set hh
      (fun _ hp => ⟨hkey.trans hp.1, hpayload.trans hp.2⟩) hself
  | crash hh | rollback hh => exact Pool.exists_getElem?_set hh (fun _ hp => hp) hself

theorem notifications_step (hstep : Step s a t) {n : Notification V} (hn : n ∈ s.notifications) :
    n ∈ t.notifications := by
  cases hstep with
  | run => exact notifications_apply hn _
  | _ => exact hn

theorem Cause.mono (hc : Cause svc xs s i h e) (hxs : xs ⊆ ys) : Cause svc ys s i h e := by
  cases hc with
  | conflict hl hij hg hgl hne => exact .conflict hl hij hg hgl hne
  | locked hl hij hg hgl => exact .locked hl hij hg hgl
  | rateLimited hmem => exact .rateLimited (hxs hmem)
  | unknown hmem => exact .unknown (hxs hmem)
  | rendering hmem hr => exact .rendering (hxs hmem) hr
  | duplicate hk hn hid hnk => exact .duplicate hk hn hid hnk
  | unhandled hmem => exact .unhandled (hxs hmem)

theorem cause_step (hstep : Step s a t) (hkey : h'.key = h.key)
    (hpayload : h'.payload = h.payload) (hc : Cause svc xs s i h e) : Cause svc xs t i h' e := by
  have hlock : h'.lock = h.lock := by
    unfold Handler.lock
    rw [hkey]
  cases hc with
  | conflict hl hij hg hgl hne =>
    obtain ⟨g', hg', hgkey, hgp⟩ := served_step hstep hg
    refine .conflict (hlock.trans hl) hij hg' ?_ (by rw [hgp, hpayload, hne])
    rw [Handler.lock, hgkey]
    exact hgl
  | locked hl hij hg hgl =>
    obtain ⟨g', hg', hgkey, _⟩ := served_step hstep hg
    refine .locked (hlock.trans hl) hij hg' ?_
    rw [Handler.lock, hgkey]
    exact hgl
  | rateLimited hmem => exact .rateLimited hmem
  | unknown hmem => exact hpayload ▸ .unknown hmem
  | rendering hmem hr => exact .rendering hmem (hpayload ▸ hr)
  | duplicate hk hn hid hnk =>
    exact .duplicate (hkey.trans hk) (notifications_step hstep hn) hid hnk
  | unhandled hmem => exact .unhandled hmem

/-- Every error so far has its cause, and only an unhandled exception comes after the commit. -/
structure Explained (svc : TemplateService V) (xs : List (Action V)) (s : State V) : Prop where
  enqueued : Enqueued s
  written : Written s
  errors : ∀ (i : ℕ) (h : Handler V), s.handlers[i]? = some h → ∀ e, h.pc.error = some e →
    Cause svc xs s i h e ∧ h.Undone e

theorem committed_kept (he : Edge s i h b h' f) (hf : h.committed = false)
    (hpc : h.pc ≠ .commit) : h'.committed = false := by
  rcases commits_edge he with ⟨hsame, _⟩ | ⟨_, x, rfl⟩
  · exact hsame.trans hf
  · cases publishes_edge he with
    | silent hsilent => cases hsilent
    | committed hcommit => exact absurd hcommit hpc

theorem cause_raises (hs : Explained svc xs s) (hh : s.handlers[i]? = some h)
    (hr : Raises svc s i h b e) (he : Edge s i h b h' f) :
    Cause svc (xs ++ [.run i b]) s i h e ∧ h'.Undone e := by
  have hmem : .run i b ∈ xs ++ [.run i b] := by simp
  have hundone : h.committed = false ∧ h.pc ≠ .commit → h'.Undone e :=
    fun hf => Or.inr (committed_kept he hf.1 hf.2)
  cases hr with
  | conflict hin hlock hget hne =>
    obtain ⟨hij, g, hg, hgl, hgp, _⟩ := other_writer hs.written hh hin hget
    exact ⟨.conflict hlock hij hg hgl (hgp ▸ hne), hundone (committed_early (Or.inl hin))⟩
  | locked hin hlock hget =>
    obtain ⟨hij, g, hg, hgl, _⟩ := other_writer hs.written hh hin hget
    exact ⟨.locked hlock hij hg hgl, hundone (committed_early (Or.inl hin))⟩
  | rateLimited hpc =>
    exact ⟨.rateLimited hmem, hundone (committed_early (Or.inr (Or.inl hpc)))⟩
  | unknown hpc => exact ⟨.unknown hmem, hundone (committed_early (Or.inr (Or.inr hpc)))⟩
  | rendering hpc hrender =>
    exact ⟨.rendering hmem hrender, hundone (committed_early (Or.inr (Or.inr hpc)))⟩
  | duplicate hpc htaken =>
    refine ⟨?_, Or.inl ⟨_, rfl⟩⟩
    simp only [State.taken, Bool.and_eq_true, List.any_eq_true, decide_eq_true_eq] at htaken
    obtain ⟨hkey, n, hn, hnk⟩ := htaken
    obtain ⟨key, hkey⟩ := Option.isSome_iff_exists.mp hkey
    have hquiet : s.untouched i := by
      refine hs.enqueued.settled.quiet i (Nat.zero_le _) fun g hg => ?_
      cases hh.symm.trans hg
      simp [Handler.committed, hpc, PC.committed, PC.durable]
    exact .duplicate hkey hn (hquiet.1 n hn) (hnk.trans hkey)
  | lost hpc hnone =>
    -- A request only reloads the row that it has committed.
    have hcommitted : h.committed = true := by
      unfold Handler.committed
      rw [hpc]
      rfl
    obtain ⟨n, hn, hid⟩ := (hs.enqueued.settled.own i h hh (Nat.zero_le _)).2 hcommitted
    simpa [hid] using List.find?_eq_none.mp hnone n hn
  | again hpc =>
    obtain ⟨hcause, hold⟩ := hs.errors i h hh e (by rw [hpc]; rfl)
    refine ⟨hcause.mono (List.subset_append_left _ _), ?_⟩
    rcases hold with hexc | hf
    · exact Or.inl hexc
    · exact hundone ⟨hf, by rw [hpc]; simp⟩
  | unhandled => exact ⟨.unhandled hmem, Or.inl ⟨_, rfl⟩⟩

/-- A handler that takes no step keeps its error and its cause. -/
theorem errors_frame (hs : Explained svc xs s) (hstep : Step s a t) {j : ℕ} {g g' : Handler V}
    (hg : s.handlers[j]? = some g) (hkey : g'.key = g.key) (hpayload : g'.payload = g.payload)
    (hpc : g'.pc = g.pc) (hfailure : g'.failure = g.failure) :
    ∀ e, g'.pc.error = some e → Cause svc (xs ++ [a]) t j g' e ∧ g'.Undone e := by
  intro e he
  obtain ⟨hcause, hundone⟩ := hs.errors j g hg e (hpc ▸ he)
  refine ⟨(cause_step hstep hkey hpayload hcause).mono (List.subset_append_left _ _), ?_⟩
  unfold Handler.Undone Handler.committed at hundone ⊢
  rw [hpc, hfailure]
  exact hundone

theorem explained_step (hstep : (sys svc).Tr s a t) (hs : Explained svc xs s) :
    Explained svc (xs ++ [a]) t := by
  have hst : Step s a t := sys_step hstep
  have hframe : ∀ (j : ℕ) (g : Handler V), s.handlers[j]? = some g → ∀ e,
      g.pc.error = some e → Cause svc (xs ++ [a]) t j g e ∧ g.Undone e :=
    fun j g hg => errors_frame hs hst hg rfl rfl rfl rfl
  refine ⟨enqueued_step hstep hs.enqueued, written_step hst hs.written, ?_⟩
  cases a with
  | run i b =>
    obtain ⟨h, h', f, hh, _, hn, rfl⟩ := step_run hstep
    have he := next_edge hn
    obtain ⟨hkey, hpayload⟩ := origin_edge he
    rw [setHandler_handlers, apply_handlers]
    refine Pool.forall_getElem?_set hframe fun e herr => ?_
    obtain ⟨hcause, hundone⟩ := cause_raises hs hh (raises_next hn herr) he
    exact ⟨cause_step hst hkey hpayload hcause, hundone⟩
  | tick d =>
    cases hstep
    exact hframe
  | request key payload =>
    cases hstep
    refine Pool.forall_getElem?_concat hframe fun e he => ?_
    rcases start_cases key payload with hpc | hpc <;> rw [hpc] at he <;> cases he
  | crash i =>
    have hcrash := hst
    cases hcrash with
    | crash hh =>
      exact Pool.forall_getElem?_set hframe (errors_frame hs hst hh rfl rfl rfl rfl)
  | rollback i =>
    have hrollback := hst
    cases hrollback with
    | rollback hh =>
      exact Pool.forall_getElem?_set hframe (errors_frame hs hst hh rfl rfl rfl rfl)

theorem explained_initial : Explained svc [] initial := by
  refine ⟨enqueued_initial, ?_, by simp [initial]⟩
  intro key entry hget
  cases hget

theorem explained_run (hrun : (sys svc).MTr initial xs s) : Explained svc xs s := by
  have hall := LTS.mtrInv_of_trInv_labels (P := Explained svc) (fun _ _ _ _ => explained_step)
    hrun explained_initial
  exact hall

/-! ### Answers -/

/-- A finished request has a 201 with a body, or an error with its cause. -/
theorem finished_explained (hs : Explained svc xs s) (hh : s.handlers[i]? = some h)
    {r : Response V} (hpc : h.pc = .finished r) :
    (r.statusCode = 201 ∧ h.answer201.isSome = true) ∨ ∃ e, r = .error e ∧ Cause svc xs s i h e ∧
      ((r.statusCode ∈ [400, 409, 429] ∧ s.untouched i) ∨ e.response = unhandledResponse) := by
  cases r with
  | created body => exact Or.inl ⟨rfl, by simp [Handler.answer201, hpc]⟩
  | cached code body =>
    obtain ⟨rfl, _⟩ := hs.enqueued.traced.replays i h hh code body hpc
    exact Or.inl ⟨rfl, by simp [Handler.answer201, hpc]⟩
  | error e =>
    right
    obtain ⟨hcause, hundone⟩ := hs.errors i h hh e (by rw [hpc]; rfl)
    refine ⟨e, rfl, hcause, ?_⟩
    rcases hundone with ⟨err, rfl⟩ | hf
    · exact Or.inr rfl
    · have hquiet : s.untouched i := by
        refine hs.enqueued.settled.quiet i (Nat.zero_le _) fun g hg => ?_
        cases hh.symm.trans hg
        exact hf
      cases hcause with
      | unhandled | duplicate => exact Or.inr rfl
      | _ => exact Or.inl ⟨by simp [Response.statusCode, ApiError.response, payloadConflict,
          lockConflict, templateNotFound], hquiet⟩

theorem serves_step {key : Option String} {payload : NotificationRequest V}
    (hstep : Step s a t) (hs : s.serves key payload) : t.serves key payload := by
  obtain ⟨i, h, hh, rfl, rfl⟩ := hs
  obtain ⟨g, hg, hkey, hpayload⟩ := served_step hstep hh
  exact ⟨i, g, hg, hkey, hpayload⟩

/-- Each request that has come is there, with its key and payload. -/
theorem serves_run (hrun : (sys svc).MTr initial xs s) {key : Option String}
    {payload : NotificationRequest V} (hmem : .request key payload ∈ xs) :
    s.serves key payload := by
  have hstep : ∀ (xs : List (Action V)) (s : State V) (a : Action V) (t : State V),
      (sys svc).Tr s a t → (.request key payload ∈ xs → s.serves key payload) →
      .request key payload ∈ xs ++ [a] → t.serves key payload := by
    intro xs s a t hstep hs hmem
    rcases List.mem_append.mp hmem with hold | hnew
    · exact serves_step (sys_step hstep) (hs hold)
    · obtain rfl := List.mem_singleton.mp hnew
      cases hstep
      exact ⟨_, _, List.getElem?_concat_length, rfl, rfl⟩
  have hempty : .request key payload ∈ ([] : List (Action V)) →
      (initial : State V).serves key payload := nofun
  exact LTS.mtrInv_of_trInv_labels
    (P := fun xs s => .request key payload ∈ xs → s.serves key payload) hstep hrun hempty hmem

variable {B : Type} {validate : B → Except (List FieldError) (NotificationRequest V)}

/-- Valid bodies are requests already; `none` has a channel that there is not. -/
def invalidChannel : List FieldError :=
  [⟨[.field "body", .field "channels", .index 0], by simp,
    "Input should be 'EMAIL', 'SMS' or 'PUSH'", true⟩]

def validateSample : Option (NotificationRequest Unit) →
    Except (List FieldError) (NotificationRequest Unit)
  | some payload => .ok payload
  | none => .error invalidChannel

example : (validationResponse invalidChannel).message =
    "Validation failed: Field '0' Input should be 'EMAIL', 'SMS' or 'PUSH'" := by decide

/-- A second request reuses the key of one that is running, then a third one is not valid. -/
def reusedKeySteps : List (Arrival (Post (Option (NotificationRequest Unit))) (Action Unit)) :=
  [.input ⟨some "order-1", some emailRequest⟩, .act (.run 0 .ok), .act (.run 0 .ok),
    .input ⟨some "order-1", some { emailRequest with channels := none }⟩, .act (.run 1 .ok),
    .input ⟨none, none⟩]

end NotificationService.Api
