import Mathlib.Algebra.Order.Ring.Rat
import NotificationService.Foundation.SlidingLog
import NotificationService.Service.RateLimiter

/-! `check_rate_limit` calls of any users one after the other, against the log of accepted calls. -/
namespace NotificationService.RateLimit.Sequential

open Transition SortedSet SlidingLog

/-- The two settings as integers; the window is at least one second. -/
structure Policy where
  limit : ℤ
  windowSeconds : ℤ
  one_le : 1 ≤ windowSeconds

def Policy.window (p : Policy) : ℚ := p.windowSeconds

inductive Outcome where
  | accepted
  | rateLimitExceeded (retryAfter : ℤ)
  deriving DecidableEq

structure Call where
  user : String
  now : ℚ
  deriving DecidableEq

def rateLimitKey (user : String) : String := "rate_limit:" ++ user

/-- The keys in Redis, the clock, and every call with its outcome. -/
structure State where
  redis : String → Key Member ℚ
  clock : ℚ
  history : List (Call × Outcome)

def initial (start : ℚ) : State := ⟨fun _ => absent, start, []⟩

def Policy.retryAfter (p : Policy) (now : ℚ) : Option ℚ → ℤ
  | some oldest => max 1 (truncate (oldest + p.window - now))
  | none => 1

/-- `check_rate_limit` at `now` on the user's key: what it leaves there, and how it ends. -/
def checkRateLimit (p : Policy) (now : ℚ) (uuid : ℕ) (k : Key Member ℚ) : Key Member ℚ × Outcome :=
  let swept := purge now (now - p.window) k
  let current := (swept.live now).members
  if (current.length : ℤ) ≥ p.limit then
    (swept, .rateLimitExceeded (p.retryAfter now (lowest current)))
  else (expire now p.window (add now ⟨now, uuid⟩ now swept), .accepted)

/-- The call that a user would make; its uuid is its index. -/
def State.check (p : Policy) (s : State) (c : Call) : Key Member ℚ × Outcome :=
  checkRateLimit p c.now s.history.length (s.redis (rateLimitKey c.user))

def State.after (p : Policy) (s : State) (c : Call) : State where
  redis := Function.update s.redis (rateLimitKey c.user) (s.check p c).1
  clock := c.now
  history := s.history ++ [(c, (s.check p c).2)]

def step (p : Policy) (s : State) (c : Call) : Option State :=
  if s.clock ≤ c.now then some (s.after p c) else none

/-- Calls that do not overlap, at nondecreasing times. -/
def sys (p : Policy) : LTS State Call := LTS.ofStep (step p)

def State.accepts (p : Policy) (s : State) (c : Call) : Prop := (s.check p c).2 = .accepted

instance (p : Policy) (s : State) (c : Call) : Decidable (s.accepts p c) :=
  inferInstanceAs (Decidable (_ = _))

/-- The user's accepted calls so far. -/
def State.acceptedCalls (s : State) (user : String) : List Call :=
  (s.history.filter fun (c, o) => c.user = user ∧ o = .accepted).map (·.1)

def State.acceptedTimes (s : State) (user : String) : List ℚ := (s.acceptedCalls user).map (·.now)

variable {p : Policy} {s t : State} {c : Call} {xs ys : List Call} {user : String} {now : ℚ}

theorem window_pos (p : Policy) : 0 < p.window := by
  have h : (0 : ℤ) < p.windowSeconds := p.one_le
  exact Int.cast_pos.mpr h

theorem rateLimitKey_injective {u v : String} (h : rateLimitKey u = rateLimitKey v) : u = v := by
  simpa [rateLimitKey] using h

/-- Each member was added by an earlier call. -/
def Signed (n : ℕ) (k : Key Member ℚ) : Prop := ∀ e ∈ k.members, e.1.uuid < n

/-- Every user's key stands for the log of the user's accepted calls. -/
structure Faithful (p : Policy) (s : State) : Prop where
  signed : ∀ key, Signed s.history.length (s.redis key)
  tracks : ∀ user, Tracks p.window s.clock (s.redis (rateLimitKey user)) (s.acceptedTimes user)

/-- The member of the call under way is not in the set yet. -/
theorem fresh_of_signed {n : ℕ} {k : Key Member ℚ} (h : Signed n k) (x : ℚ) :
    ∀ e ∈ k.members, e.1 ≠ ⟨x, n⟩ := by
  rintro e he heq
  have hlt := h e he
  rw [heq] at hlt
  exact Nat.lt_irrefl n hlt

theorem signed_check {p : Policy} {s : State} {c : Call}
    (h : Signed s.history.length (s.redis (rateLimitKey c.user))) :
    Signed (s.history.length + 1) (s.check p c).1 := by
  intro e he
  simp only [State.check, checkRateLimit] at he
  split at he
  · exact (h e (mem_of_mem_purge he)).trans (Nat.lt_succ_self _)
  · rcases mem_of_mem_add (mem_of_mem_expire he) with rfl | he
    · exact Nat.lt_succ_self _
    · exact (h e (mem_of_mem_purge he)).trans (Nat.lt_succ_self _)

/-- The length that ZCARD reports. -/
theorem card_swept {log : List ℚ} {k : Key Member ℚ} (h : Tracks p.window s.clock k log)
    (hc : s.clock ≤ now) : ((purge now (now - p.window) k).live now).members.length =
      log.countP (now - p.window < ·) := by
  have hperm := (h.purged hc).length_eq
  rw [Key.scores, List.length_map] at hperm
  rw [hperm, recent, List.countP_eq_length_filter]

/-- A call is decided by the window of the user's log. -/
theorem accepts_iff (hs : Faithful p s) (hc : s.clock ≤ c.now) : s.accepts p c ↔
    ((s.acceptedTimes c.user).countP (c.now - p.window < ·) : ℤ) < p.limit := by
  rw [← card_swept (hs.tracks c.user) hc]
  simp only [State.accepts, State.check, checkRateLimit]
  split
  · simp only [reduceCtorEq, false_iff]
    omega
  · simp only [true_iff]
    omega

theorem acceptedCalls_after (p : Policy) (s : State) (c : Call) (user : String) :
    (s.after p c).acceptedCalls user =
      s.acceptedCalls user ++ if c.user = user ∧ s.accepts p c then [c] else [] := by
  simp only [State.acceptedCalls, State.after, List.filter_append, List.map_append,
    List.filter_singleton, State.accepts]
  by_cases h : c.user = user ∧ (s.check p c).2 = .accepted <;> simp [h]

theorem acceptedTimes_after (p : Policy) (s : State) (c : Call) (user : String) :
    (s.after p c).acceptedTimes user =
      s.acceptedTimes user ++ if c.user = user ∧ s.accepts p c then [c.now] else [] := by
  simp only [State.acceptedTimes, acceptedCalls_after, List.map_append]
  by_cases h : c.user = user ∧ s.accepts p c <;> simp [h]

theorem step_iff : (sys p).Tr s c t ↔ s.clock ≤ c.now ∧ s.after p c = t := by
  simp [sys, LTS.ofStep, step]

theorem check_tracks (hs : Faithful p s) (hc : s.clock ≤ c.now) :
    Tracks p.window c.now (s.check p c).1
      (s.acceptedTimes c.user ++ if s.accepts p c then [c.now] else []) := by
  have hswept := (hs.tracks c.user).purge hc
  simp only [State.accepts, State.check, checkRateLimit]
  split
  · simpa using hswept
  · refine hswept.insert le_rfl (window_pos p) ?_
    intro e he
    exact fresh_of_signed (hs.signed _) c.now e (mem_of_mem_purge (mem_of_mem_live he))

theorem faithful_step (h : (sys p).Tr s c t) (hs : Faithful p s) : Faithful p t := by
  obtain ⟨hc, rfl⟩ := step_iff.mp h
  have hself : (s.after p c).redis (rateLimitKey c.user) = (s.check p c).1 :=
    Function.update_self ..
  have hother : ∀ key, key ≠ rateLimitKey c.user → (s.after p c).redis key = s.redis key :=
    fun key hne => Function.update_of_ne hne ..
  have hclock : (s.after p c).clock = c.now := rfl
  have hlength : (s.after p c).history.length = s.history.length + 1 := by simp [State.after]
  refine ⟨?_, ?_⟩
  · intro key
    rw [hlength]
    by_cases hkey : key = rateLimitKey c.user
    · rw [hkey, hself]
      exact signed_check (hs.signed _)
    · rw [hother key hkey]
      exact fun e he => (hs.signed key e he).trans (Nat.lt_succ_self _)
  · intro user
    rw [acceptedTimes_after, hclock]
    by_cases huser : c.user = user
    · subst huser
      rw [hself]
      simpa using check_tracks hs hc
    · rw [hother _ fun heq => huser (rateLimitKey_injective heq).symm]
      simpa [huser] using (hs.tracks user).later hc

theorem faithful_initial (start : ℚ) : Faithful p (initial start) := by
  refine ⟨?_, fun _ => tracks_absent⟩
  intro _ e he
  cases he

theorem faithful_run {start : ℚ} (h : (sys p).MTr (initial start) xs s) : Faithful p s :=
  LTS.mtrInv_of_trInv (fun _ _ _ => faithful_step) h (faithful_initial start)

/-- The user's accepted calls alone. -/
structure Alone (p : Policy) (start : ℚ) (user : String) (s t : State) : Prop where
  run : (sys p).MTr (initial start) (s.acceptedCalls user) t
  calls : t.acceptedCalls user = s.acceptedCalls user
  clock : t.clock ≤ s.clock

theorem accepts_congr (hs : Faithful p s) (ht : Faithful p t)
    (heq : t.acceptedCalls c.user = s.acceptedCalls c.user) (hsc : s.clock ≤ c.now)
    (htc : t.clock ≤ c.now) : t.accepts p c ↔ s.accepts p c := by
  rw [accepts_iff hs hsc, accepts_iff ht htc, State.acceptedTimes, State.acceptedTimes, heq]

theorem alone_step {start : ℚ} {s' : State} (h : (sys p).Tr s c s') (hs : Faithful p s)
    (ha : Alone p start user s t) : ∃ t', Alone p start user s' t' := by
  obtain ⟨hc, rfl⟩ := step_iff.mp h
  obtain ⟨hrun, hcalls, hclock⟩ := ha
  by_cases hacc : c.user = user ∧ s.accepts p c
  · obtain ⟨huser, hsc⟩ := hacc
    have htc : t.accepts p c := by
      refine (accepts_congr hs (faithful_run hrun) ?_ hc (hclock.trans hc)).mpr hsc
      rw [huser, hcalls]
    refine ⟨t.after p c, ?_, ?_, le_rfl⟩
    · rw [acceptedCalls_after, if_pos ⟨huser, hsc⟩]
      exact hrun.concat (step_iff.mpr ⟨hclock.trans hc, rfl⟩)
    · rw [acceptedCalls_after, acceptedCalls_after, if_pos ⟨huser, htc⟩, if_pos ⟨huser, hsc⟩, hcalls]
  · have hsame : (s.after p c).acceptedCalls user = s.acceptedCalls user := by
      rw [acceptedCalls_after, if_neg hacc, List.append_nil]
    exact ⟨t, hsame ▸ hrun, hcalls.trans hsame.symm, hclock.trans hc⟩

theorem alone_run {start : ℚ} (h : (sys p).MTr (initial start) xs s) (user : String) :
    ∃ t, Alone p start user s t := by
  have hinv : (sys p).TrInv fun s => Faithful p s ∧ ∃ t, Alone p start user s t := by
    rintro s c s' hstep ⟨hs, t, ht⟩
    exact ⟨faithful_step hstep hs, alone_step hstep hs ht⟩
  exact (LTS.mtrInv_of_trInv hinv h ⟨faithful_initial start, _, .refl, rfl, le_rfl⟩).2

/-- For every limit, window and sequence of calls: a call is accepted exactly if fewer than `limit`
accepted calls of its user lie in the window that it ends; the calls that were rejected and those of
other users could as well not have been made; and the user's key still holds every accepted
timestamp of that window, as often as it was accepted. -/
theorem sequential_reference {start : ℚ} (h : (sys p).MTr (initial start) xs s) (c : Call)
    (hc : s.clock ≤ c.now) :
    (s.accepts p c ↔ ((s.acceptedTimes c.user).countP
      (fun x => c.now - p.window < x ∧ x ≤ c.now) : ℤ) < p.limit) ∧
    (∃ t, (sys p).MTr (initial start) (s.acceptedCalls c.user) t ∧
      (t.accepts p c ↔ s.accepts p c)) ∧
    ∀ x, c.now - p.window < x → ((s.redis (rateLimitKey c.user)).scores c.now).count x =
      (s.acceptedTimes c.user).count x := by
  have hs := faithful_run h
  have htracks := hs.tracks c.user
  refine ⟨?_, ?_, ?_⟩
  · rw [accepts_iff hs hc]
    have hcount : (s.acceptedTimes c.user).countP (fun x => c.now - p.window < x ∧ x ≤ c.now) =
        (s.acceptedTimes c.user).countP (c.now - p.window < ·) := by
      refine List.countP_congr ?_
      intro x hx
      simpa using fun _ => (htracks.past x hx).trans hc
    rw [hcount]
  · obtain ⟨t, hrun, hcalls, hclock⟩ := alone_run h c.user
    exact ⟨t, hrun, accepts_congr hs (faithful_run hrun) hcalls hc (hclock.trans hc)⟩
  · intro x hx
    have hperm := (htracks.entries c.now hc).count_eq x
    rwa [recent, recent, List.count_filter (by simpa using hx),
      List.count_filter (by simpa using hx)] at hperm

def twoInTen : Policy := ⟨2, 10, by decide⟩

/-- Two accepted calls at one time, a rejected one, and one of another user. -/
def fullWindow : List Call := [⟨"alice", 0⟩, ⟨"alice", 0⟩, ⟨"alice", 5⟩, ⟨"bob", 6⟩]

/-- Both entries leave the window together, at its inclusive end. -/
theorem sequential_reference_boundary : ∃ s, (sys twoInTen).MTr (initial 0) fullWindow s ∧
    s.history.map (·.2) = [.accepted, .accepted, .rateLimitExceeded 5, .accepted] ∧
    (s.accepts twoInTen ⟨"alice", 10⟩ ↔ ((s.acceptedTimes "alice").countP
      (fun x => 10 - twoInTen.window < x ∧ x ≤ 10) : ℤ) < 2) ∧ s.accepts twoInTen ⟨"alice", 10⟩ := by
  have hrun : (LTS.run (step twoInTen) (initial 0) fullWindow).map (fun s =>
      (s.clock, s.history.map (·.2), decide (s.accepts twoInTen ⟨"alice", 10⟩))) =
      some (6, [.accepted, .accepted, .rateLimitExceeded 5, .accepted], true) := by decide +kernel
  obtain ⟨s, hrun', he⟩ := LTS.exists_mTr hrun
  simp only [Prod.mk.injEq, decide_eq_true_eq] at he
  obtain ⟨hclock, hhistory, hacc⟩ := he
  have hiff := (sequential_reference hrun' ⟨"alice", 10⟩ (by rw [hclock]; decide +kernel)).1
  exact ⟨s, hrun', hhistory, hiff, hacc⟩

end NotificationService.RateLimit.Sequential
