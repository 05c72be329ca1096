import Mathlib.Tactic.Linarith
import NotificationService.Service.SequentialLimit

/-! The `retry_after` of a rejected call: it is truncated to whole seconds, so it is late enough only
where nothing was cut off. -/
namespace NotificationService.RateLimit.Sequential

open Transition SortedSet SlidingLog

variable {p : Policy} {s t : State} {c : Call} {xs ys : List Call} {user : String} {r : ℤ}

/-- A call of the user at or after `now + r`, with no accepted call of the user in between, is
accepted. -/
def Honest (p : Policy) (s : State) (c : Call) (r : ℤ) : Prop :=
  ∀ ys t now, (sys p).MTr (s.after p c) ys t → t.acceptedCalls c.user = s.acceptedCalls c.user →
    t.clock ≤ now → c.now + r ≤ now → t.accepts p ⟨c.user, now⟩

/-- The oldest timestamp of the window leaves it within a second, or after a whole number of
seconds. -/
def Whole (p : Policy) (s : State) (c : Call) : Prop :=
  ∃ oldest, (recent p.window c.now (s.acceptedTimes c.user)).min? = some oldest ∧
    (oldest + p.window - c.now ≤ 1 ∨ ∃ k : ℤ, oldest + p.window - c.now = k)

/-- A window never holds more than the limit. -/
def Bounded (p : Policy) (s : State) : Prop :=
  ∀ user, ((s.acceptedTimes user).countP (s.clock - p.window < ·) : ℤ) ≤ max p.limit 0

/-- A later window of the same length holds no more of the past. -/
theorem countP_later {now later : ℚ} (h : now ≤ later) (l : List ℚ) :
    l.countP (later - p.window < ·) ≤ l.countP (now - p.window < ·) := by
  refine List.countP_mono_left ?_
  intro x _ hx
  simp only [decide_eq_true_eq] at hx ⊢
  linarith

theorem bounded_step (h : (sys p).Tr s c t) (hs : Faithful p s) (hb : Bounded p s) :
    Bounded p t := by
  obtain ⟨hc, rfl⟩ := step_iff.mp h
  intro user
  have hclock : (s.after p c).clock = c.now := rfl
  have hold := hb user
  have hle := countP_later (p := p) hc (s.acceptedTimes user)
  rw [acceptedTimes_after, hclock, List.countP_append]
  by_cases hacc : c.user = user ∧ s.accepts p c
  · have hroom := (accepts_iff hs hc).mp hacc.2
    rw [hacc.1] at hroom
    have hone : [c.now].countP (c.now - p.window < ·) ≤ 1 := List.countP_le_length
    rw [if_pos hacc]
    omega
  · rw [if_neg hacc, List.countP_nil]
    omega

theorem bounded_run {start : ℚ} (h : (sys p).MTr (initial start) xs s) : Bounded p s := by
  have hinv : (sys p).TrInv fun s => Faithful p s ∧ Bounded p s := by
    rintro s c t hstep ⟨hs, hb⟩
    exact ⟨faithful_step hstep hs, bounded_step hstep hs hb⟩
  have hzero : Bounded p (initial start) := fun _ => le_max_right _ _
  exact (LTS.mtrInv_of_trInv hinv h ⟨faithful_initial start, hzero⟩).2

/-- What a rejected call has seen. -/
theorem rejected_spec (hs : Faithful p s) (hc : s.clock ≤ c.now)
    (hr : (s.check p c).2 = .rateLimitExceeded r) :
    p.limit ≤ (s.acceptedTimes c.user).countP (c.now - p.window < ·) ∧
      r = p.retryAfter c.now (recent p.window c.now (s.acceptedTimes c.user)).min? := by
  have htracks := hs.tracks c.user
  have hmin := min?_eq_of_perm (htracks.purged hc)
  rw [← card_swept htracks hc, ← hmin]
  simp only [State.check, checkRateLimit] at hr
  split at hr
  · exact ⟨‹_›, (Outcome.rateLimitExceeded.inj hr).symm⟩
  · cases hr

/-! ### Truncation -/

theorem truncate_of_nonneg {q : ℚ} (h : 0 ≤ q) : truncate q = ⌊q⌋ := if_pos h

/-- Rounding down, but not below one second, loses nothing only on whole seconds. -/
theorem le_retryAfter_iff {q : ℚ} (h : 0 ≤ q) :
    q ≤ ((max 1 (truncate q) : ℤ) : ℚ) ↔ q ≤ 1 ∨ ∃ k : ℤ, q = k := by
  rw [truncate_of_nonneg h, Int.cast_max, le_max_iff, Int.cast_one]
  refine or_congr_right ?_
  constructor
  · intro hle
    exact ⟨⌊q⌋, le_antisymm hle (Int.floor_le q)⟩
  · rintro ⟨k, rfl⟩
    rw [Int.floor_intCast]

/-! ### The entry that frees the window -/

/-- What the window of a rejected call holds, from its oldest timestamp on. -/
structure Full (p : Policy) (s : State) (c : Call) (oldest : ℚ) : Prop where
  lowest : (recent p.window c.now (s.acceptedTimes c.user)).min? = some oldest
  mem : oldest ∈ s.acceptedTimes c.user
  inside : c.now - p.window < oldest
  least : ∀ x ∈ s.acceptedTimes c.user, c.now - p.window < x → oldest ≤ x
  past : oldest ≤ c.now
  count : ((s.acceptedTimes c.user).countP (c.now - p.window < ·) : ℤ) = p.limit

theorem full_of_rejected (hs : Faithful p s) (hb : Bounded p s) (hlimit : 1 ≤ p.limit)
    (hc : s.clock ≤ c.now) (hr : (s.check p c).2 = .rateLimitExceeded r) :
    ∃ oldest, Full p s c oldest ∧ r = max 1 (truncate (oldest + p.window - c.now)) := by
  obtain ⟨hfull, hretry⟩ := rejected_spec hs hc hr
  cases hmin : (recent p.window c.now (s.acceptedTimes c.user)).min? with
  | none =>
    rw [List.min?_eq_none_iff] at hmin
    have hzero : (s.acceptedTimes c.user).countP (c.now - p.window < ·) = 0 := by
      rw [List.countP_eq_length_filter]
      exact List.length_eq_zero_iff.mpr hmin
    omega
  | some oldest =>
    rw [hmin] at hretry
    obtain ⟨hmem, hleast⟩ := List.min?_eq_some_iff.mp hmin
    obtain ⟨hmem, hinside⟩ := mem_recent.mp hmem
    refine ⟨oldest, ⟨hmin, hmem, hinside, ?_, ?_, ?_⟩, hretry⟩
    · intro x hx hlt
      exact hleast x (mem_recent.mpr ⟨hx, hlt⟩)
    · exact ((hs.tracks c.user).past oldest hmem).trans hc
    · have hle := countP_later (p := p) hc (s.acceptedTimes c.user)
      have hroom := hb c.user
      omega

theorem acceptedTimes_of_calls (hcalls : t.acceptedCalls user = s.acceptedCalls user) :
    t.acceptedTimes user = s.acceptedTimes user := congrArg (List.map Call.now) hcalls

/-- Once the oldest timestamp has left the window, there is room. -/
theorem honest_of_le {oldest : ℚ} {start : ℚ} (hrun : (sys p).MTr (initial start) xs s)
    (hf : Full p s c oldest) (hc : s.clock ≤ c.now) (hle : oldest + p.window - c.now ≤ r) :
    Honest p s c r := by
  intro ys t now hys hcalls hclock hnow
  have hstep : (sys p).Tr s c (s.after p c) := step_iff.mpr ⟨hc, rfl⟩
  have ht : Faithful p t := LTS.mtrInv_of_trInv (fun _ _ _ => faithful_step) hys
    (faithful_step hstep (faithful_run hrun))
  have htimes := acceptedTimes_of_calls hcalls
  have hiff := accepts_iff (c := ⟨c.user, now⟩) ht hclock
  rw [hiff, htimes, ← hf.count]
  refine Int.ofNat_lt.mpr (Pool.countP_lt ?_ hf.mem ?_ ?_)
  · intro x _ hx
    simp only [decide_eq_true_eq] at hx ⊢
    linarith [hf.inside]
  · simp only [decide_eq_false_iff_not, not_lt]
    linarith
  · simpa using hf.inside

/-- While the oldest timestamp is still inside, the window is as full as before. -/
theorem le_of_honest {oldest : ℚ} (hs : Faithful p s) (hf : Full p s c oldest)
    (hc : s.clock ≤ c.now)
    (hr : (s.check p c).2 = .rateLimitExceeded r) (hr0 : 0 ≤ r) (hh : Honest p s c r) :
    oldest + p.window - c.now ≤ r := by
  by_contra hlt
  rw [not_le] at hlt
  have hrej : ¬ s.accepts p c := by simp [State.accepts, hr]
  have hcalls : (s.after p c).acceptedCalls c.user = s.acceptedCalls c.user := by
    rw [acceptedCalls_after, if_neg (fun h => hrej h.2), List.append_nil]
  have htimes := acceptedTimes_of_calls hcalls
  have hnow : c.now ≤ c.now + r := le_add_of_nonneg_right (Int.cast_nonneg hr0)
  have hstep : (sys p).Tr s c (s.after p c) := step_iff.mpr ⟨hc, rfl⟩
  have hacc := hh [] (s.after p c) (c.now + r) .refl hcalls hnow le_rfl
  have hiff := accepts_iff (c := ⟨c.user, c.now + r⟩) (faithful_step hstep hs) hnow
  rw [hiff, htimes, ← hf.count, Int.ofNat_lt] at hacc
  refine absurd hacc (not_lt.mpr (List.countP_mono_left ?_))
  intro x hx hin
  simp only [decide_eq_true_eq] at hin ⊢
  have hle := hf.least x hx hin
  linarith

/-- A wait never exceeds the window, or the least wait of one second. -/
theorem retryAfter_le {oldest : ℚ} (hf : Full p s c oldest) :
    max 1 (truncate (oldest + p.window - c.now)) ≤ max 1 p.windowSeconds := by
  have hinside := hf.inside
  have hpast := hf.past
  rw [truncate_of_nonneg (by linarith)]
  refine max_le_max_left 1 (Int.floor_le_iff.mpr ?_)
  have hwindow : p.window = (p.windowSeconds : ℚ) := rfl
  linarith

/-- For every limit and window of at least one and every reachable state: the `retry_after` of a
rejected call is late enough, and at most a window, exactly if the oldest timestamp of the window
leaves it within a second or after a whole number of seconds. -/
theorem retry_after_honest {start : ℚ} (hlimit : 1 ≤ p.limit)
    (hrun : (sys p).MTr (initial start) xs s) (hc : s.clock ≤ c.now)
    (hr : (s.check p c).2 = .rateLimitExceeded r) :
    (Honest p s c r ∧ r ≤ max 1 p.windowSeconds) ↔ Whole p s c := by
  have hs := faithful_run hrun
  obtain ⟨oldest, hf, rfl⟩ := full_of_rejected hs (bounded_run hrun) hlimit hc hr
  have hinside := hf.inside
  have hiff := le_retryAfter_iff (show 0 ≤ oldest + p.window - c.now by linarith)
  constructor
  · rintro ⟨hh, _⟩
    have hpos : 0 ≤ max 1 (truncate (oldest + p.window - c.now)) := le_max_of_le_left zero_le_one
    exact ⟨oldest, hf.lowest, hiff.mp (le_of_honest hs hf hc hr hpos hh)⟩
  · rintro ⟨oldest', hlow, hwhole⟩
    cases hf.lowest.symm.trans hlow
    exact ⟨honest_of_le hrun hf hc (hiff.mpr hwhole), retryAfter_le hf⟩

/-- A whole number of seconds is left of a full window. -/
theorem retry_after_honest_whole :
    ∃ s, (sys twoInTen).MTr (initial 0) [⟨"alice", 0⟩, ⟨"alice", 2⟩] s ∧
    (s.check twoInTen ⟨"alice", 5⟩).2 = .rateLimitExceeded 5 ∧
      Honest twoInTen s ⟨"alice", 5⟩ 5 := by
  have hrun : (LTS.run (step twoInTen) (initial 0) [⟨"alice", 0⟩, ⟨"alice", 2⟩]).map (fun s =>
      (s.clock, (s.check twoInTen ⟨"alice", 5⟩).2,
        (recent twoInTen.window 5 (s.acceptedTimes "alice")).min?)) =
      some (2, .rateLimitExceeded 5, some 0) := by decide +kernel
  obtain ⟨s, hrun', he⟩ := LTS.exists_mTr hrun
  simp only [Prod.mk.injEq] at he
  obtain ⟨hclock, hr, hmin⟩ := he
  have hwhole : Whole twoInTen s ⟨"alice", 5⟩ := by
    refine ⟨0, hmin, Or.inr ⟨5, ?_⟩⟩
    decide +kernel
  have hc : s.clock ≤ 5 := by rw [hclock]; decide +kernel
  exact ⟨s, hrun', hr, ((retry_after_honest (by decide) hrun' hc hr).mpr hwhole).1⟩

def oneInTen : Policy := ⟨1, 10, twoInTen.one_le⟩

/-- 9.5 seconds are left, and the call that waits for the 9 seconds it was told is rejected. -/
theorem retry_after_too_early : ¬ ∀ (p : Policy) (start : ℚ) xs s c r, 1 ≤ p.limit →
    (sys p).MTr (initial start) xs s → s.clock ≤ c.now →
    (s.check p c).2 = .rateLimitExceeded r → Honest p s c r ∧ r ≤ max 1 p.windowSeconds := by
  intro h
  have hrun : (LTS.run (step oneInTen) (initial 0) [⟨"alice", 0⟩]).map (fun s =>
      let t := s.after oneInTen ⟨"alice", 1 / 2⟩
      (s.clock, (s.check oneInTen ⟨"alice", 1 / 2⟩).2, t.clock,
        decide (t.acceptedCalls "alice" = s.acceptedCalls "alice"),
        decide (t.accepts oneInTen ⟨"alice", 19 / 2⟩))) =
      some (0, .rateLimitExceeded 9, 1 / 2, true, false) := by decide +kernel
  obtain ⟨s, hs, he⟩ := LTS.exists_mTr hrun
  simp only [Prod.mk.injEq, decide_eq_true_eq, decide_eq_false_iff_not] at he
  obtain ⟨hclock, hr, hlater, hcalls, hrej⟩ := he
  have hhonest := (h oneInTen 0 _ s ⟨"alice", 1 / 2⟩ 9 (by decide) hs
    (by rw [hclock]; decide +kernel) hr).1
  exact hrej (hhonest [] _ (19 / 2) .refl hcalls (by rw [hlater]; decide +kernel)
    (by decide +kernel))

end NotificationService.RateLimit.Sequential
