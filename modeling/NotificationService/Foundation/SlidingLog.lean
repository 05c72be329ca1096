import Mathlib.Algebra.Order.Group.Defs
import Mathlib.Algebra.Order.Sub.Basic
import Mathlib.Data.List.Perm.Basic
import NotificationService.Foundation.SortedSet

/-! A sorted-set key with an expiry that stands for a log of timestamps: purging it and letting it
expire forget only what has left the window. -/
namespace SlidingLog

open SortedSet

variable {μ T : Type*} [LinearOrder T] {c now t cut x : T} {m : μ} {log l : List T}

/-- A key that is absent has no members and no expiry. -/
structure Key (μ T : Type*) where
  members : List (μ × T)
  expiresAt : Option T
  deriving DecidableEq

def absent : Key μ T := ⟨[], none⟩

def Key.expired (k : Key μ T) (now : T) : Bool := k.expiresAt.any (· ≤ now)

/-- The key as a command finds it at `now`. -/
def Key.live (k : Key μ T) (now : T) : Key μ T := if k.expired now then absent else k

def Key.scores (k : Key μ T) (now : T) : List T := (k.live now).members.map (·.2)

/-- ZREMRANGEBYSCORE from `-inf` to `cut`; a key without members is gone. -/
def purge (now cut : T) (k : Key μ T) : Key μ T :=
  let z := removeThrough cut (k.live now).members
  ⟨z, if z = [] then none else (k.live now).expiresAt⟩

/-- ZADD of one member. -/
def add [DecidableEq μ] (now : T) (m : μ) (x : T) (k : Key μ T) : Key μ T :=
  { k.live now with members := SortedSet.add m x (k.live now).members }

variable {k : Key μ T}

theorem live_of_expired (h : k.expired now = true) : k.live now = absent := if_pos h

theorem live_of_not_expired (h : k.expired now = false) : k.live now = k := by
  simp [Key.live, h]

theorem expired_later (h : k.expired now = true) (ht : now ≤ t) : k.expired t = true := by
  simp only [Key.expired, Option.any_eq_true, decide_eq_true_eq] at h ⊢
  obtain ⟨e, he, hle⟩ := h
  exact ⟨e, he, hle.trans ht⟩

theorem live_not_expired (k : Key μ T) (now : T) : (k.live now).expired now = false := by
  cases h : k.expired now with
  | true =>
    rw [live_of_expired h]
    rfl
  | false => rw [live_of_not_expired h, h]

theorem scores_of_expired (h : k.expired now = true) : k.scores now = [] := by
  rw [Key.scores, live_of_expired h]
  rfl

theorem scores_of_not_expired (h : k.expired now = false) : k.scores now = k.members.map (·.2) := by
  rw [Key.scores, live_of_not_expired h]

theorem map_removeThrough (z : List (μ × T)) :
    (removeThrough cut z).map (·.2) = (z.map (·.2)).filter (cut < ·) := by
  rw [removeThrough, List.filter_map]
  rfl

/-- A purge forgets the scores up to the cutoff, and is not seen in the expiry. -/
theorem scores_purge (ht : now ≤ t) :
    (purge now cut k).scores t = (k.scores t).filter (cut < ·) := by
  cases hnow : k.expired now with
  | true =>
    rw [scores_of_expired (expired_later hnow ht), purge, live_of_expired hnow]
    rfl
  | false =>
    rw [purge, live_of_not_expired hnow]
    by_cases hz : removeThrough cut k.members = []
    · have hnone : (k.scores t).filter (cut < ·) = [] := by
        cases hlate : k.expired t with
        | true => rw [scores_of_expired hlate, List.filter_nil]
        | false => rw [scores_of_not_expired hlate, ← map_removeThrough, hz, List.map_nil]
      rw [hnone, hz, if_pos rfl]
      rfl
    · rw [if_neg hz]
      have hexpired : Key.expired ⟨removeThrough cut k.members, k.expiresAt⟩ t = k.expired t := rfl
      cases hlate : k.expired t with
      | true =>
        rw [scores_of_expired (hexpired.trans hlate), scores_of_expired hlate]
        rfl
      | false =>
        rw [scores_of_not_expired (hexpired.trans hlate), scores_of_not_expired hlate,
          map_removeThrough]

theorem mem_of_mem_live {e : μ × T} (h : e ∈ (k.live now).members) : e ∈ k.members := by
  cases he : k.expired now with
  | true =>
    rw [live_of_expired he] at h
    cases h
  | false => rwa [live_of_not_expired he] at h

theorem mem_of_mem_purge {e : μ × T} (h : e ∈ (purge now cut k).members) : e ∈ k.members :=
  mem_of_mem_live (mem_of_mem_removeThrough h)

theorem mem_of_mem_add [DecidableEq μ] {e : μ × T} (h : e ∈ (add now m x k).members) :
    e = (m, x) ∨ e ∈ k.members := by
  rcases List.mem_cons.mp h with rfl | h
  · exact Or.inl rfl
  · exact Or.inr (mem_of_mem_live (List.mem_of_mem_filter h))

variable [AddCommGroup T] {window : T}

/-- EXPIRE of a key with members; a time that is not in the future deletes it. -/
def expire (now seconds : T) (k : Key μ T) : Key μ T :=
  if (k.live now).members = [] then k.live now
  else if 0 < seconds then { k.live now with expiresAt := some (now + seconds) }
  else absent

theorem mem_of_mem_expire {e : μ × T} (h : e ∈ (expire now window k).members) : e ∈ k.members := by
  unfold expire at h
  split at h
  · exact mem_of_mem_live h
  · split at h
    · exact mem_of_mem_live h
    · cases h

/-- The timestamps that are less than a window old. -/
def recent (window now : T) (l : List T) : List T := l.filter (now - window < ·)

theorem mem_recent : x ∈ recent window now l ↔ x ∈ l ∧ now - window < x := by
  simp [recent]

/-- From `c` on, the key holds the timestamps of the log that are less than a window old. -/
structure Tracks (window c : T) (k : Key μ T) (log : List T) : Prop where
  past : ∀ x ∈ log, x ≤ c
  entries : ∀ t, c ≤ t → (recent window t (k.scores t)).Perm (recent window t log)

theorem tracks_absent : Tracks window c (absent : Key μ T) [] :=
  ⟨by simp, fun _ _ => List.Perm.refl _⟩

theorem Tracks.later (h : Tracks window c k log) (hc : c ≤ now) : Tracks window now k log :=
  ⟨fun x hx => (h.past x hx).trans hc, fun t ht => h.entries t (hc.trans ht)⟩

/-- What ZADD and EXPIRE of a fresh member leave, until the key expires. -/
theorem scores_insert [DecidableEq μ] (hw : 0 < window) (hm : ∀ e ∈ (k.live now).members, e.1 ≠ m)
    (x t : T) : (expire now window (add now m x k)).scores t =
      if now + window ≤ t then [] else x :: k.scores now := by
  have hadd : add now m x k = { k.live now with members := (m, x) :: (k.live now).members } := by
    rw [add, add_of_fresh hm]
  have hlive : (add now m x k).live now = add now m x k :=
    live_of_not_expired (live_not_expired k now)
  have hexpire : expire now window (add now m x k) =
      ⟨(m, x) :: (k.live now).members, some (now + window)⟩ := by
    rw [expire, hlive, hadd, if_neg (List.cons_ne_nil _ _), if_pos hw]
  rw [hexpire]
  split
  · rename_i hle
    exact scores_of_expired (by simpa [Key.expired] using hle)
  · rename_i hlt
    exact scores_of_not_expired (by simpa [Key.expired] using hlt)

/-- ZCARD after the purge counts the window. -/
theorem Tracks.purged (h : Tracks window c k log) (hc : c ≤ now) :
    ((purge now (now - window) k).scores now).Perm (recent window now log) := by
  rw [scores_purge le_rfl]
  exact h.entries now hc

variable [IsOrderedAddMonoid T]

theorem recent_recent (h : now ≤ t) :
    recent window t (recent window now l) = recent window t l := by
  simp only [recent, List.filter_filter]
  refine List.filter_congr ?_
  intro x _
  have hcut : now - window ≤ t - window := sub_le_sub_right h window
  simp only [Bool.and_eq_decide, decide_eq_true_eq, decide_eq_decide, and_iff_left_iff_imp]
  exact hcut.trans_lt

theorem Tracks.purge (h : Tracks window c k log) (hc : c ≤ now) :
    Tracks window now (purge now (now - window) k) log := by
  refine ⟨(h.later hc).past, ?_⟩
  intro t ht
  rw [SlidingLog.scores_purge ht]
  change (recent window t (recent window now (k.scores t))).Perm _
  rw [recent_recent ht]
  exact (h.later hc).entries t ht

theorem Tracks.insert [DecidableEq μ] (h : Tracks window c k log) (hc : c ≤ now) (hw : 0 < window)
    (hm : ∀ e ∈ (k.live now).members, e.1 ≠ m) :
    Tracks window now (expire now window (add now m now k)) (log ++ [now]) := by
  refine ⟨?_, ?_⟩
  · intro x hx
    rcases List.mem_append.mp hx with hx | hx
    · exact (h.past x hx).trans hc
    · exact (List.mem_singleton.mp hx).le
  · intro t ht
    rw [scores_insert hw hm]
    split
    · rename_i hle
      have hgone : recent window t (log ++ [now]) = [] := by
        refine List.filter_eq_nil_iff.mpr ?_
        intro x hx
        have hxn : x ≤ now := by
          rcases List.mem_append.mp hx with hx | hx
          · exact (h.past x hx).trans hc
          · exact (List.mem_singleton.mp hx).le
        simpa using hxn.trans (le_sub_iff_add_le.mpr hle)
      rw [hgone]
      exact List.Perm.refl _
    · have hold : (recent window t (recent window now (k.scores now))).Perm
          (recent window t (recent window now log)) := (h.entries now hc).filter _
      rw [recent_recent ht, recent_recent ht] at hold
      have hcons : recent window t (now :: k.scores now) =
          recent window t [now] ++ recent window t (k.scores now) := List.filter_append [now] _
      have hconcat : recent window t (log ++ [now]) = recent window t log ++ recent window t [now] :=
        List.filter_append log _
      rw [hcons, hconcat]
      exact List.perm_append_comm.trans (hold.append_right _)

end SlidingLog
