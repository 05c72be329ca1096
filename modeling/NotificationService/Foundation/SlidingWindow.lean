import Mathlib.Algebra.Order.Group.Defs
import Mathlib.Algebra.Order.Sub.Basic
import Mathlib.Data.List.Count
import Mathlib.Tactic.Common

/-! Timestamps with at most `limit` in every window of a given length: it is enough that each,
when it comes, finds room in the window that it ends. -/
namespace SlidingWindow

variable {T : Type*} [AddCommGroup T] [LinearOrder T]
  {window t : T} {limit : ℕ} {l : List T}

/-- Latest first, each timestamp together with the earlier ones that are less than a window older
are at most `limit`. -/
def Admitted (window : T) (limit : ℕ) : List T → Prop
  | [] => True
  | t :: l => (t :: l).countP (t - window < ·) ≤ limit ∧ Admitted window limit l

theorem Admitted.cons (h : l.countP (t - window < ·) < limit) (hl : Admitted window limit l) :
    Admitted window limit (t :: l) := by
  refine ⟨?_, hl⟩
  rw [List.countP_cons]
  split <;> omega

/-- Seen from each of its points, `p` is shorter than a window. -/
def Short (window : T) (p : T → Bool) : Prop := ∀ x y, p x = true → p y = true → x - window < y

/-- A part of the time that is shorter than a window holds at most `limit` timestamps. -/
theorem Admitted.countP_le {p : T → Bool} (hp : Short window p) (h : Admitted window limit l) :
    l.countP p ≤ limit := by
  induction l with
  | nil => exact Nat.zero_le _
  | cons t l ih =>
    obtain ⟨hle, hl⟩ := h
    cases ht : p t with
    | true =>
      refine le_trans ?_ hle
      refine List.countP_mono_left ?_
      intro x _ hx
      simpa using hp t x ht hx
    | false =>
      rw [List.countP_cons_of_neg (by simp [ht])]
      exact ih hl

/-! ### Half-open intervals -/

variable [IsOrderedAddMonoid T]

theorem short_closedOpen (window a : T) : Short window fun x => a ≤ x ∧ x < a + window := by
  intro x y hx hy
  simp only [decide_eq_true_eq] at hx hy
  exact (sub_lt_iff_lt_add.mpr hx.2).trans_le hy.1

theorem short_openClosed (window a : T) : Short window fun x => a < x ∧ x ≤ a + window := by
  intro x y hx hy
  simp only [decide_eq_true_eq] at hx hy
  exact (sub_le_iff_le_add.mpr hx.2).trans_lt hy.1

theorem Admitted.closedOpen (h : Admitted window limit l) (a : T) :
    l.countP (fun x => a ≤ x ∧ x < a + window) ≤ limit :=
  h.countP_le (short_closedOpen window a)

theorem Admitted.openClosed (h : Admitted window limit l) (a : T) :
    l.countP (fun x => a < x ∧ x ≤ a + window) ≤ limit :=
  h.countP_le (short_openClosed window a)

end SlidingWindow
