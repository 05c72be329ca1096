import Mathlib.Data.List.MinMax
import Mathlib.Order.Lattice
import Mathlib.Tactic.Common

/-! Redis sorted sets, up to order: members with their scores. -/
namespace SortedSet

variable {μ σ : Type*} {m : μ} {x y cut : σ} {z : List (μ × σ)}

/-- ZADD of one member. -/
def add [DecidableEq μ] (m : μ) (x : σ) (z : List (μ × σ)) : List (μ × σ) :=
  (m, x) :: z.filter (·.1 ≠ m)

theorem add_of_fresh [DecidableEq μ] (h : ∀ e ∈ z, e.1 ≠ m) : add m x z = (m, x) :: z := by
  have hkeep : z.filter (·.1 ≠ m) = z := List.filter_eq_self.mpr (by simpa using h)
  rw [add, hkeep]

variable [LinearOrder σ]

/-- ZREMRANGEBYSCORE from `-inf` to `cut`, both ends included. -/
def removeThrough (cut : σ) (z : List (μ × σ)) : List (μ × σ) := z.filter (cut < ·.2)

/-- The score of the first member, as ZRANGE 0 0 finds it. -/
def lowest (z : List (μ × σ)) : Option σ := (z.map (·.2)).min?

/-- The number of members with a score over `x`. -/
def above (x : σ) (z : List (μ × σ)) : ℕ := z.countP (x < ·.2)

theorem above_cons : above x ((m, y) :: z) = above x z + if x < y then 1 else 0 := by
  simp [above, List.countP_cons]

/-- Removing old members leaves the counts of the recent ones. -/
theorem above_removeThrough (h : cut ≤ x) : above x (removeThrough cut z) = above x z := by
  simp only [above, removeThrough, List.countP_filter]
  refine List.countP_congr ?_
  intro e _
  simp only [Bool.and_eq_true, decide_eq_true_eq, and_iff_left_iff_imp]
  exact h.trans_lt

/-- ZCARD after the removal counts the members over the cutoff. -/
theorem length_removeThrough : (removeThrough cut z).length = above cut z := by
  simp only [above, removeThrough, List.countP_eq_length_filter]

/-- The least score does not depend on the order of the members. -/
theorem min?_eq_of_perm {l l' : List σ} (h : l.Perm l') : l.min? = l'.min? := by
  cases hl : l.min? with
  | none =>
    rw [List.min?_eq_none_iff] at hl
    subst hl
    rw [← h.nil_eq, List.min?_nil]
  | some x =>
    rw [List.min?_eq_some_iff] at hl
    refine (List.min?_eq_some_iff.mpr ⟨h.mem_iff.mp hl.1, ?_⟩).symm
    intro y hy
    exact hl.2 y (h.mem_iff.mpr hy)

theorem mem_of_mem_removeThrough {e : μ × σ} (h : e ∈ removeThrough cut z) : e ∈ z :=
  List.mem_of_mem_filter h

end SortedSet
