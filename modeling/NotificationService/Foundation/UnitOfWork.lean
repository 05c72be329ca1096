import Mathlib.Logic.Basic
import Mathlib.Tactic.Common

/-! Column-wise write-back of an object-relational session at READ COMMITTED: a session
computes new column values from the row it loaded, and its UPDATE names only the columns
that differ from the loaded ones. Columns it does not name keep the committed value. -/
namespace UnitOfWork

variable {α : Type*} [DecidableEq α] {loaded new committed : α}

/-- The committed value of one column after the session's UPDATE. -/
def writeBack (loaded new committed : α) : α := if new = loaded then committed else new

@[simp] theorem writeBack_unchanged : writeBack loaded loaded committed = committed := by
  simp [writeBack]

theorem writeBack_changed (h : new ≠ loaded) : writeBack loaded new committed = new := by
  simp [writeBack, h]

/-- No update is lost when the session had loaded the committed value. -/
@[simp] theorem writeBack_fresh : writeBack committed new committed = new := by
  by_cases h : new = committed <;> simp [writeBack, h]

/-- A column holds either what was committed or what the session wrote. -/
theorem writeBack_cases : writeBack loaded new committed = committed ∨
    (new ≠ loaded ∧ writeBack loaded new committed = new) := by
  by_cases h : new = loaded
  · exact Or.inl (by simp [writeBack, h])
  · exact Or.inr ⟨h, writeBack_changed h⟩

/-- The write arrives unless it is left out of the UPDATE and the committed value has changed. -/
theorem writeBack_eq_new :
    writeBack loaded new committed = new ↔ (new = loaded → committed = loaded) := by
  by_cases h : new = loaded
  · simp [writeBack, h]
  · simp [writeBack, h]

end UnitOfWork
