import Mathlib.Logic.Function.Basic
import Mathlib.Data.Option.Basic
import Mathlib.Tactic.Common

/-! A key-value store with an expiry on every entry, such as Redis keys set with EX. -/
namespace ExpiringStore

variable {κ α : Type*} {k l : κ} {v w : α} {now t : ℕ}

structure Entry (α : Type*) where
  value : α
  expiresAt : ℕ

abbrev Store (κ α : Type*) := κ → Option (Entry α)

def empty : Store κ α := fun _ => none

def get (st : Store κ α) (k : κ) : Option α := (st k).map (·.value)

/-- The entries that are left when the clock reaches `now`. -/
def expire (now : ℕ) (st : Store κ α) : Store κ α := fun k => (st k).filter (now < ·.expiresAt)

def set [DecidableEq κ] (st : Store κ α) (k : κ) (v : α) (expiresAt : ℕ) : Store κ α :=
  Function.update st k (some ⟨v, expiresAt⟩)

def del [DecidableEq κ] (st : Store κ α) (k : κ) : Store κ α := Function.update st k none

variable {st : Store κ α}

/-- The entry under the key is gone when the clock reaches `now`. -/
def expires (now : ℕ) (st : Store κ α) (k : κ) : Bool := (st k).any (·.expiresAt ≤ now)

theorem get_expire_of_not_expires (h : expires now st k = false) :
    get (expire now st) k = get st k := by
  unfold expires at h
  cases he : st k with
  | none => simp [get, expire, he]
  | some e =>
    have hlt : now < e.expiresAt := by simpa [he] using h
    simp [get, expire, he, hlt]

/-- Expiry only removes entries. -/
theorem get_of_get_expire (h : get (expire now st) k = some v) : get st k = some v := by
  simp only [get, expire, Option.map_eq_some_iff, Option.filter_eq_some_iff] at h ⊢
  obtain ⟨e, ⟨he, _⟩, hv⟩ := h
  exact ⟨e, he, hv⟩

/-- The entries with `P` are alive at `now`, and none of them after its limit. -/
def Lapses (P : α → Prop) (now : ℕ) (limit : α → ℕ) (st : Store κ α) : Prop :=
  ∀ k e, st k = some e → P e.value → now < e.expiresAt ∧ e.expiresAt ≤ limit e.value

variable {P : α → Prop} {limit limit' : α → ℕ}

theorem Lapses.expire (h : Lapses P t limit st) (hle : ∀ v, limit v ≤ limit' v) :
    Lapses P now limit' (expire now st) := by
  intro k e he hp
  obtain ⟨he, halive⟩ := Option.filter_eq_some_iff.mp he
  exact ⟨by simpa using halive, Nat.le_trans (h k e he hp).2 (hle _)⟩

theorem Lapses.lt (h : Lapses P now limit st) (hget : get st k = some v) (hp : P v) :
    now < limit v := by
  obtain ⟨e, he, rfl⟩ := Option.map_eq_some_iff.mp hget
  obtain ⟨halive, hle⟩ := h k e he hp
  exact Nat.lt_of_lt_of_le halive hle

variable [DecidableEq κ]

theorem Lapses.set (h : Lapses P now limit st) (hv : P v → now < t ∧ t ≤ limit v) :
    Lapses P now limit (set st k v t) := by
  intro l e he hp
  by_cases hl : l = k
  · subst hl
    simp only [ExpiringStore.set, Function.update_self, Option.some.injEq] at he
    subst he
    exact hv hp
  · exact h l e (by simpa [ExpiringStore.set, hl] using he) hp

theorem Lapses.del (h : Lapses P now limit st) : Lapses P now limit (del st k) := by
  intro l e he hp
  by_cases hl : l = k
  · simp [ExpiringStore.del, hl] at he
  · exact h l e (by simpa [ExpiringStore.del, hl] using he) hp

@[simp] theorem get_set_self : get (set st k v t) k = some v := by
  simp [get, set]

theorem get_set_of_ne (h : l ≠ k) : get (set st k v t) l = get st l := by
  simp [get, set, h]

@[simp] theorem get_del_self : get (del st k) k = none := by
  simp [get, del]

theorem get_del_of_ne (h : l ≠ k) : get (del st k) l = get st l := by
  simp [get, del, h]

theorem get_set_cases (h : get (set st k v t) l = some w) :
    (l = k ∧ w = v) ∨ get st l = some w := by
  by_cases hl : l = k
  · subst hl
    exact Or.inl ⟨rfl, by simpa using h.symm⟩
  · exact Or.inr (get_set_of_ne hl ▸ h)

theorem get_of_get_del (h : get (del st k) l = some v) : get st l = some v := by
  by_cases hl : l = k
  · subst hl
    simp at h
  · exact get_del_of_ne hl ▸ h

end ExpiringStore
