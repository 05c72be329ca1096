import Mathlib.Data.Fintype.Basic
import Mathlib.Data.Finset.Attach
import Mathlib.Data.Rat.Defs

/-! Decoded JSON documents, and Python's `==` on them: it compares numbers and booleans by value, so
it identifies documents that are different. -/

/-- A float is its exact value, but the zero with a sign is one of its own. -/
inductive JsonScalar where
  | null
  | bool (b : Bool)
  | int (n : ℤ)
  | float (q : ℚ)
  | negZero
  | str (s : String)
  deriving DecidableEq

/-- An object is a finite map, so its keys have no order and no duplicates. -/
inductive Json where
  | scalar (s : JsonScalar)
  | array (n : ℕ) (item : Fin n → Json)
  | object (keys : Finset String) (value : {k // k ∈ keys} → Json)

namespace JsonScalar

variable {a b : JsonScalar}

/-- The number that a scalar is in arithmetic. -/
def number : JsonScalar → Option ℚ
  | bool b => some (if b then 1 else 0)
  | int n => some n
  | float q => some q
  | negZero => some 0
  | null | str _ => none

def pyEq (a b : JsonScalar) : Bool :=
  match a.number, b.number with
  | some x, some y => x = y
  | none, none => a = b
  | _, _ => false

@[simp] theorem pyEq_refl (a : JsonScalar) : a.pyEq a = true := by
  cases a <;> simp [pyEq, number]

end JsonScalar

namespace Json

def pyEq : Json → Json → Bool
  | scalar a, scalar b => a.pyEq b
  | array n f, array m g =>
    if h : n = m then decide (∀ i, pyEq (f i) (g (Fin.cast h i)) = true) else false
  | object ks f, object ls g =>
    if h : ks = ls then decide (∀ k, pyEq (f k) (g ⟨k.1, h ▸ k.2⟩) = true) else false
  | _, _ => false

/-- One step down into a document. -/
inductive Step where
  | item (i : ℕ)
  | key (k : String)

def child : Json → Step → Option Json
  | array n f, .item i => if h : i < n then some (f ⟨i, h⟩) else none
  | object ks f, .key k => if h : k ∈ ks then some (f ⟨k, h⟩) else none
  | _, _ => none

/-- The value at a position of the document. -/
def valueAt : Json → List Step → Option Json
  | j, [] => some j
  | j, x :: path => (j.child x).bind fun c => c.valueAt path

/-- What `==` compares at one position: scalars, lengths and key sets. -/
def headEq : Json → Json → Prop
  | scalar a, scalar b => a.pyEq b = true
  | array n _, array m _ => n = m
  | object ks _, object ls _ => ks = ls
  | _, _ => False

variable {p q : Json}

/-- Python tells the two documents apart at some position. -/
def Apart (p q : Json) : Prop :=
  ∃ path a b, p.valueAt path = some a ∧ q.valueAt path = some b ∧ ¬ headEq a b

/-- At some position stand two different scalars that Python identifies. -/
def Clash (p q : Json) : Prop :=
  ∃ path a b, p.valueAt path = some (scalar a) ∧ q.valueAt path = some (scalar b) ∧
    a.pyEq b = true ∧ a ≠ b

theorem pyEq_array {n m : ℕ} {f : Fin n → Json} {g : Fin m → Json} (h : n = m) :
    (array n f).pyEq (array m g) = true ↔ ∀ i, (f i).pyEq (g (Fin.cast h i)) = true := by
  simp [pyEq, h]

theorem pyEq_object {ks : Finset String} {f g : {k // k ∈ ks} → Json} :
    (object ks f).pyEq (object ks g) = true ↔ ∀ k, (f k).pyEq (g k) = true := by
  simp [pyEq]

theorem apart_iff : Apart p q ↔ ¬ headEq p q ∨
    ∃ x a b, p.child x = some a ∧ q.child x = some b ∧ Apart a b := by
  constructor
  · rintro ⟨path, a, b, ha, hb, hne⟩
    cases path with
    | nil =>
      cases ha
      cases hb
      exact Or.inl hne
    | cons x path =>
      obtain ⟨c, hc, ha⟩ := Option.bind_eq_some_iff.mp ha
      obtain ⟨d, hd, hb⟩ := Option.bind_eq_some_iff.mp hb
      exact Or.inr ⟨x, c, d, hc, hd, path, a, b, ha, hb, hne⟩
  · rintro (hne | ⟨x, c, d, hc, hd, path, a, b, ha, hb, hne⟩)
    · exact ⟨[], p, q, rfl, rfl, hne⟩
    · exact ⟨x :: path, a, b, by simp [valueAt, hc, ha], by simp [valueAt, hd, hb], hne⟩

theorem clash_of_child {x : Step} {a b : Json} (hp : p.child x = some a) (hq : q.child x = some b)
    (h : Clash a b) : Clash p q := by
  obtain ⟨path, c, d, hc, hd, hne⟩ := h
  exact ⟨x :: path, c, d, by simp [valueAt, hp, hc], by simp [valueAt, hq, hd], hne⟩

theorem apart_array {n : ℕ} {f g : Fin n → Json} :
    Apart (array n f) (array n g) ↔ ∃ i, Apart (f i) (g i) := by
  rw [apart_iff]
  constructor
  · rintro (hne | ⟨x, a, b, ha, hb, h⟩)
    · exact absurd rfl hne
    · cases x with
      | item i =>
        by_cases hi : i < n
        · simp only [child, hi, dite_true, Option.some.injEq] at ha hb
          exact ⟨⟨i, hi⟩, ha ▸ hb ▸ h⟩
        · simp [child, hi] at ha
      | key k => cases ha
  · rintro ⟨i, h⟩
    exact Or.inr ⟨.item i, f i, g i, by simp [child], by simp [child], h⟩

theorem apart_object {ks : Finset String} {f g : {k // k ∈ ks} → Json} :
    Apart (object ks f) (object ks g) ↔ ∃ k, Apart (f k) (g k) := by
  rw [apart_iff]
  constructor
  · rintro (hne | ⟨x, a, b, ha, hb, h⟩)
    · exact absurd rfl hne
    · cases x with
      | item i => cases ha
      | key k =>
        by_cases hk : k ∈ ks
        · simp only [child, hk, dite_true, Option.some.injEq] at ha hb
          exact ⟨⟨k, hk⟩, ha ▸ hb ▸ h⟩
        · simp [child, hk] at ha
  · rintro ⟨k, h⟩
    exact Or.inr ⟨.key k, f k, g k, by simp [child], by simp [child], h⟩

theorem pyEq_iff_of_head (h : ¬ headEq p q) (hpy : p.pyEq q = false) :
    p.pyEq q = true ↔ ¬ Apart p q := by
  have hapart : Apart p q := apart_iff.mpr (Or.inl h)
  simp [hpy, hapart]

theorem not_apart_scalar {a b : JsonScalar} :
    ¬ Apart (scalar a) (scalar b) ↔ a.pyEq b = true := by
  rw [apart_iff]
  simp [headEq, child]

/-- Documents are equal for Python exactly if it finds no position that tells them apart. -/
theorem pyEq_iff (p q : Json) : p.pyEq q = true ↔ ¬ Apart p q := by
  induction p generalizing q with
  | scalar a =>
    cases q with
    | scalar b => exact not_apart_scalar.symm
    | array | object => exact pyEq_iff_of_head id rfl
  | array n f ih =>
    cases q with
    | array m g =>
      by_cases hn : n = m
      · subst hn
        simp [pyEq, apart_array, ih]
      · exact pyEq_iff_of_head hn (by simp [pyEq, hn])
    | scalar | object => exact pyEq_iff_of_head id rfl
  | object ks f ih =>
    cases q with
    | object ls g =>
      by_cases hk : ks = ls
      · subst hk
        simp [pyEq, apart_object, ih]
      · exact pyEq_iff_of_head hk (by simp [pyEq, hk])
    | scalar | array => exact pyEq_iff_of_head id rfl

theorem pyEq_refl (p : Json) : p.pyEq p = true := by
  induction p with
  | scalar a => exact a.pyEq_refl
  | array n f ih => exact (pyEq_array rfl).mpr ih
  | object ks f ih => exact pyEq_object.mpr ih

/-- Of two documents that Python identifies, only scalars can be different. -/
theorem eq_of_pyEq (h : p.pyEq q = true) (hc : ¬ Clash p q) : p = q := by
  induction p generalizing q with
  | scalar a =>
    cases q with
    | scalar b =>
      by_contra hne
      exact hc ⟨[], a, b, rfl, rfl, h, fun heq => hne (heq ▸ rfl)⟩
    | _ => cases h
  | array n f ih =>
    cases q with
    | array m g =>
      by_cases hn : n = m
      · subst hn
        have hitem := (pyEq_array rfl).mp h
        refine congrArg (array n) (funext fun i => ih i (hitem i) ?_)
        exact fun hclash =>
          hc (clash_of_child (x := .item i) (by simp [child]) (by simp [child]) hclash)
      · simp [pyEq, hn] at h
    | _ => cases h
  | object ks f ih =>
    cases q with
    | object ls g =>
      by_cases hk : ks = ls
      · subst hk
        have hvalue := pyEq_object.mp h
        refine congrArg (object ks) (funext fun k => ih k (hvalue k) ?_)
        exact fun hclash =>
          hc (clash_of_child (x := .key k) (by simp [child]) (by simp [child]) hclash)
      · simp [pyEq, hk] at h
    | _ => cases h

/-- Python's comparison decides equality of two documents exactly if every two different scalars that
it identifies come with a position where it tells the documents apart. -/
theorem pyEq_exact_iff : (p.pyEq q = false ↔ p ≠ q) ↔ (Clash p q → Apart p q) := by
  constructor
  · rintro hiff ⟨path, a, b, ha, hb, _, hne⟩
    have hpq : p ≠ q := by
      rintro rfl
      exact hne (Json.scalar.inj (Option.some.inj (ha.symm.trans hb)))
    by_contra hapart
    simp [(pyEq_iff p q).mpr hapart] at hiff
    exact hpq hiff
  · intro himp
    constructor
    · rintro hfalse rfl
      simp [pyEq_refl] at hfalse
    · intro hne
      by_contra htrue
      have hpy : p.pyEq q = true := by simpa using htrue
      have hapart := (pyEq_iff p q).mp hpy
      exact hne (eq_of_pyEq hpy fun hclash => hapart (himp hclash))

end Json
