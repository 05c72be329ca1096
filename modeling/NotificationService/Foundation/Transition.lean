import Mathlib.Logic.Basic
import Mathlib.Data.Option.Basic
import Mathlib.Tactic.Common

/-! Labelled transition systems, finite traces, and the two proof rules used on them. -/
namespace Transition

structure LTS (σ α : Type*) where
  Tr : σ → α → σ → Prop

namespace LTS

variable {σ τ α β : Type*} {T : LTS σ α} {A : LTS τ β} {s t u : σ} {xs ys : List α}

inductive MTr (T : LTS σ α) : σ → List α → σ → Prop where
  | refl {s : σ} : MTr T s [] s
  | stepL {s t u : σ} {a : α} {xs : List α} : T.Tr s a t → MTr T t xs u → MTr T s (a :: xs) u

theorem tr_of_mTr_singleton {a : α} (h : T.MTr s [a] t) : T.Tr s a t := by
  cases h with
  | stepL hstep hrest =>
    cases hrest
    exact hstep

theorem MTr.concat {a : α} (h : T.MTr s xs t) (hstep : T.Tr t a u) : T.MTr s (xs ++ [a]) u := by
  induction h with
  | refl => exact .stepL hstep .refl
  | stepL h _ ih => exact .stepL h (ih hstep)

theorem MTr.append (h : T.MTr s xs t) (h' : T.MTr t ys u) : T.MTr s (xs ++ ys) u := by
  induction h with
  | refl => exact h'
  | stepL hstep _ ih => exact .stepL hstep (ih h')

/-- A predicate that no transition can falsify. -/
def TrInv (T : LTS σ α) (P : σ → Prop) : Prop := ∀ s a t, T.Tr s a t → P s → P t

/-- Run rule: what every transition preserves, every trace preserves. -/
theorem mtrInv_of_trInv {P : σ → Prop} (h : T.TrInv P) (hx : T.MTr s xs t) (hs : P s) : P t := by
  induction hx with
  | refl => exact hs
  | stepL hstep _ ih => exact ih (h _ _ _ hstep hs)

/-- The run rule for a predicate that also speaks of the labels so far. -/
theorem mtrInv_of_trInv_labels {P : List α → σ → Prop} {ys : List α}
    (h : ∀ xs s a t, T.Tr s a t → P xs s → P (xs ++ [a]) t) (hx : T.MTr s xs t) (hs : P ys s) :
    P (ys ++ xs) t := by
  induction hx generalizing ys with
  | refl => simpa using hs
  | stepL hstep _ ih => simpa using ih (h _ _ _ _ hstep hs)

/-- The transitions that meet a side condition on their source state and label. -/
def restrict (T : LTS σ α) (C : σ → α → Prop) : LTS σ α := ⟨fun s a t => C s a ∧ T.Tr s a t⟩

theorem MTr.of_restrict {C : σ → α → Prop} (h : (T.restrict C).MTr s xs t) : T.MTr s xs t := by
  induction h with
  | refl => exact .refl
  | stepL h _ ih => exact .stepL h.2 ih

/-- What no transition restores held all along if it holds at the end. -/
theorem MTr.of_back {I P : σ → Prop} (hinv : T.TrInv I)
    (hback : ∀ s a t, T.Tr s a t → I s → P t → P s) (hx : T.MTr s xs t) (hi : I s) (ht : P t) :
    P s := by
  induction hx with
  | refl => exact ht
  | stepL hstep _ ih => exact hback _ _ _ hstep hi (ih (hinv _ _ _ hstep hi) ht)

/-- Where a condition decides whether one step keeps a property, and no step restores it, the
property at the end of a run decides whether all its steps met the condition. -/
theorem MTr.restrict_iff {C : σ → α → Prop} {I P : σ → Prop} (hinv : T.TrInv I)
    (hstep : ∀ s a t, T.Tr s a t → I s → P s → (P t ↔ C s a))
    (hback : ∀ s a t, T.Tr s a t → I s → P t → P s) (hx : T.MTr s xs t) (hi : I s) (hs : P s) :
    P t ↔ (T.restrict C).MTr s xs t := by
  constructor
  · intro ht
    induction hx with
    | refl => exact .refl
    | stepL h hrest ih =>
      have hi' := hinv _ _ _ h hi
      have hmid := hrest.of_back hinv hback hi' ht
      exact .stepL ⟨(hstep _ _ _ h hi hs).mp hmid, h⟩ (ih hi' hmid ht)
  · intro hrun
    have hboth : (T.restrict C).TrInv fun s => I s ∧ P s := by
      rintro s a t ⟨hc, h⟩ ⟨hi, hs⟩
      exact ⟨hinv _ _ _ h hi, (hstep _ _ _ h hi hs).mpr hc⟩
    exact (mtrInv_of_trInv hboth hrun ⟨hi, hs⟩).2

/-- Where a step that breaks the condition loses the property for good, the property at the end of
a run decides whether all its steps met the condition. -/
theorem MTr.restrict_iff_of_lost {C : σ → α → Prop} {P L : σ → Prop}
    (hkeep : ∀ s a t, T.Tr s a t → P s → C s a → P t)
    (hlose : ∀ s a t, T.Tr s a t → P s → ¬ C s a → L t) (hlost : T.TrInv L)
    (hdisj : ∀ s, P s → ¬ L s) (hx : T.MTr s xs t) (hs : P s) :
    P t ↔ (T.restrict C).MTr s xs t := by
  have hinv : T.TrInv fun s => P s ∨ L s := by
    intro s a t h hor
    rcases hor with hp | hl
    · by_cases hc : C s a
      · exact Or.inl (hkeep s a t h hp hc)
      · exact Or.inr (hlose s a t h hp hc)
    · exact Or.inr (hlost s a t h hl)
  refine hx.restrict_iff hinv ?_ ?_ (Or.inl hs) hs
  · intro s a t h _ hp
    refine ⟨?_, hkeep s a t h hp⟩
    intro ht
    by_contra hc
    exact hdisj t ht (hlose s a t h hp hc)
  · intro s a t h hor ht
    exact hor.resolve_right fun hl => hdisj t ht (hlost s a t h hl)

/-- A condition on labels alone is one on the labels of the trace. -/
theorem MTr.restrict_label {C : α → Prop} :
    (T.restrict fun _ a => C a).MTr s xs t ↔ (∀ a ∈ xs, C a) ∧ T.MTr s xs t := by
  constructor
  · intro h
    induction h with
    | refl => exact ⟨nofun, .refl⟩
    | stepL hstep _ ih => exact ⟨List.forall_mem_cons.mpr ⟨hstep.1, ih.1⟩, .stepL hstep.2 ih.2⟩
  · rintro ⟨hc, h⟩
    induction h with
    | refl => exact .refl
    | stepL hstep _ ih =>
      obtain ⟨ha, hrest⟩ := List.forall_mem_cons.mp hc
      exact .stepL ⟨ha, hstep⟩ (ih hrest)

/-- `f` maps every transition from a state in `I` to an abstract one, or hides it. -/
structure Refines (T : LTS σ α) (A : LTS τ β) (f : σ → τ) (I : σ → Prop) : Prop where
  inv : T.TrInv I
  step : ∀ s a t, T.Tr s a t → I s → f t = f s ∨ ∃ b, A.Tr (f s) b (f t)

/-- An invariant of the abstract system may be assumed of the images of concrete states. -/
theorem Refines.of_abstract {f : σ → τ} {I : σ → Prop} {P : τ → Prop} (hA : A.TrInv P)
    (hinv : ∀ s a t, T.Tr s a t → I s → P (f s) → I t)
    (hstep : ∀ s a t, T.Tr s a t → I s → P (f s) → f t = f s ∨ ∃ b, A.Tr (f s) b (f t)) :
    T.Refines A f (fun s => I s ∧ P (f s)) where
  inv := by
    rintro s a t h ⟨hs, hp⟩
    refine ⟨hinv s a t h hs hp, ?_⟩
    rcases hstep s a t h hs hp with heq | ⟨b, hb⟩
    · exact heq ▸ hp
    · exact hA _ _ _ hb hp
  step := by
    rintro s a t h ⟨hs, hp⟩
    exact hstep s a t h hs hp

theorem Refines.mTr {f : σ → τ} {I : σ → Prop} (h : T.Refines A f I) (hx : T.MTr s xs t)
    (hs : I s) : ∃ ys, A.MTr (f s) ys (f t) := by
  induction hx with
  | refl => exact ⟨[], .refl⟩
  | stepL hstep _ ih =>
    obtain ⟨ys, hys⟩ := ih (h.inv _ _ _ hstep hs)
    rcases h.step _ _ _ hstep hs with heq | ⟨b, hb⟩
    · exact ⟨ys, heq ▸ hys⟩
    · exact ⟨b :: ys, .stepL hb hys⟩

/-! ### Counting the labels of a trace -/

/-- Amortised rule: if a label in `p` pays one from a rank that only a label in `q` raises, by at
most `k`, the trace has not many more labels in `p` than the initial rank and its labels in `q`
allow. -/
theorem MTr.countP_le {I : σ → Prop} {r : σ → ℕ} {p q : α → Bool} {k : ℕ} (hinv : T.TrInv I)
    (hrank : ∀ s a t, T.Tr s a t → I s → r t + (p a).toNat ≤ r s + k * (q a).toNat)
    (hx : T.MTr s xs t) (hi : I s) : r t + xs.countP p ≤ r s + k * xs.countP q := by
  induction hx with
  | refl => simp
  | @stepL s u t a xs hstep _ ih =>
    have hone := hrank _ _ _ hstep hi
    have hrest := ih (hinv _ _ _ hstep hi)
    have hp : (a :: xs).countP p = xs.countP p + (p a).toNat := by
      cases h : p a <;> simp [h]
    have hq : (a :: xs).countP q = xs.countP q + (q a).toNat := by
      cases h : q a <;> simp [h]
    rw [hp, hq, Nat.mul_add]
    omega

/-- The rank itself, where no label has to pay. -/
theorem MTr.rank_le {I : σ → Prop} {r : σ → ℕ} {q : α → Bool} {k : ℕ} (hinv : T.TrInv I)
    (hrank : ∀ s a t, T.Tr s a t → I s → r t ≤ r s + k * (q a).toNat)
    (hx : T.MTr s xs t) (hi : I s) : r t ≤ r s + k * xs.countP q :=
  Nat.le_trans (Nat.le_add_right _ _) (hx.countP_le (p := fun _ => false) hinv hrank hi)

/-! ### What can still be reached -/

/-- Some continuation ends in a state with `P`. -/
def Leads (T : LTS σ α) (s : σ) (P : σ → Prop) : Prop := ∃ xs t, T.MTr s xs t ∧ P t

theorem leads_now {P : σ → Prop} (h : P s) : T.Leads s P := ⟨[], s, .refl, h⟩

theorem leads_step {P : σ → Prop} {a : α} (h : T.Tr s a t) (ht : T.Leads t P) : T.Leads s P := by
  obtain ⟨xs, u, hx, hu⟩ := ht
  exact ⟨a :: xs, u, .stepL h hx, hu⟩

/-! ### Components of a larger system -/

/-- The state is related to one that `A` reaches from one of its initial states. -/
def Tracks (A : LTS τ β) (init : τ → Prop) (R : σ → τ → Prop) (s : σ) : Prop :=
  ∃ w₀ ys w, init w₀ ∧ A.MTr w₀ ys w ∧ R s w

theorem Tracks.start {init : τ → Prop} {R : σ → τ → Prop} {w : τ} (hw : init w) (hr : R s w) :
    A.Tracks init R s :=
  ⟨w, [], w, hw, .refl, hr⟩

/-- A step of the larger system is hidden from the component, or is a step of the component. -/
theorem Tracks.step {init : τ → Prop} {R : σ → τ → Prop} (h : A.Tracks init R s)
    (hstep : ∀ w, R s w → R t w ∨ ∃ b w', A.Tr w b w' ∧ R t w') : A.Tracks init R t := by
  obtain ⟨w₀, ys, w, hw, hrun, hr⟩ := h
  rcases hstep w hr with hsame | ⟨b, w', htr, hr'⟩
  · exact ⟨w₀, ys, w, hw, hrun, hsame⟩
  · exact ⟨w₀, ys ++ [b], w', hw, hrun.concat htr, hr'⟩

/-- An invariant of the component holds of it inside the larger system. -/
theorem Tracks.inv {init : τ → Prop} {R : σ → τ → Prop} {P : τ → Prop} (h : A.Tracks init R s)
    (hP : A.TrInv P) (hinit : ∀ w, init w → P w) : ∃ w, R s w ∧ P w := by
  obtain ⟨w₀, ys, w, hw, hrun, hr⟩ := h
  exact ⟨w, hr, mtrInv_of_trInv hP hrun (hinit w₀ hw)⟩

/-! ### Systems given by an executable step function -/

variable {step : σ → α → Option σ}

def ofStep (step : σ → α → Option σ) : LTS σ α := ⟨fun s a t => step s a = some t⟩

/-- Take the listed actions in order, or fail at the first one that is not enabled. -/
def run (step : σ → α → Option σ) : σ → List α → Option σ
  | s, [] => some s
  | s, a :: xs => (step s a).bind fun t => run step t xs

/-- The sum of the weights of the steps that the listed actions take. -/
def cost (step : σ → α → Option σ) (w : σ → α → ℕ) : σ → List α → ℕ
  | _, [] => 0
  | s, a :: xs => w s a + (step s a).elim 0 fun t => cost step w t xs

theorem cost_cons {w : σ → α → ℕ} {a : α} (h : step s a = some t) :
    cost step w s (a :: xs) = w s a + cost step w t xs := by
  simp [cost, h]

theorem mTr_ofStep : (ofStep step).MTr s xs t ↔ run step s xs = some t := by
  constructor
  · intro h
    induction h with
    | refl => rfl
    | stepL h _ ih => simpa only [run, show step _ _ = some _ from h, Option.bind_some] using ih
  · intro h
    induction xs generalizing s with
    | nil => simp only [run, Option.some.injEq] at h; exact h ▸ .refl
    | cons a xs ih =>
      obtain ⟨u, hu, hx⟩ := Option.bind_eq_some_iff.mp h
      exact .stepL hu (ih hx)

/-- The executable form of `restrict`, for a decidable side condition. -/
def guarded (C : σ → α → Prop) [∀ s a, Decidable (C s a)] (step : σ → α → Option σ) (s : σ)
    (a : α) :
    Option σ :=
  if C s a then step s a else none

theorem mTr_guarded {C : σ → α → Prop} [∀ s a, Decidable (C s a)]
    (h : run (guarded C step) s xs = some t) : ((ofStep step).restrict C).MTr s xs t := by
  induction xs generalizing s with
  | nil => simp only [run, Option.some.injEq] at h; exact h ▸ .refl
  | cons a xs ih =>
    obtain ⟨u, hu, hx⟩ := Option.bind_eq_some_iff.mp h
    by_cases hc : C s a
    · have hstep : step s a = some u := by simpa [guarded, hc] using hu
      exact .stepL ⟨hc, hstep⟩ (ih hx)
    · simp [guarded, hc] at hu

/-- A run, read off one evaluation of something about its last state. -/
theorem exists_mTr {f : σ → β} {b : β} (h : (run step s xs).map f = some b) :
    ∃ t, (ofStep step).MTr s xs t ∧ f t = b := by
  obtain ⟨t, ht, hf⟩ := Option.map_eq_some_iff.mp h
  exact ⟨t, mTr_ofStep.mpr ht, hf⟩

/-- Two consecutive runs. -/
theorem exists_mTrs {f : σ → σ → β} {b : β}
    (h : ((run step s xs).bind fun t => (run step t ys).map (f t)) = some b) :
    ∃ t u, (ofStep step).MTr s xs t ∧ (ofStep step).MTr t ys u ∧ f t u = b := by
  obtain ⟨t, ht, hb⟩ := Option.bind_eq_some_iff.mp h
  obtain ⟨u, hu, hf⟩ := exists_mTr hb
  exact ⟨t, u, mTr_ofStep.mpr ht, hu, hf⟩

variable {C : σ → α → Prop} [∀ s a, Decidable (C s a)]

theorem exists_mTr_guarded {f : σ → β} {b : β}
    (h : (run (guarded C step) s xs).map f = some b) :
    ∃ t, ((ofStep step).restrict C).MTr s xs t ∧ f t = b := by
  obtain ⟨t, ht, hf⟩ := Option.map_eq_some_iff.mp h
  exact ⟨t, mTr_guarded ht, hf⟩

theorem exists_mTrs_guarded {f : σ → σ → β} {b : β}
    (h : ((run (guarded C step) s xs).bind fun t => (run (guarded C step) t ys).map (f t)) =
      some b) :
    ∃ t u, ((ofStep step).restrict C).MTr s xs t ∧ ((ofStep step).restrict C).MTr t ys u ∧
      f t u = b := by
  obtain ⟨t, ht, hb⟩ := Option.bind_eq_some_iff.mp h
  obtain ⟨u, hu, hf⟩ := exists_mTr_guarded hb
  exact ⟨t, u, mTr_guarded ht, hu, hf⟩

end LTS

end Transition
