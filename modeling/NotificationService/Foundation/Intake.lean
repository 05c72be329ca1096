import NotificationService.Foundation.Transition

/-! A system whose inputs are checked before it gets them: one that fails the check is refused, and
the system never sees it. -/
namespace Transition

/-- An input from outside, or an action of the system itself. -/
inductive Arrival (ι α : Type*) where
  | input (x : ι)
  | act (a : α)
  deriving DecidableEq, Repr

/-- The system, and the inputs that were refused, with what the check said of each. -/
structure Intake (σ ι ε : Type*) where
  inner : σ
  refused : List (ι × ε)

namespace Intake

variable {σ α ι ε : Type*} {check : ι → Except ε α} {step : σ → α → Option σ}
  {s t : Intake σ ι ε} {xs : List (Arrival ι α)} {x : ι} {e : ε}

def initial (s : σ) : Intake σ ι ε := ⟨s, []⟩

/-- The action that an arrival stands for. -/
def action (check : ι → Except ε α) : Arrival ι α → Except ε α
  | .input x => check x
  | .act a => .ok a

/-- What the system gets to see of an arrival. -/
def admitted (check : ι → Except ε α) (b : Arrival ι α) : Option α := (action check b).toOption

def checked (check : ι → Except ε α) (step : σ → α → Option σ) (s : Intake σ ι ε) :
    Arrival ι α → Option (Intake σ ι ε)
  | .act a => (step s.inner a).map fun t => { s with inner := t }
  | .input x =>
    match check x with
    | .ok a => (step s.inner a).map fun t => { s with inner := t }
    | .error e => some { s with refused := s.refused ++ [(x, e)] }

def sys (check : ι → Except ε α) (step : σ → α → Option σ) : LTS (Intake σ ι ε) (Arrival ι α) :=
  LTS.ofStep (checked check step)

/-- What a step does: the system takes an action, or an input is refused. -/
inductive Step (check : ι → Except ε α) (step : σ → α → Option σ) (s : Intake σ ι ε) :
    Arrival ι α → Intake σ ι ε → Prop where
  | admitted {b : Arrival ι α} {a : α} {u : σ} : action check b = .ok a → step s.inner a = some u →
      Step check step s b { s with inner := u }
  | refused {x : ι} {e : ε} : check x = .error e →
      Step check step s (.input x) { s with refused := s.refused ++ [(x, e)] }

theorem step_cases {b : Arrival ι α} (h : (sys check step).Tr s b t) : Step check step s b t := by
  cases b with
  | act a =>
    obtain ⟨u, hu, rfl⟩ := Option.map_eq_some_iff.mp h
    exact .admitted rfl hu
  | input x =>
    change checked check step s (.input x) = some t at h
    cases hx : check x with
    | ok a =>
      simp only [checked, hx] at h
      obtain ⟨u, hu, rfl⟩ := Option.map_eq_some_iff.mp h
      exact .admitted hx hu
    | error e =>
      simp only [checked, hx, Option.some.injEq] at h
      exact h ▸ .refused hx

/-- Behind the check the system runs as if the refused inputs had not come. -/
theorem mTr_inner (h : (sys check step).MTr s xs t) :
    (LTS.ofStep step).MTr s.inner (xs.filterMap (admitted check)) t.inner := by
  induction h with
  | refl => exact .refl
  | @stepL s u t b xs hstep _ ih =>
    cases step_cases hstep with
    | @admitted _ a _ hb hu =>
      have hsome : admitted check b = some a := by simp [admitted, hb, Except.toOption]
      rw [List.filterMap_cons_some hsome]
      exact .stepL hu ih
    | @refused x e he =>
      have hnone : admitted check (.input x) = none := by
        simp [admitted, action, he, Except.toOption]
      rw [List.filterMap_cons_none hnone]
      exact ih

/-- Refused is exactly what came and failed the check. -/
theorem mem_refused (h : (sys check step).MTr s xs t) :
    (x, e) ∈ t.refused ↔ (x, e) ∈ s.refused ∨ (.input x ∈ xs ∧ check x = .error e) := by
  induction h with
  | refl => simp
  | @stepL s u t b xs hstep _ ih =>
    rw [ih]
    cases step_cases hstep with
    | @admitted _ a _ hb =>
      have hother : .input x = b → check x ≠ .error e := by
        rintro rfl he
        cases hb.symm.trans he
      simp only [List.mem_cons]
      tauto
    | @refused y e' he =>
      have hnew : (x, e) ∈ s.refused ++ [(y, e')] ↔
          (x, e) ∈ s.refused ∨ (x = y ∧ check x = .error e) := by
        rw [List.mem_append, List.mem_singleton, Prod.mk.injEq]
        refine or_congr_right (and_congr_right ?_)
        rintro rfl
        rw [he, Except.error.injEq, eq_comm]
      simp only [hnew, List.mem_cons, Arrival.input.injEq]
      tauto

theorem mem_refused_initial {u : σ} (h : (sys check step).MTr (.initial u) xs t) :
    (x, e) ∈ t.refused ↔ .input x ∈ xs ∧ check x = .error e := by
  rw [mem_refused h]
  simp [initial]

theorem map_eq_error_iff {β : Type*} {r : Except ε β} {f : β → α} :
    r.map f = .error e ↔ r = .error e := by
  cases r <;> simp [Except.map]

end Intake

end Transition
