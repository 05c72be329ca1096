import Mathlib.Data.Finset.Basic
import Mathlib.Logic.Function.Basic

/-! Templates of text, placeholders, conditionals and loops: the names that are free in them, the
names that a compiler looks up from the context, and what they render to. -/
namespace TemplateLanguage

variable {ν : Type*} [DecidableEq ν]

/-- A node and the nodes after it. -/
inductive Block (ν : Type*) where
  | done
  | text (s : String) (rest : Block ν)
  | output (name : ν) (rest : Block ν)
  | cond (name : ν) (body rest : Block ν)
  | each (target name : ν) (body rest : Block ν)
  deriving DecidableEq, Repr

namespace Block

/-- The free names; a loop binds its target and `loop` in its body. -/
def free (loop : ν) : Block ν → Finset ν
  | .done => ∅
  | .text _ rest => rest.free loop
  | .output name rest => {name} ∪ rest.free loop
  | .cond name body rest => {name} ∪ body.free loop ∪ rest.free loop
  | .each target name body rest => {name} ∪ (body.free loop \ {target, loop}) ∪ rest.free loop

/-- The names looked up from the context, where the enclosing loops bind those in `bound`. -/
def lookups (loop : ν) (bound : Finset ν) : Block ν → Finset ν
  | .done => ∅
  | .text _ rest => rest.lookups loop bound
  | .output name rest => lookup bound name ∪ rest.lookups loop bound
  | .cond name body rest =>
    lookup bound name ∪ body.lookups loop bound ∪ rest.lookups loop bound
  | .each target name body rest =>
    lookup bound name ∪ body.lookups loop (bound ∪ {target, loop}) ∪ rest.lookups loop bound
where
  lookup (bound : Finset ν) (name : ν) : Finset ν := if name ∈ bound then ∅ else {name}

end Block

/-- What rendering does with values: `forEach` runs its second argument on each item and the loop's
own value, in any order and with any effects. -/
structure Runtime (m : Type → Type*) (α : Type*) where
  str : α → m String
  test : α → m Bool
  forEach : α → (α → α → m String) → m String

variable {m : Type → Type*} [Monad m] {α : Type*}

/-- `env` gives each name the value that it has at this place. -/
def Block.render (R : Runtime m α) (loop : ν) (env : ν → α) : Block ν → m String
  | .done => pure ""
  | .text s rest => do
    let after ← rest.render R loop env
    return s ++ after
  | .output name rest => do
    let s ← R.str (env name)
    let after ← rest.render R loop env
    return s ++ after
  | .cond name body rest => do
    let taken ← R.test (env name)
    let s ← if taken then body.render R loop env else pure ""
    let after ← rest.render R loop env
    return s ++ after
  | .each target name body rest => do
    let s ← R.forEach (env name) fun item l =>
      body.render R loop (Function.update (Function.update env target item) loop l)
    let after ← rest.render R loop env
    return s ++ after

variable {R : Runtime m α} {loop : ν} {env env' : ν → α} {bound : Finset ν} {b : Block ν}

theorem lookup_eq (bound : Finset ν) (name : ν) :
    Block.lookups.lookup bound name = {name} \ bound := by
  by_cases hmem : name ∈ bound
  · have hsub : {name} ⊆ bound := Finset.singleton_subset_iff.mpr hmem
    rw [Block.lookups.lookup, if_pos hmem, Finset.sdiff_eq_empty_iff_subset.mpr hsub]
  · have hdisj : Disjoint {name} bound := Finset.disjoint_singleton_left.mpr hmem
    rw [Block.lookups.lookup, if_neg hmem, Finset.sdiff_eq_self_of_disjoint hdisj]

/-- Both traversals agree on scoping: the names looked up are the free ones that no loop binds. -/
theorem lookups_eq (b : Block ν) (bound : Finset ν) :
    b.lookups loop bound = b.free loop \ bound := by
  induction b generalizing bound with
  | done => exact (Finset.empty_sdiff bound).symm
  | text s rest ih => exact ih bound
  | output name rest ih => rw [Block.lookups, Block.free, lookup_eq, ih, Finset.union_sdiff_distrib]
  | cond name body rest ihbody ihrest =>
    rw [Block.lookups, Block.free, lookup_eq, ihbody, ihrest, Finset.union_sdiff_distrib,
      Finset.union_sdiff_distrib]
  | each target name body rest ihbody ihrest =>
    rw [Block.lookups, Block.free, lookup_eq, ihbody, ihrest, Finset.union_sdiff_distrib,
      Finset.union_sdiff_distrib, sdiff_sdiff_left, Finset.union_comm bound]
    rfl

theorem lookups_empty (b : Block ν) : b.lookups loop ∅ = b.free loop := by
  rw [lookups_eq, Finset.sdiff_empty]

/-- Rendering depends only on the values of the free names. -/
theorem render_congr (h : ∀ name ∈ b.free loop, env name = env' name) :
    b.render R loop env = b.render R loop env' := by
  induction b generalizing env env' with
  | done => rfl
  | text s rest ih => rw [Block.render, Block.render, ih h]
  | output name rest ih =>
    have hname : env name = env' name := h name (by simp [Block.free])
    have hrest := ih fun x hx => h x (by simp [Block.free, hx])
    rw [Block.render, Block.render, hname, hrest]
  | cond name body rest ihbody ihrest =>
    have hname : env name = env' name := h name (by simp [Block.free])
    have hbody := ihbody fun x hx => h x (by simp [Block.free, hx])
    have hrest := ihrest fun x hx => h x (by simp [Block.free, hx])
    rw [Block.render, Block.render, hname, hbody, hrest]
  | each target name body rest ihbody ihrest =>
    have hname : env name = env' name := h name (by simp [Block.free])
    have hrest := ihrest fun x hx => h x (by simp [Block.free, hx])
    have hbody : ∀ item l,
        body.render R loop (Function.update (Function.update env target item) loop l) =
          body.render R loop (Function.update (Function.update env' target item) loop l) := by
      intro item l
      refine ihbody ?_
      intro x hx
      by_cases hloop : x = loop
      · simp [hloop]
      · by_cases htarget : x = target
        · simp [htarget, Function.update_apply]
        · simpa [hloop, htarget] using h x (by simp [Block.free, hx, hloop, htarget])
    simp only [Block.render, hname, hbody, hrest]

end TemplateLanguage
