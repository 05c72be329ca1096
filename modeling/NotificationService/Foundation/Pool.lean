import Mathlib.Algebra.BigOperators.Group.List.Basic
import Mathlib.Data.List.Basic
import Mathlib.Data.List.Nodup
import Mathlib.Logic.Function.Basic
import Mathlib.Order.Basic
import Mathlib.Tactic.Common

/-! A pool of processes is a list that only grows; a process steps by replacing its entry. -/
namespace Pool

variable {α : Type*} {l : List α} {i : ℕ} {a e x : α} {P Q : α → Prop} {p : α → Bool}

/-- A property of all processes survives a step of one if its new state has it. -/
theorem forall_set (hl : ∀ x ∈ l, P x) (ha : P a) : ∀ x ∈ l.set i a, P x := by
  intro x hx
  rcases List.mem_or_eq_of_mem_set hx with hx | rfl
  · exact hl x hx
  · exact ha

/-- The same for a property that depends on the index of a process. -/
theorem forall_getElem?_set {R : ℕ → α → Prop} (hl : ∀ j x, l[j]? = some x → R j x) (ha : R i a) :
    ∀ j x, (l.set i a)[j]? = some x → R j x := by
  intro j x hx
  by_cases hij : i = j
  · subst hij
    rw [List.getElem?_set_self'] at hx
    obtain ⟨_, _, rfl⟩ := Option.map_eq_some_iff.mp hx
    exact ha
  · rw [List.getElem?_set_ne hij] at hx
    exact hl j x hx

theorem forall_getElem?_concat {R : ℕ → α → Prop} (hl : ∀ j x, l[j]? = some x → R j x)
    (ha : R l.length a) : ∀ j x, (l ++ [a])[j]? = some x → R j x := by
  intro j x hx
  rcases Nat.lt_or_ge j l.length with hj | hj
  · exact hl j x (List.getElem?_append_left hj ▸ hx)
  · rw [List.getElem?_append_right hj, List.getElem?_singleton] at hx
    split at hx
    · simp only [Option.some.injEq] at hx
      have hj : j = l.length := by omega
      exact hj ▸ hx ▸ ha
    · cases hx

/-- What some process at an index satisfies survives a step that does not take it away. -/
theorem exists_getElem?_set {j : ℕ} (h : l[i]? = some e) (hP : j = i → P e → P a)
    (hj : ∃ x, l[j]? = some x ∧ P x) : ∃ x, (l.set i a)[j]? = some x ∧ P x := by
  obtain ⟨x, hx, hp⟩ := hj
  by_cases hij : i = j
  · subst hij
    cases h.symm.trans hx
    refine ⟨a, ?_, hP rfl hp⟩
    rw [List.getElem?_set_self (List.getElem?_eq_some_iff.mp h).1]
  · exact ⟨x, by rw [List.getElem?_set_ne hij, hx], hp⟩

theorem exists_getElem?_concat {j : ℕ} (hj : ∃ x, l[j]? = some x ∧ P x) :
    ∃ x, (l ++ [a])[j]? = some x ∧ P x := by
  obtain ⟨x, hx, hp⟩ := hj
  exact ⟨x, by rw [List.getElem?_append_left (List.getElem?_eq_some_iff.mp hx).1, hx], hp⟩

theorem forall_concat (hl : ∀ x ∈ l, P x) (ha : P a) : ∀ x ∈ l ++ [a], P x := by
  intro x hx
  rcases List.mem_append.mp hx with hx | hx
  · exact hl x hx
  · exact List.mem_singleton.mp hx ▸ ha

/-- Nothing is lost by a step but the old state of the process that steps. -/
theorem mem_set_or_eq (h : l[i]? = some e) (hx : x ∈ l) : x ∈ l.set i a ∨ x = e := by
  obtain ⟨j, hj⟩ := List.mem_iff_getElem?.mp hx
  by_cases hij : i = j
  · subst hij
    exact Or.inr (Option.some.inj (hj.symm.trans h))
  · refine Or.inl (List.mem_iff_getElem?.mpr ⟨j, ?_⟩)
    rw [List.getElem?_set_ne hij, hj]

/-- `List.countP_set` without its subtraction. -/
theorem countP_set (h : l[i]? = some e) :
    (l.set i a).countP p + (p e).toNat = l.countP p + (p a).toNat := by
  obtain ⟨hi, rfl⟩ := List.getElem?_eq_some_iff.mp h
  rw [List.countP_set hi]
  cases hp : p l[i]
  · cases p a <;> simp
  · have hpos : 0 < l.countP p := List.countP_pos_iff.mpr ⟨_, List.getElem_mem hi, hp⟩
    cases p a <;> simp <;> omega

theorem countP_set_eq (h : l[i]? = some e) (hp : p a = p e) :
    (l.set i a).countP p = l.countP p := by
  have hset := countP_set (a := a) (p := p) h
  rw [hp] at hset
  omega

theorem countP_set_le (h : l[i]? = some e) (hp : p a = false) :
    (l.set i a).countP p ≤ l.countP p := by
  have hset := countP_set (a := a) (p := p) h
  simp only [hp, Bool.toNat_false] at hset
  omega

theorem countP_set_le_of_imp (h : l[i]? = some e) (hp : p a = true → p e = true) :
    (l.set i a).countP p ≤ l.countP p := by
  cases ha : p a with
  | true => exact Nat.le_of_eq (countP_set_eq h (ha.trans (hp ha).symm))
  | false => exact countP_set_le h ha

/-- A stronger predicate that some member fails counts fewer. -/
theorem countP_lt {q : α → Bool} (hpq : ∀ x ∈ l, p x = true → q x = true) (ha : a ∈ l)
    (hp : p a = false) (hq : q a = true) : l.countP p < l.countP q := by
  obtain ⟨before, after, rfl⟩ := List.append_of_mem ha
  have hbefore : before.countP p ≤ before.countP q :=
    List.countP_mono_left fun x hx => hpq x (List.mem_append_left _ hx)
  have hafter : after.countP p ≤ after.countP q :=
    List.countP_mono_left fun x hx => hpq x (List.mem_append_right _ (List.mem_cons_of_mem _ hx))
  rw [List.countP_append, List.countP_append, List.countP_cons_of_pos hq,
    List.countP_cons_of_neg (by simp [hp])]
  omega

theorem toNat_le_countP (h : l[i]? = some e) : (p e).toNat ≤ l.countP p := by
  cases hp : p e with
  | true => exact List.countP_pos_iff.mpr ⟨e, List.mem_of_getElem? h, hp⟩
  | false => exact Nat.zero_le _

theorem countP_range : (List.range l.length).countP (fun j => l[j]?.any p) = l.countP p := by
  induction l with
  | nil => rfl
  | cons x l ih =>
    rw [List.length_cons, List.range_succ_eq_map, List.countP_cons, List.countP_map,
      List.countP_cons, ← ih]
    rfl

/-- Members that stand for different processes, each with `q`, are no more than these. -/
theorem countP_le_of_inj {γ : Type*} {m : List γ} {r : γ → Bool} {f : γ → ℕ}
    (hm : (m.filter r).Nodup) (hf : ∀ x ∈ m, r x = true → ∃ y, l[f x]? = some y ∧ p y = true)
    (hinj : ∀ x ∈ m, ∀ y ∈ m, r x = true → r y = true → f x = f y → x = y) :
    m.countP r ≤ l.countP p := by
  have hnodup : ((m.filter r).map f).Nodup := by
    refine hm.map_on fun x hx y hy heq => ?_
    obtain ⟨hx, hrx⟩ := List.mem_filter.mp hx
    obtain ⟨hy, hry⟩ := List.mem_filter.mp hy
    exact hinj x hx y hy hrx hry heq
  have hsub : (m.filter r).map f ⊆ (List.range l.length).filter fun j => l[j]?.any p := by
    intro j hj
    obtain ⟨x, hx, rfl⟩ := List.mem_map.mp hj
    obtain ⟨hx, hrx⟩ := List.mem_filter.mp hx
    obtain ⟨y, hy, hpy⟩ := hf x hx hrx
    refine List.mem_filter.mpr ⟨List.mem_range.mpr (List.getElem?_eq_some_iff.mp hy).1, ?_⟩
    rw [hy]
    exact hpy
  have hle := (List.subperm_of_subset hnodup hsub).length_le
  rwa [List.length_map, ← List.countP_eq_length_filter, ← List.countP_eq_length_filter,
    countP_range] at hle

/-- While the only process with `p` steps, no other process has `p`. -/
theorem forall_set_of_sole (hone : l.countP p ≤ 1) (h : l[i]? = some e) (he : p e = true)
    (ha : p a = true → P a) : ∀ x ∈ l.set i a, p x = true → P x := by
  induction l generalizing i with
  | nil => simp at h
  | cons b l ih =>
    intro x hx hp
    cases i with
    | zero =>
      simp only [List.getElem?_cons_zero, Option.some.injEq] at h
      subst h
      rcases List.mem_cons.mp hx with rfl | hx
      · exact ha hp
      · have hpos : 0 < l.countP p := List.countP_pos_iff.mpr ⟨x, hx, hp⟩
        rw [List.countP_cons_of_pos he] at hone
        omega
    | succ i =>
      have hi : l[i]? = some e := by simpa using h
      have hpos : 0 < l.countP p := List.countP_pos_iff.mpr ⟨e, List.mem_of_getElem? hi, he⟩
      rw [List.countP_cons] at hone
      rcases List.mem_cons.mp hx with rfl | hx
      · rw [if_pos hp] at hone
        omega
      · exact ih (by omega) hi x hx hp

/-- Two members with `p` are one and the same if at most one has it. -/
theorem eq_of_countP_le_one {y : α} (hone : l.countP p ≤ 1) (hx : x ∈ l) (hy : y ∈ l)
    (hpx : p x = true) (hpy : p y = true) : x = y := by
  rw [List.countP_eq_length_filter] at hone
  have hxf : x ∈ l.filter p := List.mem_filter.mpr ⟨hx, hpx⟩
  have hyf : y ∈ l.filter p := List.mem_filter.mpr ⟨hy, hpy⟩
  match hl : l.filter p, hone with
  | [], _ => simp [hl] at hxf
  | [z], _ =>
    rw [hl, List.mem_singleton] at hxf hyf
    exact hxf.trans hyf.symm

/-- A sum over all processes changes by what the process that steps contributes. -/
theorem sum_map_set {M : Type*} [AddCommMonoid M] {f : α → M} (h : l[i]? = some e) :
    ((l.set i a).map f).sum + f e = (l.map f).sum + f a := by
  induction l generalizing i with
  | nil => simp at h
  | cons b l ih =>
    cases i with
    | zero =>
      simp only [List.getElem?_cons_zero, Option.some.injEq] at h
      subst h
      simp only [List.set_cons_zero, List.map_cons, List.sum_cons]
      rw [add_comm (f a), add_right_comm, add_comm (l.map f).sum]
    | succ i =>
      have hi : l[i]? = some e := by simpa using h
      simp only [List.set_cons_succ, List.map_cons, List.sum_cons, add_assoc, ih hi]

/-! ### The members that belong to one component -/

variable {β : Type*} {f : α → Option β} {b c : β}

theorem filterMap_set_none (h : l[i]? = some e) (he : f e = none) (ha : f a = none) :
    (l.set i a).filterMap f = l.filterMap f := by
  induction l generalizing i with
  | nil => rfl
  | cons x l ih =>
    cases i with
    | zero =>
      simp only [List.getElem?_cons_zero, Option.some.injEq] at h
      subst h
      rw [List.set_cons_zero, List.filterMap_cons_none ha, List.filterMap_cons_none he]
    | succ i =>
      have hi : l[i]? = some e := by simpa using h
      rw [List.set_cons_succ, List.filterMap_cons, List.filterMap_cons, ih hi]

/-- A member of the component has a place there, and steps at it. -/
theorem filterMap_set_some (h : l[i]? = some e) (he : f e = some b) :
    ∃ j, (l.filterMap f)[j]? = some b ∧
      ∀ a c, f a = some c → (l.set i a).filterMap f = (l.filterMap f).set j c := by
  induction l generalizing i with
  | nil => simp at h
  | cons x l ih =>
    cases i with
    | zero =>
      simp only [List.getElem?_cons_zero, Option.some.injEq] at h
      subst h
      refine ⟨0, by simp [List.filterMap_cons_some he], ?_⟩
      intro a c ha
      rw [List.set_cons_zero, List.filterMap_cons_some ha, List.filterMap_cons_some he,
        List.set_cons_zero]
    | succ i =>
      have hi : l[i]? = some e := by simpa using h
      obtain ⟨j, hj, hset⟩ := ih hi
      cases hx : f x with
      | none =>
        rw [List.filterMap_cons_none hx]
        refine ⟨j, hj, fun a c ha => ?_⟩
        rw [List.set_cons_succ, List.filterMap_cons_none hx, hset a c ha]
      | some d =>
        rw [List.filterMap_cons_some hx]
        refine ⟨j + 1, by simpa using hj, fun a c ha => ?_⟩
        rw [List.set_cons_succ, List.filterMap_cons_some hx, hset a c ha, List.set_cons_succ]

variable [DecidableEq α]

theorem filterMap_erase_none (ha : f a = none) : (l.erase a).filterMap f = l.filterMap f := by
  induction l with
  | nil => rfl
  | cons x l ih =>
    by_cases hx : x = a
    · subst hx
      rw [List.erase_cons_head, List.filterMap_cons_none ha]
    · rw [List.erase_cons_tail (by simpa using hx), List.filterMap_cons, List.filterMap_cons, ih]

theorem filterMap_erase_some [DecidableEq β] (hf : ∀ x, f x = some b → x = a) (ha : f a = some b) :
    (l.erase a).filterMap f = (l.filterMap f).erase b := by
  induction l with
  | nil => rfl
  | cons x l ih =>
    by_cases hx : x = a
    · subst hx
      rw [List.erase_cons_head, List.filterMap_cons_some ha, List.erase_cons_head]
    · rw [List.erase_cons_tail (by simpa using hx)]
      cases hfx : f x with
      | none => rw [List.filterMap_cons_none hfx, List.filterMap_cons_none hfx, ih]
      | some d =>
        have hd : d ≠ b := by
          rintro rfl
          exact hx (hf x hfx)
        rw [List.filterMap_cons_some hfx, List.filterMap_cons_some hfx, ih,
          List.erase_cons_tail (by simpa using hd)]

/-! ### Places in a pool that keys hold -/

variable {κ : Type*} {g : κ → Option β} {r : List β} {k : κ}

/-- Each key with a value has a place of its own, where this value stands. -/
def Placed (g : κ → Option β) (r : List β) : Prop :=
  ∃ place : κ → ℕ, (∀ k b, g k = some b → r[place k]? = some b) ∧
    ∀ k m, (g k).isSome = true → (g m).isSome = true → place k = place m → k = m

theorem placed_none (hg : ∀ k, g k = none) : Placed g r :=
  ⟨fun _ => 0, fun k b hb => by simp [hg] at hb, fun k m hk => by simp [hg] at hk⟩

variable [DecidableEq κ]

theorem placed_drop (h : Placed g r) (k : κ) : Placed (Function.update g k none) r := by
  obtain ⟨place, hplace, hinj⟩ := h
  have hsub : ∀ m b, Function.update g k none m = some b → g m = some b := by
    intro m b hb
    by_cases hm : m = k
    · subst hm
      simp at hb
    · rwa [Function.update_of_ne hm] at hb
  refine ⟨place, fun m b hb => hplace m b (hsub m b hb), fun m n hm hn => ?_⟩
  obtain ⟨b, hb⟩ := Option.isSome_iff_exists.mp hm
  obtain ⟨c, hc⟩ := Option.isSome_iff_exists.mp hn
  exact hinj m n (by rw [hsub m b hb]; rfl) (by rw [hsub n c hc]; rfl)

/-- A key without a value takes a new place. -/
theorem placed_concat (h : Placed g r) (hk : g k = none) (b : β) :
    Placed (Function.update g k (some b)) (r ++ [b]) := by
  obtain ⟨place, hplace, hinj⟩ := h
  have hlt : ∀ m, (g m).isSome = true → place m < r.length := by
    intro m hm
    obtain ⟨c, hc⟩ := Option.isSome_iff_exists.mp hm
    exact (List.getElem?_eq_some_iff.mp (hplace m c hc)).1
  refine ⟨Function.update place k r.length, ?_, ?_⟩
  · intro m c hc
    by_cases hm : m = k
    · subst hm
      simp only [Function.update_self, Option.some.injEq] at hc ⊢
      subst hc
      simp
    · rw [Function.update_of_ne hm] at hc ⊢
      have hold := hlt m (by rw [hc]; rfl)
      rw [List.getElem?_append_left hold, hplace m c hc]
  · intro m n hm hn heq
    by_cases hmk : m = k <;> by_cases hnk : n = k
    · exact hmk.trans hnk.symm
    · subst hmk
      rw [Function.update_of_ne hnk] at hn
      rw [Function.update_self, Function.update_of_ne hnk] at heq
      have hold := hlt n hn
      omega
    · subst hnk
      rw [Function.update_of_ne hmk] at hm
      rw [Function.update_self, Function.update_of_ne hmk] at heq
      have hold := hlt m hm
      omega
    · rw [Function.update_of_ne hmk] at hm heq
      rw [Function.update_of_ne hnk] at hn heq
      exact hinj m n hm hn heq

/-- A key with a value changes it at its place, or gives the place up. -/
theorem placed_set (h : Placed g r) (hk : g k = some b) : ∃ j, r[j]? = some b ∧
    ∀ o c, (∀ d, o = some d → d = c) → Placed (Function.update g k o) (r.set j c) := by
  obtain ⟨place, hplace, hinj⟩ := h
  have hsome : (g k).isSome = true := by rw [hk]; rfl
  have hkj := hplace k b hk
  refine ⟨place k, hkj, fun o c ho => ⟨place, ?_, ?_⟩⟩
  · intro m d hd
    by_cases hm : m = k
    · subst hm
      rw [Function.update_self] at hd
      rw [List.getElem?_set_self (List.getElem?_eq_some_iff.mp hkj).1, ho d hd]
    · rw [Function.update_of_ne hm] at hd
      have hne : place k ≠ place m := fun heq => hm (hinj k m hsome (by rw [hd]; rfl) heq).symm
      rw [List.getElem?_set_ne hne, hplace m d hd]
  · have hsub : ∀ m, (Function.update g k o m).isSome = true → (g m).isSome = true := by
      intro m hm
      by_cases hmk : m = k
      · exact hmk ▸ hsome
      · rwa [Function.update_of_ne hmk] at hm
    exact fun m n hm hn => hinj m n (hsub m hm) (hsub n hn)

end Pool
