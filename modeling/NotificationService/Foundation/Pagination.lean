import Mathlib.Data.List.Sort
import Mathlib.Data.List.Nodup
import Mathlib.Data.List.Range

/-! Pages of rows that are ordered by a key only: each query may put tied rows in another order. -/
namespace Pagination

variable {α κ : Type*} [LinearOrder κ] {key : α → κ} {rows l : List α} {p : α → Bool} {b i : ℕ}

/-- One order in which a query may return the rows: the keys never increase. -/
structure Arrangement (key : α → κ) (rows : List α) where
  list : List α
  perm : list.Perm rows
  sorted : list.Pairwise fun x y => key y ≤ key x

/-- LIMIT and OFFSET on an ordered result. -/
def page (limit offset : ℕ) (l : List α) : List α := (l.drop offset).take limit

/-- Tied rows stand on both sides of the `b`-th boundary: fewer than `b` rows have a key above `t`,
and more than `b` have `t` or above. -/
def Straddles (key : α → κ) (rows : List α) (b : ℕ) (t : κ) : Prop :=
  rows.countP (t < key ·) < b ∧ b < rows.countP (t ≤ key ·)

def Arrangement.sort (key : α → κ) (rows : List α) : Arrangement key rows where
  list := rows.mergeSort (key · ≥ key ·)
  perm := List.mergeSort_perm rows _
  sorted := by
    refine (List.pairwise_mergeSort ?_ ?_ rows).imp (by simp)
    · intro x y z hxy hyz
      simp only [decide_eq_true_eq] at hxy hyz ⊢
      exact hyz.trans hxy
    · intro x y
      simpa using le_total (key y) (key x)

/-! ### A predicate that holds up to some place in a list -/

/-- No element with `p` comes after one without it. -/
def Prefixed (p : α → Bool) (l : List α) : Prop := l.Pairwise fun x y => p y = true → p x = true

theorem countP_of_prefixed {x : α} (hl : Prefixed p (x :: l)) (hx : p x = false) :
    (x :: l).countP p = 0 := by
  refine List.countP_eq_zero.mpr ?_
  intro y hy hpy
  rcases List.mem_cons.mp hy with rfl | hy
  · cases hpy.symm.trans hx
  · cases ((List.pairwise_cons.mp hl).1 y hy hpy).symm.trans hx

theorem take_countP (hl : Prefixed p l) : l.take (l.countP p) = l.filter p := by
  induction l with
  | nil => rfl
  | cons x l ih =>
    cases hx : p x with
    | true => simp [hx, ih (List.pairwise_cons.mp hl).2]
    | false =>
      have hzero := countP_of_prefixed hl hx
      rw [hzero, List.take_zero]
      exact (List.length_eq_zero_iff.mp (List.countP_eq_length_filter ▸ hzero)).symm

/-- The place of an element decides whether it has `p`. -/
theorem getElem_iff (hl : Prefixed p l) (hi : i < l.length) : p l[i] = true ↔ i < l.countP p := by
  induction l generalizing i with
  | nil => simp at hi
  | cons x l ih =>
    have htail := (List.pairwise_cons.mp hl).2
    cases hx : p x with
    | true =>
      cases i with
      | zero => simp [hx]
      | succ i => simpa [hx] using ih htail (Nat.lt_of_succ_lt_succ hi)
    | false =>
      have hzero := countP_of_prefixed hl hx
      have hnone := List.countP_eq_zero.mp hzero _ (List.getElem_mem hi)
      simp [hzero, hnone]

namespace Arrangement

variable (a c : Arrangement key rows)

theorem lt_prefixed (t : κ) : Prefixed (fun x => decide (t < key x)) a.list :=
  a.sorted.imp fun h hy => decide_eq_true ((of_decide_eq_true hy).trans_le h)

theorem le_prefixed (t : κ) : Prefixed (fun x => decide (t ≤ key x)) a.list :=
  a.sorted.imp fun h hy => decide_eq_true ((of_decide_eq_true hy).trans h)

theorem length_eq : a.list.length = rows.length := a.perm.length_eq

theorem lt_iff (t : κ) (hi : i < a.list.length) :
    t < key a.list[i] ↔ i < rows.countP (t < key ·) := by
  rw [← a.perm.countP_eq]
  simpa using getElem_iff (a.lt_prefixed t) hi

theorem le_iff (t : κ) (hi : i < a.list.length) :
    t ≤ key a.list[i] ↔ i < rows.countP (t ≤ key ·) := by
  rw [← a.perm.countP_eq]
  simpa using getElem_iff (a.le_prefixed t) hi

theorem key_le (hi : i + 1 < a.list.length) : key a.list[i + 1] ≤ key a.list[i] :=
  List.pairwise_iff_getElem.mp a.sorted i (i + 1) _ hi (Nat.lt_succ_self i)

/-- A boundary is straddled when the rows on its two sides have one key. -/
theorem exists_straddles_iff (hi : i + 1 < a.list.length) :
    (∃ t, Straddles key rows (i + 1) t) ↔ key a.list[i + 1] = key a.list[i] := by
  have hi' : i < a.list.length := Nat.lt_of_succ_lt hi
  constructor
  · rintro ⟨t, hlt, hle⟩
    have hbefore : ¬ t < key a.list[i] := mt (a.lt_iff t hi').mp (by omega)
    have hafter : t ≤ key a.list[i + 1] := (a.le_iff t hi).mpr hle
    exact le_antisymm (a.key_le hi) ((not_lt.mp hbefore).trans hafter)
  · intro heq
    have hbefore := mt (a.lt_iff (key a.list[i]) hi').mpr (lt_irrefl _)
    exact ⟨key a.list[i], by omega, (a.le_iff _ hi).mp heq.ge⟩

theorem take_above (t : κ) :
    a.list.take (rows.countP (t < key ·)) = a.list.filter (t < key ·) := by
  rw [← a.perm.countP_eq]
  exact take_countP (a.lt_prefixed t)

/-- Two arrangements have the same rows before a boundary that is not straddled. -/
theorem take_perm (h : ∀ t, ¬ Straddles key rows b t) : (a.list.take b).Perm (c.list.take b) := by
  have hperm := a.perm.trans c.perm.symm
  cases b with
  | zero => simp
  | succ i =>
    by_cases hi : i + 1 < a.list.length
    · have hne : key a.list[i + 1] ≠ key a.list[i] := by
        intro heq
        obtain ⟨t, ht⟩ := (a.exists_straddles_iff hi).mpr heq
        exact h t ht
      have hbefore := (a.lt_iff _ (Nat.lt_of_succ_lt hi)).mp (lt_of_le_of_ne (a.key_le hi) hne)
      have hafter := mt (a.lt_iff (key a.list[i + 1]) hi).mpr (lt_irrefl _)
      have hcount : rows.countP (key a.list[i + 1] < key ·) = i + 1 := by omega
      have ha := a.take_above (key a.list[i + 1])
      have hc := c.take_above (key a.list[i + 1])
      rw [hcount] at ha hc
      rw [ha, hc]
      exact hperm.filter _
    · have hle : a.list.length ≤ i + 1 := not_lt.mp hi
      rw [List.take_of_length_le hle, List.take_of_length_le (hperm.length_eq ▸ hle)]
      exact hperm

theorem map_key_eq : a.list.map key = c.list.map key := by
  have ha : (a.list.map key).Pairwise (· ≥ ·) := List.pairwise_map.mpr a.sorted
  have hc : (c.list.map key).Pairwise (· ≥ ·) := List.pairwise_map.mpr c.sorted
  exact ((a.perm.trans c.perm.symm).map key).eq_of_pairwise' ha hc

/-- Two neighbours with one key in the other order. -/
def swap {u v : List α} {x y : α} (h : a.list = u ++ x :: y :: v) (hkey : key y = key x) :
    Arrangement key rows where
  list := u ++ y :: x :: v
  perm := ((List.Perm.swap x y v).append_left u).trans (h ▸ a.perm)
  sorted := by
    have hmap : (u ++ y :: x :: v).map key = a.list.map key := by simp [h, hkey]
    have hsorted : (a.list.map key).Pairwise (· ≥ ·) := List.pairwise_map.mpr a.sorted
    exact List.pairwise_map.mp (hmap ▸ hsorted)

/-- The rows before a straddled boundary depend on the arrangement. -/
theorem exists_take_not_perm (hnodup : rows.Nodup) {t : κ} (h : Straddles key rows b t) :
    ∃ a c : Arrangement key rows, ¬ (a.list.take b).Perm (c.list.take b) := by
  let a := sort key rows
  obtain ⟨hlt, hle⟩ := h
  have hlength : b < a.list.length := a.length_eq ▸ hle.trans_le List.countP_le_length
  obtain ⟨i, rfl⟩ : ∃ i, b = i + 1 := ⟨b - 1, by omega⟩
  have hkey := (a.exists_straddles_iff hlength).mp ⟨t, hlt, hle⟩
  have hi : i < a.list.length := Nat.lt_of_succ_lt hlength
  have hsplit : a.list = a.list.take i ++ a.list[i] :: a.list[i + 1] :: a.list.drop (i + 2) := by
    rw [List.getElem_cons_drop, List.getElem_cons_drop, List.take_append_drop]
  refine ⟨a, a.swap hsplit hkey, ?_⟩
  intro hperm
  have htake : (a.list.take i).length = i := List.length_take_of_le hi.le
  have ha : a.list.take (i + 1) = a.list.take i ++ [a.list[i]] :=
    List.take_succ_eq_append_getElem hi
  have hc : (a.swap hsplit hkey).list.take (i + 1) = a.list.take i ++ [a.list[i + 1]] := by
    simp [swap, List.take_append, htake, List.take_take]
  rw [ha, hc, List.perm_append_left_iff, List.perm_singleton, List.singleton_inj] at hperm
  have hindex := (a.perm.nodup_iff.mpr hnodup).getElem_inj_iff.mp hperm
  omega

end Arrangement

/-! ### The pages of successive queries -/

variable {limit n m : ℕ} {orders orders' : ℕ → Arrangement key rows} {t : κ}

/-- The first `n` pages, each from the arrangement of its own query. -/
def pages (limit : ℕ) (orders : ℕ → Arrangement key rows) (n : ℕ) : List α :=
  (List.range n).flatMap fun k => page limit (k * limit) (orders k).list

theorem pages_succ : pages limit orders (n + 1) =
    pages limit orders n ++ page limit (n * limit) (orders n).list := by
  simp [pages, List.range_succ]

theorem take_succ_page (l : List α) :
    l.take ((n + 1) * limit) = l.take (n * limit) ++ page limit (n * limit) l := by
  rw [Nat.succ_mul, List.take_add, page]

theorem map_key_pages (a : Arrangement key rows) :
    (pages limit orders n).map key = (a.list.map key).take (n * limit) := by
  induction n with
  | zero => simp [pages]
  | succ n ih =>
    have hkeys := (orders n).map_key_eq a
    rw [pages_succ, List.map_append, ih, take_succ_page, page, page, List.map_take, List.map_drop,
      hkeys]

/-- The keys never increase, also from one page to the next. -/
theorem pages_sorted : (pages limit orders n).Pairwise fun x y => key y ≤ key x := by
  have hkeys : (pages limit orders n).map key = ((orders 0).list.map key).take (n * limit) :=
    map_key_pages (orders 0)
  have hsorted : ((orders 0).list.map key).Pairwise (· ≥ ·) :=
    List.pairwise_map.mpr (orders 0).sorted
  exact List.pairwise_map.mp (hkeys ▸ hsorted.sublist (List.take_sublist _ _))

/-- Where no boundary is straddled, the pages so far are what any one arrangement starts with. -/
theorem pages_perm_take (h : ∀ k t, ¬ Straddles key rows (k * limit) t)
    (a : Arrangement key rows) : (pages limit orders n).Perm (a.list.take (n * limit)) := by
  induction n generalizing a with
  | zero => simp [pages]
  | succ n ih =>
    rw [pages_succ]
    have hfirst := (ih (orders n)).append_right (page limit (n * limit) (orders n).list)
    rw [← take_succ_page] at hfirst
    exact hfirst.trans ((orders n).take_perm a (h (n + 1)))

theorem pages_congr (h : ∀ k < n, orders k = orders' k) :
    pages limit orders n = pages limit orders' n := by
  induction n with
  | zero => rfl
  | succ n ih =>
    rw [pages_succ, pages_succ, ih (fun k hk => h k (hk.trans (Nat.lt_succ_self n))),
      h n (Nat.lt_succ_self n)]

theorem pages_const (a : Arrangement key rows) :
    pages limit (fun _ => a) n = a.list.take (n * limit) := by
  induction n with
  | zero => simp [pages]
  | succ n ih => rw [pages_succ, ih, take_succ_page]

/-- One arrangement in the first `m` queries and another one in those after them. -/
theorem pages_switch (a c : Arrangement key rows) (n : ℕ) :
    pages limit (fun k => if k < m then a else c) (m + n) =
      a.list.take (m * limit) ++ (c.list.drop (m * limit)).take (n * limit) := by
  induction n with
  | zero =>
    have hconst : pages limit (fun k => if k < m then a else c) m = pages limit (fun _ => a) m :=
      pages_congr fun k hk => if_pos hk
    simp [hconst, pages_const]
  | succ n ih =>
    have hlate : ¬ m + n < m := by omega
    rw [← Nat.add_assoc, pages_succ, ih, if_neg hlate, take_succ_page, page, page, List.drop_drop,
      ← Nat.add_mul, List.append_assoc]

/-- Enough pages hold every row once, whatever each query's arrangement, exactly when no ties
straddle a boundary between two pages. -/
theorem pages_perm_iff (hnodup : rows.Nodup) (hn : rows.length ≤ n * limit) :
    (∀ orders : ℕ → Arrangement key rows, (pages limit orders n).Perm rows) ↔
      ∀ k t, ¬ Straddles key rows (k * limit) t := by
  constructor
  · intro hall m t ht
    obtain ⟨a, c, hne⟩ := Arrangement.exists_take_not_perm hnodup ht
    have hm : m * limit < n * limit := (ht.2.trans_le List.countP_le_length).trans_le hn
    obtain ⟨j, rfl⟩ : ∃ j, n = m + j :=
      ⟨n - m, (Nat.add_sub_of_le (Nat.lt_of_mul_lt_mul_right hm).le).symm⟩
    have hperm := hall fun k => if k < m then a else c
    have hrest : (c.list.drop (m * limit)).length ≤ j * limit := by
      rw [List.length_drop, c.length_eq]
      have hmul := Nat.add_mul m j limit
      omega
    rw [pages_switch, List.take_of_length_le hrest] at hperm
    have hc : (c.list.take (m * limit) ++ c.list.drop (m * limit)).Perm rows := by
      rw [List.take_append_drop]
      exact c.perm
    exact hne ((List.perm_append_right_iff _).mp (hperm.trans hc.symm))
  · intro h orders
    have hperm : (pages limit orders n).Perm ((orders 0).list.take (n * limit)) :=
      pages_perm_take h (orders 0)
    rw [List.take_of_length_le ((orders 0).length_eq ▸ hn)] at hperm
    exact hperm.trans (orders 0).perm

/-! ### A client that stops at the first empty page -/

variable {β : Type*}

/-- Ask for the pages from the `k`-th on until one is empty; none if a request fails. -/
def collect (request : ℕ → Option (List β)) : ℕ → ℕ → Option (List β)
  | 0, _ => none
  | fuel + 1, k => (request k).bind fun rows =>
    if rows.isEmpty then some [] else (collect request fuel (k + 1)).map (rows ++ ·)

theorem collect_eq {request : ℕ → List β} (hempty : ∀ k, request k = [] ↔ n ≤ k) {fuel k : ℕ}
    (hk : k ≤ n) (hfuel : n - k < fuel) : collect (fun k => some (request k)) fuel k =
      some ((List.range' k (n - k)).flatMap request) := by
  induction fuel generalizing k with
  | zero => cases hfuel
  | succ fuel ih =>
    rcases hk.eq_or_lt with rfl | hlt
    · simp [collect, (hempty k).mpr le_rfl]
    · have hne : request k ≠ [] := mt (hempty k).mp (not_le.mpr hlt)
      have hrange : List.range' k (n - k) = k :: List.range' (k + 1) (n - (k + 1)) := by
        rw [← List.range'_succ]
        congr 1
        omega
      have hrest := ih (k := k + 1) hlt (by omega)
      simp [collect, hne, hrest, hrange]

/-- How many pages are not empty. -/
def pageCount (limit total : ℕ) : ℕ := (total + (limit - 1)) / limit

theorem pageCount_le_iff (hlimit : 0 < limit) {total k : ℕ} :
    pageCount limit total ≤ k ↔ total ≤ k * limit := by
  rw [pageCount, Nat.div_le_iff_le_mul_add_pred hlimit, Nat.mul_comm]
  omega

theorem page_eq_nil_iff (hlimit : 0 < limit) (a : Arrangement key rows) (k : ℕ) :
    page limit (k * limit) a.list = [] ↔ pageCount limit rows.length ≤ k := by
  rw [pageCount_le_iff hlimit, page, List.take_eq_nil_iff, List.drop_eq_nil_iff, a.length_eq]
  simp [hlimit.ne']

/-- A client that stops has got every page before an empty one. -/
theorem collect_some {request : ℕ → Option (List β)} {fuel k : ℕ} {all : List β}
    (h : collect request fuel k = some all) : ∃ n, k ≤ n ∧ request n = some [] ∧
      ∃ rows : ℕ → List β, (∀ j, k ≤ j → j < n → request j = some (rows j)) ∧
        ∀ x, x ∈ all ↔ ∃ j, k ≤ j ∧ j < n ∧ x ∈ rows j := by
  induction fuel generalizing k all with
  | zero => cases h
  | succ fuel ih =>
    obtain ⟨first, hfirst, h⟩ := Option.bind_eq_some_iff.mp h
    cases hempty : first.isEmpty with
    | true =>
      obtain rfl := List.isEmpty_iff.mp hempty
      simp only [List.isEmpty_nil, if_true, Option.some.injEq] at h
      subst h
      exact ⟨k, le_rfl, hfirst, fun _ => [], fun j hj hlt => by omega, by simp⟩
    | false =>
      simp only [hempty, Bool.false_eq_true, if_false, Option.map_eq_some_iff] at h
      obtain ⟨rest, hrest, rfl⟩ := h
      obtain ⟨n, hn, hstop, rows, hrows, hmem⟩ := ih hrest
      refine ⟨n, Nat.le_of_succ_le hn, hstop, Function.update rows k first, ?_, ?_⟩
      · intro j hj hlt
        by_cases hjk : j = k
        · subst hjk
          simpa using hfirst
        · rw [Function.update_of_ne hjk]
          exact hrows j (by omega) hlt
      · intro x
        rw [List.mem_append, hmem]
        constructor
        · rintro (hx | ⟨j, hj, hlt, hx⟩)
          · exact ⟨k, le_rfl, hn, by simpa using hx⟩
          · have hjk : j ≠ k := by omega
            exact ⟨j, Nat.le_of_succ_le hj, hlt, by rwa [Function.update_of_ne hjk]⟩
        · rintro ⟨j, hj, hlt, hx⟩
          by_cases hjk : j = k
          · subst hjk
            exact Or.inl (by simpa using hx)
          · rw [Function.update_of_ne hjk] at hx
            exact Or.inr ⟨j, by omega, hlt, hx⟩

theorem collect_isSome {request : ℕ → Option (List β)} {fuel k : ℕ}
    (hall : ∀ j, (request j).isSome = true) (hstop : ∀ j, n ≤ j → request j = some [])
    (hfuel : n < fuel + k) (hpos : 0 < fuel) : (collect request fuel k).isSome = true := by
  induction fuel generalizing k with
  | zero => cases hpos
  | succ fuel ih =>
    obtain ⟨rows, hrows⟩ := Option.isSome_iff_exists.mp (hall k)
    cases hempty : rows.isEmpty with
    | true =>
      obtain rfl := List.isEmpty_iff.mp hempty
      simp [collect, hrows]
    | false =>
      have hlt : k < n := by
        by_contra hle
        have hnil := hstop k (not_lt.mp hle)
        rw [hrows, Option.some.injEq] at hnil
        simp [hnil] at hempty
      have hrest := ih (k := k + 1) (by omega) (by omega)
      simp only [collect, hrows, Option.bind_some, hempty, Bool.false_eq_true, if_false,
        Option.isSome_map]
      exact hrest

/-! ### Rows that come in between two queries -/

/-- No other row has the key of this one. -/
def Lone (key : α → κ) (rows : List α) (x : α) : Prop := ∀ y ∈ rows, key y = key x → y = x

/-- A lone row stands behind exactly the rows with a greater key. -/
theorem Arrangement.getElem_lone (a : Arrangement key rows) {x : α} (hx : x ∈ rows)
    (hlone : Lone key rows x) : a.list[rows.countP (key x < key ·)]? = some x := by
  obtain ⟨i, hi, hxi⟩ := List.mem_iff_getElem.mp (a.perm.mem_iff.mpr hx)
  have hle : rows.countP (key x < key ·) ≤ i := by
    by_contra hlt
    have hkey := (a.lt_iff (key x) hi).mpr (not_le.mp hlt)
    rw [hxi] at hkey
    exact lt_irrefl _ hkey
  have hplace : rows.countP (key x < key ·) < a.list.length := hle.trans_lt hi
  have hbelow := not_lt.mp (mt (a.lt_iff (key x) hplace).mp (lt_irrefl _))
  have habove : key x ≤ key a.list[rows.countP (key x < key ·)] := by
    rcases hle.eq_or_lt with heq | hlt
    · simp only [heq, hxi, le_refl]
    · have hsorted := List.pairwise_iff_getElem.mp a.sorted _ i hplace hi hlt
      rwa [hxi] at hsorted
  rw [List.getElem?_eq_getElem hplace, Option.some.injEq]
  exact hlone _ (a.perm.mem_iff.mp (List.getElem_mem hplace)) (le_antisymm hbelow habove)

theorem mem_page {offset : ℕ} {x : α} (h : l[i]? = some x) (hoffset : offset ≤ i)
    (hlimit : i < offset + limit) : x ∈ page limit offset l := by
  refine List.mem_of_getElem? (i := i - offset) ?_
  rw [page, List.getElem?_take_of_lt (by omega), List.getElem?_drop]
  rwa [Nat.add_sub_of_le hoffset]

/-- Rows that are inserted between the queries only move the others back, so a lone row that was
there at the first query is on one of the pages before an empty one. -/
theorem exists_page {rows : ℕ → List α} {x : α} (orders : ∀ k, Arrangement key (rows k))
    (hgrow : ∀ k, (rows k).Subperm (rows (k + 1))) (hx : x ∈ rows 0)
    (hlone : ∀ k, Lone key (rows k) x) (hlimit : 0 < limit)
    (hstop : page limit (n * limit) (orders n).list = []) :
    ∃ k < n, x ∈ page limit (k * limit) (orders k).list := by
  have hall : ∀ k, x ∈ rows k := by
    intro k
    induction k with
    | zero => exact hx
    | succ k ih => exact (hgrow k).subset ih
  by_contra hnone
  have hplace : ∀ k ≤ n, k * limit ≤ (rows k).countP (key x < key ·) := by
    intro k
    induction k with
    | zero => simp
    | succ k ih =>
      intro hk
      have hbefore := ih (Nat.le_of_succ_le hk)
      have hmissed : ¬ (rows k).countP (key x < key ·) < k * limit + limit := by
        intro hlt
        exact hnone ⟨k, hk, mem_page ((orders k).getElem_lone (hall k) (hlone k)) hbefore hlt⟩
      rw [Nat.succ_mul]
      exact (not_lt.mp hmissed).trans ((hgrow k).countP_le _)
  have hn := (orders n).getElem_lone (hall n) (hlone n)
  rw [page, List.take_eq_nil_iff, List.drop_eq_nil_iff] at hstop
  have hlt := (List.getElem?_eq_some_iff.mp hn).1
  have hend := hplace n le_rfl
  omega

end Pagination
