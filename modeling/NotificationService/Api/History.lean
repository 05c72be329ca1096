import NotificationService.Foundation.Pagination
import NotificationService.Api.Requests

/-! `GET /users/{userId}/notifications`: one page of a user's notifications for each request, and a
client that asks for them all. -/
namespace NotificationService.Api.History

open Pagination

variable {V : Type}

/-- A row of `notifications` with the columns of `TimestampMixin`, in microseconds. -/
structure NotificationRow (V : Type) where
  columns : Notification V
  createdAt : ℤ
  updatedAt : ℤ
  deriving DecidableEq, Repr

/-- The tables that `get_history` reads. -/
structure Tables (V : Type) where
  notifications : List (NotificationRow V)
  deliveries : List DeliveryRow
  primaryKey : (notifications.map (·.columns.id)).Nodup

/-- The rows that the WHERE clause selects. -/
def Tables.ofUser (t : Tables V) (userId : String) : List (NotificationRow V) :=
  t.notifications.filter (·.columns.userId = userId)

def deliveriesOf (ds : List DeliveryRow) (n : NotificationRow V) : List DeliveryRow :=
  ds.filter (·.notificationId = n.columns.id)

/-- What the database chooses in one query: the order among notifications with one `created_at`,
and the order in which `selectinload` then finds the deliveries. -/
structure Plan (t : Tables V) (userId : String) where
  order : Arrangement NotificationRow.createdAt (t.ofUser userId)
  deliveries : List DeliveryRow
  perm : deliveries.Perm t.deliveries

variable {t : Tables V} {userId : String}

/-- The repository's `get_history`. -/
def Plan.getHistory (plan : Plan t userId) (limit offset : ℕ) :
    List (NotificationRow V × List DeliveryRow) :=
  (page limit offset plan.order.list).map fun n => (n, deliveriesOf plan.deliveries n)

/-- An item of the response: `NotificationResponse` with its two times. -/
structure HistoryItem (V : Type) where
  response : NotificationResponse V
  createdAt : ℤ
  updatedAt : ℤ
  deriving DecidableEq, Repr

def HistoryItem.modelValidate (n : NotificationRow V) (ds : List DeliveryRow) : HistoryItem V :=
  ⟨.modelValidate n.columns ds, n.createdAt, n.updatedAt⟩

/-! ### The query parameters -/

inductive Bound where
  | ge (n : ℤ)
  | le (n : ℤ)
  deriving DecidableEq, Repr

def Bound.holds (x : ℤ) : Bound → Bool
  | .ge n => n ≤ x
  | .le n => x ≤ n

structure QueryParam where
  name : String
  default : ℤ
  bounds : List Bound

/-- `Query(default=20, ge=1, le=100)`. -/
def limitParam : QueryParam := ⟨"limit", 20, [.ge 1, .le 100]⟩

/-- `Query(default=0, ge=0)`. -/
def offsetParam : QueryParam := ⟨"offset", 0, [.ge 0]⟩

/-- A detail of the 400 answer. -/
structure QueryError where
  loc : List String
  bound : Bound
  deriving DecidableEq, Repr

/-- A value that is not given is the default, unchecked. -/
def QueryParam.errors (p : QueryParam) (value : Option ℤ) : List QueryError :=
  match value with
  | none => []
  | some x => (p.bounds.filter (!·.holds x)).map (⟨["query", p.name], ·⟩)

/-- The endpoint. -/
def getHistory (limit offset : Option ℤ) (plan : Plan t userId) :
    Except (List QueryError) (List (HistoryItem V)) :=
  match limitParam.errors limit ++ offsetParam.errors offset with
  | [] => .ok <|
    (plan.getHistory (limit.getD limitParam.default).toNat
      (offset.getD offsetParam.default).toNat).map fun (n, ds) => .modelValidate n ds
  | errors => .error errors

/-- The client asks for offsets 0, `limit`, `2 * limit`, … until a page is empty. -/
def fetchHistory (limit : ℤ) (plans : ℕ → Plan t userId) (fuel : ℕ) :
    Option (List (HistoryItem V)) :=
  collect (fun k => (getHistory (some limit) (some (k * limit)) (plans k)).toOption) fuel 0

/-- Every notification of the user exactly once, newest first. -/
structure Complete (t : Tables V) (userId : String) (all : List (HistoryItem V)) : Prop where
  once : (all.map (·.response.id)).Perm ((t.ofUser userId).map (·.columns.id))
  newestFirst : all.Pairwise fun x y => y.createdAt ≤ x.createdAt
  stored : ∀ x ∈ all, ∃ n ∈ t.ofUser userId, ∃ ds,
    ds.Perm (deliveriesOf t.deliveries n) ∧ x = .modelValidate n ds

variable {limit offset : ℤ} {p : QueryParam} {value : Option ℤ} {e : QueryError}

theorem errors_eq_nil_iff :
    p.errors value = [] ↔ ∀ x ∈ value, ∀ b ∈ p.bounds, b.holds x = true := by
  cases value with
  | none => simp [QueryParam.errors]
  | some x => simp [QueryParam.errors]

/-- An error names the parameter that it is about and a bound that its value breaks. -/
theorem mem_errors (h : e ∈ p.errors value) :
    e.loc = ["query", p.name] ∧ e.bound ∈ p.bounds ∧ ∃ x ∈ value, e.bound.holds x = false := by
  cases value with
  | none => simp [QueryParam.errors] at h
  | some x =>
    obtain ⟨b, hb, rfl⟩ := List.mem_map.mp h
    obtain ⟨hmem, hbad⟩ := List.mem_filter.mp hb
    exact ⟨rfl, hmem, x, rfl, by simpa using hbad⟩

/-- Both defaults would pass the check that they are spared. -/
theorem default_errors (hp : p ∈ [limitParam, offsetParam]) : p.errors (some p.default) = [] := by
  simp only [List.mem_cons, List.not_mem_nil, or_false] at hp
  rcases hp with rfl | rfl <;> decide

theorem getHistory_eq (hlimit : 1 ≤ limit ∧ limit ≤ 100) (hoffset : 0 ≤ offset)
    (plan : Plan t userId) : getHistory (some limit) (some offset) plan =
      .ok ((plan.getHistory limit.toNat offset.toNat).map fun (n, ds) => .modelValidate n ds) := by
  have hl : limitParam.errors (some limit) = [] :=
    errors_eq_nil_iff.mpr (by simpa [limitParam, Bound.holds] using hlimit)
  have ho : offsetParam.errors (some offset) = [] :=
    errors_eq_nil_iff.mpr (by simpa [offsetParam, Bound.holds] using hoffset)
  simp [getHistory, hl, ho]

/-! ### The pages together -/

def Plan.respond (plan : Plan t userId) (n : NotificationRow V) : HistoryItem V :=
  .modelValidate n (deliveriesOf plan.deliveries n)

/-- The items of the first `n` pages. -/
def items (limit : ℕ) (plans : ℕ → Plan t userId) (n : ℕ) : List (HistoryItem V) :=
  (List.range n).flatMap fun k =>
    (page limit (k * limit) (plans k).order.list).map (plans k).respond

/-- The answer to the client's `k`-th request. -/
theorem getHistory_page (hlimit : 1 ≤ limit ∧ limit ≤ 100) (k : ℕ) (plan : Plan t userId) :
    (getHistory (some limit) (some (k * limit)) plan).toOption =
      some ((page limit.toNat (k * limit.toNat) plan.order.list).map plan.respond) := by
  have hoffset : 0 ≤ (k : ℤ) * limit := Int.mul_nonneg (Int.natCast_nonneg k) (by omega)
  have htoNat : ((k : ℤ) * limit).toNat = k * limit.toNat := by
    rw [Int.toNat_mul (Int.natCast_nonneg k) (by omega), Int.toNat_natCast]
  rw [getHistory_eq hlimit hoffset, htoNat]
  simp [Except.toOption, Plan.getHistory, Plan.respond, Function.comp_def]

/-- The client stops after the pages that are not empty. -/
theorem fetchHistory_eq (hlimit : 1 ≤ limit ∧ limit ≤ 100) (plans : ℕ → Plan t userId) {fuel : ℕ}
    (hfuel : (t.ofUser userId).length < fuel) : fetchHistory limit plans fuel =
      some (items limit.toNat plans (pageCount limit.toNat (t.ofUser userId).length)) := by
  have hpos : 0 < limit.toNat := by omega
  have hcount : pageCount limit.toNat (t.ofUser userId).length ≤ (t.ofUser userId).length :=
    (pageCount_le_iff hpos).mpr (Nat.le_mul_of_pos_right _ hpos)
  have hempty : ∀ k, (page limit.toNat (k * limit.toNat) (plans k).order.list).map
      (plans k).respond = [] ↔ pageCount limit.toNat (t.ofUser userId).length ≤ k := by
    intro k
    rw [List.map_eq_nil_iff, page_eq_nil_iff hpos]
  have hall := collect_eq hempty (Nat.zero_le _)
    ((Nat.sub_le _ _).trans_lt (hcount.trans_lt hfuel))
  rw [Nat.sub_zero, ← List.range_eq_range'] at hall
  simp only [fetchHistory, getHistory_page hlimit]
  exact hall

theorem map_items (limit : ℕ) (plans : ℕ → Plan t userId) (n : ℕ) {β : Type}
    (f : HistoryItem V → β) (g : NotificationRow V → β)
    (h : ∀ n ds, f (.modelValidate n ds) = g n) :
    (items limit plans n).map f = (pages limit (fun k => (plans k).order) n).map g := by
  simp [items, pages, List.map_flatMap, Function.comp_def, Plan.respond, h]

theorem ofUser_nodup (t : Tables V) (userId : String) :
    ((t.ofUser userId).map (·.columns.id)).Nodup :=
  t.primaryKey.sublist (List.filter_sublist.map _)

/-- By their ids, rows of the user are found to be all of them. -/
theorem perm_of_ids {l : List (NotificationRow V)} (hl : l ⊆ t.ofUser userId)
    (h : (l.map (·.columns.id)).Perm ((t.ofUser userId).map (·.columns.id))) :
    l.Perm (t.ofUser userId) := by
  have hnodup : l.Nodup := List.Nodup.of_map _ (h.nodup_iff.mpr (ofUser_nodup t userId))
  have hlength : (t.ofUser userId).length ≤ l.length := by
    simpa using h.length_eq.ge
  exact (List.subperm_of_subset hnodup hl).perm_of_length_le hlength

theorem pages_subset (limit : ℕ) (plans : ℕ → Plan t userId) (n : ℕ) :
    pages limit (fun k => (plans k).order) n ⊆ t.ofUser userId := by
  intro x hx
  obtain ⟨k, _, hx⟩ := List.mem_flatMap.mp hx
  exact (plans k).order.perm.subset (List.mem_of_mem_drop (List.mem_of_mem_take hx))

/-- What the pages show is in order and in the tables; it is complete when the rows shown are. -/
theorem complete_iff (limit : ℕ) (plans : ℕ → Plan t userId) (n : ℕ) :
    Complete t userId (items limit plans n) ↔
      (pages limit (fun k => (plans k).order) n).Perm (t.ofUser userId) := by
  have hids := map_items limit plans n (·.response.id) (·.columns.id) fun _ _ => rfl
  have htimes := map_items limit plans n (·.createdAt) (·.createdAt) fun _ _ => rfl
  constructor
  · intro h
    exact perm_of_ids (pages_subset limit plans n) (hids ▸ h.once)
  · intro h
    refine ⟨hids ▸ h.map _, ?_, ?_⟩
    · have hsorted :
          ((pages limit (fun k => (plans k).order) n).map (·.createdAt)).Pairwise (· ≥ ·) :=
        List.pairwise_map.mpr pages_sorted
      exact List.pairwise_map.mp (htimes ▸ hsorted)
    · intro x hx
      obtain ⟨k, _, hx⟩ := List.mem_flatMap.mp hx
      obtain ⟨row, hrow, rfl⟩ := List.mem_map.mp hx
      have hmem := (plans k).order.perm.subset (List.mem_of_mem_drop (List.mem_of_mem_take hrow))
      exact ⟨row, hmem, _, (plans k).perm.filter _, rfl⟩

/-- The pages hold the history exactly once, whatever the database chooses in each query, exactly
when no notifications with one `created_at` stand on both sides of a page boundary. -/
theorem history_exactly_once (t : Tables V) (userId : String) (hlimit : 1 ≤ limit ∧ limit ≤ 100) :
    (∀ (plans : ℕ → Plan t userId) (fuel : ℕ), (t.ofUser userId).length < fuel →
      ∃ all, fetchHistory limit plans fuel = some all ∧ Complete t userId all) ↔
    ∀ (k : ℕ) (time : ℤ),
      ¬ Straddles NotificationRow.createdAt (t.ofUser userId) (k * limit.toNat) time := by
  have hpos : 0 < limit.toNat := by omega
  have hcount : (t.ofUser userId).length ≤
      pageCount limit.toNat (t.ofUser userId).length * limit.toNat :=
    (pageCount_le_iff hpos).mp le_rfl
  have hrows : (t.ofUser userId).Nodup := List.Nodup.of_map _ (ofUser_nodup t userId)
  rw [← pages_perm_iff hrows hcount]
  constructor
  · intro h orders
    let plans : ℕ → Plan t userId := fun k => ⟨orders k, t.deliveries, .refl _⟩
    obtain ⟨all, hall, hcomplete⟩ := h plans _ (Nat.lt_succ_self _)
    rw [fetchHistory_eq hlimit plans (Nat.lt_succ_self _)] at hall
    obtain rfl := Option.some.inj hall
    exact (complete_iff _ plans _).mp hcomplete
  · intro h plans fuel hfuel
    exact ⟨_, fetchHistory_eq hlimit plans hfuel, (complete_iff _ plans _).mpr (h _)⟩

/-- A notification of one user, stored at the given microsecond. -/
def storedAt (id : ℕ) (time : ℤ) : NotificationRow Unit :=
  ⟨⟨id, "user_happy", none, none, .normal, none⟩, time, time⟩

/-- Two notifications of one microsecond after an older one. -/
def threeStored : Tables Unit := ⟨[storedAt 0 10, storedAt 1 20, storedAt 2 20], [], by decide⟩

theorem three_not_straddled (k : ℕ) (time : ℤ) : ¬ Straddles NotificationRow.createdAt
    (threeStored.ofUser "user_happy") (k * 2) time := by
  rintro ⟨hlt, hle⟩
  have hrows : threeStored.ofUser "user_happy" =
      [storedAt 0 10, storedAt 1 20, storedAt 2 20] := by decide
  rw [hrows] at hlt hle
  have hthree : k * 2 < 3 := hle.trans_le List.countP_le_length
  obtain rfl : k = 1 := by omega
  by_cases ht : time ≤ 10
  · have h20 : time < 20 := by omega
    simp [storedAt, List.countP_cons, h20] at hlt
    split at hlt <;> omega
  · simp [storedAt, List.countP_cons, ht] at hle
    split at hle <;> omega

def sortedPlans (_ : ℕ) : Plan threeStored "user_happy" := ⟨.sort _ _, [], .nil⟩

theorem history_exactly_once_pairs : ∃ all,
    fetchHistory 2 sortedPlans 4 = some all ∧ Complete threeStored "user_happy" all := by
  have hlimit : 1 ≤ (2 : ℤ) ∧ (2 : ℤ) ≤ 100 := by decide
  have hiff := history_exactly_once threeStored "user_happy" hlimit
  exact hiff.mpr three_not_straddled sortedPlans 4 (by decide)

/-- Two notifications of one microsecond. -/
def twoStored : Tables Unit := ⟨[storedAt 0 20, storedAt 1 20], [], by decide⟩

/-- The database returns one of the two rows first, then the other. -/
def alternatingPlans (k : ℕ) : Plan twoStored "user_happy" where
  order :=
    if k = 0 then ⟨[storedAt 0 20, storedAt 1 20], by decide, by decide⟩
    else ⟨[storedAt 1 20, storedAt 0 20], by decide, by decide⟩
  deliveries := []
  perm := .nil

/-- With one notification a page, the first one is then shown twice and the other never. -/
theorem history_repeated : ¬ ∀ (plans : ℕ → Plan twoStored "user_happy") (fuel : ℕ),
    (twoStored.ofUser "user_happy").length < fuel →
    ∃ all, fetchHistory 1 plans fuel = some all ∧ Complete twoStored "user_happy" all := by
  intro h
  obtain ⟨all, hall, hcomplete⟩ := h alternatingPlans 3 (by decide)
  have hids : (fetchHistory 1 alternatingPlans 3).map (·.map (·.response.id)) = some [0, 0] := by
    decide
  rw [hall, Option.map_some, Option.some.injEq] at hids
  have honce := hcomplete.once
  rw [hids] at honce
  exact absurd honce (by decide)

end NotificationService.Api.History
