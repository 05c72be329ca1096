import NotificationService.Api.History
import NotificationService.Deployment.Status

/-! `GET /users/{userId}/notifications` on the running system: what a client is shown that turns the
pages while notifications are stored and delivered. -/
namespace NotificationService.Deployment

open Transition Pagination Api.History

variable {V : Type} [BEq V] {svc : TemplateService V} {queues : List String} {s t : State V}
  {xs ys : List (Action V)} {userId : String} {limit : ℤ} {created updated : ℕ → ℤ}

/-- The states at the client's requests, in the order of a run: at the SELECT of the page, and at
that of its deliveries. -/
structure Visits (svc : TemplateService V) (queues : List String) where
  state : ℕ → State V
  loaded : ℕ → State V
  first : ∃ xs, (sys svc queues).MTr initial xs (state 0)
  between : ∀ k, ∃ ys, (sys svc queues).MTr (state k) ys (loaded k)
  next : ∀ k, ∃ ys, (sys svc queues).MTr (loaded k) ys (state (k + 1))

theorem notifications_run (hs : Readable s) (hlater : (sys svc queues).MTr s ys t) :
    s.api.notifications <+: t.api.notifications := by
  have hinv : (sys svc queues).TrInv fun u => Readable u ∧
      s.api.notifications <+: u.api.notifications := by
    rintro u a v hstep ⟨hu, hpre⟩
    obtain ⟨new, hadds⟩ := adds_step (sys_step hstep) hu.enqueued
    exact ⟨readable_trInv u a v hstep hu, hpre.trans hadds.notifications⟩
  exact (LTS.mtrInv_of_trInv hinv hlater ⟨hs, List.prefix_refl _⟩).2

namespace Visits

variable (v : Visits svc queues)

theorem reached (k : ℕ) : ∃ ys, (sys svc queues).MTr (v.state k) ys (v.state (k + 1)) := by
  obtain ⟨ys, hys⟩ := v.between k
  obtain ⟨zs, hzs⟩ := v.next k
  exact ⟨ys ++ zs, hys.append hzs⟩

theorem readable (k : ℕ) : Readable (v.state k) := by
  induction k with
  | zero =>
    obtain ⟨xs, hxs⟩ := v.first
    exact readable_run hxs
  | succ k ih =>
    obtain ⟨ys, hys⟩ := v.reached k
    exact LTS.mtrInv_of_trInv readable_trInv hys ih

theorem notifications (k : ℕ) :
    (v.state k).api.notifications <+: (v.state (k + 1)).api.notifications := by
  obtain ⟨ys, hys⟩ := v.reached k
  exact notifications_run (v.readable k) hys

/-- The tables as a request finds them, with the times that the rows are inserted with. -/
def tables (created updated : ℕ → ℤ) (k : ℕ) : Tables V where
  notifications := (v.state k).api.notifications.map fun n => ⟨n, created n.id, updated n.id⟩
  deliveries := (v.loaded k).deliveries
  primaryKey := by simpa [Function.comp_def] using (v.readable k).stored.ids

/-- The client asks for offsets 0, `limit`, `2 * limit`, … until a page is empty. -/
def fetchHistory (limit : ℤ) (plans : ∀ k, Plan (v.tables created updated k) userId) (fuel : ℕ) :
    Option (List (HistoryItem V)) :=
  collect (fun k => (getHistory (some limit) (some (k * limit)) (plans k)).toOption) fuel 0

theorem ofUser_tables (k : ℕ) : (v.tables created updated k).ofUser userId =
    ((v.state k).api.notifications.filter (·.userId = userId)).map
      fun n => ⟨n, created n.id, updated n.id⟩ := by
  rw [tables, Tables.ofUser, List.filter_map]
  rfl

theorem ofUser_subperm (k : ℕ) : ((v.tables created updated k).ofUser userId).Subperm
    ((v.tables created updated (k + 1)).ofUser userId) := by
  rw [ofUser_tables, ofUser_tables]
  exact (((v.notifications k).sublist.filter _).map _).subperm

/-- What the client has been shown when it stops. -/
theorem fetched (hlimit : 1 ≤ limit ∧ limit ≤ 100)
    (plans : ∀ k, Plan (v.tables created updated k) userId) {fuel : ℕ} {all : List (HistoryItem V)}
    (hall : v.fetchHistory limit plans fuel = some all) :
    ∃ n, page limit.toNat (n * limit.toNat) (plans n).order.list = [] ∧ ∀ x, x ∈ all ↔
      ∃ k < n, ∃ row ∈ page limit.toNat (k * limit.toNat) (plans k).order.list,
        (plans k).respond row = x := by
  obtain ⟨n, _, hstop, rows, hrows, hmem⟩ := collect_some hall
  rw [getHistory_page hlimit, Option.some.injEq, List.map_eq_nil_iff] at hstop
  refine ⟨n, hstop, fun x => ?_⟩
  rw [hmem]
  have hpage : ∀ k < n, rows k =
      (page limit.toNat (k * limit.toNat) (plans k).order.list).map (plans k).respond := by
    intro k hk
    have hrow := hrows k (Nat.zero_le k) hk
    rw [getHistory_page hlimit, Option.some.injEq] at hrow
    exact hrow.symm
  constructor
  · rintro ⟨k, _, hk, hx⟩
    rw [hpage k hk] at hx
    obtain ⟨row, hrow, rfl⟩ := List.mem_map.mp hx
    exact ⟨k, hk, row, hrow, rfl⟩
  · rintro ⟨k, hk, row, hrow, rfl⟩
    refine ⟨k, Nat.zero_le k, hk, ?_⟩
    rw [hpage k hk]
    exact List.mem_map_of_mem hrow

/-- `GET /notifications/{id}` at a request of the client, when the database returns the same. -/
def read {k : ℕ} (plan : Plan (v.tables created updated k) userId) : Read svc queues :=
  ⟨v.state k, v.loaded k, v.between k, plan.deliveries, plan.perm⟩

/-- An item is what `GET /notifications/{id}` then shows under its id. -/
theorem shown {k : ℕ} (plan : Plan (v.tables created updated k) userId)
    {row : NotificationRow V} (hrow : row ∈ (v.tables created updated k).ofUser userId) :
    (v.read plan).getStatus row.columns.id = .ok (plan.respond row).response ∧
      row.columns.userId = userId ∧ row.createdAt = created row.columns.id := by
  rw [ofUser_tables] at hrow
  obtain ⟨n, hn, rfl⟩ := List.mem_map.mp hrow
  obtain ⟨hmem, huser⟩ := List.mem_filter.mp hn
  have hfound := Api.find_of_ids (v.readable k).stored.ids hmem
  exact ⟨Read.getStatus_eq hfound, of_decide_eq_true huser, rfl⟩

/-- A row that shares its time with no other row of the user is lone at every request. -/
theorem lone {n : Notification V}
    (hlone : ∀ k, ∀ m ∈ (v.state k).api.notifications, m.userId = userId →
      created m.id = created n.id → m = n) (k : ℕ) :
    Lone NotificationRow.createdAt ((v.tables created updated k).ofUser userId)
      ⟨n, created n.id, updated n.id⟩ := by
  intro row hrow hsame
  rw [ofUser_tables] at hrow
  obtain ⟨m, hm, rfl⟩ := List.mem_map.mp hrow
  obtain ⟨hmem, huser⟩ := List.mem_filter.mp hm
  rw [hlone k m hmem (of_decide_eq_true huser) hsame]

/-- No page is left once the offset has reached the number of rows. -/
theorem page_beyond (hlimit : 1 ≤ limit) {bound k : ℕ}
    (hbound : (v.state k).api.notifications.length ≤ bound) (hk : bound ≤ k)
    (plan : Plan (v.tables created updated k) userId) :
    page limit.toNat (k * limit.toNat) plan.order.list = [] := by
  have hlength : plan.order.list.length ≤ bound := by
    rw [plan.order.length_eq, ofUser_tables, List.length_map]
    exact (List.length_filter_le _ _).trans hbound
  have hoffset : k ≤ k * limit.toNat := Nat.le_mul_of_pos_right k (by omega)
  rw [page, List.drop_eq_nil_of_le (by omega), List.take_nil]

end Visits

/-- A client that turns the pages while notifications are stored stops if their number is bounded.
Each item is a row of the page of one of its requests, and what `GET /notifications/{id}` shows at
that request; and no notification is missed that was there at the first request and has a
`created_at` of its own. -/
theorem history_live (v : Visits svc queues) (hlimit : 1 ≤ limit ∧ limit ≤ 100)
    (plans : ∀ k, Plan (v.tables created updated k) userId) :
    (∀ bound, (∀ k, (v.state k).api.notifications.length ≤ bound) →
      (v.fetchHistory limit plans (bound + 1)).isSome = true) ∧
    ∀ fuel all, v.fetchHistory limit plans fuel = some all → ∃ stop,
      page limit.toNat (stop * limit.toNat) (plans stop).order.list = [] ∧
      (∀ x ∈ all, ∃ k < stop, ∃ row ∈ page limit.toNat (k * limit.toNat) (plans k).order.list,
        x = (plans k).respond row ∧ row.columns.userId = userId ∧
          row.createdAt = created row.columns.id ∧
          (v.read (plans k)).getStatus row.columns.id = .ok x.response) ∧
      ∀ n ∈ (v.state 0).api.notifications, n.userId = userId →
        (∀ k, ∀ m ∈ (v.state k).api.notifications, m.userId = userId →
          created m.id = created n.id → m = n) →
        ∃ x ∈ all, x.response.id = n.id := by
  refine ⟨fun bound hbound => ?_, fun fuel all hall => ?_⟩
  · refine collect_isSome (fun k => ?_) (fun k hk => ?_) (Nat.lt_succ_self bound)
      (Nat.succ_pos bound)
    · rw [getHistory_page hlimit]
      rfl
    · rw [getHistory_page hlimit, v.page_beyond hlimit.1 (hbound k) hk]
      rfl
  · obtain ⟨stop, hstop, hmem⟩ := v.fetched hlimit plans hall
    refine ⟨stop, hstop, fun x hx => ?_, fun n hn huser hlone => ?_⟩
    · obtain ⟨k, hk, row, hrow, rfl⟩ := (hmem x).mp hx
      have hstored := (plans k).order.perm.subset
        (List.mem_of_mem_drop (List.mem_of_mem_take hrow))
      obtain ⟨hstatus, hof, hcreated⟩ := v.shown (plans k) hstored
      exact ⟨k, hk, row, hrow, rfl, hof, hcreated, hstatus⟩
    · have hfirst : (⟨n, created n.id, updated n.id⟩ : NotificationRow V) ∈
          (v.tables created updated 0).ofUser userId := by
        rw [Visits.ofUser_tables]
        exact List.mem_map_of_mem (List.mem_filter.mpr ⟨hn, decide_eq_true huser⟩)
      obtain ⟨k, hk, hpage⟩ := exists_page (fun k => (plans k).order) v.ofUser_subperm hfirst
        (v.lone hlone) (by omega) hstop
      exact ⟨_, (hmem _).mpr ⟨k, hk, _, hpage, rfl⟩, rfl⟩

/-- While the first page is read the same user is sent another notification. -/
def anotherSteps : List (Action Unit) :=
  [.api (.request none Api.emailRequest)] ++ List.replicate 7 (.api (.run 1 .ok))

/-- Each query sorts the rows and loads the deliveries as they are stored. -/
def Visits.sortedPlans (v : Visits svc queues) (userId : String) (k : ℕ) :
    Plan (v.tables Int.ofNat Int.ofNat k) userId := ⟨.sort _ _, _, .refl _⟩

theorem history_live_another : ∃ (v : Visits literalJinja.service workerQueues)
    (all : List (HistoryItem Unit)), (v.state 1).api.notifications.map (·.id) = [0, 1] ∧
    v.fetchHistory 1 (v.sortedPlans "user_happy") 3 = some all ∧
    ∃ x ∈ all, x.response.id = 0 := by
  have hrun : ((LTS.run (step literalJinja.service workerQueues) initial sendSteps).bind fun s =>
      (LTS.run (step literalJinja.service workerQueues) s anotherSteps).map fun t =>
        (s.api.notifications.map fun n => (n.id, n.userId), t.api.notifications.map (·.id))) =
      some ([(0, "user_happy")], [0, 1]) := by decide
  obtain ⟨s, t, hs, ht, he⟩ := LTS.exists_mTrs hrun
  obtain ⟨hone, htwo⟩ := Prod.mk.inj he
  obtain ⟨n, l, hl, hn, hrest⟩ := List.map_eq_cons_iff.mp hone
  obtain rfl := List.map_eq_nil_iff.mp hrest
  obtain ⟨hid, huser⟩ := Prod.mk.inj hn
  let v : Visits literalJinja.service workerQueues := {
    state := fun k => if k = 0 then s else t
    loaded := fun _ => t
    first := ⟨_, hs⟩
    between := fun k => by
      cases k with
      | zero => exact ⟨_, ht⟩
      | succ k => exact ⟨[], .refl⟩
    next := fun _ => ⟨[], .refl⟩ }
  have hbound : ∀ k, (v.state k).api.notifications.length ≤ 2 := by
    intro k
    cases k with
    | zero => simp [v, hl]
    | succ k =>
      have hlength := congrArg List.length htwo
      rw [List.length_map] at hlength
      exact hlength.le
  obtain ⟨hstops, hshown⟩ := history_live v (by decide : 1 ≤ (1 : ℤ) ∧ (1 : ℤ) ≤ 100)
    (v.sortedPlans "user_happy")
  obtain ⟨all, hall⟩ := Option.isSome_iff_exists.mp (hstops 2 hbound)
  have hstored : ∀ k, n ∈ (v.state k).api.notifications := by
    intro k
    induction k with
    | zero => simp [v, hl]
    | succ k ih => exact (v.notifications k).subset ih
  obtain ⟨_, _, _, hfound⟩ := hshown 3 all hall
  obtain ⟨x, hx, hxid⟩ := hfound n (hstored 0) huser fun k m hm _ hsame =>
    List.inj_on_of_nodup_map (v.readable k).stored.ids hm (hstored k) (Int.ofNat.inj hsame)
  exact ⟨v, all, htwo, hall, x, hx, hxid.trans hid⟩

end NotificationService.Deployment
