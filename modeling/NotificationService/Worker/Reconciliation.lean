import NotificationService.Foundation.Transition
import NotificationService.Foundation.Pool
import NotificationService.Worker.Delivery

/-! One tick of `reconcile_pending_deliveries` over a table of deliveries with timed status logs:
which rows it takes for stuck, against how long they have been PENDING. Operations run one after the
other here, each with one reading of the clock and with a freshly loaded row. -/
namespace NotificationService.Worker

open Transition

/-- A status-log row with its timestamp in microseconds. -/
structure TimedLog where
  entry : StatusLog
  timestamp : ℤ
  deriving DecidableEq, Repr

/-- A delivery with its history, and the priority of its notification if that row exists. -/
structure DeliveryRecord where
  columns : Delivery
  logs : List TimedLog
  priority : Option Priority
  deriving DecidableEq, Repr

/-- The deliveries in the order of their creation, and the time of the last operation. -/
structure DeliveryTable where
  now : ℤ
  records : List DeliveryRecord
  deriving DecidableEq, Repr

inductive Operation where
  | create (channel : Channel) (status : Status) (priority : Option Priority) (time : ℤ)
  | update (k : ℕ) (u : Update) (time : ℤ)
  deriving DecidableEq, Repr

def Operation.time : Operation → ℤ
  | .create _ _ _ time | .update _ _ time => time

/-- `create_delivery` with the status that it is given. -/
def DeliveryRecord.create (channel : Channel) (status : Status) (priority : Option Priority)
    (now : ℤ) : DeliveryRecord where
  columns := { (createDelivery channel now).1 with status := status }
  logs := [⟨{ (createDelivery channel now).2 with toStatus := status }, now⟩]
  priority := priority

/-- `update_delivery_status` in a session that loads the committed row. -/
def DeliveryRecord.update (u : Update) (now : ℤ) (r : DeliveryRecord) : DeliveryRecord :=
  { r with
    columns := flush r.columns (u.assign r.columns) r.columns
    logs := r.logs ++ [⟨u.log r.columns, now⟩] }

def DeliveryTable.apply (db : DeliveryTable) : Operation → DeliveryTable
  | .create channel status priority time =>
    ⟨time, db.records ++ [.create channel status priority time]⟩
  | .update k u time => ⟨time, db.records.modify k (.update u time)⟩

/-- Operations at nondecreasing times. -/
def tableStep (db : DeliveryTable) (op : Operation) : Option DeliveryTable :=
  if db.now ≤ op.time then some (db.apply op) else none

def tableSys : LTS DeliveryTable Operation := LTS.ofStep tableStep

/-- One tick at `now`: the deliveries it publishes a message for, each with its queue. -/
def reconcilePendingDeliveries (now : ℤ) (db : DeliveryTable) : List (ℕ × String) :=
  (db.records.zipIdx.filter fun (r, _) => getPendingDeliveries 300 now r.columns).map
    fun (r, k) => (k, queueName (r.priority.getD .normal))

/-- The tick at `now` re-enqueues delivery `k`. -/
def DeliveryTable.Requeued (db : DeliveryTable) (now : ℤ) (k : ℕ) : Prop :=
  ∃ queue, (k, queue) ∈ reconcilePendingDeliveries now db

/-- By its history the delivery has been PENDING without a break since before `cutoff`. -/
def PendingSince (cutoff : ℤ) (logs : List TimedLog) : Prop :=
  ∃ before x after, logs = before ++ x :: after ∧ x.timestamp < cutoff ∧
    ∀ y ∈ x :: after, y.entry.toStatus = .pending

/-- The delivery has come back to PENDING from another status at or after `cutoff`. -/
def ReturnedSince (cutoff : ℤ) (logs : List TimedLog) : Prop :=
  ∃ x ∈ logs, cutoff ≤ x.timestamp ∧ x.entry.toStatus = .pending ∧
    x.entry.fromStatus ∉ [none, some .pending]

instance (cutoff : ℤ) (logs : List TimedLog) : Decidable (ReturnedSince cutoff logs) :=
  inferInstanceAs (Decidable (∃ x ∈ logs, _ ∧ _ ∧ _))

variable {db db' : DeliveryTable} {op : Operation} {xs : List Operation} {r : DeliveryRecord}
  {u : Update} {now time cutoff : ℤ} {k : ℕ} {logs : List TimedLog} {x : TimedLog}

theorem requeued_iff (hr : db.records[k]? = some r) : db.Requeued now k ↔
    r.columns.status = .pending ∧ r.columns.createdAt < now - 300000000 := by
  have hquery : getPendingDeliveries 300 now r.columns = true ↔
      r.columns.status = .pending ∧ r.columns.createdAt < now - 300000000 := by
    simp [getPendingDeliveries]
  rw [← hquery]
  simp only [DeliveryTable.Requeued, reconcilePendingDeliveries, List.mem_map, List.mem_filter,
    Prod.mk.injEq, Prod.exists, List.mem_zipIdx_iff_getElem?]
  constructor
  · rintro ⟨_, r', _, ⟨hr', hp⟩, rfl, _⟩
    cases hr.symm.trans hr'
    exact hp
  · intro hp
    exact ⟨_, r, k, ⟨hr, hp⟩, rfl, rfl⟩

/-! ### What a log entry changes -/

theorem pendingSince_concat : PendingSince cutoff (logs ++ [x]) ↔
    x.entry.toStatus = .pending ∧ (PendingSince cutoff logs ∨ x.timestamp < cutoff) := by
  constructor
  · rintro ⟨before, y, after, heq, hy, hall⟩
    rcases List.eq_nil_or_concat' after with rfl | ⟨after, z, rfl⟩
    · obtain ⟨-, hx⟩ := List.append_inj' heq rfl
      obtain rfl : x = y := List.head_eq_of_cons_eq hx
      exact ⟨hall x List.mem_cons_self, Or.inr hy⟩
    · rw [← List.cons_append, ← List.append_assoc] at heq
      obtain ⟨hlogs, hx⟩ := List.append_inj' heq rfl
      obtain rfl : x = z := List.head_eq_of_cons_eq hx
      refine ⟨hall x (by simp), Or.inl ⟨before, y, after, hlogs, hy, fun w hw => hall w ?_⟩⟩
      rw [← List.cons_append]
      exact List.mem_append_left _ hw
  · rintro ⟨hx, ⟨before, y, after, rfl, hy, hall⟩ | hold⟩
    · exact ⟨before, y, after ++ [x], by simp, hy, by
        rw [← List.cons_append]
        exact Pool.forall_concat hall hx⟩
    · exact ⟨logs, x, [], rfl, hold, by simpa using hx⟩

theorem returnedSince_concat : ReturnedSince cutoff (logs ++ [x]) ↔
    ReturnedSince cutoff logs ∨ cutoff ≤ x.timestamp ∧ x.entry.toStatus = .pending ∧
      x.entry.fromStatus ∉ [none, some .pending] := by
  simp only [ReturnedSince, List.mem_append, List.mem_singleton, or_and_right, exists_or,
    exists_eq_left]

/-- What ties the columns that the query reads to the history. -/
structure DeliveryRecord.Kept (now : ℤ) (r : DeliveryRecord) : Prop where
  created : r.columns.createdAt ≤ now
  stamped : ∀ x ∈ r.logs, x.timestamp ≤ now
  old : ∀ cutoff, r.columns.status = .pending → r.columns.createdAt < cutoff →
    PendingSince cutoff r.logs ∨ ReturnedSince cutoff r.logs
  stuck : ∀ cutoff, PendingSince cutoff r.logs → r.columns.status = .pending ∧
    r.columns.createdAt < cutoff ∧ ¬ ReturnedSince cutoff r.logs

theorem kept_create (channel : Channel) (status : Status) (priority : Option Priority) (now : ℤ) :
    (DeliveryRecord.create channel status priority now).Kept now := by
  have hsince : ∀ cutoff, PendingSince cutoff (DeliveryRecord.create channel status priority now).logs ↔
      status = .pending ∧ now < cutoff := by
    intro cutoff
    have hnil : ¬ PendingSince cutoff [] := by simp [PendingSince]
    rw [DeliveryRecord.create, ← List.nil_append [_], pendingSince_concat]
    simp [hnil]
  refine ⟨Int.le_refl now, by simp [DeliveryRecord.create], ?_, ?_⟩
  · intro cutoff hp hold
    exact Or.inl ((hsince cutoff).mpr ⟨hp, hold⟩)
  · intro cutoff hstuck
    obtain ⟨hp, hold⟩ := (hsince cutoff).mp hstuck
    exact ⟨hp, hold, by simp [ReturnedSince, DeliveryRecord.create, createDelivery]⟩

theorem kept_mono (hr : r.Kept now) (h : now ≤ time) : r.Kept time := by
  refine ⟨Int.le_trans hr.created h, fun x hx => ?_, hr.old, hr.stuck⟩
  exact Int.le_trans (hr.stamped x hx) h

theorem kept_update (hr : r.Kept now) (h : now ≤ time) : (r.update u time).Kept time := by
  have hlogs : (r.update u time).logs = r.logs ++ [⟨u.log r.columns, time⟩] := rfl
  have hcreated : (r.update u time).columns.createdAt = r.columns.createdAt := rfl
  have hstatus : (r.update u time).columns.status = u.toStatus := by
    simp [DeliveryRecord.update, flush_fresh]
  have hnow := hr.created
  refine ⟨by omega, ?_, ?_, ?_⟩
  · rw [hlogs]
    refine Pool.forall_concat (fun x hx => ?_) (Int.le_refl time)
    exact Int.le_trans (hr.stamped x hx) h
  · intro cutoff hp hold
    rw [hstatus] at hp
    rw [hcreated] at hold
    rw [hlogs, pendingSince_concat, returnedSince_concat]
    by_cases hd : r.columns.status = .pending
    · rcases hr.old cutoff hd hold with hsince | hret
      · exact Or.inl ⟨hp, Or.inl hsince⟩
      · exact Or.inr (Or.inl hret)
    · by_cases hlate : time < cutoff
      · exact Or.inl ⟨hp, Or.inr hlate⟩
      · exact Or.inr (Or.inr ⟨Int.not_lt.mp hlate, hp, by simpa [Update.log] using hd⟩)
  · intro cutoff hsince
    rw [hlogs, pendingSince_concat] at hsince
    obtain ⟨hp, hsince⟩ := hsince
    rw [hstatus, hcreated, hlogs, returnedSince_concat]
    rcases hsince with hsince | hlate
    · obtain ⟨hd, hold, hret⟩ := hr.stuck cutoff hsince
      refine ⟨hp, hold, ?_⟩
      rintro (hret' | ⟨_, _, hfrom⟩)
      · exact hret hret'
      · simp [Update.log, hd] at hfrom
    · have hlt : time < cutoff := hlate
      refine ⟨hp, by omega, ?_⟩
      rintro (⟨x, hx, hle, _⟩ | ⟨hle, _⟩)
      · have hx' := hr.stamped x hx
        omega
      · exact absurd hlt (Int.not_lt.mpr hle)

/-- Every record of the table is kept. -/
def DeliveryTable.Kept (db : DeliveryTable) : Prop := ∀ r ∈ db.records, r.Kept db.now

theorem kept_step (h : tableSys.Tr db op db') (hdb : db.Kept) : db'.Kept := by
  obtain ⟨htime, rfl⟩ := Option.ite_none_right_eq_some.mp h |>.imp_right Option.some.inj
  cases op with
  | create channel status priority time =>
    exact Pool.forall_concat (fun r hr => kept_mono (hdb r hr) htime)
      (kept_create channel status priority time)
  | update k u time =>
    intro r hr
    obtain ⟨j, hj⟩ := List.mem_iff_getElem?.mp hr
    simp only [DeliveryTable.apply, List.getElem?_modify, Option.map_eq_map,
      Option.map_eq_some_iff] at hj
    obtain ⟨r', hr', rfl⟩ := hj
    have hold := hdb r' (List.mem_of_getElem? hr')
    split
    · exact kept_update hold htime
    · exact kept_mono hold htime

/-- For every run and every delivery in the table it leads to: a tick re-enqueues the delivery exactly
if it has been PENDING for more than 300 seconds, unless it is PENDING, older than that, and came
back to PENDING within the last 300 seconds. -/
theorem reconcile_exact {start : ℤ} (h : tableSys.MTr ⟨start, []⟩ xs db)
    (hr : db.records[k]? = some r) :
    (db.Requeued now k ↔
      r.columns.status = .pending ∧ PendingSince (now - 300000000) r.logs) ↔
    ¬ (r.columns.status = .pending ∧ r.columns.createdAt < now - 300000000 ∧
      ReturnedSince (now - 300000000) r.logs) := by
  have hinv : tableSys.TrInv DeliveryTable.Kept := by
    intro db op db' hstep hdb
    exact kept_step hstep hdb
  have hdb : db.Kept := LTS.mtrInv_of_trInv hinv h (by simp [DeliveryTable.Kept])
  have hkept := hdb r (List.mem_of_getElem? hr)
  rw [requeued_iff hr]
  constructor
  · rintro hiff ⟨hp, hold, hret⟩
    obtain ⟨_, hsince⟩ := hiff.mp ⟨hp, hold⟩
    exact (hkept.stuck _ hsince).2.2 hret
  · intro hno
    constructor
    · rintro ⟨hp, hold⟩
      exact ⟨hp, (hkept.old _ hp hold).resolve_right fun hret => hno ⟨hp, hold, hret⟩⟩
    · rintro ⟨hp, hsince⟩
      exact ⟨hp, (hkept.stuck _ hsince).2.1⟩

/-- A delivery created at 0, with one failed attempt. -/
def attemptedOperations (sent back : ℤ) : List Operation :=
  [.create .email .pending (some .high) 0, .update 0 ⟨.sent, none, false⟩ sent,
    .update 0 ⟨.pending, some "Provider transient error: timeout", true⟩ back]

/-- The retry of a delivery that came back to PENDING after 2 seconds was lost. -/
theorem reconcile_exact_lost :
    ∃ db r, tableSys.MTr ⟨0, []⟩ (attemptedOperations 1000000 2000000) db ∧
    db.records[0]? = some r ∧ db.Requeued 303000000 0 ∧ PendingSince 3000000 r.logs := by
  have hrun : (LTS.run tableStep ⟨0, []⟩ (attemptedOperations 1000000 2000000)).map
      (fun db => db.records.map fun r => (r.columns.status, r.columns.createdAt,
        decide (ReturnedSince 3000000 r.logs))) = some [(.pending, 0, false)] := by decide
  obtain ⟨db, hdb, he⟩ := LTS.exists_mTr hrun
  obtain ⟨r, _, hl, hr, _⟩ := List.map_eq_cons_iff.mp he
  simp only [Prod.mk.injEq, decide_eq_false_iff_not] at hr
  obtain ⟨hp, hcreated, hret⟩ := hr
  have hrun' : tableSys.MTr ⟨0, []⟩ (attemptedOperations 1000000 2000000) db :=
    hdb
  have hr : db.records[0]? = some r := by simp [hl]
  have hrequeued : db.Requeued 303000000 0 := (requeued_iff hr).mpr ⟨hp, by omega⟩
  have hexact : db.Requeued 303000000 0 ↔ _ :=
    (reconcile_exact hrun' hr).mpr fun h => hret h.2.2
  exact ⟨db, r, hrun', hr, hrequeued, (hexact.mp hrequeued).2⟩

/-- The first attempt fails 401 seconds after the creation; one second later a tick takes the
delivery for stuck. -/
theorem requeued_while_retrying : ¬ ∀ xs db now k r, tableSys.MTr ⟨0, []⟩ xs db → db.now ≤ now →
    db.records[k]? = some r →
    (db.Requeued now k ↔ r.columns.status = .pending ∧ PendingSince (now - 300000000) r.logs) := by
  intro h
  have hrun : (LTS.run tableStep ⟨0, []⟩ (attemptedOperations 400000000 401000000)).map
      (fun db => (db.now, db.records.map fun r => (r.columns.status, r.columns.createdAt, r.logs))) =
      some (401000000, [(.pending, 0, [⟨⟨none, .pending⟩, 0⟩] ++
        [⟨⟨some .pending, .sent⟩, 400000000⟩] ++ [⟨⟨some .sent, .pending⟩, 401000000⟩])]) := by decide
  obtain ⟨db, hdb, he⟩ := LTS.exists_mTr hrun
  obtain ⟨hnow, hl⟩ := Prod.mk.inj he
  obtain ⟨r, _, hl, hr, _⟩ := List.map_eq_cons_iff.mp hl
  simp only [Prod.mk.injEq] at hr
  obtain ⟨hp, hcreated, hlogs⟩ := hr
  have hr : db.records[0]? = some r := by simp [hl]
  have hrequeued : db.Requeued 402000000 0 := (requeued_iff hr).mpr ⟨hp, by omega⟩
  have hiff := h _ db 402000000 0 r hdb (by omega) hr
  obtain ⟨_, hsince⟩ := hiff.mp hrequeued
  rw [hlogs, pendingSince_concat, pendingSince_concat] at hsince
  simp at hsince

end NotificationService.Worker
