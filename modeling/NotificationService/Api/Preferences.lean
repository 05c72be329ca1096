import NotificationService.Foundation.UnitOfWork
import NotificationService.Api.System

/-! Concurrent `POST /users/{userId}/preferences` requests on one table: each reads the row, then
inserts it or writes back the columns it changes. -/
namespace NotificationService.Api.Preferences

open Transition

/-- `rowGone` is SQLAlchemy's error for a row that another transaction has deleted. -/
inductive Response where
  | ok (row : UserPreference)
  | uniqueViolation
  | rowGone
  | exception (err : String)
  deriving DecidableEq, Repr

/-- The failures that only another transaction can cause. -/
def Response.isRace : Response → Bool
  | .uniqueViolation | .rowGone => true
  | _ => false

/-- The operation that `upsert` awaits next. -/
inductive PC where
  | getByUserId
  | commit (existing : Option UserPreference)
  | refresh
  | finished (r : Response)
  deriving DecidableEq, Repr

structure Upsert where
  userId : String
  pref : UserPreference
  pc : PC
  deriving DecidableEq, Repr

/-- A commit that has taken effect: what was requested, and the row that it left. -/
structure Commit where
  userId : String
  pref : UserPreference
  stored : UserPreference
  deriving DecidableEq, Repr

/-- The committed rows, the requests, and the history of commits. -/
structure State where
  rows : String → Option UserPreference
  requests : List Upsert
  commits : List Commit

/-- An operation may raise for reasons of its own. -/
inductive Action where
  | request (userId : String) (pref : UserPreference)
  | run (i : ℕ)
  | raised (i : ℕ) (err : String)
  deriving DecidableEq, Repr

def initial (rows : String → Option UserPreference) : State := ⟨rows, [], []⟩

/-- The UPDATE of a session that loaded `existing` and assigned the three columns. -/
def flush (existing pref row : UserPreference) : UserPreference where
  emailEnabled := UnitOfWork.writeBack existing.emailEnabled pref.emailEnabled row.emailEnabled
  smsEnabled := UnitOfWork.writeBack existing.smsEnabled pref.smsEnabled row.smsEnabled
  pushEnabled := UnitOfWork.writeBack existing.pushEnabled pref.pushEnabled row.pushEnabled

/-- The committed row after the INSERT or the UPDATE, from the loaded and the committed one. -/
def write (pref : UserPreference) :
    Option UserPreference → Option UserPreference → Except Response UserPreference
  | none, none => .ok pref
  | none, some _ => .error .uniqueViolation
  | some existing, some row => .ok (flush existing pref row)
  | some _, none => .error .rowGone

def State.setPC (s : State) (i : ℕ) (r : Upsert) (pc : PC) : State :=
  { s with requests := s.requests.set i { r with pc := pc } }

def State.store (s : State) (r : Upsert) (row : UserPreference) : State :=
  { s with
    rows := Function.update s.rows r.userId (some row)
    commits := s.commits ++ [⟨r.userId, r.pref, row⟩] }

def step (s : State) : Action → Option State
  | .request userId pref => some { s with requests := s.requests ++ [⟨userId, pref, .getByUserId⟩] }
  | .run i =>
    s.requests[i]?.bind fun r =>
      match r.pc with
      | .getByUserId => some (s.setPC i r (.commit (s.rows r.userId)))
      | .commit existing =>
        match write r.pref existing (s.rows r.userId) with
        | .ok row => some ((s.store r row).setPC i r .refresh)
        | .error e => some (s.setPC i r (.finished e))
      | .refresh =>
        match s.rows r.userId with
        | some row => some (s.setPC i r (.finished (.ok row)))
        | none => some (s.setPC i r (.finished .rowGone))
      | .finished _ => none
  | .raised i err =>
    s.requests[i]?.bind fun r =>
      match r.pc with
      | .finished _ => none
      | _ => some (s.setPC i r (.finished (.exception err)))

def sys : LTS State Action := LTS.ofStep step

/-- No request has failed because of another one, and every commit has left what was requested. -/
structure Atomic (s : State) : Prop where
  accepted : ∀ r ∈ s.requests, ∀ e, r.pc = .finished e → e.isRace = false
  whole : ∀ c ∈ s.commits, c.stored = c.pref

/-- The row is still absent for an INSERT, and the columns that an UPDATE leaves out still have the
values that the session had loaded. -/
def UpToDate (pref : UserPreference) : Option UserPreference → Option UserPreference → Prop
  | none, row => row = none
  | some existing, row => ∀ x ∈ row,
    (pref.emailEnabled = existing.emailEnabled → x.emailEnabled = existing.emailEnabled) ∧
    (pref.smsEnabled = existing.smsEnabled → x.smsEnabled = existing.smsEnabled) ∧
    (pref.pushEnabled = existing.pushEnabled → x.pushEnabled = existing.pushEnabled)

/-- The requested, loaded and committed values in the write that an action performs. -/
def State.writing (s : State) : Action →
    Option (UserPreference × Option UserPreference × Option UserPreference)
  | .run i =>
    s.requests[i]?.bind fun r =>
      match r.pc with
      | .commit existing => some (r.pref, existing, s.rows r.userId)
      | _ => none
  | _ => none

/-- No write goes by an outdated read. -/
def Fresh (s : State) (a : Action) : Prop := ∀ x ∈ s.writing a, UpToDate x.1 x.2.1 x.2.2

instance (pref : UserPreference) :
    ∀ existing row : Option UserPreference, Decidable (UpToDate pref existing row)
  | none, row => inferInstanceAs (Decidable (row = none))
  | some _, row => inferInstanceAs (Decidable (∀ x ∈ row, _ ∧ _ ∧ _))

instance (s : State) (a : Action) : Decidable (Fresh s a) :=
  inferInstanceAs (Decidable (∀ x ∈ _, _))

variable {s t : State} {a : Action} {xs : List Action} {i : ℕ} {r : Upsert}
  {pref row : UserPreference} {existing stored : Option UserPreference}

inductive Step (s : State) : Action → State → Prop where
  | request {userId : String} {pref : UserPreference} :
      Step s (.request userId pref)
        { s with requests := s.requests ++ [⟨userId, pref, .getByUserId⟩] }
  | read {i : ℕ} {r : Upsert} : s.requests[i]? = some r → r.pc = .getByUserId →
      Step s (.run i) (s.setPC i r (.commit (s.rows r.userId)))
  | committed {i : ℕ} {r : Upsert} {existing : Option UserPreference} {row : UserPreference} :
      s.requests[i]? = some r → r.pc = .commit existing →
      write r.pref existing (s.rows r.userId) = .ok row →
      Step s (.run i) ((s.store r row).setPC i r .refresh)
  | rejected {i : ℕ} {r : Upsert} {existing : Option UserPreference} {e : Response} :
      s.requests[i]? = some r → r.pc = .commit existing →
      write r.pref existing (s.rows r.userId) = .error e →
      Step s (.run i) (s.setPC i r (.finished e))
  | refreshed {i : ℕ} {r : Upsert} {row : UserPreference} : s.requests[i]? = some r →
      r.pc = .refresh → s.rows r.userId = some row →
      Step s (.run i) (s.setPC i r (.finished (.ok row)))
  | gone {i : ℕ} {r : Upsert} : s.requests[i]? = some r → r.pc = .refresh →
      s.rows r.userId = none → Step s (.run i) (s.setPC i r (.finished .rowGone))
  | raised {i : ℕ} {r : Upsert} {err : String} : s.requests[i]? = some r →
      (∀ e, r.pc ≠ .finished e) → Step s (.raised i err) (s.setPC i r (.finished (.exception err)))

theorem step_cases (hs : step s a = some t) : Step s a t := by
  cases a with
  | request userId pref =>
    cases hs
    exact .request
  | run i =>
    obtain ⟨r, hr, hs⟩ := Option.bind_eq_some_iff.mp hs
    cases hpc : r.pc with
    | getByUserId =>
      simp only [hpc, Option.some.injEq] at hs
      exact hs ▸ .read hr hpc
    | commit existing =>
      simp only [hpc] at hs
      cases hw : write r.pref existing (s.rows r.userId) with
      | ok row =>
        simp only [hw, Option.some.injEq] at hs
        exact hs ▸ .committed hr hpc hw
      | error e =>
        simp only [hw, Option.some.injEq] at hs
        exact hs ▸ .rejected hr hpc hw
    | refresh =>
      simp only [hpc] at hs
      cases hrow : s.rows r.userId with
      | some row =>
        simp only [hrow, Option.some.injEq] at hs
        exact hs ▸ .refreshed hr hpc hrow
      | none =>
        simp only [hrow, Option.some.injEq] at hs
        exact hs ▸ .gone hr hpc hrow
    | finished e => simp [hpc] at hs
  | raised i err =>
    obtain ⟨r, hr, hs⟩ := Option.bind_eq_some_iff.mp hs
    cases hpc : r.pc with
    | finished e => simp [hpc] at hs
    | _ =>
      simp only [hpc, Option.some.injEq] at hs
      exact hs ▸ .raised hr (by simp [hpc])

theorem sys_step (hs : sys.Tr s a t) : Step s a t := step_cases hs

/-! ### One write -/

theorem flush_eq_iff {existing : UserPreference} : flush existing pref row = pref ↔
    UpToDate pref (some existing) (some row) := by
  cases pref
  simp [flush, UpToDate, UnitOfWork.writeBack_eq_new]

/-- A write stores what was requested exactly if it goes by an up-to-date read. -/
theorem write_exact (hp : existing.isSome = true → stored.isSome = true) :
    write pref existing stored = .ok pref ↔ UpToDate pref existing stored := by
  match existing, stored with
  | none, none => simp [write, UpToDate]
  | none, some _ => simp [write, UpToDate]
  | some _, some _ => simp [write, flush_eq_iff]
  | some _, none => cases hp rfl

theorem write_race {e : Response} (hw : write pref existing stored = .error e) :
    e.isRace = true := by
  match existing, stored with
  | none, none | some _, some _ => cases hw
  | none, some _ | some _, none =>
    cases hw
    rfl

/-! ### Rows do not disappear, and hold what the last commit has left -/

/-- The session has seen or written the row. -/
def PC.hasRow : PC → Bool
  | .commit existing => existing.isSome
  | .refresh => true
  | _ => false

structure Recorded (rows : String → Option UserPreference) (s : State) : Prop where
  present : ∀ r ∈ s.requests, r.pc.hasRow = true → (s.rows r.userId).isSome = true
  stored : ∀ u, s.rows u = rows u ∨ ∃ c ∈ s.commits, c.userId = u ∧ s.rows u = some c.stored

variable {rows : String → Option UserPreference}

theorem recorded_setPC (hs : Recorded rows s) {pc : PC}
    (hpc : pc.hasRow = true → (s.rows r.userId).isSome = true) : Recorded rows (s.setPC i r pc) :=
  ⟨Pool.forall_set hs.present hpc, hs.stored⟩

theorem recorded_store (hs : Recorded rows s) : Recorded rows (s.store r row) := by
  refine ⟨?_, ?_⟩
  · intro q hq hpc
    by_cases hu : q.userId = r.userId
    · simp [State.store, hu]
    · simpa [State.store, hu] using hs.present q hq hpc
  · intro u
    by_cases hu : u = r.userId
    · subst hu
      exact Or.inr ⟨⟨r.userId, r.pref, row⟩, by simp [State.store], rfl, by simp [State.store]⟩
    · rcases hs.stored u with hold | ⟨c, hc, hcu, hrow⟩
      · exact Or.inl (by simpa [State.store, hu] using hold)
      · exact Or.inr ⟨c, List.mem_append_left _ hc, hcu, by simpa [State.store, hu] using hrow⟩

theorem recorded_step (hstep : Step s a t) (hs : Recorded rows s) : Recorded rows t := by
  cases hstep with
  | request => exact ⟨Pool.forall_concat hs.present nofun, hs.stored⟩
  | read hr => exact recorded_setPC hs id
  | committed => exact recorded_setPC (recorded_store hs) (by simp [State.store])
  | rejected | refreshed | gone | raised => exact recorded_setPC hs nofun

theorem recorded_trInv : sys.TrInv (Recorded rows) := fun _ _ _ hstep hs =>
  recorded_step (sys_step hstep) hs

/-! ### Exactness -/

theorem atomic_setPC (hr : s.requests[i]? = some r) (hold : ∀ e, r.pc ≠ .finished e) {pc : PC} :
    Atomic (s.setPC i r pc) ↔ Atomic s ∧ ∀ e, pc = .finished e → e.isRace = false := by
  constructor
  · rintro ⟨hacc, hwhole⟩
    refine ⟨⟨fun q hq e he => ?_, hwhole⟩, ?_⟩
    · rcases Pool.mem_set_or_eq hr hq with hmem | rfl
      · exact hacc q hmem e he
      · exact (hold e he).elim
    · exact hacc _ (List.mem_set (List.getElem?_eq_some_iff.mp hr).1 _)
  · rintro ⟨⟨hacc, hwhole⟩, hpc⟩
    exact ⟨Pool.forall_set hacc hpc, hwhole⟩

theorem atomic_store : Atomic (s.store r row) ↔ Atomic s ∧ row = r.pref := by
  constructor
  · rintro ⟨hacc, hwhole⟩
    refine ⟨⟨hacc, fun c hc => hwhole c (List.mem_append_left _ hc)⟩, ?_⟩
    exact hwhole ⟨r.userId, r.pref, row⟩ (List.mem_append_right _ (List.mem_singleton_self _))
  · rintro ⟨⟨hacc, hwhole⟩, hrow⟩
    exact ⟨hacc, Pool.forall_concat hwhole hrow⟩

theorem fresh_commit (hr : s.requests[i]? = some r) (hpc : r.pc = .commit existing) :
    Fresh s (.run i) ↔ UpToDate r.pref existing (s.rows r.userId) := by
  simp [Fresh, State.writing, hr, hpc]

theorem fresh_other (hr : s.requests[i]? = some r) (hpc : ∀ existing, r.pc ≠ .commit existing) :
    Fresh s (.run i) := by
  have hnone : s.writing (.run i) = none := by
    cases h : r.pc with
    | commit existing => exact (hpc existing h).elim
    | _ => simp [State.writing, hr, h]
  simp [Fresh, hnone]

theorem atomic_step (hstep : Step s a t) (hi : Recorded rows s) :
    Atomic t ↔ Atomic s ∧ Fresh s a := by
  cases hstep with
  | request =>
    constructor
    · rintro ⟨hacc, hwhole⟩
      refine ⟨⟨fun q hq => hacc q (List.mem_append_left _ hq), hwhole⟩, ?_⟩
      simp [Fresh, State.writing]
    · rintro ⟨⟨hacc, hwhole⟩, _⟩
      exact ⟨Pool.forall_concat hacc (by simp), hwhole⟩
  | read hr hpc =>
    rw [atomic_setPC hr (by simp [hpc])]
    simp [fresh_other hr (by simp [hpc])]
  | @committed i r existing row hr hpc hw =>
    have hpresent := hi.present r (List.mem_of_getElem? hr)
    rw [hpc] at hpresent
    have hrow : row = r.pref ↔ write r.pref existing (s.rows r.userId) = .ok r.pref := by simp [hw]
    have hr' : (s.store r row).requests[i]? = some r := hr
    rw [atomic_setPC hr' (by simp [hpc]), atomic_store, fresh_commit hr hpc, hrow,
      write_exact hpresent]
    simp
  | @rejected i r existing e hr hpc hw =>
    have hpresent := hi.present r (List.mem_of_getElem? hr)
    rw [hpc] at hpresent
    rw [atomic_setPC hr (by simp [hpc]), fresh_commit hr hpc, ← write_exact hpresent, hw]
    simp [write_race hw]
  | refreshed hr hpc =>
    rw [atomic_setPC hr (by simp [hpc])]
    simp [fresh_other hr (by simp [hpc]), Response.isRace]
  | gone hr hpc hrow =>
    have hpresent := hi.present _ (List.mem_of_getElem? hr) (by rw [hpc]; rfl)
    simp [hrow] at hpresent
  | raised hr hpc =>
    rw [atomic_setPC hr hpc]
    simp [Fresh, State.writing, Response.isRace]

/-- In every run no request fails because of another and every commit leaves what was requested, if
and only if no write goes by an outdated read; a row is then always what one request asked for. -/
theorem preferences_atomic (hrun : sys.MTr (initial rows) xs s) :
    (Atomic s ↔ (sys.restrict Fresh).MTr (initial rows) xs s) ∧
    (Atomic s → ∀ u, s.rows u = rows u ∨
      ∃ c ∈ s.commits, c.userId = u ∧ s.rows u = some c.pref) := by
  have hinitial : Recorded rows (initial rows) := ⟨by simp [initial], fun _ => Or.inl rfl⟩
  have hatomic : Atomic (initial rows) := ⟨by simp [initial], by simp [initial]⟩
  refine ⟨hrun.restrict_iff recorded_trInv ?_ ?_ hinitial hatomic, ?_⟩
  · intro s a t hstep hi hs
    simp [atomic_step (sys_step hstep) hi, hs]
  · intro s a t hstep hi ht
    exact ((atomic_step (sys_step hstep) hi).mp ht).1
  · intro hs u
    have hrecorded := LTS.mtrInv_of_trInv recorded_trInv hrun hinitial
    rcases hrecorded.stored u with hold | ⟨c, hc, hcu, hrow⟩
    · exact Or.inl hold
    · exact Or.inr ⟨c, hc, hcu, by rw [hrow, hs.whole c hc]⟩

/-- Two updates of a user one after the other, the second with the first one's row. -/
theorem preferences_atomic_sequential : ∃ s, sys.MTr (initial fun _ => none)
    [.request "u" ⟨true, false, true⟩, .run 0, .run 0, .request "u" ⟨false, false, true⟩, .run 1,
      .run 1] s ∧ Atomic s ∧ s.rows "u" = some ⟨false, false, true⟩ := by
  have hrun : (LTS.run (LTS.guarded Fresh step) (initial fun _ => none)
      [.request "u" ⟨true, false, true⟩, .run 0, .run 0, .request "u" ⟨false, false, true⟩, .run 1,
        .run 1]).map (fun s => s.rows "u") = some (some ⟨false, false, true⟩) := by decide
  obtain ⟨s, hfresh, hrow⟩ := LTS.exists_mTr_guarded hrun
  exact ⟨s, hfresh.of_restrict, (preferences_atomic hfresh.of_restrict).1.mpr hfresh, hrow⟩

/-- Two first requests of a user, of which the second fails; and two updates from all-enabled, whose
commits leave a row that neither asked for. -/
theorem preferences_mixed :
    (∃ s, sys.MTr (initial fun _ => none) [.request "u" ⟨false, true, true⟩,
        .request "u" ⟨true, false, true⟩, .run 0, .run 1, .run 0, .run 1] s ∧
      s.requests.map (·.pc) = [.refresh, .finished .uniqueViolation]) ∧
    ∃ s, sys.MTr (initial fun _ => some ⟨true, true, true⟩) [.request "u" ⟨false, true, true⟩,
        .request "u" ⟨true, false, true⟩, .run 0, .run 1, .run 0, .run 1] s ∧
      s.rows "u" = some ⟨false, false, true⟩ := by
  constructor
  · have hrun : (LTS.run step (initial fun _ => none) [.request "u" ⟨false, true, true⟩,
        .request "u" ⟨true, false, true⟩, .run 0, .run 1, .run 0, .run 1]).map
        (fun s => s.requests.map (·.pc)) = some [.refresh, .finished .uniqueViolation] := by decide
    exact LTS.exists_mTr hrun
  · have hrun : (LTS.run step (initial fun _ => some ⟨true, true, true⟩)
        [.request "u" ⟨false, true, true⟩, .request "u" ⟨true, false, true⟩, .run 0, .run 1, .run 0,
          .run 1]).map (fun s => s.rows "u") = some (some ⟨false, false, true⟩) := by decide
    exact LTS.exists_mTr hrun

end NotificationService.Api.Preferences
