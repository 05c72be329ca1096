import NotificationService.Api.System

/-! Concurrent `POST /templates` requests: each looks the name up, then inserts the row under the
unique constraint. -/
namespace NotificationService.Api.Templates

open Transition

structure TemplateCreate where
  name : String
  subject : Option String
  content : String
  deriving DecidableEq, Repr

inductive Response where
  | created (t : Template)
  | error (err : ApiError)
  deriving DecidableEq, Repr

/-- The operation that `create_template` awaits next. -/
inductive PC where
  | getByName
  | commit
  | refresh (t : Template)
  | finished (r : Response)
  deriving DecidableEq, Repr

structure Creation where
  templateIn : TemplateCreate
  pc : PC
  deriving DecidableEq, Repr

/-- The committed rows and the requests. -/
structure State where
  templates : List Template
  creations : List Creation
  deriving DecidableEq, Repr

/-- An operation may raise for reasons of its own. -/
inductive Action where
  | request (templateIn : TemplateCreate)
  | run (k : ℕ)
  | raised (k : ℕ) (err : String)
  deriving DecidableEq, Repr

def initial : State := ⟨[], []⟩

def alreadyExists (name : String) : ApiError :=
  .http 400 ("Template with name '" ++ name ++ "' already exists.")

def nameTaken : ApiError :=
  .exception "duplicate key value violates unique constraint \"ix_templates_name\""

/-- `get_by_name`. -/
def getByName (templates : List Template) (name : String) : Option Template :=
  templates.find? (·.name = name)

/-- `get_by_id`. -/
def getById (templates : List Template) (id : ℕ) : Option Template := templates.find? (·.id = id)

/-- The row that `create` inserts; its index is its uuid. -/
def TemplateCreate.row (c : TemplateCreate) (id : ℕ) : Template :=
  ⟨id, c.name, c.subject, c.content⟩

def State.setPC (s : State) (k : ℕ) (c : Creation) (pc : PC) : State :=
  { s with creations := s.creations.set k { c with pc := pc } }

def step (s : State) : Action → Option State
  | .request templateIn => some { s with creations := s.creations ++ [⟨templateIn, .getByName⟩] }
  | .run k =>
    s.creations[k]?.bind fun c =>
      match c.pc with
      | .getByName =>
        match getByName s.templates c.templateIn.name with
        | some _ => some (s.setPC k c (.finished (.error (alreadyExists c.templateIn.name))))
        | none => some (s.setPC k c .commit)
      | .commit =>
        match getByName s.templates c.templateIn.name with
        | some _ => some (s.setPC k c (.finished (.error nameTaken)))
        | none =>
          let t := c.templateIn.row s.templates.length
          some ({ s with templates := s.templates ++ [t] }.setPC k c (.refresh t))
      | .refresh t => some (s.setPC k c (.finished (.created t)))
      | .finished _ => none
  | .raised k err =>
    s.creations[k]?.bind fun c =>
      match c.pc with
      | .finished _ => none
      | _ => some (s.setPC k c (.finished (.error (.exception err))))

def sys : LTS State Action := LTS.ofStep step

variable {s t : State} {a : Action} {k : ℕ}

/-- A step leaves the table alone or adds one row with a new name. -/
theorem templates_step (hs : step s a = some t) : t.templates = s.templates ∨
    ∃ c : TemplateCreate, getByName s.templates c.name = none ∧
      t.templates = s.templates ++ [c.row s.templates.length] := by
  cases a with
  | request templateIn =>
    cases hs
    exact Or.inl rfl
  | run k =>
    obtain ⟨c, _, hs⟩ := Option.bind_eq_some_iff.mp hs
    cases hpc : c.pc with
    | commit =>
      simp only [hpc] at hs
      cases hname : getByName s.templates c.templateIn.name with
      | some _ =>
        simp only [hname, Option.some.injEq] at hs
        exact hs ▸ Or.inl rfl
      | none =>
        simp only [hname, Option.some.injEq] at hs
        exact hs ▸ Or.inr ⟨c.templateIn, hname, rfl⟩
    | getByName =>
      simp only [hpc] at hs
      split at hs <;> cases hs <;> exact Or.inl rfl
    | refresh =>
      simp only [hpc, Option.some.injEq] at hs
      exact hs ▸ Or.inl rfl
    | finished => simp [hpc] at hs
  | raised k err =>
    obtain ⟨c, _, hs⟩ := Option.bind_eq_some_iff.mp hs
    left
    split at hs <;> cases hs
    rfl

/-- The ids are the places in the table, and no name occurs twice. -/
structure Indexed (templates : List Template) : Prop where
  id : ∀ (k : ℕ) (t : Template), templates[k]? = some t → t.id = k
  name : (templates.map (·.name)).Nodup

theorem indexed_step (hstep : step s a = some t) (hs : Indexed s.templates) :
    Indexed t.templates := by
  rcases templates_step hstep with heq | ⟨c, hnew, heq⟩
  · rw [heq]
    exact hs
  · rw [heq]
    refine ⟨Pool.forall_getElem?_concat hs.id rfl, ?_⟩
    rw [List.map_append, List.nodup_append]
    refine ⟨hs.name, by simp, ?_⟩
    intro x hx y hy
    obtain ⟨t, ht, rfl⟩ := List.mem_map.mp hx
    obtain rfl : y = c.name := by simpa [TemplateCreate.row] using hy
    have hne := List.find?_eq_none.mp hnew t ht
    simpa using hne

/-- A row is found by its own id. -/
theorem getById_of_mem {templates : List Template} (hs : Indexed templates) {t : Template}
    (ht : t ∈ templates) : getById templates t.id = some t := by
  cases hfind : getById templates t.id with
  | none => simpa using List.find?_eq_none.mp hfind t ht
  | some u =>
    have hid : u.id = t.id := by simpa using List.find?_some hfind
    obtain ⟨k, hk⟩ := List.mem_iff_getElem?.mp (List.mem_of_find?_eq_some hfind)
    obtain ⟨l, hl⟩ := List.mem_iff_getElem?.mp ht
    have hkl : k = l := by rw [← hs.id k u hk, ← hs.id l t hl, hid]
    subst hkl
    exact hk.symm.trans hl

end NotificationService.Api.Templates
