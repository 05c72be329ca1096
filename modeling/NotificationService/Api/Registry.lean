import Mathlib.Data.List.Nodup
import NotificationService.Foundation.Intake
import NotificationService.Api.Responses
import NotificationService.Api.Templates

/-! The answers to `POST /templates`: what a 201 promises to every later reader, and when a name is
refused. -/
namespace NotificationService.Api.Templates

open Transition

variable {s t : State} {a : Action} {k l : ℕ} {c d : Creation} {u v : Template}
  {xs : List Action}

/-- `list_all`, in the order of names that the database has. -/
def listAll (le : String → String → Bool) (templates : List Template) : List Template :=
  templates.mergeSort fun t u => le t.name u.name

/-- The row that a request has stored. -/
def PC.stored : PC → Option Template
  | .refresh t | .finished (.created t) => some t
  | _ => none

/-- The request is refused with a 400. -/
def PC.refused : PC → Bool
  | .finished (.error e) => e.response.statusCode = 400
  | _ => false

/-- What the actions do: a request moves on with the row that it has, or stores its row. -/
inductive Step (s : State) : Action → State → Prop where
  | request {templateIn : TemplateCreate} : Step s (.request templateIn)
      { s with creations := s.creations ++ [⟨templateIn, .getByName⟩] }
  | moved {a : Action} {k : ℕ} {c : Creation} {pc : PC} : s.creations[k]? = some c →
      (∀ u, pc.stored = some u → c.pc.stored = some u) →
      (pc.refused = true → ∃ u ∈ s.templates, u.name = c.templateIn.name) →
      Step s a (s.setPC k c pc)
  | stored {k : ℕ} {c : Creation} : s.creations[k]? = some c →
      getByName s.templates c.templateIn.name = none →
      Step s (.run k) ({ s with
        templates := s.templates ++ [c.templateIn.row s.templates.length] }.setPC k c
          (.refresh (c.templateIn.row s.templates.length)))

/-- The validation of the body, before `create_template` is called. -/
def check {B : Type} (validate : B → Except (List FieldError) TemplateCreate) (body : B) :
    Except (List FieldError) Action :=
  (validate body).map .request

theorem mem_of_getByName {templates : List Template} {name : String}
    (h : getByName templates name = some u) : u ∈ templates ∧ u.name = name :=
  ⟨List.mem_of_find?_eq_some h, by simpa using List.find?_some h⟩

theorem step_cases (hs : step s a = some t) : Step s a t := by
  cases a with
  | request templateIn =>
    cases hs
    exact .request
  | run k =>
    obtain ⟨c, hc, hs⟩ := Option.bind_eq_some_iff.mp hs
    cases hpc : c.pc with
    | getByName =>
      simp only [hpc] at hs
      split at hs <;> cases hs
      · refine .moved hc (by simp [PC.stored]) fun _ => ?_
        exact ⟨_, mem_of_getByName ‹_›⟩
      · exact .moved hc (by simp [PC.stored]) (by simp [PC.refused])
    | commit =>
      simp only [hpc] at hs
      split at hs <;> cases hs
      · exact .moved hc (by simp [PC.stored]) fun href => by cases href
      · exact .stored hc ‹_›
    | refresh u =>
      simp only [hpc, Option.some.injEq] at hs
      cases hs
      exact .moved hc (by simp [PC.stored, hpc]) (by simp [PC.refused])
    | finished => simp [hpc] at hs
  | raised k err =>
    obtain ⟨c, hc, hs⟩ := Option.bind_eq_some_iff.mp hs
    split at hs <;> cases hs
    exact .moved hc (by simp [PC.stored]) fun href => by cases href

/-- Rows are not lost. -/
theorem templates_kept (hstep : Step s a t) (hu : u ∈ s.templates) : u ∈ t.templates := by
  cases hstep with
  | stored => exact List.mem_append_left _ hu
  | _ => exact hu

/-- A request had its row before the step, or has just stored it behind all the others. -/
theorem stored_before (hstep : Step s a t) (hd : t.creations[l]? = some d)
    (hu : d.pc.stored = some u) :
    (∃ c, s.creations[l]? = some c ∧ c.templateIn = d.templateIn ∧ c.pc.stored = some u) ∨
      (a = .run l ∧ u = d.templateIn.row s.templates.length ∧ u ∈ t.templates) := by
  cases hstep with
  | request =>
    rcases Nat.lt_trichotomy l s.creations.length with hlt | rfl | hlt
    · rw [List.getElem?_append_left hlt] at hd
      exact Or.inl ⟨d, hd, rfl, hu⟩
    · rw [List.getElem?_concat_length] at hd
      cases hd
      cases hu
    · rw [List.getElem?_eq_none (by simp; omega)] at hd
      cases hd
  | @moved _ k c pc hc hold =>
    have hlt := (List.getElem?_eq_some_iff.mp hc).1
    by_cases hkl : k = l
    · subst hkl
      cases (List.getElem?_set_self hlt).symm.trans hd
      exact Or.inl ⟨c, hc, rfl, hold u hu⟩
    · exact Or.inl ⟨d, (List.getElem?_set_ne hkl).symm.trans hd, rfl, hu⟩
  | @stored k c hc =>
    have hlt := (List.getElem?_eq_some_iff.mp hc).1
    by_cases hkl : k = l
    · subst hkl
      cases (List.getElem?_set_self hlt).symm.trans hd
      cases hu
      exact Or.inr ⟨rfl, rfl, by simp [State.setPC]⟩
    · exact Or.inl ⟨d, (List.getElem?_set_ne hkl).symm.trans hd, rfl, hu⟩

/-- Each request that has a row has its own, made of what it was sent. -/
structure Registered (s : State) : Prop where
  indexed : Indexed s.templates
  stored : ∀ (k : ℕ) (c : Creation), s.creations[k]? = some c → ∀ u, c.pc.stored = some u →
    u ∈ s.templates ∧ u = c.templateIn.row u.id
  distinct : ∀ (k l : ℕ) (c d : Creation), s.creations[k]? = some c → s.creations[l]? = some d →
    ∀ u, c.pc.stored = some u → d.pc.stored = some u → k = l
  refused : ∀ (k : ℕ) (c : Creation), s.creations[k]? = some c → c.pc.refused = true →
    ∃ u ∈ s.templates, u.name = c.templateIn.name

theorem registered_initial : Registered initial :=
  ⟨⟨by simp [initial], List.nodup_nil⟩, by simp [initial], by simp [initial], by simp [initial]⟩

/-- The id of a stored row is less than that of the next one. -/
theorem not_next (hs : Registered s) (hc : s.creations[k]? = some c) (hu : c.pc.stored = some u) :
    u.id ≠ s.templates.length := by
  obtain ⟨l, hl⟩ := List.mem_iff_getElem?.mp (hs.stored k c hc u hu).1
  rw [hs.indexed.id l u hl]
  exact (List.getElem?_eq_some_iff.mp hl).1.ne

theorem distinct_step (hstep : Step s a t) (hs : Registered s) (hc : t.creations[k]? = some c)
    (hd : t.creations[l]? = some d) (hcu : c.pc.stored = some u) (hdu : d.pc.stored = some u) :
    k = l := by
  rcases stored_before hstep hc hcu with ⟨c', hc', _, hcu'⟩ | ⟨hk, huk, _⟩ <;>
    rcases stored_before hstep hd hdu with ⟨d', hd', _, hdu'⟩ | ⟨hl, hul, _⟩
  · exact hs.distinct k l c' d' hc' hd' u hcu' hdu'
  · exact absurd (congrArg Template.id hul) (not_next hs hc' hcu')
  · exact absurd (congrArg Template.id huk) (not_next hs hd' hdu')
  · cases hk.symm.trans hl
    rfl

theorem refused_step (hstep : Step s a t) (hs : Registered s) :
    ∀ (k : ℕ) (c : Creation), t.creations[k]? = some c → c.pc.refused = true →
      ∃ u ∈ t.templates, u.name = c.templateIn.name := by
  have hold : ∀ (k : ℕ) (c : Creation), s.creations[k]? = some c → c.pc.refused = true →
      ∃ u ∈ t.templates, u.name = c.templateIn.name := by
    intro k c hc href
    obtain ⟨u, hu, hname⟩ := hs.refused k c hc href
    exact ⟨u, templates_kept hstep hu, hname⟩
  cases hstep with
  | request => exact Pool.forall_getElem?_concat hold (by simp [PC.refused])
  | moved hc _ href => exact Pool.forall_getElem?_set hold href
  | stored => exact Pool.forall_getElem?_set hold (by simp [PC.refused])

theorem registered_step (hstep : sys.Tr s a t) (hs : Registered s) : Registered t := by
  have hst := step_cases hstep
  refine ⟨indexed_step hstep hs.indexed, ?_, fun _ _ _ _ hc hd _ => distinct_step hst hs hc hd,
    refused_step hst hs⟩
  intro l d hd u hu
  rcases stored_before hst hd hu with ⟨c, hc, hin, hcu⟩ | ⟨_, hrow, hmem⟩
  · obtain ⟨hmem, hrow⟩ := hs.stored l c hc u hcu
    exact ⟨templates_kept hst hmem, hin ▸ hrow⟩
  · refine ⟨hmem, ?_⟩
    rw [hrow]
    rfl

theorem getByName_of_mem {templates : List Template} (hs : Indexed templates)
    (hu : u ∈ templates) : getByName templates u.name = some u := by
  cases hfind : getByName templates u.name with
  | none => simpa using List.find?_eq_none.mp hfind u hu
  | some v =>
    obtain ⟨hmem, hname⟩ := mem_of_getByName hfind
    rw [List.inj_on_of_nodup_map hs.name hmem hu hname]

theorem registered_run (hrun : sys.MTr initial xs s) : Registered s := by
  have hinv : sys.TrInv Registered := fun _ _ _ => registered_step
  exact LTS.mtrInv_of_trInv hinv hrun registered_initial

/-- The row of a 201 is the one that is found by the name. -/
theorem getByName_of_created (hs : Registered s) (hc : s.creations[k]? = some c)
    (hpc : c.pc = .finished (.created u)) :
    u ∈ s.templates ∧ u = c.templateIn.row u.id ∧
      getByName s.templates c.templateIn.name = some u := by
  obtain ⟨hmem, hrow⟩ := hs.stored k c hc u (by rw [hpc]; rfl)
  refine ⟨hmem, hrow, ?_⟩
  have hfound := getByName_of_mem hs.indexed hmem
  rw [hrow] at hfound
  exact hfound.trans (congrArg some hrow.symm)

variable {B : Type} {validate : B → Except (List FieldError) TemplateCreate}

/-- Every template that a 201 shows was stored as it was sent, and is found from then on by its name
and by its id and listed once; no two requests get a 201 for one name. A 400 is only given for a
name that is stored, or for a body that fails the validation, which the registry never sees. -/
theorem templates_registered {ys : List (Arrival B Action)} {s : Intake State B (List FieldError)}
    (hrun : (Intake.sys (check validate) step).MTr (.initial initial) ys s) :
    (∀ (k : ℕ) (c : Creation) (u : Template), s.inner.creations[k]? = some c →
      c.pc = .finished (.created u) → u = c.templateIn.row u.id ∧
        getByName s.inner.templates c.templateIn.name = some u ∧
        getById s.inner.templates u.id = some u ∧
        ∀ le, (listAll le s.inner.templates).count u = 1) ∧
    (∀ (k l : ℕ) (c d : Creation) (u v : Template), s.inner.creations[k]? = some c →
      s.inner.creations[l]? = some d → c.pc = .finished (.created u) →
        d.pc = .finished (.created v) → c.templateIn.name = d.templateIn.name → k = l) ∧
    (∀ (k : ℕ) (c : Creation) (e : ApiError), s.inner.creations[k]? = some c →
      c.pc = .finished (.error e) → e.response.statusCode = 400 →
        ∃ u ∈ s.inner.templates, u.name = c.templateIn.name) ∧
    (∀ body errors, (body, errors) ∈ s.refused ↔
      .input body ∈ ys ∧ validate body = .error errors) ∧
    sys.MTr initial (ys.filterMap (Intake.admitted (check validate))) s.inner := by
  have hinner := Intake.mTr_inner hrun
  have hs : Registered s.inner := registered_run hinner
  refine ⟨?_, ?_, ?_, ?_, hinner⟩
  · intro k c u hc hpc
    obtain ⟨hmem, hrow, hfound⟩ := getByName_of_created hs hc hpc
    refine ⟨hrow, hfound, getById_of_mem hs.indexed hmem, fun le => ?_⟩
    rw [listAll, (List.mergeSort_perm _ _).count_eq]
    exact List.count_eq_one_of_mem (List.Nodup.of_map _ hs.indexed.name) hmem
  · intro k l c d u v hc hd hcpc hdpc hsame
    have hu := (getByName_of_created hs hc hcpc).2.2
    have hv := (getByName_of_created hs hd hdpc).2.2
    rw [hsame, hv] at hu
    cases hu
    exact hs.distinct k l c d hc hd u (by rw [hcpc]; rfl) (by rw [hdpc]; rfl)
  · intro k c e hc hpc hcode
    exact hs.refused k c hc (by simpa [hpc, PC.refused] using hcode)
  · intro body errors
    rw [Intake.mem_refused_initial hrun, check, Intake.map_eq_error_iff]

def welcomeCreate : TemplateCreate := ⟨"welcome_email", some "Welcome", "Hello"⟩

/-- The body lacks its content. -/
def noContent : List FieldError :=
  [⟨[.field "body", .field "content"], by simp, "Field required", true⟩]

def validateSample : Option TemplateCreate → Except (List FieldError) TemplateCreate
  | some templateIn => .ok templateIn
  | none => .error noContent

/-- The same template twice, with a body that is not valid in between; the second request comes
before the first is answered. -/
def createTwice : List (Arrival (Option TemplateCreate) Action) :=
  [.input (some welcomeCreate), .act (.run 0), .act (.run 0), .input none,
    .input (some welcomeCreate), .act (.run 1), .act (.run 0)]

theorem templates_registered_twice : ∃ s u,
    (Intake.sys (check validateSample) step).MTr (.initial initial) createTwice s ∧
    getByName s.inner.templates "welcome_email" = some u ∧
    (listAll (· ≤ ·) s.inner.templates).count u = 1 ∧ (none, noContent) ∈ s.refused := by
  have hrun : (LTS.run (Intake.checked (check validateSample) step) (.initial initial)
      createTwice).map (·.inner.creations) =
      some [⟨welcomeCreate, .finished (.created (welcomeCreate.row 0))⟩,
        ⟨welcomeCreate, .finished (.error (alreadyExists "welcome_email"))⟩] := by decide
  obtain ⟨s, hrun', he⟩ := LTS.exists_mTr hrun
  obtain ⟨hcreated, _, _, hrefused, _⟩ := templates_registered hrun'
  obtain ⟨_, hname, _, hcount⟩ := hcreated 0 _ _ (by rw [he]; rfl) rfl
  exact ⟨s, _, hrun', hname, hcount _, (hrefused _ _).mpr ⟨by simp [createTwice], rfl⟩⟩

end NotificationService.Api.Templates
