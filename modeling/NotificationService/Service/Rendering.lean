import Mathlib.Data.Finset.Sort
import Mathlib.Data.String.Basic
import NotificationService.Service.Models

/-! `TemplateService` over the Jinja environment that it is built on. -/
namespace NotificationService

/-- What the service uses of Jinja and of a dictionary of variables. -/
structure Jinja (V : Type) where
  findUndeclaredVariables : String → Except String (Finset String)
  render : String → V → Except String String
  keys : V → Finset String
  noVariables : V

namespace Jinja

variable {V : Type} (j : Jinja V) {content : String} {subject : Option String} {vars : V}

def getRequiredVariables (content : String) : Except String (Finset String) :=
  match j.findUndeclaredVariables content with
  | .ok required => .ok required
  | .error e => .error ("Invalid template format: " ++ e)

/-- `TemplateService.render`. -/
def renderText (content : String) (vars : V) : Except String String :=
  match j.getRequiredVariables content with
  | .error e => .error e
  | .ok required =>
    let missing := required \ j.keys vars
    if missing.Nonempty then
      .error ("Missing required template variables: " ++ ", ".intercalate (missing.sort (· ≤ ·)))
    else
      match j.render content vars with
      | .ok text => .ok text
      | .error e => .error ("Failed to render template: " ++ e)

/-- An empty subject counts as none. -/
def renderSubjectAndBody (content : String) (subject : Option String) (vars : V) :
    Except String (Option String × String) :=
  match j.renderText content vars with
  | .error e => .error e
  | .ok body =>
    match subject.filter (· ≠ "") with
    | none => .ok (none, body)
    | some subject =>
      match j.renderText subject vars with
      | .error e => .error e
      | .ok text => .ok (some text, body)

def service : TemplateService V := ⟨j.renderSubjectAndBody, j.noVariables⟩

/-- A text is rendered only with all the variables that it mentions. -/
theorem renderText_required {text : String} (h : j.renderText content vars = .ok text) :
    ∃ required, j.findUndeclaredVariables content = .ok required ∧ required ⊆ j.keys vars ∧
      j.render content vars = .ok text := by
  cases hreq : j.findUndeclaredVariables content with
  | error e => simp [renderText, getRequiredVariables, hreq] at h
  | ok required =>
    by_cases hmissing : (required \ j.keys vars).Nonempty
    · simp [renderText, getRequiredVariables, hreq, hmissing] at h
    · cases hrender : j.render content vars with
      | error e => simp [renderText, getRequiredVariables, hreq, hmissing, hrender] at h
      | ok result =>
        have heq : result = text := by
          simpa [renderText, getRequiredVariables, hreq, hmissing, hrender] using h
        have hsub : required ⊆ j.keys vars := by simpa using hmissing
        exact ⟨required, rfl, hsub, by rw [heq]⟩

theorem renderText_eq {required : Finset String} {text : String}
    (hreq : j.findUndeclaredVariables content = .ok required) (hsub : required ⊆ j.keys vars)
    (hrender : j.render content vars = .ok text) : j.renderText content vars = .ok text := by
  have hmissing : ¬ (required \ j.keys vars).Nonempty := by simpa using hsub
  simp [renderText, getRequiredVariables, hreq, hmissing, hrender]

/-- The texts that a call renders. -/
def texts (content : String) (subject : Option String) : List String :=
  content :: (subject.filter (· ≠ "")).toList

/-- A call returns only when each of its texts is rendered. -/
theorem renderText_of_renderSubjectAndBody {r : Option String × String}
    (h : j.renderSubjectAndBody content subject vars = .ok r) :
    ∀ text ∈ texts content subject, ∃ out, j.renderText text vars = .ok out := by
  intro text htext
  unfold renderSubjectAndBody at h
  cases hbody : j.renderText content vars with
  | error e => simp [hbody] at h
  | ok body =>
    rcases List.mem_cons.mp htext with rfl | htext
    · exact ⟨body, hbody⟩
    · have hsubject : subject.filter (· ≠ "") = some text := Option.mem_toList.mp htext
      cases hout : j.renderText text vars with
      | error e =>
        simp only [hbody, hsubject, hout] at h
        cases h
      | ok out => exact ⟨out, rfl⟩

theorem renderSubjectAndBody_congr {vars' : V} (h : ∀ text ∈ texts content subject,
    j.renderText text vars = j.renderText text vars') :
    j.renderSubjectAndBody content subject vars = j.renderSubjectAndBody content subject vars' := by
  have hbody := h content List.mem_cons_self
  unfold renderSubjectAndBody
  rw [hbody]
  cases hsubject : subject.filter (· ≠ "") with
  | none => rfl
  | some text =>
    have htext := h text (List.mem_cons_of_mem _ (Option.mem_toList.mpr hsubject))
    simp only [htext]

end Jinja

end NotificationService
