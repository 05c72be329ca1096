import NotificationService.Foundation.TemplateLanguage
import NotificationService.Service.Rendering

/-! The names that a text mentions against the variables that it is rendered with: what the check
for missing variables lets through. -/
namespace NotificationService

open TemplateLanguage

/-- A dictionary of variables. -/
structure Variables (α : Type) where
  keys : Finset String
  get : String → Option α
  mem_keys : ∀ name, name ∈ keys ↔ (get name).isSome = true

variable {m : Type → Type} {α : Type} {vars : Variables α} {names : Finset String}

namespace Variables

def empty : Variables α := ⟨∅, fun _ => none, by simp⟩

def insert (vars : Variables α) (name : String) (value : α) : Variables α where
  keys := Insert.insert name vars.keys
  get := Function.update vars.get name (some value)
  mem_keys x := by
    by_cases hx : x = name <;> simp [hx, vars.mem_keys]

/-- The dictionary without the keys that are not in `names`. -/
def restrict (vars : Variables α) (names : Finset String) : Variables α where
  keys := vars.keys ∩ names
  get name := if name ∈ names then vars.get name else none
  mem_keys name := by
    by_cases hname : name ∈ names <;> simp [hname, vars.mem_keys]

theorem get_restrict {name : String} (h : name ∈ names) :
    (vars.restrict names).get name = vars.get name := if_pos h

theorem subset_restrict {required : Finset String} (h : required ⊆ vars.keys)
    (hnames : required ⊆ names) : required ⊆ (vars.restrict names).keys :=
  Finset.subset_inter h hnames

end Variables

/-- The names that `jinja2.Environment()` defines by itself. -/
def defaultGlobals : Finset String :=
  {"range", "dict", "lipsum", "cycler", "joiner", "namespace"}

/-- `jinja2.Environment()`: the template that a text is compiled to, or the error of the parser or
the compiler, and what rendering does with values. -/
structure Environment (m : Type → Type) (α : Type) where
  compile : String → Except String (Block String)
  runtime : Runtime m α
  globalValue : String → α
  undefined : String → α
  run : m String → Except String String

namespace Environment

variable (env : Environment m α) {content text : String} {subject : Option String}

/-- A name outside every loop is a variable, or else a global, or else undefined. -/
def resolve (vars : Variables α) (name : String) : α :=
  (vars.get name).getD
    (if name ∈ defaultGlobals then env.globalValue name else env.undefined name)

/-- `meta.find_undeclared_variables`. -/
def findUndeclaredVariables (content : String) : Except String (Finset String) :=
  match env.compile content with
  | .error e => .error e
  | .ok b => .ok (b.lookups "loop" ∅ \ defaultGlobals)

/-- The free names of one text. -/
def freeNames (content : String) : Finset String :=
  match env.compile content with
  | .error _ => ∅
  | .ok b => b.free "loop"

/-- The free names of a body and a subject; an empty subject counts as none. -/
def mentioned (content : String) (subject : Option String) : Finset String :=
  env.freeNames content ∪ (subject.filter (· ≠ "")).elim ∅ env.freeNames

theorem freeNames_subset_mentioned (h : text ∈ Jinja.texts content subject) :
    env.freeNames text ⊆ env.mentioned content subject := by
  rcases List.mem_cons.mp h with rfl | h
  · exact Finset.subset_union_left
  · have hsubject : subject.filter (· ≠ "") = some text := Option.mem_toList.mp h
    rw [mentioned, hsubject]
    exact Finset.subset_union_right

theorem mentioned_subset (h : ∀ text ∈ Jinja.texts content subject, env.freeNames text ⊆ names) :
    env.mentioned content subject ⊆ names := by
  refine Finset.union_subset (h content List.mem_cons_self) ?_
  cases hsubject : subject.filter (· ≠ "") with
  | none => exact Finset.empty_subset _
  | some text => exact h text (List.mem_cons_of_mem _ (Option.mem_toList.mpr hsubject))

/-- The check asks for the free names that are no globals. -/
theorem findUndeclaredVariables_eq {required : Finset String}
    (h : env.findUndeclaredVariables content = .ok required) :
    required = env.freeNames content \ defaultGlobals := by
  unfold findUndeclaredVariables at h
  unfold freeNames
  cases hb : env.compile content with
  | error e => simp [hb] at h
  | ok b =>
    simp only [hb, lookups_empty, Except.ok.injEq] at h ⊢
    exact h.symm

variable [Monad m]

/-- `Template.render`. -/
def render (content : String) (vars : Variables α) : Except String String :=
  match env.compile content with
  | .error e => .error e
  | .ok b => env.run (b.render env.runtime "loop" (env.resolve vars))

def jinja : Jinja (Variables α) where
  findUndeclaredVariables := env.findUndeclaredVariables
  render := env.render
  keys := Variables.keys
  noVariables := .empty

theorem render_restrict (h : env.freeNames content ⊆ names) :
    env.render content (vars.restrict names) = env.render content vars := by
  unfold render
  unfold freeNames at h
  cases hb : env.compile content with
  | error e => rfl
  | ok b =>
    rw [hb] at h
    have hsame : b.render env.runtime "loop" (env.resolve (vars.restrict names)) =
        b.render env.runtime "loop" (env.resolve vars) := by
      refine render_congr ?_
      intro name hname
      rw [resolve, resolve, Variables.get_restrict (h hname)]
    simp only [hsame]

theorem renderText_restrict {out : String} (h : env.jinja.renderText text vars = .ok out)
    (hnames : env.freeNames text ⊆ names) :
    env.jinja.renderText text (vars.restrict names) = .ok out := by
  obtain ⟨required, hreq, hsub, hrender⟩ := env.jinja.renderText_required h
  have hfree : required ⊆ names := by
    rw [env.findUndeclaredVariables_eq hreq]
    exact Finset.sdiff_subset.trans hnames
  refine env.jinja.renderText_eq hreq (Variables.subset_restrict hsub hfree) ?_
  exact (env.render_restrict hnames).trans hrender

theorem freeNames_given {out : String} (h : env.jinja.renderText text vars = .ok out) :
    env.freeNames text ⊆ vars.keys ∪ defaultGlobals := by
  obtain ⟨required, hreq, hsub, _⟩ := env.jinja.renderText_required h
  rw [env.findUndeclaredVariables_eq hreq] at hsub
  intro name hname
  by_cases hglobal : name ∈ defaultGlobals
  · exact Finset.mem_union_right _ hglobal
  · exact Finset.mem_union_left _ (hsub (Finset.mem_sdiff.mpr ⟨hname, hglobal⟩))

/-- What a call returns depends on no variable but those mentioned, and each of these was given,
exactly when each global that the texts mention was given as a variable. -/
theorem nothing_missing_iff {r : Option String × String}
    (h : env.jinja.renderSubjectAndBody content subject vars = .ok r) :
    (env.mentioned content subject ⊆ vars.keys ∧
      env.jinja.renderSubjectAndBody content subject
        (vars.restrict (env.mentioned content subject)) = .ok r) ↔
    env.mentioned content subject ∩ defaultGlobals ⊆ vars.keys := by
  have hrendered := env.jinja.renderText_of_renderSubjectAndBody h
  constructor
  · rintro ⟨hgiven, _⟩
    exact Finset.inter_subset_left.trans hgiven
  · intro hglobals
    constructor
    · have hall : env.mentioned content subject ⊆ vars.keys ∪ defaultGlobals := by
        refine env.mentioned_subset ?_
        intro text htext
        obtain ⟨out, hout⟩ := hrendered text htext
        exact env.freeNames_given hout
      intro name hname
      rcases Finset.mem_union.mp (hall hname) with hkey | hglobal
      · exact hkey
      · exact hglobals (Finset.mem_inter.mpr ⟨hname, hglobal⟩)
    · rw [← h]
      refine env.jinja.renderSubjectAndBody_congr ?_
      intro text htext
      obtain ⟨out, hout⟩ := hrendered text htext
      rw [hout]
      exact env.renderText_restrict hout (env.freeNames_subset_mentioned htext)

end Environment

/-! ### Concrete texts -/

/-- Values are texts, and a loop runs over the characters of one. -/
def textRuntime : Runtime (Except String) String where
  str := pure
  test s := pure (s ≠ "")
  forEach s f := (s.toList.mapM fun c => f c.toString "<LoopContext>").map String.join

def spelledText : String :=
  "{% if name %}Hello {{ name }}: {% for digit in code %}{{ digit }} {% endfor %}{% endif %}"

/-- The environment on two texts; any other one is taken as it stands. -/
def textEnvironment : Environment (Except String) String where
  compile content :=
    if content = spelledText then
      .ok (.cond "name"
        (.text "Hello " (.output "name" (.text ": "
          (.each "digit" "code" (.output "digit" (.text " " .done)) .done)))) .done)
    else if content = "{{ range }}" then .ok (.output "range" .done)
    else .ok (.text content .done)
  runtime := textRuntime
  globalValue name := "<class '" ++ name ++ "'>"
  undefined _ := ""
  run result := result

def spelledVariables : Variables String :=
  ((Variables.empty.insert "name" "Bob").insert "code" "123").insert "extra_var" "Ignored"

theorem nothing_missing_spelled :
    textEnvironment.mentioned spelledText (some "Alert") ⊆ spelledVariables.keys ∧
    textEnvironment.jinja.renderSubjectAndBody spelledText (some "Alert")
      (spelledVariables.restrict (textEnvironment.mentioned spelledText (some "Alert"))) =
        .ok (some "Alert", "Hello Bob: 1 2 3 ") := by
  have hrender : textEnvironment.jinja.renderSubjectAndBody spelledText (some "Alert")
      spelledVariables = .ok (some "Alert", "Hello Bob: 1 2 3 ") := by decide
  exact (textEnvironment.nothing_missing_iff hrender).mpr (by decide)

/-- A placeholder with the name of a global is rendered without any variables. -/
theorem global_rendered : ¬ ∀ (content : String) (subject : Option String)
    (vars : Variables String) (r : Option String × String),
    textEnvironment.jinja.renderSubjectAndBody content subject vars = .ok r →
      textEnvironment.mentioned content subject ⊆ vars.keys ∧
      textEnvironment.jinja.renderSubjectAndBody content subject
        (vars.restrict (textEnvironment.mentioned content subject)) = .ok r := by
  intro h
  have hrender : textEnvironment.jinja.renderSubjectAndBody "{{ range }}" none .empty =
      .ok (none, "<class 'range'>") := by decide
  obtain ⟨hgiven, _⟩ := h _ _ _ _ hrender
  exact absurd hgiven (by decide)

end NotificationService
