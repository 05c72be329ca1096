import NotificationService.Api.Errors
import NotificationService.Api.Status
import NotificationService.Service.Overshoot
import NotificationService.Service.Earned

/-! `POST /notifications` with `check_rate_limit` inside: the pipelines on the keys of the users run
among the operations of all the requests. -/
namespace NotificationService.Api.Limited

open Transition

variable {V : Type}

/-- The API, the key of each user with the calls of `check_rate_limit` on it, and the call that each
request has made. -/
structure State (V : Type) where
  api : Api.State V
  limiters : String → RateLimit.State
  call : ℕ → Option ℕ

/-- The first pipeline or the second one returns, or the one that is next raises. -/
inductive Pipeline where
  | count
  | add
  | raised (err : String) (applied : Bool)
  deriving DecidableEq, Repr

inductive Action (V : Type) where
  | api (a : Api.Action V)
  | readClock (i : ℕ)
  | execute (i : ℕ) (p : Pipeline)
  | crash (i : ℕ) (applied : Bool)
  deriving DecidableEq, Repr

def initial : State V := ⟨Api.initial, fun _ => RateLimit.initial 0, fun _ => none⟩

/-- Microseconds as `time.time()` counts them. -/
def seconds (d : ℕ) : ℚ := d / 1000000

def Pipeline.action (j : ℕ) : Pipeline → RateLimit.Action
  | .count => .check j
  | .add => .add j
  | .raised _ applied => .fail j applied

theorem action_call (j : ℕ) (p : Pipeline) : (p.action j).call = some j := by
  cases p <;> rfl

/-- How `check_rate_limit` ends after the pipeline, if it does. -/
def Pipeline.answer : Pipeline → RateLimit.Stage → Option Answer
  | .raised err _, _ => some (.raised err false)
  | _, .rejected r => some (.rateLimited r)
  | _, .accepted => some .ok
  | _, _ => none

def limiting : Api.PC V → Bool
  | .checkRateLimit => true
  | _ => false

/-- The user and the call of a request that is between its reading of the clock and the end of
`check_rate_limit`. -/
def State.calling (s : State V) (i : ℕ) : Option (String × ℕ) :=
  s.api.handlers[i]?.bind fun h =>
    if h.alive && limiting h.pc then (s.call i).map (h.payload.userId, ·) else none

/-- The operation is none of `check_rate_limit`. -/
def State.outside (s : State V) : Api.Action V → Bool
  | .run i _ => !s.api.handlers[i]?.any (limiting ·.pc)
  | .crash i => (s.calling i).isNone
  | _ => true

def elapse (l : RateLimit.State) (d : ℚ) : RateLimit.State :=
  if l.expires d then { l with clock := l.clock + d, zset := [], expiry := none }
  else { l with clock := l.clock + d }

/-- Time passes for Redis as it does for the API. -/
def after (a : Api.Action V) (l : RateLimit.State) : RateLimit.State :=
  match a with
  | .tick d => elapse l (seconds d)
  | _ => l

def State.setLimiter (s : State V) (user : String) (l : RateLimit.State) : State V :=
  { s with limiters := Function.update s.limiters user l }

theorem setLimiter_self {s : State V} {user : String} {l : RateLimit.State} :
    (s.setLimiter user l).limiters user = l := Function.update_self ..

theorem setLimiter_of_ne {s : State V} {user owner : String} {l : RateLimit.State}
    (h : user ≠ owner) : (s.setLimiter owner l).limiters user = s.limiters user :=
  Function.update_of_ne h _ _

/-- A new call on the key of a user. -/
def begun (l : RateLimit.State) : RateLimit.State :=
  { l with calls := l.calls ++ [⟨l.clock, .checking⟩] }

/-- Request `i` is inside `check_rate_limit`, with call `j` of its user. -/
structure Calling (s : State V) (i : ℕ) (h : Handler V) (j : ℕ) : Prop where
  handler : s.api.handlers[i]? = some h
  alive : h.alive = true
  pc : h.pc = .checkRateLimit
  call : s.call i = some j

variable [BEq V]

def step (cfg : RateLimit.Settings) (svc : TemplateService V) (s : State V) :
    Action V → Option (State V)
  | .api a =>
    if s.outside a then
      (Api.step svc s.api a).map fun u =>
        { s with api := u, limiters := fun user => after a (s.limiters user) }
    else none
  | .readClock i =>
    s.api.handlers[i]?.bind fun h =>
      if h.alive && limiting h.pc && (s.call i).isNone then
        let l := s.limiters h.payload.userId
        some { s.setLimiter h.payload.userId (begun l) with
          call := Function.update s.call i (some l.calls.length) }
      else none
  | .execute i p =>
    (s.calling i).bind fun (user, j) =>
      (RateLimit.step cfg (s.limiters user) (p.action j)).bind fun l =>
        match (l.calls[j]?).bind fun c => p.answer c.stage with
        | none => some (s.setLimiter user l)
        | some b => (Api.step svc s.api (.run i b)).map fun u =>
            { s.setLimiter user l with api := u }
  -- The web process dies in a pipeline, whose commands Redis has applied or not.
  | .crash i applied =>
    (s.calling i).bind fun (user, j) =>
      (RateLimit.step cfg (s.limiters user) (.fail j applied)).bind fun l =>
        (Api.step svc s.api (.crash i)).map fun u => { s.setLimiter user l with api := u }

def sys (cfg : RateLimit.Settings) (svc : TemplateService V) : LTS (State V) (Action V) :=
  LTS.ofStep (step cfg svc)

inductive Step (cfg : RateLimit.Settings) (svc : TemplateService V) (s : State V) :
    Action V → State V → Prop where
  | api {a : Api.Action V} {u : Api.State V} : s.outside a = true → (Api.sys svc).Tr s.api a u →
      Step cfg svc s (.api a) { s with api := u, limiters := fun user => after a (s.limiters user) }
  | readClock {i : ℕ} {h : Handler V} : s.api.handlers[i]? = some h → h.pc = .checkRateLimit →
      s.call i = none → Step cfg svc s (.readClock i)
        { s.setLimiter h.payload.userId (begun (s.limiters h.payload.userId)) with
          call := Function.update s.call i (some (s.limiters h.payload.userId).calls.length) }
  | proceeds {i j : ℕ} {h : Handler V} {p : Pipeline} {l : RateLimit.State} {c : RateLimit.Call} :
      Calling s i h j → (RateLimit.sys cfg).Tr (s.limiters h.payload.userId) (p.action j) l →
      l.calls[j]? = some c → p.answer c.stage = none →
      Step cfg svc s (.execute i p) (s.setLimiter h.payload.userId l)
  | answers {i j : ℕ} {h : Handler V} {p : Pipeline} {l : RateLimit.State} {c : RateLimit.Call}
      {b : Answer} {u : Api.State V} : Calling s i h j →
      (RateLimit.sys cfg).Tr (s.limiters h.payload.userId) (p.action j) l →
      l.calls[j]? = some c → p.answer c.stage = some b → (Api.sys svc).Tr s.api (.run i b) u →
      Step cfg svc s (.execute i p) { s.setLimiter h.payload.userId l with api := u }
  | crash {i j : ℕ} {h : Handler V} {applied : Bool} {l : RateLimit.State} {u : Api.State V} :
      Calling s i h j →
      (RateLimit.sys cfg).Tr (s.limiters h.payload.userId) (.fail j applied) l →
      (Api.sys svc).Tr s.api (.crash i) u →
      Step cfg svc s (.crash i applied) { s.setLimiter h.payload.userId l with api := u }

variable {cfg : RateLimit.Settings} {svc : TemplateService V} {s t : State V} {a : Action V}
  {xs : List (Action V)} {i j k : ℕ} {h : Handler V}

omit [BEq V] in
theorem limiting_eq (hpc : limiting h.pc = true) : h.pc = .checkRateLimit := by
  cases hp : h.pc <;> simp_all [limiting]

omit [BEq V] in
theorem calling_cases {user : String} (hc : s.calling i = some (user, j)) :
    ∃ h, Calling s i h j ∧ user = h.payload.userId := by
  obtain ⟨h, hh, hc⟩ := Option.bind_eq_some_iff.mp hc
  simp only [Bool.and_eq_true, Option.ite_none_right_eq_some, Option.map_eq_some_iff,
    Prod.mk.injEq] at hc
  obtain ⟨⟨halive, hpc⟩, _, hj, rfl, rfl⟩ := hc
  exact ⟨h, ⟨hh, halive, limiting_eq hpc, hj⟩, rfl⟩

theorem step_cases (hs : step cfg svc s a = some t) : Step cfg svc s a t := by
  cases a with
  | api a =>
    simp only [step, Option.ite_none_right_eq_some, Option.map_eq_some_iff] at hs
    obtain ⟨hout, u, hu, rfl⟩ := hs
    exact .api hout hu
  | readClock i =>
    obtain ⟨h, hh, hs⟩ := Option.bind_eq_some_iff.mp hs
    simp only [Bool.and_eq_true, Option.isNone_iff_eq_none, Option.ite_none_right_eq_some,
      Option.some.injEq] at hs
    obtain ⟨⟨⟨_, hpc⟩, hnone⟩, rfl⟩ := hs
    exact .readClock hh (limiting_eq hpc) hnone
  | execute i p =>
    obtain ⟨⟨user, j⟩, hcalling, hs⟩ := Option.bind_eq_some_iff.mp hs
    obtain ⟨h, hcall, rfl⟩ := calling_cases hcalling
    obtain ⟨l, hl, hs⟩ := Option.bind_eq_some_iff.mp hs
    obtain ⟨c, hc⟩ := RateLimit.exists_call (RateLimit.step_cases hl) (action_call j p)
    rw [hc, Option.bind_some] at hs
    cases hb : p.answer c.stage with
    | none =>
      rw [hb] at hs
      cases hs
      exact .proceeds hcall hl hc hb
    | some b =>
      rw [hb] at hs
      obtain ⟨u, hu, rfl⟩ := Option.map_eq_some_iff.mp hs
      exact .answers hcall hl hc hb hu
  | crash i applied =>
    obtain ⟨⟨user, j⟩, hcalling, hs⟩ := Option.bind_eq_some_iff.mp hs
    obtain ⟨h, hcall, rfl⟩ := calling_cases hcalling
    obtain ⟨l, hl, hs⟩ := Option.bind_eq_some_iff.mp hs
    obtain ⟨u, hu, rfl⟩ := Option.map_eq_some_iff.mp hs
    exact .crash hcall hl hu

theorem sys_step (hs : (sys cfg svc).Tr s a t) : Step cfg svc s a t := step_cases hs

/-! ### The systems in it -/

theorem api_step (hs : Step cfg svc s a t) :
    t.api = s.api ∨ ∃ b, (Api.sys svc).Tr s.api b t.api := by
  cases hs with
  | api _ hu => exact Or.inr ⟨_, hu⟩
  | readClock | proceeds => exact Or.inl rfl
  | answers _ _ _ _ hu | crash _ _ hu => exact Or.inr ⟨_, hu⟩

/-- Less than `k` calls of the user are under way when another one reads the clock. -/
def Concurrent (k : ℕ) (s : State V) : Action V → Prop
  | .readClock i => ∀ h ∈ s.api.handlers[i]?,
    (s.limiters h.payload.userId).calls.countP RateLimit.Call.inProgress < k
  | _ => True

instance (k : ℕ) (s : State V) (a : Action V) : Decidable (Concurrent k s a) := by
  unfold Concurrent
  split <;> infer_instance

theorem elapse_step (l : RateLimit.State) (d : ℕ) :
    (RateLimit.sys cfg).Tr l (.tick (seconds d)) (elapse l (seconds d)) := by
  have hd : 0 ≤ seconds d := by
    unfold seconds
    positivity
  simp [RateLimit.sys, LTS.ofStep, RateLimit.step, elapse, hd]

omit [BEq V] in
theorem setLimiter_step {owner : String} {l : RateLimit.State} {b : RateLimit.Action}
    (htr : (RateLimit.sys cfg).Tr (s.limiters owner) b l)
    (hc : Concurrent k s a → RateLimit.Concurrent k (s.limiters owner) b) (user : String) :
    (s.setLimiter owner l).limiters user = s.limiters user ∨
    ∃ b, (RateLimit.sys cfg).Tr (s.limiters user) b ((s.setLimiter owner l).limiters user) ∧
      (Concurrent k s a → RateLimit.Concurrent k (s.limiters user) b) := by
  by_cases huser : user = owner
  · subst huser
    refine Or.inr ⟨b, ?_, hc⟩
    rwa [setLimiter_self]
  · exact Or.inl (setLimiter_of_ne huser)

/-- The key of a user sees a step of its own, or nothing. -/
theorem limiter_step (hs : Step cfg svc s a t) (k : ℕ) (user : String) :
    t.limiters user = s.limiters user ∨
    ∃ b, (RateLimit.sys cfg).Tr (s.limiters user) b (t.limiters user) ∧
      (Concurrent k s a → RateLimit.Concurrent k (s.limiters user) b) := by
  cases hs with
  | @api b u =>
    cases b with
    | tick d => exact Or.inr ⟨_, elapse_step _ d, fun _ => trivial⟩
    | _ => exact Or.inl rfl
  | @readClock i h hh =>
    have hstart : (RateLimit.sys cfg).Tr (s.limiters h.payload.userId) .start
        (begun (s.limiters h.payload.userId)) := rfl
    exact setLimiter_step (k := k) (a := .readClock i) hstart (fun hc => hc h hh) user
  | @proceeds _ _ _ p _ _ _ hl | @answers _ _ _ p _ _ _ _ _ hl =>
    exact setLimiter_step hl (fun _ => by cases p <;> trivial) user
  | crash _ hl => exact setLimiter_step hl (fun _ => trivial) user

theorem api_run (hrun : (sys cfg svc).MTr s xs t) : ∃ ys, (Api.sys svc).MTr s.api ys t.api := by
  have hrefines : (sys cfg svc).Refines (Api.sys svc) State.api fun _ => True :=
    ⟨fun _ _ _ _ _ => trivial, fun _ _ _ hstep _ => api_step (sys_step hstep)⟩
  exact hrefines.mTr hrun trivial

theorem limiter_run (hrun : (sys cfg svc).MTr s xs t) (user : String) :
    ∃ ys, (RateLimit.sys cfg).MTr (s.limiters user) ys (t.limiters user) := by
  have hrefines : (sys cfg svc).Refines (RateLimit.sys cfg) (State.limiters · user)
      fun _ => True := by
    refine ⟨fun _ _ _ _ _ => trivial, fun s a t hstep _ => ?_⟩
    exact (limiter_step (sys_step hstep) 0 user).imp_right fun ⟨b, hb, _⟩ => ⟨b, hb⟩
  exact hrefines.mTr hrun trivial

theorem limiter_run_concurrent (hrun : ((sys cfg svc).restrict (Concurrent k)).MTr s xs t)
    (user : String) : ∃ ys, ((RateLimit.sys cfg).restrict (RateLimit.Concurrent k)).MTr
      (s.limiters user) ys (t.limiters user) := by
  have hrefines : ((sys cfg svc).restrict (Concurrent k)).Refines
      ((RateLimit.sys cfg).restrict (RateLimit.Concurrent k)) (State.limiters · user)
      fun _ => True := by
    refine ⟨fun _ _ _ _ _ => trivial, fun s a t hstep _ => ?_⟩
    exact (limiter_step (sys_step hstep.2) k user).imp_right
      fun ⟨b, hb, hc⟩ => ⟨b, hc hstep.1, hb⟩
  exact hrefines.mTr hrun trivial

end NotificationService.Api.Limited
