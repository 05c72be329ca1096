import Mathlib.Data.Rat.Floor
import NotificationService.Foundation.Transition
import NotificationService.Foundation.Pool
import NotificationService.Foundation.SortedSet

/-! `check_rate_limit` for one user: any number of calls, each with its clock reading and its two
pipelines, over the sorted set and the expiry of `rate_limit:{user_id}`. -/
namespace NotificationService.RateLimit

open Transition SortedSet

structure Settings where
  maxRequests : ℕ
  windowSeconds : ℕ
  deriving DecidableEq

def Settings.window (cfg : Settings) : ℚ := cfg.windowSeconds

/-- `{now}:{uuid4}`; the uuid of a call is its index. -/
structure Member where
  now : ℚ
  uuid : ℕ
  deriving DecidableEq

/-- What a call does next, or how it ended. -/
inductive Stage where
  | checking
  | adding
  | accepted
  | rejected (retryAfter : ℤ)
  | failed
  deriving DecidableEq

structure Call where
  now : ℚ
  stage : Stage
  deriving DecidableEq

/-- The clock, the key in Redis, the calls, and the timestamps of the accepted ones, latest first. -/
structure State where
  clock : ℚ
  zset : List (Member × ℚ)
  expiry : Option ℚ
  calls : List Call
  accepted : List ℚ
  deriving DecidableEq

def initial (clock : ℚ) : State := ⟨clock, [], none, [], []⟩

inductive Action where
  | tick (d : ℚ)
  | start
  | check (i : ℕ)
  | add (i : ℕ)
  | fail (i : ℕ) (applied : Bool)
  deriving DecidableEq

/-- `int`, which truncates. -/
def truncate (q : ℚ) : ℤ := if 0 ≤ q then ⌊q⌋ else ⌈q⌉

def retryAfter (cfg : Settings) (now : ℚ) : Option ℚ → ℤ
  | some oldest => max 1 (truncate (oldest + cfg.window - now))
  | none => 1

/-- ZREMRANGEBYSCORE; a key without members is gone. -/
def State.sweep (s : State) (cutoff : ℚ) : State :=
  let z := removeThrough cutoff s.zset
  { s with zset := z, expiry := if z = [] then none else s.expiry }

/-- ZADD and EXPIRE. -/
def State.insert (cfg : Settings) (s : State) (m : Member) : State :=
  { s with zset := SortedSet.add m m.now s.zset, expiry := some (s.clock + cfg.window) }

def State.setCall (s : State) (i : ℕ) (c : Call) : State := { s with calls := s.calls.set i c }

/-- The branch taken on the results of the first pipeline. -/
def branch (cfg : Settings) (now : ℚ) (z : List (Member × ℚ)) : Stage :=
  if z.length ≥ cfg.maxRequests then .rejected (retryAfter cfg now (lowest z)) else .adding

/-- The key is gone once the clock reaches its expiry. -/
def State.expires (s : State) (d : ℚ) : Bool := s.expiry.any (· ≤ s.clock + d)

def step (cfg : Settings) (s : State) : Action → Option State
  | .tick d =>
    if 0 ≤ d then
      some (if s.expires d then { s with clock := s.clock + d, zset := [], expiry := none }
        else { s with clock := s.clock + d })
    else none
  | .start => some { s with calls := s.calls ++ [⟨s.clock, .checking⟩] }
  | .check i =>
    s.calls[i]?.bind fun c =>
      if c.stage = .checking then
        let t := s.sweep (c.now - cfg.window)
        some (t.setCall i ⟨c.now, branch cfg c.now t.zset⟩)
      else none
  | .add i =>
    s.calls[i]?.bind fun c =>
      if c.stage = .adding then
        some ({ s.insert cfg ⟨c.now, i⟩ with accepted := c.now :: s.accepted }.setCall i
          ⟨c.now, .accepted⟩)
      else none
  -- A pipeline raises, its commands applied or not.
  | .fail i applied =>
    s.calls[i]?.bind fun c =>
      match c.stage with
      | .checking =>
        some ((if applied then s.sweep (c.now - cfg.window) else s).setCall i ⟨c.now, .failed⟩)
      | .adding =>
        some ((if applied then s.insert cfg ⟨c.now, i⟩ else s).setCall i ⟨c.now, .failed⟩)
      | _ => none

def sys (cfg : Settings) : LTS State Action := LTS.ofStep (step cfg)

inductive Step (cfg : Settings) (s : State) : Action → State → Prop where
  | tick {d : ℚ} : 0 ≤ d → s.expires d = false →
      Step cfg s (.tick d) { s with clock := s.clock + d }
  | expire {d : ℚ} : 0 ≤ d → s.expires d = true →
      Step cfg s (.tick d) { s with clock := s.clock + d, zset := [], expiry := none }
  | start : Step cfg s .start { s with calls := s.calls ++ [⟨s.clock, .checking⟩] }
  | check {i : ℕ} {n : ℚ} : s.calls[i]? = some ⟨n, .checking⟩ →
      Step cfg s (.check i) ((s.sweep (n - cfg.window)).setCall i
        ⟨n, branch cfg n (removeThrough (n - cfg.window) s.zset)⟩)
  | add {i : ℕ} {n : ℚ} : s.calls[i]? = some ⟨n, .adding⟩ →
      Step cfg s (.add i)
        ({ s.insert cfg ⟨n, i⟩ with accepted := n :: s.accepted }.setCall i ⟨n, .accepted⟩)
  | failCheck {i : ℕ} {n : ℚ} {applied : Bool} : s.calls[i]? = some ⟨n, .checking⟩ →
      Step cfg s (.fail i applied)
        ((if applied then s.sweep (n - cfg.window) else s).setCall i ⟨n, .failed⟩)
  | failAdd {i : ℕ} {n : ℚ} {applied : Bool} : s.calls[i]? = some ⟨n, .adding⟩ →
      Step cfg s (.fail i applied)
        ((if applied then s.insert cfg ⟨n, i⟩ else s).setCall i ⟨n, .failed⟩)

variable {cfg : Settings} {s t : State} {a : Action}

theorem step_cases (h : step cfg s a = some t) : Step cfg s a t := by
  cases a with
  | tick d =>
    simp only [step, Option.ite_none_right_eq_some, Option.some.injEq] at h
    obtain ⟨hd, rfl⟩ := h
    cases he : s.expires d with
    | true => exact .expire hd he
    | false => exact .tick hd he
  | start =>
    simp only [step, Option.some.injEq] at h
    subst h
    exact .start
  | check i | add i =>
    obtain ⟨⟨n, stage⟩, hc, h⟩ := Option.bind_eq_some_iff.mp h
    simp only [Option.ite_none_right_eq_some, Option.some.injEq] at h
    obtain ⟨rfl, rfl⟩ := h
    constructor
    exact hc
  | fail i applied =>
    obtain ⟨⟨n, stage⟩, hc, h⟩ := Option.bind_eq_some_iff.mp h
    cases stage with
    | checking =>
      simp only [Option.some.injEq] at h
      subst h
      exact .failCheck hc
    | adding =>
      simp only [Option.some.injEq] at h
      subst h
      exact .failAdd hc
    | _ => cases h

theorem sys_step (h : (sys cfg).Tr s a t) : Step cfg s a t := step_cases h

@[simp] theorem setCall_calls (s : State) (i : ℕ) (c : Call) :
    (s.setCall i c).calls = s.calls.set i c := rfl

@[simp] theorem setCall_zset (s : State) (i : ℕ) (c : Call) : (s.setCall i c).zset = s.zset := rfl

@[simp] theorem setCall_accepted (s : State) (i : ℕ) (c : Call) :
    (s.setCall i c).accepted = s.accepted := rfl

/-- A call is let through to its second pipeline only if it saw room. -/
theorem length_of_branch_adding {n : ℚ} {z : List (Member × ℚ)} (h : branch cfg n z = .adding) :
    z.length < cfg.maxRequests := by
  unfold branch at h
  split at h
  · cases h
  · omega

theorem branch_ne_checking (n : ℚ) (z : List (Member × ℚ)) : branch cfg n z ≠ .checking := by
  unfold branch
  split <;> nofun

end NotificationService.RateLimit
