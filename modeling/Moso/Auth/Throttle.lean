import Mathlib.Algebra.Group.Nat.Defs
import Mathlib.Data.Nat.Basic
import Mathlib.Logic.Function.Basic
import Mathlib.Order.Lattice

/-!
# The login throttle

Which failures count as attempts, and what a throttle makes of them: a counter of failures in a
row and the time of the last one, kept for each identity, and the delay that they earn. Times and
durations are in nanoseconds.
-/

namespace Moso.Auth

inductive Error where
  | invalidCredentials
  | unauthenticated
  | expired (kind : String)
  | revoked (kind : String)
  | secondFactorRequired (challenge : String)
  | rateLimited (retryAfter : ℕ)
  | passwordPolicy (code detail : String)
  | ceremony (ceremony reason : String)
  | unavailable (component detail : String)
  | config (detail : String)
  deriving DecidableEq

/-- Whether a failure should count against a rate limit. -/
def Error.countsAsAttempt : Error → Bool
  | invalidCredentials | unauthenticated | expired _ | revoked _ | ceremony _ _ => true
  | _ => false

structure ThrottleConfig where
  /-- How many failures against one identity there may be before backoff starts. -/
  perIdentityFree : ℕ := 3
  /-- The first backoff delay. -/
  perIdentityBase : ℕ := 2000000000
  /-- The longest backoff. -/
  perIdentityMax : ℕ := 600000000000
  notifyWindow : ℕ := 900000000000
  /-- How many failures before a CAPTCHA is demanded. -/
  challengeAfter : ℕ := 2 ^ 32 - 1

/-- A number in the store, and when it stops being visible. -/
structure Entry where
  value : ℕ
  expiresAt : ℕ
  deriving DecidableEq

/-- The number under a key, unless it has expired. -/
def live (now : ℕ) (entry : Option Entry) : Option ℕ :=
  (entry.filter fun entry => now < entry.expiresAt).map (·.value)

/-- What the store has of an identity. -/
structure Backoff where
  /-- How many failures in a row the identity has had. -/
  failures : Option Entry
  /-- When the last of these was, in microseconds. -/
  lastFailure : Option Entry
  deriving DecidableEq

namespace Backoff

/-- No failure is on record. -/
def clear : Backoff := { failures := none, lastFailure := none }

def count (backoff : Backoff) (now : ℕ) : ℕ := (live now backoff.failures).getD 0

end Backoff

inductive ThrottleDecision where
  | allow
  | deny (retryAfter : ℕ)
  | challenge
  deriving DecidableEq

namespace ThrottleConfig

variable (config : ThrottleConfig)

/-- How long the counters of an identity survive their last write. -/
def backoffTtl : ℕ := max config.perIdentityMax config.notifyWindow

/-- The backoff that so many consecutive failures earn, or `none` while the identity is still
inside its free tier. -/
def delayFor (failures : ℕ) : Option ℕ :=
  if failures ≤ config.perIdentityFree then none
  else
    let steps := failures - config.perIdentityFree - 1
    -- a shift of a `u32` by its width or more is refused
    some (if steps < 32 then min (config.perIdentityBase * 2 ^ steps) config.perIdentityMax
      else config.perIdentityMax)

/-- Decide whether an attempt may proceed. The quota of the address comes first, and says for how
long it refuses the attempt if it does. -/
def check (backoff : Backoff) (now : ℕ) (address : Option ℕ) : ThrottleDecision :=
  match address with
  | some retryAfter => .deny retryAfter
  | none =>
    let failures := backoff.count now
    let last := (live now backoff.lastFailure).getD 0
    let remaining := (config.delayFor failures).elim 0 fun delay =>
      delay - (now / 1000 - last) * 1000
    if remaining ≠ 0 then .deny remaining
    else if config.challengeAfter ≤ failures then .challenge
    else .allow

/-- Count one more failure and stamp the time. -/
def advanceBackoff (backoff : Backoff) (now : ℕ) : Backoff where
  failures := some { value := backoff.count now + 1, expiresAt := now + config.backoffTtl }
  lastFailure := some { value := now / 1000, expiresAt := now + config.backoffTtl }

/-- Record the outcome of an attempt. -/
def record (backoff : Backoff) (now : ℕ) (succeeded : Bool) : Backoff :=
  if succeeded then .clear else config.advanceBackoff backoff now

/-- The delay that the failures of an identity have earned is not over. -/
def InBackoff (backoff : Backoff) (now : ℕ) : Prop :=
  ∃ delay ∈ config.delayFor (backoff.count now),
    (now / 1000 - (live now backoff.lastFailure).getD 0) * 1000 < delay

instance (backoff : Backoff) (now : ℕ) : Decidable (config.InBackoff backoff now) :=
  inferInstanceAs (Decidable (∃ delay ∈ config.delayFor (backoff.count now), _))

variable {config} {backoff : Backoff} {now : ℕ}

/-- An attempt against an identity in backoff is refused. -/
lemma check_of_inBackoff (h : config.InBackoff backoff now) (address : Option ℕ) :
    ∃ retryAfter, config.check backoff now address = .deny retryAfter := by
  cases address with
  | some retryAfter => exact ⟨retryAfter, rfl⟩
  | none =>
    obtain ⟨delay, hdelay, hlt⟩ := h
    have hremaining : delay - (now / 1000 - (live now backoff.lastFailure).getD 0) * 1000 ≠ 0 :=
      Nat.sub_ne_zero_of_lt hlt
    refine ⟨delay - (now / 1000 - (live now backoff.lastFailure).getD 0) * 1000, ?_⟩
    rw [check, Option.mem_def.mp hdelay]
    exact if_pos hremaining

end ThrottleConfig

end Moso.Auth
