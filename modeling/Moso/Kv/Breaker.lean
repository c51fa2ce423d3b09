import Moso.Foundation.Machine
import Moso.Foundation.Word
import Mathlib.Logic.Function.Basic
import Mathlib.Logic.Relation

/-!
# The circuit breaker

`Breaker` twice over: each method as one function of the breaker's words, and as the sequence of
loads and stores of its atomics that it really is. The second reading is what concurrent calls
interleave; `Steps` lemmas at the end show that a call running alone computes the first.
Durations are nanoseconds; the clock the breaker reads is in whole milliseconds.
-/

namespace Moso.Kv

/-- How a breaker opens and recovers. -/
structure BreakerConfig where
  failureThreshold : ℕ
  cooldown : ℕ
  maxCooldown : ℕ
  jitterPercent : ℕ
  deriving DecidableEq, Repr

namespace BreakerConfig

/-- Five failures, a second of cooldown growing to thirty, 25% jitter. -/
def default : BreakerConfig :=
  { failureThreshold := 5, cooldown := 1000000000, maxCooldown := 30000000000, jitterPercent := 25 }

/-- The configuration of a breaker that never opens. -/
def never : BreakerConfig :=
  { failureThreshold := u32Max, cooldown := 0, maxCooldown := 0, jitterPercent := 0 }

end BreakerConfig

/-- `as_millis` of a duration, as a `u64`. -/
def asMillis (duration : ℕ) : ℕ := min u64Max (duration / 1000000)

inductive BreakerState where
  | closed
  | «open»
  | halfOpen
  deriving DecidableEq, Repr

/-- The breaker's configuration and its atomics. The source's `state` word holds the code of the
`BreakerState` here. -/
structure Breaker where
  config : BreakerConfig
  state : BreakerState
  failures : ℕ
  openUntilMs : ℕ
  cooldownMs : ℕ
  seed : UInt64
  deriving DecidableEq, Repr

/-- One round of the xorshift. -/
def xorshift (seed : UInt64) : UInt64 :=
  let state := seed ^^^ (seed <<< 13)
  let state := state ^^^ (state >>> 7)
  state ^^^ (state <<< 17)

namespace Breaker

/-- A closed breaker; the seed comes from the wall clock. -/
def new (config : BreakerConfig) (seed : UInt64) : Breaker :=
  { config := config, state := .closed, failures := 0, openUntilMs := 0,
    cooldownMs := asMillis config.cooldown, seed := seed }

/-! ### The methods -/

/-- How long until the breaker will consider a probe, in milliseconds. -/
def remaining (b : Breaker) (now : ℕ) : ℕ := b.openUntilMs - now

/-- Whether a call may go through; the error is the time left to wait. -/
def allow (b : Breaker) (now : ℕ) : Except ℕ Unit × Breaker :=
  match b.state with
  | .closed   => (.ok (), b)
  | .halfOpen => (.error (b.remaining now), b)
  | .open     =>
    if 0 < b.remaining now then (.error (b.remaining now), b)
    else (.ok (), { b with state := .halfOpen })

def recordSuccess (b : Breaker) : Breaker :=
  { b with failures := 0, cooldownMs := asMillis b.config.cooldown, state := .closed }

/-- Whether `jitter` draws a number at all. -/
def jitters (b : Breaker) (cooldown : ℕ) : Bool :=
  b.config.jitterPercent ≠ 0 ∧ cooldown ≠ 0

/-- What `jitter` adds to `cooldown`, for the number drawn. -/
def jitterOf (b : Breaker) (cooldown : ℕ) (drawn : UInt64) : ℕ :=
  let span := saturatingMul cooldown b.config.jitterPercent / 100
  if span = 0 then 0 else drawn.toNat % (span + 1)

/-- A pseudo-random share of `cooldown`, and the breaker with its seed advanced. -/
def jitter (b : Breaker) (cooldown : ℕ) : ℕ × Breaker :=
  if b.jitters cooldown then
    (b.jitterOf cooldown (xorshift b.seed), { b with seed := xorshift b.seed })
  else (0, b)

/-- Open the breaker for a jittered cooldown. -/
def openFor (b : Breaker) (now : ℕ) : Breaker :=
  let (jitter, b') := b.jitter b.cooldownMs
  { b' with
    openUntilMs := saturatingAdd now (saturatingAdd b.cooldownMs jitter), state := .open }

/-- The cooldown after a failed probe. -/
def backOff (b : Breaker) (cooldown : ℕ) : ℕ :=
  min (saturatingMul cooldown 2) (max (asMillis b.config.maxCooldown) 1)

def recordFailure (b : Breaker) (now : ℕ) : Breaker :=
  if b.config.failureThreshold = u32Max then b
  else if b.state = .halfOpen then
    { b with cooldownMs := b.backOff b.cooldownMs }.openFor now
  else
    let failures := (b.failures + 1) % 2 ^ 32
    let b := { b with failures := failures }
    if b.config.failureThreshold ≤ failures then b.openFor now else b

end Breaker

/-! ### The atomic steps of one call -/

/-- How the store call of an admitted `guarded` call ends. -/
inductive Outcome where
  | success
  /-- A backend failure, which `on_failure` reports to the breaker. -/
  | retryable
  /-- A programmer's error: `on_failure` returns it at once. -/
  | nonRetryable
  /-- The caller dropped the future. -/
  | cancelled
  deriving DecidableEq, Repr

/-- Where one `guarded` call is: which atomic operation comes next, and what it has read. -/
inductive GuardedCall where
  | idle
  /-- In `remaining`, about to load `open_until_ms`; whether the state read was `Open`. -/
  | remaining (wasOpen : Bool)
  /-- In `remaining`, about to read the clock. -/
  | clock (wasOpen : Bool) (until_ : ℕ)
  /-- About to compare and exchange `Open` for `HalfOpen`. -/
  | exchange
  /-- `allow` returned an error. -/
  | refused (retryAfter : ℕ)
  /-- Admitted, waiting for the store. -/
  | inFlight
  /-- In `record_success`, before its three stores. -/
  | clearFailures
  | resetCooldown
  | close
  /-- At the start of `record_failure`. -/
  | failed
  /-- Found the breaker half open, about to load and then to store the cooldown. -/
  | probeFailed
  | storeBackOff (cooldown : ℕ)
  /-- About to count the failure. -/
  | count
  /-- In `open`: about to load the cooldown, to load and store the seed, to read the clock and to
  store `open_until_ms` and the state. -/
  | opening
  | loadSeed (cooldown : ℕ)
  | storeSeed (cooldown : ℕ) (drawn : UInt64)
  | openClock (jittered : ℕ)
  | storeUntil (until_ : ℕ)
  | storeOpen
  /-- Returned. -/
  | done (outcome : Outcome)
  deriving DecidableEq, Repr

namespace GuardedCall

/-- The next atomic operation of the call, on the breaker and a clock that reads `now`. A call
that waits for its store, or that has returned, has none. -/
def advance (b : Breaker) (now : ℕ) : GuardedCall → Option (Breaker × GuardedCall)
  | idle =>
    match b.state with
    | .closed   => some (b, inFlight)
    | .halfOpen => some (b, remaining false)
    | .open     => some (b, remaining true)
  | remaining wasOpen => some (b, clock wasOpen b.openUntilMs)
  | clock wasOpen until_ =>
    if wasOpen = true ∧ until_ - now = 0 then some (b, exchange)
    else some (b, refused (until_ - now))
  | exchange =>
    if b.state = .open then some ({ b with state := .halfOpen }, inFlight)
    else some (b, refused 0)
  | clearFailures => some ({ b with failures := 0 }, resetCooldown)
  | resetCooldown => some ({ b with cooldownMs := asMillis b.config.cooldown }, close)
  | close => some ({ b with state := .closed }, done .success)
  | failed =>
    if b.config.failureThreshold = u32Max then some (b, done .retryable)
    else if b.state = .halfOpen then some (b, probeFailed)
    else some (b, count)
  | probeFailed => some (b, storeBackOff (b.backOff b.cooldownMs))
  | storeBackOff cooldown => some ({ b with cooldownMs := cooldown }, opening)
  | count =>
    let failures := (b.failures + 1) % 2 ^ 32
    some ({ b with failures := failures },
      if b.config.failureThreshold ≤ failures then opening else done .retryable)
  | opening =>
    some (b, if b.jitters b.cooldownMs then loadSeed b.cooldownMs
      else openClock (saturatingAdd b.cooldownMs 0))
  | loadSeed cooldown => some (b, storeSeed cooldown (xorshift b.seed))
  | storeSeed cooldown drawn =>
    some ({ b with seed := drawn },
      openClock (saturatingAdd cooldown (b.jitterOf cooldown drawn)))
  | openClock jittered => some (b, storeUntil (saturatingAdd now jittered))
  | storeUntil until_ => some ({ b with openUntilMs := until_ }, storeOpen)
  | storeOpen => some ({ b with state := .open }, done .retryable)
  | refused _ | inFlight | done _ => none

/-- How an admitted call goes on when its store call ends. -/
def settle : Outcome → GuardedCall
  | .success      => clearFailures
  | .retryable    => failed
  | .nonRetryable => done .nonRetryable
  | .cancelled    => done .cancelled

/-- The call was admitted and has not returned. -/
def admitted : GuardedCall → Bool
  | idle | remaining _ | clock _ _ | exchange | refused _ | done _ => false
  | _ => true

variable {pc pc' : GuardedCall} {b b' : Breaker} {now : ℕ}

lemma advance_config (h : pc.advance b now = some (b', pc')) : b'.config = b.config := by
  cases pc <;> grind [advance]

/-- What an operation can do to the state: a success closes the breaker, an exchange makes it
half open, `open` opens it, and nothing else touches it. -/
lemma advance_state (h : pc.advance b now = some (b', pc')) :
    b'.state = b.state ∨ (pc = .close ∧ b'.state = .closed) ∨
      (pc = .exchange ∧ b.state = .open ∧ b'.state = .halfOpen ∧ pc' = .inFlight) ∨
      (pc = .storeOpen ∧ b'.state = .open) := by
  cases pc <;> grind [advance]

/-- A call is admitted by reading `Closed` or by winning the exchange. -/
lemma admitted_of_advance (h : pc.advance b now = some (b', pc')) (hpc : pc'.admitted = true) :
    pc.admitted = true ∨ (pc = .idle ∧ b.state = .closed ∧ b'.state = .closed) ∨
      (pc = .exchange ∧ b.state = .open) := by
  cases pc <;> grind [advance, admitted]

end GuardedCall

/-! ### A call on its own -/

/-- The call, left alone with the breaker at one instant, goes on from one point to another. -/
abbrev Steps (now : ℕ) : Breaker × GuardedCall → Breaker × GuardedCall → Prop :=
  Relation.ReflTransGen fun x y => x.2.advance x.1 now = some y

namespace Steps

open GuardedCall

variable {b : Breaker} {now : ℕ}

lemma openFor : Steps now (b, .opening) (b.openFor now, .done .retryable) := by
  by_cases hj : b.jitters b.cooldownMs
  · refine .head (b := (b, loadSeed b.cooldownMs)) (by simp [advance, hj]) ?_
    refine .head rfl (.head rfl (.head rfl (.head rfl (.head rfl ?_))))
    rw [Breaker.openFor, Breaker.jitter, if_pos hj]
  · refine .head (b := (b, openClock (saturatingAdd b.cooldownMs 0))) (by simp [advance, hj]) ?_
    refine .head rfl (.head rfl (.head rfl ?_))
    rw [Breaker.openFor, Breaker.jitter, if_neg hj]

/-- `record_success`, alone, is `Breaker.recordSuccess`. -/
theorem recordSuccess : Steps now (b, settle .success) (b.recordSuccess, .done .success) :=
  .head rfl (.head rfl (.head rfl .refl))

/-- `record_failure`, alone, is `Breaker.recordFailure`. -/
theorem recordFailure :
    Steps now (b, settle .retryable) (b.recordFailure now, .done .retryable) := by
  unfold Breaker.recordFailure
  split_ifs with hnever hhalf
  · exact .single (by simp [settle, advance, hnever])
  · refine .head (b := (b, probeFailed)) (by simp [settle, advance, hnever, hhalf]) ?_
    exact .head rfl (.head rfl openFor)
  · refine .head (b := (b, count)) (by simp [settle, advance, hnever, hhalf]) ?_
    dsimp only
    split_ifs with hle
    · exact .head (by rw [advance, if_pos hle]) openFor
    · exact .single (by rw [advance, if_neg hle])

/-- `allow`, alone, is `Breaker.allow`. -/
theorem allow :
    Steps now (b, .idle) ((b.allow now).2,
      match (b.allow now).1 with
      | .ok _    => inFlight
      | .error e => refused e) := by
  unfold Breaker.allow
  cases hs : b.state with
  | closed => exact .single (by simp [advance, hs])
  | halfOpen =>
    refine .head (b := (b, remaining false)) (by simp [advance, hs]) ?_
    exact .head rfl (.single (by simp [advance, Breaker.remaining]))
  | «open» =>
    refine .head (b := (b, remaining true)) (by simp [advance, hs]) (.head rfl ?_)
    dsimp only
    split_ifs with hpos
    · refine .single ?_
      rw [advance, if_neg fun h => hpos.ne' h.2]
      rfl
    · have hzero : b.openUntilMs - now = 0 := Nat.eq_zero_of_not_pos hpos
      refine .head (b := (b, exchange)) (by simp [advance, hzero]) ?_
      exact .single (by simp [advance, hs])

end Steps

end Moso.Kv
