import Moso.Foundation.Word
import Mathlib.Algebra.Order.Monoid.Unbundled.Basic

/-!
# Retries

The errors of a job, the backoff and the budget of a retry policy, and the decision between another
attempt and the dead-letter queue. Durations are nanoseconds, no more than `Duration` holds; a
jittered one depends on what the random source draws.
-/

namespace Moso.Jobs

/-- What went wrong running a job. -/
inductive JobError where
  | retryable (detail : String)
  | permanent (detail : String)
  | timeout (job : String) (timeout : ℕ)
  | payload (job detail : String)
  | unregistered (name : String)
  | unavailable (backend detail : String)
  | unsupported (backend operation : String)
  | config (detail : String)
  deriving DecidableEq, Repr

namespace JobError

/-- `Error::retry`. -/
def retry (detail : String) : JobError := .retryable detail

/-- The method `retryable`: whether the worker should try again. -/
def isRetryable : JobError → Bool
  | .retryable _ | .timeout _ _ | .unavailable _ _ => true
  | .permanent _ | .payload _ _ | .unregistered _ | .unsupported _ _ | .config _ => false

/-- Whether this error skips the retry budget entirely. -/
def skipsRetries : JobError → Bool
  | .payload _ _ | .unregistered _ => true
  | .retryable _ | .permanent _ | .timeout _ _ | .unavailable _ _ | .unsupported _ _
  | .config _ => false

/-- Whether the retry budget decides. -/
def isBudgeted (e : JobError) : Bool := !(e.skipsRetries || !e.isRetryable)

end JobError

/-- `Duration::MAX`. -/
def durationMax : ℕ := u64Max * 1000000000 + 999999999

/-- How long to wait between attempts. -/
inductive Backoff where
  | fixed (delay : ℕ)
  | linear (base max : ℕ)
  | exponential (base max : ℕ)
  | immediate
  deriving DecidableEq, Repr

namespace Backoff

/-- The nominal delay after attempt `attempt`, one-based. -/
def delay (self : Backoff) (attempt : ℕ) : ℕ :=
  let attempt := max attempt 1
  match self with
  | .immediate => 0
  | .fixed delay => delay
  | .linear base max => min (min durationMax (base * attempt)) max
  | .exponential base max =>
    let doublings := min (attempt - 1) 32
    -- a shift by 32 overflows
    let factor := if doublings < 32 then 2 ^ doublings else u32Max
    min (min durationMax (base * factor)) max

/-- `rng::duration_below`: no more than the span, in whole milliseconds, when the random source
draws `draw` of 64 bits. -/
def durationBelow (draw span : ℕ) : ℕ :=
  let millis := min u64Max (span / 1000000)
  draw * saturatingAdd millis 1 / 2 ^ 64 * 1000000

def delayJittered (self : Backoff) (draw attempt : ℕ) : ℕ := durationBelow draw (self.delay attempt)

end Backoff

structure RetryPolicy where
  /-- How many attempts in total. -/
  maxAttempts : ℕ
  backoff : Backoff
  deriving DecidableEq, Repr

namespace RetryPolicy

/-- The delay after attempt `attempt` failed; `none` when the retry budget is exhausted. -/
def nextDelay (self : RetryPolicy) (draw attempt : ℕ) : Option ℕ :=
  if self.maxAttempts ≤ attempt then none else some (self.backoff.delayJittered draw attempt)

lemma isSome_nextDelay {self : RetryPolicy} {draw attempt : ℕ} :
    (self.nextDelay draw attempt).isSome = true ↔ attempt < self.maxAttempts := by
  rw [nextDelay]
  split_ifs with h
  · simpa using h
  · simpa using h

/-- What a worker decides about a failed attempt: how long to wait for the next one, or that there
is none. -/
def delayAfter (self : RetryPolicy) (draw attempt : ℕ) (error : JobError) : Option ℕ :=
  if error.skipsRetries || !error.isRetryable then none else self.nextDelay draw attempt

lemma isSome_delayAfter {self : RetryPolicy} {draw attempt : ℕ} {error : JobError}
    (h : error.isBudgeted = true) :
    (self.delayAfter draw attempt error).isSome = true ↔ attempt < self.maxAttempts := by
  have hbudgeted : (error.skipsRetries || !error.isRetryable) = false := by
    simpa only [JobError.isBudgeted, Bool.not_eq_true'] using h
  rw [delayAfter, hbudgeted, if_neg Bool.false_ne_true]
  exact isSome_nextDelay

end RetryPolicy

end Moso.Jobs

/-!
## The ladder of a backoff

What a backoff waits after each attempt, beside what its documentation says it waits, computed
without bounds. The number of doublings is clamped and so is the factor, which a ceiling more than
`u32Max` times the base shows.
-/

namespace Moso.Jobs.Backoff

/-- Each duration is one that `Duration` holds. -/
def Valid : Backoff → Prop
  | fixed delay => delay ≤ durationMax
  | linear base max => base ≤ durationMax ∧ max ≤ durationMax
  | exponential base max => base ≤ durationMax ∧ max ≤ durationMax
  | immediate => True

/-- The documented delay, over unbounded numbers. -/
def documented (self : Backoff) (attempt : ℕ) : ℕ :=
  match self with
  | immediate => 0
  | fixed delay => delay
  | linear base max => min (base * attempt) max
  | exponential base max => min (base * 2 ^ (attempt - 1)) max

/-- The first delay and the ceiling of a ladder that has them. -/
def rungs : Backoff → Option (ℕ × ℕ)
  | linear base max => some (base, max)
  | exponential base max => some (base, max)
  | fixed _ => none
  | immediate => none

/-- Over the attempts that a `u32` counts, the delays are the documented ones, never fall, never
pass the ceiling and come to it. -/
structure Ladder (backoff : Backoff) : Prop where
  documented : ∀ attempt, 1 ≤ attempt → attempt ≤ u32Max →
    backoff.delay attempt = backoff.documented attempt
  monotone : ∀ first second, 1 ≤ first → first ≤ second → second ≤ u32Max →
    backoff.delay first ≤ backoff.delay second
  le_max : ∀ base max, backoff.rungs = some (base, max) → ∀ attempt, 1 ≤ attempt →
    attempt ≤ u32Max → backoff.delay attempt ≤ max
  reaches : ∀ base max, backoff.rungs = some (base, max) → 0 < base →
    ∃ attempt, 1 ≤ attempt ∧ attempt ≤ u32Max ∧ backoff.delay attempt = max

variable {base max attempt : ℕ}

/-! ### The delays -/

/-- What the base is multiplied by. -/
def factor (attempt : ℕ) : ℕ := if attempt - 1 < 32 then 2 ^ (attempt - 1) else u32Max

/-- A product past the longest duration is past the ceiling. -/
lemma min_durationMax (h : max ≤ durationMax) (n : ℕ) : min (min durationMax n) max = min n max := by
  rw [min_comm durationMax, min_assoc, min_eq_right h]

lemma delay_linear (h : (linear base max).Valid) (hattempt : 1 ≤ attempt) :
    (linear base max).delay attempt = min (base * attempt) max := by
  rw [← min_durationMax h.2, delay, max_eq_left hattempt]

lemma delay_exponential (h : (exponential base max).Valid) (hattempt : 1 ≤ attempt) :
    (exponential base max).delay attempt = min (base * factor attempt) max := by
  have hfactor : (if min (attempt - 1) 32 < 32 then 2 ^ min (attempt - 1) 32 else u32Max) =
      factor attempt := by
    unfold factor
    by_cases hlt : attempt - 1 < 32
    · rw [min_eq_left hlt.le]
    · rw [min_eq_right (not_lt.mp hlt), if_neg (lt_irrefl 32), if_neg hlt]
  rw [← min_durationMax h.2, delay, max_eq_left hattempt, hfactor]

lemma factor_le (attempt : ℕ) : factor attempt ≤ u32Max := by
  unfold factor
  split_ifs with h
  · have hle : 2 ^ (attempt - 1) ≤ 2 ^ 31 := Nat.pow_le_pow_right (by decide) (by omega)
    exact hle.trans (by decide)
  · exact le_rfl

lemma factor_le_factor {first second : ℕ} (h : first ≤ second) : factor first ≤ factor second := by
  by_cases hsecond : second - 1 < 32
  · rw [factor, factor, if_pos hsecond, if_pos (by omega)]
    exact Nat.pow_le_pow_right (by decide) (by omega)
  · rw [factor.eq_def second, if_neg hsecond]
    exact factor_le first

/-- The factor is a power of two up to 32 attempts, and is not less than that many after. -/
lemma factor_eq_or (attempt : ℕ) :
    factor attempt = 2 ^ (attempt - 1) ∨ factor attempt = u32Max ∧ u32Max ≤ 2 ^ (attempt - 1) := by
  unfold factor
  split_ifs with h
  · exact .inl rfl
  · have hle : 2 ^ 32 ≤ 2 ^ (attempt - 1) := Nat.pow_le_pow_right (by decide) (not_lt.mp h)
    exact .inr ⟨rfl, le_trans (by decide) hle⟩

/-! ### The ladder -/

/-- The ceiling is no more than the base times the largest factor. -/
def Within : Backoff → Prop
  | linear base max => base = 0 ∨ max ≤ base * u32Max
  | exponential base max => base = 0 ∨ max ≤ base * u32Max
  | fixed _ => True
  | immediate => True

lemma ladder_linear (h : (linear base max).Valid) (hwithin : base = 0 ∨ max ≤ base * u32Max) :
    (linear base max).Ladder where
  documented := fun attempt hattempt _ => delay_linear h hattempt
  monotone := by
    intro first second hfirst hle _
    rw [delay_linear h hfirst, delay_linear h (hfirst.trans hle)]
    exact min_le_min_right _ (Nat.mul_le_mul_left _ hle)
  le_max := by
    rintro base max ⟨⟩ attempt hattempt -
    rw [delay_linear h hattempt]
    exact min_le_right _ _
  reaches := by
    rintro base max ⟨⟩ hpos
    refine ⟨u32Max, by decide, le_rfl, ?_⟩
    rw [delay_linear h (by decide)]
    exact min_eq_right (hwithin.resolve_left hpos.ne')

lemma ladder_exponential (h : (exponential base max).Valid)
    (hwithin : base = 0 ∨ max ≤ base * u32Max) : (exponential base max).Ladder where
  documented := by
    intro attempt hattempt _
    rw [delay_exponential h hattempt, Backoff.documented]
    rcases factor_eq_or attempt with hfactor | ⟨hfactor, hle⟩
    · rw [hfactor]
    · rcases hwithin with rfl | hmax
      · rw [Nat.zero_mul, Nat.zero_mul]
      · rw [hfactor, min_eq_right hmax, min_eq_right (hmax.trans (Nat.mul_le_mul_left _ hle))]
  monotone := by
    intro first second hfirst hle _
    rw [delay_exponential h hfirst, delay_exponential h (hfirst.trans hle)]
    exact min_le_min_right _ (Nat.mul_le_mul_left _ (factor_le_factor hle))
  le_max := by
    rintro base max ⟨⟩ attempt hattempt -
    rw [delay_exponential h hattempt]
    exact min_le_right _ _
  reaches := by
    rintro base max ⟨⟩ hpos
    refine ⟨33, by decide, by decide, ?_⟩
    rw [delay_exponential h (by decide)]
    exact min_eq_right (hwithin.resolve_left hpos.ne')

/-- A ladder comes to a ceiling within the largest factor only. -/
lemma within_of_ladder {backoff : Backoff} (h : backoff.Valid) (hladder : backoff.Ladder) :
    backoff.Within := by
  have hreach : ∀ {base max factor : ℕ}, factor ≤ u32Max → min (base * factor) max = max →
      max ≤ base * u32Max := fun hle heq =>
    (min_eq_right_iff.mp heq).trans (Nat.mul_le_mul_left _ hle)
  cases backoff with
  | fixed _ => trivial
  | immediate => trivial
  | linear base max =>
    refine base.eq_zero_or_pos.imp_right fun hpos => ?_
    obtain ⟨attempt, hone, hle, heq⟩ := hladder.reaches base max rfl hpos
    rw [delay_linear h hone] at heq
    exact hreach hle heq
  | exponential base max =>
    refine base.eq_zero_or_pos.imp_right fun hpos => ?_
    obtain ⟨attempt, hone, -, heq⟩ := hladder.reaches base max rfl hpos
    rw [delay_exponential h hone] at heq
    exact hreach (factor_le attempt) heq

/-- The delays are the documented ladder exactly for a ceiling within the largest factor. -/
theorem ladder_iff (backoff : Backoff) (h : backoff.Valid) : backoff.Ladder ↔ backoff.Within := by
  refine ⟨within_of_ladder h, fun hwithin => ?_⟩
  cases backoff with
  | linear base max => exact ladder_linear h hwithin
  | exponential base max => exact ladder_exponential h hwithin
  | fixed delay =>
    exact ⟨fun _ _ _ => rfl, fun _ _ _ _ _ => le_rfl, nofun, nofun⟩
  | immediate =>
    exact ⟨fun _ _ _ => rfl, fun _ _ _ _ _ => le_rfl, nofun, nofun⟩

/-- Half a minute doubling to an hour is. -/
theorem ladder_iff_default : (exponential 30000000000 3600000000000).Ladder :=
  (ladder_iff (exponential 30000000000 3600000000000) ⟨by decide, by decide⟩).mpr (.inr (by decide))

/-- A nanosecond doubling to an hour stops after four seconds. -/
theorem ladder_fails : ¬∀ backoff : Backoff, backoff.Valid → backoff.Ladder := by
  intro h
  have hdelay := (h (exponential 1 3600000000000) ⟨by decide, by decide⟩).documented 40
    (by decide) (by decide)
  exact absurd hdelay (by decide)

end Moso.Jobs.Backoff
