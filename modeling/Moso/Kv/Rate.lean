import Moso.Foundation.Decimal
import Moso.Foundation.Word
import Mathlib.Data.Nat.Basic
import Mathlib.Tactic.Linarith

/-!
# Rate limiting

`RateQuota`, the decision it leads to and the compare-and-swap path of the limiter. Durations are
whole nanoseconds, as `Duration` holds them; the limiter's clock and state are in microseconds and
truncate, exactly where the source does. `u64` operations saturate explicitly.
-/

namespace Moso.Kv

/-- How much traffic a bucket may pass. The clamping of the two constructors is what the last
three fields record. -/
structure RateQuota where
  limit : ℕ
  period : ℕ
  burst : ℕ
  limit_pos : 0 < limit
  burst_pos : 0 < burst
  burst_le_limit : burst ≤ limit

namespace RateQuota

/-- `limit` requests per `period`, burstable up to `limit`; a zero limit is one. -/
def new (limit period : ℕ) : RateQuota where
  limit := if limit = 0 then 1 else limit
  period := period
  burst := if limit = 0 then 1 else limit
  limit_pos := by split_ifs <;> omega
  burst_pos := by split_ifs <;> omega
  burst_le_limit := le_rfl

/-- The method `burst`: allow at most `b` at once, clamped to the limit and never zero. -/
def withBurst (q : RateQuota) (b : ℕ) : RateQuota where
  limit := q.limit
  period := q.period
  burst :=
    let b := if b = 0 then 1 else b
    if b > q.limit then q.limit else b
  limit_pos := q.limit_pos
  burst_pos := by
    have := q.limit_pos
    dsimp only
    split_ifs <;> omega
  burst_le_limit := by dsimp only; split_ifs <;> omega

variable (q : RateQuota)

/-- `period / limit`: `Duration` division truncates to the nanosecond. -/
def emissionInterval : ℕ := q.period / q.limit

/-- `burst · emission_interval`. -/
def tolerance : ℕ := q.emissionInterval * q.burst

/-- The emission interval in microseconds, at least one. -/
def emissionUs : ℕ := max (min u64Max (q.emissionInterval / 1000)) 1

/-- The tolerance in microseconds. -/
def toleranceUs : ℕ := min u64Max (q.tolerance / 1000)

/-- How long a bucket's state is worth keeping: one full drain, plus a second. -/
def stateTtl : ℕ := q.tolerance + q.emissionInterval + 1000000000

end RateQuota

/-- What the limiter decided. The two durations are in nanoseconds. -/
structure RateDecision where
  allowed : Bool
  limit : ℕ
  remaining : ℕ
  retryAfter : ℕ
  reset : ℕ
  deriving DecidableEq, Repr

/-- What a store holds under one bucket's key: the text and the instant, in nanoseconds, at which
it expires. -/
abbrev Bucket := Option (String × ℕ)

namespace Bucket

/-- `KvStore::get` at `now` microseconds: an expired entry is absent. -/
def get (now : ℕ) : Bucket → Option String
  | none => none
  | some (text, expiresAt) => if expiresAt ≤ now * 1000 then none else some text

/-- `KvStore::compare_and_swap` with a TTL. -/
def compareAndSwap (now : ℕ) (old : Option String) (new : String) (ttl : ℕ) (b : Bucket) :
    Bool × Bucket :=
  if b.get now = old then (true, some (new, now * 1000 + ttl)) else (false, b)

end Bucket

/-- `text.trim().parse::<u64>().ok()`. -/
def parseU64 (text : String) : Option ℕ := Decimal.parse u64Max (Decimal.trim text.toList)

/-- How many times the compare-and-swap loop retries before giving up. -/
def maxCasAttempts : ℕ := 32

/-- The compare-and-swap loop of `rate_limit_cas`, with the number of attempts left. -/
def rateLimitCasLoop (q : RateQuota) (now : ℕ) : ℕ → Bucket → RateDecision × Bucket
  | 0, b =>
    ({ allowed := false, limit := q.limit, remaining := 0,
       retryAfter := q.emissionInterval, reset := q.tolerance }, b)
  | attempts + 1, b =>
    let emission := q.emissionUs
    let tolerance := q.toleranceUs
    let current := b.get now
    let stored := current.bind parseU64
    let tat := max (stored.getD now) now
    let newTat := saturatingAdd tat emission
    let allowAt := newTat - tolerance
    if allowAt > now then
      ({ allowed := false, limit := q.limit, remaining := 0,
         retryAfter := (allowAt - now) * 1000, reset := (tat - now) * 1000 }, b)
    else
      let (swapped, b') := b.compareAndSwap now current (toString newTat) q.stateTtl
      if swapped then
        let headRoom := now + tolerance - newTat
        ({ allowed := true, limit := q.limit, remaining := min u32Max (headRoom / emission),
           retryAfter := 0, reset := (newTat - now) * 1000 }, b')
      else
        rateLimitCasLoop q now attempts b'

/-- `Kv::rate_limit_cas` at `now` microseconds, with the bucket to itself. -/
def rateLimitCas (q : RateQuota) (now : ℕ) (b : Bucket) : RateDecision × Bucket :=
  rateLimitCasLoop q now maxCasAttempts b

/-- The arrival time that the bucket stands for at `now`. -/
def Bucket.tat (now : ℕ) (b : Bucket) : ℕ := max (((b.get now).bind parseU64).getD now) now

/-- A charge is settled at the first attempt. -/
lemma rateLimitCas_eq {q : RateQuota} {now : ℕ} {b : Bucket} : rateLimitCas q now b =
    if now < saturatingAdd (b.tat now) q.emissionUs - q.toleranceUs then
      ({ allowed := false, limit := q.limit, remaining := 0,
         retryAfter := (saturatingAdd (b.tat now) q.emissionUs - q.toleranceUs - now) * 1000,
         reset := (b.tat now - now) * 1000 }, b)
    else
      ({ allowed := true, limit := q.limit,
         remaining := min u32Max
           ((now + q.toleranceUs - saturatingAdd (b.tat now) q.emissionUs) / q.emissionUs),
         retryAfter := 0, reset := (saturatingAdd (b.tat now) q.emissionUs - now) * 1000 },
        some (toString (saturatingAdd (b.tat now) q.emissionUs), now * 1000 + q.stateTtl)) := by
  simp only [rateLimitCas, maxCasAttempts, rateLimitCasLoop, Bucket.tat, Bucket.compareAndSwap,
    gt_iff_lt, if_true]
  rfl

/-- Charge the bucket at each of the given times. -/
def charges (q : RateQuota) : Bucket → List ℕ → List (ℕ × RateDecision)
  | _, []        => []
  | b, now :: ts => (now, (rateLimitCas q now b).1) :: charges q (rateLimitCas q now b).2 ts

/-- The times at which a charge was admitted. -/
def admittedTimes (ds : List (ℕ × RateDecision)) : List ℕ :=
  (ds.filter fun d => d.2.allowed).map Prod.fst

end Moso.Kv
