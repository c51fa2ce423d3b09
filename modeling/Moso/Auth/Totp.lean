import Moso.Auth.Throttle
import Moso.Foundation.Decimal

/-!
# One-time codes

What a time-based second factor accepts: a code of one of the periods around the present, newer
than the last period that it accepted. The code of a period is a parameter.
-/

namespace Moso.Auth

/-- A base32 secret. -/
abbrev TotpSecret := String

structure Totp where
  period : ℕ := 30
  digits : ℕ := 6
  skew : ℕ := 1

/-- The code of a secret for one counter. -/
abbrev CodeForCounter := TotpSecret → ℕ → Except Error String

namespace Totp

variable (totp : Totp) (codeFor : CodeForCounter)

/-- Which period an instant falls in, in seconds since the epoch. -/
def counterAt (at_ : ℕ) : ℕ := at_ / max totp.period 1

/-- The counters of the window, from the oldest on. -/
def window (at_ : ℕ) : List ℕ :=
  let centre := totp.counterAt at_
  List.range' (centre - totp.skew) (centre + totp.skew + 1 - (centre - totp.skew))

/-- The first of these counters that a code belongs to; all of them are compared. -/
def firstMatch (secret : TotpSecret) (code : String) : List ℕ → Except Error (Option ℕ)
  | [] => .ok none
  | counter :: counters => do
    let candidate ← codeFor secret counter
    let later ← firstMatch secret code counters
    return if candidate = code then some counter else later

/-- Which period a code belongs to at a given instant. -/
def matchingPeriodAt (secret : TotpSecret) (code : String) (at_ : ℕ) : Except Error (Option ℕ) :=
  let code := Decimal.trim code.toList
  if code.length ≠ totp.digits ∨ !code.all Char.isDigit then .ok none
  else firstMatch codeFor secret (String.ofList code) (totp.window at_)

end Totp

/-- What an enrolment has to be rebuilt from. -/
structure StoredTotp where
  secret : TotpSecret
  /-- The period the last accepted code came from. -/
  lastPeriod : Option ℕ
  deriving DecidableEq

namespace StoredTotp

variable (totp : Totp) (codeFor : CodeForCounter) (enrolment : StoredTotp)

/-- A period is accepted only if it is newer than the last one that was. -/
def newer (period : ℕ) : Bool := enrolment.lastPeriod.all (· < period)

/-- Match a code, or refuse it; the period that it consumes. -/
def accept (code : String) (at_ : ℕ) : Except Error (Option ℕ) := do
  let period ← totp.matchingPeriodAt codeFor enrolment.secret code at_
  return period.filter enrolment.newer

/-- The enrolment after a period is consumed. -/
def consume (period : ℕ) : StoredTotp := { enrolment with lastPeriod := some period }

end StoredTotp

end Moso.Auth
