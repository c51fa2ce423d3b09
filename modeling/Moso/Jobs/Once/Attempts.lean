import Moso.Foundation.Machine
import Moso.Jobs.Once
import Moso.Jobs.Worker

/-!
# One attempt after another

`JobCtx::once` as the attempts of one job call it, one after the other, over the table and over the
key-value store, and what the worker makes of each attempt. Times are nanoseconds, as the store
keeps them.
-/

namespace Moso.Jobs

/-- What claiming a key produced. -/
inductive Claim (V : Type*) where
  /-- Nobody had done this work. -/
  | mine
  /-- Somebody already did it, and this is what they got. -/
  | recorded (outcome : V)
  deriving DecidableEq, Repr

/-- One row of `moso_job_once`. Its last two columns are written together. -/
structure OnceRow (V : Type*) where
  claimedAt : ℕ
  completedAt : Option ℕ
  outcome : Option V
  together : completedAt.isSome = outcome.isSome

/-- Where "already done" is written down. -/
inductive OnceStore where
  | database
  | kv
  deriving DecidableEq, Repr

namespace OnceStore

variable {V : Type*}

/-- What the store holds under the key. -/
def Ledger (V : Type*) : OnceStore → Type _
  | .database => Option (OnceRow V)
  | .kv => Option (OnceEntry V)

/-- Nothing is held. -/
def empty : (self : OnceStore) → self.Ledger V
  | .database => (none : Option (OnceRow V))
  | .kv => (none : Option (OnceEntry V))

/-- Whether a claim made at `claimedAt` is abandoned at `now`: older than the orphan window in the
table, as old as it in the key-value store. -/
def lapsed : OnceStore → ℕ → ℕ → Bool
  | .database, claimedAt, now => claimedAt + onceOrphanAfter < now
  | .kv, claimedAt, now => onceOrphanAfter ≤ now - claimedAt

/-- The error that a claim somebody else holds leads to. -/
def alreadyRunning (key : String) : JobError :=
  .retry ("another worker is already running the `" ++ key ++
    "` side effect; this attempt will be retried")

/-- Insert if absent, take over an abandoned claim, and otherwise read what the row holds. -/
def claimInDatabase (key : String) (now : ℕ) :
    Option (OnceRow V) → Except JobError (Claim V) × Option (OnceRow V)
  | none => (.ok .mine, some ⟨now, none, none, rfl⟩)
  | some row =>
    if row.completedAt.isNone ∧ database.lapsed row.claimedAt now then
      (.ok .mine, some { row with claimedAt := now })
    else
      match row.outcome with
      | some outcome => (.ok (.recorded outcome), some row)
      | none => (.error (alreadyRunning key), some row)

/-- `set_if_absent`, then read, and swap an abandoned claim. -/
def claimInKv (key : String) (now : ℕ) :
    Option (OnceEntry V) → Except JobError (Claim V) × Option (OnceEntry V)
  | none => (.ok .mine, some ⟨now, none⟩)
  | some entry =>
    match entry.outcome with
    | some outcome => (.ok (.recorded outcome), some entry)
    | none =>
      if kv.lapsed entry.claimedAt now then (.ok .mine, some ⟨now, none⟩)
      else (.error (alreadyRunning key), some entry)

/-- Take the key, or hand back what the previous holder recorded. -/
def claim (key : String) (now : ℕ) :
    (self : OnceStore) → self.Ledger V → Except JobError (Claim V) × self.Ledger V
  | .database, (row : Option (OnceRow V)) => claimInDatabase key now row
  | .kv, (entry : Option (OnceEntry V)) => claimInKv key now entry

/-- Record the outcome against a key this process claimed. -/
def record (now : ℕ) (outcome : V) : (self : OnceStore) → self.Ledger V → self.Ledger V
  | .database, (row : Option (OnceRow V)) =>
    row.map fun row => { row with
      completedAt := some now, outcome := some outcome, together := rfl }
  | .kv, _ => some ⟨now, some outcome⟩

end OnceStore

/-- What becomes of a body that runs. -/
inductive BodyEnd (V : Type*) where
  /-- It returns, and the clock is read for the record. -/
  | returns (now : ℕ) (outcome : V)
  | fails (error : JobError)
  /-- The process is killed. -/
  | dies
  deriving DecidableEq, Repr

/-- One call of `once`: when it claims the key, and what becomes of its body if it runs. -/
structure OnceAttempt (V : Type*) where
  now : ℕ
  body : BodyEnd V
  deriving DecidableEq, Repr

/-- How a call of `once` ended. -/
inductive OnceEnd (V : Type*) where
  /-- Its body ran. -/
  | ran (outcome : Except JobError V)
  | died
  /-- Its body did not run. -/
  | recorded (outcome : V)
  | refused (error : JobError)
  deriving DecidableEq, Repr

namespace OnceEnd

variable {V : Type*}

/-- The body was started. -/
def started : OnceEnd V → Bool
  | ran _ | died => true
  | recorded _ | refused _ => false

end OnceEnd

variable {V : Type*}

/-- `JobCtx::once`. -/
def once (self : OnceStore) (key : String) (attempt : OnceAttempt V) (ledger : self.Ledger V) :
    OnceEnd V × self.Ledger V :=
  match self.claim key attempt.now ledger with
  | (.error error, ledger) => (.refused error, ledger)
  | (.ok (.recorded outcome), ledger) => (.recorded outcome, ledger)
  | (.ok .mine, ledger) =>
    match attempt.body with
    | .fails error => (.ran (.error error), ledger)
    | .dies => (.died, ledger)
    | .returns now outcome => (.ran (.ok outcome), self.record now outcome ledger)

/-! ### Attempt by attempt -/

/-- The ledger between two attempts of a job. -/
structure OnceLife (store : OnceStore) (V : Type*) where
  ledger : store.Ledger V
  /-- When the last attempt claimed the key. -/
  last : ℕ
  /-- The same, when its body ran and returned an error. -/
  failed : Option ℕ
  /-- Whether an attempt after such an attempt did not run its body. -/
  locked : Bool

namespace OnceLife

variable {store : OnceStore}

/-- No attempt has been made. -/
def start (store : OnceStore) (V : Type*) : OnceLife store V := ⟨store.empty, 0, none, false⟩

/-- The next attempt, not before the last one. -/
def step (key : String) (s : OnceLife store V) (attempt : OnceAttempt V) :
    Option (OnceLife store V) :=
  if attempt.now < s.last then none
  else
    let (end_, ledger) := once store key attempt s.ledger
    some {
      ledger := ledger
      last := attempt.now
      failed := match end_ with
        | .ran (.error _) => some attempt.now
        | _ => none
      locked := s.locked || (s.failed.isSome && !end_.started) }

end OnceLife

/-! ### The worker's attempts -/

/-- What becomes of a job. -/
inductive JobEnd where
  | done
  | dead
  /-- It waits for its next attempt. -/
  | retrying
  deriving DecidableEq, Repr

/-- The worker runs a job whose body is a call of `once`, from attempt `n` on: each attempt fails as
`once` does and is retried while the budget lasts. -/
def work (self : OnceStore) (key : String) (retry : RetryPolicy) (draw : ℕ) :
    ℕ → List (ℕ × ℕ × Except JobError V) → self.Ledger V → JobEnd
  | _, [], _ => .retrying
  | n, (now, finished, outcome) :: rest, ledger =>
    let body : BodyEnd V := match outcome with
      | .ok outcome => .returns finished outcome
      | .error error => .fails error
    match once self key ⟨now, body⟩ ledger with
    | (.ran (.ok _), _) | (.recorded _, _) => .done
    | (.ran (.error error), ledger) | (.refused error, ledger) =>
      if (retry.delayAfter draw n error).isSome then work self key retry draw (n + 1) rest ledger
      else .dead
    | (.died, _) => .retrying

end Moso.Jobs
