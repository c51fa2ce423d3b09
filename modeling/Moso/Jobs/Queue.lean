import Moso.Foundation.Word
import Mathlib.Data.Int.Order.Basic
import Mathlib.Data.List.Infix
import Mathlib.Data.Prod.Lex
import Mathlib.Order.OrderDual

/-!
# Jobs and leases

The row every queue backend moves, the lease a worker holds on one, and the order in which rows
are pulled. Instants are nanoseconds since the Unix epoch. An identifier is the number its UUID
spells, whose order is that of the text; tokens are only ever compared, so they are numbers too.
-/

namespace Moso.Jobs

abbrev JobId := ℕ

/-- The identifier as its UUID is written. -/
def JobId.text (id : JobId) : String :=
  let digits := (Nat.toDigits 16 id).leftpad 32 '0'
  let group := fun start len => String.ofList ((digits.drop start).take len)
  "-".intercalate [group 0 8, group 8 4, group 12 4, group 16 4, group 20 12]

abbrev WorkerId := String

abbrev Token := ℕ

/-- The errors of the queue operations modelled here. -/
inductive Error where
  | permanent (message : String)
  | unavailable (backend detail : String)
  deriving DecidableEq, Repr

/-- The lease a call presented is no longer the job's. -/
def reclaimed (id : JobId) : Error :=
  .permanent ("the lease on job " ++ id.text ++
    " was reclaimed; another worker is running it now")

/-- `timestamp_millis`: whole milliseconds since the epoch. -/
def timestampMillis (t : ℤ) : ℤ := t / 1000000

/-- `chrono::Duration::from_std(d).unwrap_or_default()`. -/
def fromStd (d : ℕ) : ℤ := if (d : ℤ) ≤ i64Max * 1000000 then d else 0

/-- How urgently a job should be picked up. -/
inductive Priority where
  | low
  | normal
  | high
  | critical
  deriving DecidableEq, Repr

/-- The stored integer. -/
def Priority.asI16 : Priority → ℤ
  | .low      => -10
  | .normal   => 0
  | .high     => 10
  | .critical => 20

/-- Where a job is in its life. -/
inductive JobState where
  | ready
  | running
  | retrying
  | done
  | dead
  | cancelled
  deriving DecidableEq, Repr

/-- Whether the job still has work ahead of it. -/
def JobState.isActive : JobState → Bool
  | .ready | .running | .retrying => true
  | .done | .dead | .cancelled    => false

/-- Waiting to be picked up: ready, or retrying. -/
def JobState.isWaiting : JobState → Bool
  | .ready | .retrying                      => true
  | .running | .done | .dead | .cancelled => false

/-- One job as the queue stores it. -/
structure QueuedJob where
  id : JobId
  name : String
  queue : String
  /-- The serialised payload, opaque here. -/
  payload : String
  state : JobState
  priority : Priority
  /-- Which attempt is next, one-based. -/
  attempt : ℕ
  /-- Not before this time. -/
  runAt : ℤ
  enqueuedAt : ℤ
  uniqueKey : Option String
  lastError : Option String
  lockedBy : Option WorkerId
  lockedUntil : Option ℤ
  deriving DecidableEq, Repr

/-- A row as `QueuedJob::new` makes it and as the builder methods leave it: ready, on its first
attempt, under nobody's lease. -/
def QueuedJob.IsNew (job : QueuedJob) : Prop :=
  job.state = .ready ∧ job.attempt = 1 ∧ job.lastError = none ∧ job.lockedBy = none ∧
    job.lockedUntil = none

instance (job : QueuedJob) : Decidable job.IsNew := inferInstanceAs (Decidable (_ ∧ _))

/-- A lease on a job, held while a worker runs it. -/
structure Lease where
  jobId : JobId
  token : Token
  expiresAt : ℤ
  deriving DecidableEq, Repr

/-- A row as a backend holds it: the job, and who holds its lease. -/
structure Held where
  job : QueuedJob
  token : Option Token
  /-- How many attempts were made, for the dead-letter record. -/
  attempts : ℕ
  /-- When it gave up. -/
  failedAt : Option ℤ
  deriving DecidableEq, Repr

/-- The entry a push makes. -/
def Held.new (job : QueuedJob) : Held :=
  { job := job, token := none, attempts := 0, failedAt := none }

/-- The row once `worker` has leased it until `until'`. -/
def QueuedJob.lease (job : QueuedJob) (worker : WorkerId) (until' : ℤ) : QueuedJob :=
  { job with state := .running, lockedBy := some worker, lockedUntil := some until' }

/-- The entry once `worker` has leased its job under `token`. -/
def Held.lease (held : Held) (worker : WorkerId) (until' : ℤ) (token : Token) : Held :=
  { held with
    job := held.job.lease worker until', token := some token, attempts := held.job.attempt }

/-- The row after an attempt that failed with `error`, waiting for the next one at `at'`. -/
def QueuedJob.retried (job : QueuedJob) (error : String) (at' : ℤ) : QueuedJob :=
  { job with
    state := .retrying, attempt := job.attempt + 1, runAt := at', lockedUntil := none,
    lastError := some error }

/-- Priority first, then the time the job became ready. -/
def pullOrder (job : QueuedJob) : ℤᵒᵈ ×ₗ ℤ ×ₗ JobId :=
  toLex (OrderDual.toDual job.priority.asI16, toLex (job.runAt, job.id))

end Moso.Jobs

/-!
## Dead letters

What an operator sees of a job that gave up, and which of them a retry or a discard is about; and
the calls that a queue and its dead letters answer.
-/

namespace Moso.Jobs

/-- A job that gave up. -/
structure DeadLetter where
  id : JobId
  name : String
  queue : String
  payload : String
  /-- How many attempts were made. -/
  attempts : ℕ
  lastError : String
  enqueuedAt : ℤ
  /-- When it gave up. -/
  failedAt : ℤ
  worker : Option WorkerId
  deriving DecidableEq, Repr

/-- The dead-letter view of one held job. -/
def deadLetter (held : Held) : DeadLetter :=
  { id := held.job.id
    name := held.job.name
    queue := held.job.queue
    payload := held.job.payload
    attempts := max held.attempts held.job.attempt
    lastError := held.job.lastError.getD "no error was recorded"
    enqueuedAt := held.job.enqueuedAt
    failedAt := held.failedAt.getD held.job.enqueuedAt
    worker := held.job.lockedBy }

/-- Which letters an operation is about; a field that is not set excludes nothing. -/
structure DlqFilter where
  job : Option String
  queue : Option String
  /-- Only failures at or after this time. -/
  since : Option ℤ
  /-- Only failures before this time. -/
  until' : Option ℤ
  errorContains : Option String
  deriving DecidableEq, Repr

namespace DlqFilter

/-- Match everything. -/
def new : DlqFilter :=
  { job := none, queue := none, since := none, until' := none, errorContains := none }

/-- Whether `letter` satisfies every set field. -/
def «matches» (filter : DlqFilter) (letter : DeadLetter) : Bool :=
  if filter.job.any fun job => job ≠ letter.name then false
  else if filter.queue.any fun queue => queue ≠ letter.queue then false
  else if filter.since.any fun since => letter.failedAt < since then false
  else if filter.until'.any fun until' => until' ≤ letter.failedAt then false
  else if filter.errorContains.any fun needle =>
    ¬ needle.toList <:+: letter.lastError.toList then false
  else true

end DlqFilter

/-- One call on a queue and its dead letters. -/
inductive QueueCall where
  | push (job : QueuedJob)
  | pull (queues : List String) (limit lease : ℕ) (worker : WorkerId)
  | ack (lease : Lease)
  | nack (lease : Lease) (error : String) (runAt : Option ℤ)
  | heartbeat (lease : Lease) (extend : ℕ)
  | reclaim (queues : List String)
  | cancel (id : JobId)
  | retry (filter : DlqFilter) (limit : ℕ)
  | discard (filter : DlqFilter) (limit : ℕ)

end Moso.Jobs
