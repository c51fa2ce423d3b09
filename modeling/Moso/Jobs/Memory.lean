import Moso.Jobs.Queue
import Mathlib.Data.List.Sort

/-!
# The in-memory queue

The operations of `MemoryQueue`. The rows are kept by identifier behind one lock, so every
operation is one step; the instant it reads off the clock is an argument.
-/

namespace Moso.Jobs

/-- Everything queued, by identifier. -/
structure MemoryQueue where
  jobs : List Held
  maxJobs : ℕ
  /-- The wire names that must never have two instances leased at once. -/
  serial : List String
  /-- The number of tokens drawn. -/
  tokens : ℕ
  deriving Repr

namespace MemoryQueue

/-- An empty queue, capped at 100,000 jobs. -/
def new : MemoryQueue := { jobs := [], maxJobs := 100000, serial := [], tokens := 0 }

/-- `BTreeMap::insert`: the entry of the same identifier is replaced. -/
def insert (entry : Held) : List Held → List Held
  | [] => [entry]
  | held :: rest =>
    if entry.job.id < held.job.id then entry :: held :: rest
    else if entry.job.id = held.job.id then entry :: rest
    else held :: insert entry rest

/-- `BTreeMap::get_mut` of `id`, and an assignment through it. -/
def modify (id : JobId) (f : Held → Held) (jobs : List Held) : List Held :=
  jobs.map fun held => if held.job.id = id then f held else held

def push (q : MemoryQueue) (job : QueuedJob) : Except Error MemoryQueue :=
  if q.maxJobs ≤ q.jobs.length then
    .error (.unavailable "memory" ("the in-memory queue is capped at " ++ toString q.maxJobs ++
      " jobs\nhelp: this cap exists so a runaway test fails with a message instead " ++
      "of exhausting the machine; raise it with " ++
      "`MemoryQueue::new().max_jobs(..)` if the test really needs more"))
  else if job.uniqueKey.isSome ∧
      q.jobs.any fun held => held.job.state.isActive ∧ held.job.uniqueKey = job.uniqueKey then
    .ok q
  else
    .ok { q with jobs := insert (Held.new job) q.jobs }

/-- The unique keys that are running. -/
def busyChains (q : MemoryQueue) : List String :=
  (q.jobs.filter fun held => held.job.state = .running).filterMap fun held => held.job.uniqueKey

/-- The serial names of which a row is leased. -/
def busySerial (q : MemoryQueue) (now : ℤ) : List String :=
  (q.jobs.filter fun held =>
    held.job.state = .running ∧ (held.job.lockedUntil.any fun until' => now < until') ∧
      held.job.name ∈ q.serial).map fun held => held.job.name

/-- Ready or retrying, due, on one of the queues, and with no row of its unique key running. -/
def isReady (q : MemoryQueue) (queues : List String) (now : ℤ) (job : QueuedJob) : Bool :=
  job.state.isWaiting ∧ job.runAt ≤ now ∧ job.queue ∈ queues ∧
    ∀ key ∈ job.uniqueKey, key ∉ q.busyChains

/-- At most one row of each serial name, and none of a busy one: the first in the list. -/
def retainSerial (serial : List String) : List String → List QueuedJob → List QueuedJob
  | _, [] => []
  | busy, job :: rest =>
    if job.name ∉ serial then job :: retainSerial serial busy rest
    else if job.name ∈ busy then retainSerial serial busy rest
    else job :: retainSerial serial (job.name :: busy) rest

/-- The rows a worker could lease right now, in pull order. -/
def leasable (q : MemoryQueue) (queues : List String) (now : ℤ) : List QueuedJob :=
  let ready := (q.jobs.map Held.job).filter (q.isReady queues now)
  retainSerial q.serial (q.busySerial now)
    (ready.insertionSort fun a b => pullOrder a ≤ pullOrder b)

/-- Lease the selected rows, drawing one token for each. -/
def leaseAll (worker : WorkerId) (until' : ℤ) :
    List QueuedJob → MemoryQueue → MemoryQueue × List (QueuedJob × Lease)
  | [], q => (q, [])
  | job :: rest, q =>
    let q' := { q with
      jobs := modify job.id (fun held => held.lease worker until' q.tokens) q.jobs
      tokens := q.tokens + 1 }
    let (q'', got) := leaseAll worker until' rest q'
    (q'', (job.lease worker until',
      { jobId := job.id, token := q.tokens, expiresAt := until' }) :: got)

def pull (q : MemoryQueue) (now : ℤ) (queues : List String) (limit lease : ℕ)
    (worker : WorkerId) : MemoryQueue × List (QueuedJob × Lease) :=
  leaseAll worker (now + fromStd lease) ((q.leasable queues now).take limit) q

/-- End an attempt in failure: back to waiting until `runAt`, or to the dead letters. -/
def nack (q : MemoryQueue) (now : ℤ) (lease : Lease) (error : String)
    (runAt : Option ℤ) : Except Error MemoryQueue :=
  match q.jobs.find? fun held => held.job.id = lease.jobId with
  | none => .ok q
  | some held =>
    if held.token ≠ some lease.token then .error (reclaimed lease.jobId)
    else
      .ok { q with
        jobs := modify lease.jobId (fun held =>
          let job := { held.job with lastError := some error, lockedUntil := none }
          match runAt with
          | some at' =>
            { held with
              token := none
              job := { job with state := .retrying, attempt := job.attempt + 1, runAt := at' } }
          | none =>
            { held with
              token := none
              job := { job with state := .dead }
              failedAt := some now }) q.jobs }

/-- The row of a job that succeeded. It stays, finished. -/
def acked (held : Held) : Held :=
  { held with
    token := none
    job := { held.job with state := .done, lockedBy := none, lockedUntil := none } }

/-- End an attempt in success. -/
def ack (q : MemoryQueue) (lease : Lease) : Except Error MemoryQueue :=
  match q.jobs.find? fun held => held.job.id = lease.jobId with
  | none => .ok q
  | some held =>
    if held.token ≠ some lease.token then .error (reclaimed lease.jobId)
    else .ok { q with jobs := modify lease.jobId acked q.jobs }

/-- The row under a lease that now runs out at `until'`. -/
def extended (until' : ℤ) (held : Held) : Held :=
  { held with job := { held.job with lockedUntil := some until' } }

/-- Keep a lease for another `extend` from now. -/
def heartbeat (q : MemoryQueue) (now : ℤ) (lease : Lease) (extend : ℕ) :
    Except Error MemoryQueue :=
  match q.jobs.find? fun held => held.job.id = lease.jobId with
  | none => .error (reclaimed lease.jobId)
  | some held =>
    if held.token ≠ some lease.token then .error (reclaimed lease.jobId)
    else .ok { q with jobs := modify lease.jobId (extended (now + fromStd extend)) q.jobs }

/-- Running, on one of the queues, under a lease that has run out. -/
def isExpired (queues : List String) (now : ℤ) (held : Held) : Bool :=
  held.job.state = .running ∧ held.job.queue ∈ queues ∧
    held.job.lockedUntil.any fun until' => until' < now

/-- The row once its lease has been taken away. -/
def released (now : ℤ) (held : Held) : Held :=
  { held with
    token := none
    job := { held.job with state := .ready, lockedBy := none, lockedUntil := none, runAt := now } }

/-- Take every lease that has run out away from its worker, and count them. -/
def reclaim (q : MemoryQueue) (now : ℤ) (queues : List String) : MemoryQueue × ℕ :=
  ({ q with jobs := q.jobs.map fun held =>
      if isExpired queues now held then released now held else held },
    (q.jobs.filter (isExpired queues now)).length)

/-- The row of a job that was stopped. -/
def cancelled (held : Held) : Held :=
  { held with token := none, job := { held.job with state := .cancelled, lockedUntil := none } }

/-- Stop a job that still has work ahead of it, whoever is running it; and whether there was one. -/
def cancel (q : MemoryQueue) (id : JobId) : MemoryQueue × Bool :=
  match q.jobs.find? fun held => held.job.id = id with
  | none => (q, false)
  | some held =>
    if held.job.state.isActive then ({ q with jobs := modify id cancelled q.jobs }, true)
    else (q, false)

/-- Whether a row is a dead letter the filter is about. -/
def isLetter (filter : DlqFilter) (held : Held) : Bool :=
  held.job.state = .dead ∧ filter.matches (deadLetter held)

/-- The row of a dead letter that is to be tried again. -/
def revived (now : ℤ) (held : Held) : Held :=
  { held with
    failedAt := none
    job := { held.job with state := .ready, attempt := 1, runAt := now, lastError := none } }

/-- The loop of `retry` over the rows, after `retried` of them; and how many it ends with. -/
def retryFrom (now : ℤ) (filter : DlqFilter) (limit : ℕ) : ℕ → List Held → List Held × ℕ
  | retried, [] => ([], retried)
  | retried, held :: rest =>
    if limit ≤ retried then (held :: rest, retried)
    else if isLetter filter held then
      let (rest, total) := retryFrom now filter limit (retried + 1) rest
      (revived now held :: rest, total)
    else
      let (rest, total) := retryFrom now filter limit retried rest
      (held :: rest, total)

/-- Put up to `limit` dead letters back to work, and count them. -/
def retry (q : MemoryQueue) (now : ℤ) (filter : DlqFilter) (limit : ℕ) : MemoryQueue × ℕ :=
  let (jobs, retried) := retryFrom now filter limit 0 q.jobs
  ({ q with jobs := jobs }, retried)

/-- The first `limit` dead letters the filter is about. -/
def letters (q : MemoryQueue) (filter : DlqFilter) (limit : ℕ) : List JobId :=
  ((q.jobs.filter (isLetter filter)).take limit).map fun held => held.job.id

/-- Delete up to `limit` dead letters, and count them. -/
def discard (q : MemoryQueue) (filter : DlqFilter) (limit : ℕ) : MemoryQueue × ℕ :=
  let doomed := q.letters filter limit
  ({ q with jobs := q.jobs.filter fun held => held.job.id ∉ doomed }, doomed.length)

end MemoryQueue

end Moso.Jobs
