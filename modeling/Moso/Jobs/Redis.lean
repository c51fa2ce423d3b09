import Moso.Jobs.Queue
import Moso.Kv.SortedSet
import Mathlib.Data.List.Sort
import Mathlib.Logic.Function.Basic

/-!
# The Redis queue

The operations of `RedisQueue`, over the store commands they are written in. The commands are a
class of monads, so that one text of the queue can be run on its own, as here, or one command at
a time. Reading the clock and drawing a token are commands too.

The store is addressed by what a key names; that distinct names give distinct keys is a property
of the key builder.
-/

namespace Moso.Jobs

open Moso.Kv (ZSet)

/-- The sorted sets of the queue. -/
inductive SetKey where
  | ready (queue : String)
  | leased (queue : String)
  | dead
  deriving DecidableEq, Repr

/-- The markers: one per unique key, and one per serial job name. -/
inductive MarkerKey where
  | uniq (key : String)
  | serial (name : String)
  deriving DecidableEq, Repr

/-- What the queue asks of the store, of the clock and of the token generator. -/
class JobStore (m : Type → Type) where
  utcNow : m ℤ
  newV4 : m Token
  /-- The blob of a job. -/
  get : JobId → m (Option Held)
  set : Held → m Unit
  deleteBlob : JobId → m Unit
  zadd : SetKey → ℤ → JobId → m ℕ
  /-- From negative infinity. -/
  zrangeByScore : SetKey → ℤ → ℕ → m (List JobId)
  /-- To positive infinity as well. -/
  members : SetKey → ℕ → m (List JobId)
  zrem : SetKey → JobId → m ℕ
  /-- `set` with `if_absent` and a TTL. -/
  setIfAbsent : MarkerKey → JobId → ℕ → m Bool
  deleteMarker : MarkerKey → m Unit
  /-- A new TTL for a marker that is there. -/
  expire : MarkerKey → ℕ → m Bool
  compareAndDelete : MarkerKey → JobId → m Bool

/-- A day, in milliseconds. -/
def priorityWeight : ℤ := 86400000

/-- The sorted-set score for a ready job: earlier and more urgent is lower. Both terms and their
difference are integers below `2 ^ 53`, which `f64` holds exactly. -/
def readyScore (job : QueuedJob) : ℤ :=
  timestampMillis job.runAt - job.priority.asI16 * priorityWeight

namespace RedisQueue

variable {m : Type → Type} [Monad m] [JobStore m]

open JobStore

/-- Take the one running slot for `name`, for the length of `lease`. -/
def claimSerial (name : String) (id : JobId) (lease : ℕ) : m Bool :=
  setIfAbsent (.serial name) id (max lease 1000000000)

/-- Give the slot back, but only if this job is the one holding it. -/
def releaseSerial (serial : List String) (held : Held) : m Unit := do
  if held.job.name ∈ serial then
    let _ ← compareAndDelete (.serial held.job.name) held.job.id

def push (job : QueuedJob) : m Unit := do
  let won ← match job.uniqueKey with
    | some key => setIfAbsent (.uniq key) job.id 86400000000000
    | none     => pure true
  if won then
    set (Held.new job)
    let _ ← zadd (.ready job.queue) (readyScore job) job.id

/-- One candidate of a pull: claim it, load it, and lease it unless its serial slot is taken. -/
def pullOne (serial : List String) (lease : ℕ) (worker : WorkerId) (until' : ℤ)
    (queue : String) (id : JobId) : m (Option (QueuedJob × Lease)) := do
  -- `zrem` returning 1 is the claim: exactly one caller gets it
  if (← zrem (.ready queue) id) ≠ 1 then
    return none
  let some held ← get id | return none
  if held.job.name ∈ serial then
    if !(← claimSerial held.job.name id lease) then
      let _ ← zadd (.ready queue) (readyScore held.job) id
      return none
  let token ← newV4
  let held := held.lease worker until' token
  set held
  let _ ← zadd (.leased queue) (timestampMillis until') id
  return some (held.job, { jobId := id, token := token, expiresAt := until' })

/-- The candidates of one queue, in order. -/
def pullCandidates (serial : List String) (lease : ℕ) (worker : WorkerId) (until' : ℤ)
    (queue : String) :
    List JobId → List (QueuedJob × Lease) → m (List (QueuedJob × Lease))
  | [], leased => pure leased
  | id :: ids, leased => do
    let got ← pullOne serial lease worker until' queue id
    pullCandidates serial lease worker until' queue ids (leased ++ got.toList)

/-- The queues, in order, until `limit` jobs are leased. -/
def pullQueues (serial : List String) (limit lease : ℕ) (worker : WorkerId) (until' : ℤ)
    (ceiling : ℤ) :
    List String → List (QueuedJob × Lease) → m (List (QueuedJob × Lease))
  | [], leased => pure leased
  | queue :: queues, leased => do
    if limit ≤ leased.length then
      pure leased
    else
      let candidates ← zrangeByScore (.ready queue) ceiling (limit - leased.length)
      let leased ← pullCandidates serial lease worker until' queue candidates leased
      pullQueues serial limit lease worker until' ceiling queues leased

/-- Lease up to `limit` jobs from `queues`: those whose score is at most the present instant. -/
def pull (serial : List String) (queues : List String) (limit lease : ℕ) (worker : WorkerId) :
    m (List (QueuedJob × Lease)) := do
  let now ← utcNow
  pullQueues serial limit lease worker (now + fromStd lease) (timestampMillis now) queues []

/-- End an attempt in failure: back to the ready set at `runAt`, or to the dead letters. -/
def nack (serial : List String) (lease : Lease) (error : String) (runAt : Option ℤ) :
    m (Except Error Unit) := do
  let some held ← get lease.jobId | return .ok ()
  if held.token ≠ some lease.token then
    return .error (reclaimed lease.jobId)
  let _ ← zrem (.leased held.job.queue) lease.jobId
  let held := { held with
    token := none
    job := { held.job with lockedUntil := none, lastError := some error } }
  releaseSerial serial held
  match runAt with
  | some at' =>
    let held := { held with
      job := { held.job with state := .retrying, attempt := held.job.attempt + 1, runAt := at' } }
    set held
    let _ ← zadd (.ready held.job.queue) (readyScore held.job) lease.jobId
  | none =>
    let now ← utcNow
    let held := { held with
      job := { held.job with state := .dead }
      failedAt := some now }
    if let some key := held.job.uniqueKey then
      deleteMarker (.uniq key)
    set held
    let _ ← zadd .dead (timestampMillis now) lease.jobId
  return .ok ()

/-- End an attempt in success. Finished rows are not kept. -/
def ack (serial : List String) (lease : Lease) : m (Except Error Unit) := do
  let some held ← get lease.jobId | return .ok ()
  if held.token ≠ some lease.token then
    return .error (reclaimed lease.jobId)
  let _ ← zrem (.leased held.job.queue) lease.jobId
  if let some key := held.job.uniqueKey then
    deleteMarker (.uniq key)
  releaseSerial serial held
  set { held with
    token := none
    job := { held.job with state := .done, lockedUntil := none } }
  deleteBlob lease.jobId
  return .ok ()

/-- Keep a lease for another `extend` from now, and the serial slot with it. -/
def heartbeat (serial : List String) (lease : Lease) (extend : ℕ) : m (Except Error Unit) := do
  let some held ← get lease.jobId | return .error (reclaimed lease.jobId)
  if held.token ≠ some lease.token then
    return .error (reclaimed lease.jobId)
  let now ← utcNow
  let until' := now + fromStd extend
  if held.job.name ∈ serial then
    let _ ← expire (.serial held.job.name) (max extend 1000000000)
  set { held with job := { held.job with lockedUntil := some until' } }
  let _ ← zadd (.leased held.job.queue) (timestampMillis until') lease.jobId
  return .ok ()

/-- One candidate of a reclaim: take its lease away and make it ready at `now`. -/
def reclaimOne (serial : List String) (now : ℤ) (queue : String) (id : JobId) : m Bool := do
  if (← zrem (.leased queue) id) ≠ 1 then
    return false
  let some held ← get id | return false
  let held := { held with
    token := none
    job := { held.job with state := .ready, lockedBy := none, lockedUntil := none, runAt := now } }
  releaseSerial serial held
  set held
  let _ ← zadd (.ready queue) (readyScore held.job) id
  return true

/-- The candidates of one queue, in order, counting those reclaimed. -/
def reclaimMembers (serial : List String) (now : ℤ) (queue : String) : List JobId → ℕ → m ℕ
  | [], count => pure count
  | id :: ids, count => do
    let got ← reclaimOne serial now queue id
    reclaimMembers serial now queue ids (if got then count + 1 else count)

def reclaimQueues (serial : List String) (now : ℤ) : List String → ℕ → m ℕ
  | [], count => pure count
  | queue :: queues, count => do
    let members ← zrangeByScore (.leased queue) (timestampMillis now) 1000
    let count ← reclaimMembers serial now queue members count
    reclaimQueues serial now queues count

/-- Take every lease that has run out away from its worker, and count them. -/
def reclaim (serial : List String) (queues : List String) : m ℕ := do
  let now ← utcNow
  reclaimQueues serial now queues 0

/-- Stop a job that still has work ahead of it, whoever is running it; and whether there was one. -/
def cancel (serial : List String) (id : JobId) : m Bool := do
  let some held ← get id | return false
  if !held.job.state.isActive then
    return false
  let _ ← zrem (.ready held.job.queue) id
  let _ ← zrem (.leased held.job.queue) id
  releaseSerial serial held
  set { held with token := none, job := { held.job with state := .cancelled } }
  return true

/-! ### Dead letters -/

/-- The letters of those jobs that still have their blob. -/
def loadLetters : List JobId → m (List DeadLetter)
  | [] => pure []
  | id :: ids => do
    let held ← get id
    let letters ← loadLetters ids
    return (held.map deadLetter).toList ++ letters

/-- The page of the matching letters that starts at `start`, newest failure first, and where the
next one starts. -/
def list (filter : DlqFilter) (start limit : ℕ) : m (List DeadLetter × Option ℕ) := do
  let ids ← members .dead u32Max
  let letters ← loadLetters ids
  let letters := (letters.insertionSort fun a b => b.failedAt ≤ a.failedAt).filter filter.matches
  let stop := min (start + limit) letters.length
  return ((letters.take stop).drop start, if stop < letters.length then some stop else none)

/-- Put one dead letter back to work. -/
def retryOne (letter : DeadLetter) : m Bool := do
  if (← zrem .dead letter.id) ≠ 1 then
    return false
  let some held ← get letter.id | return false
  let now ← utcNow
  let held := { held with
    token := none
    failedAt := none
    job := { held.job with state := .ready, attempt := 1, runAt := now, lastError := none } }
  set held
  let _ ← zadd (.ready held.job.queue) (readyScore held.job) letter.id
  return true

def retryLetters : List DeadLetter → ℕ → m ℕ
  | [], count => pure count
  | letter :: letters, count => do
    let got ← retryOne letter
    retryLetters letters (if got then count + 1 else count)

/-- Put up to `limit` dead letters back to work, and count them. -/
def retry (filter : DlqFilter) (limit : ℕ) : m ℕ := do
  let (letters, _) ← list filter 0 limit
  retryLetters letters 0

def discardLetters : List DeadLetter → ℕ → m ℕ
  | [], count => pure count
  | letter :: letters, count => do
    if (← zrem .dead letter.id) = 1 then
      deleteBlob letter.id
      discardLetters letters (count + 1)
    else
      discardLetters letters count

/-- Delete up to `limit` dead letters, and count them. -/
def discard (filter : DlqFilter) (limit : ℕ) : m ℕ := do
  let (letters, _) ← list filter 0 limit
  discardLetters letters 0

end RedisQueue

/-! ### The store on its own -/

/-- What the store holds, with the clock and the number of tokens drawn. A marker lapses at the
instant stored beside it. -/
structure RedisStore where
  now : ℤ
  tokens : ℕ
  blobs : JobId → Option Held
  sets : SetKey → ZSet JobId
  markers : MarkerKey → Option (JobId × ℤ)

namespace RedisStore

def empty (now : ℤ) : RedisStore :=
  { now := now, tokens := 0, blobs := fun _ => none, sets := fun _ => .empty,
    markers := fun _ => none }

/-- The marker a command at this instant sees. -/
def marker (s : RedisStore) (key : MarkerKey) : Option JobId :=
  match s.markers key with
  | none => none
  | some (id, expiresAt) => if expiresAt ≤ s.now then none else some id

def putBlob (s : RedisStore) (held : Held) : RedisStore :=
  { s with blobs := Function.update s.blobs held.job.id (some held) }

def dropBlob (s : RedisStore) (id : JobId) : RedisStore :=
  { s with blobs := Function.update s.blobs id none }

def putSet (s : RedisStore) (key : SetKey) (z : ZSet JobId) : RedisStore :=
  { s with sets := Function.update s.sets key z }

def putMarker (s : RedisStore) (key : MarkerKey) (v : Option (JobId × ℤ)) : RedisStore :=
  { s with markers := Function.update s.markers key v }

/-- One caller, nobody else, and no command fails. -/
instance : JobStore (StateM RedisStore) where
  utcNow := do return (← get).now
  newV4 := fun s => (s.tokens, { s with tokens := s.tokens + 1 })
  get id := do return (← get).blobs id
  set held := modify fun s => s.putBlob held
  deleteBlob id := modify fun s => s.dropBlob id
  zadd key score id := fun s =>
    let (added, z) := (s.sets key).zadd score id
    (added, s.putSet key z)
  zrangeByScore key hi limit := do return ((← get).sets key).zrangeByScore hi limit
  members key limit := do return ((← get).sets key).members limit
  zrem key id := fun s =>
    let (removed, z) := (s.sets key).zrem id
    (removed, s.putSet key z)
  setIfAbsent key id ttl := fun s =>
    match s.marker key with
    | some _ => (false, s)
    | none   => (true, s.putMarker key (some (id, s.now + ttl)))
  deleteMarker key := modify fun s => s.putMarker key none
  expire key ttl := fun s =>
    match s.marker key with
    | some id => (true, s.putMarker key (some (id, s.now + ttl)))
    | none    => (false, s)
  compareAndDelete key id := fun s =>
    if s.marker key = some id then (true, s.putMarker key none) else (false, s)

/-- Run a call from start to end with nobody else at the store. -/
def run {α : Type} (s : RedisStore) (call : StateM RedisStore α) : α × RedisStore := call s

end RedisStore

end Moso.Jobs
