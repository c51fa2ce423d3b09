import Moso.Jobs.Redis
import Moso.Foundation.Machine
import Moso.Foundation.Program

/-!
# Workers that share the Redis queue

The calls of the queue as programs over its store commands, and any number of workers that run
them against one store. A step of the fleet is one command, which the store carries out in one
piece; between two commands of a call anything may happen, and a call may stop for good after any
of them. A call has returned once no command of it is left.

Beside the store, a record is kept of what the calls did: which jobs are still owed, who leased
each job last, which jobs are completed, and whether a call reached past its lease.
-/

namespace Moso.Jobs

/-- What a call asks of the store, of the clock and of the token generator. -/
inductive StoreCmd where
  | utcNow
  | newV4
  | get (id : JobId)
  | set (held : Held)
  | deleteBlob (id : JobId)
  | zadd (key : SetKey) (score : ℤ) (id : JobId)
  | zrangeByScore (key : SetKey) (hi : ℤ) (limit : ℕ)
  | members (key : SetKey) (limit : ℕ)
  | zrem (key : SetKey) (id : JobId)
  | setIfAbsent (key : MarkerKey) (id : JobId) (ttl : ℕ)
  | deleteMarker (key : MarkerKey)
  | expire (key : MarkerKey) (ttl : ℕ)
  | compareAndDelete (key : MarkerKey) (id : JobId)

namespace StoreCmd

abbrev Answer : StoreCmd → Type
  | utcNow => ℤ
  | newV4 => Token
  | get _ => Option Held
  | set _ | deleteBlob _ | deleteMarker _ => Unit
  | zadd .. | zrem .. => ℕ
  | zrangeByScore .. | members .. => List JobId
  | setIfAbsent .. | expire .. | compareAndDelete .. => Bool

/-- What the store makes of a command. -/
def exec : (c : StoreCmd) → StateM RedisStore c.Answer
  | utcNow => JobStore.utcNow
  | newV4 => JobStore.newV4
  | get id => JobStore.get id
  | set held => JobStore.set held
  | deleteBlob id => JobStore.deleteBlob id
  | zadd key score id => JobStore.zadd key score id
  | zrangeByScore key hi limit => JobStore.zrangeByScore key hi limit
  | members key limit => JobStore.members key limit
  | zrem key id => JobStore.zrem key id
  | setIfAbsent key id ttl => JobStore.setIfAbsent key id ttl
  | deleteMarker key => JobStore.deleteMarker key
  | expire key ttl => JobStore.expire key ttl
  | compareAndDelete key id => JobStore.compareAndDelete key id

/-- The command writes the blob of the job, or its membership in a set. -/
def touches (id : JobId) : StoreCmd → Bool
  | set held => held.job.id = id
  | deleteBlob other | zadd _ _ other | zrem _ other => other = id
  | _ => false

end StoreCmd

abbrev StoreProgram : Type → Type := Program StoreCmd StoreCmd.Answer

open Program (command) in
instance : JobStore StoreProgram where
  utcNow := command StoreCmd.utcNow
  newV4 := command StoreCmd.newV4
  get id := command (StoreCmd.get id)
  set held := command (StoreCmd.set held)
  deleteBlob id := command (StoreCmd.deleteBlob id)
  zadd key score id := command (StoreCmd.zadd key score id)
  zrangeByScore key hi limit := command (StoreCmd.zrangeByScore key hi limit)
  members key limit := command (StoreCmd.members key limit)
  zrem key id := command (StoreCmd.zrem key id)
  setIfAbsent key id ttl := command (StoreCmd.setIfAbsent key id ttl)
  deleteMarker key := command (StoreCmd.deleteMarker key)
  expire key ttl := command (StoreCmd.expire key ttl)
  compareAndDelete key id := command (StoreCmd.compareAndDelete key id)

namespace QueueCall

/-- The program of a call; what it returns plays no part here. -/
def program (serial : List String) : QueueCall → StoreProgram Unit
  | push job                        => RedisQueue.push job
  | pull queues limit lease worker  => do let _ ← RedisQueue.pull serial queues limit lease worker
  | ack lease                       => do let _ ← RedisQueue.ack serial lease
  | nack lease error runAt          => do let _ ← RedisQueue.nack serial lease error runAt
  | heartbeat lease extend          => do let _ ← RedisQueue.heartbeat serial lease extend
  | reclaim queues                  => do let _ ← RedisQueue.reclaim serial queues
  | cancel id                       => do let _ ← RedisQueue.cancel serial id
  | retry filter limit              => do let _ ← RedisQueue.retry filter limit
  | discard filter limit            => do let _ ← RedisQueue.discard filter limit

/-- The lease a call presents. -/
def lease? : QueueCall → Option Lease
  | ack lease | nack lease _ _ | heartbeat lease _ => some lease
  | _ => none

end QueueCall

/-- What a running call has in hand: the job it took out of its set and did not put back yet, and
the job whose blob it read and is not through with, with the token it found there. -/
structure Hand where
  holding : Option JobId
  seen : Option (JobId × Option Token)
  deriving DecidableEq

namespace Hand

def empty : Hand := { holding := none, seen := none }

/-- What is in hand after an answer. -/
def after (call : QueueCall) (h : Hand) : (c : StoreCmd) → c.Answer → Hand
  | .zrem _ id, n => if n = 1 then { h with holding := some id } else h
  | .get id, some held => { h with seen := some (id, held.token) }
  | .get _, none | .zadd .., _ | .deleteBlob _, _ => empty
  | .set _, _ =>
    match call with
    | .cancel _ => empty
    | _         => h
  | _, _ => h

end Hand

/-- What was done so far. -/
structure Record where
  /-- The job was stored by a push, and was not acked, buried or cancelled since. -/
  live : JobId → Bool
  /-- The token of the last lease a pull made of the job. -/
  newest : JobId → Option Token
  /-- The job was acked, and was not pushed again since. -/
  completed : JobId → Bool
  /-- A call whose token is not that of the last lease wrote to the job. -/
  trespassed : Bool
  /-- A call other than a push put a completed job on a ready set. -/
  revived : Bool

namespace Record

def init : Record :=
  { live := fun _ => false, newest := fun _ => none, completed := fun _ => false,
    trespassed := false, revived := false }

def setLive (r : Record) (id : JobId) (v : Bool) : Record :=
  { r with live := Function.update r.live id v }

def setCompleted (r : Record) (id : JobId) (v : Bool) : Record :=
  { r with completed := Function.update r.completed id v }

/-- The command writes to a job whose last lease is not the one that the call presents. -/
def oversteps (r : Record) (call : QueueCall) (c : StoreCmd) : Bool :=
  call.lease?.any fun lease =>
    c.touches lease.jobId && decide (r.newest lease.jobId ≠ some lease.token)

/-- What a command of a call adds. -/
def note (r : Record) (call : QueueCall) (c : StoreCmd) : Record :=
  let r := { r with trespassed := r.trespassed || r.oversteps call c }
  match c with
  | .set held =>
    match call with
    | .push _   => r.setCompleted held.job.id false
    | .pull ..  => { r with newest := Function.update r.newest held.job.id held.token }
    | .cancel _ => r.setLive held.job.id false
    | _         => r
  | .zadd .dead _ id => r.setLive id false
  | .zadd (.ready _) _ id =>
    match call with
    | .push _ => r.setLive id true
    | _       => { r with revived := r.revived || r.completed id }
  | .deleteBlob id => (r.setLive id false).setCompleted id true
  | _ => r

end Record

/-- A call that has begun and not returned. -/
structure Worker where
  call : QueueCall
  hand : Hand
  rest : StoreProgram Unit

/-- The store, the calls that are running, and the record. -/
structure RedisFleet (ι : Type) where
  store : RedisStore
  running : ι → Option Worker
  record : Record

inductive RedisFleetEvent (ι : Type) where
  /-- A call begins. -/
  | start (i : ι) (call : QueueCall)
  /-- A call asks its next command. -/
  | run (i : ι)
  /-- A call ends early: the store failed, or the process died. -/
  | stop (i : ι)
  | tick (d : ℕ)

namespace RedisFleet

variable {ι : Type} [DecidableEq ι]

def init (now : ℤ) : RedisFleet ι :=
  { store := .empty now, running := fun _ => none, record := .init }

/-- The calls of workers and of those who push. A row keeps the queue it is on, also when it is
pushed once more. -/
def Admits (queueOf : JobId → String) : QueueCall → Prop
  | .push job => job.IsNew ∧ job.queue = queueOf job.id
  | .retry .. | .discard .. => False
  | _ => True

instance decidableAdmits (queueOf : JobId → String) : ∀ call, Decidable (Admits queueOf call)
  | .push job => inferInstanceAs (Decidable (job.IsNew ∧ job.queue = queueOf job.id))
  | .retry .. | .discard .. => isFalse id
  | .pull .. | .ack .. | .nack .. | .heartbeat .. | .reclaim .. | .cancel .. => isTrue trivial

/-- The call goes on with the rest of its program, or has returned. -/
def goOn (call : QueueCall) (hand : Hand) : StoreProgram Unit → Option Worker
  | .done _ => none
  | rest    => some { call := call, hand := hand, rest := rest }

def put (s : RedisFleet ι) (i : ι) (w : Option Worker) : RedisFleet ι :=
  { s with running := Function.update s.running i w }

/-- One command of the call `w`, which runs as `i`. -/
def ran (s : RedisFleet ι) (i : ι) (w : Worker) (c : StoreCmd)
    (next : c.Answer → StoreProgram Unit) : RedisFleet ι :=
  let (answer, store) := s.store.run c.exec
  { s with store := store, record := s.record.note w.call c }.put i
    (goOn w.call (w.hand.after w.call c answer) (next answer))

def step (serial : List String) (queueOf : JobId → String) (s : RedisFleet ι) :
    RedisFleetEvent ι → Option (RedisFleet ι)
  | .start i call =>
    if s.running i = none ∧ Admits queueOf call then
      some (s.put i (goOn call .empty (call.program serial)))
    else none
  | .run i =>
    match s.running i with
    | none => none
    | some w =>
      match w.rest with
      | .done _ => none
      | .ask c next => some (s.ran i w c next)
  | .stop i => if s.running i = none then none else some (s.put i none)
  | .tick d => some { s with store := { s.store with now := s.store.now + d } }

end RedisFleet

end Moso.Jobs
