import Moso.Foundation.Machine
import Moso.Foundation.Word
import Mathlib.Logic.Function.Basic

/-!
# Distributed locks

The callers of `Kv::lock_with` on one lock name, over an atomic store. A caller draws its fencing
token from the counter beside the lock, then attempts to set the lock if it is absent until it
succeeds or its wait runs out. Any number of callers interleave with releases, renewals, lease
expiries and crashes. Times are nanoseconds of one clock.
-/

namespace Moso.Kv

/-- How to take a lock. -/
structure LockOptions where
  lease : ℕ
  wait : ℕ
  retryInterval : ℕ
  autoRenew : Bool
  deriving DecidableEq, Repr

namespace LockOptions

/-- The defaults for a lease of `lease`: one attempt, auto-renewal on. -/
def new (lease : ℕ) : LockOptions :=
  { lease := lease, wait := 0, retryInterval := 50000000, autoRenew := true }

end LockOptions

/-- What the lock's key holds: the owner's token and the instant the lease runs out. The source
stores the decimal text of the token, which is equal exactly when the token is. -/
abbrev LockEntry := Option (ℤ × ℕ)

namespace LockEntry

/-- The entry a read at `now` sees: a lapsed lease is absent. -/
def live (now : ℕ) : LockEntry → LockEntry
  | none => none
  | some (token, expiresAt) => if expiresAt ≤ now then none else some (token, expiresAt)

/-- `set` with `if_absent` and a TTL. -/
def setIfAbsent (now : ℕ) (token : ℤ) (ttl : ℕ) (e : LockEntry) : Bool × LockEntry :=
  match e.live now with
  | none   => (true, some (token, now + ttl))
  | some _ => (false, e)

/-- `compare_and_delete`. -/
def compareAndDelete (now : ℕ) (token : ℤ) (e : LockEntry) : Bool × LockEntry :=
  match e.live now with
  | some (held, _) => if held = token then (true, none) else (false, e)
  | none           => (false, e)

/-- `compare_and_expire`. -/
def compareAndExpire (now : ℕ) (token : ℤ) (ttl : ℕ) (e : LockEntry) : Bool × LockEntry :=
  match e.live now with
  | some (held, _) => if held = token then (true, some (token, now + ttl)) else (false, e)
  | none           => (false, e)

/-- `ttl`: what is left of the lease. -/
def ttl (now : ℕ) (e : LockEntry) : Option ℕ :=
  (e.live now).map fun entry => entry.2 - now

end LockEntry

/-- Where one `lock_with` call is. -/
inductive LockCall where
  | idle
  /-- About to attempt the set. -/
  | attempting (token : ℤ) (deadline : ℕ) (o : LockOptions)
  /-- The set found the lock held. -/
  | denied (token : ℤ) (deadline : ℕ) (o : LockOptions)
  | sleeping (token : ℤ) (deadline : ℕ) (o : LockOptions) (wakeAt : ℕ)
  /-- Returned a guard. -/
  | holding (token : ℤ) (o : LockOptions)
  /-- Returned `LockHeld`. -/
  | refused (retryAfter : ℕ)
  /-- Returned the backend's error from `incr`. -/
  | failed
  /-- The guard was released, and whether the lock was still ours. -/
  | released (wasOurs : Bool)
  /-- The process died. -/
  | gone
  deriving DecidableEq, Repr

/-- The store, the clock and the callers. `drawn` and `acquired` record, in order, who drew a
token and who was given a guard with which token. -/
structure LockState (ι : Type*) where
  now : ℕ
  fence : ℤ
  lock : LockEntry
  call : ι → LockCall
  drawn : List ι
  acquired : List (ι × ℤ)

/-- The atomic steps of the callers and of the environment. -/
inductive LockEvent (ι : Type*) where
  /-- `incr` of the fencing counter, and the deadline. -/
  | draw (c : ι) (o : LockOptions)
  /-- One `set` with `if_absent`. -/
  | attempt (c : ι)
  /-- After a failed set: give up, or go to sleep. -/
  | check (c : ι)
  | wake (c : ι)
  /-- `LockGuard::renew`, or a round of the background renewer. -/
  | renew (c : ι)
  /-- `LockGuard::release`, or the release that a drop spawns. -/
  | release (c : ι)
  | crash (c : ι)
  | tick (d : ℕ)

namespace LockState

variable {ι : Type*} [DecidableEq ι]

/-- No call has started; the counter and the lock hold what earlier runs left there. -/
def init (now : ℕ) (fence : ℤ) (lock : LockEntry) : LockState ι :=
  { now := now, fence := fence, lock := lock, call := fun _ => .idle, drawn := [], acquired := [] }

def setCall (s : LockState ι) (c : ι) (v : LockCall) : LockState ι :=
  { s with call := Function.update s.call c v }

/-- `lock_with_inner`, one store command at a time. -/
def step (s : LockState ι) : LockEvent ι → Option (LockState ι)
  | .draw c o =>
    match s.call c with
    | .idle =>
      if s.fence + 1 ≤ i64Max then
        some { s.setCall c (.attempting (s.fence + 1) (s.now + o.wait) o) with
          fence := s.fence + 1, drawn := s.drawn ++ [c] }
      else
        some (s.setCall c .failed)
    | _ => none
  | .attempt c =>
    match s.call c with
    | .attempting token deadline o =>
      match s.lock.setIfAbsent s.now token o.lease with
      | (true, lock) =>
        some { s.setCall c (.holding token o) with
          lock := lock, acquired := s.acquired ++ [(c, token)] }
      | (false, lock) =>
        some { s.setCall c (.denied token deadline o) with lock := lock }
    | _ => none
  | .check c =>
    match s.call c with
    | .denied token deadline o =>
      if deadline ≤ s.now then
        some (s.setCall c (.refused ((s.lock.ttl s.now).getD o.retryInterval)))
      else
        some (s.setCall c (.sleeping token deadline o (s.now + o.retryInterval)))
    | _ => none
  | .wake c =>
    match s.call c with
    | .sleeping token deadline o wakeAt =>
      if wakeAt ≤ s.now then some (s.setCall c (.attempting token deadline o)) else none
    | _ => none
  | .renew c =>
    match s.call c with
    | .holding token o =>
      some { s with lock := (s.lock.compareAndExpire s.now token o.lease).2 }
    | _ => none
  | .release c =>
    match s.call c with
    | .holding token _ =>
      some { s.setCall c (.released (s.lock.compareAndDelete s.now token).1) with
        lock := (s.lock.compareAndDelete s.now token).2 }
    | _ => none
  | .crash c => some (s.setCall c .gone)
  | .tick d => some { s with now := s.now + d }

end LockState

end Moso.Kv
