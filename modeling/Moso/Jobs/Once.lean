import Moso.Foundation.Machine
import Mathlib.Logic.Function.Basic

/-!
# The once ledger

`JobCtx::once` on one key, over the key-value store. A call claims the key by setting it if it is
absent, or by swapping an orphaned claim for its own, then runs its body, and records the outcome
with a plain set. Every store command, every reading of the clock and the start and end of a body
is one step; any number of calls interleave. Times are nanoseconds.
-/

namespace Moso.Jobs

/-- `ONCE_ORPHAN_AFTER`: an hour. -/
def onceOrphanAfter : ℕ := 3600000000000

/-- One ledger entry, as the key-value store holds it. -/
structure OnceEntry (V : Type*) where
  /-- When the claim was taken. -/
  claimedAt : ℕ
  /-- What the body returned, once it did. -/
  outcome : Option V
  deriving DecidableEq, Repr

/-- Where one call of `once` is. -/
inductive OnceCall (V : Type*) where
  | idle
  /-- Has read the clock and is about to set the entry if it is absent. -/
  | claiming (now : ℕ)
  /-- The set found an entry. -/
  | reading (now : ℕ)
  /-- Read an orphaned claim, which it is about to swap for its own. -/
  | swapping (now : ℕ) (raw : OnceEntry V)
  /-- Got `Claim::Mine`; its body has not started. -/
  | mine
  /-- Its body is running. -/
  | running
  /-- Its body returned; about to set the entry. -/
  | recording (at' : ℕ) (outcome : V)
  | returned (outcome : V)
  /-- Returned an error: its own, its body's or the store's. -/
  | failed
  /-- The process died. -/
  | gone
  deriving DecidableEq, Repr

namespace OnceCall

variable {V : Type*}

/-- The call has neither returned nor died. -/
def isOpen : OnceCall V → Bool
  | .idle | .claiming _ | .reading _ | .swapping _ _ | .mine | .running | .recording _ _ => true
  | .returned _ | .failed | .gone => false

/-- The attempt ended in an error or a crash. -/
def isLost : OnceCall V → Bool
  | .failed | .gone => true
  | .idle | .claiming _ | .reading _ | .swapping _ _ | .mine | .running | .recording _ _
  | .returned _ => false

end OnceCall

/-- The clock, the ledger's entry and the calls. The rest is a record: who made the claim that
stands, whose bodies started when, what outcomes were recorded, and which outcome a call found
when it began. -/
structure OnceState (ι V : Type*) where
  now : ℕ
  entry : Option (OnceEntry V)
  call : ι → OnceCall V
  holder : Option ι
  starts : List (ι × ℕ)
  outcomes : List V
  begun : ι → Option V

/-- The steps of the calls and of the environment. -/
inductive OnceEvent (ι V : Type*) where
  /-- `Utc::now` in `claim_in_kv`. -/
  | begin (c : ι)
  /-- `set` with `if_absent`. -/
  | claim (c : ι)
  /-- `get`, and what follows from the entry. -/
  | read (c : ι)
  /-- `compare_and_swap`. -/
  | swap (c : ι)
  /-- The body starts. -/
  | start (c : ι)
  /-- The body returns, and the clock is read for the record. -/
  | finish (c : ι) (outcome : V)
  /-- The `set` of `record`. -/
  | record (c : ι)
  /-- The body, the encoding or the store fails. -/
  | fail (c : ι)
  | crash (c : ι)
  | tick (d : ℕ)

namespace OnceState

variable {ι V : Type*} [DecidableEq ι] [DecidableEq V]

/-- No call has begun, and the key was never claimed. -/
def init (now : ℕ) : OnceState ι V :=
  { now := now, entry := none, call := fun _ => .idle, holder := none, starts := [],
    outcomes := [], begun := fun _ => none }

def setCall (s : OnceState ι V) (c : ι) (v : OnceCall V) : OnceState ι V :=
  { s with call := Function.update s.call c v }

/-- The outcome the ledger holds. -/
def outcome (s : OnceState ι V) : Option V := s.entry.bind fun entry => entry.outcome

/-- What `claim_in_kv` makes of the entry it read, when its own clock reading is `now`. -/
def afterRead (now : ℕ) : Option (OnceEntry V) → OnceCall V
  | none => .failed
  | some entry =>
    match entry.outcome with
    | some outcome => .returned outcome
    | none =>
      -- a claim from the future has the age zero
      if onceOrphanAfter ≤ now - entry.claimedAt then .swapping now entry else .failed

/-- `once`, one command at a time. -/
def step (s : OnceState ι V) : OnceEvent ι V → Option (OnceState ι V)
  | .begin c =>
    match s.call c with
    | .idle =>
      some { s.setCall c (.claiming s.now) with begun := Function.update s.begun c s.outcome }
    | _ => none
  | .claim c =>
    match s.call c with
    | .claiming now =>
      match s.entry with
      | none =>
        some { s.setCall c .mine with entry := some ⟨now, none⟩, holder := some c }
      | some _ => some (s.setCall c (.reading now))
    | _ => none
  | .read c =>
    match s.call c with
    | .reading now => some (s.setCall c (afterRead now s.entry))
    | _ => none
  | .swap c =>
    match s.call c with
    | .swapping now raw =>
      if s.entry = some raw then
        some { s.setCall c .mine with entry := some ⟨now, none⟩, holder := some c }
      else some (s.setCall c .failed)
    | _ => none
  | .start c =>
    match s.call c with
    | .mine => some { s.setCall c .running with starts := s.starts ++ [(c, s.now)] }
    | _ => none
  | .finish c outcome =>
    match s.call c with
    | .running => some (s.setCall c (.recording s.now outcome))
    | _ => none
  | .record c =>
    match s.call c with
    | .recording at' outcome =>
      some { s.setCall c (.returned outcome) with
        entry := some ⟨at', some outcome⟩, outcomes := s.outcomes ++ [outcome] }
    | _ => none
  | .fail c => if (s.call c).isOpen then some (s.setCall c .failed) else none
  | .crash c => if (s.call c).isOpen then some (s.setCall c .gone) else none
  | .tick d => some { s with now := s.now + d }

end OnceState

end Moso.Jobs
