import Moso.Kv.Flight
import Mathlib.Data.List.AList
import Mathlib.Data.Fintype.Basic

/-!
# Single flight

`SingleFlight::run` by itself, for any number of callers and keys: the map of slots, the slots'
`OnceCell`s, the sweep, and the futures that are dropped before they finish. Between two of its
awaits `run` only takes the lock of the map, so a future is dropped while it waits for the value of
its slot or while it computes, and dropping it drops its handle and its permit.

`OnceCell::get_or_try_init` lets one caller compute at a time, hands its value to the others when
it succeeds, and lets a next one compute when it fails or is dropped.
-/

namespace Moso.Kv

/-- Where one call of `SingleFlight::run` is. -/
inductive RunCall (V E : Type*) where
  /-- Not polled yet. -/
  | idle
  /-- In `get_or_try_init`, waiting for the value or for the permit. -/
  | waiting (slot : ℕ)
  /-- In the closure, with the permit. -/
  | computing (slot : ℕ)
  /-- About to drop the handle, and then to sweep. -/
  | dropping (slot : ℕ) (outcome : Except E V)
  | sweeping (outcome : Except E V)
  | done (outcome : Except E V)
  /-- Its future was dropped before it finished. -/
  | dropped

namespace RunCall

variable {V E : Type*}

/-- The slot that the call holds a handle of. -/
def slot? : RunCall V E → Option ℕ
  | waiting k | computing k | dropping k _ => some k
  | idle | sweeping _ | done _ | dropped => none

/-- The slot whose permit the call has. -/
def computes : RunCall V E → Option ℕ
  | computing k => some k
  | _ => none

/-- The slot whose value the call waits for or computes. -/
def joined : RunCall V E → Option ℕ
  | waiting k | computing k => some k
  | _ => none

/-- The call has been polled, and has neither returned nor been dropped. -/
def inProgress : RunCall V E → Bool
  | waiting _ | computing _ | dropping _ _ | sweeping _ => true
  | idle | done _ | dropped => false

end RunCall

/-- What happens next. -/
inductive FlightEvent (ι V E : Type*) where
  /-- The call is polled for the first time and joins the slot of its key, or creates one. -/
  | begin_ (c : ι)
  /-- It finds the slot's value. -/
  | find (c : ι)
  /-- It gets the slot's permit, and calls its closure. -/
  | acquire (c : ι)
  /-- Its closure returns. -/
  | finish (c : ι) (outcome : Except E V)
  /-- It drops its handle. -/
  | leave (c : ι)
  | sweep (c : ι)
  /-- Its future is dropped. -/
  | drop (c : ι)

/-- The map of the slots, the slots, and the calls. A slot is known by the order in which it was
allocated. -/
structure SingleFlight (K ι V E : Type*) where
  /-- `slots`: a `Weak` for each key. -/
  weak : AList fun _ : K => ℕ
  slots : ℕ → Slot ι V
  /-- The next slot to be allocated. -/
  fresh : ℕ
  /-- How many callers joined a slot. -/
  shared : ℕ
  call : ι → RunCall V E
  /-- The error of a computation, for each of the callers that had joined its flight. -/
  owed : ι → Option E

namespace SingleFlight

variable {K ι V E : Type*} [DecidableEq K] [DecidableEq ι]

/-- Nothing in flight. -/
def new : SingleFlight K ι V E where
  weak := ∅
  slots := fun _ => ⟨∅, none, none⟩
  fresh := 0
  shared := 0
  call := fun _ => .idle
  owed := fun _ => none

def inFlight (s : SingleFlight K ι V E) : ℕ := s.weak.keys.length

def setCall (s : SingleFlight K ι V E) (c : ι) (v : RunCall V E) : SingleFlight K ι V E :=
  { s with call := Function.update s.call c v }

def setSlot (s : SingleFlight K ι V E) (k : ℕ) (slot : Slot ι V) : SingleFlight K ι V E :=
  { s with slots := Function.update s.slots k slot }

omit [DecidableEq K] in
@[simp] lemma setCall_call (s : SingleFlight K ι V E) (c : ι) (v : RunCall V E) :
    (s.setCall c v).call = Function.update s.call c v := rfl

omit [DecidableEq K] in
@[simp] lemma setCall_weak (s : SingleFlight K ι V E) (c : ι) (v : RunCall V E) :
    (s.setCall c v).weak = s.weak := rfl

/-- `Weak::upgrade` of the slot of the key: somebody must hold it. -/
def upgrade (s : SingleFlight K ι V E) (key : K) : Option ℕ :=
  (s.weak.lookup key).filter fun k => decide (s.slots k).holders.Nonempty

def slot (s : SingleFlight K ι V E) (key : K) (c : ι) : SingleFlight K ι V E :=
  match s.upgrade key with
  | some k =>
    let slot := s.slots k
    { (s.setSlot k { slot with holders := insert c slot.holders }).setCall c (.waiting k) with
      shared := s.shared + 1 }
  | none =>
    { (s.setSlot s.fresh ⟨{c}, none, none⟩).setCall c (.waiting s.fresh) with
      weak := s.weak.insert key s.fresh, fresh := s.fresh + 1 }

/-- Forget `key` when nothing holds its slot any more. -/
def sweep (s : SingleFlight K ι V E) (key : K) : SingleFlight K ι V E :=
  match s.weak.lookup key with
  | some k =>
    if (s.slots k).holders.card = 0 then { s with weak := s.weak.erase key } else s
  | none => s

/-- The handle of the slot is dropped, and the permit with it. -/
def release (s : SingleFlight K ι V E) (k : ℕ) (c : ι) : SingleFlight K ι V E :=
  let slot := s.slots k
  s.setSlot k { slot with
    holders := slot.holders.erase c
    permit := if slot.permit = some c then none else slot.permit }

omit [DecidableEq K] in
@[simp] lemma release_call (s : SingleFlight K ι V E) (k : ℕ) (c : ι) :
    (s.release k c).call = s.call := rfl

omit [DecidableEq K] in
@[simp] lemma release_weak (s : SingleFlight K ι V E) (k : ℕ) (c : ι) :
    (s.release k c).weak = s.weak := rfl

/-- Whoever has joined the flight is to get the error. -/
def owe (s : SingleFlight K ι V E) (k : ℕ) (e : E) : SingleFlight K ι V E :=
  { s with
    owed := fun c => if (s.call c).joined = some k then some ((s.owed c).getD e) else s.owed c }

/-- The call `c` is for the key `key c`. -/
def step (key : ι → K) (s : SingleFlight K ι V E) :
    FlightEvent ι V E → Option (SingleFlight K ι V E)
  | .begin_ c =>
    match s.call c with
    | .idle => some (s.slot (key c) c)
    | _ => none
  | .find c =>
    match s.call c with
    | .waiting k => (s.slots k).value.map fun v => s.setCall c (.dropping k (.ok v))
    | _ => none
  | .acquire c =>
    match s.call c with
    | .waiting k =>
      if (s.slots k).value.isNone ∧ (s.slots k).permit.isNone then
        some ((s.setSlot k { s.slots k with permit := some c }).setCall c (.computing k))
      else none
    | _ => none
  | .finish c outcome =>
    match s.call c, outcome with
    | .computing k, .ok v =>
      some ((s.setSlot k { s.slots k with value := some v, permit := none }).setCall c
        (.dropping k (.ok v)))
    | .computing k, .error e =>
      some (((s.owe k e).setSlot k { s.slots k with permit := none }).setCall c
        (.dropping k (.error e)))
    | _, _ => none
  | .leave c =>
    match s.call c with
    | .dropping k outcome => some ((s.release k c).setCall c (.sweeping outcome))
    | _ => none
  | .sweep c =>
    match s.call c with
    | .sweeping outcome => some ((s.sweep (key c)).setCall c (.done outcome))
    | _ => none
  | .drop c =>
    match s.call c with
    | .waiting k | .computing k => some ((s.release k c).setCall c .dropped)
    | _ => none

/-! ### What the callers rely on -/

/-- Whoever had joined a flight when it failed computes nothing, and returns that error. -/
def Delivers (s : SingleFlight K ι V E) : Prop :=
  ∀ c e, s.owed c = some e →
    (s.call c).computes = none ∧ ∀ outcome, s.call c = .done outcome → outcome = .error e

/-- A key that no call is for has no entry, and without calls the map is empty. -/
def Forgets (key : ι → K) (s : SingleFlight K ι V E) : Prop :=
  (∀ k, (∀ c, key c = k → (s.call c).inProgress = false) → s.weak.lookup k = none) ∧
    ((∀ c, (s.call c).inProgress = false) → s.inFlight = 0)

/-- A computation fails when nobody else has joined its flight. -/
def FailsAlone (s : SingleFlight K ι V E) : FlightEvent ι V E → Prop
  | .finish c (.error _) => ∀ d, d ≠ c → (s.call d).joined ≠ (s.call c).joined
  | _ => True

/-- A future is dropped when another call for its key is in progress. -/
def Accompanied (key : ι → K) (s : SingleFlight K ι V E) : FlightEvent ι V E → Prop
  | .drop c => ∃ d, d ≠ c ∧ key d = key c ∧ (s.call d).inProgress = true
  | _ => True

instance [Fintype ι] (s : SingleFlight K ι V E) :
    ∀ event : FlightEvent ι V E, Decidable (s.FailsAlone event)
  | .finish c (.error _) =>
    inferInstanceAs (Decidable (∀ d, d ≠ c → (s.call d).joined ≠ (s.call c).joined))
  | .finish _ (.ok _) | .begin_ _ | .find _ | .acquire _ | .leave _ | .sweep _ | .drop _ =>
    isTrue trivial

instance [Fintype ι] (key : ι → K) (s : SingleFlight K ι V E) :
    ∀ event : FlightEvent ι V E, Decidable (s.Accompanied key event)
  | .drop c =>
    inferInstanceAs (Decidable (∃ d, d ≠ c ∧ key d = key c ∧ (s.call d).inProgress = true))
  | .finish _ _ | .begin_ _ | .find _ | .acquire _ | .leave _ | .sweep _ => isTrue trivial

end SingleFlight

end Moso.Kv
