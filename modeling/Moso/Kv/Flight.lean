import Moso.Foundation.Machine
import Mathlib.Algebra.BigOperators.Group.Finset.Basic
import Mathlib.Algebra.Order.BigOperators.Group.Finset
import Mathlib.Data.Finset.Card
import Mathlib.Data.Fintype.Card
import Mathlib.Logic.Function.Basic

/-!
# Single-flight cache fills

The callers of `Kv::get_or_insert_with` on one key: the read of the entry, `SingleFlight::run`
with its slot, the initialiser of the slot's `OnceCell`, and the sweep. The store is the key's
value alone; it keeps what is written, and its commands do not fail.

A slot's strong count is the number of callers that hold a handle of it, so the handles are a set
of callers. `OnceCell::get_or_try_init` gives its one permit to a caller that finds no value, takes
it back when the initialiser fails, and closes for good when it succeeds.
-/

namespace Moso.Kv

/-- How a namespace's values are stored: what was written at any instant reads back. -/
structure ValueCodec (V R : Type*) where
  encode : ℕ → V → R
  decode : R → Option V
  decode_encode : ∀ stamp v, decode (encode stamp v) = some v

/-- One in-flight computation. -/
structure Slot (ι V : Type*) where
  /-- Who holds a handle. -/
  holders : Finset ι
  value : Option V
  /-- Who runs the initialiser. -/
  permit : Option ι

/-- Where one `get_or_insert_with` call is. -/
inductive FlightCall (V E : Type*) where
  /-- About to read the entry. -/
  | reading
  /-- About to join the key's slot, or to create one. -/
  | joining
  /-- In `get_or_try_init`. -/
  | waiting (slot : ℕ)
  /-- In the initialiser: about to read the entry again, to compute and to write. -/
  | rechecking (slot : ℕ)
  | computing (slot : ℕ)
  | writing (slot : ℕ) (v : V)
  /-- The initialiser returned. -/
  | publishing (slot : ℕ) (v : V)
  | failing (slot : ℕ) (e : E)
  /-- About to drop the handle, and then to sweep. -/
  | dropping (slot : ℕ) (outcome : Except E V)
  | sweeping (outcome : Except E V)
  | done (outcome : Except E V)

/-- The key's value, the map's `Weak` for the key and the slots it may point to. `computed` records
who ran its closure. -/
structure FlightState (ι V R E : Type*) where
  store : Option R
  weak : Option ℕ
  slots : ℕ → Slot ι V
  /-- The next slot to be allocated. -/
  fresh : ℕ
  /-- How many callers joined a slot. -/
  shared : ℕ
  call : ι → FlightCall V E
  computed : List ι

namespace FlightState

variable {ι V R E : Type*} [DecidableEq ι]

/-- Nothing stored, nothing in flight. -/
def init : FlightState ι V R E :=
  { store := none, weak := none, slots := fun _ => ⟨∅, none, none⟩, fresh := 0, shared := 0,
    call := fun _ => .reading, computed := [] }

variable (codec : ValueCodec V R) (compute : ι → Except E V)

def setCall (s : FlightState ι V R E) (c : ι) (v : FlightCall V E) : FlightState ι V R E :=
  { s with call := Function.update s.call c v }

def setSlot (s : FlightState ι V R E) (k : ℕ) (slot : Slot ι V) : FlightState ι V R E :=
  { s with slots := Function.update s.slots k slot }

/-- `entry`: bytes that do not decode are a miss. -/
def entry (s : FlightState ι V R E) : Option V := s.store.bind codec.decode

/-- `Weak::upgrade` of the map's slot. -/
def upgrade (s : FlightState ι V R E) : Option ℕ :=
  s.weak.filter fun k => decide (s.slots k).holders.Nonempty

/-- `SingleFlight::slot`. -/
def slot (s : FlightState ι V R E) (c : ι) : FlightState ι V R E :=
  match s.upgrade with
  | some k =>
    let slot := s.slots k
    { (s.setSlot k { slot with holders := insert c slot.holders }).setCall c (.waiting k) with
      shared := s.shared + 1 }
  | none =>
    { (s.setSlot s.fresh ⟨{c}, none, none⟩).setCall c (.waiting s.fresh) with
      weak := some s.fresh, fresh := s.fresh + 1 }

/-- `SingleFlight::sweep`: forget the key's slot when nobody holds it. -/
def sweep (s : FlightState ι V R E) : FlightState ι V R E :=
  match s.weak with
  | some k => if (s.slots k).holders.card = 0 then { s with weak := none } else s
  | none   => s

/-- The next step of caller `c`, with the clock reading `stamp`. `compute c` is what its closure
returns. -/
def step (s : FlightState ι V R E) : ι × ℕ → Option (FlightState ι V R E)
  | (c, stamp) =>
    match s.call c with
    | .reading =>
      match s.entry codec with
      | some v => some (s.setCall c (.done (.ok v)))
      | none   => some (s.setCall c .joining)
    | .joining => some (s.slot c)
    | .waiting k =>
      match (s.slots k).value, (s.slots k).permit with
      | some v, _    => some (s.setCall c (.dropping k (.ok v)))
      | none, none   =>
        some ((s.setSlot k { s.slots k with permit := some c }).setCall c (.rechecking k))
      | none, some _ => none
    | .rechecking k =>
      match s.entry codec with
      | some v => some (s.setCall c (.publishing k v))
      | none   => some (s.setCall c (.computing k))
    | .computing k =>
      match compute c with
      | .ok v    => some { s.setCall c (.writing k v) with computed := s.computed ++ [c] }
      | .error e => some { s.setCall c (.failing k e) with computed := s.computed ++ [c] }
    | .writing k v =>
      some { s.setCall c (.publishing k v) with store := some (codec.encode stamp v) }
    | .publishing k v =>
      some ((s.setSlot k { s.slots k with value := some v, permit := none }).setCall c
        (.dropping k (.ok v)))
    | .failing k e =>
      some ((s.setSlot k { s.slots k with permit := none }).setCall c (.dropping k (.error e)))
    | .dropping k outcome =>
      some ((s.setSlot k { s.slots k with holders := (s.slots k).holders.erase c }).setCall c
        (.sweeping outcome))
    | .sweeping outcome => some (s.sweep.setCall c (.done outcome))
    | .done _ => none

end FlightState

end Moso.Kv

/-!
## One computation

Everybody who holds a slot holds the slot the map points to, and its one permit makes the
initialisers take turns. Whoever gets the permit reads the entry again, so nobody computes once
the value is written, and nobody gives the permit back between computing and writing.
-/

namespace Moso.Kv

namespace FlightCall

variable {V E : Type*}

/-- The slot the call holds a handle of. -/
def slot? : FlightCall V E → Option ℕ
  | waiting k | rechecking k | computing k | writing k _ | publishing k _ | failing k _
  | dropping k _ => some k
  | reading | joining | sweeping _ | done _ => none

/-- The slot whose initialiser the call runs. -/
def initialises : FlightCall V E → Option ℕ
  | rechecking k | computing k | writing k _ | publishing k _ | failing k _ => some k
  | _ => none

/-- The value the call has got hold of. -/
def value? : FlightCall V E → Option V
  | writing _ v | publishing _ v | dropping _ (.ok v) | sweeping (.ok v) | done (.ok v) => some v
  | _ => none

/-- The call is on its way to returning an error. -/
def failed : FlightCall V E → Bool
  | failing _ _ | dropping _ (.error _) | sweeping (.error _) | done (.error _) => true
  | _ => false

/-- How many steps the call has left at most. -/
def rank : FlightCall V E → ℕ
  | reading => 9
  | joining => 8
  | waiting _ => 7
  | rechecking _ => 6
  | computing _ => 5
  | writing _ _ => 4
  | publishing _ _ | failing _ _ => 3
  | dropping _ _ => 2
  | sweeping _ => 1
  | done _ => 0

lemma slot?_of_initialises {v : FlightCall V E} {k : ℕ} (h : v.initialises = some k) :
    v.slot? = some k := by
  cases v <;> first | exact h | cases h

end FlightCall

namespace FlightState

variable {ι V R E : Type*} [DecidableEq ι]

/-- Handles and permits are where the calls say, and all handles are of the slot in the map. -/
structure Handles (s : FlightState ι V R E) : Prop where
  holders : ∀ c k, c ∈ (s.slots k).holders ↔ (s.call c).slot? = some k
  permit : ∀ c k, (s.slots k).permit = some c ↔ (s.call c).initialises = some k
  weak : ∀ c k, (s.call c).slot? = some k → s.weak = some k
  fresh : ∀ c k, (s.call c).slot? = some k → k < s.fresh

variable {s s' : FlightState ι V R E} {c : ι} {v : FlightCall V E} {k : ℕ}

omit [DecidableEq ι] in
lemma handles_init : (init : FlightState ι V R E).Handles where
  holders c k := by simp [init, FlightCall.slot?]
  permit c k := by simp [init, FlightCall.initialises]
  weak c k h := by cases h
  fresh c k h := by cases h

omit [DecidableEq ι] in
/-- Only one caller at a time runs an initialiser. -/
lemma Handles.initialiser_unique (hs : s.Handles) {d : ι} {k' : ℕ}
    (hc : (s.call c).initialises = some k) (hd : (s.call d).initialises = some k') : c = d := by
  have hk := hs.weak c k (FlightCall.slot?_of_initialises hc)
  obtain rfl : k = k' :=
    Option.some.inj (hk.symm.trans (hs.weak d k' (FlightCall.slot?_of_initialises hd)))
  exact Option.some.inj (((hs.permit c k).mpr hc).symm.trans ((hs.permit d k).mpr hd))

section Steps

attribute [local grind =] Function.update_apply Finset.mem_insert Finset.mem_erase
  Finset.mem_singleton FlightCall.slot? FlightCall.initialises

/-- Moving a call on, with the same handle and the same permit. -/
lemma Handles.move (hs : s.Handles) (hcall : s'.call = Function.update s.call c v)
    (hslots : s'.slots = s.slots) (hweak : s'.weak = s.weak) (hfresh : s'.fresh = s.fresh)
    (hslot : v.slot? = (s.call c).slot?) (hinit : v.initialises = (s.call c).initialises) :
    s'.Handles := by
  obtain ⟨holders, permit, weak, fresh⟩ := hs
  constructor <;> simp only [hcall, hslots, hweak, hfresh] <;> grind

/-- Joining a slot that somebody holds, or creating one when nobody holds any. -/
lemma Handles.slot (hs : s.Handles) (hc : s.call c = .joining) : (s.slot c).Handles := by
  have hnone : s.upgrade = none → ∀ d, (s.call d).slot? = none := by
    intro hup d
    by_contra h
    obtain ⟨k, hk⟩ := Option.ne_none_iff_exists'.mp h
    have hmem := (hs.holders d k).mpr hk
    simp [upgrade, hs.weak d k hk, Finset.ne_empty_of_mem hmem] at hup
  have hsome : ∀ k, s.upgrade = some k → s.weak = some k ∧ ∃ d, (s.call d).slot? = some k := by
    intro k hup
    obtain ⟨hk, hne⟩ := Option.filter_eq_some_iff.mp hup
    obtain ⟨d, hd⟩ := of_decide_eq_true hne
    exact ⟨hk, d, (hs.holders d k).mp hd⟩
  obtain ⟨holders, permit, weak, fresh⟩ := hs
  unfold FlightState.slot
  split
  next k hup =>
    obtain ⟨hk, d, hd⟩ := hsome k hup
    constructor <;> simp only [setCall, setSlot] <;> grind
  next hup =>
    have hfree := hnone hup
    have hidle : ∀ d k, (s.call d).initialises ≠ some k := fun d k h => by
      simpa [hfree d] using FlightCall.slot?_of_initialises h
    constructor <;> simp only [setCall, setSlot] <;> grind

/-- Taking the free permit of the call's slot. -/
lemma Handles.acquire (hs : s.Handles) (hc : s.call c = .waiting k)
    (hfree : (s.slots k).permit = none) :
    ((s.setSlot k { s.slots k with permit := some c }).setCall c (.rechecking k)).Handles := by
  obtain ⟨holders, permit, weak, fresh⟩ := hs
  constructor <;> simp only [setCall, setSlot] <;> grind

/-- Giving the permit back at the end of the initialiser. -/
lemma Handles.release (hs : s.Handles) (hc : (s.call c).initialises = some k)
    (value : Option V) (outcome : Except E V) :
    ((s.setSlot k { s.slots k with value := value, permit := none }).setCall c
      (.dropping k outcome)).Handles := by
  have hslot := FlightCall.slot?_of_initialises hc
  have hunique : ∀ d k', (s.call d).initialises = some k' → c = d := fun d k' =>
    hs.initialiser_unique hc
  obtain ⟨holders, permit, weak, fresh⟩ := hs
  constructor <;> simp only [setCall, setSlot] <;> grind

/-- Dropping the handle. -/
lemma Handles.drop (hs : s.Handles) {outcome : Except E V} (hc : s.call c = .dropping k outcome) :
    ((s.setSlot k { s.slots k with holders := (s.slots k).holders.erase c }).setCall c
      (.sweeping outcome)).Handles := by
  obtain ⟨holders, permit, weak, fresh⟩ := hs
  constructor <;> simp only [setCall, setSlot] <;> grind

/-- Sweeping forgets a slot that nobody holds. -/
lemma Handles.sweep (hs : s.Handles) {outcome : Except E V} (hc : s.call c = .sweeping outcome) :
    (s.sweep.setCall c (.done outcome)).Handles := by
  obtain ⟨holders, permit, weak, fresh⟩ := hs
  unfold FlightState.sweep
  split
  next k hk =>
    split
    next hempty =>
      have hnobody : ∀ d, (s.call d).slot? ≠ some k := fun d hd => by
        have := (holders d k).mpr hd
        rw [Finset.card_eq_zero.mp hempty] at this
        exact Finset.notMem_empty d this
      constructor <;> simp only [setCall] <;> grind
    next => constructor <;> simp only [setCall] <;> grind
  next => constructor <;> simp only [setCall] <;> grind

/-- Every step keeps handles and permits where the calls say. -/
lemma Handles.step {codec : ValueCodec V R} {compute : ι → Except E V} {e : ι × ℕ}
    (hs : s.Handles) (h : s.step codec compute e = some s') : s'.Handles := by
  obtain ⟨c, stamp⟩ := e
  simp only [FlightState.step] at h
  split at h
  case h_1 hc =>
    split at h <;> obtain rfl := Option.some.inj h <;>
      exact hs.move rfl rfl rfl rfl (by rw [hc]; rfl) (by rw [hc]; rfl)
  case h_2 hc =>
    obtain rfl := Option.some.inj h
    exact hs.slot hc
  case h_3 k hc =>
    split at h
    · obtain rfl := Option.some.inj h
      exact hs.move rfl rfl rfl rfl (by rw [hc]; rfl) (by rw [hc]; rfl)
    next hfree =>
      obtain rfl := Option.some.inj h
      exact hs.acquire hc hfree
    · cases h
  case h_4 k hc =>
    split at h <;> obtain rfl := Option.some.inj h <;>
      exact hs.move rfl rfl rfl rfl (by rw [hc]; rfl) (by rw [hc]; rfl)
  case h_5 k hc =>
    split at h <;> obtain rfl := Option.some.inj h <;>
      exact hs.move rfl rfl rfl rfl (by rw [hc]; rfl) (by rw [hc]; rfl)
  case h_6 k v hc =>
    obtain rfl := Option.some.inj h
    exact hs.move rfl rfl rfl rfl (by rw [hc]; rfl) (by rw [hc]; rfl)
  case h_7 k v hc =>
    obtain rfl := Option.some.inj h
    exact hs.release (by rw [hc]; rfl) _ _
  case h_8 k e hc =>
    obtain rfl := Option.some.inj h
    exact hs.release (by rw [hc]; rfl) _ _
  case h_9 k outcome hc =>
    obtain rfl := Option.some.inj h
    exact hs.drop hc
  case h_10 outcome hc =>
    obtain rfl := Option.some.inj h
    exact hs.sweep hc
  case h_11 => cases h

end Steps

/-! ### Values -/

variable {codec : ValueCodec V R} {compute : ι → Except E V}

/-- The value of the one computation so far. -/
def Result (compute : ι → Except E V) (s : FlightState ι V R E) (v : V) : Prop :=
  ∃ d, s.computed = [d] ∧ compute d = .ok v

/-- Every value around is the one computation's, nobody has failed, nobody is about to compute
again, and a computed value that is not stored yet is about to be. -/
structure Values (codec : ValueCodec V R) (compute : ι → Except E V) (s : FlightState ι V R E) :
    Prop where
  called : ∀ c v, (s.call c).value? = some v → s.Result compute v
  slotted : ∀ k v, (s.slots k).value = some v → s.Result compute v
  stored : ∀ r, s.store = some r → ∃ v, codec.decode r = some v ∧ s.Result compute v
  unfailed : ∀ c, (s.call c).failed = false
  computing : ∀ c k, s.call c = .computing k → s.computed = []
  pending : s.store = none → s.computed = [] ∨ ∃ c k v, s.call c = .writing k v
  once : s.computed.length ≤ 1

omit [DecidableEq ι] in
lemma values_init : (init : FlightState ι V R E).Values codec compute where
  called c v h := by cases h
  slotted k v h := by cases h
  stored r h := by cases h
  unfailed c := rfl
  computing c k h := by cases h
  pending _ := .inl rfl
  once := by simp [init]

/-- A call moves on with a value that is the result, if it has one, and leaves the store alone. -/
lemma Values.move (hs : s.Values codec compute) (hcall : s'.call = Function.update s.call c v)
    (hcomputed : s'.computed = s.computed) (hstore : s'.store = s.store)
    (hslots : ∀ k w, (s'.slots k).value = some w → s.Result compute w)
    (hvalue : ∀ w, v.value? = some w → s.Result compute w) (hfailed : v.failed = false)
    (hcomputing : ∀ k, v = .computing k → s.computed = [])
    (hwriting : ∀ k w, s.call c ≠ .writing k w) : s'.Values codec compute := by
  have hresult : ∀ w, s.Result compute w → s'.Result compute w := fun w h => by
    rwa [Result, hcomputed]
  refine ⟨fun d w hd => ?_, fun k w h => hresult w (hslots k w h), fun r hr => ?_, fun d => ?_,
    fun d k hd => ?_, fun hnone => ?_, hcomputed ▸ hs.once⟩
  · rw [hcall, Function.update_apply] at hd
    split at hd
    · exact hresult w (hvalue w hd)
    · exact hresult w (hs.called d w hd)
  · obtain ⟨w, hw, hres⟩ := hs.stored r (hstore ▸ hr)
    exact ⟨w, hw, hresult w hres⟩
  · rw [hcall, Function.update_apply]
    split
    · exact hfailed
    · exact hs.unfailed d
  · rw [hcall, Function.update_apply] at hd
    rw [hcomputed]
    split at hd
    · exact hcomputing k hd
    · exact hs.computing d k hd
  · rw [hcomputed, hcall]
    refine (hs.pending (hstore ▸ hnone)).imp_right ?_
    rintro ⟨d, k, w, hd⟩
    refine ⟨d, k, w, ?_⟩
    rw [Function.update_of_ne, hd]
    rintro rfl
    exact hwriting k w hd

omit [DecidableEq ι] in
/-- Reading an entry yields the result, and finding none means that nobody has computed yet,
unless the value is about to be written. -/
lemma Values.entry_eq_some (hs : s.Values codec compute) {w : V} (h : s.entry codec = some w) :
    s.Result compute w := by
  obtain ⟨r, hr, hw⟩ := Option.bind_eq_some_iff.mp h
  obtain ⟨w', hw', hres⟩ := hs.stored r hr
  obtain rfl : w = w' := Option.some.inj (hw.symm.trans hw')
  exact hres

omit [DecidableEq ι] in
lemma Values.entry_eq_none (hs : s.Values codec compute) (h : s.entry codec = none) :
    s.store = none := by
  by_contra hne
  obtain ⟨r, hr⟩ := Option.ne_none_iff_exists'.mp hne
  obtain ⟨w, hw, -⟩ := hs.stored r hr
  simp [entry, hr, hw] at h

omit [DecidableEq ι] in
lemma Values.slotted_update (hs : s.Values codec compute) {slot : Slot ι V}
    (hslot : ∀ w, slot.value = some w → s.Result compute w) (k' : ℕ) (w : V)
    (h : (Function.update s.slots k slot k').value = some w) : s.Result compute w := by
  rw [Function.update_apply] at h
  split at h
  · exact hslot w h
  · exact hs.slotted k' w h

/-- The computation itself: it is the first, as its caller holds the permit. -/
lemma Values.compute_ok (hs : s.Values codec compute) (hh : s.Handles)
    (hc : s.call c = .computing k) {v : V} (hv : compute c = .ok v) :
    ({ s.setCall c (.writing k v) with computed := s.computed ++ [c] }).Values codec compute := by
  have hempty := hs.computing c k hc
  have hnone : ∀ w, ¬ s.Result compute w := by
    rintro w ⟨d, hd, -⟩
    simp [hempty] at hd
  have hresult : (Result compute { s.setCall c (.writing k v) with
      computed := s.computed ++ [c] } v) := ⟨c, by simp [hempty], hv⟩
  refine ⟨fun d w hd => ?_, fun k w h => absurd (hs.slotted k w h) (hnone w), fun r hr => ?_,
    fun d => ?_, fun d k' hd => ?_, fun _ => .inr ⟨c, k, v, Function.update_self ..⟩,
    by simp [hempty]⟩
  · simp only [setCall, Function.update_apply] at hd
    split at hd
    · obtain rfl := Option.some.inj hd
      exact hresult
    · exact absurd (hs.called d w hd) (hnone w)
  · obtain ⟨w, -, hres⟩ := hs.stored r hr
    exact absurd hres (hnone w)
  · simp only [setCall, Function.update_apply]
    split
    · rfl
    · exact hs.unfailed d
  · simp only [setCall, Function.update_apply] at hd
    split at hd
    · cases hd
    next hne =>
      -- Two callers cannot be in the initialiser at once.
      exact absurd (hh.initialiser_unique (c := d) (d := c) (by rw [hd]; rfl)
        (by rw [hc]; rfl)) hne

/-- The write makes the value readable. -/
lemma Values.write (hs : s.Values codec compute) {v' : V} (hc : s.call c = .writing k v')
    {stamp : ℕ} :
    ({ s.setCall c (.publishing k v') with store := some (codec.encode stamp v') }).Values
      codec compute := by
  have hres : s.Result compute v' := hs.called c v' (by rw [hc]; rfl)
  refine ⟨fun d w hd => ?_, hs.slotted, fun r hr => ?_, fun d => ?_, fun d k' hd => ?_,
    fun h => ?_, hs.once⟩
  · simp only [setCall, Function.update_apply] at hd
    split at hd
    · obtain rfl := Option.some.inj hd
      exact hres
    · exact hs.called d w hd
  · obtain rfl := Option.some.inj hr
    exact ⟨v', codec.decode_encode stamp v', hres⟩
  · simp only [setCall, Function.update_apply]
    split
    · rfl
    · exact hs.unfailed d
  · simp only [setCall, Function.update_apply] at hd
    split at hd
    · cases hd
    · exact hs.computing d k' hd
  · cases h

/-- Every step keeps the values, in a run in which no computation fails. -/
lemma Values.step {e : ι × ℕ} (hok : ∀ c, ∃ v, compute c = .ok v) (hs : s.Values codec compute)
    (hh : s.Handles) (h : s.step codec compute e = some s') : s'.Values codec compute := by
  obtain ⟨c, stamp⟩ := e
  simp only [FlightState.step] at h
  split at h
  case h_1 hc =>
    split at h <;> obtain rfl := Option.some.inj h
    next v hv =>
      refine hs.move rfl rfl rfl hs.slotted ?_ rfl (by rintro _ ⟨⟩) (by simp [hc])
      rintro w ⟨⟩
      exact hs.entry_eq_some hv
    next =>
      exact hs.move rfl rfl rfl hs.slotted (by rintro w ⟨⟩) rfl (by rintro _ ⟨⟩) (by simp [hc])
  case h_2 hc =>
    obtain rfl := Option.some.inj h
    unfold slot
    split
    next k _ =>
      exact hs.move rfl rfl rfl (hs.slotted_update fun w hw => hs.slotted k w hw)
        (by rintro w ⟨⟩) rfl (by rintro _ ⟨⟩) (by simp [hc])
    next =>
      exact hs.move rfl rfl rfl (hs.slotted_update (by rintro w ⟨⟩)) (by rintro w ⟨⟩) rfl
        (by rintro _ ⟨⟩) (by simp [hc])
  case h_3 k hc =>
    split at h
    next v hv =>
      obtain rfl := Option.some.inj h
      refine hs.move rfl rfl rfl hs.slotted ?_ rfl (by rintro _ ⟨⟩) (by simp [hc])
      rintro w ⟨⟩
      exact hs.slotted k v hv
    next =>
      obtain rfl := Option.some.inj h
      exact hs.move rfl rfl rfl (hs.slotted_update fun w hw => hs.slotted k w hw)
        (by rintro w ⟨⟩) rfl (by rintro _ ⟨⟩) (by simp [hc])
    next => cases h
  case h_4 k hc =>
    split at h <;> obtain rfl := Option.some.inj h
    next v hv =>
      refine hs.move rfl rfl rfl hs.slotted ?_ rfl (by rintro _ ⟨⟩) (by simp [hc])
      rintro w ⟨⟩
      exact hs.entry_eq_some hv
    next hnone =>
      refine hs.move rfl rfl rfl hs.slotted (by rintro w ⟨⟩) rfl (fun k' _ => ?_) (by simp [hc])
      obtain hempty | ⟨d, k', w, hd⟩ := hs.pending (hs.entry_eq_none hnone)
      · exact hempty
      · -- A pending write would hold the permit that this caller holds.
        obtain rfl : c = d :=
          hh.initialiser_unique (show (s.call c).initialises = some k by rw [hc]; rfl)
            (show (s.call d).initialises = some k' by rw [hd]; rfl)
        rw [hc] at hd
        cases hd
  case h_5 k hc =>
    obtain ⟨v, hv⟩ := hok c
    rw [hv] at h
    obtain rfl := Option.some.inj h
    exact hs.compute_ok hh hc hv
  case h_6 k v hc =>
    obtain rfl := Option.some.inj h
    exact hs.write hc
  case h_7 k v hc =>
    obtain rfl := Option.some.inj h
    have hres : s.Result compute v := hs.called c v (by rw [hc]; rfl)
    refine hs.move rfl rfl rfl (hs.slotted_update ?_) ?_ rfl (by rintro _ ⟨⟩) (by simp [hc])
    · rintro w ⟨⟩
      exact hres
    · rintro w ⟨⟩
      exact hres
  case h_8 k e hc =>
    have := hs.unfailed c
    rw [hc] at this
    cases this
  case h_9 k outcome hc =>
    obtain rfl := Option.some.inj h
    have hfailed := hs.unfailed c
    have hvalue := hs.called c
    rw [hc] at hfailed hvalue
    exact hs.move rfl rfl rfl (hs.slotted_update fun w hw => hs.slotted k w hw)
      (by cases outcome <;> exact hvalue) (by cases outcome <;> exact hfailed)
      (by rintro _ ⟨⟩) (by simp [hc])
  case h_10 outcome hc =>
    obtain rfl := Option.some.inj h
    have hfailed := hs.unfailed c
    have hvalue := hs.called c
    rw [hc] at hfailed hvalue
    have hsweep : s.sweep.slots = s.slots ∧ s.sweep.call = s.call ∧ s.sweep.store = s.store ∧
        s.sweep.computed = s.computed := by
      unfold sweep
      split
      · split <;> exact ⟨rfl, rfl, rfl, rfl⟩
      · exact ⟨rfl, rfl, rfl, rfl⟩
    obtain ⟨hslots, hcall, hstore, hcomputed⟩ := hsweep
    exact hs.move (by rw [← hcall]; rfl) hcomputed hstore
      (fun k w hw => hs.slotted k w (hslots ▸ hw))
      (by cases outcome <;> exact hvalue) (by cases outcome <;> exact hfailed)
      (by rintro _ ⟨⟩) (by simp [hc])
  case h_11 => cases h

/-! ### Progress -/

lemma slot_call (s : FlightState ι V R E) (c : ι) :
    ∃ k, (s.slot c).call = Function.update s.call c (.waiting k) := by
  unfold slot
  split <;> exact ⟨_, rfl⟩

omit [DecidableEq ι] in
lemma sweep_call (s : FlightState ι V R E) : s.sweep.call = s.call := by
  unfold sweep
  split
  · split <;> rfl
  · rfl

/-- A step moves one call on. -/
lemma step_call {stamp : ℕ} (h : s.step codec compute (c, stamp) = some s') :
    ∃ v, s'.call = Function.update s.call c v ∧ v.rank < (s.call c).rank := by
  simp only [FlightState.step] at h
  split at h
  case h_2 hc =>
    obtain rfl := Option.some.inj h
    obtain ⟨k, hk⟩ := s.slot_call c
    exact ⟨_, hk, by simp [hc, FlightCall.rank]⟩
  case h_3 k hc =>
    split at h
    · obtain rfl := Option.some.inj h
      exact ⟨_, rfl, by simp [hc, FlightCall.rank]⟩
    · obtain rfl := Option.some.inj h
      exact ⟨_, rfl, by simp [hc, FlightCall.rank]⟩
    · cases h
  case h_10 outcome hc =>
    obtain rfl := Option.some.inj h
    exact ⟨.done outcome, by rw [← s.sweep_call]; rfl, by simp [hc, FlightCall.rank]⟩
  case h_11 => cases h
  case h_1 hc | h_4 hc | h_5 hc =>
    split at h <;> obtain rfl := Option.some.inj h <;>
      exact ⟨_, rfl, by simp [hc, FlightCall.rank]⟩
  case h_6 hc | h_7 hc | h_8 hc | h_9 hc =>
    obtain rfl := Option.some.inj h
    exact ⟨_, rfl, by simp [hc, FlightCall.rank]⟩

/-- Only a call that has returned, or that waits for a caller with the permit, cannot go on. -/
lemma step_eq_none {stamp : ℕ} (h : s.step codec compute (c, stamp) = none) :
    (∃ outcome, s.call c = .done outcome) ∨
      ∃ k d, s.call c = .waiting k ∧ (s.slots k).permit = some d := by
  simp only [FlightState.step] at h
  split at h
  case h_3 k hc =>
    split at h
    · cases h
    · cases h
    next d _ hd => exact .inr ⟨k, d, hc, hd⟩
  case h_11 outcome hc => exact .inl ⟨outcome, hc⟩
  case h_1 | h_4 | h_5 => split at h <;> cases h
  all_goals cases h

/-- When no step is left, everybody has returned. -/
lemma Handles.all_done (hs : s.Handles) (hstuck : ∀ e, s.step codec compute e = none) (c : ι) :
    ∃ outcome, s.call c = .done outcome := by
  obtain hdone | ⟨k, d, -, hd⟩ := step_eq_none (hstuck (c, 0))
  · exact hdone
  · -- The holder of the permit is in the initialiser, where it can always go on.
    have hinit := (hs.permit d k).mp hd
    obtain ⟨outcome, hdone⟩ | ⟨k', d', hwait, -⟩ := step_eq_none (hstuck (d, 0))
    · rw [hdone] at hinit
      cases hinit
    · rw [hwait] at hinit
      cases hinit

/-- The steps left, over all callers. -/
def stepsLeft [Fintype ι] (s : FlightState ι V R E) : ℕ := ∑ c, (s.call c).rank

lemma stepsLeft_lt [Fintype ι] {e : ι × ℕ} (h : s.step codec compute e = some s') :
    s'.stepsLeft < s.stepsLeft := by
  obtain ⟨c, stamp⟩ := e
  obtain ⟨v, hcall, hlt⟩ := step_call h
  refine Finset.sum_lt_sum (fun d _ => ?_) ⟨c, Finset.mem_univ c, ?_⟩
  · rw [hcall, Function.update_apply]
    split_ifs with hd
    · exact hd ▸ hlt.le
    · exact le_rfl
  · rwa [hcall, Function.update_self]

omit [DecidableEq ι] in
lemma stepsLeft_init [Fintype ι] :
    (init : FlightState ι V R E).stepsLeft = 9 * Fintype.card ι := by
  simp [stepsLeft, init, FlightCall.rank, mul_comm]

/-- However many callers fill one key at once, and however their steps interleave: if no
computation fails, the closure runs at most once, whoever returns has its value, nobody waits for
ever, and when all have returned it has run exactly once. -/
theorem computes_once [Fintype ι] [Nonempty ι] (hok : ∀ c, ∃ v, compute c = .ok v)
    {es : List (ι × ℕ)} {s : FlightState ι V R E}
    (hrun : Machine.exec (step codec compute) init es = some s) :
    s.computed.length ≤ 1 ∧
      (∀ c outcome, s.call c = .done outcome →
        ∃ d v, s.computed = [d] ∧ compute d = .ok v ∧ outcome = .ok v) ∧
      es.length ≤ 9 * Fintype.card ι ∧
      ((∀ e, s.step codec compute e = none) →
        ∃ d v, s.computed = [d] ∧ compute d = .ok v ∧ ∀ c, s.call c = .done (.ok v)) := by
  obtain ⟨hh, hs⟩ : s.Handles ∧ s.Values codec compute :=
    Machine.invariant_exec (I := fun s => s.Handles ∧ s.Values codec compute)
      (fun _ _ _ hs h => ⟨hs.1.step h, hs.2.step hok hs.1 h⟩) ⟨handles_init, values_init⟩ hrun
  have hdone : ∀ c outcome, s.call c = .done outcome →
      ∃ d v, s.computed = [d] ∧ compute d = .ok v ∧ outcome = .ok v := by
    intro c outcome hc
    cases outcome with
    | error e =>
      have := hs.unfailed c
      rw [hc] at this
      cases this
    | ok v =>
      obtain ⟨d, hd, hv⟩ := hs.called c v (by rw [hc]; rfl)
      exact ⟨d, v, hd, hv, rfl⟩
  refine ⟨hs.once, hdone, ?_, fun hstuck => ?_⟩
  · have := Machine.length_le_of_decreasing (I := fun _ => True) (μ := stepsLeft)
      (fun _ _ _ _ h => ⟨trivial, stepsLeft_lt h⟩) trivial hrun
    rw [stepsLeft_init] at this
    omega
  · have hall := fun c => hh.all_done hstuck c
    obtain ⟨c⟩ := ‹Nonempty ι›
    obtain ⟨outcome, hc⟩ := hall c
    obtain ⟨d, v, hd, hv, -⟩ := hdone c outcome hc
    refine ⟨d, v, hd, hv, fun c' => ?_⟩
    obtain ⟨outcome', hc'⟩ := hall c'
    obtain ⟨d', v', hd', hv', rfl⟩ := hdone c' outcome' hc'
    obtain rfl : d = d' := by simpa using hd.symm.trans hd'
    rw [hc', ← hv', hv]

/-- Two callers miss; the second one computes, and the first one, which joins its slot, is handed
the value. -/
def sharedRun : List (Fin 2 × ℕ) :=
  [(0, 0), (1, 0), (1, 0), (0, 0), (1, 0), (1, 0), (1, 0), (1, 0), (1, 0), (1, 0), (1, 0),
    (0, 0), (0, 0), (0, 0)]

theorem computes_once_sharedRun :
    ∃ s : FlightState (Fin 2) ℕ ℕ Empty,
      Machine.exec (step ⟨fun _ v => v, some, fun _ _ => rfl⟩ fun c => .ok c.val) init sharedRun =
        some s ∧
      s.computed.length ≤ 1 ∧
      ∃ d v, s.computed = [d] ∧ (.ok d.val : Except Empty ℕ) = .ok v ∧
        ∀ c, s.call c = .done (.ok v) := by
  refine ⟨_, rfl, ?_⟩
  have h := computes_once (fun c : Fin 2 => ⟨c.val, rfl⟩)
    (show Machine.exec (step (⟨fun _ v => v, some, fun _ _ => rfl⟩ : ValueCodec ℕ ℕ)
      fun c => (.ok c.val : Except Empty ℕ)) init sharedRun = some _ from rfl)
  refine ⟨h.1, h.2.2.2 fun e => ?_⟩
  match e with
  | (0, _) => rfl
  | (1, _) => rfl

end FlightState

end Moso.Kv
