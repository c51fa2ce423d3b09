import Moso.Kv.SingleFlight

/-!
# How a flight ends

Everybody who holds a slot holds the one that the map has for its key, so a slot that is left with
an entry and without a holder can only be one whose last holder was dropped. An error is handed to
the caller whose closure returned it, and to nobody else.
-/

namespace Moso.Kv

lemma RunCall.slot?_of_joined {V E : Type*} {v : RunCall V E} {k : ℕ} (h : v.joined = some k) :
    v.slot? = some k := by
  cases v <;> first | exact h | cases h

lemma RunCall.slot?_of_computes {V E : Type*} {v : RunCall V E} {k : ℕ}
    (h : v.computes = some k) : v.slot? = some k := by
  cases v <;> first | exact h | cases h

lemma RunCall.inProgress_of_slot? {V E : Type*} {v : RunCall V E} {k : ℕ}
    (h : v.slot? = some k) : v.inProgress = true := by
  cases v <;> first | rfl | cases h

namespace SingleFlight

variable {K ι V E : Type*} [DecidableEq K] [DecidableEq ι]

/-- Handles and permits are where the calls say, all handles for a key are of the slot in the map,
and no slot is there for two keys. -/
structure Handles (key : ι → K) (s : SingleFlight K ι V E) : Prop where
  holders : ∀ c k, c ∈ (s.slots k).holders ↔ (s.call c).slot? = some k
  permit : ∀ c k, (s.slots k).permit = some c ↔ (s.call c).computes = some k
  weak : ∀ c k, (s.call c).slot? = some k → s.weak.lookup (key c) = some k
  fresh : ∀ q k, s.weak.lookup q = some k → k < s.fresh
  apart : ∀ q q' k, s.weak.lookup q = some k → s.weak.lookup q' = some k → q = q'

variable {key : ι → K} {s s' : SingleFlight K ι V E} {c : ι} {v : RunCall V E} {k : ℕ}

omit [DecidableEq ι] in
lemma handles_new : (new : SingleFlight K ι V E).Handles key where
  holders c k := by simp [new, RunCall.slot?]
  permit c k := by simp [new, RunCall.computes]
  weak c k h := by cases h
  fresh q k h := by cases h
  apart q q' k h := by cases h

section Steps

attribute [local grind =] Function.update_apply Finset.mem_insert Finset.mem_erase
  Finset.mem_singleton RunCall.slot? RunCall.computes AList.lookup_insert

/-- Moving a call on, with the same handle and the same permit. -/
lemma Handles.move (h : s.Handles key) (hslot : v.slot? = (s.call c).slot?)
    (hcomputes : v.computes = (s.call c).computes) : (s.setCall c v).Handles key := by
  obtain ⟨holders, permit, weak, fresh, apart⟩ := h
  constructor <;> simp only [setCall] <;> grind

/-- Joining the slot of the key, or creating one when nobody holds it. -/
lemma Handles.slot (h : s.Handles key) (hc : s.call c = .idle) :
    (s.slot (key c) c).Handles key := by
  have hlookup : ∀ q k', (s.weak.insert (key c) k').lookup q =
      if q = key c then some k' else s.weak.lookup q := by
    intro q k'
    split_ifs with hq
    · rw [hq, AList.lookup_insert]
    · rw [AList.lookup_insert_ne hq]
  unfold SingleFlight.slot
  split
  next k hup =>
    obtain ⟨hk, -⟩ := Option.filter_eq_some_iff.mp hup
    obtain ⟨holders, permit, weak, fresh, apart⟩ := h
    constructor <;> simp only [setCall, setSlot] <;> grind
  next hup =>
    have hnobody : ∀ d k, key d = key c → (s.call d).slot? ≠ some k := by
      intro d k hd hslot
      have hk := hd ▸ h.weak d k hslot
      have hempty := Option.filter_eq_none_iff.mp hup k hk
      exact hempty (decide_eq_true ⟨d, (h.holders d k).mpr hslot⟩)
    have hbelow : ∀ d k, (s.call d).slot? = some k → k ≠ s.fresh := fun d k hslot =>
      Nat.ne_of_lt (h.fresh _ k (h.weak d k hslot))
    have hnew : ∀ d, (s.call d).computes ≠ some s.fresh := fun d hd =>
      hbelow d _ (RunCall.slot?_of_computes hd) rfl
    obtain ⟨holders, permit, weak, fresh, apart⟩ := h
    constructor <;> simp only [setCall, setSlot, hlookup] <;> grind

/-- Getting the free permit. -/
lemma Handles.acquire (h : s.Handles key) (hc : s.call c = .waiting k)
    (hfree : (s.slots k).permit = none) :
    ((s.setSlot k { s.slots k with permit := some c }).setCall c (.computing k)).Handles key := by
  obtain ⟨holders, permit, weak, fresh, apart⟩ := h
  constructor <;> simp only [setCall, setSlot] <;> grind

/-- Giving the permit back when the closure returns. -/
lemma Handles.finish (h : s.Handles key) (hc : s.call c = .computing k) (value : Option V)
    (outcome : Except E V) (owed : ι → Option E) :
    (({ s with owed := owed }.setSlot k { s.slots k with value := value, permit := none }).setCall c
      (.dropping k outcome)).Handles key := by
  have hunique : ∀ d, (s.call d).computes = some k → d = c := fun d hd =>
    Option.some.inj (((h.permit d k).mpr hd).symm.trans ((h.permit c k).mpr (by rw [hc]; rfl)))
  obtain ⟨holders, permit, weak, fresh, apart⟩ := h
  constructor <;> simp only [setCall, setSlot] <;> grind

/-- Dropping the handle, and the permit. -/
lemma Handles.release (h : s.Handles key) (hc : (s.call c).slot? = some k)
    (hv : v.slot? = none) (hv' : v.computes = none) :
    ((s.release k c).setCall c v).Handles key := by
  have hown : ∀ k', (s.call c).computes = some k' → k' = k := fun k' hk' =>
    Option.some.inj ((RunCall.slot?_of_computes hk').symm.trans hc)
  obtain ⟨holders, permit, weak, fresh, apart⟩ := h
  constructor <;> simp only [setCall, setSlot, SingleFlight.release] <;> grind

/-- Sweeping forgets a slot that nobody holds. -/
lemma Handles.sweep (h : s.Handles key) {outcome : Except E V}
    (hc : s.call c = .sweeping outcome) :
    ((s.sweep (key c)).setCall c (.done outcome)).Handles key := by
  unfold SingleFlight.sweep
  split
  next k hk =>
    split
    next hempty =>
      have hnobody : ∀ d, (s.call d).slot? ≠ some k := by
        intro d hd
        have hmem := (h.holders d k).mpr hd
        rw [Finset.card_eq_zero.mp hempty] at hmem
        exact Finset.notMem_empty d hmem
      have hlookup : ∀ q, (s.weak.erase (key c)).lookup q =
          if q = key c then none else s.weak.lookup q := by
        intro q
        split_ifs with hq
        · rw [hq, AList.lookup_erase]
        · rw [AList.lookup_erase_ne hq]
      obtain ⟨holders, permit, weak, fresh, apart⟩ := h
      constructor <;> simp only [setCall, hlookup] <;> grind
    next => exact h.move (by rw [hc]; rfl) (by rw [hc]; rfl)
  next => exact h.move (by rw [hc]; rfl) (by rw [hc]; rfl)

end Steps

/-- What each event is, and what it does. -/
lemma step_cases {event : FlightEvent ι V E} (h : step key s event = some s') :
    (∃ c, event = .begin_ c ∧ s.call c = .idle ∧ s' = s.slot (key c) c) ∨
    (∃ c k v, event = .find c ∧ s.call c = .waiting k ∧ s' = s.setCall c (.dropping k (.ok v))) ∨
    (∃ c k, event = .acquire c ∧ s.call c = .waiting k ∧ (s.slots k).permit = none ∧
      s' = (s.setSlot k { s.slots k with permit := some c }).setCall c (.computing k)) ∨
    (∃ c k v, event = .finish c (.ok v) ∧ s.call c = .computing k ∧
      s' = (s.setSlot k { s.slots k with value := some v, permit := none }).setCall c
        (.dropping k (.ok v))) ∨
    (∃ c k e, event = .finish c (.error e) ∧ s.call c = .computing k ∧
      s' = ((s.owe k e).setSlot k { s.slots k with permit := none }).setCall c
        (.dropping k (.error e))) ∨
    (∃ c k outcome, event = .leave c ∧ s.call c = .dropping k outcome ∧
      s' = (s.release k c).setCall c (.sweeping outcome)) ∨
    (∃ c outcome, event = .sweep c ∧ s.call c = .sweeping outcome ∧
      s' = (s.sweep (key c)).setCall c (.done outcome)) ∨
    (∃ c k, event = .drop c ∧ (s.call c).joined = some k ∧
      s' = (s.release k c).setCall c .dropped) := by
  cases event with
  | begin_ c =>
    simp only [step] at h
    split at h
    next hc => exact .inl ⟨c, rfl, hc, (Option.some.inj h).symm⟩
    next => cases h
  | find c =>
    simp only [step] at h
    split at h
    next k hc =>
      obtain ⟨v, -, rfl⟩ := Option.map_eq_some_iff.mp h
      exact .inr (.inl ⟨c, k, v, rfl, hc, rfl⟩)
    next => cases h
  | acquire c =>
    simp only [step] at h
    split at h
    next k hc =>
      split at h
      next hfree =>
        exact .inr (.inr (.inl ⟨c, k, rfl, hc, Option.isNone_iff_eq_none.mp hfree.2,
          (Option.some.inj h).symm⟩))
      next => cases h
    next => cases h
  | finish c outcome =>
    cases outcome with
    | ok v =>
      simp only [step] at h
      split at h
      next k v' hc hv =>
        cases hv
        exact .inr (.inr (.inr (.inl ⟨c, k, v, rfl, hc, (Option.some.inj h).symm⟩)))
      next k e hc hv => cases hv
      next => cases h
    | error e =>
      simp only [step] at h
      split at h
      next k v' hc hv => cases hv
      next k e' hc hv =>
        cases hv
        exact .inr (.inr (.inr (.inr (.inl ⟨c, k, e, rfl, hc, (Option.some.inj h).symm⟩))))
      next => cases h
  | leave c =>
    simp only [step] at h
    split at h
    next k outcome hc =>
      exact .inr (.inr (.inr (.inr (.inr (.inl ⟨c, k, outcome, rfl, hc,
        (Option.some.inj h).symm⟩)))))
    next => cases h
  | sweep c =>
    simp only [step] at h
    split at h
    next outcome hc =>
      exact .inr (.inr (.inr (.inr (.inr (.inr (.inl ⟨c, outcome, rfl, hc,
        (Option.some.inj h).symm⟩))))))
    next => cases h
  | drop c =>
    simp only [step] at h
    split at h
    next k hc =>
      exact .inr (.inr (.inr (.inr (.inr (.inr (.inr ⟨c, k, rfl, by rw [hc]; rfl,
        (Option.some.inj h).symm⟩))))))
    next k hc =>
      exact .inr (.inr (.inr (.inr (.inr (.inr (.inr ⟨c, k, rfl, by rw [hc]; rfl,
        (Option.some.inj h).symm⟩))))))
    next => cases h

/-- Every step keeps handles and permits where the calls say. -/
lemma Handles.step {event : FlightEvent ι V E} (h : s.Handles key)
    (hstep : step key s event = some s') : s'.Handles key := by
  rcases step_cases hstep with ⟨c, -, hc, rfl⟩ | ⟨c, k, v, -, hc, rfl⟩ | ⟨c, k, -, hc, hfree, rfl⟩ |
    ⟨c, k, v, -, hc, rfl⟩ | ⟨c, k, e, -, hc, rfl⟩ | ⟨c, k, outcome, -, hc, rfl⟩ |
    ⟨c, outcome, -, hc, rfl⟩ | ⟨c, k, -, hc, rfl⟩
  · exact h.slot hc
  · exact h.move (by rw [hc]; rfl) (by rw [hc]; rfl)
  · exact h.acquire hc hfree
  · exact h.finish hc _ _ s.owed
  · exact h.finish hc _ _ (s.owe k e).owed
  · exact h.release (by rw [hc]; rfl) rfl rfl
  · exact h.sweep hc
  · exact h.release (RunCall.slot?_of_joined hc) rfl rfl

/-! ### Errors -/

/-- The call is returning the error. -/
def Returns (e : E) : RunCall V E → Prop
  | .dropping _ outcome | .sweeping outcome | .done outcome => outcome = .error e
  | _ => False

/-- Whoever is owed an error is returning it. -/
def Paid (s : SingleFlight K ι V E) : Prop := ∀ c e, s.owed c = some e → Returns e (s.call c)

omit [DecidableEq K] [DecidableEq ι] in
lemma Paid.delivers (h : s.Paid) : s.Delivers := by
  intro c e howed
  have hreturns := h c e howed
  cases hc : s.call c <;> simp only [hc, Returns] at hreturns ⊢ <;> simp [RunCall.computes, hreturns]

omit [DecidableEq K] in
/-- A call moves on that is owed nothing, or keeps returning what it is owed. -/
lemma Paid.move (h : s.Paid) (hcall : s'.call = Function.update s.call c v)
    (howed : s'.owed = s.owed) (hv : ∀ e, Returns e (s.call c) → Returns e v) : s'.Paid := by
  intro d e hd
  rw [howed] at hd
  rw [hcall, Function.update_apply]
  split_ifs with hdc
  · exact hv e (hdc ▸ h d e hd)
  · exact h d e hd

lemma slot_call (q : K) : ∃ k, (s.slot q c).call = Function.update s.call c (.waiting k) ∧
    (s.slot q c).owed = s.owed := by
  unfold slot
  split <;> exact ⟨_, rfl, rfl⟩

omit [DecidableEq ι] in
lemma sweep_call (q : K) : (s.sweep q).call = s.call ∧ (s.sweep q).owed = s.owed := by
  unfold sweep
  split
  · split <;> exact ⟨rfl, rfl⟩
  · exact ⟨rfl, rfl⟩

lemma Paid.step {event : FlightEvent ι V E} (h : s.Paid)
    (halone : s.FailsAlone event) (hstep : step key s event = some s') : s'.Paid := by
  rcases step_cases hstep with ⟨c, -, hc, rfl⟩ | ⟨c, k, v, -, hc, rfl⟩ | ⟨c, k, -, hc, hfree, rfl⟩ |
    ⟨c, k, v, -, hc, rfl⟩ | ⟨c, k, e, rfl, hc, rfl⟩ | ⟨c, k, outcome, -, hc, rfl⟩ |
    ⟨c, outcome, -, hc, rfl⟩ | ⟨c, k, -, hc, rfl⟩
  · obtain ⟨k, hcall, howed⟩ := s.slot_call (key c)
    exact h.move hcall howed fun e he => by simp [hc, Returns] at he
  · exact h.move rfl rfl fun e he => by simp [hc, Returns] at he
  · exact h.move rfl rfl fun e he => by simp [hc, Returns] at he
  · exact h.move rfl rfl fun e he => by simp [hc, Returns] at he
  · have hjoined : ∀ d, (s.call d).joined = some k → d = c := by
      intro d hd
      by_contra hdc
      exact halone d hdc (hd.trans (by rw [hc]; rfl))
    intro d e' hd
    by_cases hdc : d = c
    · subst hdc
      have hnone : s.owed d = none := by
        by_contra hne
        obtain ⟨e'', he⟩ := Option.ne_none_iff_exists'.mp hne
        simpa [hc, Returns] using h d e'' he
      have hsome : s.call d = .computing k := hc
      simp only [owe, setSlot, setCall, hsome, RunCall.joined, if_true, hnone,
        Option.getD_none] at hd
      obtain rfl := Option.some.inj hd
      simp [setCall, Returns]
    · have hd' : s.owed d = some e' := by
        simpa only [owe, setSlot, setCall, if_neg (mt (hjoined d) hdc)] using hd
      simp only [setCall, setSlot, owe, Function.update_of_ne hdc]
      exact h d e' hd'
  · exact h.move rfl rfl fun e he => by simpa [hc, Returns] using he
  · obtain ⟨hcall, howed⟩ := s.sweep_call (key c)
    refine h.move (by rw [← hcall]; rfl) howed fun e he => by simpa [hc, Returns] using he
  · refine h.move rfl rfl fun e he => ?_
    cases hcall : s.call c <;> simp [hcall, RunCall.joined, Returns] at hc he

/-! ### Entries -/

/-- A key with an entry has a call in progress. -/
def Kept (key : ι → K) (s : SingleFlight K ι V E) : Prop :=
  ∀ q, s.weak.lookup q ≠ none → ∃ c, key c = q ∧ (s.call c).inProgress = true

omit [DecidableEq ι] in
lemma forgets_iff_kept : s.Forgets key ↔ s.Kept key := by
  constructor
  · intro h q hq
    by_contra hnone
    refine hq (h.1 q fun c hc => ?_)
    by_contra hprogress
    exact hnone ⟨c, hc, Bool.eq_true_of_not_eq_false hprogress⟩
  · intro h
    have hentry : ∀ q, (∀ c, key c = q → (s.call c).inProgress = false) →
        s.weak.lookup q = none := by
      intro q hq
      by_contra hne
      obtain ⟨c, hc, hprogress⟩ := h q hne
      rw [hq c hc] at hprogress
      cases hprogress
    refine ⟨hentry, fun hall => List.length_eq_zero_iff.mpr ?_⟩
    refine List.eq_nil_iff_forall_not_mem.mpr fun q hq => ?_
    exact AList.lookup_eq_none.mp (hentry q fun c _ => hall c) (AList.mem_keys.mpr hq)

/-- A call moves that touches no entry but the one of its key, which somebody then keeps. -/
lemma Kept.update (h : s.Kept key) (hcall : s'.call = Function.update s.call c v)
    (hweak : ∀ q, q ≠ key c → s'.weak.lookup q ≠ none → s.weak.lookup q ≠ none)
    (hkey : s'.weak.lookup (key c) ≠ none →
      ∃ d, key d = key c ∧ (s'.call d).inProgress = true) : s'.Kept key := by
  intro q hq
  by_cases hqc : q = key c
  · exact hqc ▸ hkey (hqc ▸ hq)
  · obtain ⟨d, hd, hprogress⟩ := h q (hweak q hqc hq)
    have hdc : d ≠ c := fun heq => hqc (heq ▸ hd.symm)
    exact ⟨d, hd, by rw [hcall, Function.update_of_ne hdc]; exact hprogress⟩

/-- A call goes on. -/
lemma Kept.move (h : s.Kept key) (hcall : s'.call = Function.update s.call c v)
    (hv : v.inProgress = true)
    (hweak : ∀ q, q ≠ key c → s'.weak.lookup q ≠ none → s.weak.lookup q ≠ none) :
    s'.Kept key :=
  h.update hcall hweak fun _ => ⟨c, rfl, by rw [hcall, Function.update_self]; exact hv⟩

/-- A call ends while another one for its key, if the key has an entry, goes on. -/
lemma Kept.end_ (h : s.Kept key) (hcall : s'.call = Function.update s.call c v)
    (hweak : ∀ q, q ≠ key c → s'.weak.lookup q ≠ none → s.weak.lookup q ≠ none)
    (hother : s'.weak.lookup (key c) ≠ none →
      ∃ d, d ≠ c ∧ key d = key c ∧ (s.call d).inProgress = true) : s'.Kept key := by
  refine h.update hcall hweak fun hentry => ?_
  obtain ⟨d, hdc, hd, hprogress⟩ := hother hentry
  exact ⟨d, hd, by rw [hcall, Function.update_of_ne hdc]; exact hprogress⟩

omit [DecidableEq ι] in
/-- After a sweep, an entry of the key is of a slot that another call holds. -/
lemma Handles.swept (h : s.Handles key) {outcome : Except E V}
    (hc : s.call c = .sweeping outcome) (hentry : (s.sweep (key c)).weak.lookup (key c) ≠ none) :
    ∃ d, d ≠ c ∧ key d = key c ∧ (s.call d).inProgress = true := by
  unfold SingleFlight.sweep at hentry
  split at hentry
  next k hk =>
    split at hentry
    next => exact absurd (AList.lookup_erase _ _) hentry
    next hcard =>
      obtain ⟨d, hd⟩ := Finset.card_ne_zero.mp hcard
      have hslot := (h.holders d k).mp hd
      refine ⟨d, fun heq => ?_, h.apart _ _ k (h.weak d k hslot) hk,
        RunCall.inProgress_of_slot? hslot⟩
      rw [heq, hc] at hslot
      cases hslot
  next hnone => exact absurd hnone hentry

omit [DecidableEq ι] in
lemma sweep_weak {q q' : K} (hq : q' ≠ q) (h : (s.sweep q).weak.lookup q' ≠ none) :
    s.weak.lookup q' ≠ none := by
  unfold sweep at h
  split at h
  · split at h
    · rwa [AList.lookup_erase_ne hq] at h
    · exact h
  · exact h

lemma slot_weak {q q' : K} (hq : q' ≠ q) (h : (s.slot q c).weak.lookup q' ≠ none) :
    s.weak.lookup q' ≠ none := by
  unfold slot at h
  split at h
  · exact h
  · simpa only [AList.lookup_insert_ne hq] using h

lemma Kept.step {event : FlightEvent ι V E} (hs : s.Handles key) (h : s.Kept key)
    (haccompanied : s.Accompanied key event) (hstep : step key s event = some s') :
    s'.Kept key := by
  rcases step_cases hstep with ⟨c, -, hc, rfl⟩ | ⟨c, k, v, -, hc, rfl⟩ | ⟨c, k, -, hc, hfree, rfl⟩ |
    ⟨c, k, v, -, hc, rfl⟩ | ⟨c, k, e, -, hc, rfl⟩ | ⟨c, k, outcome, -, hc, rfl⟩ |
    ⟨c, outcome, -, hc, rfl⟩ | ⟨c, k, rfl, hc, rfl⟩
  · obtain ⟨k, hcall, -⟩ := s.slot_call (key c)
    exact h.move hcall rfl fun q hq => slot_weak hq
  · exact h.move rfl rfl fun q _ hq => hq
  · exact h.move rfl rfl fun q _ hq => hq
  · exact h.move rfl rfl fun q _ hq => hq
  · exact h.move rfl rfl fun q _ hq => hq
  · exact h.move rfl rfl fun q _ hq => hq
  · obtain ⟨hcall, -⟩ := s.sweep_call (key c)
    exact h.end_ (by rw [← hcall]; rfl) (fun q hq => sweep_weak hq) (hs.swept hc)
  · exact h.end_ rfl (fun q _ hq => hq) fun _ => haccompanied

/-- A future that is dropped while no other call for its key is in progress leaves an entry that
nobody keeps. -/
lemma not_kept_drop {event : FlightEvent ι V E} (hs : s.Handles key)
    (halone : ¬s.Accompanied key event) (hstep : step key s event = some s') : ¬s'.Kept key := by
  rcases step_cases hstep with ⟨c, rfl, -⟩ | ⟨c, k, v, rfl, -⟩ | ⟨c, k, rfl, -⟩ |
    ⟨c, k, v, rfl, -⟩ | ⟨c, k, e, rfl, -⟩ | ⟨c, k, outcome, rfl, -⟩ | ⟨c, outcome, rfl, -⟩ |
    ⟨c, k, rfl, hc, rfl⟩
  all_goals try exact absurd trivial halone
  intro h
  have hentry := hs.weak c k (RunCall.slot?_of_joined hc)
  have hleft : ((s.release k c).setCall c .dropped).weak.lookup (key c) ≠ none := by
    rw [setCall_weak, release_weak, hentry]
    exact Option.some_ne_none k
  obtain ⟨d, hd, hprogress⟩ := h (key c) hleft
  rw [setCall_call, release_call] at hprogress
  by_cases hdc : d = c
  · rw [hdc, Function.update_self] at hprogress
    cases hprogress
  · rw [Function.update_of_ne hdc] at hprogress
    exact halone ⟨d, hdc, hd, hprogress⟩

/-! ### Runs -/

/-- However the calls interleave, and wherever their futures are dropped: when computations fail
only while nobody else waits for them, whoever joined a flight that failed gets its error without
another computation. The entry of a key is gone when its calls are, exactly when no future is
dropped as the last call in progress for its key. -/
theorem always_settles (key : ι → K) (es : List (FlightEvent ι V E)) :
    (Machine.Meets (step key) FailsAlone new es → Machine.Always (step key) Delivers new es) ∧
      (Machine.Always (step key) (Forgets key) new es ↔
        Machine.Meets (step key) (Accompanied key) new es) := by
  constructor
  · intro h
    have hpaid : Machine.Always (step key) Paid new es :=
      Machine.always_of_meets (fun s e s' hs hG hstep => hs.step hG hstep)
        (fun c e hc => by cases hc) h
    exact hpaid.mono fun s hs => hs.delivers
  · refine Machine.always_iff_meets (I := fun s => s.Handles key ∧ s.Kept key)
      (fun s e s' hs hG hstep => ⟨hs.1.step hstep, hs.2.step hs.1 hG hstep⟩)
      (fun s hs => forgets_iff_kept.mpr hs.2)
      (fun s e s' hs hG hstep h => not_kept_drop hs.1 hG hstep (forgets_iff_kept.mp h))
      ⟨handles_new, fun q hq => absurd (AList.lookup_empty q) hq⟩ es

/-- Three callers of one key: the first one fails alone, the second one is dropped while the third
one waits, which then computes. -/
def settledRun : List (FlightEvent (Fin 3) ℕ ℕ) :=
  let first : Fin 3 := ⟨0, by decide⟩
  let second : Fin 3 := ⟨1, by decide⟩
  let third : Fin 3 := ⟨2, by decide⟩
  [.begin_ first, .acquire first, .finish first (.error 7), .leave first, .begin_ second,
    .begin_ third, .sweep first, .acquire second, .drop second, .acquire third,
    .finish third (.ok 5), .leave third, .sweep third]

theorem always_settles_settledRun :
    (Machine.exec (step fun _ : Fin 3 => 0) new settledRun).isSome = true ∧
      Machine.Always (step fun _ => 0) Delivers new settledRun ∧
      Machine.Always (step fun _ => 0) (Forgets fun _ => 0) new settledRun := by
  refine ⟨by decide, ?_⟩
  obtain ⟨hdelivers, hforgets⟩ := always_settles (fun _ : Fin 3 => 0) settledRun
  exact ⟨hdelivers (by decide), hforgets.mpr (by decide)⟩

/-- The second of two callers waits while the first one's computation fails, and then computes; a
caller that is alone is dropped, and its entry stays. -/
theorem always_settles_fails :
    ¬Machine.Always (step fun _ : Fin 2 => 0) Delivers (new : SingleFlight ℕ (Fin 2) ℕ ℕ)
        [.begin_ 0, .acquire 0, .begin_ 1, .finish 0 (.error 7), .acquire 1] ∧
      ¬Machine.Always (step fun _ : Fin 2 => 0) (Forgets fun _ => 0)
        (new : SingleFlight ℕ (Fin 2) ℕ ℕ) [.begin_ 0, .acquire 0, .drop 0] := by
  constructor
  · intro h
    obtain ⟨s, hs⟩ := Option.isSome_iff_exists.mp (show (Machine.exec (step fun _ : Fin 2 => 0)
      (new : SingleFlight ℕ (Fin 2) ℕ ℕ)
      [.begin_ 0, .acquire 0, .begin_ 1, .finish 0 (.error 7), .acquire 1]).isSome = true by decide)
    have howed : s.owed 1 = some 7 := by
      obtain rfl := Option.some.inj hs
      rfl
    have hcomputes : (s.call 1).computes = some 0 := by
      obtain rfl := Option.some.inj hs
      rfl
    have hdelivers := (h.of_exec hs 1 7 howed).1
    rw [hcomputes] at hdelivers
    cases hdelivers
  · intro h
    obtain ⟨s, hs⟩ := Option.isSome_iff_exists.mp (show (Machine.exec (step fun _ : Fin 2 => 0)
      (new : SingleFlight ℕ (Fin 2) ℕ ℕ) [.begin_ 0, .acquire 0, .drop 0]).isSome = true by decide)
    have hforgets : s.inFlight = 0 := (h.of_exec hs).2 fun c => by
      obtain rfl := Option.some.inj hs
      revert c
      decide
    obtain rfl := Option.some.inj hs
    cases hforgets

end SingleFlight

end Moso.Kv
