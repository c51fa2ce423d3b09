import Moso.Kv.Memory

/-!
# Reads that destroy writes

Calls on one key of a `MemoryStore`, one atomic step at a time: `live` is a lookup, a look at the
clock and, for an expired entry, a separate invalidation; writes do this under the write lock and
reads do not. A written value stays visible until its expiry or the next write exactly as long as
no read's invalidation comes after the entry it found expired has been replaced.
-/

namespace Moso.Kv

/-- What a call is about: a read, or a write with the instant at which it stops polling. -/
inductive MemoryTask where
  | read (op : ReadOp)
  | write (op : WriteOp) (giveUpAt : Option ℕ)

/-- Where one call is. -/
inductive MemoryCall where
  | idle
  /-- Waiting for the write lock. -/
  | lock (op : WriteOp) (giveUpAt : Option ℕ)
  /-- In `live`: about to look the entry up, to compare its expiry with the clock and to
  invalidate it. -/
  | lookup (task : MemoryTask)
  | check (task : MemoryTask) (st : Stored)
  | invalidate (task : MemoryTask)
  /-- About to reply, or to decide on a write. -/
  | decide (task : MemoryTask) (existing : Option Stored)
  /-- About to change the cache, and then to drop the lock. -/
  | change (op : WriteOp) (giveUpAt : Option ℕ) (reply : Reply) (effect : Effect)
  | unlock (op : WriteOp) (giveUpAt : Option ℕ) (reply : Except MemoryError Reply)
  /-- Between two rounds of a blocking pop. -/
  | sleep (op : WriteOp) (giveUpAt : Option ℕ) (wakeAt : ℕ)
  | done (reply : Except MemoryError Reply)

/-- The key's entry in the cache, the write lock, the clock and the calls. `last` records what the
last change that a write made to the cache left there; no step reads it. -/
structure MemoryState (ι : Type*) where
  now : ℕ
  cache : Option Stored
  writer : Option ι
  call : ι → MemoryCall
  last : Option Stored

inductive MemoryEvent (ι : Type*) where
  | read (c : ι) (op : ReadOp)
  | write (c : ι) (op : WriteOp)
  /-- The next atomic step of a call. -/
  | run (c : ι)
  /-- The cache drops an entry that has expired. -/
  | evict
  | tick (d : ℕ)

namespace MemoryState

variable {ι : Type*} [DecidableEq ι]

/-- What earlier calls left under the key, and no call. -/
def init (now : ℕ) (cache : Option Stored) : MemoryState ι :=
  { now := now, cache := cache, writer := none, call := fun _ => .idle, last := cache }

def setCall (s : MemoryState ι) (c : ι) (v : MemoryCall) : MemoryState ι :=
  { s with call := Function.update s.call c v }

/-- The poll interval of a blocking pop. -/
def pollInterval : ℕ := 5000000

/-- Where a write goes once it has dropped the lock. -/
def afterUnlock (now : ℕ) (op : WriteOp) (giveUpAt : Option ℕ)
    (reply : Except MemoryError Reply) : MemoryCall :=
  match op, reply, giveUpAt with
  | .listPop _ _, .ok (.bytes none), some giveUpAt =>
    if now < giveUpAt then .sleep op (some giveUpAt) (now + pollInterval) else .done reply
  | _, _, _ => .done reply

/-- The next atomic step of the call. -/
def runCall (s : MemoryState ι) (c : ι) : Option (MemoryState ι) :=
  match s.call c with
  | .lock op giveUpAt =>
    if s.writer = none then
      some { s.setCall c (.lookup (.write op giveUpAt)) with writer := some c }
    else none
  | .lookup task =>
    match s.cache with
    | none    => some (s.setCall c (.decide task none))
    | some st => some (s.setCall c (.check task st))
  | .check task st =>
    if st.isExpired s.now then some (s.setCall c (.invalidate task))
    else some (s.setCall c (.decide task (some st)))
  | .invalidate task => some { s.setCall c (.decide task none) with cache := none }
  | .decide (.read op) existing => some (s.setCall c (.done (op.reply s.now existing)))
  | .decide (.write op giveUpAt) existing =>
    match op.decide s.now existing with
    | .ok (reply, effect) => some (s.setCall c (.change op giveUpAt reply effect))
    | .error e            => some (s.setCall c (.unlock op giveUpAt (.error e)))
  | .change op giveUpAt reply .keep => some (s.setCall c (.unlock op giveUpAt (.ok reply)))
  | .change op giveUpAt reply (.put st) =>
    some { s.setCall c (.unlock op giveUpAt (.ok reply)) with cache := some st, last := some st }
  | .change op giveUpAt reply .invalidate =>
    some { s.setCall c (.unlock op giveUpAt (.ok reply)) with cache := none, last := none }
  | .unlock op giveUpAt reply =>
    some { s.setCall c (afterUnlock s.now op giveUpAt reply) with writer := none }
  | .sleep op giveUpAt wakeAt =>
    if wakeAt ≤ s.now then some (s.setCall c (.lock op giveUpAt)) else none
  | .idle | .done _ => none

def step (s : MemoryState ι) : MemoryEvent ι → Option (MemoryState ι)
  | .read c op =>
    match s.call c with
    | .idle => some (s.setCall c (.lookup (.read op)))
    | _     => none
  | .write c op =>
    match s.call c, op.validate with
    | .idle, .ok ()   => some (s.setCall c (.lock op (op.giveUpAt s.now)))
    | .idle, .error e => some (s.setCall c (.done (.error e)))
    | _, _            => none
  | .run c => s.runCall c
  | .evict =>
    match s.cache with
    | some st => if st.isExpired s.now then some { s with cache := none } else none
    | none    => none
  | .tick d => some { s with now := s.now + d }

/-! ### The guarantee and its condition -/

/-- What the last write left is still there, unless it has expired. -/
def Visible (s : MemoryState ι) : Prop :=
  ∀ st, s.last = some st → st.isExpired s.now = false → s.cache = some st

/-- The step is not a read's invalidation of an entry that is still good. -/
def CleansUpExpired (s : MemoryState ι) : MemoryEvent ι → Prop
  | .run c =>
    match s.call c with
    | .invalidate (.read _) => ∀ st, s.cache = some st → st.isExpired s.now = true
    | _ => True
  | _ => True

/-! ### The invariant -/

end MemoryState

/-- The call is a write that holds the lock. -/
def MemoryCall.holdsLock : MemoryCall → Bool
  | lookup (.write _ _) | check (.write _ _) _ | invalidate (.write _ _) | decide (.write _ _) _
  | change _ _ _ _ | unlock _ _ _ => true
  | _ => false

namespace MemoryState

variable {ι : Type*} [DecidableEq ι]

/-- The cache holds nothing but what the last write left; a write in `live` holds the lock, and
what it found is what is there, if anything is. -/
structure Consistent (s : MemoryState ι) : Prop where
  cache : ∀ st, s.cache = some st → s.last = some st
  holder : ∀ c, (s.call c).holdsLock = true → s.writer = some c
  checking : ∀ c op giveUpAt st, s.call c = .check (.write op giveUpAt) st →
    ∀ st', s.cache = some st' → st' = st
  clearing : ∀ c op giveUpAt, s.call c = .invalidate (.write op giveUpAt) →
    ∀ st, s.cache = some st → st.isExpired s.now = true

variable {s s' : MemoryState ι} {c : ι} {v : MemoryCall}

omit [DecidableEq ι] in
lemma consistent_init (now : ℕ) (cache : Option Stored) :
    (init now cache : MemoryState ι).Consistent where
  cache _ h := h
  holder c h := by cases h
  checking c _ _ _ h := by cases h
  clearing c _ _ h := by cases h

/-- The invariant survives a step of `c` that puts nothing into the cache and takes the lock from
nobody else, given what it says of the new place of `c`. -/
lemma Consistent.move (hs : s.Consistent) (hcall : s'.call = Function.update s.call c v)
    (hnow : s'.now = s.now) (hlast : s'.last = s.last)
    (hcache : ∀ st, s'.cache = some st → s.cache = some st)
    (hwriter : ∀ d, d ≠ c → s.writer = some d → s'.writer = some d)
    (hv : v.holdsLock = true → s'.writer = some c)
    (hcheck : ∀ op giveUpAt st, v = .check (.write op giveUpAt) st →
      ∀ st', s.cache = some st' → st' = st)
    (hclear : ∀ op giveUpAt, v = .invalidate (.write op giveUpAt) →
      ∀ st, s.cache = some st → st.isExpired s.now = true) : s'.Consistent := by
  refine ⟨fun st h => hlast ▸ hs.cache st (hcache st h), fun d hd => ?_,
    fun d op g st hd st' hst' => ?_, fun d op g hd st hst => ?_⟩ <;>
    rw [hcall, Function.update_apply] at hd <;> split at hd
  case refine_1.isTrue h => exact h ▸ hv hd
  case refine_1.isFalse h => exact hwriter d h (hs.holder d hd)
  case refine_2.isTrue => exact hcheck op g st hd st' (hcache st' hst')
  case refine_2.isFalse => exact hs.checking d op g st hd st' (hcache st' hst')
  case refine_3.isTrue => exact hnow ▸ hclear op g hd st (hcache st hst)
  case refine_3.isFalse => exact hnow ▸ hs.clearing d op g hd st (hcache st hst)

omit [DecidableEq ι] in
/-- While `c` holds the lock, no other call does. -/
lemma Consistent.not_holdsLock (hs : s.Consistent) (hc : (s.call c).holdsLock = true) {d : ι}
    (hd : d ≠ c) : (s.call d).holdsLock = false := by
  by_contra h
  have := hs.holder d (by simpa using h)
  rw [hs.holder c hc] at this
  exact hd (Option.some.inj this).symm

/-- The change of a write keeps the invariant: nobody else is in `live` under the lock. -/
lemma Consistent.change (hs : s.Consistent) (hc : (s.call c).holdsLock = true)
    (hcall : s'.call = Function.update s.call c v) (hcache : s'.cache = s'.last)
    (hwriter : s'.writer = s.writer) (hv : ∃ op giveUpAt reply, v = .unlock op giveUpAt reply) :
    s'.Consistent := by
  obtain ⟨op, giveUpAt, reply, rfl⟩ := hv
  refine ⟨fun st h => hcache ▸ h, fun d hd => ?_, fun d op g st hd => ?_, fun d op g hd => ?_⟩ <;>
    rw [hcall, Function.update_apply] at hd <;> split at hd
  case refine_1.isTrue h => exact hwriter.trans (h ▸ hs.holder c hc)
  case refine_1.isFalse h => exact absurd hd (by simp [hs.not_holdsLock hc h])
  case refine_2.isTrue => cases hd
  case refine_2.isFalse h =>
    exact absurd (hs.not_holdsLock hc h) (by simp [hd, MemoryCall.holdsLock])
  case refine_3.isTrue => cases hd
  case refine_3.isFalse h =>
    exact absurd (hs.not_holdsLock hc h) (by simp [hd, MemoryCall.holdsLock])

/-- What a step of a call can do to the key. -/
inductive Touches (s s' : MemoryState ι) (c : ι) : Prop
  /-- Nothing. -/
  | keeps (cache : s'.cache = s.cache) (last : s'.last = s.last)
  /-- Clean up after `live`. -/
  | cleans (task : MemoryTask) (call : s.call c = .invalidate task) (cache : s'.cache = none)
      (last : s'.last = s.last)
  /-- Carry out a write. -/
  | writes (cache : s'.cache = s'.last)

/-- The step keeps the invariant and the clock. -/
structure KeepsConsistent (s s' : MemoryState ι) (c : ι) : Prop where
  consistent : s'.Consistent
  now : s'.now = s.now
  touches : Touches s s' c

/-- A step that only moves the call on, and neither takes nor drops the lock. -/
lemma Consistent.setCall (hs : s.Consistent)
    (hv : v.holdsLock = true → (s.call c).holdsLock = true)
    (hcheck : ∀ op giveUpAt st, v = .check (.write op giveUpAt) st →
      ∀ st', s.cache = some st' → st' = st)
    (hclear : ∀ op giveUpAt, v = .invalidate (.write op giveUpAt) →
      ∀ st, s.cache = some st → st.isExpired s.now = true) :
    KeepsConsistent s (s.setCall c v) c where
  consistent := hs.move rfl rfl rfl (fun _ => id) (fun _ _ => id) (fun h => hs.holder c (hv h))
    hcheck hclear
  now := rfl
  touches := .keeps rfl rfl

/-- Every step of a call keeps the invariant. -/
lemma Consistent.run (hs : s.Consistent) (h : s.runCall c = some s') :
    KeepsConsistent s s' c := by
  unfold runCall at h
  split at h
  next op giveUpAt hc =>
    split at h
    next hfree =>
      obtain rfl := Option.some.inj h
      refine ⟨hs.move rfl rfl rfl (fun _ => id) (fun d _ hw => ?_) (fun _ => rfl) ?_ ?_, rfl,
        .keeps rfl rfl⟩
      · rw [hfree] at hw
        cases hw
      · rintro _ _ _ ⟨⟩
      · rintro _ _ ⟨⟩
    next => cases h
  next task hc =>
    split at h <;> obtain rfl := Option.some.inj h
    next =>
      refine hs.setCall ?_ ?_ ?_
      · rw [hc]
        cases task <;> exact id
      · rintro _ _ _ ⟨⟩
      · rintro _ _ ⟨⟩
    next st hsome =>
      refine hs.setCall ?_ ?_ ?_
      · rw [hc]
        cases task <;> exact id
      · rintro _ _ _ ⟨⟩ st' hst'
        exact Option.some.inj (hst'.symm.trans hsome)
      · rintro _ _ ⟨⟩
  next task st hc =>
    split at h <;> obtain rfl := Option.some.inj h
    next hexp =>
      refine hs.setCall ?_ ?_ ?_
      · rw [hc]
        cases task <;> exact id
      · rintro _ _ _ ⟨⟩
      · rintro op giveUpAt ⟨⟩ st' hst'
        rwa [hs.checking c op giveUpAt st hc st' hst']
    next =>
      refine hs.setCall ?_ ?_ ?_
      · rw [hc]
        cases task <;> exact id
      · rintro _ _ _ ⟨⟩
      · rintro _ _ ⟨⟩
  next task hc =>
    obtain rfl := Option.some.inj h
    refine ⟨hs.move rfl rfl rfl (by rintro _ ⟨⟩) (fun _ _ => id) ?_ ?_ ?_, rfl,
      .cleans task hc rfl rfl⟩
    · intro hv
      refine hs.holder c ?_
      rw [hc]
      cases task <;> exact hv
    · rintro _ _ _ ⟨⟩
    · rintro _ _ ⟨⟩
  next op existing hc =>
    obtain rfl := Option.some.inj h
    exact hs.setCall (by rintro ⟨⟩) (by rintro _ _ _ ⟨⟩) (by rintro _ _ ⟨⟩)
  next op giveUpAt existing hc =>
    have hheld : (s.call c).holdsLock = true := by rw [hc]; rfl
    split at h <;> obtain rfl := Option.some.inj h <;>
      exact hs.setCall (fun _ => hheld) (by rintro _ _ _ ⟨⟩) (by rintro _ _ ⟨⟩)
  next op giveUpAt reply hc =>
    obtain rfl := Option.some.inj h
    exact hs.setCall (fun _ => by rw [hc]; rfl) (by rintro _ _ _ ⟨⟩) (by rintro _ _ ⟨⟩)
  next op giveUpAt reply st hc =>
    obtain rfl := Option.some.inj h
    exact ⟨hs.change (by rw [hc]; rfl) rfl rfl rfl ⟨_, _, _, rfl⟩, rfl, .writes rfl⟩
  next op giveUpAt reply hc =>
    obtain rfl := Option.some.inj h
    exact ⟨hs.change (by rw [hc]; rfl) rfl rfl rfl ⟨_, _, _, rfl⟩, rfl, .writes rfl⟩
  next op giveUpAt reply hc =>
    obtain rfl := Option.some.inj h
    have hafter : (afterUnlock s.now op giveUpAt reply).holdsLock = false ∧
        (∀ task st, afterUnlock s.now op giveUpAt reply ≠ .check task st) ∧
        ∀ task, afterUnlock s.now op giveUpAt reply ≠ .invalidate task := by
      unfold afterUnlock
      split <;> (try split) <;> simp [MemoryCall.holdsLock]
    obtain ⟨hfree, hcheck, hclear⟩ := hafter
    refine ⟨hs.move rfl rfl rfl (fun _ => id) (fun d hd hw => ?_) (fun hv => ?_)
      (fun _ _ _ hv => absurd hv (hcheck _ _)) (fun _ _ hv => absurd hv (hclear _)), rfl,
      .keeps rfl rfl⟩
    · rw [hs.holder c (by rw [hc]; rfl)] at hw
      exact absurd (Option.some.inj hw).symm hd
    · rw [hfree] at hv
      cases hv
  next op giveUpAt wakeAt hc =>
    split at h
    next =>
      obtain rfl := Option.some.inj h
      exact hs.setCall (by rintro ⟨⟩) (by rintro _ _ _ ⟨⟩) (by rintro _ _ ⟨⟩)
    next => cases h
  next => cases h
  next => cases h

/-- Every step keeps the invariant. -/
lemma Consistent.step {e : MemoryEvent ι} (hs : s.Consistent) (h : s.step e = some s') :
    s'.Consistent := by
  cases e with
  | read c op =>
    simp only [MemoryState.step] at h
    split at h
    · obtain rfl := Option.some.inj h
      exact (hs.setCall (by rintro ⟨⟩) (by rintro _ _ _ ⟨⟩) (by rintro _ _ ⟨⟩)).consistent
    · cases h
  | write c op =>
    simp only [MemoryState.step] at h
    split at h
    · obtain rfl := Option.some.inj h
      exact (hs.setCall (by rintro ⟨⟩) (by rintro _ _ _ ⟨⟩) (by rintro _ _ ⟨⟩)).consistent
    · obtain rfl := Option.some.inj h
      exact (hs.setCall (by rintro ⟨⟩) (by rintro _ _ _ ⟨⟩) (by rintro _ _ ⟨⟩)).consistent
    · cases h
  | run c => exact (hs.run h).consistent
  | evict =>
    simp only [MemoryState.step] at h
    split at h
    · split at h
      · obtain rfl := Option.some.inj h
        exact ⟨by rintro _ ⟨⟩, hs.holder, by rintro _ _ _ _ _ _ ⟨⟩, by rintro _ _ _ _ _ ⟨⟩⟩
      · cases h
    · cases h
  | tick d =>
    obtain rfl := Option.some.inj h
    exact ⟨hs.cache, hs.holder, hs.checking,
      fun c op g hc st hst => Stored.isExpired_mono d (hs.clearing c op g hc st hst)⟩

/-! ### The exact condition -/

omit [DecidableEq ι] in
/-- Dropping an expired entry hides nothing. -/
lemma Visible.drop (hs : s.Visible) (hexp : ∀ st, s.cache = some st → st.isExpired s.now = true)
    (hlast : s'.last = s.last) (hnow : s'.now = s.now) : s'.Visible := by
  intro st hst hgood
  rw [hlast] at hst
  rw [hnow] at hgood
  have := hexp st (hs st hst hgood)
  rw [this] at hgood
  cases hgood

omit [DecidableEq ι] in
lemma Visible.keep (hs : s.Visible) (hcache : s'.cache = s.cache) (hlast : s'.last = s.last)
    (hnow : s'.now = s.now) : s'.Visible := by
  intro st hst hgood
  rw [hcache]
  exact hs st (hlast ▸ hst) (hnow ▸ hgood)

/-- A step that meets the condition keeps what was written visible. -/
lemma Visible.step {e : MemoryEvent ι} (hs : s.Consistent) (hvis : s.Visible)
    (hG : s.CleansUpExpired e) (h : s.step e = some s') : s'.Visible := by
  cases e with
  | read c op =>
    simp only [MemoryState.step] at h
    split at h
    · obtain rfl := Option.some.inj h
      exact hvis.keep rfl rfl rfl
    · cases h
  | write c op =>
    simp only [MemoryState.step] at h
    split at h
    · obtain rfl := Option.some.inj h
      exact hvis.keep rfl rfl rfl
    · obtain rfl := Option.some.inj h
      exact hvis.keep rfl rfl rfl
    · cases h
  | run c =>
    obtain ⟨-, hnow, htouch⟩ := hs.run h
    cases htouch with
    | keeps hcache hlast => exact hvis.keep hcache hlast hnow
    | writes hcache => exact fun st hst _ => hcache.trans hst
    | cleans task hc hcache hlast =>
      refine hvis.drop ?_ hlast hnow
      cases task with
      | read op =>
        simp only [CleansUpExpired, hc] at hG
        exact hG
      | write op giveUpAt => exact hs.clearing c op giveUpAt hc
  | evict =>
    simp only [MemoryState.step] at h
    split at h
    next st hst =>
      split at h
      next hexp =>
        obtain rfl := Option.some.inj h
        refine hvis.drop (fun st' hst' => ?_) rfl rfl
        obtain rfl := Option.some.inj (hst.symm.trans hst')
        exact hexp
      next => cases h
    next => cases h
  | tick d =>
    obtain rfl := Option.some.inj h
    intro st hst hgood
    refine hvis st hst ?_
    by_contra hexp
    rw [Stored.isExpired_mono d (by simpa using hexp)] at hgood
    cases hgood

/-- A read's invalidation of a good entry hides what was written. -/
lemma not_visible_of_not_cleansUpExpired {e : MemoryEvent ι} (hs : s.Consistent)
    (hG : ¬ s.CleansUpExpired e) (h : s.step e = some s') : ¬ s'.Visible := by
  unfold CleansUpExpired at hG
  split at hG
  next c =>
    split at hG
    next op hc =>
      obtain ⟨st, hst⟩ := not_forall.mp hG
      obtain ⟨hcache, hgood⟩ := Classical.not_imp.mp hst
      simp only [MemoryState.step, runCall, hc] at h
      obtain rfl := Option.some.inj h
      intro hvis
      cases hvis st (hs.cache st hcache) (Bool.eq_false_iff.mpr hgood)
    next => exact absurd trivial hG
  next => exact absurd trivial hG

/-- Over every interleaving of any number of reads and writes on a key, what a write left stays
visible until its expiry or the next write exactly when every invalidation by a read finds nothing
in the cache or an entry that has expired. -/
theorem visible_iff_cleansUpExpired (now : ℕ) (cache : Option Stored)
    (es : List (MemoryEvent ι)) :
    Machine.Always step Visible (init now cache) es ↔
      Machine.Meets step CleansUpExpired (init now cache : MemoryState ι) es :=
  Machine.always_iff_meets (I := fun s : MemoryState ι => s.Consistent ∧ s.Visible)
    (fun _ _ _ hs hG h => ⟨hs.1.step h, hs.2.step hs.1 hG h⟩) (fun _ hs => hs.2)
    (fun _ _ _ hs hG h => not_visible_of_not_cleansUpExpired hs.1 hG h)
    ⟨consistent_init now cache, fun _ h _ => h⟩ es

/-- Call 0 writes a value that lives for ten nanoseconds. Call 1 looks it up and finds it expired;
before it invalidates the entry, call 2 writes a value without expiry. -/
def overtakenReadRun : List (MemoryEvent (Fin 3)) :=
  [.write 0 (.set [97] { SetOpts.new with ttl := some 10 }), .run 0, .run 0, .run 0, .run 0,
    .run 0, .read 1 .get, .run 1, .tick 10, .run 1,
    .write 2 (.set [98] .new), .run 2, .run 2, .run 2, .run 2, .run 2, .run 2, .run 2, .run 1]

/-- At the end of that run the write has returned `true` and its value, which never expires, is
gone. -/
theorem visible_fails_when_overtaken :
    ∃ s, Machine.exec step (init 0 none) overtakenReadRun = some s ∧
      s.call 2 = .done (.ok (.bool true)) ∧ s.last = some ⟨.bytes [98], none⟩ ∧
      s.cache = none ∧ ¬ s.Visible := by
  refine ⟨_, rfl, rfl, rfl, rfl, fun hvis => ?_⟩
  cases hvis _ rfl rfl

end MemoryState

end Moso.Kv
