import Moso.Jobs.Redis.Index
import Moso.Foundation.Machine

/-!
# Deduplication in the Redis queue

A push asks the marker of its unique key, which has a time to live of its own, while what should
decide is whether a job of that key is active. When calls run one after the other and none fails,
most of them keep the two in step. The exceptions are a cancel, which leaves the marker, a retry of
dead letters, which does not set it, a day passing, and the end of a job that shares its key.
-/

namespace Moso.Jobs

open Moso.Kv (ZSet)

/-- The unique key of a row that still has work ahead of it. -/
def Held.activeKey (held : Held) : Option String :=
  if held.job.state.isActive then held.job.uniqueKey else none

lemma Held.activeKey_of_active {held : Held} (h : held.job.state.isActive) :
    held.activeKey = held.job.uniqueKey := if_pos h

/-- A call, or time that passes. -/
inductive RedisEvent where
  | call (c : QueueCall)
  | tick (d : ℕ)

namespace RedisStore

open RedisQueue

/-- The unique key of a job, while it is active. -/
def activeKey (s : RedisStore) (id : JobId) : Option String := (s.blobs id).bind Held.activeKey

/-- The store after a call. -/
def call (serial : List String) (s : RedisStore) : QueueCall → RedisStore
  | .push job                       => (s.run (push job)).2
  | .pull queues limit lease worker => (s.run (pull serial queues limit lease worker)).2
  | .ack lease                        => (s.run (RedisQueue.ack serial lease)).2
  | .nack lease error runAt           => (s.run (nack serial lease error runAt)).2
  | .heartbeat lease extend           => (s.run (heartbeat serial lease extend)).2
  | .reclaim queues                   => (s.run (reclaim serial queues)).2
  | .cancel id                        => (s.run (cancel serial id)).2
  | .retry filter limit               => (s.run (retry filter limit)).2
  | .discard filter limit             => (s.run (discard filter limit)).2

def later (s : RedisStore) (d : ℕ) : RedisStore := { s with now := s.now + d }

/-- Only new rows are pushed, under identifiers the store does not hold. -/
def Admits (s : RedisStore) : QueueCall → Prop
  | .push job => job.IsNew ∧ (s.blobs job.id).isNone
  | _         => True

instance decidableAdmits (s : RedisStore) : ∀ c, Decidable (s.Admits c)
  | .push job => inferInstanceAs (Decidable (job.IsNew ∧ (s.blobs job.id).isNone))
  | .pull .. | .ack .. | .nack .. | .heartbeat .. | .reclaim .. | .cancel .. | .retry ..
  | .discard .. => isTrue trivial

/-- Calls one after the other, none of which fails, and time that passes between them. -/
def step (serial : List String) (s : RedisStore) : RedisEvent → Option RedisStore
  | .call c => if s.Admits c then some (s.call serial c) else none
  | .tick d => some (s.later d)

/-- A push of a job with a unique key does nothing exactly when some job with that key is
active. -/
def DedupMatches (s : RedisStore) : Prop :=
  ∀ job key, job.uniqueKey = some key →
    ((s.run (push job)).2 = s ↔ ∃ id, s.activeKey id = some key)

/-- The lease is accepted: its token is the one the job's blob holds. -/
def Accepts (s : RedisStore) (lease : Lease) : Prop :=
  ∃ held, s.blobs lease.jobId = some held ∧ held.token = some lease.token

/-- What keeps the markers in step with the active jobs: the marker of an active job's key does
not lapse; a job that ends shares its key with no other active job; one that is cancelled does
share it, if it has one; and what a retry revives has no key, or one whose marker is there. -/
def MarkersKept (s : RedisStore) : RedisEvent → Prop
  | .tick d => ∀ id key, s.activeKey id = some key → ((s.later d).marker (.uniq key)).isSome
  | .call (.ack lease) | .call (.nack lease _ none) =>
    s.Accepts lease → ∀ key, s.activeKey lease.jobId = some key →
      ∀ other, other ≠ lease.jobId → s.activeKey other ≠ some key
  | .call (.cancel id) =>
    ∀ key, s.activeKey id = some key → ∃ other, other ≠ id ∧ s.activeKey other = some key
  | .call (.retry filter limit) =>
    ∀ letter ∈ (s.run (list filter 0 limit)).1.1, ∀ held, s.blobs letter.id = some held →
      ∀ key, held.job.uniqueKey = some key → (s.marker (.uniq key)).isSome
  | _ => True

/-! ### What most calls leave alone -/

/-- From `s` to `s'` the index is kept, and the clock, the markers of unique keys and the active
keys are the same. -/
structure Shifts (s s' : RedisStore) : Prop where
  indexed : s'.Indexed
  now : s'.now = s.now
  uniq : ∀ key, s'.markers (.uniq key) = s.markers (.uniq key)
  keys : ∀ id, s'.activeKey id = s.activeKey id

variable {s s' s'' : RedisStore} {id : JobId} {blob : Option Held} {held : Held}

lemma Shifts.refl (h : s.Indexed) : Shifts s s := ⟨h, rfl, fun _ => rfl, fun _ => rfl⟩

lemma Shifts.trans (h : Shifts s s') (h' : Shifts s' s'') : Shifts s s'' :=
  ⟨h'.indexed, h'.now.trans h.now, fun key => (h'.uniq key).trans (h.uniq key),
    fun id => (h'.keys id).trans (h.keys id)⟩

lemma activeKey_of_blob (h : s.blobs id = blob) : s.activeKey id = blob.bind Held.activeKey := by
  rw [activeKey, h]

/-- The active keys after one job moved. -/
lemma Moved.activeKey (hm : Moved s s' id blob) (other : JobId) :
    s'.activeKey other = if other = id then blob.bind Held.activeKey else s.activeKey other := by
  split
  next h => rw [RedisStore.activeKey, h, hm.moved]
  next h => rw [RedisStore.activeKey, hm.blobs other h, RedisStore.activeKey]

/-- One job moved and its active key, if it has one, is the same. -/
lemma Moved.shifts (h : s.Indexed) (hm : Moved s s' id blob)
    (hblob : ∀ held, blob = some held →
      held.job.id = id ∧ (held.token.isSome → held.job.state = .running))
    (hkey : blob.bind Held.activeKey = s.activeKey id)
    (huniq : ∀ key, s'.markers (.uniq key) = s.markers (.uniq key)) : Shifts s s' := by
  refine ⟨h.moved hm hblob, hm.now, huniq, ?_⟩
  intro other
  rw [hm.activeKey]
  split
  next heq => rw [heq, hkey]
  next => rfl

/-- A member that was taken out of a set, and nothing else. -/
lemma shifts_removed (h : s.Indexed) (key : SetKey) (id : JobId) :
    Shifts s (s.removed key id) := by
  refine (moved_removed h key id).shifts h ?_ rfl fun _ => rfl
  intro held hblob
  exact ⟨h.named id held hblob, h.token id held hblob⟩

end RedisStore

namespace RedisQueue

open RedisStore

variable {s : RedisStore} (serial : List String) {held : Held} {lease : Lease}

/-- A job that moved from one set to another with the active key it had. -/
lemma shifts_between (h : s.Indexed) {s₁ : RedisStore} {id : JobId} {new : Held}
    {key key' : SetKey} {score : ℤ} (hblob : s.blobs id = some held)
    (hplace : held.place = some key) (hslots : SlotsOnly (s.removed key id) s₁)
    (hid : new.job.id = held.job.id) (hplace' : new.place = some key')
    (htoken : new.token.isSome → new.job.state = .running)
    (hkey : new.activeKey = held.activeKey) :
    Shifts s ((s₁.putBlob new).added key' score id) := by
  have hm := moved_between h hblob hplace hslots.now hslots.blobs hslots.has hid hplace' score
  apply hm.shifts h
  · rintro _ ⟨⟩
    exact ⟨hid.trans (h.named _ _ hblob), htoken⟩
  · rw [activeKey_of_blob hblob]
    exact hkey
  · intro key
    exact hslots.uniq key

/-! ### Pulls -/

section Pull

variable (leaseFor : ℕ) (worker : WorkerId) (until' : ℤ)

lemma pullOne_shifts (h : s.Indexed) (queue : String) (id : JobId) :
    Shifts s (s.run (pullOne serial leaseFor worker until' queue id)).2 := by
  by_cases hhas : s.Has (.ready queue) id
  · obtain ⟨held, hblob, hplace⟩ := h.member _ _ hhas
    obtain ⟨hqueue, hactive⟩ := Held.of_place_ready hplace
    obtain ⟨s₁, hslots, hrun | ⟨token, hrun⟩⟩ :=
      pullOne_cases serial leaseFor worker until' hhas hblob <;> rw [hrun]
    · apply (moved_back h hblob hplace hslots _).shifts h
      · rintro _ ⟨⟩
        exact ⟨h.named _ _ hblob, h.token _ _ hblob⟩
      · exact (activeKey_of_blob hblob).symm
      · intro key
        exact hslots.uniq key
    · apply shifts_between h hblob hplace hslots
      · rfl
      · simp [Held.place, Held.lease, QueuedJob.lease, hqueue]
      · intro _
        rfl
      · rw [Held.activeKey_of_active hactive, Held.activeKey_of_active rfl]
        rfl
  · have hrun : (s.run (pullOne serial leaseFor worker until' queue id)).2 =
        s.removed (.ready queue) id := by
      simp [pullOne, zrem_ne_one hhas, removed]
    rw [hrun]
    exact shifts_removed h _ id

lemma pullCandidates_shifts (h : s.Indexed) (queue : String) (ids : List JobId)
    (leased : List (QueuedJob × Lease)) :
    Shifts s (s.run (pullCandidates serial leaseFor worker until' queue ids leased)).2 := by
  induction ids generalizing s leased with
  | nil => exact .refl h
  | cons id ids ih =>
    have hone := pullOne_shifts serial leaseFor worker until' h queue id
    rw [pullCandidates, run_bind]
    exact hone.trans (ih hone.indexed _)

lemma pullQueues_shifts (h : s.Indexed) (limit : ℕ) (ceiling : ℤ) (queues : List String)
    (leased : List (QueuedJob × Lease)) :
    Shifts s (s.run (pullQueues serial limit leaseFor worker until' ceiling queues leased)).2 := by
  induction queues generalizing s leased with
  | nil => exact .refl h
  | cons queue queues ih =>
    rw [pullQueues]
    split
    · exact .refl h
    · rw [run_bind, run_zrangeByScore, run_bind]
      have hqueue := pullCandidates_shifts serial leaseFor worker until' h queue
        ((s.sets (.ready queue)).zrangeByScore ceiling (limit - leased.length)) leased
      exact hqueue.trans (ih hqueue.indexed _)

end Pull

/-! ### Reclaims -/

lemma reclaimOne_shifts (h : s.Indexed) (now : ℤ) (queue : String) (id : JobId) :
    Shifts s (s.run (reclaimOne serial now queue id)).2 := by
  by_cases hhas : s.Has (.leased queue) id
  · obtain ⟨held, hblob, hplace⟩ := h.member _ _ hhas
    obtain ⟨hqueue, hactive⟩ := Held.of_place_leased hplace
    obtain ⟨s₁, hslots, hrun⟩ := reclaimOne_run serial now hhas hblob
    rw [hrun]
    apply shifts_between h hblob hplace hslots
    · rfl
    · simp [Held.place, released, hqueue]
    · simp [released]
    · rw [Held.activeKey_of_active hactive, Held.activeKey_of_active rfl]
      rfl
  · have hrun : (s.run (reclaimOne serial now queue id)).2 = s.removed (.leased queue) id := by
      simp [reclaimOne, zrem_ne_one hhas, removed]
    rw [hrun]
    exact shifts_removed h _ id

lemma reclaimMembers_shifts (h : s.Indexed) (now : ℤ) (queue : String) (ids : List JobId)
    (count : ℕ) : Shifts s (s.run (reclaimMembers serial now queue ids count)).2 := by
  induction ids generalizing s count with
  | nil => exact .refl h
  | cons id ids ih =>
    have hone := reclaimOne_shifts serial h now queue id
    rw [reclaimMembers, run_bind]
    exact hone.trans (ih hone.indexed _)

lemma reclaim_shifts (h : s.Indexed) (queues : List String) :
    Shifts s (s.run (reclaim serial queues)).2 := by
  rw [reclaim, run_bind, run_utcNow]
  generalize s.now = now
  generalize 0 = count
  induction queues generalizing s count with
  | nil => exact .refl h
  | cons queue queues ih =>
    simp only
    rw [reclaimQueues, run_bind, run_zrangeByScore, run_bind]
    have hqueue := reclaimMembers_shifts serial h now queue
      ((s.sets (.leased queue)).zrangeByScore (timestampMillis now) 1000) count
    exact hqueue.trans (ih hqueue.indexed _)

/-! ### Dead letters -/

lemma run_loadLetters (ids : List JobId) :
    s.run (loadLetters ids) = (ids.filterMap fun id => (s.blobs id).map deadLetter, s) := by
  induction ids with
  | nil => rfl
  | cons id ids ih =>
    rw [loadLetters, run_bind, run_get, run_bind, ih]
    cases h : s.blobs id <;> simp [h]

lemma list_store (filter : DlqFilter) (start limit : ℕ) :
    (s.run (list filter start limit)).2 = s := by
  rw [list, run_bind, run_members, run_bind, run_loadLetters]
  rfl

/-- The letters of a page are dead. -/
lemma has_of_mem_list (h : s.Indexed) {filter : DlqFilter} {start limit : ℕ}
    {letter : DeadLetter} (hletter : letter ∈ (s.run (list filter start limit)).1.1) :
    s.Has .dead letter.id := by
  rw [list, run_bind, run_members, run_bind, run_loadLetters] at hletter
  have hpage := (List.mem_filter.mp (List.mem_of_mem_take (List.mem_of_mem_drop hletter))).1
  obtain ⟨id, hid, hblob⟩ := List.mem_filterMap.mp ((List.mem_insertionSort _).mp hpage)
  obtain ⟨held, hheld, rfl⟩ := Option.map_eq_some_iff.mp hblob
  have hname : (deadLetter held).id = id := h.named id held hheld
  rw [hname]
  exact ZSet.mem_members hid

lemma activeKey_of_dead (h : s.Indexed) {id : JobId} (hhas : s.Has .dead id) :
    s.activeKey id = none := by
  obtain ⟨held, hblob, hplace⟩ := h.member _ _ hhas
  rw [activeKey_of_blob hblob, Option.bind_some, Held.activeKey, Held.of_place_dead hplace]
  rfl

/-- What discards delete had no key any more. -/
lemma discardLetters_shifts (h : s.Indexed) (letters : List DeadLetter) (count : ℕ) :
    Shifts s (s.run (discardLetters letters count)).2 := by
  induction letters generalizing s count with
  | nil => exact .refl h
  | cons letter letters ih =>
    rw [discardLetters, run_bind, run_zrem]
    by_cases hhas : s.Has .dead letter.id
    · rw [if_pos (zrem_eq_one hhas), run_bind, run_deleteBlob]
      have hmoved : Moved s ((s.removed .dead letter.id).dropBlob letter.id) letter.id none := by
        obtain ⟨held, hblob, hplace⟩ := h.member _ _ hhas
        constructor
        · rfl
        · simp
        · intro other hne
          simp [hne]
        · intro key hkey
          rw [has_dropBlob] at hkey
          exact absurd hkey (not_has_removed h hblob hplace key)
        · intro key other _ hkey
          rw [has_dropBlob, has_removed] at hkey
          exact hkey.1
      have hone : Shifts s ((s.removed .dead letter.id).dropBlob letter.id) := by
        apply hmoved.shifts h
        · intro _ hblob
          cases hblob
        · rw [activeKey_of_dead h hhas]
          rfl
        · intro key
          rfl
      exact hone.trans (ih hone.indexed _)
    · rw [if_neg (zrem_ne_one hhas)]
      have hone := shifts_removed h .dead letter.id
      exact hone.trans (ih hone.indexed _)

/-- Of the letters, those that are dead get their key back. -/
structure Revives (s s' : RedisStore) (letters : List DeadLetter) : Prop where
  indexed : s'.Indexed
  now : s'.now = s.now
  uniq : ∀ key, s'.markers (.uniq key) = s.markers (.uniq key)
  back : ∀ letter ∈ letters, ∀ held, s.Has .dead letter.id → s.blobs letter.id = some held →
    s'.activeKey letter.id = held.job.uniqueKey
  rest : ∀ id, (∀ letter ∈ letters, letter.id = id → ¬ s.Has .dead id) →
    s'.activeKey id = s.activeKey id

lemma retryLetters_revives (h : s.Indexed) (letters : List DeadLetter) (count : ℕ) :
    Revives s (s.run (retryLetters letters count)).2 letters := by
  induction letters generalizing s count with
  | nil => exact ⟨h, rfl, fun _ => rfl, fun _ hl => absurd hl List.not_mem_nil, fun _ _ => rfl⟩
  | cons letter letters ih =>
    rw [retryLetters, run_bind]
    by_cases hhas : s.Has .dead letter.id
    · obtain ⟨held, hblob, hplace⟩ := h.member _ _ hhas
      generalize hs₁ : (s.run (retryOne letter)).2 = s₁
      rw [retryOne_run hhas hblob] at hs₁
      have hm : Moved s s₁ letter.id (some (revived held s.now)) := by
        rw [← hs₁]
        apply moved_between h hblob hplace <;> first | rfl | exact fun _ _ => Iff.rfl
      have hkey : s₁.activeKey letter.id = held.job.uniqueKey := by
        rw [hm.activeKey, if_pos rfl]
        rfl
      have hindexed : s₁.Indexed := by
        apply h.moved hm
        intro _ hnew
        obtain rfl := Option.some.inj hnew
        have hname := h.named _ _ hblob
        exact ⟨hname, fun htoken => by cases htoken⟩
      have hout : ¬ s₁.Has .dead letter.id := by
        intro hdead
        obtain ⟨_, ⟨⟩, hdead⟩ := hm.has _ hdead
        cases hdead
      have hrest := ih hindexed (if (s.run (retryOne letter)).1 then count + 1 else count)
      refine ⟨hrest.indexed, hrest.now.trans hm.now, ?_, ?_, ?_⟩
      · intro key
        rw [hrest.uniq, ← hs₁]
        rfl
      · intro other hother held' hdead hblob'
        by_cases hid : other.id = letter.id
        · rw [hid, hblob] at hblob'
          obtain rfl := Option.some.inj hblob'
          rw [hid, ← hkey]
          exact hrest.rest _ fun _ _ _ => hout
        · rcases List.mem_cons.mp hother with rfl | hother
          · exact absurd rfl hid
          · refine hrest.back other hother held' ?_ ?_
            · rw [← hs₁]
              simp [hdead, hid]
            · rw [hm.blobs _ hid, hblob']
      · intro id hnot
        have hid : id ≠ letter.id := by
          rintro rfl
          exact hnot letter List.mem_cons_self rfl hhas
        rw [hrest.rest id, hm.activeKey, if_neg hid]
        intro other hother hname hdead
        exact hnot other (List.mem_cons_of_mem _ hother) hname (hm.others _ _ hid hdead)
    · have hrun : (s.run (retryOne letter)).2 = s.removed .dead letter.id := by
        simp [retryOne, zrem_ne_one hhas, removed]
      rw [hrun]
      have hone := shifts_removed h .dead letter.id
      have hrest := ih hone.indexed (if (s.run (retryOne letter)).1 then count + 1 else count)
      have hsame : ∀ id, (s.removed .dead letter.id).Has .dead id ↔ s.Has .dead id := by
        intro id
        rw [has_removed]
        refine ⟨fun h => h.1, fun h => ⟨h, ?_⟩⟩
        rintro ⟨-, rfl⟩
        exact hhas h
      refine ⟨hrest.indexed, hrest.now, hrest.uniq, ?_, ?_⟩
      · intro other hother held hdead hblob
        rcases List.mem_cons.mp hother with rfl | hother
        · exact absurd hdead hhas
        · exact hrest.back other hother held ((hsame _).mpr hdead) hblob
      · intro id hnot
        apply hrest.rest
        intro other hother hname hdead
        exact hnot other (List.mem_cons_of_mem _ hother) hname ((hsame id).mp hdead)

end RedisQueue

namespace RedisStore

open RedisQueue

variable {s s' : RedisStore} {serial : List String} {held : Held} {lease : Lease}

/-! ### The markers and the active keys -/

/-- The marker of a key is there exactly when a job with that key is active. -/
def Marked (s : RedisStore) : Prop :=
  ∀ key, (s.marker (.uniq key)).isSome ↔ ∃ id, s.activeKey id = some key

lemma push_marked {job : QueuedJob} {key : String} (hkey : job.uniqueKey = some key)
    (hmarker : (s.marker (.uniq key)).isSome) : (s.run (push job)).2 = s := by
  obtain ⟨id, hid⟩ := Option.isSome_iff_exists.mp hmarker
  simp [push, hkey, run_setIfAbsent_of_some hid]

lemma push_run (job : QueuedJob)
    (hmarker : ∀ key, job.uniqueKey = some key → s.marker (.uniq key) = none) :
    (s.run (push job)).2 = (((match job.uniqueKey with
      | some key => s.putMarker (.uniq key) (some (job.id, s.now + 86400000000000))
      | none     => s).putBlob (Held.new job)).added (.ready job.queue) (readyScore job)
        job.id) := by
  cases hkey : job.uniqueKey with
  | none => simp [push, hkey, added]
  | some key => simp [push, hkey, run_setIfAbsent_of_none s (hmarker key hkey), added]

/-- A push of a job with a key does nothing exactly when the key's marker is there. -/
lemma push_eq_self_iff {job : QueuedJob} {key : String} (hkey : job.uniqueKey = some key) :
    (s.run (push job)).2 = s ↔ (s.marker (.uniq key)).isSome := by
  refine ⟨fun h => ?_, push_marked hkey⟩
  by_contra hnone
  rw [Option.not_isSome_iff_eq_none] at hnone
  have hrun := push_run job fun key' hkey' => by
    rw [hkey] at hkey'
    exact Option.some.inj hkey' ▸ hnone
  have hmarkers := congrArg (fun s' => s'.markers (.uniq key)) (hrun.symm.trans h)
  simp only [hkey, added_markers, putBlob_markers, putMarker_markers, Function.update_self]
    at hmarkers
  -- a marker that has not lapsed would have been seen
  rw [marker, ← hmarkers] at hnone
  simp only at hnone
  rw [if_neg (by omega)] at hnone
  cases hnone

lemma exists_job (key : String) : ∃ job : QueuedJob, job.uniqueKey = some key :=
  ⟨{ id := 0, name := "", queue := "", payload := "", state := .ready, priority := .normal,
     attempt := 1, runAt := 0, enqueuedAt := 0, uniqueKey := some key, lastError := none,
     lockedBy := none, lockedUntil := none }, rfl⟩

lemma dedupMatches_iff : s.DedupMatches ↔ s.Marked := by
  constructor
  · intro h key
    obtain ⟨job, hkey⟩ := exists_job key
    exact (push_eq_self_iff hkey).symm.trans (h job key hkey)
  · intro h job key hkey
    exact (push_eq_self_iff hkey).trans (h key)

/-! ### What an event does to the markers -/

lemma marker_congr {key : MarkerKey} (hnow : s'.now = s.now)
    (hmarkers : s'.markers key = s.markers key) : s'.marker key = s.marker key := by
  rw [marker, marker, hnow, hmarkers]

lemma Shifts.marked (h : Shifts s s') : s'.Marked ↔ s.Marked := by
  refine forall_congr' fun key => ?_
  rw [marker_congr h.now (h.uniq key)]
  simp only [h.keys]

lemma later_marked (h : s.Marked) (d : ℕ) :
    (s.later d).Marked ↔
      ∀ id key, s.activeKey id = some key → ((s.later d).marker (.uniq key)).isSome := by
  refine ⟨fun hm id key hid => (hm key).mpr ⟨id, hid⟩, fun hkept key => ⟨?_, ?_⟩⟩
  · intro hlater
    -- a marker that is still there was there before
    apply (h key).mp
    cases hmarker : s.markers (.uniq key) with
    | none =>
      have hmarker' : (s.later d).markers (.uniq key) = none := hmarker
      rw [marker, hmarker'] at hlater
      cases hlater
    | some entry =>
      have hmarker' : (s.later d).markers (.uniq key) = some entry := hmarker
      rw [marker, hmarker'] at hlater
      rw [marker, hmarker]
      simp only at hlater ⊢
      have hle : s.now ≤ (s.later d).now := Int.le_add_of_nonneg_right (Int.natCast_nonneg d)
      by_cases hgone : entry.2 ≤ (s.later d).now
      · rw [if_pos hgone] at hlater
        cases hlater
      · rw [if_neg fun h => hgone (h.trans hle)]
        rfl
  · rintro ⟨id, hid⟩
    exact hkept id key hid

lemma unmark_uniq (s : RedisStore) (held : Held) (key : String) :
    (unmark s held).markers (.uniq key) =
      if held.job.uniqueKey = some key then none else s.markers (.uniq key) := by
  rw [unmark]
  cases hkey : held.job.uniqueKey with
  | none => rfl
  | some own =>
    by_cases h : own = key
    · subst h
      simp
    · have hne : (MarkerKey.uniq key) ≠ .uniq own := fun heq => h (MarkerKey.uniq.inj heq).symm
      simp [h, hne]

/-- A job that ended, and its marker with it. -/
lemma ended_marked (held : Held) (h : s.Marked) {id : JobId} {blob : Option Held}
    (hm : Moved s s' id blob)
    (hend : blob.bind Held.activeKey = none) (hkey : s.activeKey id = held.job.uniqueKey)
    (huniq : ∀ key, s'.markers (.uniq key) = (unmark s held).markers (.uniq key)) :
    s'.Marked ↔ ∀ key, s.activeKey id = some key →
      ∀ other, other ≠ id → s.activeKey other ≠ some key := by
  have hgone : ∀ key, s.activeKey id = some key → s'.marker (.uniq key) = none := by
    intro key hid
    rw [marker, huniq, unmark_uniq, if_pos (hkey.symm.trans hid)]
  constructor
  · intro hs' key hid other hne hother
    have hsome : (s'.marker (.uniq key)).isSome := by
      refine (hs' key).mpr ⟨other, ?_⟩
      rw [hm.activeKey, if_neg hne, hother]
    rw [hgone key hid] at hsome
    cases hsome
  · intro halone key
    by_cases hid : s.activeKey id = some key
    · rw [hgone key hid]
      refine ⟨fun hsome => absurd hsome Bool.false_ne_true, ?_⟩
      rintro ⟨other, hother⟩
      rw [hm.activeKey] at hother
      split at hother
      · rw [hend] at hother
        cases hother
      next hne => exact absurd hother (halone key hid other hne)
    · have hmarker : s'.marker (.uniq key) = s.marker (.uniq key) := by
        apply marker_congr hm.now
        rw [huniq, unmark_uniq, if_neg fun hown => hid (hkey.trans hown)]
      rw [hmarker, h key]
      refine exists_congr fun other => ?_
      rw [hm.activeKey]
      split
      next heq => simp [heq, hend, hid]
      next => rfl

/-- A job that was stopped, its marker still there. -/
lemma stopped_marked (h : s.Marked) {id : JobId} {blob : Option Held} (hm : Moved s s' id blob)
    (hend : blob.bind Held.activeKey = none)
    (huniq : ∀ key, s'.markers (.uniq key) = s.markers (.uniq key)) :
    s'.Marked ↔ ∀ key, s.activeKey id = some key →
      ∃ other, other ≠ id ∧ s.activeKey other = some key := by
  have hother : ∀ other key,
      s'.activeKey other = some key ↔ other ≠ id ∧ s.activeKey other = some key := by
    intro other key
    rw [hm.activeKey]
    split
    next heq => simp [heq, hend]
    next hne => simp [hne]
  have hmarked : ∀ key, (s'.marker (.uniq key)).isSome ↔ ∃ other, s.activeKey other = some key := by
    intro key
    rw [marker_congr hm.now (huniq key)]
    exact h key
  constructor
  · intro hs' key hid
    obtain ⟨other, hkey⟩ := (hs' key).mp ((hmarked key).mpr ⟨id, hid⟩)
    exact ⟨other, (hother other key).mp hkey⟩
  · intro hshared key
    rw [hmarked]
    refine ⟨?_, fun ⟨other, hkey⟩ => ⟨other, ((hother other key).mp hkey).2⟩⟩
    rintro ⟨other, hkey⟩
    by_cases hid : other = id
    · subst hid
      obtain ⟨other, hother'⟩ := hshared key hkey
      exact ⟨other, (hother other key).mpr hother'⟩
    · exact ⟨other, (hother other key).mpr ⟨hid, hkey⟩⟩

/-- Dead letters that work again, their markers as they were. -/
lemma revived_marked (h : s.Indexed) (hs : s.Marked) {letters : List DeadLetter}
    (hr : Revives s s' letters) (hdead : ∀ letter ∈ letters, s.Has .dead letter.id) :
    s'.Marked ↔ ∀ letter ∈ letters, ∀ held, s.blobs letter.id = some held →
      ∀ key, held.job.uniqueKey = some key → (s.marker (.uniq key)).isSome := by
  have hmarker : ∀ key, s'.marker (.uniq key) = s.marker (.uniq key) :=
    fun key => marker_congr hr.now (hr.uniq key)
  constructor
  · intro hs' letter hletter held hblob key hkey
    rw [← hmarker]
    refine (hs' key).mpr ⟨letter.id, ?_⟩
    rw [hr.back letter hletter held (hdead letter hletter) hblob, hkey]
  · intro hthere key
    rw [hmarker]
    constructor
    · intro hkey
      obtain ⟨id, hid⟩ := (hs key).mp hkey
      refine ⟨id, (hr.rest id ?_).trans hid⟩
      intro letter _ _ hhas
      rw [activeKey_of_dead h hhas] at hid
      cases hid
    · rintro ⟨id, hid⟩
      by_cases hletter : ∃ letter ∈ letters, letter.id = id ∧ s.Has .dead id
      · obtain ⟨letter, hmem, rfl, hhas⟩ := hletter
        obtain ⟨held, hblob, -⟩ := h.member _ _ hhas
        rw [hr.back letter hmem held hhas hblob] at hid
        exact hthere letter hmem held hblob key hid
      · rw [hr.rest id fun letter hmem hname hhas => hletter ⟨letter, hmem, hname, hhas⟩] at hid
        exact (hs key).mpr ⟨id, hid⟩

/-- A push under a new identifier keeps the index, and the markers in step. -/
lemma push_keeps (h : s.Indexed) (hs : s.Marked) {job : QueuedJob} (hnew : job.IsNew)
    (hfree : s.blobs job.id = none) :
    (s.run (push job)).2.Indexed ∧ (s.run (push job)).2.Marked := by
  by_cases hmarked : ∃ key, job.uniqueKey = some key ∧ (s.marker (.uniq key)).isSome
  · obtain ⟨key, hkey, hmarker⟩ := hmarked
    rw [push_marked hkey hmarker]
    exact ⟨h, hs⟩
  · have hnone : ∀ key, job.uniqueKey = some key → s.marker (.uniq key) = none := by
      intro key hkey
      rw [← Option.not_isSome_iff_eq_none]
      exact fun hsome => hmarked ⟨key, hkey, hsome⟩
    generalize hs' : (s.run (push job)).2 = s'
    rw [push_run job hnone] at hs'
    have hm : Moved s s' job.id (some (Held.new job)) := by
      rw [← hs']
      apply moved_to
      · cases job.uniqueKey <;> rfl
      · cases job.uniqueKey <;> rfl
      · intro key hhas
        have hhas' : s.Has key job.id := by
          cases hkey : job.uniqueKey <;> rw [hkey] at hhas <;> exact hhas
        obtain ⟨held, hblob, -⟩ := h.member _ _ hhas'
        rw [hfree] at hblob
        cases hblob
      · intro key other _ hhas
        cases hkey : job.uniqueKey <;> rw [hkey] at hhas <;> exact hhas
      · rfl
      · rw [Held.place, Held.new, hnew.1]
    have hactive : (Held.new job).activeKey = job.uniqueKey := by
      apply Held.activeKey_of_active
      rw [Held.new, hnew.1]
      rfl
    refine ⟨h.moved hm ?_, ?_⟩
    · rintro _ ⟨⟩
      exact ⟨rfl, fun htoken => by cases htoken⟩
    · intro key
      by_cases hown : job.uniqueKey = some key
      · refine iff_of_true ?_ ⟨job.id, by rw [hm.activeKey, if_pos rfl, ← hown]; exact hactive⟩
        rw [← hs', marker]
        simp only [added_markers, putBlob_markers, hown, putMarker_markers, Function.update_self,
          added_now, putBlob_now, putMarker_now]
        rw [if_neg (by omega)]
        rfl
      · have hmarker : s'.marker (.uniq key) = s.marker (.uniq key) := by
          apply marker_congr hm.now
          rw [← hs']
          cases hkey : job.uniqueKey with
          | none => rfl
          | some own =>
            have hne : MarkerKey.uniq key ≠ .uniq own :=
              fun heq => hown (hkey.trans (congrArg some (MarkerKey.uniq.inj heq).symm))
            simp [hne]
        have hold : s.activeKey job.id = none := by
          rw [activeKey_of_blob hfree]
          rfl
        rw [hmarker, hs key]
        refine exists_congr fun id => ?_
        rw [hm.activeKey]
        split
        next heq => simp [heq, hold, hactive, hown]
        next => rfl

section Lease

variable (serial)

lemma ack_of_not_accepts (h : ¬ s.Accepts lease) :
    (s.run (RedisQueue.ack serial lease)).2 = s := by
  cases hblob : s.blobs lease.jobId with
  | none => simp [RedisQueue.ack, hblob]
  | some held =>
    have htoken : held.token ≠ some lease.token := fun htoken => h ⟨held, hblob, htoken⟩
    simp [RedisQueue.ack, hblob, htoken]

lemma nack_of_not_accepts (h : ¬ s.Accepts lease) (error : String) (runAt : Option ℤ) :
    (s.run (nack serial lease error runAt)).2 = s := by
  cases hblob : s.blobs lease.jobId with
  | none => simp [nack, hblob]
  | some held =>
    have htoken : held.token ≠ some lease.token := fun htoken => h ⟨held, hblob, htoken⟩
    simp [nack, hblob, htoken]

lemma heartbeat_of_not_accepts (h : ¬ s.Accepts lease) (extend : ℕ) :
    (s.run (heartbeat serial lease extend)).2 = s := by
  cases hblob : s.blobs lease.jobId with
  | none => simp [heartbeat, hblob]
  | some held =>
    have htoken : held.token ≠ some lease.token := fun htoken => h ⟨held, hblob, htoken⟩
    simp [heartbeat, hblob, htoken]

/-- A held job has its unique key for an active key. -/
lemma activeKey_of_held (h : s.Indexed) (hblob : s.blobs lease.jobId = some held)
    (htoken : held.token = some lease.token) :
    s.activeKey lease.jobId = held.activeKey ∧ held.activeKey = held.job.uniqueKey := by
  refine ⟨activeKey_of_blob hblob, Held.activeKey_of_active ?_⟩
  rw [h.token _ _ hblob (by rw [htoken]; rfl)]
  rfl

lemma ack_keeps (h : s.Indexed) (hs : s.Marked) (lease : Lease) :
    (s.run (RedisQueue.ack serial lease)).2.Indexed ∧
      ((s.run (RedisQueue.ack serial lease)).2.Marked ↔ s.MarkersKept (.call (.ack lease))) := by
  by_cases hacc : s.Accepts lease
  · obtain ⟨held, hblob, htoken⟩ := hacc
    have hm := ack_moved serial h hblob htoken
    obtain ⟨hactive, hown⟩ := activeKey_of_held h hblob htoken
    refine ⟨h.moved hm (by intro _ hnone; cases hnone), ?_⟩
    have hended := ended_marked held hs hm rfl (hactive.trans hown) (by
      intro key
      obtain ⟨s₁, hslots, hrun⟩ := ack_run serial hblob htoken
      rw [hrun, dropBlob_markers, putBlob_markers, hslots.uniq, unmark_uniq, unmark_uniq,
        removed_markers])
    have hacc : s.Accepts lease := ⟨held, hblob, htoken⟩
    exact hended.trans ⟨fun hsole _ => hsole, fun hsole => hsole hacc⟩
  · rw [ack_of_not_accepts serial hacc]
    exact ⟨h, iff_of_true hs fun hacc' => absurd hacc' hacc⟩

lemma bury_keeps (h : s.Indexed) (hs : s.Marked) (lease : Lease) (error : String) :
    (s.run (nack serial lease error none)).2.Indexed ∧
      ((s.run (nack serial lease error none)).2.Marked ↔
        s.MarkersKept (.call (.nack lease error none))) := by
  by_cases hacc : s.Accepts lease
  · obtain ⟨held, hblob, htoken⟩ := hacc
    have hm := bury_moved serial h hblob htoken error
    obtain ⟨hactive, hown⟩ := activeKey_of_held h hblob htoken
    refine ⟨h.moved hm ?_, ?_⟩
    · rintro _ ⟨⟩
      have hname := h.named _ _ hblob
      exact ⟨hname, fun hsome => by cases hsome⟩
    have hended := ended_marked held hs hm rfl (hactive.trans hown) (by
      intro key
      obtain ⟨s₁, hslots, hrun⟩ := bury_run serial hblob htoken error
      rw [hrun, added_markers, putBlob_markers, unmark_uniq, unmark_uniq, hslots.uniq,
        removed_markers])
    have hacc : s.Accepts lease := ⟨held, hblob, htoken⟩
    exact hended.trans ⟨fun hsole _ => hsole, fun hsole => hsole hacc⟩
  · rw [nack_of_not_accepts serial hacc]
    exact ⟨h, iff_of_true hs fun hacc' => absurd hacc' hacc⟩

lemma nack_shifts (h : s.Indexed) (lease : Lease) (error : String) (at' : ℤ) :
    Shifts s (s.run (nack serial lease error (some at'))).2 := by
  by_cases hacc : s.Accepts lease
  · obtain ⟨held, hblob, htoken⟩ := hacc
    obtain ⟨hactive, hown⟩ := activeKey_of_held h hblob htoken
    apply (nack_moved serial h hblob htoken error at').shifts h
    · rintro _ ⟨⟩
      have hname := h.named _ _ hblob
      exact ⟨hname, fun hsome => by cases hsome⟩
    · rw [hactive, hown]
      rfl
    · intro key
      obtain ⟨s₁, hslots, hrun⟩ := nack_run serial hblob htoken error at'
      rw [hrun]
      exact hslots.uniq key
  · rw [nack_of_not_accepts serial hacc]
    exact .refl h

lemma heartbeat_shifts (h : s.Indexed) (lease : Lease) (extend : ℕ) :
    Shifts s (s.run (heartbeat serial lease extend)).2 := by
  by_cases hacc : s.Accepts lease
  · obtain ⟨held, hblob, htoken⟩ := hacc
    have hactive := (activeKey_of_held h hblob htoken).1
    apply (heartbeat_moved serial h hblob htoken extend).shifts h
    · rintro _ ⟨⟩
      have hname := h.named _ _ hblob
      have hrunning := h.token _ _ hblob
      exact ⟨hname, hrunning⟩
    · rw [hactive]
      rfl
    · intro key
      obtain ⟨s₁, hslots, hrun⟩ := heartbeat_run serial hblob htoken extend
      rw [hrun]
      exact hslots.uniq key
  · rw [heartbeat_of_not_accepts serial hacc]
    exact .refl h

end Lease

lemma cancel_keeps (h : s.Indexed) (hs : s.Marked) (id : JobId) :
    (s.run (cancel serial id)).2.Indexed ∧
      ((s.run (cancel serial id)).2.Marked ↔ s.MarkersKept (.call (.cancel id))) := by
  by_cases hactive : ∃ held, s.blobs id = some held ∧ held.job.state.isActive
  · obtain ⟨held, hblob, hactive⟩ := hactive
    have hm := cancel_moved serial h hblob hactive
    refine ⟨h.moved hm ?_, stopped_marked hs hm rfl ?_⟩
    · rintro _ ⟨⟩
      have hname := h.named _ _ hblob
      exact ⟨hname, fun hsome => by cases hsome⟩
    · intro key
      obtain ⟨s₁, hslots, hrun⟩ := cancel_run serial hblob hactive
      rw [hrun]
      exact hslots.uniq key
  · have hnone : s.activeKey id = none := by
      cases hblob : s.blobs id with
      | none =>
        rw [activeKey_of_blob hblob]
        rfl
      | some held =>
        rw [activeKey_of_blob hblob]
        exact if_neg fun h => hactive ⟨held, hblob, h⟩
    have hrun : (s.run (cancel serial id)).2 = s := by
      cases hblob : s.blobs id with
      | none => simp [cancel, hblob]
      | some held =>
        have hended : held.job.state.isActive = false :=
          Bool.eq_false_iff.mpr fun h => hactive ⟨held, hblob, h⟩
        simp [cancel, hblob, hended]
    rw [hrun]
    refine ⟨h, iff_of_true hs fun key hkey => ?_⟩
    rw [hnone] at hkey
    cases hkey

/-- An event keeps the index, and keeps the markers in step exactly when it meets the
condition. -/
lemma step_marked (h : s.Indexed) (hs : s.Marked) {e : RedisEvent}
    (hstep : step serial s e = some s') : s'.Indexed ∧ (s'.Marked ↔ s.MarkersKept e) := by
  have hshift : ∀ {s''}, Shifts s s'' → s''.Indexed ∧ (s''.Marked ↔ True) :=
    fun hsh => ⟨hsh.indexed, iff_true_intro (hsh.marked.mpr hs)⟩
  cases e with
  | tick d =>
    obtain rfl : s.later d = s' := Option.some.inj hstep
    exact ⟨⟨h.named, h.token, h.member⟩, later_marked hs d⟩
  | call c =>
    rw [step] at hstep
    split at hstep
    next hadm =>
      obtain rfl := Option.some.inj hstep
      cases c with
      | push job =>
        obtain ⟨hindexed, hmarked⟩ := push_keeps h hs hadm.1 (Option.isNone_iff_eq_none.mp hadm.2)
        exact ⟨hindexed, iff_true_intro hmarked⟩
      | pull queues limit lease worker =>
        apply hshift
        rw [call, pull, run_bind, run_utcNow]
        exact pullQueues_shifts serial _ _ _ h _ _ _ _
      | ack lease => exact ack_keeps serial h hs lease
      | nack lease error runAt =>
        cases runAt with
        | none => exact bury_keeps serial h hs lease error
        | some at' => exact hshift (nack_shifts serial h lease error at')
      | heartbeat lease extend => exact hshift (heartbeat_shifts serial h lease extend)
      | reclaim queues => exact hshift (reclaim_shifts serial h queues)
      | cancel id => exact cancel_keeps h hs id
      | retry filter limit =>
        have hrun : s.call serial (.retry filter limit) =
            (s.run (retryLetters (s.run (list filter 0 limit)).1.1 0)).2 := by
          rw [call, retry, run_bind, list_store]
        rw [hrun]
        have hr := retryLetters_revives h (s.run (list filter 0 limit)).1.1 0
        exact ⟨hr.indexed, revived_marked h hs hr fun _ hletter => has_of_mem_list h hletter⟩
      | discard filter limit =>
        have hrun : s.call serial (.discard filter limit) =
            (s.run (discardLetters (s.run (list filter 0 limit)).1.1 0)).2 := by
          rw [call, RedisQueue.discard, run_bind, list_store]
        rw [hrun]
        exact hshift (discardLetters_shifts h _ 0)
    next => cases hstep

/-- **Deduplication.** In a run of calls one after the other, none of which fails, a push of a job
with a unique key is a silent no-op exactly when a job with that key is active, in every state
visited, exactly when every step keeps the markers: no marker of an active job lapses, no job that
ends shares its key with an active one, every active job with a key that is cancelled does, and
what is retried has its marker. -/
theorem dedupMatches_iff_markersKept (serial : List String) (now : ℤ) (es : List RedisEvent) :
    Machine.Always (step serial) DedupMatches (empty now) es ↔
      Machine.Meets (step serial) MarkersKept (empty now) es := by
  apply Machine.always_iff_meets (I := fun s => s.Indexed ∧ s.Marked)
  · intro s e s' ⟨h, hs⟩ hkept hstep
    obtain ⟨hindexed, hmarked⟩ := step_marked h hs hstep
    exact ⟨hindexed, hmarked.mpr hkept⟩
  · intro s ⟨_, hs⟩
    exact dedupMatches_iff.mpr hs
  · intro s e s' ⟨h, hs⟩ hnot hstep hmatches
    obtain ⟨_, hmarked⟩ := step_marked h hs hstep
    exact hnot (hmarked.mp (dedupMatches_iff.mp hmatches))
  · refine ⟨indexed_empty now, fun key => iff_of_false ?_ ?_⟩
    · exact Bool.false_ne_true
    · rintro ⟨id, hid⟩
      cases hid

/-- A job that is pushed at instant zero, at most once while another of its key is active. -/
def reminder : QueuedJob where
  id := 1
  name := "send_reminder"
  queue := "default"
  payload := "\x7b\x7d"
  state := .ready
  priority := .normal
  attempt := 1
  runAt := 0
  enqueuedAt := 0
  uniqueKey := some "reminder:7"
  lastError := none
  lockedBy := none
  lockedUntil := none

/-- A job with a unique key is pushed and cancelled. No job of its key is active, and for a day a
push with the key does nothing. -/
theorem dedupMatches_fails_after_cancel :
    ∃ s, Machine.exec (step []) (empty 0)
        [.call (.push reminder), .call (.cancel reminder.id), .tick 86399999999999] = some s ∧
      (∀ id, s.activeKey id = none) ∧
      (s.run (push { reminder with id := 2 })).2 = s ∧ ¬ s.DedupMatches := by
  have hrun : ∃ s, Machine.exec (step []) (empty 0)
      [.call (.push reminder), .call (.cancel reminder.id), .tick 86399999999999] = some s ∧
      (∀ id, id ≠ 1 → s.blobs id = none) ∧ s.activeKey 1 = none ∧
      (s.marker (.uniq "reminder:7")).isSome :=
    ⟨_, rfl, fun id hid => (Function.update_of_ne hid _ _).trans (Function.update_of_ne hid _ _),
      rfl, rfl⟩
  obtain ⟨s, hexec, hothers, hone, hmarker⟩ := hrun
  have hidle : ∀ id, s.activeKey id = none := by
    intro id
    by_cases hid : id = 1
    · rw [hid, hone]
    · rw [activeKey_of_blob (hothers id hid)]
      rfl
  have hkey : { reminder with id := 2 }.uniqueKey = some "reminder:7" := rfl
  have hpush := push_marked hkey hmarker
  refine ⟨s, hexec, hidle, hpush, fun hmatches => ?_⟩
  obtain ⟨id, hid⟩ := (hmatches _ _ rfl).mp hpush
  rw [hidle id] at hid
  cases hid

end RedisStore

end Moso.Jobs
