import Moso.Jobs.Redis.Pull

/-!
# The sets and the blobs

What ties the sorted sets of the Redis queue to its blobs when calls run one after the other: a
member of a set has a blob, whose state is the one the set stands for. Each operation moves one
job at a time, from one set to another.
-/

namespace Moso.Jobs

open Moso.Kv (ZSet)

/-- The set a row belongs in, by its state. -/
def Held.place (held : Held) : Option SetKey :=
  match held.job.state with
  | .ready | .retrying => some (.ready held.job.queue)
  | .running           => some (.leased held.job.queue)
  | .dead              => some .dead
  | .done | .cancelled => none

lemma Held.place_of_waiting {held : Held} (h : held.job.state.isWaiting) :
    held.place = some (.ready held.job.queue) := by
  rw [place]
  cases hs : held.job.state <;> rw [hs] at h <;> first | rfl | cases h

lemma Held.place_of_running {held : Held} (h : held.job.state = .running) :
    held.place = some (.leased held.job.queue) := by
  rw [place, h]

lemma Held.of_place_ready {held : Held} {queue : String}
    (h : held.place = some (.ready queue)) :
    held.job.queue = queue ∧ held.job.state.isActive := by
  rw [place] at h
  cases hs : held.job.state <;> rw [hs] at h <;> cases h <;> exact ⟨rfl, rfl⟩

lemma Held.of_place_leased {held : Held} {queue : String}
    (h : held.place = some (.leased queue)) :
    held.job.queue = queue ∧ held.job.state.isActive := by
  rw [place] at h
  cases hs : held.job.state <;> rw [hs] at h <;> cases h
  exact ⟨rfl, rfl⟩

lemma Held.of_place_dead {held : Held} (h : held.place = some .dead) :
    held.job.state = .dead := by
  rw [place] at h
  cases hs : held.job.state <;> rw [hs] at h <;> cases h

namespace RedisStore

/-- The job is a member of the set. -/
def Has (s : RedisStore) (key : SetKey) (id : JobId) : Prop := ∃ score, (score, id) ∈ s.sets key

/-- Blobs are kept under their own names, only running rows hold a token, and the members of a
set have blobs that belong there. -/
structure Indexed (s : RedisStore) : Prop where
  named : ∀ id held, s.blobs id = some held → held.job.id = id
  token : ∀ id held, s.blobs id = some held → held.token.isSome → held.job.state = .running
  member : ∀ key id, s.Has key id → ∃ held, s.blobs id = some held ∧ held.place = some key

/-- From `s` to `s'` one job moved: its blob is `blob`, and it is in no set but the one its row
belongs in. -/
structure Moved (s s' : RedisStore) (id : JobId) (blob : Option Held) : Prop where
  now : s'.now = s.now
  moved : s'.blobs id = blob
  blobs : ∀ other, other ≠ id → s'.blobs other = s.blobs other
  has : ∀ key, s'.Has key id → ∃ held, blob = some held ∧ held.place = some key
  others : ∀ key other, other ≠ id → s'.Has key other → s.Has key other

lemma indexed_empty (now : ℤ) : (empty now).Indexed where
  named _ _ h := by cases h
  token _ _ h := by cases h
  member key id h := by
    obtain ⟨score, hmem⟩ := h
    exact absurd hmem (ZSet.not_mem_empty _)

/-- A job that moved to where its blob belongs keeps the index. -/
lemma Indexed.moved {s s' : RedisStore} {id : JobId} {blob : Option Held} (h : s.Indexed)
    (hm : Moved s s' id blob)
    (hblob : ∀ held, blob = some held →
      held.job.id = id ∧ (held.token.isSome → held.job.state = .running)) : s'.Indexed where
  named other held hheld := by
    by_cases hid : other = id
    · subst hid
      exact (hblob held (hm.moved ▸ hheld)).1
    · exact h.named other held (hm.blobs other hid ▸ hheld)
  token other held hheld := by
    by_cases hid : other = id
    · subst hid
      exact (hblob held (hm.moved ▸ hheld)).2
    · exact h.token other held (hm.blobs other hid ▸ hheld)
  member key other hhas := by
    by_cases hid : other = id
    · subst hid
      rw [hm.moved]
      exact hm.has key hhas
    · rw [hm.blobs other hid]
      exact h.member key other (hm.others key other hid hhas)

/-- A running job is in its leased set, if anywhere. -/
lemma Indexed.eq_of_has {s : RedisStore} (h : s.Indexed) {id : JobId} {held : Held}
    (hblob : s.blobs id = some held) {key key' : SetKey} (hplace : held.place = some key)
    (hhas : s.Has key' id) : key' = key := by
  obtain ⟨other, hother, hkey⟩ := h.member key' id hhas
  rw [hblob] at hother
  obtain rfl := Option.some.inj hother
  exact Option.some.inj (hkey.symm.trans hplace)

/-! ### Memberships -/

section Has

variable {s : RedisStore} {key key' : SetKey} {id other : JobId}

@[simp] lemma has_putBlob (held : Held) : (s.putBlob held).Has key id ↔ s.Has key id := Iff.rfl

@[simp] lemma has_dropBlob : (s.dropBlob other).Has key id ↔ s.Has key id := Iff.rfl

@[simp] lemma has_putMarker (marker : MarkerKey) (v : Option (JobId × ℤ)) :
    (s.putMarker marker v).Has key id ↔ s.Has key id := Iff.rfl

/-- What a `zadd` adds. -/
def added (s : RedisStore) (key : SetKey) (score : ℤ) (id : JobId) : RedisStore :=
  s.putSet key ((s.sets key).zadd score id).2

/-- What a `zrem` leaves. -/
def removed (s : RedisStore) (key : SetKey) (id : JobId) : RedisStore :=
  s.putSet key ((s.sets key).zrem id).2

@[simp] lemma has_added (score : ℤ) :
    (s.added key' score other).Has key id ↔ (key = key' ∧ id = other) ∨ s.Has key id := by
  by_cases hkey : key = key'
  · subst hkey
    simp only [Has, added, putSet_sets, Function.update_self, ZSet.mem_zadd, Prod.mk.injEq,
      true_and]
    constructor
    · rintro ⟨score, ⟨-, rfl⟩ | ⟨hmem, -⟩⟩
      · exact .inl rfl
      · exact .inr ⟨score, hmem⟩
    · rintro (rfl | ⟨score', hmem⟩)
      · exact ⟨score, .inl ⟨rfl, rfl⟩⟩
      · by_cases hid : id = other
        · exact ⟨score, .inl ⟨rfl, hid⟩⟩
        · exact ⟨score', .inr ⟨hmem, hid⟩⟩
  · simp [Has, added, hkey]

@[simp] lemma has_removed :
    (s.removed key' other).Has key id ↔ s.Has key id ∧ ¬(key = key' ∧ id = other) := by
  by_cases hkey : key = key'
  · subst hkey
    simp only [Has, removed, putSet_sets, Function.update_self, ZSet.mem_zrem]
    simp
  · simp [Has, removed, hkey]

end Has

section Fields

variable (s : RedisStore) (key : SetKey) (score : ℤ) (id : JobId) (held : Held)

@[simp] lemma added_now : (s.added key score id).now = s.now := rfl

@[simp] lemma added_blobs : (s.added key score id).blobs = s.blobs := rfl

@[simp] lemma added_markers : (s.added key score id).markers = s.markers := rfl

@[simp] lemma removed_now : (s.removed key id).now = s.now := rfl

@[simp] lemma removed_blobs : (s.removed key id).blobs = s.blobs := rfl

@[simp] lemma removed_markers : (s.removed key id).markers = s.markers := rfl

@[simp] lemma putBlob_now : (s.putBlob held).now = s.now := rfl

@[simp] lemma putBlob_markers : (s.putBlob held).markers = s.markers := rfl

@[simp] lemma dropBlob_now : (s.dropBlob id).now = s.now := rfl

@[simp] lemma dropBlob_blobs : (s.dropBlob id).blobs = Function.update s.blobs id none := rfl

@[simp] lemma dropBlob_markers : (s.dropBlob id).markers = s.markers := rfl

@[simp] lemma putMarker_now (marker : MarkerKey) (v : Option (JobId × ℤ)) :
    (s.putMarker marker v).now = s.now := rfl

@[simp] lemma putMarker_markers (marker : MarkerKey) (v : Option (JobId × ℤ)) :
    (s.putMarker marker v).markers = Function.update s.markers marker v := rfl

@[simp] lemma run_deleteBlob : s.run (JobStore.deleteBlob id) = ((), s.dropBlob id) := rfl

@[simp] lemma run_deleteMarker (marker : MarkerKey) :
    s.run (JobStore.deleteMarker marker) = ((), s.putMarker marker none) := rfl

@[simp] lemma run_members (limit : ℕ) :
    s.run (JobStore.members key limit) = ((s.sets key).members limit, s) := rfl

end Fields

/-! ### Serial slots -/

/-- The two stores differ in their serial markers alone, and in the tokens drawn. -/
structure SlotsOnly (s s' : RedisStore) : Prop where
  now : s'.now = s.now
  blobs : s'.blobs = s.blobs
  sets : s'.sets = s.sets
  uniq : ∀ key, s'.markers (.uniq key) = s.markers (.uniq key)

lemma SlotsOnly.refl (s : RedisStore) : SlotsOnly s s := ⟨rfl, rfl, rfl, fun _ => rfl⟩

lemma slotsOnly_putMarker (s : RedisStore) (name : String) (v : Option (JobId × ℤ)) :
    SlotsOnly s (s.putMarker (.serial name) v) :=
  ⟨rfl, rfl, rfl, fun key => by simp⟩

lemma SlotsOnly.has {s s' : RedisStore} (h : SlotsOnly s s') (key : SetKey) (id : JobId) :
    s'.Has key id ↔ s.Has key id := by
  rw [Has, Has, h.sets]

lemma run_setIfAbsent_of_some {s : RedisStore} {key : MarkerKey} {holder : JobId}
    (h : s.marker key = some holder) (id : JobId) (ttl : ℕ) :
    s.run (JobStore.setIfAbsent key id ttl) = (false, s) := by
  simp only [run, JobStore.setIfAbsent, h]

lemma slotsOnly_claim (s : RedisStore) (name : String) (id : JobId) (lease : ℕ) :
    SlotsOnly s (s.run (RedisQueue.claimSerial name id lease)).2 := by
  rw [RedisQueue.claimSerial]
  cases h : s.marker (.serial name) with
  | none =>
    rw [run_setIfAbsent_of_none s h]
    exact slotsOnly_putMarker s name _
  | some holder =>
    rw [run_setIfAbsent_of_some h]
    exact .refl s

lemma slotsOnly_expire (s : RedisStore) (name : String) (ttl : ℕ) :
    SlotsOnly s (s.run (JobStore.expire (.serial name) ttl)).2 := by
  cases h : s.marker (.serial name) with
  | none =>
    simp only [run, JobStore.expire, h]
    exact .refl s
  | some holder =>
    simp only [run, JobStore.expire, h]
    exact slotsOnly_putMarker s name _

lemma slotsOnly_release (s : RedisStore) (serial : List String) (held : Held) :
    SlotsOnly s (s.run (RedisQueue.releaseSerial serial held)).2 := by
  by_cases hs : held.job.name ∈ serial
  · have hrun : (s.run (RedisQueue.releaseSerial serial held)).2 =
        (s.run (JobStore.compareAndDelete (.serial held.job.name) held.job.id)).2 := by
      simp [RedisQueue.releaseSerial, hs]
    rw [hrun]
    change SlotsOnly s (if _ then (true, s.putMarker (.serial held.job.name) none)
      else (false, s) : Bool × RedisStore).2
    split
    · exact slotsOnly_putMarker s _ none
    · exact .refl s
  · simpa [RedisQueue.releaseSerial, hs] using SlotsOnly.refl s

end RedisStore

namespace RedisQueue

open RedisStore

variable {s : RedisStore} (serial : List String) {held : Held} {lease : Lease}

/-- The store once the row's dedupe marker is gone. -/
def unmark (s : RedisStore) (held : Held) : RedisStore :=
  match held.job.uniqueKey with
  | some key => s.putMarker (.uniq key) none
  | none     => s

@[simp] lemma unmark_now (s : RedisStore) (held : Held) : (unmark s held).now = s.now := by
  rw [unmark]
  split <;> rfl

@[simp] lemma unmark_blobs (s : RedisStore) (held : Held) : (unmark s held).blobs = s.blobs := by
  rw [unmark]
  split <;> rfl

@[simp] lemma unmark_has (s : RedisStore) (held : Held) (key : SetKey) (id : JobId) :
    (unmark s held).Has key id ↔ s.Has key id := by
  rw [unmark]
  split <;> rfl

/-! ### One job at a time -/

/-- Once it is out of its set, a job is in none. -/
lemma not_has_removed (h : s.Indexed) {id : JobId} (hblob : s.blobs id = some held)
    {key : SetKey} (hplace : held.place = some key) (key' : SetKey) :
    ¬ (s.removed key id).Has key' id := by
  rw [has_removed]
  rintro ⟨hhas, hnot⟩
  exact hnot ⟨h.eq_of_has hblob hplace hhas, rfl⟩

/-- A new blob and the membership that goes with it. -/
lemma moved_to {s₁ : RedisStore} {id : JobId} {new : Held} {key : SetKey}
    (hnow : s₁.now = s.now) (hblobs : s₁.blobs = s.blobs)
    (hhas : ∀ key', s₁.Has key' id → key' = key)
    (hothers : ∀ key' other, other ≠ id → s₁.Has key' other → s.Has key' other)
    (hid : new.job.id = id) (hplace : new.place = some key) (score : ℤ) :
    Moved s ((s₁.putBlob new).added key score id) id (some new) := by
  constructor
  · simp [hnow]
  · simp [hid]
  · intro other hne
    simp [hblobs, hid, hne]
  · intro key' h
    rw [has_added, has_putBlob] at h
    rcases h with ⟨rfl, -⟩ | h
    · exact ⟨new, rfl, hplace⟩
    · exact ⟨new, rfl, hhas key' h ▸ hplace⟩
  · intro key' other hne h
    rw [has_added, has_putBlob] at h
    rcases h with ⟨-, rfl⟩ | h
    · exact absurd rfl hne
    · exact hothers key' other hne h

/-- From the set it belonged in to the one its new blob belongs in. -/
lemma moved_between (h : s.Indexed) {s₁ : RedisStore} {id : JobId} {new : Held}
    {key key' : SetKey} (hblob : s.blobs id = some held) (hplace : held.place = some key)
    (hnow : s₁.now = s.now) (hblobs : s₁.blobs = s.blobs)
    (hhas : ∀ k other, s₁.Has k other ↔ (s.removed key id).Has k other)
    (hid : new.job.id = held.job.id) (hplace' : new.place = some key') (score : ℤ) :
    Moved s ((s₁.putBlob new).added key' score id) id (some new) := by
  apply moved_to hnow hblobs _ _ (hid.trans (h.named _ _ hblob)) hplace'
  · intro k hk
    exact absurd ((hhas k id).mp hk) (not_has_removed h hblob hplace k)
  · intro k other _ hk
    exact (has_removed.1 ((hhas k other).mp hk)).1

lemma ack_run (hblob : s.blobs lease.jobId = some held) (htoken : held.token = some lease.token) :
    ∃ s₁, SlotsOnly (unmark (s.removed (.leased held.job.queue) lease.jobId) held) s₁ ∧
      (s.run (ack serial lease)).2 = (s₁.putBlob { held with
        token := none
        job := { held.job with state := .done, lockedUntil := none } }).dropBlob lease.jobId := by
  refine ⟨_, slotsOnly_release _ serial held, ?_⟩
  cases hkey : held.job.uniqueKey <;> simp [ack, hblob, htoken, hkey, unmark, removed]

/-- An acked job leaves its blob and its set. -/
lemma ack_moved (h : s.Indexed) (hblob : s.blobs lease.jobId = some held)
    (htoken : held.token = some lease.token) :
    Moved s (s.run (ack serial lease)).2 lease.jobId none := by
  obtain ⟨s₁, hslots, hrun⟩ := ack_run serial hblob htoken
  have hid := h.named _ _ hblob
  have hplace := Held.place_of_running (h.token _ _ hblob (by rw [htoken]; rfl))
  rw [hrun]
  constructor
  · simp [hslots.now]
  · simp
  · intro other hne
    simp [hslots.blobs, hid, hne]
  · intro key hhas
    rw [has_dropBlob, has_putBlob, hslots.has, unmark_has] at hhas
    exact absurd hhas (not_has_removed h hblob hplace key)
  · intro key other hne hhas
    rw [has_dropBlob, has_putBlob, hslots.has, unmark_has, has_removed] at hhas
    exact hhas.1

/-- The row of a job whose attempt failed for good at the instant `now`. -/
def buried (held : Held) (error : String) (now : ℤ) : Held :=
  { held with
    token := none
    failedAt := some now
    job := { held.job with state := .dead, lockedUntil := none, lastError := some error } }

lemma bury_run (hblob : s.blobs lease.jobId = some held) (htoken : held.token = some lease.token)
    (error : String) :
    ∃ s₁, SlotsOnly (s.removed (.leased held.job.queue) lease.jobId) s₁ ∧
      (s.run (nack serial lease error none)).2 =
        ((unmark s₁ held).putBlob (buried held error s₁.now)).added .dead
          (timestampMillis s₁.now) lease.jobId := by
  refine ⟨_, slotsOnly_release _ serial { held with
    token := none
    job := { held.job with lockedUntil := none, lastError := some error } }, ?_⟩
  cases hkey : held.job.uniqueKey <;>
    simp [nack, hblob, htoken, hkey, unmark, removed, added, buried]

/-- A buried job leaves its leased set for the dead letters. -/
lemma bury_moved (h : s.Indexed) (hblob : s.blobs lease.jobId = some held)
    (htoken : held.token = some lease.token) (error : String) :
    Moved s (s.run (nack serial lease error none)).2 lease.jobId
      (some (buried held error s.now)) := by
  obtain ⟨s₁, hslots, hrun⟩ := bury_run serial hblob htoken error
  have hplace := Held.place_of_running (h.token _ _ hblob (by rw [htoken]; rfl))
  have hnow : s₁.now = s.now := hslots.now
  rw [hrun, hnow]
  apply moved_between h hblob hplace
  · simp [hnow]
  · simp [hslots.blobs]
  · intro key other
    rw [unmark_has, hslots.has]
  · rfl
  · rfl

/-- The row of a job whose attempt failed, to be tried again at `at'`. -/
def retrying (held : Held) (error : String) (at' : ℤ) : Held :=
  { held with token := none, job := held.job.retried error at' }

lemma nack_run (hblob : s.blobs lease.jobId = some held) (htoken : held.token = some lease.token)
    (error : String) (at' : ℤ) :
    ∃ s₁, SlotsOnly (s.removed (.leased held.job.queue) lease.jobId) s₁ ∧
      (s.run (nack serial lease error (some at'))).2 =
        (s₁.putBlob (retrying held error at')).added (.ready held.job.queue)
          (readyScore (held.job.retried error at')) lease.jobId := by
  refine ⟨_, slotsOnly_release _ serial { held with
    token := none
    job := { held.job with lockedUntil := none, lastError := some error } }, ?_⟩
  simp [nack, hblob, htoken, removed, added, retrying, QueuedJob.retried]

/-- A job to be tried again leaves its leased set for the ready set. -/
lemma nack_moved (h : s.Indexed) (hblob : s.blobs lease.jobId = some held)
    (htoken : held.token = some lease.token) (error : String) (at' : ℤ) :
    Moved s (s.run (nack serial lease error (some at'))).2 lease.jobId
      (some (retrying held error at')) := by
  obtain ⟨s₁, hslots, hrun⟩ := nack_run serial hblob htoken error at'
  have hplace := Held.place_of_running (h.token _ _ hblob (by rw [htoken]; rfl))
  rw [hrun]
  apply moved_between h hblob hplace hslots.now hslots.blobs hslots.has
  · rfl
  · rfl

/-- The row under a lease that runs out at `until'`. -/
def extended (held : Held) (until' : ℤ) : Held :=
  { held with job := { held.job with lockedUntil := some until' } }

lemma heartbeat_run (hblob : s.blobs lease.jobId = some held)
    (htoken : held.token = some lease.token) (extend : ℕ) :
    ∃ s₁, SlotsOnly s s₁ ∧ (s.run (heartbeat serial lease extend)).2 =
      (s₁.putBlob (extended held (s.now + fromStd extend))).added (.leased held.job.queue)
        (timestampMillis (s.now + fromStd extend)) lease.jobId := by
  by_cases hserial : held.job.name ∈ serial
  · refine ⟨_, slotsOnly_expire s held.job.name (max extend 1000000000), ?_⟩
    simp [heartbeat, hblob, htoken, hserial, added, extended]
  · refine ⟨s, .refl s, ?_⟩
    simp [heartbeat, hblob, htoken, hserial, added, extended]

/-- A job whose lease is extended stays in its leased set. -/
lemma heartbeat_moved (h : s.Indexed) (hblob : s.blobs lease.jobId = some held)
    (htoken : held.token = some lease.token) (extend : ℕ) :
    Moved s (s.run (heartbeat serial lease extend)).2 lease.jobId
      (some (extended held (s.now + fromStd extend))) := by
  obtain ⟨s₁, hslots, hrun⟩ := heartbeat_run serial hblob htoken extend
  have hid := h.named _ _ hblob
  have hrunning := h.token _ _ hblob (by rw [htoken]; rfl)
  rw [hrun]
  apply moved_to hslots.now hslots.blobs
  · intro key hhas
    rw [hslots.has] at hhas
    exact h.eq_of_has hblob (Held.place_of_running hrunning) hhas
  · intro key other hne hhas
    rwa [hslots.has] at hhas
  · exact hid
  · exact Held.place_of_running hrunning

/-- The row of a job that was stopped. -/
def cancelled (held : Held) : Held :=
  { held with token := none, job := { held.job with state := .cancelled } }

lemma cancel_run {id : JobId} (hblob : s.blobs id = some held)
    (hactive : held.job.state.isActive) :
    ∃ s₁, SlotsOnly ((s.removed (.ready held.job.queue) id).removed (.leased held.job.queue) id)
        s₁ ∧
      (s.run (cancel serial id)).2 = s₁.putBlob (cancelled held) := by
  refine ⟨_, slotsOnly_release _ serial held, ?_⟩
  simp [cancel, hblob, hactive, removed, cancelled]

/-- A cancelled job leaves its set. -/
lemma cancel_moved (h : s.Indexed) {id : JobId} (hblob : s.blobs id = some held)
    (hactive : held.job.state.isActive) :
    Moved s (s.run (cancel serial id)).2 id (some (cancelled held)) := by
  obtain ⟨s₁, hslots, hrun⟩ := cancel_run serial hblob hactive
  have hnamed := h.named _ _ hblob
  have hid : (cancelled held).job.id = id := hnamed
  rw [hrun]
  constructor
  · simp [hslots.now]
  · simp [hid]
  · intro other hne
    simp [hslots.blobs, hid, hne]
  · intro key hhas
    rw [has_putBlob, hslots.has, has_removed, has_removed] at hhas
    obtain ⟨⟨hhas, hready⟩, hleased⟩ := hhas
    -- an active job is in its ready set or in its leased one
    obtain ⟨other, hother, hplace⟩ := h.member key id hhas
    rw [hblob] at hother
    obtain rfl := Option.some.inj hother
    rw [Held.place] at hplace
    cases hs : held.job.state <;> rw [hs] at hactive hplace <;> cases hplace <;>
      first | exact absurd ⟨rfl, rfl⟩ hready | exact absurd ⟨rfl, rfl⟩ hleased | cases hactive
  · intro key other hne hhas
    rw [has_putBlob, hslots.has, has_removed, has_removed] at hhas
    exact hhas.1.1

/-! ### Candidates -/

lemma zrem_eq_one {key : SetKey} {id : JobId} (h : s.Has key id) :
    ((s.sets key).zrem id).1 = 1 := by
  obtain ⟨score, hmem⟩ := h
  exact ZSet.zrem_count hmem

lemma zrem_ne_one {key : SetKey} {id : JobId} (h : ¬ s.Has key id) :
    ((s.sets key).zrem id).1 ≠ 1 := fun h1 => h (ZSet.exists_mem_of_zrem h1)

/-- Removing a member leaves its blob where it was. -/
lemma moved_removed (h : s.Indexed) (key : SetKey) (id : JobId) :
    Moved s (s.removed key id) id (s.blobs id) where
  now := rfl
  moved := rfl
  blobs _ _ := rfl
  has key' hhas := h.member key' id (has_removed.1 hhas).1
  others _ _ _ hhas := (has_removed.1 hhas).1

/-- A member that is put back. -/
lemma moved_back (h : s.Indexed) {s₁ : RedisStore} {id : JobId} {key : SetKey}
    (hblob : s.blobs id = some held) (hplace : held.place = some key)
    (hslots : SlotsOnly (s.removed key id) s₁) (score : ℤ) :
    Moved s (s₁.added key score id) id (some held) := by
  constructor
  · exact hslots.now
  · simp [hslots.blobs, hblob]
  · intro other _
    simp [hslots.blobs]
  · intro k hk
    rw [has_added, hslots.has] at hk
    rcases hk with ⟨rfl, -⟩ | hk
    · exact ⟨held, rfl, hplace⟩
    · exact absurd hk (not_has_removed h hblob hplace k)
  · intro k other hne hk
    rw [has_added, hslots.has, has_removed] at hk
    rcases hk with ⟨-, rfl⟩ | hk
    · exact absurd rfl hne
    · exact hk.1

variable (leaseFor : ℕ) (worker : WorkerId) (until' : ℤ)

/-- A member of a ready set is put back, or leased. -/
lemma pullOne_cases {queue : String} {id : JobId} (hhas : s.Has (.ready queue) id)
    (hblob : s.blobs id = some held) :
    ∃ s₁, SlotsOnly (s.removed (.ready queue) id) s₁ ∧
      ((s.run (pullOne serial leaseFor worker until' queue id)).2 =
          s₁.added (.ready queue) (readyScore held.job) id ∨
        ∃ token, (s.run (pullOne serial leaseFor worker until' queue id)).2 =
          (s₁.putBlob (held.lease worker until' token)).added (.leased queue)
            (timestampMillis until') id) := by
  have hone := zrem_eq_one hhas
  by_cases hserial : held.job.name ∈ serial
  · have hslots := slotsOnly_claim (s.removed (.ready queue) id) held.job.name id leaseFor
    rcases hclaim : (s.removed (.ready queue) id).run (claimSerial held.job.name id leaseFor) with
      ⟨won, s₁⟩
    rw [hclaim] at hslots
    rw [removed] at hclaim
    cases won with
    | false => exact ⟨s₁, hslots, .inl (by simp [pullOne, hone, hblob, hserial, hclaim, added])⟩
    | true =>
      refine ⟨{ s₁ with tokens := s₁.tokens + 1 }, ⟨hslots.now, hslots.blobs, hslots.sets,
        hslots.uniq⟩, .inr ⟨s₁.tokens, ?_⟩⟩
      simp [pullOne, hone, hblob, hserial, hclaim, added]
  · refine ⟨{ s.removed (.ready queue) id with tokens := s.tokens + 1 }, ⟨rfl, rfl, rfl,
      fun _ => rfl⟩, .inr ⟨s.tokens, ?_⟩⟩
    simp [pullOne, hone, hblob, hserial, added, removed]
    rfl

/-- The row of a job whose lease was taken away at the instant `now`. -/
def released (held : Held) (now : ℤ) : Held :=
  { held with
    token := none
    job := { held.job with state := .ready, lockedBy := none, lockedUntil := none, runAt := now } }

lemma reclaimOne_run (now : ℤ) {queue : String} {id : JobId} (hhas : s.Has (.leased queue) id)
    (hblob : s.blobs id = some held) :
    ∃ s₁, SlotsOnly (s.removed (.leased queue) id) s₁ ∧
      (s.run (reclaimOne serial now queue id)).2 =
        (s₁.putBlob (released held now)).added (.ready queue) (readyScore (released held now).job)
          id := by
  refine ⟨_, slotsOnly_release _ serial (released held now), ?_⟩
  simp [reclaimOne, zrem_eq_one hhas, hblob, removed, added, released]

/-- The row of a dead letter that is to be tried again from `now` on. -/
def revived (held : Held) (now : ℤ) : Held :=
  { held with
    token := none
    failedAt := none
    job := { held.job with state := .ready, attempt := 1, runAt := now, lastError := none } }

lemma retryOne_run {letter : DeadLetter} (hhas : s.Has .dead letter.id)
    (hblob : s.blobs letter.id = some held) :
    (s.run (retryOne letter)).2 = ((s.removed .dead letter.id).putBlob (revived held s.now)).added
      (.ready held.job.queue) (readyScore (revived held s.now).job) letter.id := by
  simp [retryOne, zrem_eq_one hhas, hblob, removed, added, revived]
  rfl

end RedisQueue

end Moso.Jobs
