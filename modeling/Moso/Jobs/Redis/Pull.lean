import Moso.Jobs.Redis
import Moso.Foundation.Selection
import Mathlib.Data.Finset.Image

/-!
# What a pull of the Redis queue takes

`RedisStore.Holds` is the invariant that ties the ready sets to the jobs that wait. A pull on a
store of its own takes, of the waiting jobs on the queues it names whose score is at most the
present instant, as many as its limit allows.
-/

namespace Moso.Jobs

open Moso.Kv (ZSet)

namespace RedisStore

/-! ### Running the commands -/

section Commands

variable {α β : Type} (s : RedisStore)

@[simp] lemma run_bind (x : StateM RedisStore α) (f : α → StateM RedisStore β) :
    s.run (x >>= f) = (s.run x).2.run (f (s.run x).1) := rfl

@[simp] lemma run_map (x : StateM RedisStore α) (f : α → β) :
    s.run (f <$> x) = (f (s.run x).1, (s.run x).2) := rfl

@[simp] lemma run_pure (a : α) : s.run (pure a) = (a, s) := rfl

@[simp] lemma run_utcNow : s.run JobStore.utcNow = (s.now, s) := rfl

@[simp] lemma run_newV4 : s.run JobStore.newV4 = (s.tokens, { s with tokens := s.tokens + 1 }) :=
  rfl

@[simp] lemma run_get (id : JobId) : s.run (JobStore.get id) = (s.blobs id, s) := rfl

@[simp] lemma run_set (held : Held) : s.run (JobStore.set held) = ((), s.putBlob held) := rfl

@[simp] lemma run_zadd (key : SetKey) (score : ℤ) (id : JobId) :
    s.run (JobStore.zadd key score id) =
      (((s.sets key).zadd score id).1, s.putSet key ((s.sets key).zadd score id).2) := rfl

@[simp] lemma run_zrangeByScore (key : SetKey) (hi : ℤ) (limit : ℕ) :
    s.run (JobStore.zrangeByScore key hi limit) = ((s.sets key).zrangeByScore hi limit, s) := rfl

@[simp] lemma run_zrem (key : SetKey) (id : JobId) :
    s.run (JobStore.zrem key id) =
      (((s.sets key).zrem id).1, s.putSet key ((s.sets key).zrem id).2) := rfl

@[simp] lemma putBlob_sets (held : Held) : (s.putBlob held).sets = s.sets := rfl

@[simp] lemma putBlob_blobs (held : Held) :
    (s.putBlob held).blobs = Function.update s.blobs held.job.id (some held) := rfl

@[simp] lemma putSet_sets (key : SetKey) (z : ZSet JobId) :
    (s.putSet key z).sets = Function.update s.sets key z := rfl

@[simp] lemma putSet_blobs (key : SetKey) (z : ZSet JobId) :
    (s.putSet key z).blobs = s.blobs := rfl

@[simp] lemma putMarker_sets (key : MarkerKey) (v : Option (JobId × ℤ)) :
    (s.putMarker key v).sets = s.sets := rfl

@[simp] lemma putMarker_blobs (key : MarkerKey) (v : Option (JobId × ℤ)) :
    (s.putMarker key v).blobs = s.blobs := rfl

lemma run_setIfAbsent_of_none {key : MarkerKey} (h : s.marker key = none) (id : JobId)
    (ttl : ℕ) :
    s.run (JobStore.setIfAbsent key id ttl) =
      (true, s.putMarker key (some (id, s.now + ttl))) := by
  simp only [run, JobStore.setIfAbsent, h]

end Commands

/-! ### The invariant -/

/-- The jobs that wait are `jobs`: each has its blob, and the ready set of each queue lists
exactly those on that queue, under their scores. -/
structure Holds (s : RedisStore) (jobs : Finset QueuedJob) : Prop where
  waiting : ∀ job ∈ jobs, job.state.isWaiting
  ids : ∀ job ∈ jobs, ∀ other ∈ jobs, job.id = other.id → job = other
  blob : ∀ job ∈ jobs, ∃ held, s.blobs job.id = some held ∧ held.job = job
  ready : ∀ queue score id, (score, id) ∈ s.sets (.ready queue) ↔
    ∃ job ∈ jobs, job.queue = queue ∧ readyScore job = score ∧ job.id = id

lemma holds_empty (now : ℤ) : (empty now).Holds ∅ :=
  ⟨by simp, by simp, by simp, by simp [empty]⟩

/-- Taking a job out of its ready set, whatever else happens to its own blob. -/
lemma Holds.erase {s s' : RedisStore} {jobs : Finset QueuedJob} (h : s.Holds jobs)
    {job : QueuedJob} (hjob : job ∈ jobs)
    (hsets : ∀ queue, s'.sets (.ready queue) =
      if queue = job.queue then ((s.sets (.ready queue)).zrem job.id).2 else s.sets (.ready queue))
    (hblobs : ∀ id, id ≠ job.id → s'.blobs id = s.blobs id) : s'.Holds (jobs.erase job) := by
  have hne : ∀ other ∈ jobs.erase job, other.id ≠ job.id := by
    intro other hother hid
    exact (Finset.mem_erase.mp hother).1
      (h.ids other (Finset.mem_of_mem_erase hother) job hjob hid)
  refine ⟨fun other hother => h.waiting other (Finset.mem_of_mem_erase hother),
    fun a ha b hb => h.ids a (Finset.mem_of_mem_erase ha) b (Finset.mem_of_mem_erase hb), ?_, ?_⟩
  · intro other hother
    rw [hblobs _ (hne other hother)]
    exact h.blob other (Finset.mem_of_mem_erase hother)
  · intro queue score id
    have hkeep : ((score, id) ∈ s.sets (.ready queue) ∧ (queue = job.queue → id ≠ job.id)) ↔
        ∃ other ∈ jobs.erase job, other.queue = queue ∧ readyScore other = score ∧
          other.id = id := by
      rw [h.ready]
      constructor
      · rintro ⟨⟨other, hother, rfl, rfl, rfl⟩, hid⟩
        refine ⟨other, Finset.mem_erase.mpr ⟨?_, hother⟩, rfl, rfl, rfl⟩
        rintro rfl
        exact hid rfl rfl
      · rintro ⟨other, hother, rfl, rfl, rfl⟩
        exact ⟨⟨other, Finset.mem_of_mem_erase hother, rfl, rfl, rfl⟩, fun _ => hne other hother⟩
    rw [hsets, ← hkeep]
    by_cases hq : queue = job.queue <;> simp [hq]

/-- Adding a job to its ready set, under its score and with its blob. -/
lemma Holds.insert {s s' : RedisStore} {jobs : Finset QueuedJob} (h : s.Holds jobs)
    {job : QueuedJob} (hwait : job.state.isWaiting) (hid : ∀ other ∈ jobs, other.id ≠ job.id)
    (hsets : ∀ queue, s'.sets (.ready queue) =
      if queue = job.queue then ((s.sets (.ready queue)).zadd (readyScore job) job.id).2
      else s.sets (.ready queue))
    (hblob : ∃ held, s'.blobs job.id = some held ∧ held.job = job)
    (hblobs : ∀ id, id ≠ job.id → s'.blobs id = s.blobs id) :
    s'.Holds (insert job jobs) := by
  refine ⟨?_, ?_, ?_, ?_⟩
  · intro other hother
    rcases Finset.mem_insert.mp hother with rfl | hother
    · exact hwait
    · exact h.waiting other hother
  · intro a ha b hb hab
    rcases Finset.mem_insert.mp ha with ha | ha <;> rcases Finset.mem_insert.mp hb with hb | hb
    · rw [ha, hb]
    · exact absurd (ha ▸ hab.symm) (hid b hb)
    · exact absurd (hb ▸ hab) (hid a ha)
    · exact h.ids a ha b hb hab
  · intro other hother
    rcases Finset.mem_insert.mp hother with rfl | hother
    · exact hblob
    · rw [hblobs _ (hid other hother)]
      exact h.blob other hother
  · intro queue score id
    have hold : (score, id) ∈ s.sets (.ready queue) → id ≠ job.id := by
      rw [h.ready]
      rintro ⟨other, hother, -, -, rfl⟩
      exact hid other hother
    have hex : (∃ other ∈ Insert.insert job jobs, other.queue = queue ∧
        readyScore other = score ∧ other.id = id) ↔
          job.queue = queue ∧ readyScore job = score ∧ job.id = id ∨
            (score, id) ∈ s.sets (.ready queue) := by
      rw [h.ready]
      simp only [Finset.mem_insert, or_and_right, exists_or, exists_eq_left]
    rw [hsets, hex]
    by_cases hq : queue = job.queue
    · subst hq
      rw [if_pos rfl, Moso.Kv.ZSet.mem_zadd, Prod.mk.injEq]
      grind
    · grind

end RedisStore

namespace RedisQueue

open RedisStore

variable {serial : List String} (lease : ℕ) (worker : WorkerId) (until' : ℤ)

/-- A pushed job waits, unless its unique key is taken. -/
theorem push_holds {s : RedisStore} {jobs : Finset QueuedJob} (h : s.Holds jobs)
    {job : QueuedJob} (hwait : job.state.isWaiting) (hid : ∀ other ∈ jobs, other.id ≠ job.id)
    (hkey : ∀ key ∈ job.uniqueKey, s.marker (.uniq key) = none) :
    (s.run (push job)).2.Holds (insert job jobs) := by
  have hwon : ∃ s' : RedisStore, s'.sets = s.sets ∧ s'.blobs = s.blobs ∧ (s.run (push job)).2 =
      (s'.putBlob (Held.new job)).putSet (.ready job.queue)
        ((s.sets (.ready job.queue)).zadd (readyScore job) job.id).2 := by
    match hu : job.uniqueKey with
    | none => exact ⟨s, rfl, rfl, by simp [push, hu]⟩
    | some key =>
      refine ⟨(s.run (JobStore.setIfAbsent (.uniq key) job.id 86400000000000)).2, ?_, ?_, ?_⟩ <;>
        simp [push, hu, run_setIfAbsent_of_none s (hkey key (by simp [hu]))]
  obtain ⟨s', hsets, hblobs, hrun⟩ := hwon
  rw [hrun]
  refine h.insert hwait hid (fun queue => ?_) ⟨Held.new job, ?_, rfl⟩ (fun id hne => ?_)
  · by_cases hq : queue = job.queue <;> simp [hq, hsets]
  · simp [Held.new]
  · simp [Held.new, hblobs, hne]

/-! ### One candidate -/

/-- A waiting job that is not serial is leased, and no longer waits. -/
lemma pullOne_run {s : RedisStore} {jobs : Finset QueuedJob} (h : s.Holds jobs)
    {job : QueuedJob} (hjob : job ∈ jobs) (hserial : job.name ∉ serial) :
    ∃ s' token, s.run (pullOne serial lease worker until' job.queue job.id) =
        (some (job.lease worker until', ⟨job.id, token, until'⟩), s') ∧
      s'.now = s.now ∧ s'.Holds (jobs.erase job) := by
  obtain ⟨held, hblob, rfl⟩ := h.blob job hjob
  have hin : (readyScore held.job, held.job.id) ∈ s.sets (.ready held.job.queue) :=
    (h.ready _ _ _).mpr ⟨held.job, hjob, rfl, rfl, rfl⟩
  refine ⟨(s.run (pullOne serial lease worker until' held.job.queue held.job.id)).2, s.tokens,
    Prod.ext ?_ rfl, ?_, h.erase hjob (fun queue => ?_) (fun id hid => ?_)⟩
  · simp [pullOne, ZSet.zrem_count hin, hblob, hserial, Held.lease]
    rfl
  · simp [pullOne, ZSet.zrem_count hin, hblob, hserial, Held.lease]
    rfl
  · by_cases hq : queue = held.job.queue <;>
      simp [pullOne, ZSet.zrem_count hin, hblob, hserial, Held.lease, hq]
  · simp [pullOne, ZSet.zrem_count hin, hblob, hserial, Held.lease, QueuedJob.lease, hid]

/-! ### The loops -/

/-- Every candidate of a queue is leased, in order. -/
lemma pullCandidates_run {s : RedisStore} {jobs : Finset QueuedJob} (h : s.Holds jobs)
    (hserial : ∀ job ∈ jobs, job.name ∉ serial) {queue : String} {ids : List JobId}
    (hnodup : ids.Nodup) (hids : ∀ id ∈ ids, ∃ job ∈ jobs, job.queue = queue ∧ job.id = id)
    (leased : List (QueuedJob × Lease)) :
    ∃ s' got, s.run (pullCandidates serial lease worker until' queue ids leased) =
        (leased ++ got, s') ∧ got.map (·.2.jobId) = ids ∧ s'.now = s.now ∧
      s'.Holds (jobs.filter fun job => job.id ∉ ids) := by
  induction ids generalizing s jobs leased with
  | nil => exact ⟨s, [], by simp [pullCandidates], rfl, rfl, by simpa using h⟩
  | cons id ids ih =>
    obtain ⟨hid, hnodup'⟩ := List.nodup_cons.mp hnodup
    obtain ⟨job, hjob, rfl, rfl⟩ := hids id (List.mem_cons_self)
    obtain ⟨s₁, token, hrun, hnow, hholds⟩ :=
      pullOne_run lease worker until' h hjob (hserial job hjob)
    have hrest : ∀ id ∈ ids, ∃ other ∈ jobs.erase job, other.queue = job.queue ∧ other.id = id := by
      intro id hmem
      obtain ⟨other, hother, hq, rfl⟩ := hids id (List.mem_cons_of_mem _ hmem)
      refine ⟨other, Finset.mem_erase.mpr ⟨?_, hother⟩, hq, rfl⟩
      rintro rfl
      exact hid hmem
    obtain ⟨s', got, hrun', hgot, hnow', hholds'⟩ :=
      ih hholds (fun other hother => hserial other (Finset.mem_of_mem_erase hother)) hnodup' hrest
        (leased ++ [(job.lease worker until', ⟨job.id, token, until'⟩)])
    refine ⟨s', (job.lease worker until', ⟨job.id, token, until'⟩) :: got, ?_, ?_, ?_, ?_⟩
    · rw [pullCandidates, run_bind, hrun]
      simpa using hrun'
    · rw [List.map_cons, hgot]
    · rw [hnow', hnow]
    · have hset : (jobs.erase job).filter (fun other => other.id ∉ ids) =
          jobs.filter fun other => other.id ∉ job.id :: ids := by
        ext other
        simp only [Finset.mem_filter, Finset.mem_erase, List.mem_cons, not_or]
        refine ⟨fun ⟨⟨hne, hother⟩, hnot⟩ => ⟨hother, fun he => hne ?_, hnot⟩,
          fun ⟨hother, hne, hnot⟩ => ⟨⟨fun he => hne (he ▸ rfl), hother⟩, hnot⟩⟩
        exact h.ids other hother job hjob he
      rwa [hset] at hholds'

/-- The identifiers of the jobs on `queues` whose score is at most `ceiling`. -/
def scored (jobs : Finset QueuedJob) (queues : List String) (ceiling : ℤ) : Finset JobId :=
  (jobs.filter fun job => job.queue ∈ queues ∧ readyScore job ≤ ceiling).image QueuedJob.id

lemma mem_scored {jobs : Finset QueuedJob} {queues : List String} {ceiling : ℤ} {id : JobId} :
    id ∈ scored jobs queues ceiling ↔
      ∃ job ∈ jobs, job.queue ∈ queues ∧ readyScore job ≤ ceiling ∧ job.id = id := by
  simp [scored, and_assoc]

/-- The range query on one ready set selects from the jobs on that queue. -/
lemma selects_zrangeByScore {s : RedisStore} {jobs : Finset QueuedJob} (h : s.Holds jobs)
    (queue : String) (ceiling : ℤ) (limit : ℕ) :
    Selects (scored jobs [queue] ceiling) limit
      ((s.sets (.ready queue)).zrangeByScore ceiling limit) := by
  rw [ZSet.zrangeByScore_eq_take]
  refine Selects.take ((s.sets (.ready queue)).nodup.sublist (List.filter_sublist.map _)) ?_
  intro id
  rw [mem_scored]
  constructor
  · intro hid
    obtain ⟨⟨score, _⟩, hentry, rfl⟩ := List.mem_map.mp hid
    obtain ⟨hentry, hle⟩ := List.mem_filter.mp hentry
    obtain ⟨job, hjob, hq, rfl, rfl⟩ := (h.ready queue score _).mp hentry
    exact ⟨job, hjob, by simp [hq], by simpa using hle, rfl⟩
  · rintro ⟨job, hjob, hq, hle, rfl⟩
    refine List.mem_map.mpr ⟨(readyScore job, job.id), List.mem_filter.mpr ⟨?_, by simpa⟩, rfl⟩
    exact (h.ready queue _ _).mpr ⟨job, hjob, by simpa using hq, rfl, rfl⟩

/-- The jobs on one queue, and those on the others that a selection from it left. -/
lemma scored_cons {jobs : Finset QueuedJob} {ids : List JobId} {queue : String}
    {queues : List String} {ceiling : ℤ} (hids : ∀ id ∈ ids, id ∈ scored jobs [queue] ceiling) :
    scored jobs [queue] ceiling ∪ scored (jobs.filter fun job => job.id ∉ ids) queues ceiling =
      scored jobs (queue :: queues) ceiling := by
  ext id
  simp only [Finset.mem_union, mem_scored, Finset.mem_filter, List.mem_cons]
  constructor
  · rintro (⟨job, hjob, hq, hle, rfl⟩ | ⟨job, ⟨hjob, -⟩, hq, hle, rfl⟩)
    · exact ⟨job, hjob, .inl (by simpa using hq), hle, rfl⟩
    · exact ⟨job, hjob, .inr hq, hle, rfl⟩
  · rintro ⟨job, hjob, hq, hle, rfl⟩
    by_cases hmem : job.id ∈ ids
    · obtain ⟨other, hother, hq', hle', hid⟩ := mem_scored.1 (hids _ hmem)
      exact .inl ⟨other, hother, by simpa using hq', hle', hid⟩
    · rcases hq with rfl | hq
      · exact .inl ⟨job, hjob, by simp, hle, rfl⟩
      · exact .inr ⟨job, ⟨hjob, hmem⟩, hq, hle, rfl⟩

/-- The queues together select from the jobs on any of them. -/
lemma pullQueues_run {s : RedisStore} {jobs : Finset QueuedJob} (h : s.Holds jobs)
    (hserial : ∀ job ∈ jobs, job.name ∉ serial) (limit : ℕ) (ceiling : ℤ) (queues : List String)
    (leased : List (QueuedJob × Lease)) :
    ∃ s' got, s.run (pullQueues serial limit lease worker until' ceiling queues leased) =
        (leased ++ got, s') ∧
      Selects (scored jobs queues ceiling) (limit - leased.length) (got.map (·.2.jobId)) ∧
      s'.Holds (jobs.filter fun job => job.id ∉ got.map (·.2.jobId)) := by
  induction queues generalizing s jobs leased with
  | nil =>
    exact ⟨s, [], by simp [pullQueues], by simpa [scored] using Selects.nil_empty,
      by simpa using h⟩
  | cons queue queues ih =>
    by_cases hfull : limit ≤ leased.length
    · refine ⟨s, [], by simp [pullQueues, hfull], ?_, by simpa using h⟩
      rw [Nat.sub_eq_zero_of_le hfull]
      exact Selects.nil_zero
    · have hsel := selects_zrangeByScore h queue ceiling (limit - leased.length)
      obtain ⟨ids, hdef⟩ :
          ∃ ids, (s.sets (.ready queue)).zrangeByScore ceiling (limit - leased.length) = ids :=
        ⟨_, rfl⟩
      rw [hdef] at hsel
      have hids : ∀ id ∈ ids, ∃ job ∈ jobs, job.queue = queue ∧ job.id = id := by
        intro id hid
        obtain ⟨job, hjob, hq, -, rfl⟩ := mem_scored.1 (hsel.subset id hid)
        exact ⟨job, hjob, by simpa using hq, rfl⟩
      obtain ⟨s₁, got₁, hrun₁, rfl, -, hholds₁⟩ :=
        pullCandidates_run lease worker until' h hserial hsel.nodup hids leased
      -- what the first queue left is what the rest of the loop selects from
      obtain ⟨s', got₂, hrun₂, hsel₂, hholds₂⟩ :=
        ih hholds₁ (fun job hjob => hserial job (Finset.mem_filter.mp hjob).1) (leased ++ got₁)
      refine ⟨s', got₁ ++ got₂, ?_, ?_, ?_⟩
      · rw [pullQueues]
        simp [hfull, hdef, hrun₁, hrun₂]
      · rw [List.map_append]
        have hroom : limit - (leased ++ got₁).length =
            limit - leased.length - (got₁.map (·.2.jobId)).length := by
          rw [List.length_append, List.length_map, Nat.sub_sub]
        rw [hroom] at hsel₂
        have happ := hsel.append hsel₂ fun id hid hmem => by
          obtain ⟨job, hjob, -, -, rfl⟩ := mem_scored.1 hmem
          exact (Finset.mem_filter.mp hjob).2 hid
        rwa [scored_cons hsel.subset] at happ
      · convert hholds₂ using 1
        ext job
        simp [and_assoc, not_or]

lemma run_pull (s : RedisStore) (queues : List String) (limit : ℕ) :
    s.run (pull serial queues limit lease worker) = s.run (pullQueues serial limit lease worker
      (s.now + fromStd lease) (timestampMillis s.now) queues []) := by
  rw [pull, run_bind, run_utcNow]

/-- A pull selects from the waiting jobs on its queues whose score is at most the instant. -/
theorem pull_selects {s : RedisStore} {jobs : Finset QueuedJob} (h : s.Holds jobs)
    (hserial : ∀ job ∈ jobs, job.name ∉ serial) (queues : List String) (limit : ℕ) :
    Selects (scored jobs queues (timestampMillis s.now)) limit
      ((s.run (pull serial queues limit lease worker)).1.map (·.2.jobId)) := by
  obtain ⟨s', got, hrun, hsel, -⟩ :=
    pullQueues_run lease worker (s.now + fromStd lease) h hserial limit (timestampMillis s.now)
      queues []
  rw [run_pull, hrun]
  exact hsel

/-- What a pull leased waits no longer; everything else still does. -/
theorem pull_holds {s : RedisStore} {jobs : Finset QueuedJob} (h : s.Holds jobs)
    (hserial : ∀ job ∈ jobs, job.name ∉ serial) (queues : List String) (limit : ℕ) :
    (s.run (pull serial queues limit lease worker)).2.Holds (jobs.filter fun job =>
      job.id ∉ (s.run (pull serial queues limit lease worker)).1.map (·.2.jobId)) := by
  obtain ⟨s', got, hrun, -, hholds⟩ :=
    pullQueues_run lease worker (s.now + fromStd lease) h hserial limit (timestampMillis s.now)
      queues []
  rw [run_pull, hrun]
  exact hholds

/-! ### Retries -/

lemma releaseSerial_run (s : RedisStore) (held : Held) :
    (s.run (releaseSerial serial held)).2.sets = s.sets ∧
      (s.run (releaseSerial serial held)).2.blobs = s.blobs := by
  by_cases hs : held.job.name ∈ serial
  · have hrun : (s.run (releaseSerial serial held)).2 =
        (s.run (JobStore.compareAndDelete (.serial held.job.name) held.job.id)).2 := by
      simp [releaseSerial, hs]
    rw [hrun]
    change (if _ then (true, _) else (false, s) : Bool × RedisStore).2.sets = _ ∧
      (if _ then (true, _) else (false, s) : Bool × RedisStore).2.blobs = _
    split <;> simp
  · simp [releaseSerial, hs]

/-- A leased job whose attempt failed waits again, until the instant it is given. -/
theorem nack_holds {s : RedisStore} {jobs : Finset QueuedJob} (h : s.Holds jobs) {held : Held}
    {lease : Lease} (hblob : s.blobs lease.jobId = some held) (hid : held.job.id = lease.jobId)
    (htoken : held.token = some lease.token) (hfree : ∀ job ∈ jobs, job.id ≠ lease.jobId)
    (error : String) (at' : ℤ) :
    (s.run (nack serial lease error (some at'))).2.Holds
      (insert (held.job.retried error at') jobs) := by
  have hid' : (held.job.retried error at').id = held.job.id := rfl
  refine h.insert rfl (by simpa [hid', hid] using hfree) (fun queue => ?_)
    ⟨{ held with token := none, job := held.job.retried error at' }, ?_, rfl⟩ (fun id hne => ?_)
  · by_cases hq : queue = held.job.queue <;>
      simp [nack, hblob, htoken, releaseSerial_run, QueuedJob.retried, hq, hid]
  · simp [nack, hblob, htoken, releaseSerial_run, QueuedJob.retried]
  · rw [hid'] at hne
    simp [nack, hblob, htoken, releaseSerial_run, hne]

end RedisQueue

end Moso.Jobs
