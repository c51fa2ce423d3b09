import Moso.Jobs.Memory
import Moso.Foundation.Selection
import Mathlib.Data.Finset.Image
import Mathlib.Data.List.Nodup

/-!
# What a pull of the in-memory queue takes

A pull takes, of the waiting jobs on the queues it names that are due, as many as its limit
allows.
-/

namespace Moso.Jobs

/-- The identifiers of the jobs on `queues` that are due. -/
def due (jobs : Finset QueuedJob) (queues : List String) (now : ℤ) : Finset JobId :=
  (jobs.filter fun job => job.queue ∈ queues ∧ job.runAt ≤ now).image QueuedJob.id

lemma mem_due {jobs : Finset QueuedJob} {queues : List String} {now : ℤ} {id : JobId} :
    id ∈ due jobs queues now ↔
      ∃ job ∈ jobs, job.queue ∈ queues ∧ job.runAt ≤ now ∧ job.id = id := by
  simp [due, and_assoc]

namespace MemoryQueue

/-! ### The map of rows -/

/-- A new identifier is added and nothing else changes. -/
lemma insert_perm {entry : Held} {jobs : List Held}
    (h : ∀ held ∈ jobs, held.job.id ≠ entry.job.id) : (insert entry jobs).Perm (entry :: jobs) := by
  induction jobs with
  | nil => exact .refl _
  | cons held rest ih =>
    have hne : entry.job.id ≠ held.job.id := (h held List.mem_cons_self).symm
    rw [insert, if_neg hne]
    split
    next => exact .refl _
    next =>
      exact ((ih fun other hother => h other (List.mem_cons_of_mem _ hother)).cons held).trans
        (.swap entry held rest)

lemma mem_busyChains {q : MemoryQueue} {key : String} :
    key ∈ q.busyChains ↔
      ∃ held ∈ q.jobs, held.job.state = .running ∧ held.job.uniqueKey = some key := by
  simp [busyChains, and_assoc]

/-- The jobs that wait are `jobs`, and none of them is held back by a running row of its unique
key. -/
structure Holds (q : MemoryQueue) (jobs : Finset QueuedJob) : Prop where
  ids : (q.jobs.map fun held => held.job.id).Nodup
  mem : ∀ job, job ∈ jobs ↔ job.state.isWaiting ∧ ∃ held ∈ q.jobs, held.job = job
  free : ∀ job ∈ jobs, ∀ key ∈ job.uniqueKey, key ∉ q.busyChains

lemma holds_new : new.Holds ∅ := ⟨.nil, by simp [new], by simp⟩

/-- A pushed job waits, unless the queue is full or its unique key is active. -/
theorem push_holds {q : MemoryQueue} {jobs : Finset QueuedJob} (h : q.Holds jobs)
    {job : QueuedJob} (hwait : job.state.isWaiting)
    (hid : ∀ held ∈ q.jobs, held.job.id ≠ job.id) (hroom : q.jobs.length < q.maxJobs)
    (hkey : ∀ key ∈ job.uniqueKey, ∀ held ∈ q.jobs, held.job.state.isActive →
      held.job.uniqueKey ≠ some key) :
    ∃ q', q.push job = .ok q' ∧ q'.Holds (Insert.insert job jobs) := by
  have hperm : (insert (Held.new job) q.jobs).Perm (Held.new job :: q.jobs) := insert_perm hid
  have hfresh : ¬(job.uniqueKey.isSome ∧ q.jobs.any fun held =>
      held.job.state.isActive ∧ held.job.uniqueKey = job.uniqueKey) := by
    rintro ⟨hsome, hany⟩
    obtain ⟨key, hk⟩ := Option.isSome_iff_exists.mp hsome
    obtain ⟨held, hheld, hact⟩ := List.any_eq_true.mp hany
    obtain ⟨hact, heq⟩ := of_decide_eq_true hact
    exact hkey key hk held hheld hact (heq.trans hk)
  refine ⟨{ q with jobs := insert (Held.new job) q.jobs }, ?_, ?_, ?_, ?_⟩
  · rw [push, if_neg (by omega), if_neg hfresh]
  · rw [(hperm.map _).nodup_iff, List.map_cons, List.nodup_cons]
    refine ⟨fun hmem => ?_, h.ids⟩
    obtain ⟨held, hheld, heq⟩ := List.mem_map.mp hmem
    exact hid held hheld heq
  · intro other
    rw [Finset.mem_insert, h.mem]
    simp only [hperm.mem_iff, List.mem_cons, exists_eq_or_imp]
    constructor
    · rintro (rfl | ⟨hw, hex⟩)
      · exact ⟨hwait, .inl rfl⟩
      · exact ⟨hw, .inr hex⟩
    · rintro ⟨hw, rfl | hex⟩
      · exact .inl rfl
      · exact .inr ⟨hw, hex⟩
  · -- the new row waits, so no chain becomes busy
    have hbusy : ∀ key, key ∈ busyChains { q with jobs := insert (Held.new job) q.jobs } ↔
        key ∈ q.busyChains := by
      intro key
      simp only [mem_busyChains, hperm.mem_iff, List.mem_cons, exists_eq_or_imp]
      refine or_iff_right fun ⟨hrun, _⟩ => ?_
      rw [show (Held.new job).job.state = job.state from rfl] at hrun
      rw [hrun] at hwait
      cases hwait
    intro other hother key hk
    rw [hbusy]
    rcases Finset.mem_insert.mp hother with rfl | hother
    · intro hin
      obtain ⟨held, hheld, hrun, heq⟩ := mem_busyChains.1 hin
      exact hkey key hk held hheld (by rw [hrun]; rfl) heq
    · exact h.free other hother key hk

/-! ### The pull -/

/-- Without serial jobs the serial filter keeps everything. -/
lemma retainSerial_eq_self {serial : List String} {busy : List String} {jobs : List QueuedJob}
    (h : ∀ job ∈ jobs, job.name ∉ serial) : retainSerial serial busy jobs = jobs := by
  induction jobs with
  | nil => rfl
  | cons job rest ih =>
    rw [retainSerial, if_pos (h job List.mem_cons_self),
      ih fun other hother => h other (List.mem_cons_of_mem _ hother)]

lemma leaseAll_ids (worker : WorkerId) (until' : ℤ) (jobs : List QueuedJob)
    (q : MemoryQueue) :
    (leaseAll worker until' jobs q).2.map (·.2.jobId) = jobs.map QueuedJob.id := by
  induction jobs generalizing q with
  | nil => rfl
  | cons job rest ih => rw [leaseAll, List.map_cons, List.map_cons, ih]

/-- A pull selects from the waiting jobs on its queues that are due. -/
theorem pull_selects {q : MemoryQueue} {jobs : Finset QueuedJob} (h : q.Holds jobs)
    (hserial : ∀ job ∈ jobs, job.name ∉ q.serial) (now : ℤ) (queues : List String)
    (limit lease : ℕ) (worker : WorkerId) :
    Selects (due jobs queues now) limit
      ((q.pull now queues limit lease worker).2.map (·.2.jobId)) := by
  have hmem : ∀ job, job ∈ (q.jobs.map Held.job).filter (q.isReady queues now) ↔
      job ∈ jobs ∧ job.queue ∈ queues ∧ job.runAt ≤ now := by
    intro job
    rw [List.mem_filter, List.mem_map, h.mem]
    simp only [isReady, decide_eq_true_eq]
    constructor
    · rintro ⟨hex, hw, hdue, hq, -⟩
      exact ⟨⟨hw, hex⟩, hq, hdue⟩
    · rintro ⟨⟨hw, hex⟩, hq, hdue⟩
      exact ⟨hex, hw, hdue, hq, fun key hk => h.free job ((h.mem job).mpr ⟨hw, hex⟩) key hk⟩
  have hsort := List.perm_insertionSort (fun a b => pullOrder a ≤ pullOrder b)
    ((q.jobs.map Held.job).filter (q.isReady queues now))
  have hleasable : q.leasable queues now = ((q.jobs.map Held.job).filter
      (q.isReady queues now)).insertionSort fun a b => pullOrder a ≤ pullOrder b :=
    retainSerial_eq_self fun job hjob =>
      hserial job ((hmem job).mp (hsort.mem_iff.mp hjob)).1
  have hids : ((q.leasable queues now).map QueuedJob.id).Nodup := by
    rw [hleasable, (hsort.map _).nodup_iff]
    refine List.Nodup.sublist (List.filter_sublist.map _) ?_
    rw [List.map_map]
    exact h.ids
  rw [pull, leaseAll_ids, List.map_take]
  refine Selects.take hids fun id => ?_
  rw [mem_due, List.mem_map]
  simp only [hleasable, hsort.mem_iff, hmem]
  constructor
  · rintro ⟨job, ⟨hjob, hq, hdue⟩, rfl⟩
    exact ⟨job, hjob, hq, hdue, rfl⟩
  · rintro ⟨job, hjob, hq, hdue, rfl⟩
    exact ⟨job, ⟨hjob, hq, hdue⟩, rfl⟩

/-! ### Retries -/

lemma mem_modify {id : JobId} {f : Held → Held} {jobs : List Held} {entry : Held} :
    entry ∈ modify id f jobs ↔
      (entry ∈ jobs ∧ entry.job.id ≠ id) ∨ ∃ held ∈ jobs, held.job.id = id ∧ f held = entry := by
  rw [modify, List.mem_map]
  constructor
  · rintro ⟨held, hheld, rfl⟩
    by_cases h : held.job.id = id
    · exact .inr ⟨held, hheld, h, by rw [if_pos h]⟩
    · rw [if_neg h]
      exact .inl ⟨hheld, h⟩
  · rintro (⟨hentry, h⟩ | ⟨held, hheld, h, rfl⟩)
    · exact ⟨entry, hentry, if_neg h⟩
    · exact ⟨held, hheld, if_pos h⟩

/-- A leased job whose attempt failed waits again, until the instant it is given. -/
theorem nack_holds {q : MemoryQueue} {jobs : Finset QueuedJob} (h : q.Holds jobs) {held : Held}
    {lease : Lease} (hheld : held ∈ q.jobs) (hid : held.job.id = lease.jobId)
    (hrun : held.job.state = .running) (htoken : held.token = some lease.token)
    (hchain : ∀ other ∈ q.jobs, other.job.id ≠ held.job.id → other.job.state = .running →
      ∀ key ∈ held.job.uniqueKey, other.job.uniqueKey ≠ some key)
    (now : ℤ) (error : String) (at' : ℤ) :
    ∃ q', q.nack now lease error (some at') = .ok q' ∧
      q'.Holds (Insert.insert (held.job.retried error at') jobs) := by
  have huniq : ∀ other ∈ q.jobs, other.job.id = held.job.id → other = held := fun other hother =>
    List.inj_on_of_nodup_map h.ids hother hheld
  have hfind : q.jobs.find? (fun other => decide (other.job.id = lease.jobId)) = some held := by
    match hf : q.jobs.find? fun other => decide (other.job.id = lease.jobId) with
    | none => exact absurd (decide_eq_true hid) (List.find?_eq_none.mp hf held hheld)
    | some found =>
      have hsame : found.job.id = lease.jobId := by simpa using List.find?_some hf
      rw [hf, huniq found (List.mem_of_find?_eq_some hf) (hsame.trans hid.symm)]
  let entry : Held := { held with token := none, job := held.job.retried error at' }
  refine ⟨{ q with jobs := modify lease.jobId (fun other =>
    { other with token := none, job := other.job.retried error at' }) q.jobs }, ?_, ?_⟩
  · simp [nack, hfind, htoken, QueuedJob.retried]
  have hmem : ∀ other, other ∈ modify lease.jobId (fun other =>
      { other with token := none, job := other.job.retried error at' }) q.jobs ↔
        (other ∈ q.jobs ∧ other.job.id ≠ held.job.id) ∨ other = entry := by
    intro other
    rw [mem_modify, ← hid]
    refine or_congr_right ⟨?_, fun heq => ⟨held, hheld, rfl, heq.symm⟩⟩
    rintro ⟨found, hfound, hsame, rfl⟩
    rw [huniq found hfound hsame]
  refine ⟨?_, fun other => ?_, fun other hother key hk hbusy => ?_⟩
  · convert h.ids using 1
    simp only [modify, List.map_map]
    refine List.map_congr_left fun other _ => ?_
    by_cases hsame : other.job.id = lease.jobId <;> simp [hsame, QueuedJob.retried]
  · rw [Finset.mem_insert, h.mem]
    simp only [hmem]
    constructor
    · rintro (rfl | ⟨hwait, found, hfound, rfl⟩)
      · exact ⟨rfl, entry, .inr rfl, rfl⟩
      · refine ⟨hwait, found, .inl ⟨hfound, fun hsame => ?_⟩, rfl⟩
        rw [huniq found hfound hsame, hrun] at hwait
        cases hwait
    · rintro ⟨hwait, found, ⟨hfound, -⟩ | rfl, rfl⟩
      · exact .inr ⟨hwait, found, hfound, rfl⟩
      · exact .inl rfl
  · obtain ⟨found, hfound, hfrun, hfkey⟩ := mem_busyChains.1 hbusy
    rcases (hmem found).mp hfound with ⟨hfound, hne⟩ | rfl
    · rcases Finset.mem_insert.mp hother with rfl | hother
      · exact hchain found hfound hne hfrun key hk hfkey
      · exact h.free other hother key hk (mem_busyChains.2 ⟨found, hfound, hfrun, hfkey⟩)
    · cases hfrun

end MemoryQueue

end Moso.Jobs
