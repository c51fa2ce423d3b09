import Moso.Jobs.Redis.Pull
import Moso.Jobs.Memory.Pull

/-!
# Delay and priority

A pull should lease only jobs that are due, and all of them when its limit does not cut. The
in-memory queue compares `run_at` with the clock, so it always does. The Redis queue compares a
score in which priority has been traded for time, and takes the same jobs exactly when no job on
the pulled queues stands on different sides of the clock in the two comparisons.
-/

namespace Moso.Jobs

/-- What a pull that may take `limit` jobs owes. -/
structure PullsDue (jobs : Finset QueuedJob) (queues : List String) (now : ℤ) (limit : ℕ)
    (got : List JobId) : Prop where
  only : ∀ id ∈ got, id ∈ due jobs queues now
  all : (due jobs queues now).card ≤ limit → ∀ id ∈ due jobs queues now, id ∈ got

/-- Both backends lease only due jobs, each leases all of them when the limit does not cut, and
then they lease the same ones. -/
def PullLaw (jobs : Finset QueuedJob) (serial : List String) (s : RedisStore) (q : MemoryQueue)
    (queues : List String) : Prop :=
  ∀ limit ≤ u32Max, ∀ lease worker,
    let redis := (s.run (RedisQueue.pull serial queues limit lease worker)).1.map (·.2.jobId)
    let memory := (q.pull s.now queues limit lease worker).2.map (·.2.jobId)
    PullsDue jobs queues s.now limit redis ∧ PullsDue jobs queues s.now limit memory ∧
      ((due jobs queues s.now).card ≤ limit → ∀ id, id ∈ redis ↔ id ∈ memory)

/-- The score does not misplace the job: one of low priority that is due has been for ten days,
and one that is not due is ten days away when its priority is high, twenty when it is critical,
and a later millisecond when it is normal. -/
def ScoreAgrees (now : ℤ) (job : QueuedJob) : Prop :=
  match job.priority with
  | .low      => job.runAt ≤ now → timestampMillis job.runAt + 864000000 ≤ timestampMillis now
  | .normal   => now < job.runAt → timestampMillis now < timestampMillis job.runAt
  | .high     => now < job.runAt → timestampMillis now + 864000000 < timestampMillis job.runAt
  | .critical => now < job.runAt → timestampMillis now + 1728000000 < timestampMillis job.runAt

instance (now : ℤ) (job : QueuedJob) : Decidable (ScoreAgrees now job) := by
  unfold ScoreAgrees
  cases job.priority <;> infer_instance

lemma scoreAgrees_iff {now : ℤ} {job : QueuedJob} :
    ScoreAgrees now job ↔ (readyScore job ≤ timestampMillis now ↔ job.runAt ≤ now) := by
  unfold ScoreAgrees readyScore timestampMillis priorityWeight
  cases job.priority <;> simp only [Priority.asI16] <;> omega

/-- A selection from the due jobs meets the law. -/
lemma PullsDue.of_selects {jobs : Finset QueuedJob} {queues : List String} {now : ℤ}
    {limit : ℕ} {got : List JobId} (h : Selects (due jobs queues now) limit got) :
    PullsDue jobs queues now limit got :=
  ⟨h.subset, fun hcard id hid => (h.mem_iff hcard id).mpr hid⟩

/-- When every score agrees, what is scored low enough is what is due. -/
lemma scored_eq_due {jobs : Finset QueuedJob} {queues : List String} {now : ℤ}
    (h : ∀ job ∈ jobs, job.queue ∈ queues → ScoreAgrees now job) :
    RedisQueue.scored jobs queues (timestampMillis now) = due jobs queues now := by
  ext id
  rw [RedisQueue.mem_scored, mem_due]
  constructor
  · rintro ⟨job, hjob, hq, hle, rfl⟩
    exact ⟨job, hjob, hq, (scoreAgrees_iff.1 (h job hjob hq)).mp hle, rfl⟩
  · rintro ⟨job, hjob, hq, hdue, rfl⟩
    exact ⟨job, hjob, hq, (scoreAgrees_iff.1 (h job hjob hq)).mpr hdue, rfl⟩

/-- The converse, for identifiers that name one job each. -/
lemma scoreAgrees_of_scored_eq_due {jobs : Finset QueuedJob} {queues : List String}
    {now : ℤ} (hids : ∀ job ∈ jobs, ∀ other ∈ jobs, job.id = other.id → job = other)
    (h : RedisQueue.scored jobs queues (timestampMillis now) = due jobs queues now) :
    ∀ job ∈ jobs, job.queue ∈ queues → ScoreAgrees now job := by
  intro job hjob hq
  rw [scoreAgrees_iff]
  constructor
  · intro hle
    have hmem : job.id ∈ due jobs queues now :=
      h ▸ RedisQueue.mem_scored.mpr ⟨job, hjob, hq, hle, rfl⟩
    obtain ⟨other, hother, -, hdue, hid⟩ := mem_due.1 hmem
    rwa [hids other hother job hjob hid] at hdue
  · intro hdue
    have hmem : job.id ∈ RedisQueue.scored jobs queues (timestampMillis now) :=
      h ▸ mem_due.2 ⟨job, hjob, hq, hdue, rfl⟩
    obtain ⟨other, hother, -, hle, hid⟩ := RedisQueue.mem_scored.mp hmem
    rwa [hids other hother job hjob hid] at hle

/-- The two backends meet the law, and agree, as long as the scores of the jobs on the pulled
queues do; and not otherwise, unless there are more jobs than a limit can count. -/
theorem pullLaw_iff_scoreAgrees {jobs : Finset QueuedJob} {serial : List String} {s : RedisStore}
    {q : MemoryQueue} (hs : s.Holds jobs) (hq : q.Holds jobs)
    (hserial : ∀ job ∈ jobs, job.name ∉ serial ∧ job.name ∉ q.serial) (queues : List String) :
    ((∀ job ∈ jobs, job.queue ∈ queues → ScoreAgrees s.now job) →
      PullLaw jobs serial s q queues) ∧
    (jobs.card ≤ u32Max → PullLaw jobs serial s q queues →
      ∀ job ∈ jobs, job.queue ∈ queues → ScoreAgrees s.now job) := by
  have hredis := fun limit lease worker => RedisQueue.pull_selects lease worker hs
    (fun job hjob => (hserial job hjob).1) queues limit
  have hmemory := fun limit lease worker => MemoryQueue.pull_selects hq
    (fun job hjob => (hserial job hjob).2) s.now queues limit lease worker
  constructor
  · intro h limit _ lease worker
    have hr := hredis limit lease worker
    have hm := hmemory limit lease worker
    rw [scored_eq_due h] at hr
    exact ⟨.of_selects hr, .of_selects hm, fun hcard id => hr.mem_iff_mem hm hcard id⟩
  · intro hcard h
    obtain ⟨hlaw, -⟩ := h u32Max le_rfl 0 ""
    have hall := (hredis u32Max 0 "").mem_iff (Finset.card_image_le.trans
      ((Finset.card_filter_le _ _).trans hcard))
    refine scoreAgrees_of_scored_eq_due hs.ids ?_
    refine Finset.Subset.antisymm (fun id hid => hlaw.only id ((hall id).mpr hid)) fun id hid => ?_
    exact (hall id).mp (hlaw.all (Finset.card_image_le.trans
      ((Finset.card_filter_le _ _).trans hcard)) id hid)

/-! ### One job -/

/-- A job that has waited for a second when the clock stands at zero. -/
def welcomeMail : QueuedJob :=
  { id := 1, name := "send_welcome_email", queue := "mail", payload := "\"welcome\"",
    state := .ready, priority := .normal, attempt := 1, runAt := -1000000000,
    enqueuedAt := -1000000000, uniqueKey := none, lastError := none, lockedBy := none,
    lockedUntil := none }

/-- A password reset, to be sent in an hour. -/
def delayedReset : QueuedJob :=
  { welcomeMail with name := "send_password_reset", priority := .high, runAt := 3600000000000 }

/-- A queue of each kind that has been handed one job holds it. -/
lemma holds_singleton {job : QueuedJob} (hwait : job.state.isWaiting)
    (hkey : job.uniqueKey = none) :
    ((RedisStore.empty 0).run (RedisQueue.push job)).2.Holds {job} ∧
      ∃ q, MemoryQueue.new.push job = .ok q ∧ q.Holds {job} :=
  ⟨RedisQueue.push_holds (RedisStore.holds_empty 0) hwait (by simp) (by simp [hkey]),
    MemoryQueue.push_holds MemoryQueue.holds_new hwait (by simp [MemoryQueue.new])
      (by simp [MemoryQueue.new]) (by simp [hkey])⟩

/-- The law holds of one that is due. -/
theorem pullLaw_iff_scoreAgrees_welcomeMail :
    ∃ q, MemoryQueue.new.push welcomeMail = .ok q ∧ PullLaw {welcomeMail} []
      ((RedisStore.empty 0).run (RedisQueue.push welcomeMail)).2 q ["mail"] := by
  obtain ⟨hs, q, hpush, hq⟩ := holds_singleton (show welcomeMail.state.isWaiting from rfl) rfl
  obtain rfl : { MemoryQueue.new with jobs := [Held.new welcomeMail] } = q := by
    injection hpush
  exact ⟨_, hpush, (pullLaw_iff_scoreAgrees hs hq (by decide) ["mail"]).1 (by decide)⟩

/-- A pull of the Redis queue leases one of high priority that is not. -/
theorem pullLaw_fails_for_a_delayed_job :
    ∃ q, MemoryQueue.new.push delayedReset = .ok q ∧
      ((RedisStore.empty 0).run (RedisQueue.push delayedReset)).2.Holds {delayedReset} ∧
      q.Holds {delayedReset} ∧ ¬ PullLaw {delayedReset} []
        ((RedisStore.empty 0).run (RedisQueue.push delayedReset)).2 q ["mail"] := by
  obtain ⟨hs, q, hpush, hq⟩ := holds_singleton (show delayedReset.state.isWaiting from rfl) rfl
  refine ⟨q, hpush, hs, hq, fun h => ?_⟩
  obtain ⟨hlaw, -⟩ := h 1 (by decide) 30000000000 "worker-1"
  have hdue := hlaw.only 1 (by decide)
  exact absurd hdue (by decide)

end Moso.Jobs
