import Moso.Foundation.Machine
import Moso.Foundation.Parties
import Moso.Jobs.Queue
import Moso.Jobs.Retry
import Mathlib.Logic.Function.Basic

/-!
# A worker that stops

The jobs that a worker runs when it is told to stop: each body races its cancellation and its
timeout, the drain cancels whatever still runs when the grace is over, and what a job came to is
reported to the queue. Cancellations by an operator and by a lost lease come through a failed
heartbeat at any time.
-/

namespace Moso.Jobs

/-- What is left when the grace period expires. -/
inductive DrainMode where
  /-- Put unfinished jobs back on the queue. -/
  | requeue
  /-- Let the lease expire instead, so another worker reclaims it. -/
  | abandon
  deriving DecidableEq, Repr

/-- Whether a job was told to stop, and whether it was the worker draining. -/
structure Cancellation where
  flagged : Bool
  draining : Bool
  deriving DecidableEq, Repr

namespace Cancellation

/-- Nothing signalled. -/
def default_ : Cancellation := ⟨false, false⟩

def cancel (self : Cancellation) : Cancellation := { self with flagged := true }

def cancelForDrain (self : Cancellation) : Cancellation := { self with draining := true }.cancel

end Cancellation

/-- What a worker tells the queue about a job: `ack`, or `nack` with the time of the next attempt,
without which the job goes to the dead-letter queue. -/
inductive Report where
  | ack
  | nack (error : JobError) (retryAt : Option ℤ)
  deriving DecidableEq, Repr

namespace Report

/-- The job is put back on the queue. -/
def requeues : Report → Bool
  | .nack _ (some _) => true
  | .nack _ none | .ack => false

end Report

/-- Where one job is. -/
inductive TaskPhase where
  | running
  /-- Its outcome is there; `byDrain` records that it is the cancellation of a drain. -/
  | ended (outcome : Except JobError Unit) (byDrain : Bool)
  | reported (report : Report) (byDrain : Bool)
  deriving DecidableEq, Repr

/-- One execution of a job row. -/
structure Task where
  job : QueuedJob
  /-- The policy that the row carries. -/
  retry : RetryPolicy
  cancel : Cancellation
  phase : TaskPhase
  deriving DecidableEq, Repr

namespace Task

/-- The error of a cancelled job. -/
def cancelled : JobError := .retry "the job was cancelled; it will be retried"

/-- The race of the body with its cancellation, which wins when it is there. `result` is what the
body or its timeout comes to. -/
def race (self : Task) (result : Except JobError Unit) : TaskPhase :=
  if self.cancel.flagged then .ended (.error cancelled) self.cancel.draining
  else .ended result false

/-- When a job that failed runs again, if it does. -/
def retryAt (self : Task) (now : ℤ) (draw : ℕ) (error : JobError) : Option ℤ :=
  (self.retry.delayAfter draw self.job.attempt error).map fun delay => now + fromStd delay

/-- What is reported of the outcome. -/
def report (self : Task) (now : ℤ) (draw : ℕ) : Except JobError Unit → Report
  | .ok _ => .ack
  | .error error => .nack error (self.retryAt now draw error)

end Task

/-- The worker that stops, and the jobs it runs, by the order in which it pulled them. -/
structure Draining where
  drain : DrainMode
  tasks : ℕ → Option Task

/-- What happens while the worker stops. -/
inductive DrainEvent where
  /-- An operator's cancel or the loss of the lease reaches the job. -/
  | cancel (i : ℕ)
  /-- The grace is over. -/
  | expire
  /-- The body, its timeout or its cancellation is there. -/
  | race (i : ℕ) (result : Except JobError Unit)
  /-- The outcome is reported, at `now`, when the random source draws `draw`. -/
  | report (i : ℕ) (now : ℤ) (draw : ℕ)

namespace Draining

/-- The worker is told to stop while it runs the rows. -/
def start (drain : DrainMode) (rows : ℕ → Option (QueuedJob × RetryPolicy)) : Draining where
  drain := drain
  tasks := fun i => (rows i).map fun row => ⟨row.1, row.2, .default_, .running⟩

def put (s : Draining) (i : ℕ) (task : Task) : Draining :=
  { s with tasks := Function.update s.tasks i (some task) }

/-- `shut_down` when the grace is over: whatever has not been reported is told to stop. -/
def expire (s : Draining) : Draining :=
  { s with
    tasks := fun i => (s.tasks i).map fun task =>
      { task with
        cancel := match s.drain with
          | .requeue => task.cancel.cancelForDrain
          | .abandon => task.cancel.cancel } }

def step (s : Draining) : DrainEvent → Option (Draining)
  | .cancel i => (s.tasks i).map fun task => s.put i { task with cancel := task.cancel.cancel }
  | .expire => some s.expire
  | .race i result =>
    match s.tasks i with
    | some task =>
      match task.phase with
      | .running => some (s.put i { task with phase := task.race result })
      | .ended _ _ | .reported _ _ => none
    | none => none
  | .report i now draw =>
    match s.tasks i with
    | some task =>
      match task.phase with
      | .ended outcome byDrain =>
        some (s.put i { task with phase := .reported (task.report now draw outcome) byDrain })
      | .running | .reported _ _ => none
    | none => none

end Draining

end Moso.Jobs

/-!
## What a drain does to the jobs it cancels

A cancelled job ends in an error that may be retried, like any other, and so the retry budget
decides whether the job is put back on the queue.
-/

namespace Moso.Jobs

namespace Task

variable {self : Task} {now : ℤ} {draw : ℕ} {error : JobError}

lemma isBudgeted_cancelled : cancelled.isBudgeted = true := rfl

lemma isSome_retryAt (h : error.isBudgeted = true) :
    (self.retryAt now draw error).isSome = true ↔ self.job.attempt < self.retry.maxAttempts := by
  rw [retryAt, Option.isSome_map]
  exact RetryPolicy.isSome_delayAfter h

/-- A failed job is put back on the queue when it has attempts left. -/
lemma requeues_report (h : error.isBudgeted = true) :
    (self.report now draw (.error error)).requeues = true ↔
      self.job.attempt < self.retry.maxAttempts := by
  rw [← isSome_retryAt h, report]
  cases self.retryAt now draw error <;> simp [Report.requeues]

end Task

namespace Draining

variable {s s' : Draining} {i : ℕ} {task : Task}

/-- Every job that the drain cancelled and that was reported is put back on the queue. -/
def Requeues (s : Draining) : Prop :=
  ∀ i task report, s.tasks i = some task → task.phase = .reported report true →
    report.requeues = true

/-- A job that the drain cancelled is reported with attempts left. -/
def HasBudget (s : Draining) : DrainEvent → Prop
  | .report i _ _ => ∀ task ∈ s.tasks i, ∀ outcome, task.phase = .ended outcome true →
      task.job.attempt < task.retry.maxAttempts
  | _ => True

/-- A job that the drain cancelled ended in the error of a cancelled job. -/
structure Sound (s : Draining) : Prop where
  cancelled : ∀ i task outcome, s.tasks i = some task → task.phase = .ended outcome true →
    outcome = .error Task.cancelled
  requeues : s.Requeues

lemma sound_start {drain : DrainMode} {rows : ℕ → Option (QueuedJob × RetryPolicy)} :
    (start drain rows).Sound where
  cancelled i task outcome hi hphase := by
    obtain ⟨row, -, rfl⟩ := Option.map_eq_some_iff.mp hi
    cases hphase
  requeues i task report hi hphase := by
    obtain ⟨row, -, rfl⟩ := Option.map_eq_some_iff.mp hi
    cases hphase

/-- One job moves on. -/
lemma Sound.put (h : s.Sound)
    (hcancelled : ∀ outcome, task.phase = .ended outcome true → outcome = .error Task.cancelled)
    (hrequeues : ∀ report, task.phase = .reported report true → report.requeues = true) :
    (s.put i task).Sound := by
  constructor
  · intro j task' outcome hj hphase
    rcases Parties.update_eq_some.mp hj with ⟨-, heq⟩ | ⟨-, hj⟩
    · obtain rfl := Option.some.inj heq
      exact hcancelled outcome hphase
    · exact h.cancelled j task' outcome hj hphase
  · intro j task' report hj hphase
    rcases Parties.update_eq_some.mp hj with ⟨-, heq⟩ | ⟨-, hj⟩
    · obtain rfl := Option.some.inj heq
      exact hrequeues report hphase
    · exact h.requeues j task' report hj hphase

lemma Sound.expire (h : s.Sound) : s.expire.Sound := by
  constructor
  · intro i task outcome hi hphase
    obtain ⟨task', hi', rfl⟩ := Option.map_eq_some_iff.mp hi
    exact h.cancelled i task' outcome hi' hphase
  · intro i task report hi hphase
    obtain ⟨task', hi', rfl⟩ := Option.map_eq_some_iff.mp hi
    exact h.requeues i task' report hi' hphase

/-- What each event is, and what it does. -/
lemma step_cases {event : DrainEvent} (h : step s event = some s') :
    (∃ i task, event = .cancel i ∧ s.tasks i = some task ∧
      s' = s.put i { task with cancel := task.cancel.cancel }) ∨
    (event = .expire ∧ s' = s.expire) ∨
    (∃ i task result, event = .race i result ∧ s.tasks i = some task ∧ task.phase = .running ∧
      s' = s.put i { task with phase := task.race result }) ∨
    (∃ i task now draw outcome byDrain, event = .report i now draw ∧ s.tasks i = some task ∧
      task.phase = .ended outcome byDrain ∧
      s' = s.put i { task with phase := .reported (task.report now draw outcome) byDrain }) := by
  cases event with
  | cancel i =>
    obtain ⟨task, hi, rfl⟩ := Option.map_eq_some_iff.mp h
    exact .inl ⟨i, task, rfl, hi, rfl⟩
  | expire => exact .inr (.inl ⟨rfl, (Option.some.inj h).symm⟩)
  | race i result =>
    simp only [step] at h
    split at h
    · next task hi =>
      split at h
      · next hphase =>
        exact .inr (.inr (.inl ⟨i, task, result, rfl, hi, hphase, (Option.some.inj h).symm⟩))
      · cases h
      · cases h
    · cases h
  | report i now draw =>
    simp only [step] at h
    split at h
    · next task hi =>
      split at h
      · next outcome byDrain hphase =>
        exact .inr (.inr (.inr ⟨i, task, now, draw, outcome, byDrain, rfl, hi, hphase,
          (Option.some.inj h).symm⟩))
      · cases h
      · cases h
    · cases h

lemma Sound.step {event : DrainEvent} (h : s.Sound) (hbudget : s.HasBudget event)
    (hstep : step s event = some s') : s'.Sound := by
  rcases step_cases hstep with ⟨i, task, -, hi, rfl⟩ | ⟨-, rfl⟩ |
    ⟨i, task, result, -, hi, hphase, rfl⟩ |
    ⟨i, task, now, draw, outcome, byDrain, rfl, hi, hphase, rfl⟩
  · exact h.put (fun outcome => h.cancelled i task outcome hi)
      fun report => h.requeues i task report hi
  · exact h.expire
  · refine h.put (fun outcome heq => ?_) (fun report heq => ?_)
    · simp only [Task.race] at heq
      split_ifs at heq
      · exact (TaskPhase.ended.inj heq).1.symm
      · cases heq
    · simp only [Task.race] at heq
      split_ifs at heq
  · refine h.put (fun outcome heq => by cases heq) (fun report heq => ?_)
    obtain ⟨hreport, rfl⟩ := TaskPhase.reported.inj heq
    rw [← hreport, h.cancelled i task outcome hi hphase, Task.requeues_report Task.isBudgeted_cancelled]
    exact hbudget task hi outcome hphase

/-- A job that the drain cancelled on its last attempt is not put back. -/
lemma Sound.not_requeues {event : DrainEvent} (h : s.Sound) (hbudget : ¬s.HasBudget event)
    (hstep : Draining.step s event = some s') : ¬s'.Requeues := by
  rcases step_cases hstep with ⟨i, task, rfl, -⟩ | ⟨rfl, -⟩ | ⟨i, task, result, rfl, -⟩ |
    ⟨i, task, now, draw, outcome, byDrain, rfl, hi, hphase, rfl⟩
  · exact absurd trivial hbudget
  · exact absurd trivial hbudget
  · exact absurd trivial hbudget
  · intro hrequeues
    refine hbudget fun task' hi' outcome' hphase' => ?_
    obtain rfl := Option.some.inj (hi.symm.trans hi')
    obtain ⟨rfl, rfl⟩ := TaskPhase.ended.inj (hphase.symm.trans hphase')
    have hreport := hrequeues i _ _ (Function.update_self ..) rfl
    rw [h.cancelled i task outcome hi hphase,
      Task.requeues_report Task.isBudgeted_cancelled] at hreport
    exact hreport

/-- Whatever the worker runs when it is told to stop, and however its jobs end, the jobs that the
drain cancels are put back on the queue exactly when they all have attempts left. -/
theorem always_requeues_iff {drain : DrainMode} {rows : ℕ → Option (QueuedJob × RetryPolicy)}
    (es : List (DrainEvent)) :
    Machine.Always step Requeues (start drain rows) es ↔
      Machine.Meets step HasBudget (start drain rows) es :=
  Machine.always_iff_meets (fun _ _ _ h hG hstep => h.step hG hstep) (fun _ h => h.requeues)
    (fun _ _ _ h hG hstep => h.not_requeues hG hstep) sound_start es

/-- A job on its only attempt still runs when the grace is over, and is dead-lettered. -/
theorem always_requeues_fails :
    ¬Machine.Always step Requeues
      (start .requeue fun _ => some (⟨1, "report", "default", "{}", .running, .normal, 1, 0, 0, none,
        none, some "worker", some 60⟩, ⟨1, .immediate⟩))
      [.expire, .race 0 (.ok ()), .report 0 0 0] := by
  intro h
  have hrequeues := h.of_exec rfl 0 _ _ rfl rfl
  cases hrequeues

end Draining

end Moso.Jobs
