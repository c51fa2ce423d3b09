import Moso.Jobs.Queue
import Mathlib.Data.List.Basic

/-!
# Schedules and their plans

A schedule computes the next occurrence after an instant. `Schedule.plan` is the catch-up
decision of the scheduler: given the occurrence that came due and the present instant, which
occurrences to enqueue, and where the cursor lands. Instants and durations are nanoseconds.
-/

namespace Moso.Jobs

/-- What to do when a schedule's previous occurrence has not finished. -/
inductive Overlap where
  | skip
  | queue
  | allow
  deriving DecidableEq, Repr

/-- How a schedule's next occurrence is computed. The search of a cron expression is a parameter:
it returns an instant strictly after the one it is given, or nothing. -/
inductive ScheduleKind where
  | cron (search : ℕ → Option ℕ) (strict : ∀ after t, search after = some t → after < t)
  | every (period : ℕ) (pos : 0 < period)

/-- Something that runs on a clock. A limit of zero is raised to one when the schedule is built. -/
structure Schedule where
  kind : ScheduleKind
  overlap : Overlap
  catchUp : Bool
  catchUpLimit : ℕ
  limit_pos : 0 < catchUpLimit

/-- How far back one catch-up pass counts before it stops counting. -/
def maxCatchUpScan : ℕ := 10000

/-- What one pass owes a schedule: which occurrences, and where the cursor lands. -/
structure Plan where
  /-- Oldest first. -/
  due : List ℕ
  /-- How many were dropped to stay under the catch-up limit. -/
  dropped : ℕ
  droppedIsAFloor : Bool
  next : Option ℕ
  deriving DecidableEq, Repr

namespace Schedule

variable (sched : Schedule)

/-- The next time this should run, after `after`. -/
def nextAfter (after : ℕ) : Option ℕ :=
  match sched.kind with
  | .cron search _  => search after
  | .every period _ => if (period : ℤ) ≤ i64Max * 1000000 then some (after + period) else none

lemma lt_of_nextAfter {after t : ℕ} (h : sched.nextAfter after = some t) : after < t := by
  unfold nextAfter at h
  split at h
  next search strict _ => exact strict after t h
  next period pos _ =>
    split at h
    · obtain rfl := Option.some.inj h
      omega
    · cases h

/-- The occurrences after `cursor` up to `now`, as many as `fuel` allows. -/
def scan (now : ℕ) : ℕ → ℕ → List ℕ
  | 0, _ => []
  | fuel + 1, cursor =>
    match sched.nextAfter cursor with
    | some t => if now < t then [] else t :: scan now fuel t
    | none   => []

/-- Which occurrences a pass at `now` owes, and where the cursor lands. -/
def plan (tick due now : ℕ) : Plan :=
  if !sched.catchUp then
    -- an occurrence more than four ticks late is one nothing was running for
    let stale := fromStd (tick * 4) < (now : ℤ) - due
    { due := if stale then [] else [due], dropped := 0, droppedIsAFloor := false,
      next := sched.nextAfter now }
  else
    let occurrences := due :: sched.scan now maxCatchUpScan due
    let cursor := occurrences.getLast (List.cons_ne_nil _ _)
    let dropped := occurrences.length - sched.catchUpLimit
    { due := occurrences.drop dropped, dropped := dropped,
      droppedIsAFloor := maxCatchUpScan ≤ (sched.scan now maxCatchUpScan due).length,
      next := sched.nextAfter (max cursor now) }

/-! ### What a plan contains -/

lemma scan_spec (now fuel cursor : ℕ) :
    (cursor :: sched.scan now fuel cursor).Pairwise (· < ·) ∧
      ∀ t ∈ sched.scan now fuel cursor, t ≤ now := by
  induction fuel generalizing cursor with
  | zero => simp [scan]
  | succ fuel ih =>
    rw [scan]
    split
    next t ht =>
      split
      next => simp
      next hle =>
        obtain ⟨hsorted, hbound⟩ := ih t
        have hlt := sched.lt_of_nextAfter ht
        refine ⟨List.pairwise_cons.mpr ⟨fun u hu => ?_, hsorted⟩, fun u hu => ?_⟩
        · rcases List.mem_cons.mp hu with rfl | hu
          · exact hlt
          · exact hlt.trans ((List.pairwise_cons.mp hsorted).1 u hu)
        · rcases List.mem_cons.mp hu with rfl | hu
          · omega
          · exact hbound u hu
    next => simp

variable {sched} {tick due now : ℕ}

/-- Planned occurrences are in order, none before the one that came due, none in the future. -/
theorem plan_due (h : due ≤ now) :
    (sched.plan tick due now).due.Pairwise (· < ·) ∧
      ∀ t ∈ (sched.plan tick due now).due, due ≤ t ∧ t ≤ now := by
  obtain ⟨hsorted, hbound⟩ := sched.scan_spec now maxCatchUpScan due
  have hcons : ∀ t ∈ due :: sched.scan now maxCatchUpScan due, due ≤ t ∧ t ≤ now := by
    intro t ht
    rcases List.mem_cons.mp ht with rfl | ht
    · exact ⟨le_rfl, h⟩
    · exact ⟨((List.pairwise_cons.mp hsorted).1 t ht).le, hbound t ht⟩
  unfold plan
  split
  · dsimp only
    split_ifs <;> simp [h]
  · exact ⟨hsorted.sublist (List.drop_sublist _ _), fun t ht => hcons t (List.mem_of_mem_drop ht)⟩

/-- The cursor lands after the instant of the pass. -/
theorem lt_of_plan_next {t : ℕ} (h : (sched.plan tick due now).next = some t) : now < t := by
  unfold plan at h
  split at h
  · exact sched.lt_of_nextAfter h
  · exact (le_max_right _ _).trans_lt (sched.lt_of_nextAfter h)

/-- The occurrence came due, and at `now` it is not too late for it. -/
def OnTime (sched : Schedule) (tick due now : ℕ) : Prop :=
  due ≤ now ∧ (sched.catchUp = false → (now : ℤ) - due ≤ fromStd (tick * 4))

instance (sched : Schedule) (tick due now : ℕ) : Decidable (sched.OnTime tick due now) :=
  inferInstanceAs (Decidable (_ ∧ _))

/-- A plan is empty only for an occurrence that is too late. -/
lemma plan_due_eq_nil (h : due ≤ now) :
    (sched.plan tick due now).due = [] ↔ ¬ sched.OnTime tick due now := by
  unfold plan OnTime
  cases hcatch : sched.catchUp with
  | false => simp [h]
  | true =>
    have hlimit := sched.limit_pos
    have hkept : (sched.scan now maxCatchUpScan due).length + 1 - sched.catchUpLimit <
        (sched.scan now maxCatchUpScan due).length + 1 := by omega
    simpa [h] using hkept

/-- A schedule that fires at every whole minute, as `* * * * *` does, with the defaults. -/
def everyMinute (overlap : Overlap) : Schedule where
  kind := .cron (fun after => some ((after / 60000000000 + 1) * 60000000000)) fun after t h => by
    obtain rfl := Option.some.inj h
    omega
  overlap := overlap
  catchUp := false
  catchUpLimit := 60
  limit_pos := by decide

end Schedule

end Moso.Jobs
