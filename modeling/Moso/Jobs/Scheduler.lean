import Moso.Foundation.Machine
import Moso.Jobs.Schedule
import Moso.Kv.Lock

/-!
# A fleet of schedulers

Any number of `Scheduler` processes over one schedule, one lease and one queue. A pass reads the
clock, renews or takes the lease, plans, asks about the previous occurrence and pushes; the steps
of different processes interleave with each other, with the workers that run the rows, and with
the clock. A process keeps its cursor in memory, and only moves it while it leads.

Beside what the code keeps, the state records every push and its outcome, the cursor that the
last completed pass of a leader left behind, and, in a pass, what these were when it began or was
elected. No step depends on these records.
-/

namespace Moso.Jobs

open Moso.Kv (LockEntry)

abbrev RowId := ℕ

/-- A row that the scheduler enqueued. -/
structure Row (ι : Type*) where
  id : RowId
  occurrence : ℕ
  /-- The process that pushed it. -/
  leader : ι
  state : JobState
  deriving DecidableEq, Repr

/-- The whole seconds of an occurrence, which its unique key spells. -/
def uniqueKey (occurrence : ℕ) : ℕ := occurrence / 1000000000

/-- A push, and whether it returned without an error. -/
structure Push (ι : Type*) where
  leader : ι
  occurrence : ℕ
  ok : Bool
  deriving DecidableEq, Repr

/-- A pass: the instant it read; the cursor the last leader had left when this process was
elected, if it was elected in this pass; and the number of pushes made before it began. -/
structure Pass where
  now : ℕ
  owes : Option ℕ
  seen : ℕ
  deriving DecidableEq, Repr

/-- Where a process is. -/
inductive Phase where
  /-- Not started. -/
  | absent
  /-- Between two passes, the last of which it did not lead. -/
  | sleeping
  /-- About to renew or to take the lease. -/
  | electing (pass : Pass)
  /-- Leading, about to plan. -/
  | planning (pass : Pass)
  /-- About to look up the row of the previous occurrence. -/
  | asking (pass : Pass) (due : List ℕ) (previous : RowId)
  | pushing (pass : Pass) (due : List ℕ)
  /-- Between two passes, the last of which it led. -/
  | finished (pass : Pass)
  | gone
  deriving DecidableEq, Repr

/-- One process. -/
structure Process where
  phase : Phase
  /-- When the schedule next fires, as this process has it. -/
  next : Option ℕ
  /-- The row the last occurrence enqueued. -/
  running : Option RowId
  /-- The token of the lease this process believes it holds. -/
  guard : Option ℤ
  /-- Tokens of dropped guards whose release has been spawned. -/
  dropping : List ℤ
  deriving DecidableEq, Repr

structure FleetState (ι : Type*) where
  now : ℕ
  fence : ℤ
  lease : LockEntry
  process : ι → Process
  rows : List (Row ι)
  /-- The number of row identifiers drawn. -/
  ids : ℕ
  /-- The cursor that the last completed pass of a leader left. -/
  frontier : Option ℕ
  pushes : List (Push ι)

/-- The steps of the processes and of the environment. -/
inductive FleetEvent (ι : Type*) where
  | start (p : ι)
  /-- A pass begins and reads the clock. -/
  | pass (p : ι)
  /-- Renew or take the lease; `reachable` says whether the store answers. -/
  | elect (p : ι) (reachable : Bool)
  | plan (p : ι)
  /-- `previous_is_unfinished`; `answers` says whether the queue can look the row up. -/
  | ask (p : ι) (answers : Bool)
  /-- Push the next planned occurrence; `ok` says whether the queue accepts it. -/
  | push (p : ι) (ok : Bool)
  /-- A round of the background renewer. -/
  | renew (p : ι)
  /-- The release that a dropped guard spawned. -/
  | settle (p : ι)
  /-- Shut down and give the lease back. -/
  | stop (p : ι)
  | crash (p : ι)
  /-- A worker, an operator or a sweep changes the state of a row. -/
  | work (id : RowId) (state : JobState)
  | tick (d : ℕ)

namespace FleetState

variable {ι : Type*} [DecidableEq ι]

/-- No process has started and nothing is enqueued. -/
def init (now : ℕ) : FleetState ι :=
  { now := now, fence := 0, lease := none, ids := 0, rows := [], frontier := none, pushes := [],
    process := fun _ =>
      { phase := .absent, next := none, running := none, guard := none, dropping := [] } }

def setProcess (s : FleetState ι) (p : ι) (v : Process) : FleetState ι :=
  { s with process := Function.update s.process p v }

def setPhase (s : FleetState ι) (p : ι) (phase : Phase) : FleetState ι :=
  s.setProcess p { s.process p with phase := phase }

/-- The pass of a leader is over; what it leaves is the cursor. -/
def finish (s : FleetState ι) (p : ι) (pass : Pass) : FleetState ι :=
  { s.setPhase p (.finished pass) with frontier := (s.process p).next }

/-- The lease was lost: stop leading, and drop the guard. -/
def lose (s : FleetState ι) (p : ι) (token : ℤ) : FleetState ι :=
  s.setProcess p { s.process p with
    phase := .sleeping, guard := none, dropping := token :: (s.process p).dropping }

/-- `push` of a row with the key of its occurrence: a no-op while a row of that key is active. -/
def enqueue (rows : List (Row ι)) (row : Row ι) : List (Row ι) :=
  if rows.any fun held =>
      held.state.isActive ∧ uniqueKey held.occurrence = uniqueKey row.occurrence then rows
  else rows ++ [row]

/-- Whether the row of the previous occurrence is still unfinished. -/
def unfinished (rows : List (Row ι)) (previous : RowId) : Bool :=
  rows.any fun held => held.id = previous ∧ held.state.isActive

/-- One step of the fleet, for a schedule, a tick and a lease of `ttl`. -/
def step (sched : Schedule) (tick ttl : ℕ) (s : FleetState ι) :
    FleetEvent ι → Option (FleetState ι)
  | .start p =>
    match (s.process p).phase with
    | .absent => some (s.setProcess p { s.process p with
        phase := .sleeping, next := sched.nextAfter s.now, running := none })
    | _ => none
  | .pass p =>
    match (s.process p).phase with
    | .sleeping | .finished _ =>
      some (s.setPhase p (.electing { now := s.now, owes := none, seen := s.pushes.length }))
    | _ => none
  | .elect p reachable =>
    match (s.process p).phase with
    | .electing pass =>
      match (s.process p).guard with
      | some token =>
        if !reachable then some (s.lose p token)
        else
          match s.lease.compareAndExpire s.now token ttl with
          | (true, lease)  => some { s.setPhase p (.planning pass) with lease := lease }
          | (false, lease) => some { s.lose p token with lease := lease }
      | none =>
        if reachable ∧ s.fence + 1 ≤ i64Max then
          match s.lease.setIfAbsent s.now (s.fence + 1) ttl with
          | (true, lease) =>
            let pass := { pass with owes := s.frontier }
            some { s.setProcess p { s.process p with
                phase := .planning pass, guard := some (s.fence + 1) } with
              lease := lease, fence := s.fence + 1 }
          | (false, lease) =>
            some { s.setPhase p .sleeping with lease := lease, fence := s.fence + 1 }
        else some (s.setPhase p .sleeping)
    | _ => none
  | .plan p =>
    match (s.process p).phase with
    | .planning pass =>
      match (s.process p).next with
      | none => some (s.finish p pass)
      | some due =>
        if pass.now < due then some (s.finish p pass)
        else
          let plan := sched.plan tick due pass.now
          -- the cursor moves before anything is pushed
          let s := s.setProcess p { s.process p with next := plan.next }
          if plan.due = [] then some (s.finish p pass)
          else
            match sched.overlap, (s.process p).running with
            | .skip, some previous | .queue, some previous =>
              some (s.setPhase p (.asking pass plan.due previous))
            | _, _ => some (s.setPhase p (.pushing pass plan.due))
    | _ => none
  | .ask p answers =>
    match (s.process p).phase with
    | .asking pass due previous =>
      if answers ∧ unfinished s.rows previous ∧ sched.overlap = .skip then
        some (s.finish p pass)
      else some (s.setPhase p (.pushing pass due))
    | _ => none
  | .push p ok =>
    match (s.process p).phase with
    | .pushing pass (t :: rest) =>
      let pushes := s.pushes ++ [{ leader := p, occurrence := t, ok := ok }]
      if ok then
        let row := { id := s.ids, occurrence := t, leader := p, state := .ready }
        let s := { s.setProcess p { s.process p with running := some s.ids } with
          rows := enqueue s.rows row, ids := s.ids + 1, pushes := pushes }
        some (if rest = [] then s.finish p pass else s.setPhase p (.pushing pass rest))
      else some { s.finish p pass with ids := s.ids + 1, pushes := pushes }
    | _ => none
  | .renew p =>
    match (s.process p).guard with
    | some token => some { s with lease := (s.lease.compareAndExpire s.now token ttl).2 }
    | none => none
  | .settle p =>
    match (s.process p).dropping with
    | token :: rest => some { s.setProcess p { s.process p with dropping := rest } with
        lease := (s.lease.compareAndDelete s.now token).2 }
    | [] => none
  | .stop p =>
    match (s.process p).phase with
    | .sleeping | .finished _ =>
      let lease := match (s.process p).guard with
        | some token => (s.lease.compareAndDelete s.now token).2
        | none => s.lease
      some { s.setProcess p { s.process p with phase := .gone, guard := none } with
        lease := lease }
    | _ => none
  | .crash p =>
    match (s.process p).phase with
    | .absent => none
    | _ => some (s.setProcess p { s.process p with
        phase := .gone, guard := none, dropping := [] })
  | .work id state => some { s with rows := s.rows.map fun row =>
      if row.id = id then { row with state := state } else row }
  | .tick d => some { s with now := s.now + d }

end FleetState

end Moso.Jobs
