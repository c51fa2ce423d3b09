import Moso.Foundation.Custody
import Moso.Foundation.Machine
import Moso.Foundation.Parties

/-!
# The audit batch

`BatchingAuditSink` with its flusher and its guard: any number of calls that record an entry or
flush, each of them going on from one of its awaits to the next, beside the flusher task and the
guard that shuts the sink down. An entry is known by the number of the call that records it. The
inner sink takes an entry at once and has written it when its call returns, whenever that is.
-/

namespace Moso.Authz

/-- What a task does: a call that records an entry, one that flushes, the flusher, or the guard
that is shut down or dropped. -/
inductive AuditRole where
  | record
  | flush
  | flusher
  | shutdown
  | release
  deriving DecidableEq

/-- How far a task is. -/
inductive AuditPhase where
  /-- It has not been polled, or it waits for the next tick. -/
  | begun
  /-- The inner sink has an entry of its batch, and the rest of the batch is still to be written. -/
  | writing (entry : ℕ) (rest : List ℕ)
  /-- It flushes the inner sink. -/
  | flushing
  deriving DecidableEq

/-- A task in progress, and the entries that had been recorded when the guard was shut down. -/
structure AuditTask where
  role : AuditRole
  phase : AuditPhase
  before : List ℕ
  deriving DecidableEq

inductive GuardState where
  | unspawned
  | held
  | released
  deriving DecidableEq

/-- A sink and its tasks. Kept beside them are the numbers of the tasks so far, the entries that
were recorded, those that the inner sink was handed, those that it has written, and of each
shutdown that has returned while nobody recorded, whether an entry was missing. -/
structure AuditRun where
  buffer : List ℕ
  tasks : ℕ → Option AuditTask
  guard : GuardState
  aborted : Bool
  begun : List ℕ
  recorded : List ℕ
  handed : List ℕ
  written : List ℕ
  missed : List Bool

/-- What happens next: somebody calls, the guard is made, shut down or dropped, a task goes on to
its next await, or its future is dropped. -/
inductive AuditEvent where
  | record (i : ℕ)
  | flush (i : ℕ)
  | spawn (i : ℕ)
  | shutdown (i : ℕ)
  | release (i : ℕ)
  | go (i : ℕ)
  | drop (i : ℕ)

namespace AuditPhase

def rest : AuditPhase → List ℕ
  | writing _ rest => rest
  | _ => []

/-- The entry that the inner sink is writing for the task. -/
def current : AuditPhase → Option ℕ
  | writing entry _ => some entry
  | _ => none

end AuditPhase

namespace AuditRun

def start : AuditRun where
  buffer := []
  tasks := fun _ => none
  guard := .unspawned
  aborted := false
  begun := []
  recorded := []
  handed := []
  written := []
  missed := []

def put (s : AuditRun) (i : ℕ) (task : AuditTask) : AuditRun :=
  { s with tasks := Function.update s.tasks i (some task) }

def leave (s : AuditRun) (i : ℕ) : AuditRun := { s with tasks := Function.update s.tasks i none }

def begin_ (s : AuditRun) (i : ℕ) (role : AuditRole) (before : List ℕ) : Option AuditRun :=
  if i ∈ s.begun then none
  else some { s.put i ⟨role, .begun, before⟩ with begun := i :: s.begun }

/-- A property of some task in progress but this one. -/
def anyOther (s : AuditRun) (i : ℕ) (p : AuditTask → Bool) : Bool :=
  s.begun.any fun j => j ≠ i && (s.tasks j).any p

/-- Take the buffer, and hand its first entry to the inner sink, or flush that. -/
def take (s : AuditRun) (i : ℕ) (task : AuditTask) : AuditRun :=
  match s.buffer with
  | [] => s.put i { task with phase := .flushing }
  | entry :: rest =>
    { s.put i { task with phase := .writing entry rest } with
      buffer := [], handed := entry :: s.handed }

/-- The guard is gone. -/
def finish (s : AuditRun) (i : ℕ) (task : AuditTask) : AuditRun :=
  { s.leave i with
    missed := (!s.anyOther i (fun other => other.role = .record) &&
      task.before.any fun entry => entry ∉ s.written) :: s.missed }

/-- Append an entry; the call that fills the buffer takes it. -/
def push (batchSize : ℕ) (s : AuditRun) (i : ℕ) (task : AuditTask) : AuditRun :=
  let s' := { s with buffer := s.buffer ++ [i], recorded := i :: s.recorded }
  if max batchSize 1 ≤ s'.buffer.length then s'.take i task else s'.leave i

/-- A task goes on to its next await. An aborted flusher may do so until it is dropped. -/
def go (batchSize : ℕ) (s : AuditRun) (i : ℕ) (task : AuditTask) : AuditRun :=
  match task.phase, task.role with
  | .begun, .record => s.push batchSize i task
  | .begun, .shutdown => { s with aborted := true }.take i task
  | .begun, .release =>
    let s' := { s with aborted := true }
    if s.buffer = [] then s'.finish i task else s'.take i task
  | .begun, _ => s.take i task
  | .writing entry (next :: rest), _ =>
    { s.put i { task with phase := .writing next rest } with
      written := entry :: s.written, handed := next :: s.handed }
  | .writing entry [], .record => { s.leave i with written := entry :: s.written }
  | .writing entry [], _ =>
    { s.put i { task with phase := .flushing } with written := entry :: s.written }
  | .flushing, .flusher => s.put i { task with phase := .begun }
  -- The guard is dropped at the end of its shutdown.
  | .flushing, .shutdown => s.put i { task with role := .release, phase := .begun }
  | .flushing, .release => s.finish i task
  | .flushing, _ => s.leave i

/-- A future that may be dropped: a call's, or the flusher's once it is aborted. -/
def droppable (s : AuditRun) (task : AuditTask) : Bool :=
  match task.role with
  | .record | .flush => true
  | .flusher => s.aborted
  | .shutdown | .release => false

def step (batchSize : ℕ) (s : AuditRun) : AuditEvent → Option AuditRun
  | .record i => s.begin_ i .record []
  | .flush i => s.begin_ i .flush []
  | .spawn i =>
    if s.guard = .unspawned then { s with guard := .held }.begin_ i .flusher [] else none
  | .shutdown i =>
    if s.guard = .held then { s with guard := .released }.begin_ i .shutdown s.recorded else none
  | .release i =>
    if s.guard = .held then { s with guard := .released }.begin_ i .release s.recorded else none
  | .go i => (s.tasks i).map (s.go batchSize i)
  | .drop i =>
    match s.tasks i with
    | none => none
    | some task => if s.droppable task then some (s.leave i) else none

/-! ### What the sink promises -/

/-- A task in progress has an entry of its batch still to hand over. -/
def inHand (s : AuditRun) (entry : ℕ) : Prop := ∃ j task, s.tasks j = some task ∧
  entry ∈ task.phase.rest

/-- Every entry recorded was handed over once, or is buffered, or is in somebody's hand; the
buffer holds no more than a batch; and nothing was missing when a shutdown returned. -/
def Lossless (batchSize : ℕ) (s : AuditRun) : Prop :=
  ((s.handed ++ s.buffer).Nodup ∧
    ∀ entry ∈ s.recorded, entry ∈ s.handed ∨ entry ∈ s.buffer ∨ s.inHand entry) ∧
  s.buffer.length ≤ max batchSize 1 ∧ ∀ missed ∈ s.missed, missed = false

/-- The guard returns with its task's next step. -/
def returns (s : AuditRun) (task : AuditTask) : Bool :=
  match task.role, task.phase with
  | .release, .flushing => true
  | .release, .begun => s.buffer = []
  | _, _ => false

/-- No future is dropped that has taken a batch, and a shutdown does not return while a flush has
an entry that was recorded before it. -/
def keepsBatches (s : AuditRun) : AuditEvent → Bool
  | .drop i => (s.tasks i).all fun task => task.phase.current = none
  | .go i => (s.tasks i).all fun task => !s.returns task ||
      !s.anyOther i fun other => other.role ≠ .record &&
        task.before.any fun entry => other.phase.current = some entry ∨ entry ∈ other.phase.rest
  | _ => true

end AuditRun

end Moso.Authz
