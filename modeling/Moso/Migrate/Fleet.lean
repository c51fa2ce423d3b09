import Moso.Migrate.Runner
import Moso.Foundation.Machine
import Mathlib.Logic.Function.Basic

/-!
# Runners that share a database

Any number of processes, each with one call of a runner and a connection of its own, interleave
their commands on one database. A command is carried out in one piece, or fails; between two of
them anything may happen, and a process may end for good after any of them. The migration lock is
exclusive: `acquire` waits until nobody has it. A process that ends gives the lock back, and what
it did in an open transaction is gone.

A history is kept beside the schema, and is committed and rolled back with it: what was applied
and undone, and how often. What no transaction takes back is on record.
-/

namespace Moso.Migrate

/-! ### Calls -/

/-- What a runner is asked to do. -/
inductive RunnerCall where
  | migrate (options : RunnerOptions)
  | rollback (steps : ℕ)

namespace RunnerCall

variable (runner : Runner)

/-- The versions that a call returns as undone. -/
def program : RunnerCall → DbProgram (List Version)
  | migrate options => do
    let _ ← runner.migrate options
    return []
  | rollback steps => runner.rollback steps

/-- The versions a call is about to go through, in view of these rows. -/
def plan (applied : List AppliedMigration) : RunnerCall → List Version
  | migrate options => Runner.wanted options (runner.statusOf applied).pending
  | rollback steps  => (applied.reverse.take steps).map (·.version)

def isRollback : RunnerCall → Bool
  | migrate _  => false
  | rollback _ => true

end RunnerCall

/-- How far a call is. -/
inductive Phase where
  | begun
  /-- It has read the ledger, and waits for the lock. -/
  | listed
  /-- It has the lock, and is about to read the ledger again. -/
  | locked
  /-- It is between two versions, or undoes one outside a transaction. -/
  | ready
  /-- It has opened a transaction for a version. -/
  | opened
  /-- The row of a version is in, and its statements run. -/
  | inserted (transactional : Bool)
  /-- All is done for a version but the commit. -/
  | settled
  | failed
  | released
  deriving DecidableEq

/-- How far a call is, with the versions that it is through with and those still to come: the
first of these is the one it is at. -/
structure Stage where
  phase : Phase
  through : List Version
  todo : List Version

namespace Stage

def start : Stage := { phase := .begun, through := [], todo := [] }

/-- A call that failed does not return what it is through with. -/
def failed : Stage := { phase := .failed, through := [], todo := [] }

/-- The call has the lock. -/
def holds (stage : Stage) : Bool :=
  match stage.phase with
  | .locked | .ready | .opened | .inserted _ | .settled | .failed => true
  | .begun | .listed | .released => false

/-- A transaction is open. -/
def isOpen (stage : Stage) : Bool :=
  match stage.phase with
  | .opened | .inserted true | .settled => true
  | _ => false

def goTo (stage : Stage) (phase : Phase) : Stage := { stage with phase := phase }

/-- The call is through with a version. -/
def advance (stage : Stage) : Stage :=
  { phase := .ready, through := stage.through ++ stage.todo.take 1, todo := stage.todo.tail }

/-- How far the call is after an answer. -/
def after (runner : Runner) (call : RunnerCall) (stage : Stage) : (c : DbCmd) → c.Answer → Stage
  | .applied, .ok applied =>
    match stage.phase with
    | .begun  => { phase := .listed, through := [], todo := call.plan runner applied }
    | .locked =>
      { phase := .ready, through := [],
        todo := stage.todo.filter fun version => version ∉ applied.map (·.version) }
    | _ => stage
  | .acquire, .ok _ => stage.goTo (if call.isRollback then .ready else .locked)
  | .begin, .ok _ => stage.goTo .opened
  | .insert _, .ok _ => stage.goTo (.inserted (stage.phase = .opened))
  | .finish _, .ok _ =>
    if stage.phase = .inserted true then stage.goTo .settled else stage.advance
  | .forget _ _, .ok _ =>
    if !call.isRollback then stage
    else if stage.phase = .opened then stage.goTo .settled
    else stage.advance
  | .commit, .ok _ => stage.advance
  | .begin, .error _ | .insert _, .error _ | .finish _, .error _ | .forget _ _, .error _
  | .commit, .error _ | .rollback, _ | .markFailed .., _ => .failed
  | .release, _ => stage.goTo .released
  | _, _ => stage

end Stage

/-! ### What is kept of a run -/

/-- What was done to the database. -/
structure History where
  /-- The versions in the order in which their rows went in. -/
  applied : List Version
  /-- The versions that were undone, in order. -/
  undone : List Version
  /-- How often the down section of a version was run since it was last applied. -/
  downs : Version → ℕ

namespace History

/-- The history of a database that is found with these rows. -/
def of (ledger : Ledger) : History :=
  { applied := ledger.keys, undone := [], downs := fun _ => 0 }

def apply (history : History) (version : Version) : History :=
  { history with
    applied := history.applied ++ [version]
    downs := Function.update history.downs version 0 }

def undo (history : History) (version : Version) : History :=
  { history with undone := history.undone ++ [version] }

def runDown (history : History) (version : Version) : History :=
  { history with
    downs := Function.update history.downs version (history.downs version + 1) }

end History

/-- What no transaction takes back. -/
structure RunnerRecord where
  /-- The versions that calls returned as undone. -/
  reported : List Version
  /-- A migration was applied while a row was dirty. -/
  overDirty : Bool
  /-- A down statement was executed for a version with no row. -/
  stray : Bool

namespace RunnerRecord

def start : RunnerRecord := { reported := [], overDirty := false, stray := false }

/-- What a command adds, where this is the ledger. -/
def note (record : RunnerRecord) (ledger : Ledger) (c : DbCmd) (succeeded : Bool) : RunnerRecord :=
  match c with
  | .insert _ =>
    { record with overDirty := record.overDirty || succeeded && ledger.toList.any (·.dirty) }
  | .execute .down version _ _ | .fetch .down version _ _ =>
    { record with stray := record.stray || version ∉ ledger.keys }
  | _ => record

/-- What the result of a call adds. -/
def returned (record : RunnerRecord) : Except Error (List Version) → RunnerRecord
  | .ok versions => { record with reported := record.reported ++ versions }
  | .error _     => record

end RunnerRecord

/-! ### Commands -/

variable {D : Type}

/-- The engine on a schema that has a history beside it. -/
def Engine.along (engine : Engine D) : Engine (D × History) where
  execute sql schema :=
    match engine.execute sql schema.1 with
    | .ok (count, schema') => .ok (count, schema', schema.2)
    | .error error         => .error error
  fetch sql schema := engine.fetch sql schema.1
  duplicate := engine.duplicate
  misplaced := engine.misplaced

namespace Connection

def writeHistory (conn : Connection (D × History)) (f : History → History) :
    Connection (D × History) :=
  conn.write { conn.visible with schema := (conn.visible.schema.1, f conn.visible.schema.2) }

/-- When a rollback comes to the row of a version, it has run its down section. -/
def reach (conn : Connection (D × History)) (call : RunnerCall) (c : DbCmd) :
    Connection (D × History) :=
  match c with
  | .forget version _ => if call.isRollback then conn.writeHistory (·.runDown version) else conn
  | _ => conn

/-- What a command that succeeded adds to the history. -/
def chronicle (conn : Connection (D × History)) (call : RunnerCall) (c : DbCmd) :
    Connection (D × History) :=
  match c with
  | .insert row       => conn.writeHistory (·.apply row.version)
  | .forget version _ => if call.isRollback then conn.writeHistory (·.undo version) else conn
  | _ => conn

/-- What becomes of a command: it is carried out, unless it has a fault. -/
def perform (backend : Backend) (engine : Engine D) (call : RunnerCall) (fault : Option Error)
    (c : DbCmd) (conn : Connection (D × History)) : c.Answer × Connection (D × History) :=
  let conn := conn.reach call c
  match fault with
  | some error => (.error error, conn.refused backend c)
  | none =>
    let result := conn.exec engine.along c
    (result.1, if result.1.isOk then result.2.chronicle call c else result.2)

end Connection

/-! ### The fleet -/

/-- A call that has begun and not ended. -/
structure RunnerProcess (D : Type) where
  call : RunnerCall
  stage : Stage
  /-- What its transaction made of the database, if there is one. -/
  working : Option (Db (D × History))
  rest : Program DbCmd DbCmd.Answer (Except Error (List Version))

/-- The process is not through with its call. -/
def RunnerProcess.isAsking (p : RunnerProcess D) : Prop := ∃ c next, p.rest = .ask c next

structure RunnerFleet (ι D : Type) where
  db : Db (D × History)
  running : ι → Option (RunnerProcess D)
  lock : Option ι
  record : RunnerRecord

inductive RunnerEvent (ι : Type) where
  /-- A call begins. -/
  | start (i : ι) (call : RunnerCall)
  /-- A call asks its next command, which may have a fault. -/
  | run (i : ι) (fault : Option Error)
  /-- A process ends early. -/
  | stop (i : ι)

namespace RunnerFleet

variable {ι : Type} [DecidableEq ι]

/-- No call is running, and the ledger has these rows. -/
def init (schema : D) (ledger : Ledger) : RunnerFleet ι D :=
  { db := { schema := (schema, .of ledger), ledger := ledger }, running := fun _ => none,
    lock := none, record := .start }

variable (s : RunnerFleet ι D)

def conn (p : RunnerProcess D) : Connection (D × History) :=
  { committed := s.db, working := p.working }

/-- A process that ends gives the lock back. -/
def leave (i : ι) : RunnerFleet ι D :=
  { s with
    running := Function.update s.running i none
    lock := if s.lock = some i then none else s.lock }

/-- A call goes on with the rest of its program, or ends with its result. -/
def goOn (i : ι) (p : RunnerProcess D) : RunnerFleet ι D :=
  match p.rest with
  | .done result => { s.leave i with record := s.record.returned result }
  | .ask _ _     => { s with running := Function.update s.running i (some p) }

/-- Who has the lock after a command. -/
def lockAfter (i : ι) (c : DbCmd) (succeeded : Bool) : Option ι :=
  match c with
  | .acquire => if succeeded then some i else s.lock
  | .release => if s.lock = some i then none else s.lock
  | _ => s.lock

/-- One command of the process `p`, which runs as `i`. -/
def ran (runner : Runner) (engine : Engine D) (i : ι) (p : RunnerProcess D) (fault : Option Error)
    (c : DbCmd) (next : c.Answer → Program DbCmd DbCmd.Answer (Except Error (List Version))) :
    RunnerFleet ι D :=
  let result := (s.conn p).perform runner.backend engine p.call fault c
  let s' : RunnerFleet ι D :=
    { db := result.2.committed
      running := s.running
      lock := s.lockAfter i c result.1.isOk
      record := s.record.note (s.conn p).visible.ledger c result.1.isOk }
  s'.goOn i
    { p with
      stage := p.stage.after runner p.call c result.1
      working := result.2.working
      rest := next result.1 }

/-- The lock is asked for while somebody has it. -/
def blocks (fault : Option Error) : DbCmd → Bool
  | .acquire => fault.isNone && s.lock.isSome
  | _ => false

/-- A process ends early. -/
def quit (i : ι) (p : RunnerProcess D) : RunnerFleet ι D :=
  match p.rest with
  | .done _  => s.leave i
  | .ask c _ => { s.leave i with db := ((s.conn p).reach p.call c).committed }

def step (runner : Runner) (engine : Engine D) (s : RunnerFleet ι D) :
    RunnerEvent ι → Option (RunnerFleet ι D)
  | .start i call =>
    match s.running i with
    | some _ => none
    | none   =>
      some (s.goOn i
        { call := call, stage := .start, working := none, rest := (call.program runner).run })
  | .run i fault =>
    match s.running i with
    | none => none
    | some p =>
      match p.rest with
      | .done _ => none
      | .ask c next =>
        if s.blocks fault c then none else some (s.ran runner engine i p fault c next)
  | .stop i =>
    match s.running i with
    | none   => none
    | some p => some (s.quit i p)

end RunnerFleet

end Moso.Migrate
