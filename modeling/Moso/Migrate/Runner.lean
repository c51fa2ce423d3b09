import Moso.Migrate.Database
import Moso.Foundation.Decimal

/-!
# The migration runner

What is on disk, what the ledger says of it, and how the runner applies what is pending and rolls
back what was applied: programs that ask the database.
-/

namespace Moso.Migrate

open Program (attempt settle)
open DbCmd (call ignore)

/-! ### Migrations -/

structure MigrationId where
  version : Version
  name : String

namespace MigrationId

def fileName (id : MigrationId) (extension : String) : String :=
  displayVersion id.version ++ "_" ++ id.name ++ "." ++ extension

def display (id : MigrationId) : String := displayVersion id.version ++ "_" ++ id.name

end MigrationId

/-- A destructive block that is still commented out. -/
structure PendingDestructive where
  reason : String
  statements : List String

namespace PendingDestructive

def isManual (block : PendingDestructive) : Bool := block.statements.isEmpty

def describe (block : PendingDestructive) : List String :=
  if block.statements.isEmpty then ["(manual) " ++ block.reason] else block.statements

end PendingDestructive

structure MigrationFile where
  id : MigrationId
  checksum : String
  up : List String
  down : List String := []
  pendingDestructive : List PendingDestructive := []
  reversible : Bool := false
  transactional : Bool := true
  /-- In milliseconds, as are all durations. -/
  lockTimeout : ℕ := 5000
  statementTimeout : ℕ := 60000
  /-- The versions this file stands in for. -/
  replaces : List Version := []

namespace MigrationFile

def version (file : MigrationFile) : Version := file.id.version

/-- The statements of the file, with those of its destructive blocks when they are allowed. -/
def statementsToApply (file : MigrationFile) (allowDestructive : Bool) :
    Except Error (List String) :=
  if file.pendingDestructive.isEmpty then .ok file.up
  else
    let manual := (file.pendingDestructive.filter (·.isManual)).map (·.reason)
    if !manual.isEmpty then
      .error (.manualMigrationRequired (file.id.fileName "sql") manual)
    else if !allowDestructive then
      .error (.destructive (file.id.fileName "sql")
        (file.pendingDestructive.flatMap (·.describe)))
    else .ok (file.up ++ file.pendingDestructive.flatMap (·.statements))

/-- Templates have to be written out first, and what else is pending has to be allowed. -/
lemma statementsToApply_eq_ok {file : MigrationFile} {allowDestructive : Bool}
    {statements : List String} :
    file.statementsToApply allowDestructive = .ok statements ↔
      (∀ block ∈ file.pendingDestructive, block.statements ≠ []) ∧
        (allowDestructive = true ∨ file.pendingDestructive = []) ∧
        statements = file.up ++ file.pendingDestructive.flatMap (·.statements) := by
  have hmanual : ((file.pendingDestructive.filter (·.isManual)).map (·.reason)).isEmpty = true ↔
      ∀ block ∈ file.pendingDestructive, block.statements ≠ [] := by
    simp [PendingDestructive.isManual]
  rw [statementsToApply, ← hmanual]
  cases hpending : file.pendingDestructive with
  | nil => simp [eq_comm]
  | cons block blocks =>
    dsimp only [List.isEmpty_cons, Bool.false_eq_true, if_false]
    cases ((block :: blocks).filter (·.isManual)).map (·.reason) with
    | cons => simp
    | nil => cases allowDestructive <;> simp [eq_comm]

end MigrationFile

/-- What a migration written in Rust is given to work with. -/
inductive MigratorCmd where
  | execute (sql : String)
  | fetch (sql : String)

abbrev MigratorCmd.Answer : MigratorCmd → Type
  | execute _ => Except Error ℕ
  | fetch _   => Except Error Rows

/-- What the body of a migration written in Rust does. -/
abbrev Body : Type := Program MigratorCmd MigratorCmd.Answer (Except Error Unit)

/-- The body on the database: its statements are those of a section of a migration, counted from
the ones that were run. -/
def Body.onDatabase (part : Part) (version : Version) :
    ℕ → Body → Program DbCmd DbCmd.Answer (Except Error Unit)
  | _, .done result => .done result
  | statements, .ask (.execute sql) next =>
    .ask (.execute part version (statements + 1) sql) fun answer =>
      onDatabase part version (statements + 1) (next answer)
  | statements, .ask (.fetch sql) next =>
    .ask (.fetch part version (statements + 1) sql) fun answer =>
      onDatabase part version (statements + 1) (next answer)

structure RustMigration where
  version : Version
  name : String
  isReversible : Bool := false
  isTransactional : Bool := true
  fingerprint : String
  up : Body
  down : Body := .done (.ok ())

structure RunnerOptions where
  allowDestructive : Bool := false
  allowOutOfOrder : Bool := false
  target : Option Version := none
  profile : String := "dev"
  dryRun : Bool := false

namespace RunnerOptions

def isProduction (options : RunnerOptions) : Bool :=
  options.profile = "production" || options.profile = "prod" || options.profile = "live"

/-- The one thing the profile decides. -/
def guardProfile (options : RunnerOptions) : Except Error Unit :=
  if options.isProduction && options.allowDestructive then
    .error (.refusedInProduction "moso db migrate --allow-destructive" options.profile
      ("in production the acknowledgement is the committed diff that uncomments " ++
        "the `-- +migrate destructive` block, not a flag typed at a shell — " ++
        "uncomment it, commit it, deploy it"))
  else .ok ()

end RunnerOptions

/-! ### The directory and the ledger -/

structure Status where
  applied : List AppliedMigration
  /-- Versions on disk that have not run. -/
  pending : List Version
  dirty : List AppliedMigration
  /-- Applied migrations whose file has changed, with both checksums. -/
  changed : List (Version × String × String)
  /-- Applied migrations whose file is gone. -/
  missing : List Version
  /-- Pending versions, each with the applied one that it sorts before. -/
  outOfOrder : List (Version × Version)

namespace Status

/-- The first problem, as the error that explains it. -/
def intoResult (status : Status) : Except Error Status :=
  match status.dirty with
  | dirty :: _ =>
    .error (.dirty dirty.version dirty.name (dirty.failedStatement.getD 0)
      (dirty.totalStatements.getD 0) (dirty.failure.getD "the failure was not recorded"))
  | [] =>
    match status.changed with
    | (version, recorded, actual) :: _ =>
      let name := ((status.applied.find? fun row => row.version = version).map (·.name)).getD ""
      .error (.checksumMismatch version name recorded actual)
    | [] =>
      match status.missing with
      | version :: _ => .error (.missingFile version)
      | [] => .ok status

lemma intoResult_eq_ok {status status' : Status} (h : status.intoResult = .ok status') :
    status' = status := by
  rw [intoResult] at h
  split at h
  · cases h
  · split at h
    · cases h
    · split at h
      · cases h
      · exact (Except.ok.inj h).symm

end Status

structure MigrateReport where
  applied : List (Version × String)
  skipped : List Version
  dryRun : Bool

structure Runner where
  backend : Backend
  files : List MigrationFile
  rust : List RustMigration

namespace Runner

variable (runner : Runner)

def file (version : Version) : Option MigrationFile :=
  runner.files.find? fun file => file.version = version

def rustAt (version : Version) : Option RustMigration :=
  runner.rust.find? fun migration => migration.version = version

variable {runner} in
lemma version_of_file {version : Version} {file : MigrationFile}
    (h : runner.file version = some file) : file.version = version := by
  have hfound := List.find?_some h
  exact of_decide_eq_true hfound

variable {runner} in
lemma version_of_rustAt {version : Version} {migration : RustMigration}
    (h : runner.rustAt version = some migration) : migration.version = version := by
  have hfound := List.find?_some h
  exact of_decide_eq_true hfound

def nameOf (version : Version) : String :=
  match runner.file version with
  | some file => file.id.name
  | none      => ((runner.rustAt version).map (·.name)).getD ""

/-- What is on disk: the checksum of each version, and whether it is a squashed baseline. -/
def onDisk : Keyed (Prod.fst : Version × String × Bool → Version) :=
  let files := runner.files.foldl
    (fun map file => map.insert (file.version, file.checksum, !file.replaces.isEmpty)) .empty
  runner.rust.foldl
    (fun map migration => map.insert (migration.version, migration.fingerprint, false)) files

/-- Compares the rows of the ledger with the directory. -/
def statusOf (applied : List AppliedMigration) : Status :=
  let replaced := runner.files.flatMap (·.replaces)
  let appliedVersions := applied.map (·.version)
  let pending := runner.onDisk.keys.filter fun version => version ∉ appliedVersions
  { applied := applied
    pending := pending
    dirty := applied.filter (·.dirty)
    changed := applied.filterMap fun row =>
      match runner.onDisk.get? row.version with
      | some (_, checksum, baseline) =>
        if checksum = row.checksum ∨ baseline then none
        else some (row.version, row.checksum, checksum)
      | none => none
    missing := appliedVersions.filter fun version =>
      (runner.onDisk.get? version).isNone ∧ version ∉ replaced
    outOfOrder :=
      match appliedVersions.max? with
      | some highest => (pending.filter fun version => version < highest).map (·, highest)
      | none => [] }

def status : DbProgram Status := do
  call .ensure
  let applied ← call .applied
  return runner.statusOf applied

/-! ### Applying -/

/-- The timeouts of the session; SQLite has none. -/
def setTimeouts (lock statement : ℕ) : DbProgram Unit :=
  if runner.backend ≠ .postgres then pure ()
  else do
    call (.setLockTimeout lock)
    call (.setStatementTimeout statement)

/-- Whether the statement is SQLite's foreign-key check, which reports violations as rows. -/
def isForeignKeyCheck (statement : String) : Bool :=
  let text := Decimal.trim statement.toList
  let text := Decimal.trim (text.reverse.dropWhile (· = ';')).reverse
  text.map Char.toLower = "pragma foreign_key_check".toList

/-- What becomes of the number of violations that the check found. -/
def checkViolations (version : Version) (violations : ℕ) : Except Error Unit :=
  if violations = 0 then .ok ()
  else .error (.unsupported runner.backend.asStr
    ("finish `" ++ displayVersion version ++ "`: the table rebuild left " ++
      toString violations ++ " foreign-key violation(s)")
    ("the copied rows reference something that is not there; check the " ++
      "`INSERT INTO … SELECT` in this migration"))

def runStatement (version : Version) (index : ℕ) (statement : String) : DbProgram Unit :=
  if isForeignKeyCheck statement then do
    let violations ← call (.fetch .up version index statement)
    settle (runner.checkViolations version violations.length)
  else do
    let _ ← call (.execute .up version index statement)

/-- The statements from the one with this index on. -/
def runStatementsFrom (version : Version) (recordFailures : Bool) :
    ℕ → List String → DbProgram Unit
  | _, [] => pure ()
  | index, statement :: statements => do
    let outcome ← attempt (runner.runStatement version index statement)
    match outcome with
    | .ok _ => runStatementsFrom version recordFailures (index + 1) statements
    | .error error =>
      if recordFailures then
        ignore (.markFailed version index error.display)
        throw error
      else throw error

def runStatements (statements : List String) (version : Version) (name checksum : String)
    (recordFailures : Bool) : DbProgram Unit := do
  call (.insert (.begin version name checksum statements.length))
  runner.runStatementsFrom version recordFailures 1 statements

def applyRust (migration : RustMigration) : DbProgram Unit := do
  let version := migration.version
  if migration.isTransactional then
    call .begin
  call (.insert (.begin version migration.name migration.fingerprint 0))
  let outcome ← ExceptT.lift (migration.up.onDatabase .up version 0)
  match outcome with
  | .ok _ =>
    call (.finish version)
    if migration.isTransactional then
      call .commit
  | .error error =>
    if migration.isTransactional then
      ignore .rollback
    else
      ignore (.markFailed version 0 error.display)
    throw (.migrationFailed version error.display)

/-- The rows that a baseline takes the place of go, but for its own. -/
def forgetReplaced (version : Version) : ℕ → List Version → DbProgram Unit
  | _, [] => pure ()
  | index, replaced :: rest => do
    if replaced ≠ version then
      call (.forget replaced index)
    forgetReplaced version (index + 1) rest

/-- A baseline that stands in for migrations which were all applied is recorded and not run. -/
def recordBaseline (file : MigrationFile) : DbProgram Unit := do
  call (.insert (.begin file.version file.id.name file.checksum 0))
  call (.finish file.version)
  forgetReplaced file.version 0 file.replaces

def applyFile (file : MigrationFile) (options : RunnerOptions) : DbProgram Unit := do
  let version := file.version
  let statements ← settle (file.statementsToApply options.allowDestructive)
  runner.setTimeouts file.lockTimeout file.statementTimeout
  if file.transactional then
    call .begin
    let outcome ← attempt
      (runner.runStatements statements version file.id.name file.checksum false)
    match outcome with
    | .ok _ =>
      call (.finish version)
      call .commit
    | .error error =>
      ignore .rollback
      throw error
  else
    runner.runStatements statements version file.id.name file.checksum true
    call (.finish version)

/-- Applies one migration, with its timeouts and its transaction. -/
def applyOne (version : Version) (options : RunnerOptions) : DbProgram Unit := do
  settle options.guardProfile
  match runner.rustAt version with
  | some migration => applyRust migration
  | none =>
    match runner.file version with
    | none => throw (.missingFile version)
    | some file =>
      if file.replaces.isEmpty then runner.applyFile file options
      else
        let already ← call .applied
        if file.replaces.all (· ∈ already.map (·.version)) then recordBaseline file
        else runner.applyFile file options

/-- Renews the lock, if the lock is a row; returns for how long it was held if it was lost. -/
def refresh : DbProgram (Option ℕ) :=
  if runner.backend ≠ .sqlite then pure none else call .refresh

def applyAll (options : RunnerOptions) : List Version → DbProgram (List (Version × String))
  | [] => pure []
  | version :: pending => do
    match ← runner.refresh with
    | some heldSecs => throw (.lockLost heldSecs)
    | none =>
      runner.applyOne version options
      let applied ← applyAll options pending
      return (version, runner.nameOf version) :: applied

/-- The gate that every file passes before the database is touched. -/
def checkDestructive (options : RunnerOptions) : List Version → Except Error Unit
  | [] => .ok ()
  | version :: pending =>
    match runner.file version with
    | none => checkDestructive options pending
    | some file =>
      match file.statementsToApply options.allowDestructive with
      | .ok _    => checkDestructive options pending
      | .error e => .error e

/-- The gate against pending versions that sort before an applied one. -/
def checkOrder (options : RunnerOptions) (status : Status) : Except Error Unit :=
  if options.allowOutOfOrder then .ok ()
  else
    match status.outOfOrder with
    | (version, applied) :: _ => .error (.outOfOrder version applied)
    | [] => .ok ()

/-- The pending versions a run is asked for. -/
def wanted (options : RunnerOptions) (pending : List Version) : List Version :=
  match options.target with
  | some target => pending.filter fun version => version ≤ target
  | none        => pending

/-- What is pending, applied under the lock. -/
def applyPending (options : RunnerOptions) (pending : List Version) (report : MigrateReport) :
    DbProgram MigrateReport := do
  call .acquire
  -- another process may have applied some of these in the meantime
  let already ← call .applied
  let pending := pending.filter fun version => version ∉ already.map (·.version)
  let outcome ← attempt (runner.applyAll options pending)
  ignore .release
  let applied ← settle outcome
  return { report with applied := applied }

/-- Applies every pending migration. -/
def migrate (options : RunnerOptions) : DbProgram MigrateReport := do
  settle options.guardProfile
  let status ← runner.status
  let status ← settle status.intoResult
  settle (checkOrder options status)
  let pending := wanted options status.pending
  let report : MigrateReport :=
    { applied := [], skipped := status.applied.map (·.version), dryRun := options.dryRun }
  if pending.isEmpty then return report
  else
    settle (runner.checkDestructive options pending)
    if options.dryRun then
      return { report with
        applied := pending.map fun version => (version, runner.nameOf version) }
    else runner.applyPending options pending report

/-! ### Rolling back -/

def runDown (version : Version) (transactional : Bool) : ℕ → List String → DbProgram Unit
  | _, [] => pure ()
  | index, statement :: statements => do
    let outcome ← attempt (call (.execute .down version index statement))
    match outcome with
    | .ok _ => runDown version transactional (index + 1) statements
    | .error error =>
      if transactional then
        ignore .rollback
        throw error
      else throw error

def rollbackRust (migration : RustMigration) : DbProgram Unit := do
  let outcome ←
    if migration.isReversible then
      ExceptT.lift (migration.down.onDatabase .down migration.version 0)
    else pure (.error (.unsupported runner.backend.asStr
      ("roll back `" ++ displayVersion migration.version ++ "`")
      ("`" ++ migration.name ++ "` declares `is_reversible() -> false`; write a new " ++
        "migration that undoes it instead")))
  settle outcome
  call (.forget migration.version 0)

def rollbackFile (file : MigrationFile) : DbProgram Unit :=
  if !file.reversible || file.down.isEmpty then
    throw (.unsupported runner.backend.asStr ("roll back `" ++ file.id.display ++ "`")
      ("`" ++ file.id.fileName "sql" ++ "` has no `-- +migrate down` section; write a new " ++
        "migration that undoes it"))
  else do
    runner.setTimeouts file.lockTimeout file.statementTimeout
    if file.transactional then
      call .begin
    runDown file.version file.transactional 1 file.down
    call (.forget file.version 0)
    if file.transactional then
      call .commit

def rollbackOne (version : Version) : DbProgram Unit :=
  match runner.rustAt version with
  | some migration => runner.rollbackRust migration
  | none =>
    match runner.file version with
    | none      => throw (.missingFile version)
    | some file => runner.rollbackFile file

def rollbackAll : List Version → DbProgram (List Version)
  | [] => pure []
  | version :: targets => do
    match ← runner.refresh with
    | some heldSecs => throw (.lockLost heldSecs)
    | none =>
      runner.rollbackOne version
      let undone ← rollbackAll targets
      return version :: undone

/-- Rolls back the last `steps` applied migrations. -/
def rollback (steps : ℕ) : DbProgram (List Version) := do
  call .ensure
  let applied ← call .applied
  let targets := (applied.reverse.take steps).map (·.version)
  call .acquire
  let outcome ← attempt (runner.rollbackAll targets)
  ignore .release
  settle outcome

end Runner

end Moso.Migrate
