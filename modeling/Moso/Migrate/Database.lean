import Moso.Migrate.Ledger
import Moso.Foundation.Program

/-!
# The database of a run

What the runner asks of the database, and what a connection makes of it: a transactional store
of the schema with its data on the one hand, and of the ledger on the other. What the statements
of migrations do to the schema is for the engine to say; they do not touch the ledger, and they
neither open nor end transactions.
-/

namespace Moso.Migrate

/-- The rows a query returns, as text. -/
abbrev Rows := List (List (Option String))

/-- The section of a migration that a statement is from. -/
inductive Part where
  | up
  | down

/-- What a run asks of the database. The statements of a migration come with their version and
their one-based index; `acquire`, `refresh` and `release` are about the migration lock. -/
inductive DbCmd where
  | ensure
  | applied
  | setLockTimeout (millis : ℕ)
  | setStatementTimeout (millis : ℕ)
  | begin
  | commit
  | rollback
  | insert (row : AppliedMigration)
  | finish (version : Version)
  | markFailed (version : Version) (statement : ℕ) (failure : String)
  | forget (version : Version) (index : ℕ)
  | execute (part : Part) (version : Version) (index : ℕ) (sql : String)
  | fetch (part : Part) (version : Version) (index : ℕ) (sql : String)
  | acquire
  | refresh
  | release

namespace DbCmd

/-- What a command returns when it does not fail. `refresh` returns for how long the lock was
held, if it was lost. -/
abbrev Result : DbCmd → Type
  | applied => List AppliedMigration
  | execute .. => ℕ
  | fetch .. => Rows
  | refresh => Option ℕ
  | ensure | setLockTimeout _ | setStatementTimeout _ | begin | commit | rollback | insert _
  | finish _ | markFailed .. | forget .. | acquire | release => Unit

abbrev Answer (c : DbCmd) : Type := Except Error c.Result

end DbCmd

abbrev DbProgram : Type → Type := ExceptT Error (Program DbCmd DbCmd.Answer)

/-- Ask a command, and end with its error if it fails. -/
abbrev DbCmd.call (c : DbCmd) : DbProgram c.Result := Program.call c

/-- Ask a command, whose answer is ignored. -/
abbrev DbCmd.ignore (c : DbCmd) : DbProgram Unit := Program.ignore c

/-- What the database makes of the statements of migrations. -/
structure Engine (D : Type) where
  execute : String → D → Except Error (ℕ × D)
  fetch : String → D → Except Error Rows
  /-- What is said of a second row for a version. -/
  duplicate : Version → Error
  /-- What is said of a `BEGIN` inside a transaction, and of a `COMMIT` or `ROLLBACK` outside. -/
  misplaced : Except Error Unit

/-- An engine that takes every statement, and whose schema is the script it took. -/
def Engine.script : Engine (List String) where
  execute sql schema := .ok (0, schema ++ [sql])
  fetch _ _ := .ok []
  duplicate version := .other ("duplicate version " ++ displayVersion version)
  misplaced := .ok ()

/-- What the database holds. -/
structure Db (D : Type) where
  schema : D
  ledger : Ledger

/-- What is committed, and what a transaction made of it if there is one. -/
structure Connection (D : Type) where
  committed : Db D
  working : Option (Db D)

namespace Connection

variable {D : Type} (conn : Connection D)

/-- What the connection reads. -/
def visible : Db D := conn.working.getD conn.committed

def write (db : Db D) : Connection D :=
  match conn.working with
  | some _ => { conn with working := some db }
  | none   => { conn with committed := db }

def writeLedger (f : Ledger → Ledger) : Connection D :=
  conn.write { conn.visible with ledger := f conn.visible.ledger }

/-- What a command does when nothing keeps it from being carried out. -/
def exec (engine : Engine D) : (c : DbCmd) → Connection D → c.Answer × Connection D
  | .applied, conn => (.ok conn.visible.ledger.toList, conn)
  | .begin, conn =>
    match conn.working with
    | none   => (.ok (), { conn with working := some conn.committed })
    | some _ => (engine.misplaced, conn)
  | .commit, conn =>
    match conn.working with
    | some db => (.ok (), { committed := db, working := none })
    | none    => (engine.misplaced, conn)
  | .rollback, conn =>
    match conn.working with
    | some _ => (.ok (), { conn with working := none })
    | none   => (engine.misplaced, conn)
  | .insert row, conn =>
    match conn.visible.ledger.begin row with
    | some ledger => (.ok (), conn.writeLedger fun _ => ledger)
    | none        => (.error (engine.duplicate row.version), conn)
  | .finish version, conn => (.ok (), conn.writeLedger fun ledger => ledger.finish version)
  | .markFailed version statement failure, conn =>
    (.ok (), conn.writeLedger fun ledger => ledger.markFailed version statement failure)
  | .forget version _, conn => (.ok (), conn.writeLedger fun ledger => ledger.forget version)
  | .execute _ _ _ sql, conn =>
    match engine.execute sql conn.visible.schema with
    | .ok (count, schema) => (.ok count, conn.write { conn.visible with schema := schema })
    | .error error        => (.error error, conn)
  | .fetch _ _ _ sql, conn => (engine.fetch sql conn.visible.schema, conn)
  | .refresh, conn => (.ok none, conn)
  | .ensure, conn | .setLockTimeout _, conn | .setStatementTimeout _, conn | .acquire, conn
  | .release, conn => (.ok (), conn)

/-- What a command leaves that is not carried out. PostgreSQL ends the transaction of a `COMMIT`
that fails. -/
def refused (backend : Backend) (c : DbCmd) : Connection D :=
  match c with
  | .commit => if backend = .postgres then { conn with working := none } else conn
  | _ => conn

variable {conn} {a b : Db D}

@[simp] lemma visible_write : (conn.write a).visible = a := by
  obtain ⟨committed, working⟩ := conn
  cases working <;> rfl

@[simp] lemma write_write : (conn.write a).write b = conn.write b := by
  obtain ⟨committed, working⟩ := conn
  cases working <;> rfl

@[simp] lemma write_visible : conn.write conn.visible = conn := by
  obtain ⟨committed, working⟩ := conn
  cases working <;> rfl

/-- What fails by itself changes nothing. -/
lemma exec_eq_error {engine : Engine D} {c : DbCmd} {error : Error} {conn' : Connection D}
    (h : conn.exec engine c = (.error error, conn')) : conn' = conn := by
  cases c with
  | begin =>
    rw [exec] at h
    split at h
    · cases h
    · exact (congrArg Prod.snd h).symm
  | commit =>
    rw [exec] at h
    split at h
    · cases h
    · exact (congrArg Prod.snd h).symm
  | rollback =>
    rw [exec] at h
    split at h
    · cases h
    · exact (congrArg Prod.snd h).symm
  | insert row =>
    rw [exec] at h
    split at h
    · cases h
    · exact (congrArg Prod.snd h).symm
  | execute part version index sql =>
    rw [exec] at h
    split at h
    · cases h
    · exact (congrArg Prod.snd h).symm
  | fetch part version index sql => exact (congrArg Prod.snd h).symm
  | _ => cases h

lemma committed_refused {backend : Backend} {c : DbCmd} :
    (conn.refused backend c).committed = conn.committed := by
  cases c with
  | commit =>
    rw [refused]
    split <;> rfl
  | _ => rfl

/-- What is written outside a transaction is committed. -/
lemma committed_write :
    (conn.write a).committed = if conn.working.isSome then conn.committed else a := by
  obtain ⟨committed, working⟩ := conn
  cases working <;> rfl

/-- Writing neither opens nor ends a transaction. -/
lemma working_write : (conn.write a).working = conn.working.map fun _ => a := by
  obtain ⟨committed, working⟩ := conn
  cases working <;> rfl

end Connection

end Moso.Migrate
