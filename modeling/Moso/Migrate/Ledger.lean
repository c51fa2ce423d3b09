import Moso.Foundation.Keyed
import Mathlib.Data.Nat.Basic

/-!
# The migration ledger

The rows of `moso_migrations`, one for each migration that ran or began to, and what the runner
does to them. A row goes in before the statements of its migration run, marked dirty, and the
mark is taken off at the end.
-/

namespace Moso.Migrate

/-- The fourteen digits of a version, read as a number: versions are ordered as these are. -/
abbrev Version := ℕ

/-- `YYYYMMDDThhmmss`. -/
def displayVersion (version : Version) : String :=
  let digits := (Nat.toDigits 10 version).leftpad 14 '0'
  String.ofList (digits.take 8) ++ "T" ++ String.ofList (digits.drop 8)

inductive Backend where
  | postgres
  | sqlite
  deriving DecidableEq

def Backend.asStr : Backend → String
  | postgres => "PostgreSQL"
  | sqlite   => "SQLite"

/-! ### Errors -/

inductive Error where
  | checksumMismatch (version : Version) (name recorded actual : String)
  | missingFile (version : Version)
  | dirty (version : Version) (name : String) (statement total : ℕ) (sql : String)
  | destructive (file : String) (operations : List String)
  | manualMigrationRequired (file : String) (reasons : List String)
  | lockLost (heldSecs : ℕ)
  | outOfOrder (version applied : Version)
  | unsupported (backend operation help : String)
  | database (context help source : String)
  | lockTimeout (waitedSecs : ℕ)
  | refusedInProduction (command profile help : String)
  | migrationFailed (version : Version) (message : String)
  /-- Those that the runner never builds, by what they say. -/
  | other (message : String)
  deriving DecidableEq

/-- Lines of a list, each indented. -/
def indented (lines : List String) : String :=
  "\n".intercalate (lines.map fun line => "  " ++ line)

def Error.display : Error → String
  | checksumMismatch version name recorded actual =>
    "`" ++ name ++ "` has changed since it was applied\n" ++
    "recorded checksum: " ++ recorded ++ "\n" ++
    "file checksum:     " ++ actual ++ "\n" ++
    "help: an applied migration is history and cannot be edited — revert the file and write a " ++
    "new migration for the change you wanted\n" ++
    "help: if you are certain the edit is cosmetic, `moso db repair --version " ++
    displayVersion version ++ "` rewrites the recorded checksum"
  | missingFile version =>
    "migration `" ++ displayVersion version ++
    "` is recorded as applied and its file is missing\n" ++
    "help: check out the commit that contains `" ++ displayVersion version ++
    "_*.sql`, or `moso db repair --forget " ++ displayVersion version ++
    "` if it was deliberately deleted"
  | dirty version name statement total sql =>
    "migration `" ++ displayVersion version ++ "` (" ++ name ++
    ") failed part-way through and left the database dirty\n" ++
    "it ran outside a transaction, so some of its statements may have taken effect\n" ++
    "failed at statement " ++ toString statement ++ " of " ++ toString total ++ ": " ++ sql ++
    "\nhelp: inspect the database, finish or undo that statement by hand, then " ++
    "`moso db repair --resolve " ++ displayVersion version ++ "` to clear the flag\n" ++
    "help: `moso db status` prints the same information at any time"
  | destructive file operations =>
    "`" ++ file ++ "` contains " ++ toString operations.length ++
    " destructive operation(s) that are still commented out:\n" ++ indented operations ++
    "\nhelp: uncomment them once you have confirmed no running version of the application " ++
    "still uses what they remove\n" ++
    "help: or run `moso db migrate --allow-destructive` to apply them as written"
  | manualMigrationRequired file reasons =>
    "`" ++ file ++ "` contains " ++ toString reasons.length ++
    " change(s) that `--allow-destructive` cannot apply:\n" ++ indented reasons ++
    "\nhelp: each is a template, not a statement — Moso cannot write the SQL because the " ++
    "replacement value for every affected row is a decision about your data\n" ++
    "help: write the statements between `-- +migrate destructive` and `-- +migrate end` " ++
    "without the leading `--`; that is what the runner runs"
  | lockLost heldSecs =>
    "the migration lock was reaped after " ++ toString heldSecs ++
    "s: this run stalled past its lease and another process may now be migrating\n" ++
    "help: check `moso db status` before running anything else — a second migrator may have " ++
    "applied some of these files\n" ++
    "help: raise the lease with `RunnerOptions::lock_lease(..)` in your `src/db.rs` for a " ++
    "migration that is genuinely this slow"
  | outOfOrder version applied =>
    "migration `" ++ displayVersion version ++ "` sorts before `" ++ displayVersion applied ++
    "`, which is already applied\n" ++
    "this usually means a branch was merged after another branch's migration ran\n" ++
    "help: check that `" ++ displayVersion version ++
    "` does not conflict with what has already been applied, then " ++
    "`moso db migrate --allow-out-of-order`"
  | unsupported backend operation help =>
    backend ++ " cannot " ++ operation ++ "\nhelp: " ++ help
  | database context help source => context ++ ": " ++ source ++ "\nhelp: " ++ help
  | lockTimeout waitedSecs =>
    "another process has been migrating for " ++ toString waitedSecs ++
    "s and still holds the lock\n" ++
    "help: that process is either slow or dead — `moso db status` on it, or wait\n" ++
    "help: raise the wait with `RunnerOptions::lock_wait(..)` in your `src/db.rs`; on SQLite a " ++
    "dead holder's row is reaped once its lease runs out"
  | refusedInProduction command profile help =>
    "`" ++ command ++ "` is refused in the `" ++ profile ++ "` profile\nhelp: " ++ help
  | migrationFailed version message =>
    "migration `" ++ displayVersion version ++ "` failed: " ++ message
  | other message => message

/-! ### Rows -/

/-- One row of `moso_migrations`. -/
structure AppliedMigration where
  version : Version
  name : String
  checksum : String
  dirty : Bool
  /-- The one-based index of the statement that failed, for a dirty row. -/
  failedStatement : Option ℕ
  totalStatements : Option ℕ
  /-- What the database said, for a dirty row. -/
  failure : Option String
  deriving DecidableEq

namespace AppliedMigration

/-- The row that goes in before the statements run. -/
def begin (version : Version) (name checksum : String) (totalStatements : ℕ) : AppliedMigration :=
  { version := version, name := name, checksum := checksum, dirty := true,
    failedStatement := none, totalStatements := some totalStatements, failure := none }

def finish (row : AppliedMigration) : AppliedMigration :=
  { row with dirty := false, failedStatement := none, failure := none }

/-- What is recorded of a failure is cut to this many characters. -/
def failureLimit : ℕ := 2000

def markFailed (statement : ℕ) (failure : String) (row : AppliedMigration) : AppliedMigration :=
  { row with
    failedStatement := some statement
    failure := some (String.ofList (failure.toList.take failureLimit)) }

end AppliedMigration

/-- The table: its primary key is the version, and it is read in that order. -/
abbrev Ledger := Keyed AppliedMigration.version

namespace Ledger

open AppliedMigration (version)

/-- An insert fails when there is a row of this version. -/
def begin (ledger : Ledger) (row : AppliedMigration) : Option Ledger :=
  if row.version ∈ ledger.keys then none else some (ledger.insert row)

def finish (ledger : Ledger) (version : Version) : Ledger :=
  ledger.update version AppliedMigration.finish fun _ => rfl

def markFailed (ledger : Ledger) (version : Version) (statement : ℕ) (failure : String) : Ledger :=
  ledger.update version (AppliedMigration.markFailed statement failure) fun _ => rfl

def forget (ledger : Ledger) (version : Version) : Ledger := ledger.erase version

variable {ledger ledger' : Ledger} {row : AppliedMigration} {version : Version}

lemma begin_eq_some :
    ledger.begin row = some ledger' ↔ row.version ∉ ledger.keys ∧ ledger.insert row = ledger' := by
  rw [begin]
  split
  · next h => simp [h]
  · next h => simp [h]

lemma keys_finish : (ledger.finish version).keys = ledger.keys := Keyed.keys_update

lemma keys_markFailed {statement : ℕ} {failure : String} :
    (ledger.markFailed version statement failure).keys = ledger.keys := Keyed.keys_update

lemma mem_keys_forget {k : Version} :
    k ∈ (ledger.forget version).keys ↔ k ∈ ledger.keys ∧ k ≠ version := Keyed.mem_keys_erase

end Ledger

end Moso.Migrate
