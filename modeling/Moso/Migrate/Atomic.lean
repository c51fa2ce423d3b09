import Moso.Migrate.Session

/-!
# What `applyOne` leaves behind

Any command of an application may fail. A transactional migration that fails should leave schema
and ledger as they were, and the connection outside any transaction; one that is not
transactional should leave a dirty row that says where it stopped, once a statement of it took
effect; and a migration that succeeds should leave one clean row. Here is exactly when that is so.
-/

namespace Moso.Migrate

open Program (attempt settle interpret_attempt interpret_lift interpret_bind_ok
  interpret_bind_error interpret_call interpret_call_ok interpret_call_error)
open DbCmd (call ignore)

variable {D : Type}

/-! ### The property -/

namespace Runner

variable (runner : Runner)

def isTransactional (version : Version) : Bool :=
  match runner.rustAt version with
  | some migration => migration.isTransactional
  | none           => ((runner.file version).map (·.transactional)).getD true

def checksumOf (version : Version) : Option String :=
  match runner.rustAt version with
  | some migration => some migration.fingerprint
  | none           => (runner.file version).map (·.checksum)

end Runner

/-- The ledger has a dirty row for the version, which says where the migration stopped; whatever
their directories, later runs refuse to continue. -/
def Session.Marked (version : Version) (s : Session D) : Prop :=
  (∃ row ∈ s.conn.committed.ledger, row.version = version ∧ row.dirty = true ∧
    row.failedStatement = s.failing) ∧
  ∀ other : Runner, ∃ error,
    (other.statusOf s.conn.committed.ledger.toList).intoResult = .error error

/-- All or nothing for a transactional migration, a visible mark for the others, and one clean row
with the checksum for a success. -/
def Runner.AllOrNothing (runner : Runner) (version : Version) (before : Db D) :
    Except Error Unit × Session D → Prop
  | (.ok _, after) => after.conn.working = none ∧
      ∃ row, after.conn.committed.ledger.toList.filter (fun row => row.version = version) = [row] ∧
        row.dirty = false ∧ runner.checksumOf version = some row.checksum
  | (.error _, after) =>
    if runner.isTransactional version then after.conn = ⟨before, none⟩
    else 0 < after.effects → after.Marked version

/-! ### The condition -/

/-- The row that goes in for a file. -/
abbrev MigrationFile.row (file : MigrationFile) (totalStatements : ℕ) : AppliedMigration :=
  .begin file.version file.id.name file.checksum totalStatements

/-- The row that goes in for a migration written in Rust. -/
abbrev RustMigration.row (migration : RustMigration) : AppliedMigration :=
  .begin migration.version migration.name migration.fingerprint 0

namespace Runner

section

variable (runner : Runner) (engine : Engine D) (faults : DbCmd → Option Error)

/-- A transaction whose statements ended so is closed: by the commit, or by a rollback. -/
def Closes (version : Version) : Except Error Unit → Prop
  | .ok _    => faults (.finish version) = none ∧
      (faults .commit = none ∨ runner.backend = .postgres)
  | .error _ => faults .rollback = none

/-- In a transaction the insert of the row must not fail either, since no rollback follows. Outside
one, a body that fails must not have had an effect: the row never says where it stopped. -/
def RustFailsCleanly (migration : RustMigration) (db : Db D) : Prop :=
  let inserts := Inserts faults db.ledger migration.row
  let outcome := migration.up.outcome engine faults migration.version db.schema
  if migration.isTransactional then
    faults .begin = none → inserts ∧ runner.Closes faults migration.version outcome.1
  else inserts → ∀ error, outcome.1 = .error error → outcome.2.effects = 0

/-- A baseline is recorded outside any transaction: nothing may fail after the insert. -/
def BaselineFailsCleanly (file : MigrationFile) (db : Db D) : Prop :=
  file.transactional → Inserts faults db.ledger (file.row 0) →
    faults (.finish file.version) = none ∧
      ∀ index version, file.replaces[index]? = some version → version ≠ file.version →
        faults (.forget version index) = none

/-- In a transaction what follows the statements must not fail. Outside one, the statement that
failed must be recorded if any took effect. -/
def FileFailsCleanly (file : MigrationFile) (options : RunnerOptions) (db : Db D) : Prop :=
  ∀ statements, file.statementsToApply options.allowDestructive = .ok statements →
    (runner.backend = .postgres → faults (.setLockTimeout file.lockTimeout) = none ∧
      faults (.setStatementTimeout file.statementTimeout) = none) →
    let inserts := Inserts faults db.ledger (file.row statements.length)
    let outcome := (runner.bodyOf file.version statements).outcome engine faults file.version
      db.schema
    if file.transactional then
      faults .begin = none →
        (inserts → runner.Closes faults file.version outcome.1) ∧
        (¬ inserts → faults .rollback = none)
    else inserts → ∀ error, outcome.1 = .error error → 0 < outcome.2.effects →
      faults (.markFailed file.version outcome.2.asked error.display) = none

/-- The condition on the faults, by the way that the application takes. -/
def FailsCleanly (version : Version) (options : RunnerOptions) (db : Db D) : Prop :=
  options.guardProfile = .ok () →
    match runner.rustAt version with
    | some migration => runner.RustFailsCleanly engine faults migration db
    | none =>
      match runner.file version with
      | none => True
      | some file =>
        if file.replaces.isEmpty then runner.FileFailsCleanly engine faults file options db
        else
          faults .applied = none →
            if file.replaces.all (· ∈ db.ledger.keys) then BaselineFailsCleanly faults file db
            else runner.FileFailsCleanly engine faults file options db

end

end Runner

/-- A row that goes in and is finished is the only one of its version. -/
lemma Ledger.filter_finish {ledger : Ledger} {row : AppliedMigration} :
    (Ledger.finish (ledger.insert row) row.version).toList.filter
      (fun other => other.version = row.version) = [row.finish] := by
  have hmem : row.finish ∈ Ledger.finish (ledger.insert row) row.version :=
    Keyed.mem_update.mpr (.inl ⟨row, Keyed.mem_insert.mpr (.inl rfl), rfl, rfl⟩)
  exact Keyed.filter_key hmem

namespace Runner

variable {runner : Runner} {engine : Engine D} {faults : DbCmd → Option Error} {s : Session D}
  {db : Db D} {version : Version}

/-- Nothing was done. -/
lemma allOrNothing_start (error : Error) :
    runner.AllOrNothing version db (.error error, Session.start db) := by
  rw [AllOrNothing]
  split
  · rfl
  · intro heffects
    exact absurd heffects (Nat.lt_irrefl 0)

variable (runner engine faults) in
/-- The end of a transaction whose statements succeeded. -/
lemma commit_allOrNothing (row : AppliedMigration) {schema : D}
    (htransactional : runner.isTransactional row.version = true)
    (hchecksum : runner.checksumOf row.version = some row.checksum) (s : Session D)
    (hconn : s.conn = ⟨db, some ⟨schema, db.ledger.insert row⟩⟩) :
    runner.AllOrNothing row.version db
        ((do call (.finish row.version); call .commit : DbProgram Unit).run.interpret
          (runner.answer engine faults) s) ↔
      runner.Closes faults row.version (.ok ()) := by
  cases hfinish : faults (.finish row.version) with
  | some error =>
    rw [interpret_call_error (answer_of_fault hfinish), AllOrNothing, if_pos htransactional]
    have hopen : s.conn ≠ ⟨db, none⟩ := by
      rw [hconn]
      nofun
    have hcloses : ¬ runner.Closes faults row.version (.ok ()) := by
      rintro ⟨hnone, -⟩
      rw [hfinish] at hnone
      cases hnone
    exact iff_of_false hopen hcloses
  | none =>
    rw [interpret_call_ok (answer_finish hfinish)]
    have hfinished : s.conn.writeLedger (fun ledger => ledger.finish row.version) =
        ⟨db, some ⟨schema, Ledger.finish (db.ledger.insert row) row.version⟩⟩ := by
      rw [hconn]
      rfl
    rw [hfinished, interpret_call]
    cases hcommit : faults .commit with
    | some error =>
      rw [answer_of_fault hcommit, AllOrNothing, if_pos htransactional]
      by_cases hbackend : runner.backend = .postgres
      · have hrefused : (Connection.mk db (some ⟨schema,
            Ledger.finish (db.ledger.insert row) row.version⟩)).refused runner.backend .commit =
            ⟨db, none⟩ := if_pos hbackend
        exact iff_of_true hrefused ⟨hfinish, .inr hbackend⟩
      · have hrefused : (Connection.mk db (some ⟨schema,
            Ledger.finish (db.ledger.insert row) row.version⟩)).refused runner.backend .commit =
            ⟨db, some ⟨schema, Ledger.finish (db.ledger.insert row) row.version⟩⟩ :=
          if_neg hbackend
        refine iff_of_false ?_ ?_
        · intro hconn
          cases hrefused.symm.trans hconn
        · rintro ⟨-, hnone | hpostgres⟩
          · cases hcommit.symm.trans hnone
          · exact hbackend hpostgres
    | none =>
      rw [answer_of_none hcommit]
      exact iff_of_true ⟨rfl, row.finish, Ledger.filter_finish, rfl, hchecksum⟩
        ⟨hfinish, .inl hcommit⟩

variable (runner engine faults) in
/-- The end of a transaction whose statements failed. -/
lemma rollback_allOrNothing {work : Db D} (error : Error)
    (htransactional : runner.isTransactional version = true) (s : Session D)
    (hconn : s.conn = ⟨db, some work⟩) :
    runner.AllOrNothing version db
        ((do ignore .rollback; throw error : DbProgram Unit).run.interpret
          (runner.answer engine faults) s) ↔ faults .rollback = none := by
  have hrun : (do ignore .rollback; throw error : DbProgram Unit).run.interpret
      (runner.answer engine faults) s =
        (.error error, (runner.answer engine faults .rollback s).2) := rfl
  rw [hrun, AllOrNothing, if_pos htransactional]
  cases hrollback : faults .rollback with
  | some fault =>
    rw [answer_of_fault hrollback]
    refine iff_of_false ?_ nofun
    intro hclosed
    cases hconn.symm.trans hclosed
  | none =>
    rw [answer_of_none hrollback, Connection.exec, hconn]
    exact iff_of_true rfl rfl

section Outside

variable {row : AppliedMigration} {schema : D}

/-- A dirty row is what a run refuses first. -/
lemma intoResult_of_dirty {rows : List AppliedMigration} (hrow : row ∈ rows)
    (hdirty : row.dirty = true) (other : Runner) :
    ∃ error, (other.statusOf rows).intoResult = .error error := by
  have hmem : row ∈ (other.statusOf rows).dirty := List.mem_filter.mpr ⟨hrow, hdirty⟩
  rw [Status.intoResult]
  cases hd : (other.statusOf rows).dirty with
  | nil =>
    rw [hd] at hmem
    cases hmem
  | cons first rest => exact ⟨_, rfl⟩

/-- A ledger with a dirty row marks what the row says. -/
lemma marked_iff (row : AppliedMigration) (s : Session D)
    (hrow : row ∈ s.conn.committed.ledger) (hdirty : row.dirty = true) :
    s.Marked row.version ↔ row.failedStatement = s.failing := by
  constructor
  · rintro ⟨⟨other, hother, hversion, -, hfailing⟩, -⟩
    obtain rfl := Keyed.eq_of_key_eq hother hrow hversion
    exact hfailing
  · intro hfailing
    exact ⟨⟨row, hrow, rfl, hdirty, hfailing⟩, intoResult_of_dirty hrow hdirty⟩

variable (runner engine faults) in
/-- The end of a migration outside a transaction whose statements succeeded. -/
lemma finish_allOrNothing (row : AppliedMigration)
    (htransactional : runner.isTransactional row.version = false)
    (hchecksum : runner.checksumOf row.version = some row.checksum) (hdirty : row.dirty = true)
    (hfailed : row.failedStatement = none) (s : Session D)
    (hconn : s.conn = ⟨⟨schema, db.ledger.insert row⟩, none⟩) :
    runner.AllOrNothing row.version db
      ((call (.finish row.version)).run.interpret (runner.answer engine faults) s) := by
  rw [interpret_call]
  cases hfinish : faults (.finish row.version) with
  | some error =>
    rw [answer_of_fault hfinish, AllOrNothing, htransactional]
    intro _
    refine (marked_iff row _ ?_ hdirty).mpr hfailed
    have hledger : s.conn.committed.ledger = db.ledger.insert row := by rw [hconn]
    exact hledger ▸ Keyed.mem_insert.mpr (.inl rfl)
  | none =>
    rw [answer_finish hfinish]
    have hfinished : s.conn.writeLedger (fun ledger => ledger.finish row.version) =
        ⟨⟨schema, Ledger.finish (db.ledger.insert row) row.version⟩, none⟩ := by
      rw [hconn]
      rfl
    rw [hfinished]
    exact ⟨rfl, row.finish, Ledger.filter_finish, rfl, hchecksum⟩

variable (runner engine faults) in
/-- The end of a migration outside a transaction whose statements failed. -/
lemma markFailed_allOrNothing (row : AppliedMigration) (error : Error) (index : ℕ)
    (failure : String) (htransactional : runner.isTransactional row.version = false) (hdirty : row.dirty = true)
    (hfailed : row.failedStatement = none) (s : Session D) (hthrough : s.through = false)
    (hconn : s.conn = ⟨⟨schema, db.ledger.insert row⟩, none⟩) :
    runner.AllOrNothing row.version db (.error error,
        (runner.answer engine faults (.markFailed row.version index failure) s).2) ↔
      (0 < s.effects →
        faults (.markFailed row.version index failure) = none ∧ index = s.asked) := by
  have hfailing : s.failing = some s.asked := by rw [Session.failing, hthrough]; rfl
  rw [AllOrNothing, htransactional]
  cases hmark : faults (.markFailed row.version index failure) with
  | some fault =>
    rw [answer_of_fault hmark]
    have hrow : row ∈ s.conn.committed.ledger := by
      rw [hconn]
      exact Keyed.mem_insert.mpr (.inl rfl)
    have hmarked : ¬ s.Marked row.version := by
      rw [marked_iff row s hrow hdirty, hfailed, hfailing]
      nofun
    refine imp_congr_right fun _ => iff_of_false hmarked ?_
    rintro ⟨hnone, -⟩
    cases hnone
  | none =>
    rw [answer_of_none hmark]
    refine imp_congr_right fun _ => ?_
    have hmarked : row.markFailed index failure ∈
        Ledger.markFailed (db.ledger.insert row) row.version index failure :=
      Keyed.mem_update.mpr (.inl ⟨row, Keyed.mem_insert.mpr (.inl rfl), rfl, rfl⟩)
    have hledger : (s.conn.writeLedger fun ledger =>
        ledger.markFailed row.version index failure).committed.ledger =
          Ledger.markFailed (db.ledger.insert row) row.version index failure := by
      rw [hconn]
      rfl
    have hiff := marked_iff (row.markFailed index failure)
      { s with conn := s.conn.writeLedger fun ledger =>
        ledger.markFailed row.version index failure } (hledger ▸ hmarked) hdirty
    refine hiff.trans ?_
    have hsame : (some index = some s.asked) ↔ index = s.asked := Option.some_inj
    rw [Session.failing, hthrough]
    exact hsame.trans ⟨fun h => ⟨rfl, h⟩, And.right⟩

end Outside

/-! ### Files -/

lemma interpret_setTimeouts {lock statement : ℕ} (h : runner.backend = .postgres →
      faults (.setLockTimeout lock) = none ∧ faults (.setStatementTimeout statement) = none) :
    (runner.setTimeouts lock statement).run.interpret (runner.answer engine faults) s =
      (.ok (), s) := by
  rw [setTimeouts]
  by_cases hbackend : runner.backend = .postgres
  · obtain ⟨hlock, hstatement⟩ := h hbackend
    rw [if_neg (not_not.mpr hbackend), interpret_call_ok (answer_of_none hlock), interpret_call]
    exact answer_of_none hstatement
  · rw [if_pos hbackend]
    rfl

variable (runner engine faults) in
lemma interpret_setTimeouts_fails (s : Session D) {lock statement : ℕ}
    (h : ¬ (runner.backend = .postgres →
      faults (.setLockTimeout lock) = none ∧ faults (.setStatementTimeout statement) = none)) :
    ∃ error, (runner.setTimeouts lock statement).run.interpret (runner.answer engine faults) s =
      (.error error, s) := by
  obtain ⟨hbackend, hfault⟩ := Classical.not_imp.mp h
  rw [setTimeouts, if_neg (not_not.mpr hbackend)]
  cases hlock : faults (.setLockTimeout lock) with
  | some error => exact ⟨error, interpret_call_error (answer_of_fault hlock)⟩
  | none =>
    rw [interpret_call_ok (answer_of_none hlock), interpret_call]
    cases hstatement : faults (.setStatementTimeout statement) with
    | some error => exact ⟨error, answer_of_fault hstatement⟩
    | none => exact absurd ⟨hlock, hstatement⟩ hfault

/-- A transaction that begins. -/
lemma answer_begin (h : faults .begin = none) :
    runner.answer engine faults .begin (Session.start db) =
      (.ok (), Session.on ⟨db, some db⟩) :=
  answer_of_none h

/-- The first row of a transaction. -/
lemma answer_insert_begun {row : AppliedMigration} (h : Inserts faults db.ledger row) :
    runner.answer engine faults (.insert row) (Session.on ⟨db, some db⟩) =
      (.ok (), Session.on ⟨db, some ⟨db.schema, db.ledger.insert row⟩⟩) :=
  answer_insert h

/-- The row that goes in outside a transaction. -/
lemma answer_insert_start {row : AppliedMigration} (h : Inserts faults db.ledger row) :
    runner.answer engine faults (.insert row) (Session.start db) =
      (.ok (), Session.on ⟨⟨db.schema, db.ledger.insert row⟩, none⟩) :=
  answer_insert h

section File

variable {file : MigrationFile} {options : RunnerOptions} {statements : List String}

/-- A transactional file, once its timeouts are set. -/
lemma applyTransaction_allOrNothing
    (hchecksum : runner.checksumOf file.version = some file.checksum)
    (htransactional : runner.isTransactional file.version = true) :
    runner.AllOrNothing file.version db
        ((do
          call .begin
          let outcome ← attempt
            (runner.runStatements statements file.version file.id.name file.checksum false)
          match outcome with
          | .ok _ =>
            call (.finish file.version)
            call .commit
          | .error error =>
            ignore .rollback
            throw error : DbProgram Unit).run.interpret
          (runner.answer engine faults) (Session.start db)) ↔
      (faults .begin = none →
        (Inserts faults db.ledger (file.row statements.length) → runner.Closes faults file.version
          ((runner.bodyOf file.version statements).outcome engine faults file.version
            db.schema).1) ∧
        (¬ Inserts faults db.ledger (file.row statements.length) → faults .rollback = none)) := by
  cases hbegin : faults .begin with
  | some error =>
    rw [interpret_call_error (answer_of_fault hbegin)]
    exact iff_of_true (allOrNothing_start error) nofun
  | none =>
    rw [interpret_call_ok (answer_begin hbegin), interpret_attempt, runStatements]
    refine Iff.trans ?_ (forall_prop_of_true rfl).symm
    by_cases hinserts : Inserts faults db.ledger (file.row statements.length)
    · rw [interpret_call_ok (answer_insert_begun hinserts), interpret_statements rfl rfl]
      dsimp only [Session.on, Connection.visible, Option.getD]
      generalize (runner.bodyOf file.version statements).outcome engine faults file.version
        db.schema = outcome
      obtain ⟨result, tally⟩ := outcome
      have hcond : ∀ {p q : Prop}, p ↔
          (Inserts faults db.ledger (file.row statements.length) → p) ∧
            (¬ Inserts faults db.ledger (file.row statements.length) → q) := fun {p q} =>
        ⟨fun hp => ⟨fun _ => hp, fun hnot => absurd hinserts hnot⟩, fun h => h.1 hinserts⟩
      refine Iff.trans ?_ hcond
      cases result with
      | ok _ =>
        exact commit_allOrNothing runner engine faults (file.row statements.length) htransactional
          hchecksum (Session.after (.on ⟨db, some ⟨db.schema, _⟩⟩) tally) rfl
      | error error =>
        exact rollback_allOrNothing runner engine faults error htransactional
          (Session.after (.on ⟨db, some ⟨db.schema, db.ledger.insert (file.row statements.length)⟩⟩)
            tally) rfl
    · obtain ⟨error, hinsert⟩ := answer_insert_fails runner engine faults (.on ⟨db, some db⟩)
        hinserts
      rw [interpret_call_error hinsert]
      have hrollback := rollback_allOrNothing runner engine faults error htransactional
        (.on ⟨db, some db⟩) rfl
      exact hrollback.trans
        ⟨fun h => ⟨fun hyes => absurd hyes hinserts, fun _ => h⟩, fun h => h.2 hinserts⟩

/-- A file outside a transaction, once its timeouts are set. -/
lemma applyStatements_allOrNothing (hchecksum : runner.checksumOf file.version = some file.checksum)
    (htransactional : runner.isTransactional file.version = false) :
    runner.AllOrNothing file.version db
        ((do
          runner.runStatements statements file.version file.id.name file.checksum true
          call (.finish file.version) : DbProgram Unit).run.interpret
          (runner.answer engine faults) (Session.start db)) ↔
      (Inserts faults db.ledger (file.row statements.length) →
        let outcome := (runner.bodyOf file.version statements).outcome engine faults file.version
          db.schema
        ∀ error, outcome.1 = .error error → 0 < outcome.2.effects →
          faults (.markFailed file.version outcome.2.asked error.display) = none) := by
  by_cases hinserts : Inserts faults db.ledger (file.row statements.length)
  · refine Iff.trans ?_ (forall_prop_of_true hinserts).symm
    have hrun : (runner.runStatements statements file.version file.id.name file.checksum
        true).run.interpret (runner.answer engine faults) (Session.start db) = _ :=
      (interpret_call_ok (answer_insert_start hinserts)).trans (interpret_statements rfl rfl)
    dsimp only [Session.on, Connection.visible, Option.getD] at hrun
    generalize (runner.bodyOf file.version statements).outcome engine faults file.version
      db.schema = outcome at hrun
    obtain ⟨result, tally⟩ := outcome
    cases result with
    | ok _ =>
      rw [interpret_bind_ok hrun]
      have hfinish := finish_allOrNothing runner engine faults (file.row statements.length)
        htransactional hchecksum rfl rfl
        (Session.after (.on ⟨⟨db.schema, db.ledger.insert (file.row statements.length)⟩, none⟩)
          tally) rfl
      exact iff_of_true hfinish nofun
    | error error =>
      rw [interpret_bind_error hrun]
      have hmark := markFailed_allOrNothing runner engine faults (file.row statements.length) error
        tally.asked error.display htransactional rfl rfl
        (Session.after (.on ⟨⟨db.schema, db.ledger.insert (file.row statements.length)⟩, none⟩)
          tally) rfl rfl
      refine hmark.trans ⟨fun h other hother => ?_, fun h heffects => ⟨h error rfl heffects, rfl⟩⟩
      obtain rfl : error = other := Except.error.inj hother
      exact fun heffects => (h heffects).1
  · obtain ⟨error, hinsert⟩ := answer_insert_fails runner engine faults (Session.start db) hinserts
    have hrun : (runner.runStatements statements file.version file.id.name file.checksum
        true).run.interpret (runner.answer engine faults) (Session.start db) =
          (.error error, Session.start db) := interpret_call_error hinsert
    rw [interpret_bind_error hrun]
    exact iff_of_true (allOrNothing_start error) fun hyes => absurd hyes hinserts

lemma applyFile_allOrNothing (hchecksum : runner.checksumOf file.version = some file.checksum)
    (htransactional : runner.isTransactional file.version = file.transactional) :
    runner.AllOrNothing file.version db
        ((runner.applyFile file options).run.interpret (runner.answer engine faults)
          (Session.start db)) ↔
      runner.FileFailsCleanly engine faults file options db := by
  rw [applyFile, FileFailsCleanly]
  cases hstatements : file.statementsToApply options.allowDestructive with
  | error error => exact iff_of_true (allOrNothing_start error) nofun
  | ok statements =>
    have hsettle : (settle (.ok statements) : DbProgram (List String)).run.interpret
        (runner.answer engine faults) (Session.start db) = (.ok statements, Session.start db) := rfl
    rw [interpret_bind_ok hsettle]
    by_cases htimeouts : runner.backend = .postgres →
      faults (.setLockTimeout file.lockTimeout) = none ∧
        faults (.setStatementTimeout file.statementTimeout) = none
    · rw [interpret_bind_ok (interpret_setTimeouts htimeouts)]
      refine Iff.trans ?_ ⟨fun h other hother _ => ?_, fun h => h statements rfl htimeouts⟩
      rotate_left
      · obtain rfl : statements = other := Except.ok.inj hother
        exact h
      cases hfile : file.transactional with
      | true =>
        exact applyTransaction_allOrNothing hchecksum (htransactional.trans hfile)
      | false =>
        exact applyStatements_allOrNothing hchecksum (htransactional.trans hfile)
    · obtain ⟨error, hfails⟩ := interpret_setTimeouts_fails runner engine faults
        (Session.start db) htimeouts
      rw [interpret_bind_error hfails]
      exact iff_of_true (allOrNothing_start error) fun _ _ h => absurd h htimeouts

end File

/-! ### Migrations written in Rust -/

lemma applyRust_allOrNothing {migration : RustMigration}
    (hchecksum : runner.checksumOf migration.version = some migration.fingerprint)
    (htransactional : runner.isTransactional migration.version = migration.isTransactional) :
    runner.AllOrNothing migration.version db
        ((applyRust migration).run.interpret (runner.answer engine faults) (Session.start db)) ↔
      runner.RustFailsCleanly engine faults migration db := by
  rw [applyRust, RustFailsCleanly]
  cases hrust : migration.isTransactional with
  | true =>
    simp only [if_true]
    cases hbegin : faults .begin with
    | some error =>
      rw [interpret_call_error (answer_of_fault hbegin)]
      exact iff_of_true (allOrNothing_start error) nofun
    | none =>
      rw [interpret_call_ok (answer_begin hbegin)]
      refine Iff.trans ?_ (forall_prop_of_true rfl).symm
      by_cases hinserts : Inserts faults db.ledger migration.row
      · rw [interpret_call_ok (answer_insert_begun hinserts), interpret_lift,
          interpret_body rfl rfl]
        dsimp only [Session.on, Connection.visible, Option.getD]
        generalize migration.up.outcome engine faults migration.version db.schema = outcome
        obtain ⟨result, tally⟩ := outcome
        refine Iff.trans ?_ (and_iff_right hinserts).symm
        cases result with
        | ok _ =>
          exact commit_allOrNothing runner engine faults migration.row (htransactional.trans hrust)
            hchecksum (Session.after (.on ⟨db, some ⟨db.schema, _⟩⟩) tally) rfl
        | error error =>
          exact rollback_allOrNothing runner engine faults
            (.migrationFailed migration.version error.display) (htransactional.trans hrust)
            (Session.after (.on ⟨db, some ⟨db.schema, db.ledger.insert migration.row⟩⟩) tally) rfl
      · -- the error leaves from between the `BEGIN` and the rollback
        obtain ⟨error, hinsert⟩ := answer_insert_fails runner engine faults (.on ⟨db, some db⟩)
          hinserts
        rw [interpret_call_error hinsert, AllOrNothing, htransactional.trans hrust]
        exact iff_of_false nofun fun h => hinserts h.1
  | false =>
    simp only [Bool.false_eq_true, if_false]
    by_cases hinserts : Inserts faults db.ledger migration.row
    · refine Iff.trans ?_ (forall_prop_of_true hinserts).symm
      have hle := outcome_effects_le engine faults migration.version migration.up db.schema
      rw [interpret_call_ok (answer_insert_start hinserts), interpret_lift, interpret_body rfl rfl]
      dsimp only [Session.on, Connection.visible, Option.getD]
      generalize migration.up.outcome engine faults migration.version db.schema = outcome at hle
      obtain ⟨result, tally⟩ := outcome
      cases result with
      | ok _ =>
        have hfinish := finish_allOrNothing runner engine faults migration.row
          (htransactional.trans hrust) hchecksum rfl rfl
          (Session.after (.on ⟨⟨db.schema, db.ledger.insert migration.row⟩, none⟩) tally) rfl
        have hlast : (do call (.finish migration.version); pure () : DbProgram Unit) =
            call (.finish migration.version) :=
          congrArg (Program.ask _) (funext fun answer => by cases answer <;> rfl)
        refine iff_of_true ?_ nofun
        dsimp only
        rw [hlast]
        exact hfinish
      | error error =>
        have hmark := markFailed_allOrNothing runner engine faults migration.row
          (.migrationFailed migration.version error.display) 0 error.display
          (htransactional.trans hrust) rfl rfl
          (Session.after (.on ⟨⟨db.schema, db.ledger.insert migration.row⟩, none⟩) tally) rfl rfl
        refine Iff.trans hmark ⟨fun h other _ => ?_, fun h heffects => ?_⟩
        · by_contra hne
          have hpos : 0 < tally.effects := Nat.pos_of_ne_zero hne
          have hasked : 0 = tally.asked := (h hpos).2
          rw [← hasked] at hle
          exact hne (Nat.le_zero.mp hle)
        · exact absurd (h error rfl) (Nat.ne_of_gt heffects)
    · obtain ⟨error, hinsert⟩ := answer_insert_fails runner engine faults (.start db) hinserts
      rw [interpret_call_error hinsert]
      exact iff_of_true (allOrNothing_start error) fun hyes => absurd hyes hinserts

/-! ### Baselines -/

variable (runner engine faults) in
/-- The rows that a baseline replaces go one by one, until a command fails; its own stays. -/
lemma interpret_forgetReplaced (row : AppliedMigration) (replaced : List Version) (index : ℕ)
    (s : Session D) (hworking : s.conn.working = none) (hrow : row ∈ s.conn.committed.ledger) :
    ∃ result s', (forgetReplaced row.version index replaced).run.interpret
        (runner.answer engine faults) s = (result, s') ∧
      s'.conn.working = none ∧ row ∈ s'.conn.committed.ledger ∧ s'.effects = s.effects ∧
      (result = .ok () ↔ ∀ k version, replaced[k]? = some version → version ≠ row.version →
        faults (.forget version (index + k)) = none) := by
  induction replaced generalizing index s with
  | nil => exact ⟨.ok (), s, rfl, hworking, hrow, rfl, iff_of_true rfl nofun⟩
  | cons version replaced ih =>
    rw [forgetReplaced]
    have htail : (∀ k other, (version :: replaced)[k]? = some other → other ≠ row.version →
        faults (.forget other (index + k)) = none) ↔
      (version ≠ row.version → faults (.forget version index) = none) ∧
        ∀ k other, replaced[k]? = some other → other ≠ row.version →
          faults (.forget other (index + 1 + k)) = none := by
      constructor
      · intro h
        refine ⟨fun hne => h 0 version rfl hne, fun k other hk hne => ?_⟩
        rw [Nat.add_assoc, Nat.add_comm 1 k]
        exact h (k + 1) other hk hne
      · rintro ⟨hfirst, hrest⟩ k other hk hne
        cases k with
        | zero =>
          obtain rfl : version = other := Option.some.inj hk
          exact hfirst hne
        | succ k =>
          have hrest' := hrest k other hk hne
          rw [Nat.add_assoc, Nat.add_comm 1 k] at hrest'
          exact hrest'
    by_cases hown : version = row.version
    · obtain ⟨result, s', hrun, hworking', hrow', heffects, hiff⟩ := ih (index + 1) s hworking hrow
      refine ⟨result, s', ?_, hworking', hrow', heffects, hiff.trans ?_⟩
      · rw [if_neg (not_not.mpr hown)]
        exact hrun
      · rw [htail]
        exact (and_iff_right fun hne => absurd hown hne).symm
    · rw [if_pos hown]
      cases hforget : faults (.forget version index) with
      | some error =>
        refine ⟨.error error, s, interpret_call_error (answer_of_fault hforget), hworking, hrow,
          rfl, iff_of_false nofun fun h => ?_⟩
        have hnone := (htail.mp h).1 hown
        cases hforget.symm.trans hnone
      | none =>
        have hforgotten : s.conn.writeLedger (fun ledger => ledger.forget version) =
            ⟨⟨s.conn.committed.schema, Ledger.forget s.conn.committed.ledger version⟩, none⟩ := by
          obtain ⟨⟨committed, working⟩, effects, asked, through⟩ := s
          obtain rfl : working = none := hworking
          rfl
        have hkept : row ∈ Ledger.forget s.conn.committed.ledger version :=
          Keyed.mem_erase.mpr ⟨hrow, Ne.symm hown⟩
        obtain ⟨result, s', hrun, hworking', hrow', heffects, hiff⟩ := ih (index + 1)
          { s with conn := s.conn.writeLedger fun ledger => ledger.forget version }
          (by rw [hforgotten]) (by rw [hforgotten]; exact hkept)
        refine ⟨result, s', ?_, hworking', hrow', heffects, hiff.trans ?_⟩
        · rw [interpret_call_ok (answer_of_none hforget)]
          exact hrun
        · rw [htail]
          exact (and_iff_right fun _ => hforget).symm

variable (runner) in
/-- An error that leaves a new row, and no statement that took effect, is a failure of the
transactional only. -/
lemma error_allOrNothing (row : AppliedMigration) (error : Error) (s : Session D)
    (hrow : row ∈ s.conn.committed.ledger) (hnew : row.version ∉ db.ledger.keys)
    (heffects : s.effects = 0) :
    runner.AllOrNothing row.version db (.error error, s) ↔
      runner.isTransactional row.version = false := by
  rw [AllOrNothing]
  cases runner.isTransactional row.version with
  | true =>
    refine iff_of_false (fun hconn => hnew ?_) nofun
    have hcommitted : s.conn.committed = db := congrArg Connection.committed hconn
    exact Keyed.mem_keys_of_mem (hcommitted ▸ hrow)
  | false =>
    refine iff_of_true (fun hpos => ?_) rfl
    rw [heffects] at hpos
    exact absurd hpos (Nat.lt_irrefl 0)

lemma recordBaseline_allOrNothing {file : MigrationFile}
    (hchecksum : runner.checksumOf file.version = some file.checksum)
    (htransactional : runner.isTransactional file.version = file.transactional) :
    runner.AllOrNothing file.version db
        ((recordBaseline file).run.interpret (runner.answer engine faults) (Session.start db)) ↔
      BaselineFailsCleanly faults file db := by
  rw [recordBaseline, BaselineFailsCleanly]
  by_cases hinserts : Inserts faults db.ledger (file.row 0)
  · rw [interpret_call_ok (answer_insert_start hinserts)]
    have hcond : ∀ p : Prop, (runner.isTransactional file.version = false ∨ p) ↔
        (file.transactional = true → Inserts faults db.ledger (file.row 0) → p) := by
      intro p
      rw [htransactional]
      cases file.transactional with
      | true => exact ⟨fun h _ _ => h.resolve_left nofun, fun h => .inr (h rfl hinserts)⟩
      | false => exact ⟨fun _ => nofun, fun _ => .inl rfl⟩
    rw [← hcond]
    cases hfinish : faults (.finish file.version) with
    | some error =>
      rw [interpret_call_error (answer_of_fault hfinish)]
      have herror := error_allOrNothing runner (file.row 0) error
        (Session.note (.finish file.version) false
          (.on ⟨⟨db.schema, db.ledger.insert (file.row 0)⟩, none⟩))
        (Keyed.mem_insert.mpr (.inl rfl)) hinserts.2 rfl
      exact herror.trans (or_iff_left fun h => nomatch h.1).symm
    | none =>
      rw [interpret_call_ok (answer_finish hfinish)]
      have hrow : (file.row 0).finish ∈
          Ledger.finish (db.ledger.insert (file.row 0)) file.version :=
        Keyed.mem_update.mpr (.inl ⟨file.row 0, Keyed.mem_insert.mpr (.inl rfl), rfl, rfl⟩)
      obtain ⟨result, s', hrun, hworking, hrow', heffects, hiff⟩ := interpret_forgetReplaced
        runner engine faults (file.row 0).finish file.replaces 0 { Session.on ⟨⟨db.schema,
          Ledger.finish (db.ledger.insert (file.row 0)) file.version⟩, none⟩ with through := true }
        rfl hrow
      simp only [Nat.zero_add] at hiff
      refine (iff_of_eq (congrArg (runner.AllOrNothing file.version db) hrun)).trans ?_
      cases result with
      | ok _ =>
        exact iff_of_true ⟨hworking, _, Keyed.filter_key hrow', rfl, hchecksum⟩
          (.inr ⟨rfl, hiff.mp rfl⟩)
      | error error =>
        have herror := error_allOrNothing runner _ error s' hrow' hinserts.2 heffects
        exact herror.trans (or_iff_left fun h => nomatch hiff.mpr h.2).symm
  · obtain ⟨error, hinsert⟩ := answer_insert_fails runner engine faults (Session.start db) hinserts
    rw [interpret_call_error hinsert]
    exact iff_of_true (allOrNothing_start error) fun _ hyes => absurd hyes hinserts

/-! ### One migration -/

/-- An application does what is promised of it exactly when the faults spare what comes after the
last point at which the code still takes care of them. -/
theorem applyOne_allOrNothing_iff (runner : Runner) (engine : Engine D)
    (faults : DbCmd → Option Error) (version : Version) (options : RunnerOptions) (db : Db D) :
    runner.AllOrNothing version db ((runner.applyOne version options).run.interpret
        (runner.answer engine faults) (Session.start db)) ↔
      runner.FailsCleanly engine faults version options db := by
  rw [applyOne, FailsCleanly]
  cases hguard : options.guardProfile with
  | error error => exact iff_of_true (allOrNothing_start error) nofun
  | ok _ =>
    have hsettle : (settle (.ok ()) : DbProgram Unit).run.interpret
        (runner.answer engine faults) (Session.start db) = (.ok (), Session.start db) := rfl
    rw [interpret_bind_ok hsettle]
    refine Iff.trans ?_ (forall_prop_of_true rfl).symm
    cases hrust : runner.rustAt version with
    | some migration =>
      obtain rfl : migration.version = version := version_of_rustAt hrust
      have hchecksum : runner.checksumOf migration.version = some migration.fingerprint := by
        rw [checksumOf, hrust]
      have htransactional : runner.isTransactional migration.version =
          migration.isTransactional := by
        rw [isTransactional, hrust]
      exact applyRust_allOrNothing hchecksum htransactional
    | none =>
      cases hfile : runner.file version with
      | none => exact iff_of_true (allOrNothing_start _) trivial
      | some file =>
        obtain rfl : file.version = version := version_of_file hfile
        have hchecksum : runner.checksumOf file.version = some file.checksum := by
          rw [checksumOf, hrust, hfile]
          rfl
        have htransactional : runner.isTransactional file.version = file.transactional := by
          rw [isTransactional, hrust, hfile]
          rfl
        dsimp only
        split
        · exact applyFile_allOrNothing hchecksum htransactional
        · cases happlied : faults .applied with
          | some error =>
            rw [interpret_call_error (answer_of_fault happlied)]
            exact iff_of_true (allOrNothing_start error) nofun
          | none =>
            rw [interpret_call_ok (answer_of_none happlied)]
            refine Iff.trans ?_ (forall_prop_of_true rfl).symm
            by_cases hall : file.replaces.all (· ∈ db.ledger.keys)
            · rw [if_pos hall]
              refine Iff.trans (iff_of_eq (congrArg (fun p : DbProgram Unit =>
                runner.AllOrNothing file.version db (p.run.interpret
                  (runner.answer engine faults) (Session.start db))) (if_pos hall))) ?_
              exact recordBaseline_allOrNothing hchecksum htransactional
            · rw [if_neg hall]
              refine Iff.trans (iff_of_eq (congrArg (fun p : DbProgram Unit =>
                runner.AllOrNothing file.version db (p.run.interpret
                  (runner.answer engine faults) (Session.start db))) (if_neg hall))) ?_
              exact applyFile_allOrNothing hchecksum htransactional

/-- A runner on SQLite with one file, which creates a table. -/
def oneFile : Runner where
  backend := .sqlite
  files := [{ id := ⟨20260101000000, "init"⟩, checksum := "c0ffee", up := ["CREATE TABLE t (id)"] }]
  rust := []

/-- The database is locked when the transaction is about to be committed: the connection stays
inside it. -/
theorem applyOne_leaves_transaction_open :
    ¬ oneFile.AllOrNothing 20260101000000 ⟨[], .empty⟩
      ((oneFile.applyOne 20260101000000 {}).run.interpret
        (oneFile.answer Engine.script fun
          | .commit => some (.database "running `COMMIT`" "" "database is locked")
          | _       => none)
        (Session.start ⟨[], .empty⟩)) := by
  intro h
  have hworking : some _ = none := congrArg Connection.working h
  cases hworking

end Runner

end Moso.Migrate
