import Moso.Migrate.Fleet

/-!
# What the calls of a runner keep to

A migration and a rollback keep to one discipline, whatever the database answers: they write only
while they have the lock; a migration inserts the rows of its versions one after the other, in the
order of its list, and gets through with each before the next; and a rollback executes the down
statements of the version it is at, removes its row, and then goes on to the next.
-/

namespace Moso.Migrate

open Program (Obeys Discipline obeys_call obeys_last obeys_settle obeys_ignore)
open DbCmd (call ignore)

namespace Stage

/-- The call is at this version. -/
def At (stage : Stage) (version : Version) : Prop := stage.todo.head? = some version

/-- The call may give the lock back. -/
def rests (stage : Stage) : Bool :=
  match stage.phase with
  | .ready | .failed => true
  | _ => false

/-- The call may execute statements of this section of the version. -/
def Executes (call : RunnerCall) (stage : Stage) (version : Version) : Part → Prop
  | .up   => call.isRollback = false ∧ (∃ tx, stage.phase = .inserted tx) ∧ stage.At version
  | .down => call.isRollback = true ∧ (stage.phase = .ready ∨ stage.phase = .opened) ∧
      stage.At version

/-- What a call may ask. -/
def Allows (call : RunnerCall) (stage : Stage) : DbCmd → Prop
  | .ensure => stage.phase = .begun
  | .applied => stage.phase = .begun ∨ stage.phase = .locked ∨ stage.phase = .ready
  | .acquire => stage.phase = .listed
  | .refresh | .setLockTimeout _ | .setStatementTimeout _ | .begin => stage.phase = .ready
  | .insert row => call.isRollback = false ∧ (stage.phase = .ready ∨ stage.phase = .opened) ∧
      stage.At row.version
  | .finish version =>
    call.isRollback = false ∧ (∃ tx, stage.phase = .inserted tx) ∧ stage.At version
  | .markFailed version _ _ =>
    call.isRollback = false ∧ stage.phase = .inserted false ∧ stage.At version
  | .forget version _ =>
    if call.isRollback then (stage.phase = .ready ∨ stage.phase = .opened) ∧ stage.At version
    else stage.phase = .ready ∧ ∃ last, stage.through.getLast? = some last ∧ version ≠ last
  | .execute part version _ _ | .fetch part version _ _ => stage.Executes call version part
  | .commit => stage.phase = .settled
  | .rollback => stage.holds = true
  | .release => stage.rests = true

end Stage

namespace RunnerCall

variable (runner : Runner) (c : RunnerCall)

def discipline : Discipline DbCmd DbCmd.Answer Stage where
  allowed := Stage.Allows c
  expected _ _ _ := True
  next stage := stage.after runner c

/-- A call returns a list of versions as undone only when it has given the lock back and is
through with them. -/
def Returns (stage : Stage) : Except Error (List Version) → Prop
  | .ok versions => versions = [] ∨ stage.phase = .released ∧ versions = stage.through
  | .error _     => True

/-- From here on the call keeps to its discipline. -/
abbrev Keeps (stage : Stage) (p : Program DbCmd DbCmd.Answer (Except Error (List Version))) :
    Prop :=
  Obeys (c.discipline runner) Returns stage p

end RunnerCall

namespace Runner

/-- A part of a program that succeeded has come to this stage; one that failed may give the lock
back, unless it leaves a transaction to roll back. -/
def Reaches {α : Type} (goal : Stage) (stage : Stage) : Except Error α → Prop
  | .ok _    => stage = goal
  | .error _ => (stage.rests || stage.holds && goal.isOpen) = true

variable {runner : Runner} {c : RunnerCall} {stage goal : Stage} {version : Version}
  {through todo : List Version}

lemma holds_of_rests (h : stage.rests = true) : stage.holds = true := by
  rw [Stage.rests] at h
  rw [Stage.holds]
  cases hphase : stage.phase <;> rw [hphase] at h <;> trivial

lemma holds_of_reaches {α : Type} {error : Error}
    (h : Reaches (α := α) goal stage (.error error)) : stage.holds = true := by
  rcases Bool.or_eq_true_iff.mp h with h | h
  · exact holds_of_rests h
  · exact (Bool.and_eq_true_iff.mp h).1

/-- A part that failed between two versions leaves no transaction open. -/
lemma reaches_error {α : Type} {error : Error} :
    Reaches (α := α) ⟨.ready, through, todo⟩ stage (.error error) ↔ stage.rests = true := by
  have hopen : Stage.isOpen ⟨.ready, through, todo⟩ = false := rfl
  rw [Reaches, hopen, Bool.and_false, Bool.or_false]

/-- A body asks nothing but statements of its section. -/
lemma onDatabase_keeps {part : Part} (hexecutes : stage.Executes c version part) (body : Body)
    (statements : ℕ) :
    Obeys (c.discipline runner) (fun stage' _ => stage' = stage) stage
      (body.onDatabase part version statements) := by
  induction body generalizing statements with
  | done result => rfl
  | ask command next ih =>
    cases command with
    | execute sql => exact ⟨hexecutes, fun answer _ => ih answer _⟩
    | fetch sql => exact ⟨hexecutes, fun answer _ => ih answer _⟩

/-! ### Migrations -/

section Migrate

variable (hmigrate : c.isRollback = false)
include hmigrate

lemma runStatement_keeps {tx : Bool} {index : ℕ} {statement : String} {p : DbProgram Unit}
    (hphase : stage.phase = .inserted tx) (hat : stage.At version)
    (hp : runner.runStatement version index statement = p) :
    Obeys (c.discipline runner) (fun stage' _ => stage' = stage) stage p.run := by
  have hexecutes : stage.Executes c version .up := ⟨hmigrate, ⟨tx, hphase⟩, hat⟩
  rw [← hp, runStatement]
  generalize isForeignKeyCheck statement = check
  by_cases hcheck : check = true
  · rw [if_pos hcheck]
    refine obeys_call.2 ⟨hexecutes, fun rows _ => ?_, fun _ _ => rfl⟩
    generalize runner.checkViolations version rows.length = checked
    rfl
  · rw [if_neg hcheck]
    exact obeys_call.2 ⟨hexecutes, fun _ _ => rfl, fun _ _ => rfl⟩

variable (runner) in
lemma runStatementsFrom_keeps {recordFailures : Bool}
    (hphase : stage.phase = .inserted (!recordFailures)) (hat : stage.At version) (index : ℕ)
    (statements : List String) :
    Obeys (c.discipline runner) (Reaches stage) stage
      (runner.runStatementsFrom version recordFailures index statements).run := by
  -- a transaction that failed is there to be rolled back
  have hreaches : ∀ error, recordFailures = false →
      Reaches (α := Unit) stage stage (.error error) := by
    rintro error rfl
    rw [Reaches, Stage.holds, Stage.isOpen, hphase]
    exact Bool.or_true _
  induction statements generalizing index with
  | nil => rfl
  | cons statement statements ih =>
    rw [runStatementsFrom]
    generalize hp : runner.runStatement version index statement = p
    apply (runStatement_keeps hmigrate hphase hat hp).bindAttempt
    rintro _ outcome rfl
    cases outcome with
    | ok _ => exact ih _
    | error error =>
      cases recordFailures with
      | false => exact hreaches error rfl
      | true => exact obeys_ignore.2 ⟨⟨hmigrate, hphase, hat⟩, fun _ _ => rfl⟩

/-- The row of the version goes in, and its statements run. -/
lemma runStatements_keeps (recordFailures : Bool)
    (hphase : stage.phase = if recordFailures then .ready else .opened) (hat : stage.At version)
    (statements : List String) (name checksum : String) :
    Obeys (c.discipline runner) (Reaches (stage.goTo (.inserted (!recordFailures)))) stage
      (runner.runStatements statements version name checksum recordFailures).run := by
  rw [runStatements]
  have heither : stage.phase = .ready ∨ stage.phase = .opened := by
    cases recordFailures with
    | false => exact .inr hphase
    | true => exact .inl hphase
  have hinserted : (stage.goTo (.inserted (!recordFailures))).phase =
      .inserted (!recordFailures) := rfl
  have hfrom := runStatementsFrom_keeps runner hmigrate hinserted hat 1 statements
  refine obeys_call.2 ⟨⟨hmigrate, heither, hat⟩, fun _ _ => ?_, fun _ _ => rfl⟩
  have hafter : stage.goTo (.inserted (stage.phase = .opened)) =
      stage.goTo (.inserted (!recordFailures)) := by
    cases recordFailures <;> rw [hphase] <;> rfl
  have hnext : Obeys (c.discipline runner) (Reaches (stage.goTo (.inserted (!recordFailures))))
      (stage.goTo (.inserted (stage.phase = .opened)))
      (runner.runStatementsFrom version recordFailures 1 statements).run := hafter ▸ hfrom
  exact hnext

lemma applyRust_keeps {migration : RustMigration} (hmigration : migration.version = version) :
    Obeys (c.discipline runner) (Reaches ⟨.ready, through ++ [version], todo⟩)
      ⟨.ready, through, version :: todo⟩ (applyRust migration).run := by
  subst hmigration
  rw [applyRust]
  have hexecutes : ∀ tx, Stage.Executes c
      ⟨.inserted tx, through, migration.version :: todo⟩ migration.version .up :=
    fun tx => ⟨hmigrate, ⟨tx, rfl⟩, rfl⟩
  by_cases htransactional : migration.isTransactional = true
  · simp only [if_pos htransactional]
    refine obeys_call.2 ⟨rfl, fun _ _ => ?_, fun _ _ => rfl⟩
    refine obeys_call.2 ⟨⟨hmigrate, .inr rfl, rfl⟩, fun _ _ => ?_, fun _ _ => rfl⟩
    apply (onDatabase_keeps (hexecutes true) migration.up 0).bindLift
    rintro _ outcome rfl
    cases outcome with
    | ok _ =>
      refine obeys_call.2 ⟨⟨hmigrate, ⟨true, rfl⟩, rfl⟩, fun _ _ => ?_, fun _ _ => rfl⟩
      exact obeys_last.2 ⟨rfl, fun _ _ => rfl, fun _ _ => rfl⟩
    | error error => exact obeys_ignore.2 ⟨rfl, fun _ _ => rfl⟩
  · simp only [if_neg htransactional]
    refine obeys_call.2 ⟨⟨hmigrate, .inl rfl, rfl⟩, fun _ _ => ?_, fun _ _ => rfl⟩
    apply (onDatabase_keeps (hexecutes false) migration.up 0).bindLift
    rintro _ outcome rfl
    cases outcome with
    | ok _ => exact obeys_call.2 ⟨⟨hmigrate, ⟨false, rfl⟩, rfl⟩, fun _ _ => rfl, fun _ _ => rfl⟩
    | error error => exact obeys_ignore.2 ⟨⟨hmigrate, rfl, rfl⟩, fun _ _ => rfl⟩

lemma forgetReplaced_keeps (replaced : List Version) (index : ℕ) :
    Obeys (c.discipline runner) (Reaches ⟨.ready, through ++ [version], todo⟩)
      ⟨.ready, through ++ [version], todo⟩ (forgetReplaced version index replaced).run := by
  induction replaced generalizing index with
  | nil => rfl
  | cons k replaced ih =>
    rw [forgetReplaced]
    by_cases hk : k ≠ version
    · simp only [if_pos hk]
      have hallowed : Stage.Allows c ⟨.ready, through ++ [version], todo⟩ (.forget k index) := by
        rw [Stage.Allows, hmigrate]
        exact ⟨rfl, version, List.getLast?_concat, hk⟩
      refine obeys_call.2 ⟨hallowed, fun _ _ => ?_, fun _ _ => rfl⟩
      have hafter : (c.discipline runner).next ⟨.ready, through ++ [version], todo⟩
          (.forget k index) (.ok ()) = ⟨.ready, through ++ [version], todo⟩ := by
        simp only [RunnerCall.discipline, Stage.after, hmigrate]
        rfl
      rw [hafter]
      exact ih _
    · simp only [if_neg hk]
      exact ih _

lemma recordBaseline_keeps {file : MigrationFile} (hfile : file.version = version) :
    Obeys (c.discipline runner) (Reaches ⟨.ready, through ++ [version], todo⟩)
      ⟨.ready, through, version :: todo⟩ (recordBaseline file).run := by
  subst hfile
  refine obeys_call.2 ⟨⟨hmigrate, .inl rfl, rfl⟩, fun _ _ => ?_, fun _ _ => rfl⟩
  refine obeys_call.2 ⟨⟨hmigrate, ⟨false, rfl⟩, rfl⟩, fun _ _ => ?_, fun _ _ => rfl⟩
  exact forgetReplaced_keeps hmigrate file.replaces 0

end Migrate

lemma setTimeouts_keeps (hphase : stage.phase = .ready) (lock statement : ℕ) :
    Obeys (c.discipline runner) (fun stage' _ => stage' = stage) stage
      (runner.setTimeouts lock statement).run := by
  rw [setTimeouts]
  split
  · rfl
  · refine obeys_call.2 ⟨hphase, fun _ _ => ?_, fun _ _ => rfl⟩
    exact obeys_last.2 ⟨hphase, fun _ _ => rfl, fun _ _ => rfl⟩

section

variable (hmigrate : c.isRollback = false)
include hmigrate

lemma applyFile_keeps {file : MigrationFile} (hfile : file.version = version)
    (options : RunnerOptions) :
    Obeys (c.discipline runner) (Reaches ⟨.ready, through ++ [version], todo⟩)
      ⟨.ready, through, version :: todo⟩ (runner.applyFile file options).run := by
  subst hfile
  rw [applyFile]
  refine obeys_settle.2 ⟨fun statements _ => ?_, fun _ _ => rfl⟩
  refine Obeys.bindExcept (setTimeouts_keeps rfl _ _) ?_ fun _ _ h => h ▸ rfl
  rintro _ _ rfl
  by_cases htransactional : file.transactional = true
  · simp only [if_pos htransactional]
    refine obeys_call.2 ⟨rfl, fun _ _ => ?_, fun _ _ => rfl⟩
    have hopened : Stage.At ⟨.opened, through, file.version :: todo⟩ file.version := rfl
    apply (runStatements_keeps hmigrate false rfl hopened _ _ _).bindAttempt
    intro stage outcome hreaches
    cases outcome with
    | ok _ =>
      obtain rfl := hreaches
      refine obeys_call.2 ⟨⟨hmigrate, ⟨true, rfl⟩, rfl⟩, fun _ _ => ?_, fun _ _ => rfl⟩
      exact obeys_last.2 ⟨rfl, fun _ _ => rfl, fun _ _ => rfl⟩
    | error error => exact obeys_ignore.2 ⟨holds_of_reaches hreaches, fun _ _ => rfl⟩
  · simp only [if_neg htransactional]
    have hready : Stage.At ⟨.ready, through, file.version :: todo⟩ file.version := rfl
    apply (runStatements_keeps hmigrate true rfl hready _ _ _).bindExcept
    · rintro _ _ rfl
      exact obeys_last.2 ⟨⟨hmigrate, ⟨false, rfl⟩, rfl⟩, fun _ _ => rfl, fun _ _ => rfl⟩
    · exact fun _ _ h => h

lemma applyOne_keeps (options : RunnerOptions) :
    Obeys (c.discipline runner) (Reaches ⟨.ready, through ++ [version], todo⟩)
      ⟨.ready, through, version :: todo⟩ (runner.applyOne version options).run := by
  rw [applyOne]
  refine obeys_settle.2 ⟨fun _ _ => ?_, fun _ _ => rfl⟩
  cases hrust : runner.rustAt version with
  | some migration => exact applyRust_keeps hmigrate (version_of_rustAt hrust)
  | none =>
    cases hfile : runner.file version with
    | none => rfl
    | some file =>
      have hversion := version_of_file hfile
      dsimp only
      by_cases hreplaces : file.replaces.isEmpty = true
      · rw [if_pos hreplaces]
        exact applyFile_keeps hmigrate hversion options
      · rw [if_neg hreplaces]
        refine obeys_call.2 ⟨.inr (.inr rfl), fun already _ => ?_, fun _ _ => rfl⟩
        by_cases hall : file.replaces.all (· ∈ already.map (·.version)) = true
        · rw [if_pos hall]
          exact recordBaseline_keeps hmigrate hversion
        · rw [if_neg hall]
          exact applyFile_keeps hmigrate hversion options

end

/-- The lock is renewed between two versions. -/
lemma refresh_keeps (hphase : stage.phase = .ready) :
    Obeys (c.discipline runner) (fun stage' _ => stage' = stage) stage runner.refresh.run := by
  rw [refresh]
  by_cases hbackend : runner.backend ≠ .sqlite
  · rw [if_pos hbackend]
    rfl
  · rw [if_neg hbackend]
    exact obeys_last.2 ⟨hphase, fun _ _ => rfl, fun _ _ => rfl⟩

lemma applyAll_keeps (hmigrate : c.isRollback = false) (options : RunnerOptions)
    (pending : List Version) :
    Obeys (c.discipline runner) (fun stage' _ => stage'.rests = true)
      ⟨.ready, through, pending⟩
      (runner.applyAll options pending).run := by
  induction pending generalizing through with
  | nil => rfl
  | cons version pending ih =>
    rw [applyAll]
    refine Obeys.bindExcept (refresh_keeps rfl) ?_ fun _ _ h => h ▸ rfl
    rintro _ lost rfl
    cases lost with
    | some heldSecs => rfl
    | none =>
      refine Obeys.bindExcept (applyOne_keeps hmigrate options) ?_ fun _ _ h => reaches_error.1 h
      rintro _ _ rfl
      exact Obeys.bindExcept ih (fun _ _ h => h) fun _ _ h => h

lemma applyPending_keeps (hmigrate : c.isRollback = false) (options : RunnerOptions)
    (pending : List Version) (report : MigrateReport) :
    Obeys (c.discipline runner) (fun _ _ => True) ⟨.listed, through, pending⟩
      (runner.applyPending options pending report).run := by
  rw [applyPending]
  refine obeys_call.2 ⟨rfl, fun _ _ => ?_, fun _ _ => trivial⟩
  have hlocked : (c.discipline runner).next ⟨.listed, through, pending⟩ .acquire (.ok ()) =
      ⟨.locked, through, pending⟩ := by
    simp only [RunnerCall.discipline, Stage.after, hmigrate]
    rfl
  rw [hlocked]
  refine obeys_call.2 ⟨.inr (.inl rfl), fun already _ => ?_, fun _ _ => trivial⟩
  apply (applyAll_keeps hmigrate options _).bindAttempt
  intro stage outcome hholds
  refine obeys_ignore.2 ⟨hholds, fun _ _ => ?_⟩
  exact obeys_settle.2 ⟨fun _ _ => trivial, fun _ _ => trivial⟩

lemma migrate_keeps {options : RunnerOptions} :
    Obeys ((RunnerCall.migrate options).discipline runner) (fun _ _ => True) .start
      (runner.migrate options).run := by
  rw [migrate]
  refine obeys_settle.2 ⟨fun _ _ => ?_, fun _ _ => trivial⟩
  have hstatus : Obeys ((RunnerCall.migrate options).discipline runner)
      (fun stage result => ∀ status, result = .ok status →
        stage = ⟨.listed, [], wanted options status.pending⟩) .start runner.status.run := by
    refine obeys_call.2 ⟨rfl, fun _ _ => ?_, fun _ _ => nofun⟩
    refine obeys_call.2 ⟨.inl rfl, fun applied _ => ?_, fun _ _ => nofun⟩
    rintro _ ⟨⟩
    rfl
  apply hstatus.bindExcept
  · intro stage status hstage
    refine obeys_settle.2 ⟨fun status' hresult => ?_, fun _ _ => trivial⟩
    obtain rfl := Status.intoResult_eq_ok hresult
    obtain rfl := hstage _ rfl
    refine obeys_settle.2 ⟨fun _ _ => ?_, fun _ _ => trivial⟩
    dsimp only
    by_cases hempty : (wanted options status'.pending).isEmpty = true
    · rw [if_pos hempty]
      trivial
    · rw [if_neg hempty]
      refine obeys_settle.2 ⟨fun _ _ => ?_, fun _ _ => trivial⟩
      by_cases hdry : options.dryRun = true
      · rw [if_pos hdry]
        trivial
      · rw [if_neg hdry]
        exact applyPending_keeps rfl options _ _
  · exact fun _ _ _ => trivial

/-! ### Rollbacks -/

section Rollback

variable (hrollback : c.isRollback = true)
include hrollback

lemma runDown_keeps {transactional : Bool}
    (hphase : stage.phase = if transactional then .opened else .ready) (hat : stage.At version)
    (index : ℕ) (statements : List String) :
    Obeys (c.discipline runner) (fun stage' result => match result with
      | .ok _    => stage' = stage
      | .error _ => stage'.rests = true) stage
      (runDown version transactional index statements).run := by
  have hholds : stage.holds = true := by
    rw [Stage.holds, hphase]
    cases transactional <;> rfl
  have hready : transactional = false → stage.rests = true := by
    rintro rfl
    rw [Stage.rests, hphase]
    rfl
  have heither : stage.phase = .ready ∨ stage.phase = .opened := by
    cases transactional with
    | false => exact .inl hphase
    | true => exact .inr hphase
  induction statements generalizing index with
  | nil => rfl
  | cons statement statements ih =>
    rw [runDown]
    have hdown : Obeys (c.discipline runner) (fun stage' _ => stage' = stage) stage
        (call (.execute .down version index statement)).run :=
      obeys_last.2 ⟨⟨hrollback, heither, hat⟩, fun _ _ => rfl, fun _ _ => rfl⟩
    apply hdown.bindAttempt
    rintro _ outcome rfl
    cases outcome with
    | ok _ => exact ih _
    | error error =>
      cases transactional with
      | false => exact hready rfl
      | true => exact obeys_ignore.2 ⟨hholds, fun _ _ => rfl⟩

/-- The row of the version goes, outside a transaction. -/
lemma forget_keeps :
    Obeys (c.discipline runner) (Reaches ⟨.ready, through ++ [version], todo⟩)
      ⟨.ready, through, version :: todo⟩ (call (.forget version 0)).run := by
  have hallowed : Stage.Allows c ⟨.ready, through, version :: todo⟩ (.forget version 0) := by
    rw [Stage.Allows, hrollback]
    exact ⟨.inl rfl, rfl⟩
  refine obeys_last.2 ⟨hallowed, fun _ _ => ?_, fun _ _ => rfl⟩
  simp only [RunnerCall.discipline, Stage.after, hrollback]
  rfl

lemma rollbackRust_keeps {migration : RustMigration} (hmigration : migration.version = version) :
    Obeys (c.discipline runner) (Reaches ⟨.ready, through ++ [version], todo⟩)
      ⟨.ready, through, version :: todo⟩ (runner.rollbackRust migration).run := by
  subst hmigration
  have hexecutes : Stage.Executes c ⟨.ready, through, migration.version :: todo⟩
      migration.version .down := ⟨hrollback, .inl rfl, rfl⟩
  rw [rollbackRust]
  have hend : ∀ outcome : Except Error Unit,
      Obeys (c.discipline runner) (Reaches ⟨.ready, through ++ [migration.version], todo⟩)
        ⟨.ready, through, migration.version :: todo⟩ (do
          Program.settle outcome
          call (.forget migration.version 0) : DbProgram Unit).run := fun outcome =>
    obeys_settle.2 ⟨fun _ _ => forget_keeps hrollback, fun _ _ => rfl⟩
  by_cases hreversible : migration.isReversible = true
  · rw [if_pos hreversible]
    apply (onDatabase_keeps hexecutes migration.down 0).bindLift
    rintro _ outcome rfl
    exact hend outcome
  · rw [if_neg hreversible]
    exact hend (.error _)

lemma rollbackFile_keeps {file : MigrationFile} (hfile : file.version = version) :
    Obeys (c.discipline runner) (Reaches ⟨.ready, through ++ [version], todo⟩)
      ⟨.ready, through, version :: todo⟩ (runner.rollbackFile file).run := by
  subst hfile
  rw [rollbackFile]
  split
  · rfl
  · refine Obeys.bindExcept (setTimeouts_keeps rfl _ _) ?_ fun _ _ h => h ▸ rfl
    rintro _ _ rfl
    by_cases htransactional : file.transactional = true
    · simp only [if_pos htransactional]
      refine obeys_call.2 ⟨rfl, fun _ _ => ?_, fun _ _ => rfl⟩
      have hopened : Stage.At ⟨.opened, through, file.version :: todo⟩ file.version := rfl
      have hphase : Phase.opened = if file.transactional then .opened else .ready :=
        (if_pos htransactional).symm
      apply (runDown_keeps hrollback hphase hopened 1 file.down).bindExcept
      · rintro _ _ rfl
        have hallowed : Stage.Allows c ⟨.opened, through, file.version :: todo⟩
            (.forget file.version 0) := by
          rw [Stage.Allows, hrollback]
          exact ⟨.inr rfl, rfl⟩
        refine obeys_call.2 ⟨hallowed, fun _ _ => ?_, fun _ _ => rfl⟩
        have hsettled : (c.discipline runner).next ⟨.opened, through, file.version :: todo⟩
            (.forget file.version 0) (.ok ()) = ⟨.settled, through, file.version :: todo⟩ := by
          simp only [RunnerCall.discipline, Stage.after, hrollback]
          rfl
        rw [hsettled]
        exact obeys_last.2 ⟨rfl, fun _ _ => rfl, fun _ _ => rfl⟩
      · exact fun _ _ h => reaches_error.2 h
    · simp only [if_neg htransactional]
      have hready : Stage.At ⟨.ready, through, file.version :: todo⟩ file.version := rfl
      have hphase : Phase.ready = if file.transactional then .opened else .ready :=
        (if_neg htransactional).symm
      apply (runDown_keeps hrollback hphase hready 1 file.down).bindExcept
      · rintro _ _ rfl
        exact Obeys.bindExcept (forget_keeps hrollback) (fun _ _ h => h) fun _ _ h => h
      · exact fun _ _ h => reaches_error.2 h

lemma rollbackOne_keeps :
    Obeys (c.discipline runner) (Reaches ⟨.ready, through ++ [version], todo⟩)
      ⟨.ready, through, version :: todo⟩ (runner.rollbackOne version).run := by
  rw [rollbackOne]
  cases hrust : runner.rustAt version with
  | some migration => exact rollbackRust_keeps hrollback (version_of_rustAt hrust)
  | none =>
    cases hfile : runner.file version with
    | none => rfl
    | some file => exact rollbackFile_keeps hrollback (version_of_file hfile)

lemma rollbackAll_keeps (targets : List Version) :
    Obeys (c.discipline runner) (fun stage result => stage.rests = true ∧
        ∀ undone, result = .ok undone → stage.through = through ++ undone)
      ⟨.ready, through, targets⟩ (runner.rollbackAll targets).run := by
  induction targets generalizing through with
  | nil =>
    refine ⟨rfl, ?_⟩
    rintro _ ⟨⟩
    exact (List.append_nil _).symm
  | cons version targets ih =>
    rw [rollbackAll]
    refine Obeys.bindExcept (refresh_keeps rfl) ?_ fun _ _ h => ⟨h ▸ rfl, nofun⟩
    rintro _ lost rfl
    cases lost with
    | some heldSecs => exact ⟨rfl, nofun⟩
    | none =>
      refine Obeys.bindExcept (rollbackOne_keeps hrollback) ?_
        fun _ _ h => ⟨reaches_error.1 h, nofun⟩
      rintro _ _ rfl
      refine Obeys.bindExcept ih ?_ fun _ _ h => ⟨h.1, nofun⟩
      rintro stage undone ⟨hholds, hundone⟩
      refine ⟨hholds, ?_⟩
      rintro _ ⟨⟩
      rw [hundone undone rfl, List.append_assoc]
      rfl

end Rollback

lemma rollback_keeps {steps : ℕ} :
    (RunnerCall.rollback steps).Keeps runner .start (runner.rollback steps).run := by
  refine obeys_call.2 ⟨rfl, fun _ _ => ?_, fun _ _ => trivial⟩
  refine obeys_call.2 ⟨.inl rfl, fun applied _ => ?_, fun _ _ => trivial⟩
  refine obeys_call.2 ⟨rfl, fun _ _ => ?_, fun _ _ => trivial⟩
  apply (rollbackAll_keeps rfl _).bindAttempt
  rintro stage outcome ⟨hholds, hundone⟩
  refine obeys_ignore.2 ⟨hholds, fun _ _ => ?_⟩
  cases outcome with
  | ok undone => exact .inr ⟨rfl, (hundone undone rfl).symm⟩
  | error error => trivial

end Runner

/-- Every call keeps to the discipline. -/
theorem RunnerCall.program_keeps (runner : Runner) (c : RunnerCall) :
    c.Keeps runner .start (c.program runner).run := by
  cases c with
  | migrate options =>
    exact Obeys.bindExcept Runner.migrate_keeps (fun _ _ _ => .inl rfl) fun _ _ _ => trivial
  | rollback steps => exact Runner.rollback_keeps

end Moso.Migrate
