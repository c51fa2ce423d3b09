import Moso.Migrate.Session

/-!
# A run on a connection of its own

A whole run, any of whose commands may fail, with nobody else at the database. What an
application that succeeds leaves behind: no transaction is open, the ledger has at most its own
version more, and the statements of a file were carried out.
-/

namespace Moso.Migrate

open Program (interpret_bind_eq_ok interpret_attempt interpret_lift interpret_ignore
  interpret_related interpret_settle_eq_ok)
open DbCmd (call ignore)

variable {D : Type}

/-- The engine that keeps beside the schema the script of the statements it took. -/
def Engine.logged (engine : Engine D) : Engine (D × List String) where
  execute sql schema :=
    match engine.execute sql schema.1 with
    | .ok (count, after) => .ok (count, after, schema.2 ++ [sql])
    | .error error       => .error error
  fetch sql schema := engine.fetch sql schema.1
  duplicate := engine.duplicate
  misplaced := engine.misplaced

/-- A connection, and how many commands it was asked. -/
structure Lone (D : Type) where
  conn : Connection D
  asked : ℕ

namespace Lone

def start (db : Db D) : Lone D := ⟨⟨db, none⟩, 0⟩

/-- The command is refused if this is its turn to fail. -/
def answer (backend : Backend) (engine : Engine D) (faults : ℕ → Option Error) (c : DbCmd)
    (s : Lone D) : c.Answer × Lone D :=
  match faults s.asked with
  | some error => (.error error, ⟨s.conn.refused backend c, s.asked + 1⟩)
  | none       => ((s.conn.exec engine c).1, ⟨(s.conn.exec engine c).2, s.asked + 1⟩)

variable {backend : Backend} {engine : Engine D} {faults : ℕ → Option Error}

/-- A command that succeeds was carried out. -/
lemma answer_eq_ok {c : DbCmd} {s s' : Lone D} {result : c.Result}
    (h : answer backend engine faults c s = (.ok result, s')) :
    s.conn.exec engine c = (.ok result, s'.conn) := by
  rw [answer] at h
  cases hfault : faults s.asked with
  | some error =>
    rw [hfault] at h
    cases h
  | none =>
    rw [hfault] at h
    obtain ⟨hresult, rfl⟩ := Prod.ext_iff.mp h
    exact Prod.ext hresult rfl

lemma call_eq_ok {α : Type} {c : DbCmd} {f : c.Result → DbProgram α} {s s'' : Lone D} {a : α}
    (h : (call c >>= f).run.interpret (answer backend engine faults) s = (.ok a, s'')) :
    ∃ result s', s.conn.exec engine c = (.ok result, s'.conn) ∧
      (f result).run.interpret (answer backend engine faults) s' = (.ok a, s'') := by
  obtain ⟨result, s', hcall, hrest⟩ := interpret_bind_eq_ok h
  exact ⟨result, s', answer_eq_ok hcall, hrest⟩

end Lone

namespace Ledger

/-- No version is in the later ledger that was not in the earlier one, but for one. -/
def Adds (version : Version) (ledger ledger' : Ledger) : Prop :=
  ∀ k ∈ ledger'.keys, k ∈ ledger.keys ∨ k = version

variable {ledger ledger' ledger'' : Ledger} {version : Version}

lemma Adds.refl : ledger.Adds version ledger := fun _ hk => Or.inl hk

lemma Adds.trans (h : ledger.Adds version ledger') (h' : ledger'.Adds version ledger'') :
    ledger.Adds version ledger'' := by
  intro k hk
  rcases h' k hk with hk | rfl
  · exact h k hk
  · exact Or.inr rfl

lemma adds_insert {row : AppliedMigration} (h : row.version = version) :
    ledger.Adds version (ledger.insert row) := by
  intro k hk
  obtain ⟨other, hother, rfl⟩ := Keyed.mem_keys.mp hk
  rcases Keyed.mem_insert.mp hother with rfl | ⟨hother, -⟩
  · exact Or.inr h
  · exact Or.inl (Keyed.mem_keys_of_mem hother)

lemma adds_finish {k : Version} : ledger.Adds version (ledger.finish k) := by
  intro k' hk'
  have hkeys : (ledger.finish k).keys = ledger.keys := Keyed.keys_update
  exact Or.inl (hkeys ▸ hk')

lemma adds_forget {k : Version} : ledger.Adds version (ledger.forget k) := by
  intro k' hk'
  obtain ⟨row, hrow, rfl⟩ := Keyed.mem_keys.mp hk'
  exact Or.inl (Keyed.mem_keys_of_mem (Keyed.mem_erase.mp hrow).1)

end Ledger

/-! ### What commands write -/

namespace Connection

/-- Only the schema was written. -/
def Writes (conn conn' : Connection D) : Prop :=
  ∃ schema, conn' = conn.write ⟨schema, conn.visible.ledger⟩

lemma Writes.refl (conn : Connection D) : conn.Writes conn :=
  ⟨conn.visible.schema, (write_visible).symm⟩

lemma Writes.trans {conn conn' conn'' : Connection D} (h : conn.Writes conn')
    (h' : conn'.Writes conn'') : conn.Writes conn'' := by
  obtain ⟨schema, rfl⟩ := h
  obtain ⟨schema', rfl⟩ := h'
  exact ⟨schema', by rw [visible_write, write_write]⟩

/-- The statements of a script were carried out, and nothing else. -/
def Runs (script : List String) (conn conn' : Connection (D × List String)) : Prop :=
  ∃ schema, conn' = conn.write ⟨(schema, conn.visible.schema.2 ++ script), conn.visible.ledger⟩

lemma Runs.refl (conn : Connection (D × List String)) : Runs [] conn conn :=
  ⟨conn.visible.schema.1, by rw [List.append_nil]; exact (write_visible).symm⟩

lemma Runs.trans {script script' : List String} {conn conn' conn'' : Connection (D × List String)}
    (h : Runs script conn conn') (h' : Runs script' conn' conn'') :
    Runs (script ++ script') conn conn'' := by
  obtain ⟨schema, rfl⟩ := h
  obtain ⟨schema', rfl⟩ := h'
  exact ⟨schema', by rw [visible_write, write_write, List.append_assoc]⟩

end Connection

namespace Lone

open Connection

variable {backend : Backend} {engine : Engine D} {faults : ℕ → Option Error}

lemma exec_execute {part : Part} {version : Version} {index count : ℕ} {sql : String}
    {conn conn' : Connection (D × List String)}
    (h : conn.exec engine.logged (.execute part version index sql) = (.ok count, conn')) :
    Runs [sql] conn conn' := by
  cases hexec : engine.execute sql conn.visible.schema.1 with
  | error error =>
    simp only [exec, Engine.logged, hexec] at h
    cases h
  | ok result =>
    simp only [exec, Engine.logged, hexec] at h
    obtain ⟨-, rfl⟩ := Prod.ext_iff.mp h
    exact ⟨result.2, rfl⟩

lemma conn_of_exec {engine : Engine D} {c : DbCmd} {conn conn' : Connection D} {answer : c.Answer}
    (h : conn.exec engine c = (answer, conn')) : conn' = (conn.exec engine c).2 :=
  (congrArg Prod.snd h).symm

lemma exec_fetch {part : Part} {version : Version} {index : ℕ} {sql : String}
    {conn conn' : Connection D} {rows : Rows} {engine : Engine D}
    (h : conn.exec engine (.fetch part version index sql) = (.ok rows, conn')) : conn' = conn :=
  (congrArg Prod.snd h).symm

/-- A migration written in Rust writes only the schema. -/
lemma writes_onDatabase {part : Part} {version : Version} {body : Body} {statements : ℕ}
    {s s' : Lone D} {outcome : Except Error Unit}
    (h : (body.onDatabase part version statements).interpret (answer backend engine faults) s =
      (outcome, s')) : s.conn.Writes s'.conn := by
  induction body generalizing statements s with
  | done result =>
    obtain rfl : s = s' := congrArg Prod.snd h
    exact .refl _
  | ask c next ih =>
    cases c with
    | execute sql =>
      refine Writes.trans ?_ (ih _ h)
      rw [answer]
      cases faults s.asked with
      | some error => exact .refl _
      | none =>
        dsimp only
        rw [exec]
        cases engine.execute sql s.conn.visible.schema with
        | ok result => exact ⟨result.2, rfl⟩
        | error error => exact .refl _
    | fetch sql =>
      refine Writes.trans ?_ (ih _ h)
      rw [answer]
      cases faults s.asked <;> exact .refl _

end Lone

/-- The statements that are executed: the foreign-key checks among them are read. -/
def executed (statements : List String) : List String :=
  statements.filter fun statement => !Runner.isForeignKeyCheck statement

namespace Lone

open Connection Runner

variable {runner : Runner} {engine : Engine D} {faults : ℕ → Option Error}
  {s s' : Lone (D × List String)} {version : Version}

lemma runStatement_eq_ok {index : ℕ} {statement : String}
    (h : (runner.runStatement version index statement).run.interpret
      (answer runner.backend engine.logged faults) s = (.ok (), s')) :
    Runs (executed [statement]) s.conn s'.conn := by
  rw [runStatement] at h
  by_cases hcheck : isForeignKeyCheck statement = true
  · rw [if_pos hcheck] at h
    obtain ⟨rows, s₁, hfetch, hrest⟩ := call_eq_ok h
    obtain rfl : s₁ = s' := congrArg Prod.snd hrest
    have hconn : s₁.conn = s.conn := exec_fetch hfetch
    rw [hconn, executed, List.filter_singleton, hcheck]
    exact .refl _
  · rw [if_neg hcheck] at h
    obtain ⟨count, s₁, hexec, hrest⟩ := call_eq_ok h
    obtain rfl : s₁ = s' := congrArg Prod.snd hrest
    rw [executed, List.filter_singleton, Bool.eq_false_iff.mpr hcheck]
    exact exec_execute hexec

lemma runStatementsFrom_eq_ok {recordFailures : Bool} {index : ℕ} {statements : List String}
    (h : (runner.runStatementsFrom version recordFailures index statements).run.interpret
      (answer runner.backend engine.logged faults) s = (.ok (), s')) :
    Runs (executed statements) s.conn s'.conn := by
  induction statements generalizing index s with
  | nil =>
    obtain rfl : s = s' := congrArg Prod.snd h
    exact .refl _
  | cons statement statements ih =>
    rw [runStatementsFrom, interpret_attempt] at h
    cases hstatement : (runner.runStatement version index statement).run.interpret
        (answer runner.backend engine.logged faults) s with
    | mk outcome s₁ =>
      rw [hstatement] at h
      cases outcome with
      | ok _ =>
        have hsplit : executed (statement :: statements) =
            executed [statement] ++ executed statements := List.filter_append [statement] statements
        rw [hsplit]
        exact (runStatement_eq_ok hstatement).trans (ih h)
      | error error =>
        have hfailed : ((if recordFailures then do
            ignore (.markFailed version index error.display)
            throw error
          else throw error : DbProgram Unit).run.interpret
            (answer runner.backend engine.logged faults) s₁).1 = .error error := by
          cases recordFailures <;> rfl
        exact absurd (hfailed.symm.trans (congrArg Prod.fst h)) (by simp)

lemma exec_insert {engine : Engine D} {conn conn' : Connection D} {row : AppliedMigration}
    {result : DbCmd.Result (.insert row)} (h : conn.exec engine (.insert row) = (.ok result, conn')) :
    conn' = conn.write ⟨conn.visible.schema, conn.visible.ledger.insert row⟩ := by
  rw [exec] at h
  cases hbegin : conn.visible.ledger.begin row with
  | none =>
    rw [hbegin] at h
    cases congrArg Prod.fst h
  | some ledger =>
    rw [hbegin] at h
    obtain ⟨-, rfl⟩ := Ledger.begin_eq_some.mp hbegin
    exact (congrArg Prod.snd h).symm

lemma setTimeouts_eq_ok {lock statement : ℕ}
    (h : (runner.setTimeouts lock statement).run.interpret
      (answer runner.backend engine.logged faults) s = (.ok (), s')) : s'.conn = s.conn := by
  rw [setTimeouts] at h
  by_cases hbackend : runner.backend ≠ .postgres
  · rw [if_pos hbackend] at h
    obtain rfl : s = s' := congrArg Prod.snd h
    rfl
  · rw [if_neg hbackend] at h
    obtain ⟨_, s₁, hlock, hrest⟩ := call_eq_ok h
    have hstatement := answer_eq_ok (c := .setStatementTimeout statement) hrest
    exact (congrArg Prod.snd hstatement).symm.trans (congrArg Prod.snd hlock).symm

lemma runStatements_eq_ok {statements : List String} {name checksum : String}
    {recordFailures : Bool}
    (h : (runner.runStatements statements version name checksum recordFailures).run.interpret
      (answer runner.backend engine.logged faults) s = (.ok (), s')) :
    ∃ schema row, row.version = version ∧ s'.conn = s.conn.write
      ⟨(schema, s.conn.visible.schema.2 ++ executed statements), s.conn.visible.ledger.insert row⟩ :=
    by
  obtain ⟨_, s₁, hinsert, hrest⟩ := call_eq_ok h
  obtain ⟨schema, hconn⟩ := runStatementsFrom_eq_ok hrest
  refine ⟨schema, .begin version name checksum statements.length, rfl, ?_⟩
  rw [hconn, exec_insert hinsert, write_write, visible_write]

/-- A file that was applied left its statements and its row, and no transaction. -/
lemma applyFile_eq_ok {file : MigrationFile} {options : RunnerOptions} {db : Db (D × List String)}
    (hconn : s.conn = ⟨db, none⟩)
    (h : (runner.applyFile file options).run.interpret
      (answer runner.backend engine.logged faults) s = (.ok (), s')) :
    ∃ statements db', file.statementsToApply options.allowDestructive = .ok statements ∧
      s'.conn = ⟨db', none⟩ ∧ db'.schema.2 = db.schema.2 ++ executed statements ∧
      db.ledger.Adds file.version db'.ledger := by
  obtain ⟨statements, hstatements, h⟩ := interpret_settle_eq_ok h
  obtain ⟨_, s₁, htimeouts, h⟩ := interpret_bind_eq_ok h
  have hconn₁ : s₁.conn = ⟨db, none⟩ := (setTimeouts_eq_ok htimeouts).trans hconn
  refine ⟨statements, ?_⟩
  by_cases htransactional : file.transactional = true
  · rw [if_pos htransactional] at h
    obtain ⟨_, s₂, hbegin, h⟩ := call_eq_ok h
    have hconn₂ : s₂.conn = ⟨db, some db⟩ := by
      rw [hconn₁] at hbegin
      exact (congrArg Prod.snd hbegin).symm
    rw [interpret_attempt] at h
    cases hrun : (runner.runStatements statements file.version file.id.name file.checksum
        false).run.interpret (answer runner.backend engine.logged faults) s₂ with
    | mk outcome s₃ =>
      rw [hrun] at h
      cases outcome with
      | error error => cases congrArg Prod.fst h
      | ok _ =>
        obtain ⟨schema, row, hrow, hconn₃⟩ := runStatements_eq_ok hrun
        rw [hconn₂] at hconn₃
        obtain ⟨_, s₄, hfinish, h⟩ := call_eq_ok h
        have hconn₄ : s₄.conn = (s₃.conn.exec engine.logged (.finish file.version)).2 :=
          conn_of_exec hfinish
        have hcommit : s'.conn = (s₄.conn.exec engine.logged .commit).2 :=
          conn_of_exec (answer_eq_ok (c := .commit) h)
        rw [hconn₄, hconn₃] at hcommit
        exact ⟨_, hstatements, hcommit, rfl, (Ledger.adds_insert hrow).trans Ledger.adds_finish⟩
  · rw [if_neg htransactional] at h
    obtain ⟨_, s₂, hrun, h⟩ := interpret_bind_eq_ok h
    obtain ⟨schema, row, hrow, hconn₂⟩ := runStatements_eq_ok hrun
    rw [hconn₁] at hconn₂
    have hfinish : s'.conn = (s₂.conn.exec engine.logged (.finish file.version)).2 :=
      conn_of_exec (answer_eq_ok (c := .finish file.version) h)
    rw [hconn₂] at hfinish
    exact ⟨_, hstatements, hfinish, rfl, (Ledger.adds_insert hrow).trans Ledger.adds_finish⟩

section

variable {engine : Engine D} {s s' : Lone D} {backend : Backend}

/-- A migration written in Rust that was applied left its row, and no transaction. -/
lemma applyRust_eq_ok {migration : RustMigration} {db : Db D} (hconn : s.conn = ⟨db, none⟩)
    (h : (applyRust migration).run.interpret (answer backend engine faults) s = (.ok (), s')) :
    ∃ db', s'.conn = ⟨db', none⟩ ∧ db.ledger.Adds migration.version db'.ledger := by
  have hadds : ∀ row : AppliedMigration, row.version = migration.version →
      db.ledger.Adds migration.version
        (Ledger.finish (db.ledger.insert row) migration.version) := fun row hrow =>
    (Ledger.adds_insert hrow).trans Ledger.adds_finish
  rw [applyRust] at h
  by_cases htransactional : migration.isTransactional = true
  · simp only [if_pos htransactional] at h
    obtain ⟨_, s₁, hbegin, h⟩ := call_eq_ok h
    have hconn₁ : s₁.conn = (s.conn.exec engine .begin).2 := conn_of_exec hbegin
    rw [hconn] at hconn₁
    obtain ⟨_, s₂, hinsert, h⟩ := call_eq_ok h
    have hconn₂ := exec_insert hinsert
    rw [hconn₁] at hconn₂
    rw [interpret_lift] at h
    cases hbody : (migration.up.onDatabase .up migration.version 0).interpret
        (answer backend engine faults) s₂ with
    | mk outcome s₃ =>
      rw [hbody] at h
      cases outcome with
      | error error => cases congrArg Prod.fst h
      | ok _ =>
        obtain ⟨schema, hconn₃⟩ := writes_onDatabase hbody
        rw [hconn₂] at hconn₃
        obtain ⟨_, s₄, hfinish, h⟩ := call_eq_ok h
        have hconn₄ : s₄.conn = (s₃.conn.exec engine (.finish migration.version)).2 :=
          conn_of_exec hfinish
        have hcommit : s'.conn = (s₄.conn.exec engine .commit).2 :=
          conn_of_exec (answer_eq_ok (c := .commit) h)
        rw [hconn₄, hconn₃] at hcommit
        exact ⟨_, hcommit, hadds _ rfl⟩
  · simp only [if_neg htransactional] at h
    obtain ⟨_, s₂, hinsert, h⟩ := call_eq_ok h
    have hconn₂ := exec_insert hinsert
    rw [hconn] at hconn₂
    rw [interpret_lift] at h
    cases hbody : (migration.up.onDatabase .up migration.version 0).interpret
        (answer backend engine faults) s₂ with
    | mk outcome s₃ =>
      rw [hbody] at h
      cases outcome with
      | error error => cases congrArg Prod.fst h
      | ok _ =>
        obtain ⟨schema, hconn₃⟩ := writes_onDatabase hbody
        rw [hconn₂] at hconn₃
        obtain ⟨_, s₄, hfinish, h⟩ := call_eq_ok h
        have hconn₄ : s₄.conn = (s₃.conn.exec engine (.finish migration.version)).2 :=
          conn_of_exec hfinish
        obtain rfl : s₄ = s' := congrArg Prod.snd h
        rw [hconn₃] at hconn₄
        exact ⟨_, hconn₄, hadds _ rfl⟩

lemma forgetReplaced_eq_ok {replaced : List Version} {index : ℕ} {db : Db D}
    (hconn : s.conn = ⟨db, none⟩)
    (h : (forgetReplaced version index replaced).run.interpret
      (answer backend engine faults) s = (.ok (), s')) :
    ∃ db', s'.conn = ⟨db', none⟩ ∧ db.ledger.Adds version db'.ledger := by
  induction replaced generalizing index s db with
  | nil =>
    obtain rfl : s = s' := congrArg Prod.snd h
    exact ⟨db, hconn, .refl⟩
  | cons k replaced ih =>
    rw [forgetReplaced] at h
    by_cases hk : k ≠ version
    · simp only [if_pos hk] at h
      obtain ⟨_, s₁, hforget, h⟩ := call_eq_ok h
      have hconn₁ : s₁.conn = (s.conn.exec engine (.forget k index)).2 := conn_of_exec hforget
      rw [hconn] at hconn₁
      obtain ⟨db', hconn', hadds⟩ := ih hconn₁ h
      exact ⟨db', hconn', Ledger.adds_forget.trans hadds⟩
    · simp only [if_neg hk] at h
      exact ih hconn h

lemma recordBaseline_eq_ok {file : MigrationFile} {db : Db D} (hconn : s.conn = ⟨db, none⟩)
    (h : (recordBaseline file).run.interpret (answer backend engine faults) s = (.ok (), s')) :
    ∃ db', s'.conn = ⟨db', none⟩ ∧ db.ledger.Adds file.version db'.ledger := by
  rw [recordBaseline] at h
  obtain ⟨_, s₁, hinsert, h⟩ := call_eq_ok h
  have hconn₁ := exec_insert hinsert
  rw [hconn] at hconn₁
  obtain ⟨_, s₂, hfinish, h⟩ := call_eq_ok h
  have hconn₂ : s₂.conn = (s₁.conn.exec engine (.finish file.version)).2 := conn_of_exec hfinish
  rw [hconn₁] at hconn₂
  obtain ⟨db', hconn', hadds⟩ := forgetReplaced_eq_ok hconn₂ h
  exact ⟨db', hconn', ((Ledger.adds_insert rfl).trans Ledger.adds_finish).trans hadds⟩

end

/-- An application that succeeds leaves no transaction, and adds its own version at most. -/
theorem applyOne_eq_ok {options : RunnerOptions} {db : Db (D × List String)}
    (hconn : s.conn = ⟨db, none⟩)
    (h : (runner.applyOne version options).run.interpret
      (answer runner.backend engine.logged faults) s = (.ok (), s')) :
    ∃ db', s'.conn = ⟨db', none⟩ ∧ db.ledger.Adds version db'.ledger := by
  obtain ⟨_, -, h⟩ := interpret_settle_eq_ok h
  cases hrust : runner.rustAt version with
  | some migration =>
    rw [hrust] at h
    obtain rfl := version_of_rustAt hrust
    exact applyRust_eq_ok hconn h
  | none =>
    rw [hrust] at h
    cases hfile : runner.file version with
    | none =>
      rw [hfile] at h
      cases congrArg Prod.fst h
    | some file =>
      rw [hfile] at h
      obtain rfl := version_of_file hfile
      have happly : ∀ s₁ : Lone (D × List String), s₁.conn = ⟨db, none⟩ →
          (runner.applyFile file options).run.interpret
            (answer runner.backend engine.logged faults) s₁ = (.ok (), s') →
          ∃ db', s'.conn = ⟨db', none⟩ ∧ db.ledger.Adds file.version db'.ledger := by
        intro s₁ hconn₁ h₁
        obtain ⟨-, db', -, hconn', -, hadds⟩ := applyFile_eq_ok hconn₁ h₁
        exact ⟨db', hconn', hadds⟩
      dsimp only at h
      by_cases hreplaces : file.replaces.isEmpty = true
      · rw [if_pos hreplaces] at h
        exact happly s hconn h
      · rw [if_neg hreplaces] at h
        obtain ⟨already, s₁, happlied, h⟩ := call_eq_ok h
        have hconn₁ : s₁.conn = (s.conn.exec engine.logged .applied).2 := conn_of_exec happlied
        rw [hconn] at hconn₁
        by_cases hall : file.replaces.all (· ∈ already.map (·.version)) = true
        · rw [if_pos hall] at h
          exact recordBaseline_eq_ok hconn₁ h
        · rw [if_neg hall] at h
          exact happly s₁ hconn₁ h

/-- A baseline that has its own version among those it replaces is run when that version is not
in the ledger. -/
theorem applyOne_baseline_eq_ok {options : RunnerOptions} {db : Db (D × List String)}
    {file : MigrationFile} (hrust : runner.rustAt version = none)
    (hfile : runner.file version = some file) (hreplaces : version ∈ file.replaces)
    (hnew : version ∉ db.ledger.keys) (hconn : s.conn = ⟨db, none⟩)
    (h : (runner.applyOne version options).run.interpret
      (answer runner.backend engine.logged faults) s = (.ok (), s')) :
    ∃ statements db', file.statementsToApply options.allowDestructive = .ok statements ∧
      s'.conn = ⟨db', none⟩ ∧ db'.schema.2 = db.schema.2 ++ executed statements := by
  obtain ⟨_, -, h⟩ := interpret_settle_eq_ok h
  rw [hrust, hfile] at h
  have hnonempty : ¬ file.replaces.isEmpty = true := by
    rw [List.isEmpty_iff]
    exact List.ne_nil_of_mem hreplaces
  dsimp only at h
  rw [if_neg hnonempty] at h
  obtain ⟨already, s₁, happlied, h⟩ := call_eq_ok h
  have hconn₁ : s₁.conn = (s.conn.exec engine.logged .applied).2 := conn_of_exec happlied
  rw [hconn] at happlied hconn₁
  obtain rfl : db.ledger.toList = already := Except.ok.inj (congrArg Prod.fst happlied)
  have hall : ¬ file.replaces.all (· ∈ db.ledger.toList.map (·.version)) = true := by
    intro hall
    exact hnew (of_decide_eq_true (List.all_eq_true.mp hall version hreplaces))
  rw [if_neg hall] at h
  obtain ⟨statements, db', hstatements, hconn', hschema, -⟩ := applyFile_eq_ok hconn₁ h
  exact ⟨statements, db', hstatements, hconn', hschema⟩

/-! ### The script only grows -/

/-- What is committed has its script at the head of that of the open transaction. -/
def Sound (conn : Connection (D × List String)) : Prop :=
  ∀ db ∈ conn.working, conn.committed.schema.2 <+: db.schema.2

/-- What was committed stays. -/
def Grows (s s' : Lone (D × List String)) : Prop :=
  Sound s.conn → Sound s'.conn ∧ s.conn.committed.schema.2 <+: s'.conn.committed.schema.2

lemma sound_of_none {db : Db (D × List String)} : Sound ⟨db, none⟩ := by
  rintro _ ⟨⟩

lemma sound_write {conn : Connection (D × List String)} {db : Db (D × List String)}
    (h : conn.visible.schema.2 <+: db.schema.2) (hsound : Sound conn) :
    Sound (conn.write db) ∧ conn.committed.schema.2 <+: (conn.write db).committed.schema.2 := by
  obtain ⟨committed, working⟩ := conn
  cases working with
  | none => exact ⟨sound_of_none, h⟩
  | some work =>
    refine ⟨?_, List.prefix_rfl⟩
    rintro _ ⟨⟩
    exact (hsound work rfl).trans h

lemma grows_answer (c : DbCmd) (s : Lone (D × List String)) :
    Grows s (answer runner.backend engine.logged faults c s).2 := by
  intro hsound
  rw [answer]
  have hkept : Sound s.conn ∧ s.conn.committed.schema.2 <+: s.conn.committed.schema.2 :=
    ⟨hsound, List.prefix_rfl⟩
  have hended : Sound { s.conn with working := none } ∧
      s.conn.committed.schema.2 <+: s.conn.committed.schema.2 := ⟨sound_of_none, List.prefix_rfl⟩
  cases faults s.asked with
  | some error =>
    cases c with
    | commit =>
      by_cases hbackend : runner.backend = .postgres
      · simpa only [refused, if_pos hbackend] using hended
      · simpa only [refused, if_neg hbackend] using hkept
    | _ => exact hkept
  | none =>
    dsimp only
    cases c with
    | begin =>
      cases hworking : s.conn.working with
      | some db => simpa only [exec, hworking] using hkept
      | none =>
        simp only [exec, hworking]
        refine ⟨?_, List.prefix_rfl⟩
        rintro _ ⟨⟩
        exact List.prefix_rfl
    | commit =>
      cases hworking : s.conn.working with
      | some db =>
        simp only [exec, hworking]
        exact ⟨sound_of_none, hsound db hworking⟩
      | none => simpa only [exec, hworking] using hkept
    | rollback =>
      cases hworking : s.conn.working with
      | some db => simpa only [exec, hworking] using hended
      | none => simpa only [exec, hworking] using hkept
    | insert row =>
      cases hbegin : s.conn.visible.ledger.begin row with
      | some ledger =>
        simp only [exec, hbegin]
        exact sound_write List.prefix_rfl hsound
      | none => simpa only [exec, hbegin] using hkept
    | finish version => exact sound_write List.prefix_rfl hsound
    | markFailed version statement failure => exact sound_write List.prefix_rfl hsound
    | forget version index => exact sound_write List.prefix_rfl hsound
    | execute part version index sql =>
      cases hexec : engine.execute sql s.conn.visible.schema.1 with
      | ok result =>
        simp only [exec, Engine.logged, hexec]
        exact sound_write (List.prefix_append _ _) hsound
      | error error => simpa only [exec, Engine.logged, hexec] using hkept
    | _ => exact hkept

/-- Whatever a run does, what was committed stays. -/
lemma committed_prefix {α : Type} {p : DbProgram α} {result : Except Error α}
    {db : Db (D × List String)} (hconn : s.conn = ⟨db, none⟩)
    (h : p.run.interpret (answer runner.backend engine.logged faults) s = (result, s')) :
    db.schema.2 <+: s'.conn.committed.schema.2 := by
  have hgrows : Grows s (p.run.interpret (answer runner.backend engine.logged faults) s).2 := by
    refine interpret_related (r := Grows) (fun t ht => ⟨ht, List.prefix_rfl⟩) ?_ grows_answer _ s
    intro t t' t'' h h' ht
    obtain ⟨ht', hpre⟩ := h ht
    obtain ⟨ht'', hpre'⟩ := h' ht'
    exact ⟨ht'', hpre.trans hpre'⟩
  rw [h] at hgrows
  have hstart := (hgrows (hconn ▸ sound_of_none)).2
  rwa [hconn] at hstart

lemma refresh_eq_ok {engine : Engine D} {s s' : Lone D} {lost : Option ℕ}
    (h : runner.refresh.run.interpret (answer runner.backend engine faults) s = (.ok lost, s')) :
    s'.conn = s.conn := by
  rw [refresh] at h
  by_cases hbackend : runner.backend ≠ .sqlite
  · rw [if_pos hbackend] at h
    obtain rfl : s = s' := congrArg Prod.snd h
    rfl
  · rw [if_neg hbackend] at h
    exact conn_of_exec (answer_eq_ok (c := .refresh) h)

/-- Where the baseline is pending and its version new, its statements have been carried out when
all that was pending is applied. -/
theorem applyAll_eq_ok {options : RunnerOptions} {file : MigrationFile} {pending : List Version}
    {applied : List (Version × String)} {db : Db (D × List String)}
    (hrust : runner.rustAt version = none) (hfile : runner.file version = some file)
    (hreplaces : version ∈ file.replaces) (hnew : version ∉ db.ledger.keys)
    (hmem : version ∈ pending) (hconn : s.conn = ⟨db, none⟩)
    (h : (runner.applyAll options pending).run.interpret
      (answer runner.backend engine.logged faults) s = (.ok applied, s')) :
    applied ≠ [] ∧ ∃ statements earlier,
      file.statementsToApply options.allowDestructive = .ok statements ∧
        earlier ++ executed statements <+: s'.conn.committed.schema.2 := by
  induction pending generalizing s db applied with
  | nil => exact absurd hmem List.not_mem_nil
  | cons k pending ih =>
    rw [applyAll] at h
    obtain ⟨lost, s₁, hrefresh, h⟩ := interpret_bind_eq_ok h
    have hconn₁ : s₁.conn = ⟨db, none⟩ := (refresh_eq_ok hrefresh).trans hconn
    cases lost with
    | some heldSecs => cases congrArg Prod.fst h
    | none =>
      obtain ⟨_, s₂, hone, h⟩ := interpret_bind_eq_ok h
      obtain ⟨rest, s₃, hall, h⟩ := interpret_bind_eq_ok h
      obtain rfl : s₃ = s' := congrArg Prod.snd h
      obtain rfl : (k, runner.nameOf k) :: rest = applied := Except.ok.inj (congrArg Prod.fst h)
      refine ⟨List.cons_ne_nil _ _, ?_⟩
      by_cases hk : k = version
      · subst hk
        obtain ⟨statements, db', hstatements, hconn₂, hschema⟩ :=
          applyOne_baseline_eq_ok hrust hfile hreplaces hnew hconn₁ hone
        exact ⟨statements, db.schema.2, hstatements, hschema ▸ committed_prefix hconn₂ hall⟩
      · obtain ⟨db', hconn₂, hadds⟩ := applyOne_eq_ok hconn₁ hone
        have hnew' : version ∉ db'.ledger.keys := by
          intro hin
          rcases hadds version hin with hin | rfl
          · exact hnew hin
          · exact hk rfl
        have hmem' : version ∈ pending := (List.mem_cons.mp hmem).resolve_left (Ne.symm hk)
        exact (ih hnew' hmem' hconn₂ hall).2

end Lone

end Moso.Migrate
