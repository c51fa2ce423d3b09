import Moso.Migrate.Runner

/-!
# How an application runs

An application runs alone on a connection, and any of its commands may fail. A body, and likewise
the statements of a file, runs on the connection as it does on a schema by itself, where only the
effects and the statements are counted.
-/

namespace Moso.Migrate

open Program (interpret_attempt interpret_call_ok interpret_call_error)
open DbCmd (ignore)

variable {D : Type}

/-- The connection of an application, and what its migration did so far. -/
structure Session (D : Type) where
  conn : Connection D
  /-- How many statements took effect. -/
  effects : ℕ
  /-- The one-based index of the last statement that was asked. -/
  asked : ℕ
  /-- Every statement was run. -/
  through : Bool

namespace Session

/-- A connection on which no statement was run. -/
def on (conn : Connection D) : Session D :=
  { conn := conn, effects := 0, asked := 0, through := false }

/-- A connection outside any transaction, on which nothing was run. -/
def start (db : Db D) : Session D := on { committed := db, working := none }

/-- What a command adds. -/
def note (c : DbCmd) (succeeded : Bool) (s : Session D) : Session D :=
  match c with
  | .execute _ _ index _ => { s with effects := s.effects + succeeded.toNat, asked := index }
  | .fetch _ _ index _   => { s with asked := index }
  | .finish _            => { s with through := true }
  | _ => s

/-- The statement that the migration stopped at, if it did not get through. -/
def failing (s : Session D) : Option ℕ := if s.through then none else some s.asked

end Session

namespace Runner

variable (runner : Runner) (engine : Engine D) (faults : DbCmd → Option Error)

/-- A command is carried out unless it has a fault. No two commands of an application are the
same. -/
def answer (c : DbCmd) (s : Session D) : c.Answer × Session D :=
  let result : c.Answer × Connection D := match faults c with
    | some error => (.error error, s.conn.refused runner.backend c)
    | none       => s.conn.exec engine c
  (result.1, { s with conn := result.2 }.note c result.1.isOk)

/-- The statements of a file as a body: one after the other until one fails. -/
def bodyOf (version : Version) : List String → Body
  | [] => .done (.ok ())
  | statement :: statements =>
    if isForeignKeyCheck statement then
      .ask (.fetch statement) fun
        | .ok rows =>
          match runner.checkViolations version rows.length with
          | .ok _        => bodyOf version statements
          | .error error => .done (.error error)
        | .error error => .done (.error error)
    else
      .ask (.execute statement) fun
        | .ok _        => bodyOf version statements
        | .error error => .done (.error error)

/-- The row goes in: there is none of its version, and the insert does not fail. -/
def Inserts (ledger : Ledger) (row : AppliedMigration) : Prop :=
  faults (.insert row) = none ∧ row.version ∉ ledger.keys

end Runner

/-- A schema, with how many statements took effect on it and how many were asked. -/
structure Tally (D : Type) where
  schema : D
  effects : ℕ
  asked : ℕ

section

variable (engine : Engine D) (faults : DbCmd → Option Error) (version : Version)

/-- What a body that goes up is answered on a schema. -/
def Tally.answer : (c : MigratorCmd) → Tally D → c.Answer × Tally D
  | .execute sql, t =>
    match faults (.execute .up version (t.asked + 1) sql) with
    | some error => (.error error, { t with asked := t.asked + 1 })
    | none =>
      match engine.execute sql t.schema with
      | .ok (count, schema) =>
        (.ok count, { schema := schema, effects := t.effects + 1, asked := t.asked + 1 })
      | .error error => (.error error, { t with asked := t.asked + 1 })
  | .fetch sql, t =>
    match faults (.fetch .up version (t.asked + 1) sql) with
    | some error => (.error error, { t with asked := t.asked + 1 })
    | none       => (engine.fetch sql t.schema, { t with asked := t.asked + 1 })

/-- How a body ends on a schema, and what it did there. -/
def Body.outcome (body : Body) (schema : D) : Except Error Unit × Tally D :=
  body.interpret (Tally.answer engine faults version) ⟨schema, 0, 0⟩

end

/-! ### Sessions and their counts -/

namespace Session

/-- The count of a session. -/
def tally (s : Session D) : Tally D :=
  { schema := s.conn.visible.schema, effects := s.effects, asked := s.asked }

/-- A session after what was counted. -/
def after (s : Session D) (t : Tally D) : Session D :=
  { s with
    conn := s.conn.write { s.conn.visible with schema := t.schema }
    effects := t.effects
    asked := t.asked }

@[simp] lemma after_tally (s : Session D) : s.after s.tally = s := by
  rw [after, tally]
  have hconn : s.conn.write { s.conn.visible with schema := s.conn.visible.schema } = s.conn :=
    Connection.write_visible
  rw [hconn]

@[simp] lemma tally_after (s : Session D) (t : Tally D) : (s.after t).tally = t := by
  rw [tally, after, Connection.visible_write]

@[simp] lemma after_after (s : Session D) (t t' : Tally D) : (s.after t).after t' = s.after t' := by
  simp only [after, Connection.visible_write, Connection.write_write]

end Session

namespace Runner

variable {runner : Runner} {engine : Engine D} {faults : DbCmd → Option Error} {c : DbCmd}
  {s : Session D} {version : Version}

lemma answer_of_fault {error : Error} (h : faults c = some error) :
    runner.answer engine faults c s =
      (.error error, { s with conn := s.conn.refused runner.backend c }.note c false) := by
  rw [answer, h]
  rfl

lemma answer_of_none (h : faults c = none) :
    runner.answer engine faults c s = ((s.conn.exec engine c).1,
      { s with conn := (s.conn.exec engine c).2 }.note c (s.conn.exec engine c).1.isOk) := by
  rw [answer, h]

lemma after_asked (s : Session D) (index : ℕ) :
    s.after { s.tally with asked := index } = { s with asked := index } := by
  have hconn : s.conn.write { s.conn.visible with schema := s.conn.visible.schema } = s.conn :=
    Connection.write_visible
  rw [Session.after]
  exact congrArg (fun conn => { s with conn := conn, asked := index }) hconn

variable (runner engine faults) in
/-- A command of a body moves the session as it moves the count. -/
lemma answer_execute (s : Session D) (version : Version) (sql : String) :
    runner.answer engine faults (.execute .up version (s.asked + 1) sql) s =
      ((Tally.answer engine faults version (.execute sql) s.tally).1,
        s.after (Tally.answer engine faults version (.execute sql) s.tally).2) := by
  have hasked : s.tally.asked = s.asked := rfl
  cases h : faults (.execute .up version (s.asked + 1) sql) with
  | some error =>
    have htally : Tally.answer engine faults version (.execute sql) s.tally =
        (.error error, { s.tally with asked := s.asked + 1 }) := by
      simp only [Tally.answer, hasked, h]
    rw [htally, answer_of_fault h, after_asked]
    rfl
  | none =>
    rw [answer_of_none h]
    cases hexec : engine.execute sql s.conn.visible.schema with
    | ok result =>
      have htally : Tally.answer engine faults version (.execute sql) s.tally =
          (.ok result.1, ⟨result.2, s.effects + 1, s.asked + 1⟩) := by
        have hschema : engine.execute sql s.tally.schema = .ok result := hexec
        simp only [Tally.answer, hasked, h, hschema]
        rfl
      rw [htally, Connection.exec, hexec]
      rfl
    | error error =>
      have htally : Tally.answer engine faults version (.execute sql) s.tally =
          (.error error, { s.tally with asked := s.asked + 1 }) := by
        have hschema : engine.execute sql s.tally.schema = .error error := hexec
        simp only [Tally.answer, hasked, h, hschema]
      rw [htally, Connection.exec, hexec, after_asked]
      rfl

variable (runner engine faults) in
lemma answer_fetch (s : Session D) (version : Version) (sql : String) :
    runner.answer engine faults (.fetch .up version (s.asked + 1) sql) s =
      ((Tally.answer engine faults version (.fetch sql) s.tally).1,
        s.after (Tally.answer engine faults version (.fetch sql) s.tally).2) := by
  have hasked : s.tally.asked = s.asked := rfl
  cases h : faults (.fetch .up version (s.asked + 1) sql) with
  | some error =>
    have htally : Tally.answer engine faults version (.fetch sql) s.tally =
        (.error error, { s.tally with asked := s.asked + 1 }) := by
      simp only [Tally.answer, hasked, h]
    rw [htally, answer_of_fault h, after_asked]
    rfl
  | none =>
    have htally : Tally.answer engine faults version (.fetch sql) s.tally =
        (engine.fetch sql s.conn.visible.schema, { s.tally with asked := s.asked + 1 }) := by
      simp only [Tally.answer, hasked, h]
      rfl
    rw [htally, answer_of_none h, after_asked]
    rfl

variable (engine faults) in
lemma tally_asked (version : Version) (c : MigratorCmd) (t : Tally D) :
    (Tally.answer engine faults version c t).2.asked = t.asked + 1 := by
  cases c with
  | execute sql =>
    rw [Tally.answer]
    split
    · rfl
    · split <;> rfl
  | fetch sql =>
    rw [Tally.answer]
    split <;> rfl

variable (runner engine faults) in
/-- A body moves the session as it moves the count. -/
lemma interpret_onDatabase (version : Version) (body : Body) (s : Session D) :
    (body.onDatabase .up version s.asked).interpret (runner.answer engine faults) s =
      ((body.interpret (Tally.answer engine faults version) s.tally).1,
        s.after (body.interpret (Tally.answer engine faults version) s.tally).2) := by
  induction body generalizing s with
  | done result => exact congrArg (Prod.mk result) s.after_tally.symm
  | ask c next ih =>
    have hcount := tally_asked engine faults version c s.tally
    generalize ht : Tally.answer engine faults version c s.tally = result at hcount
    have hnext := ih result.1 (s.after result.2)
    have hasked : (s.after result.2).asked = s.asked + 1 := hcount
    rw [hasked, Session.tally_after] at hnext
    simp only [Session.after_after] at hnext
    have hbody : (Program.ask c next).interpret (Tally.answer engine faults version) s.tally =
        (next result.1).interpret (Tally.answer engine faults version) result.2 := by
      rw [Program.interpret, ht]
    rw [hbody]
    cases c with
    | execute sql =>
      have hanswer := answer_execute runner engine faults s version sql
      rw [ht] at hanswer
      rw [Body.onDatabase, Program.interpret, hanswer]
      exact hnext
    | fetch sql =>
      have hanswer := answer_fetch runner engine faults s version sql
      rw [ht] at hanswer
      rw [Body.onDatabase, Program.interpret, hanswer]
      exact hnext

/-- What is left of a file's statements when one has failed. -/
lemma interpret_failed (recordFailures : Bool) (index : ℕ) (error : Error) :
    (if recordFailures then do
        ignore (.markFailed version index error.display)
        throw error
      else throw error : DbProgram Unit).run.interpret (runner.answer engine faults) s =
      (.error error,
        if recordFailures then
          (runner.answer engine faults (.markFailed version index error.display) s).2
        else s) := by
  cases recordFailures <;> rfl

variable (runner engine faults) in
/-- The statements of a file run as its body does; when one fails it is recorded, if it should
be. -/
lemma interpret_runStatementsFrom (version : Version) (recordFailures : Bool)
    (statements : List String) (s : Session D) :
    (runner.runStatementsFrom version recordFailures (s.asked + 1) statements).run.interpret
        (runner.answer engine faults) s =
      let result := ((runner.bodyOf version statements).onDatabase .up version s.asked).interpret
        (runner.answer engine faults) s
      match result.1 with
      | .ok _ => (.ok (), result.2)
      | .error error => (.error error,
          if recordFailures then
            (runner.answer engine faults (.markFailed version result.2.asked error.display)
              result.2).2
          else result.2) := by
  induction statements generalizing s with
  | nil => rfl
  | cons statement statements ih =>
    rw [runStatementsFrom, interpret_attempt, runStatement, bodyOf]
    by_cases hcheck : isForeignKeyCheck statement
    · rw [if_pos hcheck, if_pos hcheck, Body.onDatabase, Program.interpret]
      have hasked : (runner.answer engine faults (.fetch .up version (s.asked + 1) statement)
        s).2.asked = s.asked + 1 := rfl
      generalize hans : runner.answer engine faults (.fetch .up version (s.asked + 1) statement) s =
        result at hasked
      obtain ⟨rows, s'⟩ := result
      cases rows with
      | error error =>
        rw [interpret_call_error hans, ← hasked]
        exact interpret_failed recordFailures _ error
      | ok rows =>
        rw [interpret_call_ok hans, ← hasked]
        dsimp only
        generalize runner.checkViolations version rows.length = violated
        cases violated with
        | error error => exact interpret_failed recordFailures _ error
        | ok _ => exact ih s'
    · rw [if_neg hcheck, if_neg hcheck, Body.onDatabase, Program.interpret]
      have hasked : (runner.answer engine faults (.execute .up version (s.asked + 1) statement)
        s).2.asked = s.asked + 1 := rfl
      generalize hans : runner.answer engine faults (.execute .up version (s.asked + 1) statement)
        s = result at hasked
      obtain ⟨count, s'⟩ := result
      cases count with
      | error error =>
        rw [interpret_call_error hans, ← hasked]
        exact interpret_failed recordFailures _ error
      | ok count =>
        rw [interpret_call_ok hans, ← hasked]
        exact ih s'

lemma interpret_body {body : Body} (hasked : s.asked = 0) (heffects : s.effects = 0) :
    (body.onDatabase .up version 0).interpret (runner.answer engine faults) s =
      ((body.outcome engine faults version s.conn.visible.schema).1,
        s.after (body.outcome engine faults version s.conn.visible.schema).2) := by
  have htally : s.tally = ⟨s.conn.visible.schema, 0, 0⟩ := by rw [Session.tally, hasked, heffects]
  have hbody := interpret_onDatabase runner engine faults version body s
  rw [hasked, htally] at hbody
  exact hbody

lemma interpret_statements {recordFailures : Bool} {statements : List String}
    (hasked : s.asked = 0) (heffects : s.effects = 0) :
    (runner.runStatementsFrom version recordFailures 1 statements).run.interpret
        (runner.answer engine faults) s =
      let outcome := (runner.bodyOf version statements).outcome engine faults version
        s.conn.visible.schema
      match outcome.1 with
      | .ok _ => (.ok (), s.after outcome.2)
      | .error error => (.error error,
          if recordFailures then
            (runner.answer engine faults (.markFailed version outcome.2.asked error.display)
              (s.after outcome.2)).2
          else s.after outcome.2) := by
  have hstatements := interpret_runStatementsFrom runner engine faults version
    recordFailures statements s
  rw [hasked, interpret_body hasked heffects] at hstatements
  exact hstatements

variable (engine faults) in
/-- A statement that took effect was asked. -/
lemma outcome_effects_le (version : Version) (body : Body) (schema : D) :
    (body.outcome engine faults version schema).2.effects ≤
      (body.outcome engine faults version schema).2.asked := by
  have hle : ∀ t : Tally D, t.effects ≤ t.asked →
      (body.interpret (Tally.answer engine faults version) t).2.effects ≤
        (body.interpret (Tally.answer engine faults version) t).2.asked := by
    induction body with
    | done result => exact fun t ht => ht
    | ask c next ih =>
      intro t ht
      apply ih
      rw [tally_asked]
      cases c with
      | execute sql =>
        rw [Tally.answer]
        split
        · exact Nat.le_succ_of_le ht
        · split
          · exact Nat.succ_le_succ ht
          · exact Nat.le_succ_of_le ht
      | fetch sql =>
        rw [Tally.answer]
        split <;> exact Nat.le_succ_of_le ht
  exact hle _ le_rfl

/-! ### The ledger's commands -/

lemma answer_insert {row : AppliedMigration} (h : Inserts faults s.conn.visible.ledger row) :
    runner.answer engine faults (.insert row) s =
      (.ok (), { s with conn := s.conn.writeLedger fun ledger => ledger.insert row }) := by
  have hbegin : s.conn.visible.ledger.begin row = some (s.conn.visible.ledger.insert row) :=
    Ledger.begin_eq_some.mpr ⟨h.2, rfl⟩
  rw [answer_of_none h.1, Connection.exec, hbegin]
  rfl

variable (runner engine faults) in
lemma answer_insert_fails {row : AppliedMigration} (s : Session D)
    (h : ¬ Inserts faults s.conn.visible.ledger row) :
    ∃ error, runner.answer engine faults (.insert row) s = (.error error, s) := by
  cases hfault : faults (.insert row) with
  | some error => exact ⟨error, answer_of_fault hfault⟩
  | none =>
    have hmem : row.version ∈ s.conn.visible.ledger.keys := by
      by_contra hnot
      exact h ⟨hfault, hnot⟩
    have hbegin : s.conn.visible.ledger.begin row = none := if_pos hmem
    refine ⟨engine.duplicate row.version, ?_⟩
    rw [answer_of_none hfault, Connection.exec, hbegin]
    rfl

lemma answer_finish (h : faults (.finish version) = none) :
    runner.answer engine faults (.finish version) s =
      (.ok (), { s with
        conn := s.conn.writeLedger fun ledger => ledger.finish version
        through := true }) :=
  answer_of_none h

end Runner

end Moso.Migrate
