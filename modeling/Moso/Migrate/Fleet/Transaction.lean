import Moso.Migrate.Fleet.Law

/-!
# Laws of what a connection sees

A law of a fleet in terms of the database that each process sees: what it makes of it, and what
it relies on. What a transaction holds back, gives up or publishes is settled here, once for all
such laws.
-/

namespace Moso.Migrate

variable {D : Type}

/-- What a command makes of the database that its connection sees, when it succeeds. -/
def Db.Turns (call : RunnerCall) (db db' : Db (D × History)) : (c : DbCmd) → c.Result → Prop
  | .applied, applied => applied = db.ledger.toList ∧ db' = db
  | .insert row, _ => row.version ∉ db.ledger.keys ∧
      db' = { schema := (db.schema.1, db.schema.2.apply row.version),
              ledger := db.ledger.insert row }
  | .finish version, _ => db' = { db with ledger := db.ledger.finish version }
  | .markFailed version statement failure, _ =>
    db' = { db with ledger := db.ledger.markFailed version statement failure }
  | .forget version _, _ =>
    db' = { schema := (db.schema.1,
              if call.isRollback then (db.schema.2.runDown version).undo version
              else db.schema.2),
            ledger := db.ledger.forget version }
  | .execute .., _ => ∃ schema, db' = { db with schema := (schema, db.schema.2) }
  | _, _ => db' = db

namespace DbCmd

/-- The command opens or ends a transaction. -/
def bounds : DbCmd → Bool
  | begin | commit | rollback => true
  | _ => false

/-- The command removes the row of a version. -/
def removes : DbCmd → Bool
  | forget .. => true
  | _ => false

end DbCmd

/-- What is to be shown of what a process sees. -/
structure LedgerLaw (D : Type) (runner : Runner) where
  /-- The calls that are made. -/
  Starts : RunnerCall → Prop
  /-- What is true of the database, and of what is on record. -/
  Sound : RunnerRecord → Db (D × History) → Prop
  /-- What a process relies on that is this far. -/
  Suits : RunnerRecord → RunnerCall → Stage → Db (D × History) → Prop
  /-- What becomes of the database while others are at work. -/
  Becomes : Db (D × History) → Db (D × History) → Prop
  /-- The condition on a process that goes on, outside a transaction. -/
  Condition : RunnerCall → Stage → Db (D × History) → Prop
  becomes_self : ∀ db, Becomes db db
  becomes_trans : ∀ {db db' db''}, Becomes db db' → Becomes db' db'' → Becomes db db''
  suits_start : ∀ {record call db}, Starts call → Suits record call .start db
  suits_waiting : ∀ {record record' call stage db db'}, stage.holds = false →
    stage.isOver = false → Becomes db db' → Suits record call stage db →
    Suits record' call stage db'
  suits_failed : ∀ {record call db}, Sound record db →
    Suits record call (Stage.failed.goTo .released) db
  note : ∀ {record call stage db c} (succeeded), Starts call → Sound record db →
    Suits record call stage db → stage.Allows call c → stage.isOver = false →
    (∀ db', Sound record db' → Sound (record.note db.ledger c succeeded) db') ∧
      Suits (record.note db.ledger c succeeded) call stage db
  turns : ∀ {record call stage db db' c} {a : c.Result}, Starts call → Sound record db →
    Suits record call stage db → stage.Allows call c → stage.isOver = false →
    (stage.isOpen = false → Condition call stage db) → db.Turns call db' c a →
    Becomes db db' ∧ Sound record db' ∧ ((stage.after runner call c (.ok a)).isOver = false →
      Suits record call (stage.after runner call c (.ok a)) db')
  released : ∀ {record call stage db}, Suits record call stage db → stage.phase = .ready →
    Suits record call (stage.goTo .released) db
  returns : ∀ {record call stage db}, Sound record db → Suits record call stage db →
    stage.phase = .released → Sound { record with reported := record.reported ++ stage.through } db

section

variable {runner : Runner} {engine : Engine D} {backend : Backend} {call : RunnerCall}
  {stage : Stage} {conn conn' : Connection (D × History)} {fault : Option Error} {c : DbCmd}

namespace Connection

lemma working_of_reach : (conn.reach call c).working.isSome = conn.working.isSome := by
  cases c with
  | forget version index =>
    rw [reach]
    split
    · rw [writeHistory, working_write, Option.isSome_map]
    · rfl
  | _ => rfl

/-- What a rollback has done is lost with the transaction, if there is one. -/
lemma committed_of_reach (h : c.removes = true → call.isRollback = true →
    conn.working.isSome = true) : (conn.reach call c).committed = conn.committed := by
  cases c with
  | forget version index =>
    rw [reach]
    split
    · next hrollback => rw [writeHistory, committed_write, if_pos (h rfl hrollback)]
    · rfl
  | _ => rfl

/-- A command that fails leaves what is committed alone. -/
lemma committed_of_error {error : Error}
    (h : conn.perform backend engine call fault c = (.error error, conn'))
    (hremoves : fault.isSome = true → c.removes = true → call.isRollback = true →
      conn.working.isSome = true) : conn'.committed = conn.committed := by
  have hreach : (conn.reach call c).committed = conn.committed := by
    cases fault with
    | some e => exact conn.committed_of_reach (hremoves rfl)
    | none =>
      cases c with
      | forget version index => cases congrArg Prod.fst h
      | _ => rfl
  rw [← hreach]
  cases fault with
  | some e =>
    obtain rfl : (conn.reach call c).refused backend c = conn' := congrArg Prod.snd h
    exact committed_refused
  | none =>
    cases hexec : (conn.reach call c).exec engine.along c with
    | mk answer conn'' =>
      cases answer with
      | ok a =>
        rw [perform_ok hexec] at h
        cases congrArg Prod.fst h
      | error e =>
        rw [perform_error hexec] at h
        obtain rfl : conn'' = conn' := congrArg Prod.snd h
        rw [exec_eq_error hexec]

/-- A command that fails leaves the connection alone, unless it bounds a transaction or a rollback
has come to the row of a version. -/
lemma conn_of_error {error : Error}
    (h : conn.perform backend engine call fault c = (.error error, conn'))
    (hbounds : c.bounds = false) (hremoves : c.removes = false) : conn' = conn := by
  have hreach : conn.reach call c = conn := by
    cases c with
    | forget version index => cases hremoves
    | _ => rfl
  cases fault with
  | some e =>
    have hrefused : conn.refused backend c = conn := by
      cases c with
      | commit => cases hbounds
      | _ => rfl
    have hconn' : (conn.reach call c).refused backend c = conn' := congrArg Prod.snd h
    rw [← hconn', hreach, hrefused]
  | none =>
    cases hexec : (conn.reach call c).exec engine.along c with
    | mk answer conn'' =>
      cases answer with
      | ok a =>
        rw [perform_ok hexec] at h
        cases congrArg Prod.fst h
      | error e =>
        rw [perform_error hexec] at h
        obtain rfl : conn'' = conn' := congrArg Prod.snd h
        rw [exec_eq_error hexec, hreach]

variable (conn backend engine call fault) in
/-- A rollback gives up what was done in the transaction. -/
lemma committed_rollback :
    (conn.perform backend engine call fault .rollback).2.committed = conn.committed := by
  cases fault with
  | some e => rfl
  | none =>
    cases hworking : conn.working with
    | some db =>
      have hexec : (conn.reach call .rollback).exec engine.along .rollback =
          (.ok (), { conn with working := none }) := by
        have hreach : conn.reach call .rollback = conn := rfl
        rw [hreach, exec, hworking]
      rw [perform_ok hexec]
      rfl
    | none =>
      have hexec : (conn.reach call .rollback).exec engine.along .rollback =
          (engine.along.misplaced, conn) := by
        have hreach : conn.reach call .rollback = conn := rfl
        rw [hreach, exec, hworking]
      cases hmisplaced : engine.along.misplaced with
      | ok _ =>
        rw [hmisplaced] at hexec
        rw [perform_ok hexec]
        rfl
      | error error =>
        rw [hmisplaced] at hexec
        rw [perform_error hexec]

/-- What a command makes of the connection that succeeds, and neither opens nor ends a
transaction. -/
lemma turns_of_ok {a : c.Result} (hbounds : c.bounds = false)
    (h : conn.perform backend engine call fault c = (.ok a, conn')) :
    ∃ db', conn.visible.Turns call db' c a ∧ conn' = conn.write db' := by
  cases fault with
  | some e => cases congrArg Prod.fst h
  | none =>
    have hsame : ∀ {conn'}, conn' = conn → conn' = conn.write conn.visible := by
      rintro _ rfl
      exact (write_visible).symm
    cases c with
    | ensure => exact ⟨_, rfl, hsame (congrArg Prod.snd h).symm⟩
    | applied =>
      have hrows : conn.visible.ledger.toList = a := Except.ok.inj (congrArg Prod.fst h)
      exact ⟨_, ⟨hrows.symm, rfl⟩, hsame (congrArg Prod.snd h).symm⟩
    | setLockTimeout millis => exact ⟨_, rfl, hsame (congrArg Prod.snd h).symm⟩
    | setStatementTimeout millis => exact ⟨_, rfl, hsame (congrArg Prod.snd h).symm⟩
    | acquire => exact ⟨_, rfl, hsame (congrArg Prod.snd h).symm⟩
    | refresh => exact ⟨_, rfl, hsame (congrArg Prod.snd h).symm⟩
    | release => exact ⟨_, rfl, hsame (congrArg Prod.snd h).symm⟩
    | fetch part version index sql =>
      have hexec : (conn.reach call (.fetch part version index sql)).exec engine.along
          (.fetch part version index sql) =
            (engine.fetch sql conn.visible.schema.1, conn) := rfl
      cases hfetch : engine.fetch sql conn.visible.schema.1 with
      | ok rows =>
        rw [hfetch] at hexec
        rw [perform_ok hexec] at h
        exact ⟨_, rfl, hsame (congrArg Prod.snd h).symm⟩
      | error error =>
        rw [hfetch] at hexec
        rw [perform_error hexec] at h
        cases congrArg Prod.fst h
    | insert row =>
      have hreach : conn.reach call (.insert row) = conn := rfl
      cases hbegin : conn.visible.ledger.begin row with
      | none =>
        have hexec : (conn.reach call (.insert row)).exec engine.along (.insert row) =
            (.error (engine.along.duplicate row.version), conn) := by
          rw [hreach, exec, hbegin]
        rw [perform_error hexec] at h
        cases congrArg Prod.fst h
      | some ledger =>
        obtain ⟨hnew, rfl⟩ := Ledger.begin_eq_some.mp hbegin
        have hexec : (conn.reach call (.insert row)).exec engine.along (.insert row) =
            (.ok (), conn.writeLedger fun _ => conn.visible.ledger.insert row) := by
          rw [hreach, exec, hbegin]
        rw [perform_ok hexec, chronicle, writeHistory, writeLedger, visible_write,
          write_write] at h
        exact ⟨_, ⟨hnew, rfl⟩, (congrArg Prod.snd h).symm⟩
    | finish version => exact ⟨_, rfl, (congrArg Prod.snd h).symm⟩
    | markFailed version statement failure => exact ⟨_, rfl, (congrArg Prod.snd h).symm⟩
    | forget version index =>
      cases hrollback : call.isRollback with
      | false =>
        have hreach : conn.reach call (.forget version index) = conn := by
          rw [reach, hrollback]
          rfl
        have hexec : (conn.reach call (.forget version index)).exec engine.along
            (.forget version index) =
              (.ok (), conn.writeLedger fun ledger => ledger.forget version) := by
          rw [hreach]
          rfl
        rw [perform_ok hexec, chronicle, hrollback] at h
        refine ⟨_, ?_, (congrArg Prod.snd h).symm⟩
        rw [Db.Turns, hrollback]
        rfl
      | true =>
        have hreach : conn.reach call (.forget version index) =
            conn.writeHistory (·.runDown version) := by
          rw [reach, hrollback]
          rfl
        have hexec : (conn.reach call (.forget version index)).exec engine.along
            (.forget version index) = (.ok (), (conn.writeHistory (·.runDown version)).writeLedger
              fun ledger => ledger.forget version) := by
          rw [hreach]
          rfl
        rw [perform_ok hexec, chronicle, hrollback] at h
        simp only [if_true, writeHistory, writeLedger, visible_write, write_write] at h
        refine ⟨_, ?_, (congrArg Prod.snd h).symm⟩
        rw [Db.Turns, hrollback]
        rfl
    | execute part version index sql =>
      have hreach : conn.reach call (.execute part version index sql) = conn := rfl
      cases hexecute : engine.execute sql conn.visible.schema.1 with
      | error error =>
        have hexec : (conn.reach call (.execute part version index sql)).exec engine.along
            (.execute part version index sql) = (.error error, conn) := by
          simp only [hreach, exec, Engine.along, hexecute]
        rw [perform_error hexec] at h
        cases congrArg Prod.fst h
      | ok result =>
        have hexec : (conn.reach call (.execute part version index sql)).exec engine.along
            (.execute part version index sql) = (.ok result.1,
              conn.write { conn.visible with schema := (result.2, conn.visible.schema.2) }) := by
          simp only [hreach, exec, Engine.along, hexecute]
        rw [perform_ok hexec] at h
        exact ⟨_, ⟨result.2, rfl⟩, (congrArg Prod.snd h).symm⟩
    | begin => cases hbounds
    | commit => cases hbounds
    | rollback => cases hbounds

end Connection

namespace Stage

/-- Only the commands that bound a transaction change whether one is open. -/
lemma isOpen_after {a : c.Result} (hallows : stage.Allows call c) (hbounds : c.bounds = false)
    (hover : (stage.after runner call c (.ok a)).isOver = false) :
    (stage.after runner call c (.ok a)).isOpen = stage.isOpen := by
  cases c with
  | applied =>
    rcases hallows with hphase | hphase | hphase <;> simp only [after, isOpen, hphase]
  | acquire =>
    have hphase : stage.phase = .listed := hallows
    rw [isOpen, isOpen, hphase, after, goTo]
    cases call.isRollback <;> rfl
  | insert row =>
    rw [after, goTo, isOpen, isOpen]
    rcases hallows.2.1 with hphase | hphase <;> rw [hphase] <;> rfl
  | finish version =>
    obtain ⟨tx, hphase⟩ := hallows.2.1
    rw [after, isOpen, isOpen, hphase]
    cases tx <;> rfl
  | markFailed version statement failure => cases hover
  | forget version index =>
    rw [after]
    cases hrollback : call.isRollback with
    | false => rfl
    | true =>
      rw [Allows, hrollback] at hallows
      rw [isOpen, isOpen]
      rcases hallows.1 with hphase | hphase <;> rw [hphase] <;> rfl
  | release =>
    have hrests : stage.rests = true := hallows
    rw [rests] at hrests
    rw [isOpen, isOpen]
    cases hphase : stage.phase <;> rw [hphase] at hrests <;> trivial
  | begin => cases hbounds
  | commit => cases hbounds
  | rollback => cases hbounds
  | _ => rfl

/-- Only a call whose migration failed is over when it has not given the lock back. -/
lemma after_of_over {a : c.Result} (hover : stage.isOver = false) (hallows : stage.Allows call c)
    (hbounds : c.bounds = false) (hrelease : c ≠ .release)
    (hafter : (stage.after runner call c (.ok a)).isOver = true) :
    stage.after runner call c (.ok a) = .failed := by
  have hsame : stage.isOver ≠ true := by
    rw [hover]
    exact Bool.false_ne_true
  cases c with
  | applied =>
    rcases hallows with hphase | hphase | hphase <;>
      simp only [after, hphase, isOver] at hafter hsame <;> trivial
  | acquire =>
    rw [after, goTo, isOver] at hafter
    cases hrollback : call.isRollback <;> rw [hrollback] at hafter <;> cases hafter
  | insert row =>
    rw [after, goTo, isOver] at hafter
    cases hafter
  | finish version =>
    rw [after] at hafter
    split at hafter <;> cases hafter
  | markFailed version statement failure => rfl
  | forget version index =>
    rw [after] at hafter
    split at hafter
    · exact absurd hafter hsame
    · split at hafter <;> cases hafter
  | release => exact absurd rfl hrelease
  | begin => cases hbounds
  | commit => cases hbounds
  | rollback => cases hbounds
  | _ => exact absurd hafter hsame

end Stage

namespace LedgerLaw

/-- What is true of a process with its connection. -/
structure Fits (law : LedgerLaw D runner) (record : RunnerRecord) (call : RunnerCall)
    (stage : Stage) (conn : Connection (D × History)) : Prop where
  failed : stage.phase = .failed → stage = .failed
  released : stage.phase = .released → law.Suits record call stage conn.committed
  isOpen : stage.isOver = false → conn.working.isSome = stage.isOpen
  working : stage.isOver = false →
    ∀ db ∈ conn.working, law.Sound record db ∧ law.Becomes conn.committed db
  suits : stage.isOver = false → law.Suits record call stage conn.visible

variable {law : LedgerLaw D runner} {record record' : RunnerRecord}

/-- What a command leaves of the database and of the process. -/
def Kept (law : LedgerLaw D runner) (record : RunnerRecord) (call : RunnerCall) (stage : Stage)
    (conn conn' : Connection (D × History)) : Prop :=
  law.Becomes conn.committed conn'.committed ∧ law.Sound record conn'.committed ∧
    law.Fits record call stage conn'

lemma fits_of_under (hover : stage.isOver = false)
    (hopen : conn.working.isSome = stage.isOpen)
    (hworking : ∀ db ∈ conn.working, law.Sound record db ∧ law.Becomes conn.committed db)
    (hsuits : law.Suits record call stage conn.visible) : law.Fits record call stage conn := by
  have hphase : stage.phase ≠ .failed ∧ stage.phase ≠ .released := by
    constructor <;> intro heq <;> rw [Stage.isOver, heq] at hover <;> cases hover
  exact ⟨fun h => absurd h hphase.1, fun h => absurd h hphase.2, fun _ => hopen, fun _ => hworking,
    fun _ => hsuits⟩

lemma fits_failed : law.Fits record call .failed conn where
  failed _ := rfl
  released := by rintro ⟨⟩
  isOpen := by rintro ⟨⟩
  working := by rintro ⟨⟩
  suits := by rintro ⟨⟩

lemma fits_released (h : law.Suits record call (stage.goTo .released) conn.committed) :
    law.Fits record call (stage.goTo .released) conn where
  failed := by rintro ⟨⟩
  released _ := h
  isOpen := by rintro ⟨⟩
  working := by rintro ⟨⟩
  suits := by rintro ⟨⟩

lemma Fits.sound (h : law.Fits record call stage conn) (hover : stage.isOver = false)
    (hsound : law.Sound record conn.committed) : law.Sound record conn.visible := by
  rw [Connection.visible]
  cases hworking : conn.working with
  | none => exact hsound
  | some db => exact (h.working hover db hworking).1

lemma Fits.becomes (h : law.Fits record call stage conn) (hover : stage.isOver = false) :
    law.Becomes conn.committed conn.visible := by
  rw [Connection.visible]
  cases hworking : conn.working with
  | none => exact law.becomes_self _
  | some db => exact (h.working hover db hworking).2

/-- What has gone on record is no matter for the rest. -/
lemma Fits.note (h : law.Fits record call stage conn) (succeeded : Bool)
    (hstarts : law.Starts call) (hsound : law.Sound record conn.committed)
    (hallows : stage.Allows call c) (hover : stage.isOver = false) :
    law.Sound (record.note conn.visible.ledger c succeeded) conn.committed ∧
      law.Fits (record.note conn.visible.ledger c succeeded) call stage conn := by
  obtain ⟨hnote, hsuits⟩ := law.note succeeded hstarts (h.sound hover hsound)
    (h.suits hover) hallows hover
  refine ⟨hnote _ hsound, fits_of_under hover (h.isOpen hover) (fun db hdb => ?_) hsuits⟩
  obtain ⟨hdbSound, hbecomes⟩ := h.working hover db hdb
  exact ⟨hnote db hdbSound, hbecomes⟩

/-- A call that has failed. -/
lemma kept_over {answer : c.Answer} (h : law.Fits record call stage conn)
    (hsound : law.Sound record conn.committed) (hallows : stage.Allows call c)
    (hover : stage.isOver = true) (hcommitted : conn'.committed = conn.committed) :
    law.Kept record call (stage.after runner call c answer) conn conn' := by
  obtain ⟨hphase, hc⟩ := hallows.of_over hover
  rw [Kept, hcommitted]
  refine ⟨law.becomes_self _, hsound, ?_⟩
  rcases hc with rfl | rfl
  · have hafter : stage.after runner call .rollback answer = .failed := by cases answer <;> rfl
    rw [hafter]
    exact fits_failed
  · have hafter : stage.after runner call .release answer = Stage.failed.goTo .released := by
      cases answer <;> rw [Stage.after, h.failed hphase]
    rw [hafter]
    refine fits_released ?_
    rw [hcommitted]
    exact law.suits_failed hsound

/-- Outside a transaction a call sees what is committed. -/
lemma Fits.visible (h : law.Fits record call stage conn) (hover : stage.isOver = false)
    (hopen : stage.isOpen = false) : conn.working = none ∧ conn.visible = conn.committed := by
  have hworking : conn.working = none := by
    rw [← Option.not_isSome_iff_eq_none, h.isOpen hover, hopen]
    exact Bool.false_ne_true
  rw [Connection.visible, hworking]
  exact ⟨rfl, rfl⟩

lemma kept_release {answer : DbCmd.release.Answer} (h : law.Fits record call stage conn)
    (hsound : law.Sound record conn.committed) (hallows : stage.Allows call .release)
    (hover : stage.isOver = false) :
    law.Kept record call (stage.after runner call .release answer) conn conn := by
  have hphase : stage.phase = .ready := by
    have hrests : stage.rests = true := hallows
    rw [Stage.rests] at hrests
    rw [Stage.isOver] at hover
    cases hphase : stage.phase <;> rw [hphase] at hrests hover <;> trivial
  have hopen : stage.isOpen = false := by rw [Stage.isOpen, hphase]
  have hafter : stage.after runner call .release answer = stage.goTo .released := by
    cases answer <;> rfl
  rw [hafter]
  refine ⟨law.becomes_self _, hsound, fits_released ?_⟩
  rw [← (h.visible hover hopen).2]
  exact law.released (h.suits hover) hphase

/-- A command that fails changes nothing, or the call has failed. -/
lemma kept_error {error : Error} (h : law.Fits record call stage conn)
    (hsound : law.Sound record conn.committed) (hallows : stage.Allows call c)
    (hover : stage.isOver = false) (hcommitted : conn'.committed = conn.committed)
    (hconn : c.bounds = false → c.removes = false → conn' = conn) :
    law.Kept record call (stage.after runner call c (.error error)) conn conn' := by
  have hsame : ∀ {stage'}, stage' = stage → conn' = conn → law.Kept record call stage' conn conn' := by
    rintro _ rfl rfl
    exact ⟨law.becomes_self _, hsound, h⟩
  have hfailed : law.Kept record call .failed conn conn' := by
    rw [Kept, hcommitted]
    exact ⟨law.becomes_self _, hsound, fits_failed⟩
  cases c with
  | ensure => exact hsame rfl (hconn rfl rfl)
  | applied => exact hsame rfl (hconn rfl rfl)
  | setLockTimeout millis => exact hsame rfl (hconn rfl rfl)
  | setStatementTimeout millis => exact hsame rfl (hconn rfl rfl)
  | execute part version index sql => exact hsame rfl (hconn rfl rfl)
  | fetch part version index sql => exact hsame rfl (hconn rfl rfl)
  | acquire => exact hsame rfl (hconn rfl rfl)
  | refresh => exact hsame rfl (hconn rfl rfl)
  | release =>
    rw [hconn rfl rfl]
    exact kept_release h hsound hallows hover
  | _ => exact hfailed

lemma kept_rollback {answer : DbCmd.rollback.Answer} (hsound : law.Sound record conn.committed)
    (hcommitted : conn'.committed = conn.committed) :
    law.Kept record call (stage.after runner call .rollback answer) conn conn' := by
  have hafter : stage.after runner call .rollback answer = .failed := by cases answer <;> rfl
  rw [Kept, hafter, hcommitted]
  exact ⟨law.becomes_self _, hsound, fits_failed⟩

section

variable (hstarts : law.Starts call) (h : law.Fits record call stage conn)
  (hsound : law.Sound record conn.committed) (hallows : stage.Allows call c)
  (hover : stage.isOver = false)
  (hcondition : stage.isOpen = false → law.Condition call stage conn.visible)
include hstarts h hsound hallows hover hcondition

/-- What is written in a transaction is seen, and what is written outside one is committed. -/
lemma kept_write {a : c.Result} {db' : Db (D × History)} (hbounds : c.bounds = false)
    (hrelease : c ≠ .release) (hturns : conn.visible.Turns call db' c a) :
    law.Kept record call (stage.after runner call c (.ok a)) conn (conn.write db') := by
  obtain ⟨hbecomes, hsound', hsuits⟩ := law.turns hstarts (h.sound hover hsound) (h.suits hover)
    hallows hover hcondition hturns
  have hwrite : law.Becomes conn.committed (conn.write db').committed ∧
      law.Sound record (conn.write db').committed := by
    rw [Connection.committed_write]
    split
    · exact ⟨law.becomes_self _, hsound⟩
    · exact ⟨law.becomes_trans (h.becomes hover) hbecomes, hsound'⟩
  refine ⟨hwrite.1, hwrite.2, ?_⟩
  cases hafter : (stage.after runner call c (.ok a)).isOver with
  | true =>
    rw [Stage.after_of_over hover hallows hbounds hrelease hafter]
    exact fits_failed
  | false =>
    refine fits_of_under hafter ?_ ?_ ?_
    · rw [Connection.working_write, Option.isSome_map, h.isOpen hover,
        Stage.isOpen_after hallows hbounds hafter]
    · intro db hdb
      rw [Connection.working_write] at hdb
      obtain ⟨work, hwork, rfl⟩ := Option.map_eq_some_iff.mp hdb
      refine ⟨hsound', ?_⟩
      rw [Connection.committed_write, hwork]
      exact law.becomes_trans (h.becomes hover) hbecomes
    · rw [Connection.visible_write]
      exact hsuits hafter

end

section

variable (hstarts : law.Starts call) (h : law.Fits record call stage conn)
  (hsound : law.Sound record conn.committed) (hover : stage.isOver = false)
include hstarts h hsound hover

lemma kept_begin (hallows : stage.Allows call .begin)
    (hcondition : stage.isOpen = false → law.Condition call stage conn.visible) :
    law.Kept record call (stage.after runner call .begin (.ok ())) conn
      ⟨conn.committed, some conn.committed⟩ := by
  have hphase : stage.phase = .ready := hallows
  have hopen : stage.isOpen = false := by rw [Stage.isOpen, hphase]
  obtain ⟨-, -, hsuits⟩ := law.turns (c := .begin) (a := ()) hstarts (h.sound hover hsound)
    (h.suits hover) hallows hover hcondition rfl
  rw [(h.visible hover hopen).2] at hsuits
  refine ⟨law.becomes_self _, hsound, fits_of_under rfl rfl ?_ (hsuits rfl)⟩
  rintro _ ⟨⟩
  exact ⟨hsound, law.becomes_self _⟩

lemma kept_commit (hallows : stage.Allows call .commit) {db : Db (D × History)}
    (hworking : conn.working = some db) :
    law.Kept record call (stage.after runner call .commit (.ok ())) conn ⟨db, none⟩ := by
  have hphase : stage.phase = .settled := hallows
  have hopen : stage.isOpen = true := by rw [Stage.isOpen, hphase]
  have hcondition : stage.isOpen = false → law.Condition call stage conn.visible := by
    rw [hopen]
    rintro ⟨⟩
  obtain ⟨-, -, hsuits⟩ := law.turns (c := .commit) (a := ()) hstarts (h.sound hover hsound)
    (h.suits hover) hallows hover hcondition rfl
  have hvisible : conn.visible = db := by
    rw [Connection.visible, hworking]
    rfl
  rw [hvisible] at hsuits
  obtain ⟨hsound', hbecomes⟩ := h.working hover db hworking
  refine ⟨hbecomes, hsound', fits_of_under rfl rfl ?_ (hsuits rfl)⟩
  rintro _ ⟨⟩

end

/-- A process keeps to the law whatever it asks. -/
lemma kept_perform (hstarts : law.Starts call) (h : law.Fits record call stage conn)
    (hsound : law.Sound record conn.committed) (hallows : stage.Allows call c)
    (hcondition : fault = none → stage.isOpen = false → law.Condition call stage conn.committed)
    (hremoves : fault.isSome = true → c.removes = true → call.isRollback = true →
      conn.working.isSome = true) :
    let result := conn.perform runner.backend engine call fault c
    law.Kept (record.note conn.visible.ledger c result.1.isOk) call
      (stage.after runner call c result.1) conn result.2 := by
  intro result
  cases hover : stage.isOver with
  | true =>
    obtain ⟨-, hc⟩ := hallows.of_over hover
    have hnote : record.note conn.visible.ledger c result.1.isOk = record := by
      rcases hc with rfl | rfl <;> rfl
    rw [hnote]
    refine kept_over h hsound hallows hover ?_
    rcases hc with rfl | rfl
    · exact conn.committed_rollback engine runner.backend call fault
    · cases fault <;> rfl
  | false =>
    obtain ⟨hsound', h'⟩ := h.note result.1.isOk hstarts hsound hallows hover
    cases hresult : result with
    | mk answer conn' =>
      rw [hresult] at hsound' h'
      have hperform : conn.perform runner.backend engine call fault c = (answer, conn') := hresult
      cases answer with
      | error error =>
        exact kept_error h' hsound' hallows hover
          (Connection.committed_of_error hperform hremoves) (Connection.conn_of_error hperform)
      | ok a =>
        obtain rfl : fault = none := by
          cases fault with
          | none => rfl
          | some error => cases congrArg Prod.fst hperform
        have hcondition' : stage.isOpen = false → law.Condition call stage conn.visible := by
          intro hopen
          rw [(h.visible hover hopen).2]
          exact hcondition rfl hopen
        cases hbounds : c.bounds with
        | false =>
          obtain ⟨db', hturns, rfl⟩ := Connection.turns_of_ok hbounds hperform
          by_cases hrelease : c = .release
          · subst hrelease
            obtain rfl : db' = conn.visible := hturns
            rw [Connection.write_visible]
            exact kept_release h' hsound' hallows hover
          · exact kept_write hstarts h' hsound' hallows hover hcondition' hbounds hrelease hturns
        | true =>
          cases c with
          | begin =>
            have hopen : stage.isOpen = false := by
              rw [Stage.isOpen, show stage.phase = .ready from hallows]
            have hexec : (conn.reach call .begin).exec engine.along .begin =
                (.ok (), ⟨conn.committed, some conn.committed⟩) := by
              have hreach : conn.reach call .begin = conn := rfl
              rw [hreach, Connection.exec, (h.visible hover hopen).1]
            rw [Connection.perform_ok hexec] at hperform
            obtain rfl : _ = conn' := congrArg Prod.snd hperform
            exact kept_begin hstarts h' hsound' hover hallows hcondition'
          | commit =>
            have hopen : conn.working.isSome = true := by
              rw [h.isOpen hover, Stage.isOpen, show stage.phase = .settled from hallows]
            obtain ⟨db, hworking⟩ := Option.isSome_iff_exists.mp hopen
            have hexec : (conn.reach call .commit).exec engine.along .commit =
                (.ok (), ⟨db, none⟩) := by
              have hreach : conn.reach call .commit = conn := rfl
              rw [hreach, Connection.exec, hworking]
            rw [Connection.perform_ok hexec] at hperform
            obtain rfl : _ = conn' := congrArg Prod.snd hperform
            exact kept_commit hstarts h' hsound' hover hallows hworking
          | rollback =>
            have hcommitted := conn.committed_rollback engine runner.backend call none
            rw [hperform] at hcommitted
            exact kept_rollback hsound' hcommitted
          | _ => cases hbounds

/-- The law of the fleet. -/
def toFleetLaw (law : LedgerLaw D runner) (engine : Engine D) : FleetLaw runner engine where
  Starts := law.Starts
  Sound := law.Sound
  Fits := law.Fits
  Becomes := law.Becomes
  Guard call stage conn c fault := law.Starts call →
    (fault = none → stage.isOpen = false → law.Condition call stage conn.committed) ∧
      (fault.isSome = true → c.removes = true → call.isRollback = true →
        conn.working.isSome = true)
  Quits call _ conn c := law.Starts call → c.removes = true → call.isRollback = true →
    conn.working.isSome = true
  becomes_self := law.becomes_self
  fits_start hstarts := fits_of_under rfl rfl nofun (law.suits_start hstarts)
  fits_waiting := by
    intro record record' call stage db db' working hout hover hbecomes h
    have hopen : stage.isOpen = false := by
      rw [Stage.holds] at hout
      rw [Stage.isOpen]
      cases hphase : stage.phase <;> rw [hphase] at hout <;> trivial
    obtain ⟨rfl, -⟩ := h.visible hover hopen
    exact fits_of_under hover (h.isOpen hover) nofun
      (law.suits_waiting hout hover hbecomes (h.suits hover))
  keeps hstarts hsound h hallows hguard :=
    kept_perform hstarts h hsound hallows (hguard hstarts).1 (hguard hstarts).2
  quits := by
    intro record call stage conn c hstarts hsound _ _ hquits
    rw [conn.committed_of_reach (hquits hstarts)]
    exact ⟨law.becomes_self _, hsound⟩
  returns hsound h hphase := law.returns hsound (h.released hphase) hphase

end LedgerLaw

end

end Moso.Migrate
