import Moso.Migrate.Fleet.Discipline

/-!
# Laws of a fleet of runners

What is to be shown of a single process, so that it holds of every run of a fleet: a law says what
must be true of the database, and what of each process in view of it. A process that has not got
the lock changes nothing, and what is true of it stays true while others go on.
-/

namespace Moso.Migrate

open Program (Obeys)

variable {D : Type}

namespace Connection

variable {backend : Backend} {engine : Engine D} {call : RunnerCall} {c : DbCmd}
  {conn conn' : Connection (D × History)}

lemma perform_ok {a : c.Result}
    (hexec : (conn.reach call c).exec engine.along c = (.ok a, conn')) :
    conn.perform backend engine call none c = (.ok a, conn'.chronicle call c) := by
  rw [perform, hexec]
  rfl

lemma perform_error {error : Error}
    (hexec : (conn.reach call c).exec engine.along c = (.error error, conn')) :
    conn.perform backend engine call none c = (.error error, conn') := by
  rw [perform, hexec]
  rfl

@[simp] lemma visible_writeHistory {f : History → History} :
    (conn.writeHistory f).visible =
      { conn.visible with schema := (conn.visible.schema.1, f conn.visible.schema.2) } :=
  visible_write

end Connection

namespace Stage

variable {runner : Runner} {call : RunnerCall} {stage : Stage} {c : DbCmd}

/-- The call has failed, or is at an end. -/
def isOver (stage : Stage) : Bool := stage.phase = .failed || stage.phase = .released

/-- A call that has failed only rolls back, and gives the lock back. -/
lemma Allows.of_over (h : stage.Allows call c) (hover : stage.isOver = true) :
    stage.phase = .failed ∧ (c = .rollback ∨ c = .release) := by
  have hphase : stage.phase = .failed ∨ stage.phase = .released := by
    rwa [isOver, Bool.or_eq_true_iff, decide_eq_true_iff, decide_eq_true_iff] at hover
  rcases hphase with hphase | hphase
  · refine ⟨hphase, ?_⟩
    cases c with
    | rollback => exact .inl rfl
    | release => exact .inr rfl
    | execute part => cases part <;> simp [Allows, Executes, hphase] at h
    | fetch part => cases part <;> simp [Allows, Executes, hphase] at h
    | _ => simp [Allows, hphase] at h
  · cases c with
    | execute part => cases part <;> simp [Allows, Executes, hphase] at h
    | fetch part => cases part <;> simp [Allows, Executes, hphase] at h
    | _ => simp [Allows, rests, holds, hphase] at h

/-- Without the lock a call only reads, and asks for it. -/
lemma Allows.outside (h : stage.Allows call c) (hout : stage.holds = false) :
    c = .ensure ∨ c = .applied ∨ c = .acquire := by
  have hphase : ∀ phase : Phase, (Stage.mk phase stage.through stage.todo).holds = true →
      stage.phase ≠ phase := by
    intro phase hphase heq
    have hstage : stage.holds = true := by rwa [← heq] at hphase
    rw [hout] at hstage
    cases hstage
  have hready := hphase .ready rfl
  have hopened := hphase .opened rfl
  have hexecutes : ∀ version part, ¬ stage.Executes call version part := by
    intro version part
    cases part with
    | up =>
      rintro ⟨-, ⟨tx, htx⟩, -⟩
      exact hphase (.inserted tx) rfl htx
    | down =>
      rintro ⟨-, h | h, -⟩
      · exact hready h
      · exact hopened h
  cases c with
  | ensure => exact .inl rfl
  | applied => exact .inr (.inl rfl)
  | acquire => exact .inr (.inr rfl)
  | refresh => exact absurd h hready
  | setLockTimeout millis => exact absurd h hready
  | setStatementTimeout millis => exact absurd h hready
  | begin => exact absurd h hready
  | insert row => exact (h.2.1.elim hready hopened).elim
  | finish version =>
    obtain ⟨-, ⟨tx, htx⟩, -⟩ := h
    exact absurd htx (hphase (.inserted tx) rfl)
  | markFailed version statement failure => exact absurd h.2.1 (hphase (.inserted false) rfl)
  | forget version index =>
    rw [Allows] at h
    split at h
    · exact (h.1.elim hready hopened).elim
    · exact absurd h.1 hready
  | execute part version index sql => exact absurd h (hexecutes version part)
  | fetch part version index sql => exact absurd h (hexecutes version part)
  | commit => exact absurd h (hphase .settled rfl)
  | rollback =>
    have hheld : stage.holds = true := h
    rw [hout] at hheld
    cases hheld
  | release =>
    have hheld : stage.holds = true := Runner.holds_of_rests h
    rw [hout] at hheld
    cases hheld

/-- A call gets the lock by asking for it. -/
lemma after_outside {answer : c.Answer} (h : stage.Allows call c) (hout : stage.holds = false)
    (hafter : (stage.after runner call c answer).holds = true) : c = .acquire ∧ answer.isOk := by
  have hsame : stage.holds ≠ true := by
    rw [hout]
    exact Bool.false_ne_true
  rcases h.outside hout with rfl | rfl | rfl
  · cases answer with
    | ok _ => exact absurd hafter hsame
    | error error => exact absurd hafter hsame
  · cases answer with
    | error error => exact absurd hafter hsame
    | ok applied =>
      have hphase : stage.phase ≠ .locked ∧ stage.phase ≠ .ready := by
        constructor <;> intro heq <;> rw [holds, heq] at hout <;> cases hout
      have hbegun : stage.phase = .begun := h.resolve_right (not_or.mpr hphase)
      rw [after, hbegun] at hafter
      cases hafter
  · cases answer with
    | ok _ => exact ⟨rfl, rfl⟩
    | error error => exact absurd hafter hsame

/-- It is with the lock that a call comes to give it back. -/
lemma after_released {answer : c.Answer} (h : stage.Allows call c)
    (hafter : (stage.after runner call c answer).phase = .released) : stage.holds = true := by
  by_contra hnot
  rcases h.outside (Bool.eq_false_of_not_eq_true hnot) with rfl | rfl | rfl
  · have hphase : stage.phase = .released := by cases answer <;> exact hafter
    rw [show stage.phase = .begun from h] at hphase
    cases hphase
  · have hphase : stage.phase = .begun := by
      rcases h with h | h | h
      · exact h
      · exact absurd (by rw [holds, h]) hnot
      · exact absurd (by rw [holds, h]) hnot
    cases answer with
    | ok applied =>
      rw [after, hphase] at hafter
      cases hafter
    | error error =>
      have hphase' : stage.phase = .released := hafter
      rw [hphase] at hphase'
      cases hphase'
  · have hphase : stage.phase = .listed := h
    cases answer with
    | ok _ =>
      have hgoTo : (if call.isRollback then Phase.ready else .locked) = .released := hafter
      split at hgoTo <;> cases hgoTo
    | error error =>
      have hphase' : stage.phase = .released := hafter
      rw [hphase] at hphase'
      cases hphase'

end Stage

/-- What is to be shown of a single process. -/
structure FleetLaw (runner : Runner) (engine : Engine D) where
  /-- The calls that are made. -/
  Starts : RunnerCall → Prop
  /-- What is true of the database, and of what is on record. -/
  Sound : RunnerRecord → Db (D × History) → Prop
  /-- What is true of a process with its connection. -/
  Fits : RunnerRecord → RunnerCall → Stage → Connection (D × History) → Prop
  /-- What becomes of the database while others are at work. -/
  Becomes : Db (D × History) → Db (D × History) → Prop
  /-- The condition on a command, with its fault. -/
  Guard : RunnerCall → Stage → Connection (D × History) → DbCmd → Option Error → Prop
  /-- The condition on a process that ends with this as its next command. -/
  Quits : RunnerCall → Stage → Connection (D × History) → DbCmd → Prop
  becomes_self : ∀ db, Becomes db db
  fits_start : ∀ {record call db}, Starts call → Fits record call .start ⟨db, none⟩
  fits_waiting : ∀ {record record' call stage db db' working}, stage.holds = false →
    stage.isOver = false → Becomes db db' → Fits record call stage ⟨db, working⟩ → Fits record' call stage ⟨db', working⟩
  keeps : ∀ {record call stage conn c fault}, Starts call → Sound record conn.committed →
    Fits record call stage conn → stage.Allows call c → Guard call stage conn c fault →
    let result := conn.perform runner.backend engine call fault c
    let record' := record.note conn.visible.ledger c result.1.isOk
    Becomes conn.committed result.2.committed ∧ Sound record' result.2.committed ∧
      Fits record' call (stage.after runner call c result.1) result.2
  quits : ∀ {record call stage conn c}, Starts call → Sound record conn.committed →
    Fits record call stage conn → stage.Allows call c → Quits call stage conn c →
    Becomes conn.committed (conn.reach call c).committed ∧
      Sound record (conn.reach call c).committed
  returns : ∀ {record call stage conn}, Sound record conn.committed →
    Fits record call stage conn → stage.phase = .released →
    Sound { record with reported := record.reported ++ stage.through } conn.committed

namespace RunnerFleet

variable {ι : Type} [DecidableEq ι] {runner : Runner} {engine : Engine D}

/-- The step meets the condition of the law. -/
def Respects (law : FleetLaw runner engine) (s : RunnerFleet ι D) : RunnerEvent ι → Prop
  | .start _ call => law.Starts call
  | .run i fault => ∀ p ∈ s.running i, ∀ c next, p.rest = .ask c next →
      law.Guard p.call p.stage (s.conn p) c fault
  | .stop i => ∀ p ∈ s.running i, ∀ c next, p.rest = .ask c next →
      law.Quits p.call p.stage (s.conn p) c

/-- What is true of a process, in view of the fleet. -/
structure Runs (law : FleetLaw runner engine) (s : RunnerFleet ι D) (i : ι)
    (p : RunnerProcess D) : Prop where
  starts : law.Starts p.call
  keeps : p.call.Keeps runner p.stage p.rest
  fits : law.Fits s.record p.call p.stage (s.conn p)
  lock : p.stage.holds = true → s.lock = some i

structure Lawful (law : FleetLaw runner engine) (s : RunnerFleet ι D) : Prop where
  sound : law.Sound s.record s.db
  asks : ∀ i, ∀ p ∈ s.running i, p.isAsking
  runs : ∀ i, ∀ p ∈ s.running i, s.Runs law i p

variable {law : FleetLaw runner engine} {s : RunnerFleet ι D} {i j : ι} {p q : RunnerProcess D}

omit [DecidableEq ι] in
/-- Two processes do not both have the lock. -/
lemma Runs.alone (hp : s.Runs law i p) (hq : s.Runs law j q) (hij : j ≠ i)
    (hholds : p.stage.holds = true) : q.stage.holds = false := by
  by_contra hnot
  have hlock := hq.lock (Bool.eq_true_of_not_eq_false hnot)
  rw [hp.lock hholds] at hlock
  exact hij (Option.some.inj hlock).symm

omit [DecidableEq ι] in
lemma Runs.allows (hp : s.Runs law i p) {c : DbCmd}
    {next : c.Answer → Program DbCmd DbCmd.Answer (Except Error (List Version))}
    (hrest : p.rest = .ask c next) : p.stage.Allows p.call c ∧ ∀ answer,
      p.call.Keeps runner (p.stage.after runner p.call c answer) (next answer) := by
  have hkeeps := hp.keeps
  rw [hrest] at hkeeps
  exact ⟨hkeeps.1, fun answer => hkeeps.2 answer trivial⟩

omit [DecidableEq ι] in
/-- A process that waits for the lock, while the database changes. -/
lemma Runs.waits {s' : RunnerFleet ι D} (hq : s.Runs law j q) (hasks : q.isAsking)
    (hout : q.stage.holds = false) (hbecomes : law.Becomes s.db s'.db) : s'.Runs law j q where
  starts := hq.starts
  keeps := hq.keeps
  fits := by
    obtain ⟨c, next, hrest⟩ := hasks
    refine law.fits_waiting hout ?_ hbecomes hq.fits
    by_contra hnot
    have hphase := ((hq.allows hrest).1.of_over (Bool.eq_true_of_not_eq_false hnot)).1
    rw [Stage.holds, hphase] at hout
    cases hout
  lock hholds := by
    rw [hout] at hholds
    cases hholds

omit [DecidableEq ι] in
/-- A process that others leave alone. -/
lemma Runs.stays {s' : RunnerFleet ι D} (hq : s.Runs law j q) (hdb : s'.db = s.db)
    (hrecord : s'.record = s.record) (hlock : s.lock = some j → s'.lock = some j) :
    s'.Runs law j q where
  starts := hq.starts
  keeps := hq.keeps
  fits := by
    rw [hrecord, conn, hdb]
    exact hq.fits
  lock hholds := hlock (hq.lock hholds)

lemma mem_running_leave (hq : q ∈ (s.leave i).running j) : j ≠ i ∧ q ∈ s.running j := by
  have hupdate : q ∈ Function.update s.running i none j := hq
  by_cases hij : j = i
  · subst hij
    rw [Function.update_self] at hupdate
    cases hupdate
  · rw [Function.update_of_ne hij] at hupdate
    exact ⟨hij, hupdate⟩

/-- A process that ends leaves the others as they are. -/
lemma Runs.leave (hq : s.Runs law j q) (hij : j ≠ i) : (s.leave i).Runs law j q := by
  refine hq.stays rfl rfl fun hlock => ?_
  have hother : s.lock ≠ some i := by
    rw [hlock]
    exact fun h => hij (Option.some.inj h)
  exact (if_neg hother).trans hlock

/-- A process goes on, or ends with what it returns on record. -/
lemma lawful_goOn (hsound : law.Sound s.record s.db)
    (hasks : ∀ j, ∀ q ∈ s.running j, q.isAsking)
    (hothers : ∀ j ≠ i, ∀ q ∈ s.running j, s.Runs law j q) (hp : s.Runs law i p)
    (hreleased : p.stage.phase = .released →
      ∀ j ≠ i, ∀ q ∈ s.running j, q.stage.holds = false) : (s.goOn i p).Lawful law := by
  rw [goOn]
  cases hrest : p.rest with
  | ask c next =>
    have hrunning : ∀ j, ∀ q ∈ Function.update s.running i (some p) j,
        j = i ∧ q = p ∨ j ≠ i ∧ q ∈ s.running j := by
      intro j q hq
      by_cases hij : j = i
      · subst hij
        rw [Function.update_self] at hq
        exact .inl ⟨rfl, (Option.some.inj hq).symm⟩
      · rw [Function.update_of_ne hij] at hq
        exact .inr ⟨hij, hq⟩
    refine ⟨hsound, fun j q hq => ?_, fun j q hq => ?_⟩
    · rcases hrunning j q hq with ⟨-, rfl⟩ | ⟨-, hq⟩
      · exact ⟨c, next, hrest⟩
      · exact hasks j q hq
    · rcases hrunning j q hq with ⟨rfl, rfl⟩ | ⟨hij, hq⟩
      · exact ⟨hp.starts, hp.keeps, hp.fits, hp.lock⟩
      · have hq := hothers j hij q hq
        exact ⟨hq.starts, hq.keeps, hq.fits, hq.lock⟩
  | done result =>
    have hreturns : RunnerCall.Returns p.stage result := by
      have hkeeps := hp.keeps
      rwa [hrest] at hkeeps
    have hleave : (s.leave i).Lawful law := by
      refine ⟨hsound, fun j q hq => hasks j q (mem_running_leave hq).2, fun j q hq => ?_⟩
      obtain ⟨hij, hq⟩ := mem_running_leave hq
      exact (hothers j hij q hq).leave hij
    cases result with
    | error error => exact hleave
    | ok versions =>
      rcases hreturns with rfl | ⟨hphase, rfl⟩
      · have hrecord : s.record.returned (.ok []) = s.record := by
          rw [RunnerRecord.returned, List.append_nil]
        dsimp only
        rw [hrecord]
        exact hleave
      · refine ⟨law.returns hsound hp.fits hphase, hleave.asks, fun j q hq => ?_⟩
        obtain ⟨hij, hq⟩ := mem_running_leave hq
        exact (hothers j hij q hq).waits (hasks j q hq) (hreleased hphase j hij q hq)
          (law.becomes_self _)

variable (runner engine) in
/-- Without the lock a command leaves the database and the record alone. -/
lemma perform_outside {call : RunnerCall} {stage : Stage} {c : DbCmd}
    (conn : Connection (D × History)) (fault : Option Error) (hallows : stage.Allows call c)
    (hout : stage.holds = false) (record : RunnerRecord) (succeeded : Bool) :
    (conn.perform runner.backend engine call fault c).2.committed = conn.committed ∧
      (conn.reach call c).committed = conn.committed ∧
      record.note conn.visible.ledger c succeeded = record := by
  rcases hallows.outside hout with rfl | rfl | rfl <;> cases fault <;> exact ⟨rfl, rfl, rfl⟩

/-- After a command that the lock is not needed for, nobody else has it. -/
lemma lockAfter_holds {c : DbCmd} {answer : c.Answer}
    (hlock : p.stage.holds = true → s.lock = some i) (hallows : p.stage.Allows p.call c)
    (hafter : (p.stage.after runner p.call c answer).holds = true) :
    s.lockAfter i c answer.isOk = some i := by
  by_cases hholds : p.stage.holds = true
  · cases c with
    | release =>
      cases answer with
      | ok _ => cases hafter
      | error error => cases hafter
    | acquire =>
      rw [Stage.holds, show p.stage.phase = .listed from hallows] at hholds
      cases hholds
    | _ => exact hlock hholds
  · obtain ⟨rfl, hok⟩ := Stage.after_outside hallows (Bool.eq_false_of_not_eq_true hholds) hafter
    exact if_pos hok

/-- The lock stays with another process that has it. -/
lemma lockAfter_other {c : DbCmd} {fault : Option Error} {answer : c.Answer} (hij : j ≠ i)
    (hblocks : s.blocks fault c = false) (hfault : fault.isSome = true → answer.isOk = false)
    (hlock : s.lock = some j) : s.lockAfter i c answer.isOk = some j := by
  cases c with
  | acquire =>
    cases fault with
    | none =>
      rw [blocks, hlock] at hblocks
      cases hblocks
    | some error =>
      rw [lockAfter, hfault rfl]
      exact hlock
  | release =>
    have hother : s.lock ≠ some i := by
      rw [hlock]
      exact fun h => hij (Option.some.inj h)
    exact (if_neg hother).trans hlock
  | _ => exact hlock

lemma lawful_ran {fault : Option Error} {c : DbCmd}
    {next : c.Answer → Program DbCmd DbCmd.Answer (Except Error (List Version))}
    (hs : s.Lawful law) (hrunning : p ∈ s.running i) (hrest : p.rest = .ask c next)
    (hblocks : s.blocks fault c = false)
    (hguard : law.Guard p.call p.stage (s.conn p) c fault) :
    (s.ran runner engine i p fault c next).Lawful law := by
  have hp := hs.runs i p hrunning
  obtain ⟨hallows, hnext⟩ := hp.allows hrest
  obtain ⟨hbecomes, hsound, hfits⟩ := law.keeps hp.starts hs.sound hp.fits hallows hguard
  have hfault : fault.isSome = true →
      ((s.conn p).perform runner.backend engine p.call fault c).1.isOk = false := by
    intro hsome
    cases fault with
    | none => cases hsome
    | some error => rfl
  rw [ran]
  apply lawful_goOn hsound
  · exact hs.asks
  · intro j hij q hmem
    have hq := hs.runs j q hmem
    by_cases hout : q.stage.holds = true
    · -- the process that runs has not got the lock
      have hother : p.stage.holds = false := hq.alone hp (Ne.symm hij) hout
      obtain ⟨hcommitted, -, hrecord⟩ := perform_outside runner engine (s.conn p) fault hallows hother
        s.record
        ((s.conn p).perform runner.backend engine p.call fault c).1.isOk
      exact hq.stays hcommitted hrecord (lockAfter_other hij hblocks hfault)
    · exact hq.waits (hs.asks j q hmem) (Bool.eq_false_of_not_eq_true hout) hbecomes
  · exact ⟨hp.starts, hnext _, hfits, fun hholds => lockAfter_holds hp.lock hallows hholds⟩
  · intro hreleased j hij q hq
    exact hp.alone (hs.runs j q hq) hij (Stage.after_released hallows hreleased)

lemma lawful_quit (hs : s.Lawful law) (hrunning : p ∈ s.running i)
    (hquits : ∀ c next, p.rest = .ask c next → law.Quits p.call p.stage (s.conn p) c) :
    (s.quit i p).Lawful law := by
  have hp := hs.runs i p hrunning
  rw [quit]
  cases hrest : p.rest with
  | done result =>
    refine ⟨hs.sound, fun j q hq => hs.asks j q (mem_running_leave hq).2, fun j q hq => ?_⟩
    obtain ⟨hij, hq⟩ := mem_running_leave hq
    exact (hs.runs j q hq).leave hij
  | ask c next =>
    have hallows := (hp.allows hrest).1
    obtain ⟨hbecomes, hsound⟩ :=
      law.quits hp.starts hs.sound hp.fits hallows (hquits c next hrest)
    refine ⟨hsound, fun j q hq => hs.asks j q (mem_running_leave hq).2, fun j q hmem => ?_⟩
    obtain ⟨hij, hmem⟩ := mem_running_leave hmem
    have hq := hs.runs j q hmem
    by_cases hout : q.stage.holds = true
    · have hother : p.stage.holds = false := hq.alone hp (Ne.symm hij) hout
      obtain ⟨-, hcommitted, -⟩ := perform_outside runner engine (s.conn p) none hallows hother
        s.record true
      exact (hq.leave hij).stays hcommitted rfl id
    · exact hq.waits (hs.asks j q hmem) (Bool.eq_false_of_not_eq_true hout) hbecomes

/-- Every step keeps to the law, if it meets its condition. -/
theorem lawful_step {e : RunnerEvent ι} {s' : RunnerFleet ι D} (hs : s.Lawful law)
    (he : s.Respects law e) (hstep : s.step runner engine e = some s') : s'.Lawful law := by
  cases e with
  | start i call =>
    rw [step] at hstep
    split at hstep
    · cases hstep
    · next hnone =>
      obtain rfl := Option.some.inj hstep
      refine lawful_goOn hs.sound hs.asks (fun j _ q hq => hs.runs j q hq) ?_ nofun
      exact ⟨he, call.program_keeps runner, law.fits_start he, nofun⟩
  | run i fault =>
    rw [step] at hstep
    split at hstep
    · cases hstep
    · next p hp =>
      split at hstep
      · cases hstep
      · next c next hrest =>
        split at hstep
        · cases hstep
        · next hblocks =>
          obtain rfl := Option.some.inj hstep
          exact lawful_ran hs hp hrest (Bool.eq_false_of_not_eq_true hblocks)
            (he p hp c next hrest)
  | stop i =>
    rw [step] at hstep
    split at hstep
    · cases hstep
    · next p hp =>
      obtain rfl := Option.some.inj hstep
      exact lawful_quit hs hp (he p hp)

/-- The rule for laws: in a run whose steps meet the condition, the database is always sound. -/
theorem sound_always {schema : D} {ledger : Ledger} {events : List (RunnerEvent ι)}
    (hsound : law.Sound .start { schema := (schema, .of ledger), ledger := ledger })
    (h : Machine.Meets (step runner engine) (Respects law) (init schema ledger) events) :
    Machine.Always (step runner engine) (fun s => law.Sound s.record s.db) (init schema ledger)
      events := by
  have hinit : (init schema ledger : RunnerFleet ι D).Lawful law := ⟨hsound, nofun, nofun⟩
  exact (Machine.always_of_meets (fun _ _ _ hs he hstep => lawful_step hs he hstep) hinit h).mono
    fun s hs => hs.sound

end RunnerFleet

end Moso.Migrate
