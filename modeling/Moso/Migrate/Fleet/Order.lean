import Moso.Migrate.Fleet.Transaction

/-!
# Migrations that overtake a failure

Whether migrations that run side by side keep to the order of the versions, and stop at one that
failed. Each looks at the ledger before it waits for the lock; what it finds then may be out of
date when it gets it.
-/

namespace Moso.Migrate

variable {D : Type}

namespace Ledger

/-- Nothing in the ledger is in the way of these versions: no migration failed, and none of a
higher version was applied. -/
def Clear (ledger : Ledger) (todo : List Version) : Prop :=
  todo ≠ [] → (∀ row ∈ ledger.toList, row.dirty = false) ∧
    ∀ version ∈ todo, ∀ k ∈ ledger.keys, k < version

instance (ledger : Ledger) (todo : List Version) : Decidable (ledger.Clear todo) :=
  inferInstanceAs (Decidable (todo ≠ [] → _))

/-- The version is the highest in the ledger. -/
def Newest (ledger : Ledger) (version : Version) : Prop :=
  version ∈ ledger.keys ∧ ∀ k ∈ ledger.keys, k ≤ version

/-- No migration but this one is dirty. -/
def CleanBut (ledger : Ledger) (version : Version) : Prop :=
  ∀ row ∈ ledger, row.dirty = true → row.version = version

end Ledger

namespace RunnerCall

/-- A migration that does not allow versions out of order. -/
def InOrder : RunnerCall → Prop
  | migrate options => options.allowOutOfOrder = false
  | rollback _      => False

instance : ∀ call, Decidable (InOrder call)
  | migrate _  => inferInstanceAs (Decidable (_ = false))
  | rollback _ => isFalse id

end RunnerCall

/-- The calls that begin are migrations in order. -/
def RunnerEvent.InOrder {ι : Type} : RunnerEvent ι → Prop
  | .start _ call => call.InOrder
  | _ => True

instance {ι : Type} : ∀ e : RunnerEvent ι, Decidable e.InOrder
  | .start _ call => inferInstanceAs (Decidable call.InOrder)
  | .run _ _ => isTrue trivial
  | .stop _ => isTrue trivial

namespace RunnerFleet

variable {ι : Type}

/-- No migration was applied over a failure; and migrations were applied in the order of their
versions, each once. -/
def StopsAtFailures (s : RunnerFleet ι D) : Prop :=
  s.record.overDirty = false ∧ s.db.schema.2.applied.Pairwise (· < ·)

/-- A migration that has got the lock and reads the ledger again finds nothing there that is in
the way of what it is still to apply. -/
def RereadsClear (s : RunnerFleet ι D) : RunnerEvent ι → Prop
  | .run i _ => ∀ p ∈ s.running i, p.stage.phase = .locked →
      s.db.ledger.Clear (p.stage.todo.filter fun version => version ∉ s.db.ledger.keys)
  | _ => True

instance (s : RunnerFleet ι D) : ∀ e, Decidable (s.RereadsClear e)
  | .run i _ => inferInstanceAs (Decidable (∀ p ∈ s.running i, _))
  | .start _ _ => isTrue trivial
  | .stop _ => isTrue trivial

end RunnerFleet

/-! ### What a migration relies on -/

/-- Every version that was applied has a row, or one above it has; and they were applied in
order. -/
structure Db.Ordered (db : Db (D × History)) : Prop where
  sorted : db.schema.2.applied.Pairwise (· < ·)
  below : ∀ version ∈ db.schema.2.applied, ∃ k ∈ db.ledger.keys, version ≤ k

namespace Stage

/-- What the ledger is like for a migration that is this far. -/
def Suits (stage : Stage) (ledger : Ledger) : Prop :=
  match stage.phase with
  | .ready | .opened =>
    ledger.Clear stage.todo ∧ ∀ last ∈ stage.through.getLast?, ledger.Newest last
  | .inserted _ => ∃ version, stage.At version ∧ ledger.Newest version ∧ ledger.CleanBut version
  | .settled =>
    ∃ version, stage.At version ∧ ledger.Newest version ∧ ∀ row ∈ ledger, row.dirty = false
  | _ => True

end Stage

section

variable {runner : Runner} {engine : Engine D} {call : RunnerCall} {stage : Stage} {c : DbCmd}
  {version : Version} {ledger : Ledger}

/-! ### The ledger, one command at a time -/

namespace Ledger

lemma newest_insert {row : AppliedMigration} (h : ∀ k ∈ ledger.keys, k < row.version) :
    Newest (ledger.insert row) row.version := by
  refine ⟨Keyed.mem_keys_insert.mpr (.inl rfl), fun k hk => ?_⟩
  rcases Keyed.mem_keys_insert.mp hk with rfl | hk
  · exact le_rfl
  · exact le_of_lt (h k hk)

lemma cleanBut_insert {row : AppliedMigration} (h : ∀ row ∈ ledger.toList, row.dirty = false) :
    CleanBut (ledger.insert row) row.version := by
  intro row' hrow' hdirty
  rcases Keyed.mem_insert.mp hrow' with rfl | ⟨hmem, -⟩
  · rfl
  · rw [h row' hmem] at hdirty
    cases hdirty

/-- The only dirty row is finished. -/
lemma CleanBut.finish (h : ledger.CleanBut version) :
    ∀ row ∈ ledger.finish version, row.dirty = false := by
  intro row hrow
  rcases Keyed.mem_update.mp hrow with ⟨row', -, -, rfl⟩ | ⟨hmem, hne⟩
  · rfl
  · by_contra hnot
    exact hne (h row hmem (Bool.eq_true_of_not_eq_false hnot))

lemma Newest.of_keys_eq {ledger' : Ledger} (h : ledger.Newest version)
    (hkeys : ledger'.keys = ledger.keys) : ledger'.Newest version := by
  rwa [Newest, hkeys]

/-- After the highest version, higher ones may follow. -/
lemma Newest.clear {todo : List Version} (h : ledger.Newest version)
    (hclean : ∀ row ∈ ledger, row.dirty = false) (htodo : ∀ k ∈ todo, version < k) :
    ledger.Clear todo :=
  fun _ => ⟨hclean, fun k hk k' hk' => lt_of_le_of_lt (h.2 k' hk') (htodo k hk)⟩

end Ledger

/-! ### The database, one command at a time -/

namespace Db.Ordered

variable {db : Db (D × History)} {schema : D}

/-- The rows have changed, but their versions have not. -/
lemma of_keys_eq (h : db.Ordered) {ledger : Ledger} (hkeys : ledger.keys = db.ledger.keys) :
    Ordered { schema := (schema, db.schema.2), ledger := ledger } := by
  refine ⟨h.sorted, ?_⟩
  rw [hkeys]
  exact h.below

/-- The next version is applied. -/
lemma apply (h : db.Ordered) {row : AppliedMigration}
    (hrow : ∀ k ∈ db.ledger.keys, k < row.version) :
    Ordered { schema := (schema, db.schema.2.apply row.version),
              ledger := db.ledger.insert row } := by
  constructor
  · refine List.pairwise_append.mpr ⟨h.sorted, List.pairwise_singleton _ _, fun k hk k' hk' => ?_⟩
    obtain rfl := List.mem_singleton.mp hk'
    obtain ⟨above, habove, hle⟩ := h.below k hk
    exact lt_of_le_of_lt hle (hrow above habove)
  · intro k hk
    rcases List.mem_append.mp hk with hk | hk
    · obtain ⟨above, habove, hle⟩ := h.below k hk
      exact ⟨above, Keyed.mem_keys_insert.mpr (.inr habove), hle⟩
    · obtain rfl := List.mem_singleton.mp hk
      exact ⟨row.version, Keyed.mem_keys_insert.mpr (.inl rfl), le_rfl⟩

/-- A row goes that is not the highest. -/
lemma forget (h : db.Ordered) {last : Version} (hlast : db.ledger.Newest last)
    (hne : version ≠ last) :
    Ordered { db with ledger := db.ledger.forget version } := by
  refine ⟨h.sorted, fun k hk => ?_⟩
  obtain ⟨above, habove, hle⟩ := h.below k hk
  exact ⟨last, Ledger.mem_keys_forget.mpr ⟨hlast.1, Ne.symm hne⟩, hle.trans (hlast.2 above habove)⟩

end Db.Ordered

namespace Stage

lemma At.eq {version' : Version} (h : stage.At version) (h' : stage.At version') :
    version = version' :=
  Option.some.inj (h.symm.trans h')

/-- What is to come is above the version that the migration is at. -/
lemma At.tail (hat : stage.At version) (hsorted : stage.todo.Pairwise (· < ·)) :
    stage.todo.tail.Pairwise (· < ·) ∧ ∀ k ∈ stage.todo.tail, version < k := by
  obtain ⟨rest, hrest⟩ := List.head?_eq_some_iff.mp hat
  rw [hrest] at hsorted ⊢
  obtain ⟨hlt, hsorted⟩ := List.pairwise_cons.mp hsorted
  exact ⟨hsorted, hlt⟩

/-- A migration that is through with the highest version may go on. -/
lemma suits_advance (hat : stage.At version) (hsorted : stage.todo.Pairwise (· < ·))
    (hnewest : ledger.Newest version) (hclean : ∀ row ∈ ledger, row.dirty = false) :
    stage.advance.Suits ledger := by
  obtain ⟨rest, hrest⟩ := List.head?_eq_some_iff.mp hat
  refine ⟨hnewest.clear hclean (hat.tail hsorted).2, fun last hlast => ?_⟩
  rw [advance, hrest] at hlast
  obtain rfl : version = last := by
    have hgetLast : (stage.through ++ [version]).getLast? = some last := hlast
    rw [List.getLast?_concat] at hgetLast
    exact Option.some.inj hgetLast
  exact hnewest

/-- A call that has not got the lock relies on no ledger. -/
lemma suits_outside (hout : stage.holds = false) : stage.Suits ledger := by
  rw [holds] at hout
  rw [Suits]
  cases hphase : stage.phase <;> rw [hphase] at hout <;> trivial

/-- A row goes in over a ledger that is clean, and is the highest. -/
lemma clear_of_insert {row : AppliedMigration} (hsuits : stage.Suits ledger)
    (hallows : stage.Allows call (.insert row)) :
    (∀ row' ∈ ledger.toList, row'.dirty = false) ∧ ∀ k ∈ ledger.keys, k < row.version := by
  obtain ⟨-, hphase, hat⟩ := hallows
  obtain ⟨rest, hrest⟩ := List.head?_eq_some_iff.mp hat
  have hclear : ledger.Clear stage.todo := by
    rcases hphase with hphase | hphase <;> rw [Suits, hphase] at hsuits <;> exact hsuits.1
  obtain ⟨hclean, hbelow⟩ := hclear (hrest ▸ List.cons_ne_nil _ _)
  exact ⟨hclean, hbelow row.version (hrest ▸ List.mem_cons_self)⟩

/-- A baseline takes the place of a row below its own. -/
lemma suits_forget {index : ℕ} (hcall : call.isRollback = false) (hsuits : stage.Suits ledger)
    (hallows : stage.Allows call (.forget version index)) :
    (∃ last, ledger.Newest last ∧ version ≠ last) ∧ stage.Suits (ledger.forget version) := by
  rw [Allows, hcall] at hallows
  obtain ⟨hphase, last, hlast, hne⟩ := hallows
  rw [Suits, hphase] at hsuits ⊢
  obtain ⟨hclear, hnewest⟩ := hsuits
  have hnewest := hnewest last hlast
  refine ⟨⟨last, hnewest, hne⟩, fun htodo => ?_, fun last' hlast' => ?_⟩
  · obtain ⟨hclean, hbelow⟩ := hclear htodo
    refine ⟨fun row hrow => hclean row (Keyed.mem_erase.mp hrow).1, fun k hk k' hk' => ?_⟩
    exact hbelow k hk k' (Ledger.mem_keys_forget.mp hk').1
  · obtain rfl : last = last' := Option.some.inj (hlast.symm.trans hlast')
    refine ⟨Ledger.mem_keys_forget.mpr ⟨hnewest.1, Ne.symm hne⟩, fun k hk => ?_⟩
    exact hnewest.2 k (Ledger.mem_keys_forget.mp hk).1

/-- The row of the version is finished: nothing is dirty, and the migration goes on. -/
lemma suits_finish (hsorted : stage.todo.Pairwise (· < ·)) (hsuits : stage.Suits ledger)
    (hallows : stage.Allows call (.finish version)) :
    (stage.after runner call (.finish version) (.ok ())).todo.Pairwise (· < ·) ∧
      (stage.after runner call (.finish version) (.ok ())).Suits (ledger.finish version) := by
  obtain ⟨-, ⟨tx, hphase⟩, hat⟩ := hallows
  rw [Suits, hphase] at hsuits
  obtain ⟨version', hat', hnewest, hclean⟩ := hsuits
  obtain rfl := hat.eq hat'
  have hnewest' : (ledger.finish version).Newest version := hnewest.of_keys_eq Ledger.keys_finish
  cases tx with
  | true =>
    have hafter : stage.after runner call (.finish version) (.ok ()) = stage.goTo .settled :=
      if_pos hphase
    rw [hafter]
    exact ⟨hsorted, version, hat, hnewest', hclean.finish⟩
  | false =>
    have hafter : stage.after runner call (.finish version) (.ok ()) = stage.advance := by
      have hne : stage.phase ≠ .inserted true := by
        rw [hphase]
        nofun
      exact if_neg hne
    rw [hafter]
    exact ⟨(hat.tail hsorted).1, suits_advance hat hsorted hnewest' hclean.finish⟩

/-- The ledger is read: for the list of what is to be applied, or to strike out what was applied
in the meantime. -/
lemma suits_applied (hcall : call.isRollback = false) (hsorted : stage.todo.Pairwise (· < ·))
    (hsuits : stage.Suits ledger) (hallows : stage.Allows call .applied)
    (hclear : stage.phase = .locked →
      ledger.Clear (stage.todo.filter fun version => version ∉ ledger.keys)) :
    (stage.after runner call .applied (.ok ledger.toList)).todo.Pairwise (· < ·) ∧
      (stage.after runner call .applied (.ok ledger.toList)).Suits ledger := by
  rw [after]
  rcases hallows with hphase | hphase | hphase <;> rw [hphase]
  · refine ⟨?_, trivial⟩
    cases call with
    | migrate options =>
      have hpending : (runner.statusOf ledger.toList).pending.Pairwise (· < ·) :=
        runner.onDisk.sorted_keys.filter _
      dsimp only [RunnerCall.plan, Runner.wanted]
      split
      · exact hpending.filter _
      · exact hpending
    | rollback steps => cases hcall
  · exact ⟨hsorted.filter _, hclear hphase, by rintro _ ⟨⟩⟩
  · exact ⟨hsorted, hsuits⟩

/-- Whatever a migration does, it keeps to the order. -/
lemma turns_in_order {db db' : Db (D × History)} {a : c.Result} (hcall : call.isRollback = false)
    (hordered : db.Ordered) (hsorted : stage.todo.Pairwise (· < ·))
    (hsuits : stage.Suits db.ledger) (hallows : stage.Allows call c)
    (hclear : stage.isOpen = false → stage.phase = .locked → db.ledger.Clear
      (stage.todo.filter fun version => version ∉ db.ledger.keys))
    (hturns : db.Turns call db' c a) :
    db'.Ordered ∧ ((stage.after runner call c (.ok a)).isOver = false →
      (stage.after runner call c (.ok a)).todo.Pairwise (· < ·) ∧
        (stage.after runner call c (.ok a)).Suits db'.ledger) := by
  cases c with
  | applied =>
    obtain ⟨rfl, rfl⟩ := hturns
    refine ⟨hordered, fun _ => suits_applied hcall hsorted hsuits hallows fun hphase => ?_⟩
    exact hclear (by rw [isOpen, hphase]) hphase
  | acquire =>
    obtain rfl : db' = db := hturns
    have hafter : stage.after runner call .acquire (.ok a) = stage.goTo .locked := by
      rw [after, hcall]
      rfl
    rw [hafter]
    exact ⟨hordered, fun _ => ⟨hsorted, trivial⟩⟩
  | begin =>
    obtain rfl : db' = db := hturns
    rw [Suits, show stage.phase = .ready from hallows] at hsuits
    exact ⟨hordered, fun _ => ⟨hsorted, hsuits⟩⟩
  | commit =>
    obtain rfl : db' = db := hturns
    rw [Suits, show stage.phase = .settled from hallows] at hsuits
    obtain ⟨version, hat, hnewest, hclean⟩ := hsuits
    exact ⟨hordered, fun _ => ⟨(hat.tail hsorted).1, suits_advance hat hsorted hnewest hclean⟩⟩
  | rollback =>
    obtain rfl : db' = db := hturns
    exact ⟨hordered, by rintro ⟨⟩⟩
  | release =>
    obtain rfl : db' = db := hturns
    exact ⟨hordered, by rintro ⟨⟩⟩
  | insert row =>
    obtain ⟨hclean, hbelow⟩ := clear_of_insert hsuits hallows
    obtain ⟨-, rfl⟩ := hturns
    refine ⟨hordered.apply hbelow, fun _ => ⟨hsorted, row.version, hallows.2.2, ?_, ?_⟩⟩
    · exact Ledger.newest_insert hbelow
    · exact Ledger.cleanBut_insert hclean
  | finish version =>
    obtain rfl : db' = { db with ledger := db.ledger.finish version } := hturns
    exact ⟨hordered.of_keys_eq Ledger.keys_finish, fun _ => suits_finish hsorted hsuits hallows⟩
  | markFailed version statement failure =>
    obtain rfl : db' = { db with ledger := db.ledger.markFailed version statement failure } := hturns
    exact ⟨hordered.of_keys_eq Ledger.keys_markFailed, by rintro ⟨⟩⟩
  | forget version index =>
    obtain ⟨⟨last, hnewest, hne⟩, hsuits'⟩ := suits_forget hcall hsuits hallows
    rw [Db.Turns, hcall] at hturns
    obtain rfl : db' = { db with ledger := db.ledger.forget version } := hturns
    have hafter : stage.after runner call (.forget version index) (.ok a) = stage := by
      rw [after, hcall]
      rfl
    rw [hafter]
    exact ⟨hordered.forget hnewest hne, fun _ => ⟨hsorted, hsuits'⟩⟩
  | execute part version index sql =>
    obtain ⟨schema, rfl⟩ := hturns
    exact ⟨hordered.of_keys_eq rfl, fun _ => ⟨hsorted, hsuits⟩⟩
  | _ =>
    obtain rfl : db' = db := hturns
    exact ⟨hordered, fun _ => ⟨hsorted, hsuits⟩⟩

end Stage

lemma RunnerCall.InOrder.isRollback (h : call.InOrder) : call.isRollback = false := by
  cases call with
  | migrate options => rfl
  | rollback steps => exact h.elim

/-- A command is on record only as an application over a failure, or as a down statement with no
row. -/
lemma RunnerRecord.overDirty_note {record : RunnerRecord} {succeeded : Bool}
    (h : record.overDirty = false)
    (hclean : ∀ row, c = .insert row → ∀ row ∈ ledger.toList, row.dirty = false) :
    (record.note ledger c succeeded).overDirty = false := by
  cases c with
  | insert row =>
    have hany : ledger.toList.any (·.dirty) = false := by
      rw [List.any_eq_false]
      intro row' hrow'
      rw [hclean row rfl row' hrow']
      exact Bool.false_ne_true
    rw [note, h, hany, Bool.and_false]
    rfl
  | execute part version index sql => cases part <;> exact h
  | fetch part version index sql => cases part <;> exact h
  | _ => exact h

end

variable (runner : Runner)

/-- Migrations keep to the order of the versions as long as what they find under the lock is
clear. -/
def orderLaw : LedgerLaw D runner where
  Starts := RunnerCall.InOrder
  Sound record db := record.overDirty = false ∧ db.Ordered
  Suits _ _ stage db := stage.todo.Pairwise (· < ·) ∧ stage.Suits db.ledger
  Becomes _ _ := True
  Condition _ stage db := stage.phase = .locked → db.ledger.Clear
    (stage.todo.filter fun version => version ∉ db.ledger.keys)
  becomes_self _ := trivial
  becomes_trans _ _ := trivial
  suits_start _ := ⟨.nil, trivial⟩
  suits_waiting hout _ _ h := ⟨h.1, Stage.suits_outside hout⟩
  suits_failed _ := ⟨.nil, trivial⟩
  note := by
    intro record call stage db c succeeded _ hsound hsuits hallows _
    have hnote : (record.note db.ledger c succeeded).overDirty = false :=
      RunnerRecord.overDirty_note hsound.1 fun row hc =>
        (Stage.clear_of_insert hsuits.2 (hc ▸ hallows)).1
    exact ⟨fun db' hdb' => ⟨hnote, hdb'.2⟩, hsuits⟩
  turns := by
    intro record call stage db db' c a hstarts hsound hsuits hallows _ hcondition hturns
    obtain ⟨hordered, hafter⟩ := Stage.turns_in_order hstarts.isRollback hsound.2 hsuits.1 hsuits.2
      hallows hcondition hturns
    exact ⟨trivial, ⟨hsound.1, hordered⟩, hafter⟩
  released h _ := ⟨h.1, trivial⟩
  returns hsound _ _ := hsound

variable (engine : Engine D)

namespace RunnerFleet

variable {runner engine} {ι : Type} [DecidableEq ι]

/-- **Migrations that run side by side never step over a failure, as long as what each finds when
it reads the ledger again, under the lock, is clear**: no dirty row, and no row above a version
that it is still to apply. What the history lists as applied is what was committed; a row is in it
before the first statement of its version runs. -/
theorem stopsAtFailures_of_rereadsClear (schema : D) (ledger : Ledger)
    (events : List (RunnerEvent ι))
    (hcalls : ∀ e ∈ events, e.InOrder)
    (h : Machine.Meets (step runner engine) RereadsClear (init schema ledger) events) :
    Machine.Always (step runner engine) StopsAtFailures (init schema ledger) events := by
  have hsound : (orderLaw (D := D) runner).Sound .start ⟨(schema, .of ledger), ledger⟩ :=
    ⟨rfl, ledger.sorted_keys, fun version hversion => ⟨version, hversion, le_rfl⟩⟩
  have hrespects : Machine.Meets (step runner engine) (Respects ((orderLaw runner).toFleetLaw engine))
      (init schema ledger) events := by
    refine h.mono fun s e he hclear => ?_
    cases e with
    | start i call => exact hcalls _ he
    | run i fault =>
      refine fun p hp _ _ _ hstarts => ⟨fun _ _ => hclear p hp, fun _ _ hrollback => ?_⟩
      rw [RunnerCall.InOrder.isRollback hstarts] at hrollback
      cases hrollback
    | stop i =>
      intro p hp _ _ _ hstarts _ hrollback
      rw [RunnerCall.InOrder.isRollback hstarts] at hrollback
      cases hrollback
  exact (sound_always hsound hrespects).mono fun s hs => ⟨hs.1, hs.2.sorted⟩

/-- Two migrations, the first of them outside a transaction. -/
def twoSteps : Runner where
  backend := .sqlite
  files :=
    [{ id := { version := 1, name := "backfill" }, checksum := "a", up := ["UPDATE users"],
       transactional := false },
     { id := { version := 2, name := "constrain" }, checksum := "b", up := ["ALTER TABLE users"] }]
  rust := []

/-- Both processes list the two migrations, and the first applies them before the other gets the
lock. -/
def waiting : List (RunnerEvent Bool) :=
  [.start true (.migrate {}), .start false (.migrate {}), .run true none, .run true none,
   .run false none, .run false none] ++
  List.replicate 13 (.run true none) ++ List.replicate 3 (.run false none)

theorem stopsAtFailures_waiting : Machine.Always (step twoSteps Engine.script)
    StopsAtFailures (init [] .empty) waiting :=
  stopsAtFailures_of_rereadsClear _ _ _ (by decide) (by decide)

/-- Both processes list the two migrations. The first one's statement fails, and leaves a dirty
row; the other, which waited for the lock, applies the second migration over it. -/
def overtaking : List (RunnerEvent Bool) :=
  [.start true (.migrate {}), .start false (.migrate {}), .run true none, .run true none,
   .run false none, .run false none] ++
  [.run true none, .run true none, .run true none, .run true none,
   .run true (some (.other "out of disk")), .run true none, .run true none] ++
  [.run false none, .run false none, .run false none, .run false none, .run false none]

theorem stopsAtFailures_fails_for_overtaking :
    (∀ e ∈ overtaking, e.InOrder) ∧ ¬ Machine.Always (step twoSteps Engine.script)
      StopsAtFailures (init [] .empty) overtaking := by
  refine ⟨by decide, fun h => ?_⟩
  have hrun : ∃ s, Machine.exec (step twoSteps Engine.script) (init [] .empty) overtaking =
      some s ∧ s.record.overDirty = true := ⟨_, rfl, rfl⟩
  obtain ⟨s, hrun, hover⟩ := hrun
  rw [(h.of_exec hrun).1] at hover
  cases hover

end RunnerFleet

end Moso.Migrate
