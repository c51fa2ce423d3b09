import Moso.Migrate.Fleet.Transaction

/-!
# Rollbacks that undo the same migration

Whether migrations are undone once, and the newest first, when rollbacks and migrations run side
by side. A rollback lists what it is to undo before it waits for the lock, and does not look at
the ledger again.
-/

namespace Moso.Migrate

variable {D : Type}

/-- The calls that begin are rollbacks. -/
def RunnerEvent.RollsBack {ι : Type} : RunnerEvent ι → Prop
  | .start _ call => call.isRollback = true
  | _ => True

instance {ι : Type} : ∀ e : RunnerEvent ι, Decidable e.RollsBack
  | .start _ call => inferInstanceAs (Decidable (call.isRollback = true))
  | .run _ _ => isTrue trivial
  | .stop _ => isTrue trivial

/-- The process is about to remove the row of a version whose down section it has run. -/
def RunnerProcess.isRemoving (p : RunnerProcess D) : Bool :=
  p.call.isRollback && match p.rest with
    | .ask c _ => c.removes
    | .done _  => false

namespace RunnerFleet

variable {ι : Type}

/-- Down statements were executed only for versions with a row, and no down section was run twice
since its version was applied. -/
def UndoesOnce (s : RunnerFleet ι D) : Prop :=
  s.record.stray = false ∧ ∀ version, s.db.schema.2.downs version ≤ 1

/-- The migrations were undone from the newest on, each once, and no two calls returned the same
one. -/
def NewestFirst (ledger : Ledger) (s : RunnerFleet ι D) : Prop :=
  s.db.schema.2.undone ++ s.db.ledger.keys.reverse = ledger.keys.reverse ∧
    s.record.reported.Sublist s.db.schema.2.undone

/-- A rollback that gets the lock finds a row for everything that it listed; and one that runs a
down section outside a transaction gets to remove the row. -/
def UndoesCurrent (s : RunnerFleet ι D) : RunnerEvent ι → Prop
  | .start _ _ => True
  | .run i none => ∀ p ∈ s.running i, p.call.isRollback = true → p.stage.phase = .listed →
      ∀ version ∈ p.stage.todo, version ∈ s.db.ledger.keys
  | .run i (some _) | .stop i => ∀ p ∈ s.running i, p.isRemoving = true →
      p.working.isSome = true

instance (s : RunnerFleet ι D) : ∀ e, Decidable (s.UndoesCurrent e)
  | .start _ _ => isTrue trivial
  | .run i none => inferInstanceAs (Decidable (∀ p ∈ s.running i, _))
  | .run i (some _) => inferInstanceAs (Decidable (∀ p ∈ s.running i, _))
  | .stop i => inferInstanceAs (Decidable (∀ p ∈ s.running i, _))

end RunnerFleet

section

variable {runner : Runner} {call : RunnerCall} {stage : Stage} {c : DbCmd} {version : Version}
  {ledger : Ledger} {db db' : Db (D × History)} {record : RunnerRecord}

/-! ### Down sections -/

/-- No down section was run twice since its version was applied, and none of a version with a
row. -/
def Db.DownsOnce (db : Db (D × History)) : Prop :=
  ∀ version, db.schema.2.downs version ≤ 1 ∧
    (version ∈ db.ledger.keys → db.schema.2.downs version = 0)

namespace Stage

/-- What a rollback that is this far still has to do is in the ledger. -/
def Lists (stage : Stage) (ledger : Ledger) : Prop :=
  stage.todo.Nodup ∧ match stage.phase with
    | .locked => False
    | .ready | .opened => ∀ version ∈ stage.todo, version ∈ ledger.keys
    | .settled => ∀ version ∈ stage.todo.tail, version ∈ ledger.keys
    | _ => True

/-- The rollback goes on to the next version. -/
lemma lists_tail (hat : stage.At version) (hnodup : stage.todo.Nodup)
    (hkeys : ∀ k ∈ stage.todo, k ∈ ledger.keys) :
    stage.todo.tail.Nodup ∧ ∀ k ∈ stage.todo.tail, k ∈ (ledger.forget version).keys := by
  obtain ⟨rest, hrest⟩ := List.head?_eq_some_iff.mp hat
  rw [hrest] at hnodup hkeys ⊢
  obtain ⟨hnot, hnodup⟩ := List.nodup_cons.mp hnodup
  refine ⟨hnodup, fun k hk => Ledger.mem_keys_forget.mpr ⟨hkeys k (List.mem_cons_of_mem _ hk), ?_⟩⟩
  rintro rfl
  exact hnot hk

end Stage

namespace Db.DownsOnce

variable {schema : D}

lemma of_keys (h : db.DownsOnce) (hkeys : ∀ k ∈ ledger.keys, k ∈ db.ledger.keys) :
    DownsOnce { schema := (schema, db.schema.2), ledger := ledger } :=
  fun version => ⟨(h version).1, fun hmem => (h version).2 (hkeys version hmem)⟩

/-- A version that is applied starts anew. -/
lemma apply (h : db.DownsOnce) (row : AppliedMigration) :
    DownsOnce { schema := (schema, db.schema.2.apply row.version),
                ledger := db.ledger.insert row } := by
  intro version
  dsimp only [History.apply]
  by_cases hversion : version = row.version
  · subst hversion
    rw [Function.update_self]
    exact ⟨Nat.zero_le 1, fun _ => rfl⟩
  · rw [Function.update_of_ne hversion]
    refine ⟨(h version).1, fun hmem => (h version).2 ?_⟩
    exact (Keyed.mem_keys_insert.mp hmem).resolve_left hversion

/-- A version that has a row is undone. -/
lemma undo (h : db.DownsOnce) (hmem : version ∈ db.ledger.keys) :
    DownsOnce { schema := (schema, (db.schema.2.runDown version).undo version),
                ledger := db.ledger.forget version } := by
  intro k
  dsimp only [History.undo, History.runDown]
  by_cases hk : k = version
  · subst hk
    rw [Function.update_self, (h k).2 hmem]
    exact ⟨le_rfl, fun hin => absurd rfl (Ledger.mem_keys_forget.mp hin).2⟩
  · rw [Function.update_of_ne hk]
    exact ⟨(h k).1, fun hin => (h k).2 (Ledger.mem_keys_forget.mp hin).1⟩

end Db.DownsOnce

/-- A statement is on record as a stray one only when its version has no row. -/
lemma RunnerRecord.stray_note {succeeded : Bool} (h : record.stray = false)
    (hrow : ∀ version, stage.Executes call version .down → version ∈ ledger.keys)
    (hallows : stage.Allows call c) : (record.note ledger c succeeded).stray = false := by
  have hdown : ∀ version, stage.Executes call version .down →
      (record.stray || decide (version ∉ ledger.keys)) = false := by
    intro version hexecutes
    rw [h, Bool.false_or, decide_eq_false_iff_not, not_not]
    exact hrow version hexecutes
  cases c with
  | execute part version index sql =>
    cases part with
    | up => exact h
    | down => exact hdown version hallows
  | fetch part version index sql =>
    cases part with
    | up => exact h
    | down => exact hdown version hallows
  | _ => exact h

namespace Stage

variable (runner) in
/-- A rollback lists versions that have a row, each once. -/
lemma nodup_plan {steps : ℕ} : ((RunnerCall.rollback steps).plan runner ledger.toList).Nodup := by
  have hreverse : (ledger.toList.reverse.take steps).map (·.version) =
      ledger.keys.reverse.take steps := by
    rw [List.map_take, List.map_reverse]
    rfl
  rw [RunnerCall.plan, hreverse]
  exact (List.take_sublist _ _).nodup (List.nodup_reverse.mpr ledger.nodup_keys)

/-- The ledger is read for the list of what is to be undone. -/
lemma lists_applied (hcall : call.isRollback = true) (hlists : stage.Lists ledger)
    (hallows : stage.Allows call .applied) :
    (stage.after runner call .applied (.ok ledger.toList)).Lists ledger := by
  rw [after]
  rcases hallows with hphase | hphase | hphase <;> rw [hphase]
  · cases call with
    | migrate options => cases hcall
    | rollback steps => exact ⟨nodup_plan runner, trivial⟩
  · rw [Lists, hphase] at hlists
    exact hlists.2.elim
  · exact hlists

variable (runner) in
/-- The row of the version goes, and the rollback goes on. -/
lemma lists_forget {index : ℕ} (hcall : call.isRollback = true) (hlists : stage.Lists ledger)
    (hallows : stage.Allows call (.forget version index)) :
    version ∈ ledger.keys ∧
      (stage.after runner call (.forget version index) (.ok ())).Lists (ledger.forget version) := by
  rw [Allows, if_pos hcall] at hallows
  obtain ⟨hphase, hat⟩ := hallows
  have hkeys : ∀ k ∈ stage.todo, k ∈ ledger.keys := by
    rcases hphase with hphase | hphase <;> rw [Lists, hphase] at hlists <;> exact hlists.2
  refine ⟨hkeys version (List.mem_of_mem_head? hat), ?_⟩
  obtain ⟨htail, htailKeys⟩ := lists_tail hat hlists.1 hkeys
  rw [after, hcall]
  rcases hphase with hphase | hphase <;> rw [hphase]
  · exact ⟨htail, htailKeys⟩
  · exact ⟨hlists.1, htailKeys⟩

/-- Whatever a call does, no down section is run twice. -/
lemma turns_current {db db' : Db (D × History)} {a : c.Result} (hdowns : db.DownsOnce)
    (hlists : call.isRollback = true → stage.Lists db.ledger) (hallows : stage.Allows call c)
    (hcurrent : stage.isOpen = false → call.isRollback = true → stage.phase = .listed →
      ∀ version ∈ stage.todo, version ∈ db.ledger.keys)
    (hturns : db.Turns call db' c a) :
    db'.DownsOnce ∧ ((stage.after runner call c (.ok a)).isOver = false →
      call.isRollback = true → (stage.after runner call c (.ok a)).Lists db'.ledger) := by
  cases c with
  | applied =>
    obtain ⟨rfl, rfl⟩ := hturns
    exact ⟨hdowns, fun _ hcall => lists_applied hcall (hlists hcall) hallows⟩
  | acquire =>
    obtain rfl : db' = db := hturns
    have hphase : stage.phase = .listed := hallows
    have hopen : stage.isOpen = false := by rw [isOpen, hphase]
    refine ⟨hdowns, fun _ hcall => ?_⟩
    have hafter : stage.after runner call .acquire (.ok a) = stage.goTo .ready := by
      rw [after, hcall]
      rfl
    rw [hafter]
    exact ⟨(hlists hcall).1, hcurrent hopen hcall hphase⟩
  | begin =>
    obtain rfl : db' = db := hturns
    refine ⟨hdowns, fun _ hcall => ?_⟩
    have hready := hlists hcall
    rw [Lists, show stage.phase = .ready from hallows] at hready
    exact hready
  | commit =>
    obtain rfl : db' = db := hturns
    refine ⟨hdowns, fun _ hcall => ?_⟩
    have hsettled := hlists hcall
    rw [Lists, show stage.phase = .settled from hallows] at hsettled
    exact ⟨(List.tail_sublist _).nodup hsettled.1, hsettled.2⟩
  | rollback =>
    obtain rfl : db' = db := hturns
    exact ⟨hdowns, by rintro ⟨⟩⟩
  | release =>
    obtain rfl : db' = db := hturns
    exact ⟨hdowns, by rintro ⟨⟩⟩
  | insert row =>
    obtain ⟨-, rfl⟩ := hturns
    refine ⟨hdowns.apply row, fun _ hcall => ?_⟩
    rw [hallows.1] at hcall
    cases hcall
  | finish version =>
    obtain rfl : db' = { db with ledger := db.ledger.finish version } := hturns
    refine ⟨hdowns.of_keys fun k hk => (Ledger.keys_finish ▸ hk : k ∈ db.ledger.keys),
      fun _ hcall => ?_⟩
    rw [hallows.1] at hcall
    cases hcall
  | markFailed version statement failure =>
    obtain rfl : db' = { db with ledger := db.ledger.markFailed version statement failure } := hturns
    refine ⟨hdowns.of_keys fun k hk => (Ledger.keys_markFailed ▸ hk : k ∈ db.ledger.keys), ?_⟩
    rintro ⟨⟩
  | forget version index =>
    cases hcall : call.isRollback with
    | true =>
      obtain ⟨hmem, hafter⟩ := lists_forget runner hcall (hlists hcall) hallows
      rw [Db.Turns, if_pos hcall] at hturns
      subst hturns
      exact ⟨hdowns.undo hmem, fun _ _ => hafter⟩
    | false =>
      rw [Db.Turns, hcall] at hturns
      obtain rfl : db' = { db with ledger := db.ledger.forget version } := hturns
      refine ⟨hdowns.of_keys fun k hk => (Ledger.mem_keys_forget.mp hk).1, fun _ hrollback => ?_⟩
      cases hrollback
  | execute part version index sql =>
    obtain ⟨schema, rfl⟩ := hturns
    exact ⟨hdowns.of_keys fun k hk => hk, fun _ => hlists⟩
  | _ =>
    obtain rfl : db' = db := hturns
    exact ⟨hdowns, fun _ => hlists⟩

/-- A down statement is that of a version with a row. -/
lemma Lists.mem_of_executes (hlists : call.isRollback = true → stage.Lists ledger)
    (hexecutes : stage.Executes call version .down) : version ∈ ledger.keys := by
  obtain ⟨hcall, hphase, hat⟩ := hexecutes
  have hlists := hlists hcall
  have hmem : version ∈ stage.todo := List.mem_of_mem_head? hat
  rcases hphase with hphase | hphase <;> rw [Lists, hphase] at hlists <;>
    exact hlists.2 version hmem

/-! ### Rollbacks on their own -/

/-- What a rollback that is this far still has to do is the newest that there is, and what it has
done goes with what calls have returned. -/
def Newest (stage : Stage) (record : RunnerRecord) (all : List Version)
    (db : Db (D × History)) : Prop :=
  match stage.phase with
  | .begun => True
  | .listed => stage.through = [] ∧
      ∃ gone, gone <+: db.schema.2.undone ∧ gone ++ stage.todo <+: all
  | .ready | .opened => stage.todo <+: db.ledger.keys.reverse ∧
      (record.reported ++ stage.through).Sublist db.schema.2.undone
  | .settled => stage.todo.tail <+: db.ledger.keys.reverse ∧
      (record.reported ++ (stage.through ++ stage.todo.take 1)).Sublist db.schema.2.undone
  | .released => (record.reported ++ stage.through).Sublist db.schema.2.undone
  | .locked | .inserted _ => False
  | .failed => True

variable {all : List Version}

/-- A list that goes on from what was undone once, and of which nothing was undone since, is what
comes next. -/
lemma prefix_of_mem {gone undone todo rest : List Version} (hnodup : (undone ++ rest).Nodup)
    (hgone : gone <+: undone) (htodo : gone ++ todo <+: undone ++ rest)
    (hmem : ∀ version ∈ todo, version ∈ rest) : todo <+: rest := by
  obtain ⟨since, rfl⟩ := hgone
  rw [List.append_assoc] at htodo hnodup
  have hnext : todo <+: since ++ rest := (List.prefix_append_right_inj gone).mp htodo
  cases since with
  | nil => exact hnext
  | cons k since =>
    cases todo with
    | nil => exact List.nil_prefix
    | cons version todo =>
      obtain ⟨rfl, -⟩ := List.cons_prefix_cons.mp hnext
      have hdisjoint := List.disjoint_of_nodup_append (List.nodup_append.mp hnodup).2.1
      exact absurd (hmem version List.mem_cons_self) (hdisjoint List.mem_cons_self)

/-- The newest row goes. -/
lemma keys_forget_newest {todo : List Version} (h : version :: todo <+: ledger.keys.reverse) :
    ledger.keys.reverse = version :: (ledger.forget version).keys.reverse ∧
      todo <+: (ledger.forget version).keys.reverse := by
  obtain ⟨rest, hrest⟩ := h
  have hnodup : (version :: (todo ++ rest)).Nodup := by
    rw [← List.cons_append, hrest]
    exact List.nodup_reverse.mpr ledger.nodup_keys
  have hforget : (ledger.forget version).keys.reverse = todo ++ rest := by
    rw [Ledger.forget, Keyed.keys_erase, ← List.filter_reverse, ← hrest, List.cons_append,
      List.filter_cons_of_neg (by simp)]
    apply List.filter_eq_self.mpr
    intro k hk
    rw [decide_eq_true_iff]
    rintro rfl
    exact (List.nodup_cons.mp hnodup).1 hk
  rw [hforget, ← hrest]
  exact ⟨rfl, List.prefix_append _ _⟩

end Stage

/-- What was undone and what still has a row make up all that there was at the start. -/
def Db.Accounts (db : Db (D × History)) (record : RunnerRecord) (all : List Version) : Prop :=
  db.schema.2.undone ++ db.ledger.keys.reverse = all ∧
    record.reported.Sublist db.schema.2.undone

namespace Stage

variable {all : List Version}

/-- The rollback lists the newest versions that there are. -/
lemma newest_applied (hcall : call.isRollback = true) (haccounts : db.Accounts record all)
    (hnewest : stage.Newest record all db) (hallows : stage.Allows call .applied) :
    (stage.after runner call .applied (.ok db.ledger.toList)).Newest record all db := by
  rw [after]
  rcases hallows with hphase | hphase | hphase <;> rw [hphase]
  · cases call with
    | migrate options => cases hcall
    | rollback steps =>
      have hplan : (RunnerCall.rollback steps).plan runner db.ledger.toList =
          db.ledger.keys.reverse.take steps := by
        rw [RunnerCall.plan, List.map_take, List.map_reverse]
        rfl
      refine ⟨rfl, db.schema.2.undone, List.prefix_rfl, ?_⟩
      rw [hplan, ← haccounts.1]
      exact (List.prefix_append_right_inj _).mpr (List.take_prefix _ _)
  · rw [Newest, hphase] at hnewest
    exact hnewest.elim
  · exact hnewest

/-- The rollback has got the lock, and what it listed is still there. -/
lemma newest_acquire (hnodup : all.Nodup) (haccounts : db.Accounts record all)
    (hnewest : stage.Newest record all db) (hphase : stage.phase = .listed)
    (hmem : ∀ version ∈ stage.todo, version ∈ db.ledger.keys) :
    (stage.goTo .ready).Newest record all db := by
  rw [Newest, hphase] at hnewest
  obtain ⟨hthrough, gone, hgone, htodo⟩ := hnewest
  rw [← haccounts.1] at hnodup htodo
  refine ⟨prefix_of_mem hnodup hgone htodo fun k hk => List.mem_reverse.mpr (hmem k hk), ?_⟩
  dsimp only [goTo]
  rw [hthrough, List.append_nil]
  exact haccounts.2

variable (runner) in
/-- The newest row goes, and the rollback goes on. -/
lemma newest_forget {index : ℕ} (hcall : call.isRollback = true)
    (haccounts : db.Accounts record all) (hnewest : stage.Newest record all db)
    (hallows : stage.Allows call (.forget version index))
    (hturns : db.Turns call db' (.forget version index) ()) :
    db.schema.2.undone <+: db'.schema.2.undone ∧ db'.Accounts record all ∧
      (stage.after runner call (.forget version index) (.ok ())).Newest record all db' := by
  rw [Allows, if_pos hcall] at hallows
  obtain ⟨hphase, hat⟩ := hallows
  obtain ⟨rest, hrest⟩ := List.head?_eq_some_iff.mp hat
  have hready : stage.todo <+: db.ledger.keys.reverse ∧
      (record.reported ++ stage.through).Sublist db.schema.2.undone := by
    rcases hphase with hphase | hphase <;> rw [Newest, hphase] at hnewest <;> exact hnewest
  obtain ⟨htodo, hundone⟩ := hready
  rw [hrest] at htodo
  obtain ⟨hkeys, hnext⟩ := keys_forget_newest htodo
  rw [Db.Turns, if_pos hcall] at hturns
  subst hturns
  have hthrough : (record.reported ++ (stage.through ++ [version])).Sublist
      (db.schema.2.undone ++ [version]) := by
    rw [← List.append_assoc]
    exact hundone.append (List.Sublist.refl _)
  refine ⟨List.prefix_append _ _, ⟨?_, ?_⟩, ?_⟩
  · rw [← haccounts.1, hkeys]
    exact List.append_assoc _ _ _
  · exact haccounts.2.trans (List.sublist_append_left _ _)
  · rw [after, hcall]
    rcases hphase with hphase | hphase <;> rw [hphase]
    · have hadvance : stage.advance = ⟨.ready, stage.through ++ [version], rest⟩ := by
        rw [advance, hrest]
        rfl
      exact hadvance ▸ ⟨hnext, hthrough⟩
    · have hsettled : stage.goTo .settled = ⟨.settled, stage.through, version :: rest⟩ := by
        rw [goTo, hrest]
      exact hsettled ▸ ⟨hnext, hthrough⟩

/-- Whatever a rollback does, the newest version goes first. -/
lemma turns_newest {a : c.Result} (hcall : call.isRollback = true) (hnodup : all.Nodup)
    (haccounts : db.Accounts record all) (hnewest : stage.Newest record all db)
    (hallows : stage.Allows call c)
    (hcurrent : stage.isOpen = false → stage.phase = .listed →
      ∀ version ∈ stage.todo, version ∈ db.ledger.keys)
    (hturns : db.Turns call db' c a) :
    db.schema.2.undone <+: db'.schema.2.undone ∧ db'.Accounts record all ∧
      ((stage.after runner call c (.ok a)).isOver = false →
        (stage.after runner call c (.ok a)).Newest record all db') := by
  have hmigrates : ¬ call.isRollback = false := by
    rw [hcall]
    exact Bool.noConfusion
  cases c with
  | applied =>
    obtain ⟨rfl, rfl⟩ := hturns
    exact ⟨List.prefix_rfl, haccounts, fun _ => newest_applied hcall haccounts hnewest hallows⟩
  | acquire =>
    obtain rfl : db' = db := hturns
    have hphase : stage.phase = .listed := hallows
    have hopen : stage.isOpen = false := by rw [isOpen, hphase]
    have hafter : stage.after runner call .acquire (.ok a) = stage.goTo .ready := by
      rw [after, hcall]
      rfl
    rw [hafter]
    exact ⟨List.prefix_rfl, haccounts,
      fun _ => newest_acquire hnodup haccounts hnewest hphase (hcurrent hopen hphase)⟩
  | begin =>
    obtain rfl : db' = db := hturns
    rw [Newest, show stage.phase = .ready from hallows] at hnewest
    exact ⟨List.prefix_rfl, haccounts, fun _ => hnewest⟩
  | commit =>
    obtain rfl : db' = db := hturns
    rw [Newest, show stage.phase = .settled from hallows] at hnewest
    exact ⟨List.prefix_rfl, haccounts, fun _ => hnewest⟩
  | rollback =>
    obtain rfl : db' = db := hturns
    exact ⟨List.prefix_rfl, haccounts, by rintro ⟨⟩⟩
  | release =>
    obtain rfl : db' = db := hturns
    exact ⟨List.prefix_rfl, haccounts, by rintro ⟨⟩⟩
  | insert row => exact absurd hallows.1 hmigrates
  | finish version => exact absurd hallows.1 hmigrates
  | markFailed version statement failure => exact absurd hallows.1 hmigrates
  | forget version index =>
    obtain ⟨hundone, haccounts', hafter⟩ := newest_forget runner hcall haccounts hnewest hallows hturns
    exact ⟨hundone, haccounts', fun _ => hafter⟩
  | execute part version index sql =>
    obtain ⟨schema, rfl⟩ := hturns
    exact ⟨List.prefix_rfl, haccounts, fun _ => hnewest⟩
  | _ =>
    obtain rfl : db' = db := hturns
    exact ⟨List.prefix_rfl, haccounts, fun _ => hnewest⟩

end Stage

end

variable (runner : Runner)

/-- No down section is run twice as long as rollbacks find what they listed. -/
def undoLaw : LedgerLaw D runner where
  Starts _ := True
  Sound record db := record.stray = false ∧ db.DownsOnce
  Suits _ call stage db := call.isRollback = true → stage.Lists db.ledger
  Becomes _ _ := True
  Condition call stage db := call.isRollback = true → stage.phase = .listed →
    ∀ version ∈ stage.todo, version ∈ db.ledger.keys
  becomes_self _ := trivial
  becomes_trans _ _ := trivial
  suits_start _ _ := ⟨.nil, trivial⟩
  suits_waiting := by
    intro record record' call stage db db' hout _ _ h hcall
    refine ⟨(h hcall).1, ?_⟩
    rw [Stage.holds] at hout
    cases hphase : stage.phase <;> rw [hphase] at hout <;> trivial
  suits_failed _ _ := ⟨.nil, trivial⟩
  note := by
    intro record call stage db c succeeded _ hsound hsuits hallows _
    have hnote : (record.note db.ledger c succeeded).stray = false :=
      RunnerRecord.stray_note hsound.1
        (fun version => Stage.Lists.mem_of_executes hsuits) hallows
    exact ⟨fun db' hdb' => ⟨hnote, hdb'.2⟩, hsuits⟩
  turns := by
    intro record call stage db db' c a _ hsound hsuits hallows _ hcondition hturns
    obtain ⟨hdowns, hafter⟩ := Stage.turns_current hsound.2 hsuits hallows hcondition hturns
    exact ⟨trivial, ⟨hsound.1, hdowns⟩, hafter⟩
  released h _ hcall := ⟨(h hcall).1, trivial⟩
  returns hsound _ _ := hsound

/-- Rollbacks on their own undo the newest versions, as long as they find what they listed. -/
def newestLaw (ledger : Ledger) : LedgerLaw D runner where
  Starts call := call.isRollback = true
  Sound record db := db.Accounts record ledger.keys.reverse
  Suits record _ stage db := stage.Newest record ledger.keys.reverse db
  Becomes db db' := db.schema.2.undone <+: db'.schema.2.undone
  Condition _ stage db := stage.phase = .listed →
    ∀ version ∈ stage.todo, version ∈ db.ledger.keys
  becomes_self _ := List.prefix_rfl
  becomes_trans := List.IsPrefix.trans
  suits_start _ := trivial
  suits_waiting := by
    intro record record' call stage db db' hout hover hbecomes h
    rw [Stage.holds] at hout
    rw [Stage.isOver] at hover
    rw [Stage.Newest] at h ⊢
    cases hphase : stage.phase <;> rw [hphase] at hout hover h <;> try trivial
    obtain ⟨hthrough, gone, hgone, htodo⟩ := h
    exact ⟨hthrough, gone, hgone.trans hbecomes, htodo⟩
  suits_failed h := by
    have hthrough : ∀ record : RunnerRecord,
        record.reported ++ (Stage.failed.goTo .released).through = record.reported :=
      fun record => List.append_nil _
    rw [Stage.Newest, hthrough]
    exact h.2
  note := by
    intro record call stage db c succeeded _ _ hsuits _ _
    have hreported : (record.note db.ledger c succeeded).reported = record.reported := by
      cases c with
      | execute part version index sql => cases part <;> rfl
      | fetch part version index sql => cases part <;> rfl
      | _ => rfl
    rw [Stage.Newest, hreported]
    exact ⟨fun db' hdb' => ⟨hdb'.1, hreported ▸ hdb'.2⟩, hsuits⟩
  turns hstarts haccounts hsuits hallows _ hcondition hturns :=
    Stage.turns_newest hstarts (List.nodup_reverse.mpr ledger.nodup_keys) haccounts hsuits hallows
      hcondition hturns
  released := by
    intro record call stage db h hphase
    rw [Stage.Newest, hphase] at h
    exact h.2
  returns := by
    intro record call stage db hsound h hphase
    rw [Stage.Newest, hphase] at h
    exact ⟨hsound.1, h⟩

variable (engine : Engine D)

namespace RunnerFleet

variable {runner engine} {ι : Type}

/-- The condition is that of the laws. -/
lemma UndoesCurrent.respects {law : LedgerLaw D runner} {s : RunnerFleet ι D} {e : RunnerEvent ι}
    (h : s.UndoesCurrent e) (hstarts : ∀ i call, e = .start i call → law.Starts call)
    (hcondition : ∀ call stage db, law.Starts call → (call.isRollback = true →
      stage.phase = .listed → ∀ version ∈ stage.todo, version ∈ db.ledger.keys) →
        law.Condition call stage db) : s.Respects (law.toFleetLaw engine) e := by
  have hremoving : ∀ {p : RunnerProcess D} {c next}, p.rest = .ask c next → c.removes = true →
      p.call.isRollback = true → p.isRemoving = true := by
    intro p c next hrest hremoves hrollback
    rw [RunnerProcess.isRemoving, hrollback, hrest]
    exact hremoves
  cases e with
  | start i call => exact hstarts i call rfl
  | stop i =>
    exact fun p hp c next hrest _ hremoves hrollback => h p hp (hremoving hrest hremoves hrollback)
  | run i fault =>
    intro p hp c next hrest hlaw
    cases fault with
    | none => exact ⟨fun _ _ => hcondition _ _ _ hlaw (h p hp), nofun⟩
    | some error =>
      exact ⟨nofun, fun _ hremoves hrollback => h p hp (hremoving hrest hremoves hrollback)⟩

variable [DecidableEq ι]

/-- **Rollbacks and migrations that run side by side undo each application once, as long as a
rollback that gets the lock still finds the rows that it listed before**, and one that runs a down
section outside a transaction gets to remove the row. Rollbacks on their own then undo the newest
migrations, and no two of them return the same one. -/
theorem undoesOnce_of_current (schema : D) (ledger : Ledger) (events : List (RunnerEvent ι))
    (h : Machine.Meets (step runner engine) UndoesCurrent (init schema ledger) events) :
    Machine.Always (step runner engine) UndoesOnce (init schema ledger) events ∧
      ((∀ e ∈ events, e.RollsBack) → Machine.Always (step runner engine) (NewestFirst ledger)
        (init schema ledger) events) := by
  constructor
  · have hsound : (undoLaw (D := D) runner).Sound .start ⟨(schema, .of ledger), ledger⟩ :=
      ⟨rfl, fun _ => ⟨Nat.zero_le 1, fun _ => rfl⟩⟩
    have hrespects : Machine.Meets (step runner engine)
        (Respects ((undoLaw runner).toFleetLaw engine)) (init schema ledger) events :=
      h.mono fun s e _ he => he.respects (fun _ _ _ => trivial) fun _ _ _ _ hcurrent => hcurrent
    exact (sound_always hsound hrespects).mono fun s hs => ⟨hs.1, fun version => (hs.2 version).1⟩
  · intro hcalls
    have hsound : (newestLaw (D := D) runner ledger).Sound .start ⟨(schema, .of ledger), ledger⟩ :=
      ⟨rfl, List.nil_sublist _⟩
    have hrespects : Machine.Meets (step runner engine)
        (Respects ((newestLaw runner ledger).toFleetLaw engine)) (init schema ledger) events := by
      refine h.mono fun s e hmem he => he.respects ?_ fun call stage db hrollback hcurrent =>
        hcurrent hrollback
      rintro i call rfl
      exact hcalls _ hmem
    exact sound_always hsound hrespects

/-- Two migrations that can be undone. -/
def reversible : Runner where
  backend := .postgres
  files :=
    [{ id := { version := 1, name := "users" }, checksum := "a", up := ["CREATE TABLE users"],
       reversible := true, down := ["DROP TABLE users"] },
     { id := { version := 2, name := "posts" }, checksum := "b", up := ["CREATE TABLE posts"],
       reversible := true, down := ["DROP TABLE posts"] }]
  rust := []

def bothApplied : Ledger :=
  (Keyed.empty.insert (AppliedMigration.begin 1 "users" "a" 1).finish).insert
    (AppliedMigration.begin 2 "posts" "b" 1).finish

/-- The second rollback begins when the first is over. -/
def inTurn : List (RunnerEvent Bool) :=
  [.start true (.rollback 1)] ++ List.replicate 10 (.run true none) ++
  [.start false (.rollback 1)] ++ List.replicate 10 (.run false none)

theorem undoesOnce_inTurn :
    Machine.Always (step reversible Engine.script) UndoesOnce (init [] bothApplied) inTurn ∧
      ((∀ e ∈ inTurn, e.RollsBack) → Machine.Always (step reversible Engine.script)
        (NewestFirst bothApplied) (init [] bothApplied) inTurn) :=
  undoesOnce_of_current _ _ _ (by decide)

/-- Both rollbacks list the newest migration, and the second one gets the lock when it is
undone. -/
def sideBySide : List (RunnerEvent Bool) :=
  [.start true (.rollback 1), .start false (.rollback 1), .run true none, .run true none,
   .run false none, .run false none] ++
  List.replicate 8 (.run true none) ++ List.replicate 8 (.run false none)

theorem undoesOnce_fails_sideBySide :
    (∀ e ∈ sideBySide, e.RollsBack) ∧
      ¬ Machine.Always (step reversible Engine.script) UndoesOnce (init [] bothApplied)
        sideBySide ∧
      ¬ Machine.Always (step reversible Engine.script) (NewestFirst bothApplied)
        (init [] bothApplied) sideBySide := by
  have hrun : ∃ s, Machine.exec (step reversible Engine.script) (init [] bothApplied) sideBySide =
      some s ∧ s.db.schema.2.downs 2 = 2 ∧ s.record.reported = [2, 2] ∧
        s.db.schema.2.undone ++ s.db.ledger.keys.reverse = [2, 2, 1] := ⟨_, rfl, rfl, rfl, rfl⟩
  obtain ⟨s, hrun, hdowns, -, hundone⟩ := hrun
  refine ⟨by decide, fun h => ?_, fun h => ?_⟩
  · have hle := (h.of_exec hrun).2 2
    omega
  · have hall := (h.of_exec hrun).1
    rw [hundone] at hall
    cases hall

end RunnerFleet

end Moso.Migrate
