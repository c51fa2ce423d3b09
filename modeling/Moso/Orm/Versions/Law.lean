import Moso.Orm.Versions.Writes

/-!
# No lost update

In runs whose writes all move the version on, a version that a client remembers tells whether the
row was written since, and a save that expects an old one is refused.
-/

namespace Moso.Orm

open Versions

variable {V : Type} [LinearOrder V] {S : Versioned V}

namespace VersionRun

/-- The write takes no way around the version: it assigns neither the version nor the key itself, a
save has something to set and is not run by `fetchAll`, no upsert rewrites a row, and no row is put
back under a key that was removed. -/
def MovesVersion (S : Versioned V) (s : VersionRun V) : VersionCall V → Prop
  | .read .. => True
  | .save _ _ write _ =>
    write.LeavesVersion S ∧ write.writes = true ∧ write.running ≠ .fetchAll
  | .rewrite write _ => write.LeavesVersion S
  | .insert insert moment =>
    (∀ conflict ∈ insert.conflict, conflict.action.writes = true →
      ∀ clash ∈ S.server.arbiter S.E.table conflict.target,
        (∀ new ∈ insert.newRows moment, ∀ old ∈ s.db S.E.table, clash new old = false) ∧
          (insert.newRows moment).Pairwise fun new later => clash later new = false) ∧
    ∀ new ∈ insert.newRows moment, (∃ p ∈ s.log.held, p.1 = S.E.keyOf new) →
      ∃ old ∈ s.db S.E.table, S.E.keyOf old = S.E.keyOf new

instance decidableMovesVersion (S : Versioned V) (s : VersionRun V) :
    ∀ call, Decidable (MovesVersion S s call)
  | .read .. => isTrue trivial
  | .save _ _ write _ =>
    inferInstanceAs (Decidable (write.LeavesVersion S ∧ write.writes = true ∧
      write.running ≠ .fetchAll))
  | .rewrite write _ => inferInstanceAs (Decidable (write.LeavesVersion S))
  | .insert insert moment =>
    inferInstanceAs (Decidable ((∀ conflict ∈ insert.conflict, conflict.action.writes = true →
      ∀ clash ∈ S.server.arbiter S.E.table conflict.target,
        (∀ new ∈ insert.newRows moment, ∀ old ∈ s.db S.E.table, clash new old = false) ∧
          (insert.newRows moment).Pairwise fun new later => clash later new = false) ∧
      ∀ new ∈ insert.newRows moment, (∃ p ∈ s.log.held, p.1 = S.E.keyOf new) →
        ∃ old ∈ s.db S.E.table, S.E.keyOf old = S.E.keyOf new))

/-- What holds of every state reached by such writes. -/
structure Kept (S : Versioned V) (s : VersionRun V) : Prop where
  admitted : S.server.admits s.db = true
  law : Law (versionAt S s.db) s.log
  reused : s.reused = []
  lost : s.lost = []

variable {s : VersionRun V} {after : Database V}

lemma versionAt_keyOf (h : Kept S s) {row : Row V} (hrow : row ∈ s.db S.E.table) :
    versionAt S s.db (S.E.keyOf row) = row S.version :=
  versionAt_of_lookup (lookup_keyOf h.admitted hrow)

/-! ### One write -/

/-- What a write has to do to the rows to keep the law. -/
structure Sound (S : Versioned V) (s : VersionRun V) (after : Database V) : Prop where
  admitted : S.server.admits after = true
  advances : Advances s.log (touched S s.db after) (versionAt S s.db) (versionAt S after)

lemma sound_self (h : Kept S s) : Sound S s s.db := by
  refine ⟨h.admitted, fun k _ => rfl, fun k hk => ?_⟩
  rw [touched_self] at hk
  cases hk

lemma Kept.wrote (h : Kept S s) (hsound : Sound S s after) : Kept S (s.wrote S after) where
  admitted := hsound.admitted
  law := h.law.write hsound.advances
  reused := by
    rw [VersionRun.wrote, h.reused, List.nil_append, List.filter_eq_nil_iff]
    intro k hk
    rw [Option.any_eq_true_iff_get]
    rintro ⟨hsome, hheld⟩
    have hlt := hsound.advances.above k hk _ (Option.some_get hsome).symm _ (of_decide_eq_true hheld)
    exact lt_irrefl _ hlt
  lost := h.lost

lemma advances_same {k : Key V} (hk : k ∉ touched S s.db after) :
    versionAt S after k = versionAt S s.db k :=
  versionAt_of_cells (not_not.mp fun hne => hk (mem_touched.2 hne))

lemma sound_of_run (h : Kept S s) {write : Rewriting V} (hleaves : write.LeavesVersion S)
    {moment : Moment V} {w : WriteStatement V} {rows : List (Row V)}
    (hw : write.statement S.E = .ok w)
    (hrun : w.run S.server moment s.db = some (after, rows)) : Sound S s after := by
  obtain ⟨hadmits, hmoved⟩ := Rewriting.moved_of_run h.admitted hleaves hw hrun
  refine ⟨hadmits, fun k => advances_same, fun k hk v hv w hw => ?_⟩
  rcases hmoved k with hsame | ⟨row, hrow, rfl, -, hlater⟩
  · exact absurd hsame (mem_touched.1 hk)
  · obtain ⟨u, hu, huv⟩ := hlater v hv
    have hcurrent : versionAt S s.db (S.E.keyOf row) = some u := (versionAt_keyOf h hrow).trans hu
    exact (h.law.newest _ u hcurrent w hw).trans_lt huv

/-- A rewriting does nothing, or it is a statement that ran. -/
lemma run_cases {write : Rewriting V} {moment : Moment V} (db : Database V) :
    (write.run S.server moment S.E db).1 = db ∨
      ∃ w rows, write.statement S.E = .ok w ∧ w.run S.server moment db =
        some ((write.run S.server moment S.E db).1, rows) := by
  have hexecute : ∀ statement : Except Error (WriteStatement V),
      (WriteStatement.execute S.server moment db statement).1 = db ∨
        ∃ w rows, statement = .ok w ∧ w.run S.server moment db =
          some ((WriteStatement.execute S.server moment db statement).1, rows) := by
    intro statement
    cases statement with
    | error e => exact .inl rfl
    | ok w =>
      cases hrun : w.run S.server moment db with
      | none =>
        simp only [WriteStatement.execute, hrun, true_or]
      | some out =>
        simp only [WriteStatement.execute, hrun]
        exact .inr ⟨w, out.2, rfl, hrun⟩
  cases write with
  | update u running =>
    rw [Rewriting.run, Update.run]
    split
    · exact .inl rfl
    · exact hexecute _
  | delete d running => exact hexecute _

lemma sound_rewrite (h : Kept S s) {write : Rewriting V} (hleaves : write.LeavesVersion S)
    (moment : Moment V) : Sound S s (write.run S.server moment S.E s.db).1 := by
  rcases run_cases s.db with hsame | ⟨w, rows, hw, hrun⟩
  · rw [hsame]
    exact sound_self h
  · exact sound_of_run h hleaves hw hrun

lemma sound_insert (h : Kept S s) {insert : Insert V} {moment : Moment V}
    (hmoves : MovesVersion S s (.insert insert moment)) :
    Sound S s (insert.run S.server moment S.E S.maxBindParams s.db).1 := by
  rw [Insert.run]
  split
  · exact sound_self h
  · split
    · exact sound_self h
    · next is his =>
      obtain ⟨-, -, conflict, hon, rfl⟩ := Insert.statements_eq_ok his
      have hcandidates : candidates moment ((insert.chunks S.maxBindParams).map fun rows =>
          (⟨S.E.table, insert.columns, rows, conflict⟩ : SqlInsert V)) = insert.newRows moment := by
        rw [candidates_groups, Insert.flatten_chunks, Insert.newRows]
      obtain ⟨added, hrows, hsub, hadmits⟩ := runInserts_appends
        ((insert.chunks S.maxBindParams).map fun rows =>
          (⟨S.E.table, insert.columns, rows, conflict⟩ : SqlInsert V)) _
        (fun i hi => by
          obtain ⟨rows, -, rfl⟩ := List.mem_map.mp hi
          rfl)
        (fun i hi hdo clash hclash => by
          obtain ⟨rows, -, rfl⟩ := List.mem_map.mp hi
          rw [hcandidates]
          obtain ⟨conflict₀, hconflict₀, hwrites, htarget⟩ :=
            Insert.writes_of_onConflict hon hdo hclash
          exact hmoves.1 conflict₀ hconflict₀ hwrites clash htarget) h.admitted
      rw [hcandidates] at hsub
      refine ⟨hadmits, fun k => advances_same, fun k hk v hv w hw => ?_⟩
      cases hold : Rows.lookup S.E.keyOf k (s.db S.E.table) with
      | some row =>
        -- The row was there before, and it still is the one under its key.
        refine absurd (cells_of_lookup_eq ?_) (mem_touched.1 hk)
        rw [hrows, Rows.lookup_append, hold]
        rfl
      | none =>
        obtain ⟨new, hnew, hversion⟩ := Option.bind_eq_some_iff.mp hv
        rw [hrows, Rows.lookup_append, hold, Option.none_or] at hnew
        obtain ⟨hmem, rfl⟩ := Rows.key_of_lookup hnew
        obtain ⟨old, holdmem, hkey⟩ := hmoves.2 new (hsub.subset hmem) ⟨_, hw, rfl⟩
        exact absurd hkey (Rows.lookup_eq_none.mp hold old holdmem)

/-! ### Saves -/

variable {write : Rewriting V} {moment : Moment V} {db : Database V}

variable (moment) in
/-- When no row is wanted, a statement that the server can run changes nothing. -/
lemma run_of_none_wanted (hdb : S.server.admits db = true)
    (hnone : ∀ row ∈ db S.E.table, ¬Rewriting.Wanted S write db row) {w : WriteStatement V}
    (hw : write.statement S.E = .ok w) (hresolves : w.resolves = true) :
    w.run S.server moment db = some (db, []) := by
  have hstore : S.server.store db S.E.table (db S.E.table) = some db := by
    refine Server.store_eq_some.2 ?_
    rw [Function.update_eq_self]
    exact ⟨hdb, rfl⟩
  have hupdate : ∀ u : SqlUpdate V, u.table = S.E.table → Resolves u.filters u.table →
      (∀ row ∈ db S.E.table, ¬Hits u.filters db S.E.table row) →
      u.run S.server moment db = some (db, []) := by
    intro u htable hres hmiss
    refine SqlUpdate.run_eq_some.2 ⟨hres, db S.E.table, ?_, by rw [htable]; exact hstore⟩
    rw [htable]
    exact Rows.rewrite_eq_self fun row hrow => decide_eq_false (hmiss row hrow)
  cases write with
  | update u running =>
    obtain ⟨su, hsu, rfl⟩ := Fallible.map_eq_ok.mp hw
    obtain ⟨-, -, -, tenant, -, rfl⟩ := Update.toStatement_eq_ok.mp hsu
    refine hupdate _ rfl (of_decide_eq_true hresolves) fun row hrow hhit => hnone row hrow ?_
    exact Rewriting.wanted_of_hits (Rewriting.mem_conditions_update tenant)
      (Rewriting.version_mem_conditions_update tenant) hhit
  | delete d running =>
    obtain ⟨-, -, tenant, -, rfl⟩ := Delete.toStatement_eq_ok.mp hw
    have hmiss : ∀ row ∈ db S.E.table, ¬Hits (d.conditions S.E tenant) db S.E.table row := by
      intro row hrow hhit
      exact hnone row hrow (Rewriting.wanted_of_hits (Rewriting.mem_conditions_delete tenant)
        (Rewriting.version_mem_conditions_delete tenant) hhit)
    rw [Delete.removal] at hresolves ⊢
    split at hresolves
    · refine hupdate _ rfl (of_decide_eq_true hresolves) fun row hrow hhit => hmiss row hrow ?_
      exact fun c hc => hhit c (List.mem_append_left _ hc)
    · refine SqlDelete.run_eq_some.2 ⟨of_decide_eq_true hresolves, ?_, ?_⟩
      · rw [List.filter_eq_self.mpr fun row hrow => decide_eq_true (hmiss row hrow)]
        exact hstore
      · exact (List.filter_eq_nil_iff.mpr fun row hrow hhit =>
          hmiss row hrow (of_decide_eq_true hhit)).symm

/-- A save for which no row is left is refused as stale. -/
lemma refused_of_none_wanted (hdb : S.server.admits db = true) {v : V}
    (hexpected : write.expected = some v) (hwrites : write.writes = true)
    (hrunning : write.running ≠ .fetchAll)
    (hnone : ∀ row ∈ db S.E.table, ¬Rewriting.Wanted S write db row) :
    refused S write (write.run S.server moment S.E db).2 = true := by
  have hjudge : ∀ running : Running, running ≠ .fetchAll →
      running.judge S.E true ([] : List (Row V)) = .error (.staleWrite S.E.name) := by
    intro running hne
    cases running with
    | execute => rfl
    | fetchOne => rfl
    | fetchAll => exact absurd rfl hne
  have hanswer : ∀ running : Running, running ≠ .fetchAll →
      refused S write ((WriteStatement.execute S.server moment db (write.statement S.E)).2.bind
        (running.judge S.E true)) = true := by
    intro running hne
    cases hw : write.statement S.E with
    | error e => simp [refused, hw, WriteStatement.execute, Except.bind]
    | ok w =>
      cases hresolves : w.resolves with
      | true =>
        have hrun := run_of_none_wanted moment hdb hnone hw hresolves
        simp [refused, hw, WriteStatement.execute, hrun, Except.bind, hjudge running hne]
      | false =>
        cases hrun : w.run S.server moment db with
        | none => simp [refused, hw, WriteStatement.execute, hrun, Except.bind, hresolves]
        | some out => exact absurd (WriteStatement.resolves_of_run hrun) (by simp [hresolves])
  cases write with
  | update u running =>
    have hempty : ¬(running = .execute ∧ u.assignments.isEmpty = true) := by
      rintro ⟨-, hnil⟩
      simp [Rewriting.writes, hnil] at hwrites
    rw [Rewriting.run, Update.run, if_neg hempty, show u.version = some v from hexpected]
    exact hanswer running hrunning
  | delete d running =>
    rw [Rewriting.run, Delete.run, show d.version = some v from hexpected]
    exact hanswer running hrunning

/-- Every row that a rewriting changes is one that it wants. -/
lemma wanted_of_touched (h : Kept S s) (hleaves : write.LeavesVersion S) {k : Key V}
    (hk : k ∈ touched S s.db (write.run S.server moment S.E s.db).1) :
    ∃ row ∈ s.db S.E.table, S.E.keyOf row = k ∧ Rewriting.Wanted S write s.db row ∧
      ∀ v, versionAt S (write.run S.server moment S.E s.db).1 k = some v →
        ∃ u, row S.version = some u ∧ u < v := by
  rcases run_cases s.db with hsame | ⟨w, rows, hw, hrun⟩
  · rw [hsame, touched_self] at hk
    cases hk
  · obtain ⟨-, hmoved⟩ := Rewriting.moved_of_run h.admitted hleaves hw hrun
    exact (hmoved k).resolve_left (mem_touched.1 hk)

omit [LinearOrder V] in
lemma expected_expecting {v : V} : (write.expecting v).expected = some v := by
  cases write <;> rfl

/-- A save wants the row that was read, with the version that was read. -/
lemma version_of_wanted (h : Kept S s) {r : Read (Key V) V} (haims : Aims S s.db write r.key)
    {row : Row V} (hrow : row ∈ s.db S.E.table)
    (hwanted : Rewriting.Wanted S (write.expecting r.version) s.db row) :
    S.E.keyOf row = r.key ∧ versionAt S s.db r.key = some r.version := by
  have hkey : S.E.keyOf row = r.key := haims row hrow (by
    have hfilters := hwanted.filters
    cases write <;> exact hfilters)
  refine ⟨hkey, ?_⟩
  rw [← hkey, versionAt_keyOf h hrow]
  exact hwanted.expected r.version expected_expecting

lemma kept_save (h : Kept S s) {r : Read (Key V) V} (hr : r ∈ s.log.reads)
    (haims : Aims S s.db write r.key) (hleaves : write.LeavesVersion S)
    (hwrites : write.writes = true) (hrunning : write.running ≠ .fetchAll) :
    Kept S (s.saved S r (write.expecting r.version)
      ((write.expecting r.version).run S.server moment S.E s.db)) := by
  have hleaves' : (write.expecting r.version).LeavesVersion S := by
    cases write <;> exact hleaves
  have hwrote := h.wrote (sound_rewrite h hleaves' moment)
  have htouched := fun k (hk : k ∈ touched S s.db
      ((write.expecting r.version).run S.server moment S.E s.db).1) =>
    wanted_of_touched h hleaves' hk
  refine ⟨hwrote.admitted, ?_, hwrote.reused, ?_⟩
  · rw [saved]
    split
    · exact hwrote.law
    · next hne =>
      obtain ⟨k, hk⟩ := List.exists_mem_of_ne_nil _ hne
      obtain ⟨row, hrow, rfl, hwanted, hlater⟩ := htouched k hk
      obtain ⟨hkey, hversion⟩ := version_of_wanted h haims hrow hwanted
      rw [hkey] at hlater
      refine hwrote.law.save ?_ (fun w hw => ?_) fun hmem => ?_
      · exact mem_held_write.2 (.inl (h.law.remembered r hr))
      · obtain ⟨u, hu, huw⟩ := hlater w hw
        have hru := (hwanted.expected r.version expected_expecting).symm.trans hu
        rwa [Option.some.inj hru]
      · exact lt_irrefl _ (h.law.passed _ hmem _ hversion)
  · refine (if_neg ?_).trans h.lost
    rintro ⟨hstale, hnot⟩
    -- The row has a later version by now, or it is gone.
    have hnone : ∀ row ∈ s.db S.E.table,
        ¬Rewriting.Wanted S (write.expecting r.version) s.db row := by
      intro row hrow hwanted
      obtain ⟨-, hversion⟩ := version_of_wanted h haims hrow hwanted
      exact lt_irrefl _ (h.law.behind r hr hstale _ hversion)
    refine hnot ⟨?_, List.eq_nil_iff_forall_not_mem.mpr fun k hk => ?_⟩
    · refine refused_of_none_wanted h.admitted expected_expecting ?_ ?_ hnone
      · cases write <;> exact hwrites
      · cases write <;> exact hrunning
    · obtain ⟨row, hrow, -, hwanted, -⟩ := htouched k hk
      exact hnone row hrow hwanted

/-! ### Runs -/

lemma kept_step (call : VersionCall V) {s' : VersionRun V} (h : Kept S s)
    (hmoves : MovesVersion S s call) (hstep : step S s call = some s') : Kept S s' := by
  cases call with
  | read client k =>
    obtain ⟨v, hv, rfl⟩ := Option.map_eq_some_iff.mp hstep
    exact ⟨h.admitted, h.law.read hv, h.reused, h.lost⟩
  | save client k write moment =>
    obtain ⟨r, hr, hsave⟩ := Option.bind_eq_some_iff.mp hstep
    rw [Option.ite_none_right_eq_some] at hsave
    obtain ⟨haims, hsave⟩ := hsave
    obtain rfl := Option.some.inj hsave
    have hfound := List.find?_some hr
    obtain ⟨-, rfl⟩ := of_decide_eq_true hfound
    exact kept_save h (List.mem_of_find?_eq_some hr) haims hmoves.1 hmoves.2.1 hmoves.2.2
  | rewrite write moment =>
    obtain rfl := Option.some.inj hstep
    exact h.wrote (sound_rewrite h hmoves _)
  | insert insert moment =>
    obtain rfl := Option.some.inj hstep
    exact h.wrote (sound_insert h hmoves)

lemma kept_start (hdb : S.server.admits db = true) : Kept S (start S db) := by
  have hheld : ∀ k v, (k, v) ∈ (start S db).log.held ↔
      ∃ row ∈ db S.E.table, S.E.keyOf row = k ∧ row S.version = some v := by
    intro k v
    rw [start, List.mem_filterMap]
    refine exists_congr fun row => and_congr_right fun _ => ?_
    rw [Option.map_eq_some_iff]
    constructor
    · rintro ⟨v', hv, hpair⟩
      obtain ⟨rfl, rfl⟩ := Prod.mk.inj hpair
      exact ⟨rfl, hv⟩
    · rintro ⟨rfl, hv⟩
      exact ⟨v, hv, rfl⟩
  refine ⟨hdb, ?_, rfl, rfl⟩
  constructor
  · intro k v hv
    obtain ⟨row, hrow, hversion⟩ := Option.bind_eq_some_iff.mp hv
    obtain ⟨hmem, hkey⟩ := Rows.key_of_lookup hrow
    exact (hheld k v).mpr ⟨row, hmem, hkey, hversion⟩
  · intro k v hv w hw
    obtain ⟨row, hrow, rfl, hversion⟩ := (hheld k w).mp hw
    have hcurrent := (versionAt_of_lookup (lookup_keyOf hdb hrow)).trans hversion
    exact (Option.some.inj (hcurrent.symm.trans hv)).le
  · exact fun r hr => absurd hr List.not_mem_nil
  · exact fun r hr => absurd hr List.not_mem_nil
  · exact fun r hr => absurd hr List.not_mem_nil
  · exact fun r hr => absurd hr List.not_mem_nil
  · exact fun p hp => absurd hp List.not_mem_nil
  · exact fun p hp => absurd hp List.not_mem_nil
  · exact List.nodup_nil

/-- In every run of reads, saves and other writes that all move the version on, no update is
lost. -/
theorem losesNothing_of_movesVersion {db : Database V} (hdb : S.server.admits db = true)
    {calls : List (VersionCall V)}
    (h : Machine.Meets (step S) (MovesVersion S) (start S db) calls) :
    Machine.Always (step S) LosesNothing (start S db) calls :=
  (Machine.always_of_meets (fun _ call _ => kept_step call) (kept_start hdb) h).mono
    fun _ hs => ⟨hs.reused, hs.lost, hs.law.once⟩

/-! ### An order that is written while a client looks at it -/

def order : Entity where
  name := "Order"
  table := "orders"
  columns := [⟨"id", .i64, true, false⟩, ⟨"version", .i32, false, false⟩,
    ⟨"status", .i64, false, false⟩]
  version := some "version"

/-- The primary key and `NOT NULL` of `orders`. -/
def admitsOrders (db : Database ℕ) : Bool :=
  decide ((db "orders").map (· "id")).Nodup && (db "orders").all fun row => (row "version").isSome

def orders : Versioned ℕ where
  server := .stable .postgres (fun a b => decide (a < b)) Criteria.strictWeak_lt
    (fun n => some (n + 1))
    (fun _ target => if target = ["id"] then some fun row row' => decide (row "id" = row' "id")
      else none)
    admitsOrders
  E := order
  version := "version"
  maxBindParams := 65535
  version_eq := rfl
  key_unmanaged := by decide
  keys_nodup db hdb := by
    have hnodup := of_decide_eq_true (Bool.and_eq_true_iff.mp hdb).1
    have hkeys : (db order.table).map order.keyOf =
        ((db "orders").map (· "id")).map fun id => [id] := by
      rw [List.map_map]
      rfl
    rw [hkeys]
    exact hnodup.map fun a b hab => (List.cons.inj hab).1
  version_some db hdb row hrow := by
    have hsome := List.all_eq_true.mp (Bool.and_eq_true_iff.mp hdb).2 row hrow
    exact Option.isSome_iff_ne_none.mp hsome
  lt_of_next v w h := by
    rw [← Option.some.inj h]
    exact Nat.lt_succ_self v

/-- One order, in version 3. -/
def oneOrder : Database ℕ := fun table =>
  if table = "orders" then [fun column => [("id", 1), ("version", 3), ("status", 0)].lookup column]
  else []

def noDefaults : Moment ℕ := ⟨0, fun _ _ => none⟩

/-- `Update::by_key(1).set(STATUS, status)`. -/
def setStatus (status : ℕ) : Rewriting ℕ :=
  .update { Update.byKey order 1 with
    assignments := [⟨"status", .expr (Expr.bound (some status))⟩] } .execute

/-- The order in version 1, or with another status when it is there. -/
def upsertStatus (status : ℕ) : VersionCall ℕ :=
  .insert
    { columns := ["id", "version", "status"], rows := [[some 1, some 1, some status]],
      conflict := some ⟨["id"], .update ["status"]⟩ }
    noDefaults

/-- Two clients read the order, and the second one to save is refused. -/
theorem losesNothing_of_movesVersion_twoClients :
    Machine.Always (step orders) LosesNothing (start orders oneOrder)
      [.read 1 [some 1], .read 2 [some 1], .save 1 [some 1] (setStatus 5) noDefaults,
        .save 2 [some 1] (setStatus 6) noDefaults] :=
  losesNothing_of_movesVersion (by decide) (by decide)

/-- An upsert rewrites the order and leaves its version, and the client that has read it before
overwrites what the upsert wrote. -/
theorem losesNothing_fails_for_upsert :
    ∃ s, Machine.exec (step orders) (start orders oneOrder)
        [.read 1 [some 1], upsertStatus 7, .save 1 [some 1] (setStatus 5) noDefaults] = some s ∧
      s.reused = [[some 1]] ∧ s.lost = [[some 1]] ∧ ¬LosesNothing s :=
  ⟨_, rfl, by decide, by decide, fun h => absurd h.lost (by decide)⟩

end VersionRun

end Moso.Orm
