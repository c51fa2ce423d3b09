import Moso.Orm.Versions

/-!
# What a write does to the row under a key

A rewriting leaves the row under a key as it is, or removes it, or moves its version on; an insert
adds rows.
-/

namespace Moso.Orm

open Versions

variable {V : Type} [LinearOrder V] {S : Versioned V} {db after : Database V} {k : Key V}

namespace VersionRun

/-! ### Keys and cells -/

lemma versionAt_of_lookup {row : Row V}
    (h : Rows.lookup S.E.keyOf k (db S.E.table) = some row) :
    versionAt S db k = row S.version := by
  rw [versionAt, h]
  rfl

lemma versionAt_of_none (h : Rows.lookup S.E.keyOf k (db S.E.table) = none) :
    versionAt S db k = none := by
  rw [versionAt, h]
  rfl

lemma cells_of_lookup_eq
    (h : Rows.lookup S.E.keyOf k (after S.E.table) = Rows.lookup S.E.keyOf k (db S.E.table)) :
    cells S after k = cells S db k := by
  rw [cells, cells, h]

lemma versionAt_of_cells (h : cells S after k = cells S db k) :
    versionAt S after k = versionAt S db k := by
  rw [cells, cells] at h
  cases hdb : Rows.lookup S.E.keyOf k (db S.E.table) with
  | none =>
    rw [hdb, Option.map_none, Option.map_eq_none_iff] at h
    rw [versionAt_of_none h, versionAt_of_none hdb]
  | some row =>
    rw [hdb, Option.map_some, Option.map_eq_some_iff] at h
    obtain ⟨row', hrow', hcells⟩ := h
    rw [versionAt_of_lookup hrow', versionAt_of_lookup hdb]
    exact (List.cons.inj hcells).1

lemma mem_touched : k ∈ touched S db after ↔ cells S after k ≠ cells S db k := by
  rw [touched, List.mem_filter, List.mem_dedup, decide_eq_true_iff, ne_comm, and_iff_right_iff_imp]
  intro hne
  by_contra hk
  rw [List.map_append, List.mem_append, not_or] at hk
  have hnone : ∀ {db' : Database V}, k ∉ (db' S.E.table).map S.E.keyOf → cells S db' k = none := by
    intro db' hk'
    rw [cells, Rows.lookup_eq_none.mpr, Option.map_none]
    rintro r hr rfl
    exact hk' (List.mem_map_of_mem hr)
  exact hne ((hnone hk.2).trans (hnone hk.1).symm)

lemma touched_eq_nil : touched S db after = [] ↔ ∀ k, cells S after k = cells S db k := by
  rw [List.eq_nil_iff_forall_not_mem]
  exact forall_congr' fun k => by rw [mem_touched, not_not]

@[simp] lemma touched_self : touched S db db = [] := touched_eq_nil.2 fun _ => rfl

/-- A row of the table is the one under its key. -/
lemma lookup_keyOf (hdb : S.server.admits db = true) {row : Row V} (hrow : row ∈ db S.E.table) :
    Rows.lookup S.E.keyOf (S.E.keyOf row) (db S.E.table) = some row :=
  Rows.lookup_of_mem (S.keys_nodup db hdb) hrow

/-- What a rewriting of the rows that meet `filters` does to the row under a key. -/
def Moved (S : Versioned V) (filters : List (Condition V)) (db after : Database V) (k : Key V) :
    Prop :=
  cells S after k = cells S db k ∨
    ∃ row ∈ db S.E.table, S.E.keyOf row = k ∧ Hits filters db S.E.table row ∧
      ∀ v, versionAt S after k = some v → ∃ u, row S.version = some u ∧ u < v

/-! ### Updates -/

/-- Assignments that move the version on and leave the key. -/
structure Bumps (S : Versioned V) (assignments : List (Assignment V)) : Prop where
  bumped : ⟨S.version, .plusOne S.version⟩ ∈ assignments
  only : ∀ a ∈ assignments, a.column = S.version → a.value = .plusOne S.version
  key : ∀ a ∈ assignments, a.column ∉ S.E.primaryKeyColumns

variable {moment : Moment V}

lemma Bumps.assignAll {assignments : List (Assignment V)} (h : Bumps S assignments)
    {row row' : Row V}
    (hassign : assignAll S.server moment db S.E.table assignments row row = some row') :
    S.E.keyOf row' = S.E.keyOf row ∧
      ∀ u, row S.version = some u → ∃ v, row' S.version = some v ∧ u < v := by
  constructor
  · refine List.map_congr_left fun c hc => ?_
    exact assignAll_of_not_assigned hassign fun a ha hac => h.key a ha (hac ▸ hc)
  · intro u hu
    obtain ⟨value, hvalue⟩ := eval_of_assignFrom hassign _ h.bumped
    have hnext : ∃ v, S.server.next u = some v ∧ some v = value := by
      simp only [SetExpr.eval, hu] at hvalue
      exact Option.map_eq_some_iff.mp hvalue
    obtain ⟨v, hnext, rfl⟩ := hnext
    refine ⟨v, ?_, S.lt_of_next u v hnext⟩
    refine assignFrom_sets hassign (fun a ha hac => ?_) ⟨_, h.bumped, rfl⟩
    rw [h.only a ha hac]
    exact hvalue

lemma moved_of_update (hdb : S.server.admits db = true) {u : SqlUpdate V}
    (htable : u.table = S.E.table) (hbumps : Bumps S u.assignments) {rows : List (Row V)}
    (hrun : u.run S.server moment db = some (after, rows)) :
    S.server.admits after = true ∧ ∀ k, Moved S u.filters db after k := by
  obtain ⟨-, rows', hrewrite, hstore⟩ := SqlUpdate.run_eq_some.1 hrun
  obtain ⟨hadmits, rfl⟩ := Server.store_eq_some.1 hstore
  rw [htable] at hrewrite hadmits ⊢
  refine ⟨hadmits, fun k => ?_⟩
  have hrows : Function.update db S.E.table rows' S.E.table = rows' := Function.update_self ..
  have hall : List.Forall₂ (fun row row' => S.E.keyOf row' = S.E.keyOf row ∧ (row' = row ∨
      Hits u.filters db S.E.table row ∧
        ∀ w, row S.version = some w → ∃ v, row' S.version = some v ∧ w < v))
      (db S.E.table) rows' := by
    refine (Rows.forall₂_of_rewrite hrewrite).imp fun row row' hbecame => ?_
    rw [Rows.Became] at hbecame
    split at hbecame
    · next hhit =>
      obtain ⟨hkey, hversion⟩ := hbumps.assignAll hbecame
      exact ⟨hkey, .inr ⟨of_decide_eq_true hhit, hversion⟩⟩
    · exact ⟨by rw [hbecame], .inl hbecame⟩
  rcases Rows.lookup_forall₂ hall k with ⟨hnone, hnone'⟩ | ⟨row, row', hrow, hrow', hsame | hmoved⟩
  · exact .inl (cells_of_lookup_eq (by rw [hrows, hnone, hnone']))
  · exact .inl (cells_of_lookup_eq (by rw [hrows, hrow, hrow', hsame]))
  · obtain ⟨hmem, hkey⟩ := Rows.key_of_lookup hrow
    refine .inr ⟨row, hmem, hkey, hmoved.1, fun v hv => ?_⟩
    rw [versionAt_of_lookup (by rw [hrows, hrow'])] at hv
    obtain ⟨w, hw⟩ := Option.ne_none_iff_exists'.mp (S.version_some db hdb row hmem)
    obtain ⟨v', hv', hlt⟩ := hmoved.2 w hw
    obtain rfl := Option.some.inj (hv'.symm.trans hv)
    exact ⟨w, hw, hlt⟩

/-! ### Deletes -/

lemma moved_of_delete (hdb : S.server.admits db = true) {d : SqlDelete V}
    (htable : d.table = S.E.table) {rows : List (Row V)}
    (hrun : d.run S.server db = some (after, rows)) :
    S.server.admits after = true ∧ ∀ k, Moved S d.filters db after k := by
  obtain ⟨-, hstore, -⟩ := SqlDelete.run_eq_some.1 hrun
  obtain ⟨hadmits, rfl⟩ := Server.store_eq_some.1 hstore
  rw [htable] at hadmits ⊢
  refine ⟨hadmits, fun k => ?_⟩
  have hlookup := Rows.lookup_filter (S.keys_nodup db hdb)
    (fun row => decide ¬Hits d.filters db S.E.table row) k
  cases hk : Rows.lookup S.E.keyOf k (db S.E.table) with
  | none =>
    refine .inl (cells_of_lookup_eq ?_)
    rw [Function.update_self, hlookup, hk]
    rfl
  | some row =>
    obtain ⟨hmem, hkey⟩ := Rows.key_of_lookup hk
    by_cases hhit : Hits d.filters db S.E.table row
    · refine .inr ⟨row, hmem, hkey, hhit, fun v hv => ?_⟩
      rw [versionAt_of_none] at hv
      · cases hv
      · rw [Function.update_self, hlookup, hk, Option.filter_some_neg (by simpa using hhit)]
    · refine .inl (cells_of_lookup_eq ?_)
      rw [Function.update_self, hlookup, hk, Option.filter_some_pos (by simpa using hhit)]

/-! ### Inserts -/

/-- An insert that rewrites no row: none of its rows is in conflict with a row that is there, or
with another of its rows. -/
def AppendsOnly (server : Server V) (i : SqlInsert V) (table news : List (Row V)) : Prop :=
  (i.conflict.bind (·.doUpdate)).isSome → ∀ clash, i.clash server = some clash →
    (∀ new ∈ news, ∀ old ∈ table, clash new old = false) ∧
      news.Pairwise fun new later => clash later new = false

omit [LinearOrder V] in
lemma putAll_appends {server : Server V} {i : SqlInsert V} {clash : Row V → Row V → Bool}
    {marked out : List (Bool × Row V)} {news written : List (Row V)}
    (hclash : i.clash server = some clash)
    (happends : AppendsOnly server i (marked.map (·.2)) news)
    (h : SqlInsert.putAll server moment db i clash marked news = some (out, written)) :
    ∃ added, out.map (·.2) = marked.map (·.2) ++ added ∧ added.Sublist news := by
  induction news generalizing marked out written with
  | nil =>
    obtain ⟨rfl, rfl⟩ := Prod.mk.inj (Option.some.inj h)
    exact ⟨[], (List.append_nil _).symm, List.Sublist.refl _⟩
  | cons new news ih =>
    obtain ⟨marked', first, rest, hone, hrest, -⟩ := SqlInsert.putAll_cons_eq_some.mp h
    rcases SqlInsert.put_cases hone with ⟨rfl, -, -⟩ | ⟨rfl, -⟩ |
        ⟨l₁, old, l₂, row, assignments, hsplit, -, -, hhit, hdo, -⟩
    · obtain ⟨added, hout, hsub⟩ := ih (fun hdo c hc => by
        obtain ⟨hold, hpair⟩ := happends hdo c hc
        rw [List.pairwise_cons] at hpair
        refine ⟨fun later hlater old hmem => ?_, hpair.2⟩
        rw [List.map_append, List.mem_append] at hmem
        rcases hmem with hmem | hmem
        · exact hold later (List.mem_cons_of_mem new hlater) old hmem
        · rw [List.mem_singleton.mp hmem]
          exact hpair.1 later hlater) hrest
      refine ⟨new :: added, ?_, hsub.cons_cons new⟩
      rw [hout, List.map_append, List.append_assoc]
      rfl
    · obtain ⟨added, hout, hsub⟩ := ih (fun hdo c hc => by
        obtain ⟨hold, hpair⟩ := happends hdo c hc
        exact ⟨fun later hlater => hold later (List.mem_cons_of_mem new hlater),
          (List.pairwise_cons.mp hpair).2⟩) hrest
      exact ⟨added, hout, hsub.cons new⟩
    · -- The row would be in conflict with one that is there.
      have hmiss := (happends (by rw [hdo]; rfl) clash hclash).1 new List.mem_cons_self old.2
        (List.mem_map_of_mem (by simp [hsplit]))
      rw [hmiss] at hhit
      cases hhit

lemma runInserts_appends (is : List (SqlInsert V)) (db : Database V)
    (htable : ∀ i ∈ is, i.table = S.E.table)
    (happends : ∀ i ∈ is, AppendsOnly S.server i (db S.E.table) (candidates moment is))
    (hdb : S.server.admits db = true) :
    ∃ added, (runInserts S.server moment db is).1 S.E.table = db S.E.table ++ added ∧
      added.Sublist (candidates moment is) ∧
        S.server.admits (runInserts S.server moment db is).1 = true := by
  induction is generalizing moment db with
  | nil => exact ⟨[], (List.append_nil _).symm, List.Sublist.refl _, hdb⟩
  | cons i is ih =>
    rw [runInserts]
    cases hrun : i.run S.server moment db with
    | none => exact ⟨[], (List.append_nil _).symm, List.nil_sublist _, hdb⟩
    | some out =>
      obtain ⟨clash, marked, hclash, hput, hstore⟩ := SqlInsert.run_eq_some.mp hrun
      obtain ⟨hadmits, hafter⟩ := Server.store_eq_some.1 hstore
      rw [htable i List.mem_cons_self] at hput hadmits hafter
      have hmarked : ((db S.E.table).map (false, ·)).map (·.2) = db S.E.table := by
        rw [List.map_map]
        exact List.map_id _
      obtain ⟨added, hout, hsub⟩ := putAll_appends hclash (fun hdo c hc => by
        obtain ⟨hold, hpair⟩ := happends i List.mem_cons_self hdo c hc
        rw [hmarked]
        exact ⟨fun new hnew => hold new (List.mem_append_left _ hnew),
          (List.pairwise_append.mp hpair).1⟩) hput
      have hrows : out.1 S.E.table = db S.E.table ++ added := by
        rw [hafter, Function.update_self, hout, hmarked]
      obtain ⟨more, hmore, hsub', hadmits'⟩ := ih
        out.1 (fun j hj => htable j (List.mem_cons_of_mem i hj))
        (fun j hj hdo c hc => by
          obtain ⟨hold, hpair⟩ := happends j (List.mem_cons_of_mem i hj) hdo c hc
          obtain ⟨-, hpair', hcross⟩ := List.pairwise_append.mp hpair
          refine ⟨fun new hnew old hmem => ?_, hpair'⟩
          rw [hrows] at hmem
          rcases List.mem_append.mp hmem with hmem | hmem
          · exact hold new (List.mem_append_right _ hnew) old hmem
          · exact hcross old (hsub.subset hmem) new hnew) (by rw [hafter]; exact hadmits)
      refine ⟨added ++ more, ?_, hsub.append hsub', hadmits'⟩
      rw [hmore, hrows, List.append_assoc]

end VersionRun

/-! ### The builders -/

namespace Rewriting

variable {write : Rewriting V}

/-- The caller leaves the version and the key to the builder. -/
def LeavesVersion (S : Versioned V) (write : Rewriting V) : Prop :=
  ∀ c ∈ write.assigned, c ≠ S.version ∧ c ∉ S.E.primaryKeyColumns

instance (S : Versioned V) (write : Rewriting V) : Decidable (LeavesVersion S write) :=
  inferInstanceAs (Decidable (∀ c ∈ write.assigned, c ≠ S.version ∧ c ∉ S.E.primaryKeyColumns))

/-- The version that the write expects. -/
def expected : Rewriting V → Option V
  | update u _ => u.version
  | delete d _ => d.version

/-- What a row has to meet for the write to be about it. -/
structure Wanted (S : Versioned V) (write : Rewriting V) (db : Database V) (row : Row V) :
    Prop where
  filters : Hits write.filters db S.E.table row
  expected : ∀ v ∈ write.expected, row S.version = some v

lemma wanted_of_hits {db : Database V} {row : Row V} {conditions : List (Condition V)}
    (hfilters : ∀ c ∈ write.filters, c ∈ conditions)
    (hversion : ∀ c ∈ versionCondition S.E write.expected, c ∈ conditions)
    (h : Hits conditions db S.E.table row) : Wanted S write db row := by
  refine ⟨fun c hc => h c (hfilters c hc), fun v hv => ?_⟩
  have hkeeps := h ((Expr.column S.E.table S.version).eq (Expr.bound (some v)))
    (hversion _ (by rw [versionCondition, hv, S.version_eq]; rfl))
  rw [Expr.keeps_column_eq_bound, Env.cell_only] at hkeeps
  exact hkeeps

lemma bumps_update {u : Update V} {running : Running}
    (h : LeavesVersion S (.update u running)) :
    VersionRun.Bumps S (u.assignments ++ u.managed S.E) := by
  have hnot : ∀ {c}, u.assigns c = false ↔ ∀ a ∈ u.assignments, a.column ≠ c := by
    intro c
    simp [Update.assigns]
  have hkey : ∀ a ∈ u.assignments, a.column ≠ S.version ∧ a.column ∉ S.E.primaryKeyColumns :=
    fun a ha => h a.column (List.mem_map_of_mem ha)
  have hmanaged : ⟨S.version, .plusOne S.version⟩ ∈ u.managed S.E := by
    refine List.mem_append_right _ (Option.mem_toList.mpr ?_)
    have hfree : u.assigns S.version = false := hnot.mpr fun a ha => (hkey a ha).1
    rw [S.version_eq, Option.filter_some_pos (by simp [hfree])]
    rfl
  constructor
  · exact List.mem_append_right _ hmanaged
  · intro a ha hac
    rcases List.mem_append.mp ha with ha | ha
    · exact absurd hac (hkey a ha).1
    · rcases List.mem_append.mp ha with ha | ha
      · obtain ⟨c, hc, rfl⟩ := Option.map_eq_some_iff.mp (Option.mem_toList.mp ha)
        exact absurd hac.symm
          (Entity.version_ne_updatedAt S.version_eq (Option.filter_eq_some_iff.mp hc).1)
      · obtain ⟨c, hc, rfl⟩ := Option.map_eq_some_iff.mp (Option.mem_toList.mp ha)
        exact congrArg SetExpr.plusOne hac
  · intro a ha hmem
    rcases List.mem_append.mp ha with ha | ha
    · exact (hkey a ha).2 hmem
    · rcases Update.column_of_mem_managed ha with hcol | hcol
      · exact (S.key_unmanaged _ hmem).2.2 hcol
      · exact (S.key_unmanaged _ hmem).2.1 hcol

lemma bumps_softDelete {column : Ident} (hsoft : S.E.softDelete = some column) :
    VersionRun.Bumps S (Delete.softAssignments S.E column) := by
  constructor
  · refine List.mem_cons_of_mem _ (List.mem_append_right _ (Option.mem_toList.mpr ?_))
    rw [S.version_eq]
    rfl
  · intro a ha hac
    rcases List.mem_cons.mp ha with rfl | ha
    · exact absurd hac (Entity.softDelete_ne_version hsoft S.version_eq)
    · rcases List.mem_append.mp ha with ha | ha
      · obtain ⟨c, hc, rfl⟩ := Option.map_eq_some_iff.mp (Option.mem_toList.mp ha)
        exact absurd hac.symm (Entity.version_ne_updatedAt S.version_eq hc)
      · obtain ⟨c, hc, rfl⟩ := Option.map_eq_some_iff.mp (Option.mem_toList.mp ha)
        exact congrArg SetExpr.plusOne hac
  · intro a ha hmem
    rcases Delete.column_of_mem_softAssignments ha with hcol | hcol | hcol
    · exact (S.key_unmanaged _ hmem).1 (hcol ▸ hsoft)
    · exact (S.key_unmanaged _ hmem).2.2 hcol
    · exact (S.key_unmanaged _ hmem).2.1 hcol

omit [LinearOrder V] in
lemma mem_conditions_update [DecidableEq V] {E : Entity} {u : Update V}
    (tenant : Option (Condition V)) :
    ∀ c ∈ u.filters.map Predicate.expr, c ∈ u.conditions E tenant := fun _ hc =>
  List.mem_append_left _ (List.mem_append_left _ (List.mem_append_left _ hc))

omit [LinearOrder V] in
lemma version_mem_conditions_update [DecidableEq V] {E : Entity} {u : Update V}
    (tenant : Option (Condition V)) :
    ∀ c ∈ versionCondition E u.version, c ∈ u.conditions E tenant := fun _ hc =>
  List.mem_append_left _ (List.mem_append_left _ (List.mem_append_right _ (Option.mem_toList.mpr hc)))

omit [LinearOrder V] in
lemma mem_conditions_delete [DecidableEq V] {E : Entity} {d : Delete V}
    (tenant : Option (Condition V)) :
    ∀ c ∈ d.filters.map Predicate.expr, c ∈ d.conditions E tenant := fun _ hc =>
  List.mem_append_left _ (List.mem_append_left _ hc)

omit [LinearOrder V] in
lemma version_mem_conditions_delete [DecidableEq V] {E : Entity} {d : Delete V}
    (tenant : Option (Condition V)) :
    ∀ c ∈ versionCondition E d.version, c ∈ d.conditions E tenant := fun _ hc =>
  List.mem_append_left _ (List.mem_append_right _ (Option.mem_toList.mpr hc))

/-- A statement that ran changed rows that the write is about, and moved their versions on. -/
theorem moved_of_run (hdb : S.server.admits db = true) (h : LeavesVersion S write)
    {moment : Moment V} {w : WriteStatement V} {rows : List (Row V)}
    (hw : write.statement S.E = .ok w)
    (hrun : w.run S.server moment db = some (after, rows)) :
    S.server.admits after = true ∧ ∀ k, VersionRun.cells S after k = VersionRun.cells S db k ∨
      ∃ row ∈ db S.E.table, S.E.keyOf row = k ∧ Wanted S write db row ∧
        ∀ v, VersionRun.versionAt S after k = some v → ∃ u, row S.version = some u ∧ u < v := by
  have hmoved : ∀ {conditions : List (Condition V)}, (∀ c ∈ write.filters, c ∈ conditions) →
      (∀ c ∈ versionCondition S.E write.expected, c ∈ conditions) →
      (S.server.admits after = true ∧ ∀ k, VersionRun.Moved S conditions db after k) →
      S.server.admits after = true ∧ ∀ k, VersionRun.cells S after k = VersionRun.cells S db k ∨
        ∃ row ∈ db S.E.table, S.E.keyOf row = k ∧ Wanted S write db row ∧
          ∀ v, VersionRun.versionAt S after k = some v →
            ∃ u, row S.version = some u ∧ u < v := by
    intro conditions hfilters hversion hall
    refine ⟨hall.1, fun k => (hall.2 k).imp_right ?_⟩
    rintro ⟨row, hrow, hkey, hhit, hlater⟩
    exact ⟨row, hrow, hkey, wanted_of_hits hfilters hversion hhit, hlater⟩
  cases write with
  | update u running =>
    obtain ⟨su, hsu, rfl⟩ := Fallible.map_eq_ok.mp hw
    obtain ⟨-, -, -, tenant, -, rfl⟩ := Update.toStatement_eq_ok.mp hsu
    exact hmoved (mem_conditions_update tenant) (version_mem_conditions_update tenant)
      (VersionRun.moved_of_update hdb rfl (bumps_update h) hrun)
  | delete d running =>
    obtain ⟨-, -, tenant, -, rfl⟩ := Delete.toStatement_eq_ok.mp hw
    have hfilters := mem_conditions_delete (E := S.E) (d := d) tenant
    have hversion := version_mem_conditions_delete (E := S.E) (d := d) tenant
    rw [Delete.removal] at hrun
    split at hrun
    · next column hsoft =>
      refine hmoved (fun c hc => List.mem_append_left _ (hfilters c hc))
        (fun c hc => List.mem_append_left _ (hversion c hc))
        (VersionRun.moved_of_update hdb rfl ?_ hrun)
      exact bumps_softDelete (Delete.softDelete_of_softColumn hsoft)
    · exact hmoved hfilters hversion (VersionRun.moved_of_delete hdb rfl hrun)

end Rewriting

end Moso.Orm
