import Mathlib.Data.Fintype.EquivFin
import Moso.Orm.Write

/-!
# A query that becomes a bulk write

`update` and `delete` of a query take its filters along and nothing else. What the write takes is
compared with what the query returns: both are rows of the entity's table.
-/

namespace Moso.Orm

open ThreeValued

variable {V : Type}

namespace Select

/-- The query as a bulk `UPDATE`. -/
def update (self : Select V) : Update V := Update.fromFilters self.filters

/-- The query as a bulk `DELETE`. -/
def delete (self : Select V) : Delete V := Delete.fromFilters self.filters

variable [DecidableEq V]

/-- The query returns the row, when it is run under this cap on its rows. -/
def Returns (E : Entity) (cap : ℕ) (server : Server V) (db : Database V) (self : Select V)
    (row : Row V) : Prop :=
  ∃ q out env, self.statement E cap .rows = .ok q ∧ q.run server db = some out ∧ env ∈ out ∧
    env E.table = some row

end Select

/-- What a caller has a query become: an update that sets something, or a delete. -/
inductive BulkKind (V : Type) where
  | update (assignments : List (Assignment V)) (sets : assignments ≠ []) (withDeleted : Bool)
  | delete (hard : Bool)

/-- A query's conversion, with what the caller goes on to say of the write. -/
structure Bulk (V : Type) where
  kind : BulkKind V
  allRows : Bool := false
  tenant : Option V := none
  acrossTenants : Bool := false

namespace Bulk

/-- The write leaves soft-deleted rows alone. -/
def skipsDeleted (self : Bulk V) : Bool :=
  match self.kind with
  | .update _ _ withDeleted => !withDeleted
  | .delete hard            => !hard

/-- A tenant-scoped entity, and the write names no tenant. -/
def LacksTenant (E : Entity) (self : Bulk V) : Prop :=
  E.tenant.isSome ∧ self.tenant = none ∧ self.acrossTenants = false

variable [DecidableEq V]

/-- The statement that the write becomes. -/
def statement (E : Entity) (query : Select V) (self : Bulk V) : Except Error (WriteStatement V) :=
  match self.kind with
  | .update assignments _ withDeleted =>
    ({ query.update with
      assignments := assignments
      withDeleted := withDeleted
      allRows := self.allRows
      tenant := self.tenant
      acrossTenants := self.acrossTenants }.toStatement E).map .update
  | .delete hard =>
    { query.delete with
      hard := hard
      allRows := self.allRows
      tenant := self.tenant
      acrossTenants := self.acrossTenants }.toStatement E

end Bulk

namespace WriteStatement

/-- The statement rewrites or removes this row of its table. -/
def Takes (db : Database V) (row : Row V) : WriteStatement V → Prop
  | .insert _ => False
  | .update u => row ∈ db u.table ∧ Hits u.filters db u.table row
  | .delete d => row ∈ db d.table ∧ Hits d.filters db d.table row

end WriteStatement

/-! ### The conditions of the two -/

namespace Entity

/-- The row is one that a query of this mode is about. -/
def InMode (E : Entity) (mode : Deleted) (row : Row V) : Prop :=
  ∀ column ∈ E.softDelete, match mode with
    | .live => row column = none
    | .any => True
    | .only => row column ≠ none

/-- The row is one of this tenant, if there is one. -/
def OfTenant (E : Entity) (tenant : Option V) (row : Row V) : Prop :=
  ∀ column ∈ E.tenant, ∀ t ∈ tenant, row column = some t

end Entity

/-- The row is one that the write is about, whatever its filters. -/
def Bulk.Admits (E : Entity) (self : Bulk V) (row : Row V) : Prop :=
  E.InMode (if self.skipsDeleted then .live else .any) row ∧ E.OfTenant self.tenant row

section

variable [DecidableEq V] {E : Entity} {db : Database V} {row : Row V} {env : Env V}

omit [DecidableEq V] in
lemma keeps_softDeletePredicate {mode : Deleted} (henv : env E.table = some row) :
    (∀ p ∈ (E.softDeletePredicate mode).toList, p.expr.Keeps db env) ↔ E.InMode mode row := by
  have hcell : ∀ c, env.cell E.table c = row c := fun c => by rw [Env.cell, henv]; rfl
  rw [Entity.softDeletePredicate]
  cases hs : E.softDelete with
  | none => simp [Entity.InMode, hs]
  | some c => cases mode <;> simp [Entity.InMode, hs, hcell]

lemma keeps_tenantPredicate {tenant : Option V} (henv : env E.table = some row) :
    (∀ p ∈ (tenant.bind E.tenantPredicate).toList, p.expr.Keeps db env) ↔
      E.OfTenant tenant row := by
  have hcell : ∀ c, env.cell E.table c = row c := fun c => by rw [Env.cell, henv]; rfl
  cases tenant with
  | none => simp [Entity.OfTenant]
  | some t => cases ht : E.tenant <;> simp [Entity.tenantPredicate, Entity.OfTenant, ht, hcell]

/-- What the conditions of a query say of a row of its table. -/
lemma Select.keeps_conditions {query : Select V} (henv : env E.table = some row) :
    (∀ c ∈ query.conditions E, c.Keeps db env) ↔
      E.InMode query.deleted row ∧ E.OfTenant query.tenant row ∧
        ∀ filter ∈ query.filters, filter.expr.Keeps db env := by
  rw [Select.conditions, List.forall_mem_map, List.forall_mem_append, List.forall_mem_append,
    keeps_softDeletePredicate henv, keeps_tenantPredicate henv, and_assoc]

lemma keeps_tenantCondition {tenant : Option V} {across : Bool} {condition : Option (Condition V)}
    (h : tenantCondition E tenant across = .ok condition) :
    (∀ c ∈ condition.toList, c.Keeps db (Env.only E.table row)) ↔ E.OfTenant tenant row := by
  rw [tenantCondition] at h
  cases ht : E.tenant with
  | none =>
    simp only [ht] at h
    obtain rfl := Except.ok.inj h
    simp [Entity.OfTenant, ht]
  | some c =>
    cases tenant with
    | some t =>
      simp only [ht] at h
      obtain rfl := Except.ok.inj h
      simp [Entity.OfTenant, ht]
    | none =>
      cases across with
      | false =>
        simp only [ht] at h
        cases h
      | true =>
        simp only [ht] at h
        obtain rfl := Except.ok.inj h
        simp [Entity.OfTenant]

omit [DecidableEq V] in
/-- `IS NULL` on the soft-delete column, where the write asks for it. -/
lemma keeps_softDelete {skips : Bool} :
    (∀ c ∈ if skips then (E.softDelete.map fun c => (Expr.column E.table c).isNull).toList else [],
      c.Keeps db (Env.only E.table row)) ↔ E.InMode (if skips then .live else .any) row := by
  cases skips with
  | false => simp [Entity.InMode]
  | true => cases hs : E.softDelete <;> simp [Entity.InMode, hs]

lemma not_lacksTenant {self : Bulk V} {condition : Option (Condition V)}
    (h : tenantCondition E self.tenant self.acrossTenants = .ok condition) :
    ¬self.LacksTenant E := by
  rintro ⟨hE, ht, ha⟩
  rw [ht, ha, tenantCondition_none hE] at h
  cases h

/-- The statement that a conversion becomes, and which rows that takes. -/
lemma Bulk.statement_eq_ok {self : Bulk V} {query : Select V} {w : WriteStatement V}
    (h : self.statement E query = .ok w) :
    ¬self.LacksTenant E ∧
      (∀ filter ∈ query.filters, ∀ entity ∈ filter.entities, entity = E.name) ∧
      (w.resolves = true → ∀ filter ∈ query.filters, ∀ t ∈ filter.expr.reads, t = E.table) ∧
      ∀ db, ∀ row ∈ db E.table, w.Takes db row ↔
        self.Admits E row ∧
          ∀ filter ∈ query.filters, filter.expr.Keeps db (Env.only E.table row) := by
  have hresolves : ∀ conditions : List (Condition V),
      Resolves (query.filters.map Predicate.expr ++ conditions) E.table →
        ∀ filter ∈ query.filters, ∀ t ∈ filter.expr.reads, t = E.table :=
    fun conditions hr filter hfilter =>
      hr filter.expr (List.mem_append_left _ (List.mem_map_of_mem hfilter))
  rw [statement] at h
  cases hkind : self.kind with
  | update assignments sets withDeleted =>
    simp only [hkind] at h
    obtain ⟨u, hu, rfl⟩ := Fallible.map_eq_ok.mp h
    obtain ⟨-, hscope, -, condition, hcondition, rfl⟩ := Update.toStatement_eq_ok.mp hu
    have hsoft : (if withDeleted then []
        else (E.softDelete.map fun c => (Expr.column E.table c).isNull).toList) =
        if self.skipsDeleted then
          (E.softDelete.map fun c => (Expr.column E.table c).isNull (V := V)).toList else [] := by
      rw [skipsDeleted, hkind]
      cases withDeleted <;> rfl
    refine ⟨not_lacksTenant hcondition, hscope, fun hr => ?_, fun db row hrow => ?_⟩
    · have hr := of_decide_eq_true hr
      simp only [Update.conditions, List.append_assoc] at hr
      exact hresolves _ hr
    · simp only [WriteStatement.Takes, Hits, Update.conditions, hsoft, List.forall_mem_append,
        List.forall_mem_map, keeps_softDelete, keeps_tenantCondition hcondition, versionCondition,
        Bulk.Admits]
      simp only [Select.update, Update.fromFilters, Option.bind_none, Option.toList_none,
        List.not_mem_nil, false_imp_iff, implies_true, and_true]
      exact ⟨fun h => ⟨⟨h.2.2, h.2.1.2⟩, h.2.1.1⟩, fun h => ⟨hrow, ⟨h.2, h.1.2⟩, h.1.1⟩⟩
  | delete hard =>
    simp only [hkind] at h
    obtain ⟨-, hscope, condition, hcondition, rfl⟩ := Delete.toStatement_eq_ok.mp h
    have hskips : self.skipsDeleted = !hard := by rw [skipsDeleted, hkind]
    rw [Delete.removal, Delete.softColumn]
    refine ⟨not_lacksTenant hcondition, hscope, ?_, fun db row hrow => ?_⟩
    · intro hr
      split at hr
      · have hr := of_decide_eq_true hr
        simp only [Delete.conditions, List.append_assoc] at hr
        exact hresolves _ hr
      · have hr := of_decide_eq_true hr
        simp only [Delete.conditions, List.append_assoc] at hr
        exact hresolves _ hr
    · have hconditions : (∀ c ∈ Delete.conditions E { query.delete with
            hard := hard
            allRows := self.allRows
            tenant := self.tenant
            acrossTenants := self.acrossTenants } condition,
          c.Keeps db (Env.only E.table row)) ↔
          (∀ filter ∈ query.filters, filter.expr.Keeps db (Env.only E.table row)) ∧
            E.OfTenant self.tenant row := by
        simp only [Delete.conditions, List.forall_mem_append, List.forall_mem_map,
          keeps_tenantCondition hcondition, versionCondition]
        simp only [Select.delete, Delete.fromFilters, Option.bind_none, Option.toList_none,
          List.not_mem_nil, false_imp_iff, implies_true, and_true]
      split
      · next column hcolumn =>
        obtain ⟨hhard, hE⟩ := Option.ite_none_left_eq_some.mp hcolumn
        rw [Bool.not_eq_true] at hhard
        have hlive : hard = false := hhard
        have hmode : E.InMode (if self.skipsDeleted then .live else .any) row ↔
            row column = none := by
          rw [hskips, hlive]
          simp [Entity.InMode, hE]
        simp only [WriteStatement.Takes, Hits, List.forall_mem_append, hconditions,
          List.forall_mem_singleton, Expr.keeps_isNull, Env.cell_only, Bulk.Admits, hmode]
        exact ⟨fun h => ⟨⟨h.2.2, h.2.1.2⟩, h.2.1.1⟩, fun h => ⟨hrow, ⟨h.2, h.1.2⟩, h.1.1⟩⟩
      · next hcolumn =>
        have hmode : E.InMode (if self.skipsDeleted then .live else .any) row := by
          intro column hE
          rw [hskips]
          cases hard with
          | true => trivial
          | false => exact absurd (hcolumn.symm.trans hE) (by simp)
        simp only [WriteStatement.Takes, Hits, hconditions, Bulk.Admits, hmode, true_and]
        exact ⟨fun h => ⟨h.2.2, h.2.1⟩, fun h => ⟨hrow, h.2, h.1⟩⟩

/-! ### When a conversion keeps the selection -/

namespace Entity

/-- The primary key of the table holds: its columns are not `NULL`, and it tells rows apart. -/
def Keyed (E : Entity) (db : Database V) : Prop :=
  ∀ row ∈ db E.table, (∀ column ∈ E.primaryKeyColumns, row column ≠ none) ∧
    ∀ row' ∈ db E.table, (∀ column ∈ E.primaryKeyColumns, row column = row' column) → row = row'

/-- The primary key does not come down to the tenant, and is not the column that hides rows. -/
def OwnKey (E : Entity) : Prop :=
  (∃ column ∈ E.primaryKeyColumns, E.tenant ≠ some column) ∧
    ∀ column ∈ E.primaryKeyColumns, E.softDelete ≠ some column

instance (E : Entity) : Decidable E.OwnKey :=
  inferInstanceAs (Decidable ((∃ column ∈ E.primaryKeyColumns, E.tenant ≠ some column) ∧
    ∀ column ∈ E.primaryKeyColumns, E.softDelete ≠ some column))

end Entity

namespace Bulk

/-- Whatever the filters and the content of the database, the write takes the rows that the query
returns, or it is refused. -/
def KeepsSelection (E : Entity) (cap : ℕ) (query : Select V) (self : Bulk V) : Prop :=
  ∀ (server : Server V) (moment : Moment V) (filters : List (Predicate V)) (db : Database V),
    E.Keyed db → ∀ w, self.statement E { query with filters := filters } = .ok w →
      (w.run server moment db).isSome → ∀ row ∈ db E.table,
        w.Takes db row ↔ { query with filters := filters }.Returns E cap server db row

/-- What the conversion drops makes no difference: no window, no other tables under one name, no
narrower conditions than those of the write, and joins and groups that keep just the rows that the
write is about. -/
structure CarriesOver (E : Entity) (cap : ℕ) (query : Select V) (write : Bulk V) : Prop where
  accepted : E.tenant.isSome → query.tenant.isSome ∨ query.acrossTenants
  names : (E.table :: query.joins.map Joined.name).Nodup
  mode : E.softDelete.isSome → query.deleted = .any ∨ query.deleted = .live ∧ write.skipsDeleted
  tenant : E.tenant.isSome → ∀ t ∈ query.tenant, write.tenant = some t
  unlimited : (query.applyRowCap cap).limit = none
  fromStart : query.offset.getD 0 = 0
  kept : ∀ (server : Server V) (filters : List (Predicate V)) (db : Database V) q w,
    E.Keyed db → { query with filters := filters }.statement E cap .rows = .ok q →
      write.statement E { query with filters := filters } = .ok w → w.resolves →
        ∀ row ∈ db E.table, Hits q.filters db E.table row →
          ((∃ env ∈ server.group q db (q.selected db), env E.table = some row) ↔
            write.Admits E row)

end Bulk

variable {cap : ℕ} {server : Server V} {query : Select V} {q : SqlSelect V} {self : Bulk V}

/-- The statement of a query for its rows. -/
lemma Select.rows_eq_ok (h : query.statement E cap .rows = .ok q) :
    q.names = E.table :: query.joins.map Joined.name ∧ q.source = E.table ∧
      q.items = (E.columns.map fun column => Expr.column E.table column.name) ∧
        q.filters = query.conditions E ∧ q.limit = (query.applyRowCap cap).limit ∧
          q.offset = query.offset := by
  have hcap : (query.applyRowCap cap).joins = query.joins ∧
      (query.applyRowCap cap).offset = query.offset := by
    rw [applyRowCap]
    split <;> exact ⟨rfl, rfl⟩
  have hconditions := (statement_eq_ok h).2.1
  obtain ⟨_, -, h⟩ := Fallible.bind_eq_ok.mp h
  obtain ⟨_, -, h⟩ := Fallible.bind_eq_ok.mp h
  obtain rfl := Except.ok.inj h
  exact ⟨congrArg (fun joins : List (Joined V) => E.table :: joins.map Joined.name) hcap.1, rfl, rfl,
    hconditions, rfl, hcap.2⟩

omit [DecidableEq V] in
lemma Select.mem_scope : E.name ∈ query.scope E := by
  have hfold : ∀ (joins : List (Joined V)) (scope : List String), E.name ∈ scope →
      E.name ∈ joins.foldl
        (fun scope j => if j.entity ∈ scope then scope else scope ++ [j.entity]) scope := by
    intro joins
    induction joins with
    | nil => exact fun _ h => h
    | cons j joins ih =>
      intro scope h
      refine ih _ ?_
      dsimp only
      split
      · exact h
      · exact List.mem_append_left _ h
  exact hfold _ _ (List.mem_singleton_self _)

/-- A query whose filters are about its own entity becomes a statement. -/
lemma Select.exists_rows
    (hscope : ∀ filter ∈ query.filters, ∀ entity ∈ filter.entities, entity = E.name)
    (htenant : E.tenant.isSome → query.tenant.isSome ∨ query.acrossTenants) :
    ∃ q, query.statement E cap .rows = .ok q := by
  have hcap : (query.applyRowCap cap).filters = query.filters ∧
      (query.applyRowCap cap).tenant = query.tenant ∧
        (query.applyRowCap cap).acrossTenants = query.acrossTenants := by
    rw [applyRowCap]
    split <;> exact ⟨rfl, rfl, rfl⟩
  refine ⟨_, Fallible.bind_eq_ok.mpr ⟨(), ?_, Fallible.bind_eq_ok.mpr ⟨(), ?_, rfl⟩⟩⟩
  · rw [checkScope, hcap.1]
    have hnone : (query.filters.findSome? fun filter =>
        filter.missingFrom ((query.applyRowCap cap).scope E)) = none := by
      refine List.findSome?_eq_none_iff.mpr fun filter hfilter => ?_
      refine Predicate.missingFrom_eq_none.mpr fun entity hentity => ?_
      exact hscope filter hfilter entity hentity ▸ Select.mem_scope
    rw [hnone]
    rfl
  · rw [checkTenant, hcap.2.1, hcap.2.2, if_neg]
    · rfl
    · simp only [Entity.requiresTenant, Bool.and_eq_true, Bool.not_eq_true',
        Option.isNone_iff_eq_none, not_and, and_imp, Bool.not_eq_false]
      intro hE hnone
      exact (htenant hE).resolve_left (by simp [hnone])

/-- Without a window, the query returns the rows that its joins and groups keep. -/
lemma returns_iff (hE : E.OwnKey) (hkeyed : E.Keyed db)
    (hq : query.statement E cap .rows = .ok q)
    (hnames : (E.table :: query.joins.map Joined.name).Nodup)
    (hlimit : (query.applyRowCap cap).limit = none) (hoffset : query.offset.getD 0 = 0)
    (hrow : row ∈ db E.table) : query.Returns E cap server db row ↔
      ∃ env ∈ server.group q db (q.selected db), env E.table = some row := by
  obtain ⟨hqnames, hsource, hitems, -, hqlimit, hqoffset⟩ := Select.rows_eq_ok hq
  constructor
  · rintro ⟨q', out, env, hq', hrun, henv, hcell⟩
    obtain rfl := Except.ok.inj (hq.symm.trans hq')
    exact ⟨env, SqlSelect.mem_group_of_mem_run hrun henv, hcell⟩
  · rintro ⟨env, henv, hcell⟩
    obtain ⟨env', henv', hsame⟩ := SqlSelect.exists_mem_distincts (q := q) henv
    have hwindow : ∀ rows : List (Env V), q.window rows = rows := fun rows => by
      simp only [SqlSelect.window, hqlimit, hlimit, hqoffset, hoffset, List.drop_zero]
    refine ⟨q, _, env', hq, SqlSelect.run_eq_some.mpr ⟨hqnames ▸ hnames, rfl⟩, ?_, ?_⟩
    · rw [hwindow]
      exact (server.arrange_perm q db _).mem_iff.mpr henv'
    · -- the two rows agree on the primary key, so they are one row of the table
      have hcells : ∀ column ∈ E.primaryKeyColumns,
          env.cell E.table column = env'.cell E.table column := by
        intro column hcolumn
        obtain ⟨c, hc, rfl⟩ := List.mem_map.mp hcolumn
        rw [hitems, List.map_map, List.map_map, List.map_inj_left] at hsame
        exact hsame c (List.mem_of_mem_filter hc)
      have henv : ∀ column, env.cell E.table column = row column := fun column => by
        rw [Env.cell, hcell]
        rfl
      obtain ⟨own, hown, -⟩ := hE.1
      cases hcell' : env' E.table with
      | none =>
        refine absurd ?_ ((hkeyed row hrow).1 own hown)
        rw [← henv, hcells own hown, Env.cell, hcell']
        rfl
      | some row' =>
        have hmem := server.mem_of_mem_group q db _ env' (SqlSelect.distincts_subset henv')
        have hrow' := SqlSelect.source_of_mem_joined (hqnames ▸ hnames)
          (SqlSelect.mem_selected.mp hmem).1 (hsource ▸ hcell')
        rw [hsource] at hrow'
        refine congrArg some ((hkeyed row hrow).2 row' hrow' fun column hcolumn => ?_).symm
        rw [← henv, hcells column hcolumn, Env.cell, hcell']
        rfl

omit [DecidableEq V] in
/-- The conditions of the query are no narrower than those of the write. -/
lemma Bulk.Admits.of_query (hmode : E.softDelete.isSome →
      query.deleted = .any ∨ query.deleted = .live ∧ self.skipsDeleted)
    (htenant : E.tenant.isSome → ∀ t ∈ query.tenant, self.tenant = some t)
    (h : self.Admits E row) : E.InMode query.deleted row ∧ E.OfTenant query.tenant row := by
  refine ⟨fun column hcolumn => ?_, fun column hcolumn t ht => ?_⟩
  · rcases hmode (Option.isSome_of_mem hcolumn) with hany | ⟨hlive, hskips⟩
    · rw [hany]
      trivial
    · have hrow := h.1 column hcolumn
      rw [hskips, if_pos rfl] at hrow
      rwa [hlive]
  · exact h.2 column hcolumn t (htenant (Option.isSome_of_mem hcolumn) t ht)

/-- What meets a query's conditions meets its filters at the row of the query's own table. -/
lemma hits_of_mem_group (hq : query.statement E cap .rows = .ok q)
    (hreads : ∀ filter ∈ query.filters, ∀ t ∈ filter.expr.reads, t = E.table)
    (henv : env ∈ server.group q db (q.selected db)) (hcell : env E.table = some row) :
    Hits q.filters db E.table row ∧
      ∀ filter ∈ query.filters, filter.expr.Keeps db (Env.only E.table row) := by
  obtain ⟨-, -, -, hfilters, -⟩ := Select.rows_eq_ok hq
  have hmatches := (SqlSelect.mem_selected.mp (server.mem_of_mem_group q db _ env henv)).2
  rw [SqlSelect.Matches, hfilters, Select.keeps_conditions hcell] at hmatches
  obtain ⟨hmode, htenant, hkeeps⟩ := hmatches
  have hkeeps' : ∀ filter ∈ query.filters, filter.expr.Keeps db (Env.only E.table row) := by
    intro filter hfilter
    refine (Expr.keeps_congr fun t ht => ?_).mp (hkeeps filter hfilter)
    rw [hreads filter hfilter t ht, hcell, Env.only_self]
  refine ⟨?_, hkeeps'⟩
  rw [Hits, hfilters, Select.keeps_conditions (Env.only_self _ _)]
  exact ⟨hmode, htenant, hkeeps'⟩

/-- A conversion that carries the query over keeps its selection. -/
theorem Bulk.keepsSelection_of_carriesOver (hE : E.OwnKey) (h : self.CarriesOver E cap query) :
    self.KeepsSelection E cap query := by
  intro server moment filters db hkeyed w hw hrun row hrow
  obtain ⟨-, hscope, hreads, htakes⟩ := Bulk.statement_eq_ok hw
  obtain ⟨out, hout⟩ := Option.isSome_iff_exists.mp hrun
  have hresolves := WriteStatement.resolves_of_run hout
  obtain ⟨q, hq⟩ := Select.exists_rows hscope h.accepted
  have hkept := h.kept server filters db q w hkeyed hq hw hresolves row hrow
  have hlimit : ({ query with filters := filters }.applyRowCap cap).limit = none := by
    rw [← h.unlimited, Select.applyRowCap, Select.applyRowCap]
    split <;> rfl
  rw [htakes db row hrow, returns_iff hE hkeyed hq h.names hlimit h.fromStart hrow]
  constructor
  · rintro ⟨hadmits, hkeeps⟩
    obtain ⟨hmode, htenant⟩ := hadmits.of_query h.mode h.tenant
    refine (hkept ?_).mpr hadmits
    rw [Hits, (Select.rows_eq_ok hq).2.2.2.1, Select.keeps_conditions (Env.only_self _ _)]
    exact ⟨hmode, htenant, hkeeps⟩
  · rintro ⟨env, henv, hcell⟩
    obtain ⟨hhits, hkeeps⟩ := hits_of_mem_group hq (hreads hresolves) henv hcell
    exact ⟨(hkept hhits).mp ⟨env, henv, hcell⟩, hkeeps⟩

/-! ### Contents that tell the two apart -/

omit [DecidableEq V] in
/-- A server that can always count on makes every assignment. -/
lemma exists_assignFrom {moment : Moment V} {table : Ident} {excluded acc : Row V}
    {as : List (Assignment V)} (hnext : ∀ v, (server.next v).isSome) :
    ∃ row', assignFrom server moment db table row excluded acc as = some row' := by
  induction as generalizing acc with
  | nil => exact ⟨acc, rfl⟩
  | cons a as ih =>
    have hvalue : ∃ value, a.value.eval server moment db table row excluded = some value := by
      cases a.value with
      | expr value => exact ⟨_, rfl⟩
      | currentTimestamp => exact ⟨_, rfl⟩
      | excluded column => exact ⟨_, rfl⟩
      | plusOne column =>
        rw [SetExpr.eval]
        cases hcell : row column with
        | none => exact ⟨_, rfl⟩
        | some v =>
          obtain ⟨v', hv'⟩ := Option.isSome_iff_exists.mp (hnext v)
          exact ⟨some v', by simp [hv']⟩
    obtain ⟨value, hvalue⟩ := hvalue
    obtain ⟨row', hrow'⟩ := ih
    exact ⟨row', assignFrom_cons_eq_some.2 ⟨value, hvalue, hrow'⟩⟩

variable (server db) in
omit [DecidableEq V] in
/-- A server that computes every value and admits every content runs what it can resolve. -/
lemma WriteStatement.isSome_run (moment : Moment V) {w : WriteStatement V}
    (hnext : ∀ v, (server.next v).isSome) (hadmits : ∀ db, server.admits db = true)
    (hw : ∀ i, w ≠ .insert i) (hresolves : w.resolves = true) :
    (w.run server moment db).isSome := by
  have hstore : ∀ table rows, server.store db table rows =
      some (Function.update db table rows) := fun table rows =>
    Server.store_eq_some.2 ⟨hadmits _, rfl⟩
  cases w with
  | insert i => exact absurd rfl (hw i)
  | update u =>
    obtain ⟨out, hout⟩ := Rows.exists_rewrite
      (f := fun row => assignAll server moment db u.table u.assignments row row)
      fun row _ _ => exists_assignFrom hnext
    have hrun : u.run server moment db = some (Function.update db u.table out.1, out.2) :=
      SqlUpdate.run_eq_some.2 ⟨of_decide_eq_true hresolves, out.1, hout, hstore _ _⟩
    exact Option.isSome_iff_exists.mpr ⟨_, hrun⟩
  | delete d =>
    exact Option.isSome_iff_exists.mpr ⟨_, SqlDelete.run_eq_some.2
      ⟨of_decide_eq_true hresolves, hstore _ _, rfl⟩⟩

variable (query) in
/-- A conversion with a filter on the entity is run, unless it lacks a tenant. -/
lemma Bulk.exists_statement (hlacks : ¬self.LacksTenant E) (hfilters : query.filters ≠ [])
    (hscope : ∀ filter ∈ query.filters, ∀ entity ∈ filter.entities, entity = E.name)
    (hreads : ∀ filter ∈ query.filters, ∀ t ∈ filter.expr.reads, t = E.table) :
    ∃ w, self.statement E query = .ok w ∧ (∀ i, w ≠ .insert i) ∧ w.resolves = true := by
  have hcondition : ∃ condition, tenantCondition E self.tenant self.acrossTenants =
      .ok condition ∧ ∀ c ∈ condition.toList, ∀ t ∈ c.reads, t = E.table := by
    rw [tenantCondition]
    cases hE : E.tenant with
    | none => exact ⟨none, rfl, by simp⟩
    | some column =>
      cases ht : self.tenant with
      | some t => exact ⟨_, rfl, by simp [Expr.eq, Expr.column, Expr.bound]⟩
      | none =>
        cases ha : self.acrossTenants with
        | true => exact ⟨none, rfl, by simp⟩
        | false => exact absurd ⟨by simp [hE], ht, ha⟩ hlacks
  obtain ⟨condition, hcondition, hcreads⟩ := hcondition
  have hsoft : ∀ column, ∀ t ∈ (Expr.column (V := V) E.table column).isNull.reads, t = E.table := by
    simp [Expr.isNull, Expr.column]
  have hshared : Resolves (query.filters.map Predicate.expr ++ [] ++ condition.toList) E.table := by
    intro c hc
    rcases List.mem_append.mp hc with hc | hc
    · rw [List.append_nil] at hc
      obtain ⟨filter, hfilter, rfl⟩ := List.mem_map.mp hc
      exact hreads filter hfilter
    · exact hcreads c hc
  rw [statement]
  cases self.kind with
  | update assignments sets withDeleted =>
    refine ⟨_, Fallible.map_eq_ok.mpr ⟨_, Update.toStatement_eq_ok.mpr
      ⟨.inr hfilters, hscope, sets, condition, hcondition, rfl⟩, rfl⟩, by simp, ?_⟩
    refine decide_eq_true fun c hc => ?_
    rcases List.mem_append.mp hc with hc | hc
    · exact hshared c hc
    · split at hc
      · cases hc
      · obtain ⟨column, -, rfl⟩ := Option.map_eq_some_iff.mp (Option.mem_toList.mp hc)
        exact hsoft column
  | delete hard =>
    refine ⟨_, Delete.toStatement_eq_ok.mpr
      ⟨.inr hfilters, hscope, condition, hcondition, rfl⟩, ?_, ?_⟩
    · rw [Delete.removal]
      split <;> simp
    · rw [Delete.removal]
      split
      · refine decide_eq_true fun c hc => ?_
        rcases List.mem_append.mp hc with hc | hc
        · exact hshared c hc
        · exact List.mem_singleton.mp hc ▸ hsoft _
      · exact decide_eq_true hshared

/-- A row with this value in every column that is neither the tenant's nor hides the row. -/
def Entity.sample (E : Entity) (key : V) (hidden : Option V) (tenant : V) : Row V := fun column =>
  if E.softDelete = some column then hidden
  else if E.tenant = some column then some tenant
  else some key

/-- A filter that every row with a value in this column meets. -/
def Entity.present (E : Entity) (column : Ident) : Predicate V :=
  ⟨(Expr.column E.table column).isNotNull, [E.name]⟩

/-- These rows, and other tables that are empty. -/
def Entity.content (E : Entity) (rows : List (Row V)) : Database V := fun table =>
  if table = E.table then rows else []

/-- A server that refuses nothing. -/
def Server.lenient : Server V :=
  Server.stable .postgres (fun _ _ => false)
    ⟨fun h => absurd h Bool.false_ne_true, fun h => absurd h Bool.false_ne_true⟩ some
    (fun _ _ => none) fun _ => true

section

omit [DecidableEq V]

variable {key tenant : V} {hidden : Option V} {column : Ident} {rows : List (Row V)}

@[simp] lemma content_table : E.content rows E.table = rows := if_pos rfl

lemma sample_softDelete (h : E.softDelete = some column) :
    E.sample key hidden tenant column = hidden := by
  rw [Entity.sample, if_pos h]

lemma sample_tenant (h : E.tenant = some column) :
    E.sample key hidden tenant column = some tenant := by
  rw [Entity.sample, if_neg fun hs => Entity.softDelete_ne_tenant hs h rfl, if_pos h]

lemma sample_key (hs : E.softDelete ≠ some column) (ht : E.tenant ≠ some column) :
    E.sample key hidden tenant column = some key := by
  rw [Entity.sample, if_neg hs, if_neg ht]

/-- Samples with different values are different rows under the primary key. -/
lemma keyed_samples (hE : E.OwnKey) (keys : List V) :
    E.Keyed (E.content (keys.map fun key => E.sample key hidden tenant)) := by
  intro row hrow
  rw [content_table] at hrow
  obtain ⟨key, -, rfl⟩ := List.mem_map.mp hrow
  obtain ⟨⟨own, hown, htenant⟩, hsoft⟩ := hE
  refine ⟨fun column hcolumn => ?_, fun row' hrow' hsame => ?_⟩
  · rw [Entity.sample, if_neg (hsoft column hcolumn)]
    split <;> simp
  · rw [content_table] at hrow'
    obtain ⟨key', -, rfl⟩ := List.mem_map.mp hrow'
    have hkey := hsame own hown
    rw [sample_key (hsoft own hown) htenant, sample_key (hsoft own hown) htenant] at hkey
    rw [Option.some.inj hkey]

/-- A sample of the write's tenant is one that the write is about, unless it is hidden. -/
lemma admits_sample (hhidden : self.skipsDeleted = true → hidden = none)
    (htenant : ∀ t ∈ self.tenant, t = tenant) :
    self.Admits E (E.sample key hidden tenant) := by
  refine ⟨fun column hcolumn => ?_, fun column hcolumn t ht => ?_⟩
  · cases hskips : self.skipsDeleted with
    | false => trivial
    | true =>
      rw [if_pos rfl]
      exact (sample_softDelete hcolumn).trans (hhidden hskips)
  · exact (sample_tenant hcolumn).trans (congrArg some (htenant t ht).symm)

end

/-- What is returned meets the query's conditions. -/
lemma Select.Returns.conditions (h : query.Returns E cap server db row) :
    E.InMode query.deleted row ∧ E.OfTenant query.tenant row := by
  obtain ⟨q, out, env, hq, hrun, henv, hcell⟩ := h
  have hmatches := (SqlSelect.matches_of_mem_run hrun henv).2
  rw [SqlSelect.Matches, (Select.rows_eq_ok hq).2.2.2.1, Select.keeps_conditions hcell] at hmatches
  exact ⟨hmatches.1, hmatches.2.1⟩

/-- A conversion that keeps the selection, over a filter that all rows here meet. -/
lemma Bulk.KeepsSelection.admits_iff [Nonempty V] (h : self.KeepsSelection E cap query)
    (hlacks : ¬self.LacksTenant E) (hkeyed : E.Keyed db) {own : Ident}
    (hrow : row ∈ db E.table) (hown : row own ≠ none) : self.Admits E row ↔
      { query with filters := [E.present own] }.Returns E cap Server.lenient db row := by
  obtain ⟨w, hw, hinsert, hresolves⟩ := Bulk.exists_statement { query with
    filters := [E.present own] } hlacks (List.cons_ne_nil _ _)
    (by simp [Entity.present]) (by simp [Entity.present, Expr.isNotNull, Expr.column])
  have hrun := WriteStatement.isSome_run db Server.lenient
    ⟨Classical.arbitrary V, fun _ _ => none⟩ (fun _ => rfl) (fun _ => rfl) hinsert hresolves
  rw [← h Server.lenient _ _ db hkeyed w hw hrun row hrow,
    (Bulk.statement_eq_ok hw).2.2.2 db row hrow]
  simp [Entity.present, hown]

omit [DecidableEq V] in
/-- Joining at most one row to each leaves at most one row that has a row of the source. -/
lemma Joined.countP_apply {j : Joined V} {source : Ident} {rows : List (Env V)}
    (hname : source ≠ j.name) (hone : (db j.table).length ≤ 1) :
    (j.apply db rows).countP (fun env => (env source).isSome) ≤
      rows.countP fun env => (env source).isSome := by
  have hextend : ∀ (env : Env V) row, (env.extend j.name row) source = env source :=
    fun env row => Env.extend_of_ne hname
  have hpairs : ∀ env : Env V, (j.pairs db env).countP (fun env => (env source).isSome) ≤
      if (env source).isSome then 1 else 0 := by
    intro env
    split
    · refine List.countP_le_length.trans ((List.length_filter_le _ _).trans ?_)
      rwa [List.length_map]
    · next hnone =>
      refine (List.countP_eq_zero.mpr fun env' henv' => ?_).le
      obtain ⟨row, -, rfl⟩ := List.mem_map.mp (List.mem_of_mem_filter henv')
      rwa [hextend]
  have hunmatched : (if j.kind.keepsUnmatchedJoinedRows then
      (j.unmatched db rows).map fun row => Env.only j.name row else []).countP
        (fun env => (env source).isSome) = 0 := by
    refine List.countP_eq_zero.mpr fun env henv => ?_
    split at henv
    · obtain ⟨row, -, rfl⟩ := List.mem_map.mp henv
      simp [Env.only, hname]
    · cases henv
  rw [apply, List.countP_append, hunmatched, Nat.add_zero]
  clear hunmatched
  induction rows with
  | nil => exact le_rfl
  | cons env rows ih =>
    rw [List.flatMap_cons, List.countP_append, List.countP_cons, Nat.add_comm]
    refine Nat.add_le_add ih ?_
    split
    · rw [List.countP_singleton, hextend]
    · exact hpairs env

variable (row) in
omit [DecidableEq V] in
/-- Over one row, and other tables that are empty, a query selects that row once at most. -/
lemma length_selected {column : Ident} (hnames : q.names.Nodup) (hsource : q.source = E.table)
    (hpresent : (E.present column).expr ∈ q.filters) :
    (q.selected (E.content [row])).length ≤ 1 := by
  have hjoins : ∀ (joins : List (Joined V)) (rows : List (Env V)),
      (∀ j ∈ joins, E.table ≠ j.name) →
      (joins.foldl (fun rows j => j.apply (E.content [row]) rows) rows).countP
        (fun env => (env E.table).isSome) ≤ rows.countP fun env => (env E.table).isSome := by
    intro joins
    induction joins with
    | nil => exact fun _ _ => le_rfl
    | cons j joins ih =>
      intro rows hne
      refine (ih _ fun k hk => hne k (List.mem_cons_of_mem j hk)).trans ?_
      refine Joined.countP_apply (hne j List.mem_cons_self) ?_
      rw [Entity.content]
      split <;> simp
  have hcount : (q.joined (E.content [row])).countP (fun env => (env E.table).isSome) ≤ 1 := by
    refine (hjoins q.joins _ fun j hj heq => ?_).trans ?_
    · refine (List.nodup_cons.mp hnames).1 ?_
      rw [hsource, heq]
      exact List.mem_map_of_mem hj
    · rw [hsource, content_table]
      exact List.countP_le_length
  refine le_trans ?_ hcount
  rw [SqlSelect.selected, ← List.countP_eq_length_filter]
  refine List.countP_mono_left fun env _ hmatches => ?_
  have hkeeps := of_decide_eq_true hmatches _ hpresent
  rw [Entity.present, Expr.keeps_isNotNull, Env.cell] at hkeeps
  cases hcell : env E.table with
  | none => simp [hcell] at hkeeps
  | some row => rfl

/-- A query that returns many rows has no smaller limit. -/
lemma length_le_limit {n : ℕ} {rows : List (Row V)} (hrows : rows.Nodup)
    (hlimit : (query.applyRowCap cap).limit = some n)
    (h : ∀ row ∈ rows, query.Returns E cap server db row) : rows.length ≤ n := by
  cases rows with
  | nil => exact Nat.zero_le n
  | cons row rows =>
    obtain ⟨q, out, -, hq, hrun, -⟩ := h row List.mem_cons_self
    have hsubset : row :: rows ⊆ out.filterMap fun env => env E.table := by
      intro row' hrow'
      obtain ⟨q', out', env, hq', hrun', henv, hcell⟩ := h row' hrow'
      obtain rfl := Except.ok.inj (hq.symm.trans hq')
      obtain rfl := Option.some.inj (hrun.symm.trans hrun')
      exact List.mem_filterMap.mpr ⟨env, henv, hcell⟩
    obtain ⟨-, rfl⟩ := SqlSelect.run_eq_some.mp hrun
    refine (hrows.subperm hsubset).length_le.trans ((List.length_filterMap_le _ _).trans ?_)
    have hq := (Select.rows_eq_ok hq).2.2.2.2.1
    simp only [SqlSelect.window, hq, hlimit, List.length_take]
    exact Nat.min_le_left _ _

omit [DecidableEq V] in
/-- Replacing the filters replaces no clause that makes a window. -/
@[simp] lemma limit_applyRowCap {filters : List (Predicate V)} :
    ({ query with filters := filters }.applyRowCap cap).limit = (query.applyRowCap cap).limit := by
  rw [Select.applyRowCap, Select.applyRowCap]
  split <;> rfl

section

variable {own : Ident} {hidden : Option V} {tenant : V}

/-- A conversion that keeps the selection: the query returns the samples that the write takes. -/
lemma Bulk.KeepsSelection.samples [Nonempty V] (h : self.KeepsSelection E cap query) (hE : E.OwnKey)
    (hlacks : ¬self.LacksTenant E) (hs : E.softDelete ≠ some own) (ht : E.tenant ≠ some own)
    (hhidden : self.skipsDeleted = true → hidden = none) (htenant : ∀ t ∈ self.tenant, t = tenant)
    (keys : List V) : ∀ row ∈ keys.map fun key => E.sample key hidden tenant,
      { query with filters := [E.present own] }.Returns E cap Server.lenient
        (E.content (keys.map fun key => E.sample key hidden tenant)) row := by
  intro row hrow
  obtain ⟨key, -, rfl⟩ := List.mem_map.mp hrow
  refine (h.admits_iff hlacks (keyed_samples hE keys) ?_ ?_).mp (admits_sample hhidden htenant)
  · rwa [content_table]
  · simp [sample_key hs ht]

/-- A query with a limit leaves out rows of a large table. -/
lemma Bulk.KeepsSelection.unlimited [Infinite V] (h : self.KeepsSelection E cap query)
    (hE : E.OwnKey) (hlacks : ¬self.LacksTenant E) (hs : E.softDelete ≠ some own)
    (ht : E.tenant ≠ some own) (htenant : ∀ t ∈ self.tenant, t = tenant) :
    (query.applyRowCap cap).limit = none := by
  by_contra hlimit
  obtain ⟨n, hn⟩ := Option.ne_none_iff_exists'.mp hlimit
  have hinjective : Function.Injective fun key => E.sample key none tenant := by
    intro key key' heq
    have hcell : E.sample key none tenant own = E.sample key' none tenant own := congrFun heq own
    rwa [sample_key hs ht, sample_key hs ht, Option.some.injEq] at hcell
  have hnodup : (((List.range (n + 1)).map (Infinite.natEmbedding V)).map
      fun key => E.sample key none tenant).Nodup :=
    (List.nodup_range.map (Infinite.natEmbedding V).injective).map hinjective
  have hlength := length_le_limit hnodup ((limit_applyRowCap).trans hn)
    (h.samples hE hlacks hs ht (fun _ => rfl) htenant _)
  rw [List.length_map, List.length_map, List.length_range] at hlength
  omega

/-- A query with an offset leaves out the row of a table that has one. -/
lemma Bulk.KeepsSelection.fromStart [Nonempty V] (h : self.KeepsSelection E cap query)
    (hE : E.OwnKey) (hlacks : ¬self.LacksTenant E) (hs : E.softDelete ≠ some own)
    (ht : E.tenant ≠ some own) (htenant : ∀ t ∈ self.tenant, t = tenant) :
    query.offset.getD 0 = 0 := by
  by_contra hoffset
  obtain ⟨v⟩ : Nonempty V := inferInstance
  obtain ⟨q, out, env, hq, hrun, henv, -⟩ := h.samples hE hlacks hs ht
    (fun _ => rfl) htenant [v] _ List.mem_cons_self
  obtain ⟨-, hsource, -, hfilters, -, hqoffset⟩ := Select.rows_eq_ok hq
  replace hqoffset : q.offset = query.offset := hqoffset
  obtain ⟨hnames, rfl⟩ := SqlSelect.run_eq_some.mp hrun
  have hpresent : (E.present own).expr ∈ q.filters := by
    rw [hfilters, Select.conditions]
    simp
  have hselected := length_selected (E.sample v none tenant) hnames hsource hpresent
  have hdistincts : (q.distincts (E.content [E.sample v none tenant])
      (q.selected (E.content [E.sample v none tenant]))).length ≤ 1 := by
    refine le_trans ?_ hselected
    rw [SqlSelect.distincts]
    split
    · exact (List.pwFilter_sublist _).length_le
    · exact le_rfl
  have hdropped : ∀ rows : List (Env V), rows.length ≤ 1 → q.window rows = [] := by
    intro rows hrows
    have hdrop : rows.drop (q.offset.getD 0) = [] := by
      rw [hqoffset]
      exact List.drop_eq_nil_of_le (by omega)
    rw [SqlSelect.window, hdrop]
    split <;> simp
  have hempty := hdropped _ ((Server.lenient.arrange_perm q (E.content [E.sample v none tenant])
    _).length_eq.le.trans hdistincts)
  exact List.eq_nil_iff_forall_not_mem.mp hempty env henv

end

/-- What a conversion that keeps the selection says of the joins and groups. -/
lemma Bulk.KeepsSelection.kept [Nonempty V] (h : self.KeepsSelection E cap query) (hE : E.OwnKey)
    (hnames : (E.table :: query.joins.map Joined.name).Nodup)
    (hlimit : (query.applyRowCap cap).limit = none) (hoffset : query.offset.getD 0 = 0)
    {filters : List (Predicate V)} {w : WriteStatement V} (hkeyed : E.Keyed db)
    (hq : { query with filters := filters }.statement E cap .rows = .ok q)
    (hw : self.statement E { query with filters := filters } = .ok w) (hresolves : w.resolves)
    (hrow : row ∈ db E.table) (hhits : Hits q.filters db E.table row) :
    (∃ env ∈ server.group q db (q.selected db), env E.table = some row) ↔ self.Admits E row := by
  -- the server, with nothing that it would refuse the write for
  let willing : Server V := { server with next := some, admits := fun _ => true }
  have hinsert : ∀ i, w ≠ .insert i := by
    rintro i rfl
    rw [Bulk.statement] at hw
    split at hw
    · obtain ⟨u, -, hu⟩ := Fallible.map_eq_ok.mp hw
      cases hu
    · obtain ⟨-, -, _, -, hremoval⟩ := Delete.toStatement_eq_ok.mp hw
      rw [Delete.removal] at hremoval
      split at hremoval <;> cases hremoval
  have hrun := WriteStatement.isSome_run db willing
    ⟨Classical.arbitrary V, fun _ _ => none⟩ (fun _ => rfl) (fun _ => rfl) hinsert hresolves
  have hreturns := h willing _ filters db hkeyed w hw hrun row hrow
  rw [returns_iff hE hkeyed hq hnames ((limit_applyRowCap).trans hlimit) hoffset hrow,
    (Bulk.statement_eq_ok hw).2.2.2 db row hrow] at hreturns
  refine hreturns.symm.trans ⟨fun hboth => hboth.1, fun hadmits => ⟨hadmits, ?_⟩⟩
  rw [Hits, (Select.rows_eq_ok hq).2.2.2.1, Select.keeps_conditions (Env.only_self _ _)] at hhits
  exact hhits.2.2

/-- A conversion that keeps the selection, and is not refused for want of a tenant, carries the
query over. -/
theorem Bulk.carriesOver_of_keepsSelection [Infinite V] (hE : E.OwnKey)
    (hlacks : ¬self.LacksTenant E) (h : self.KeepsSelection E cap query) :
    self.CarriesOver E cap query := by
  obtain ⟨own, hown, ht⟩ := hE.1
  have hs := hE.2 own hown
  obtain ⟨v⟩ : Nonempty V := inferInstance
  have hgiven : ∀ t ∈ self.tenant, t = self.tenant.getD v := by
    rintro t ht
    rw [Option.mem_def.mp ht]
    rfl
  have hone : ∀ hidden {tenant}, (self.skipsDeleted = true → hidden = none) →
      (∀ t ∈ self.tenant, t = tenant) → { query with filters := [E.present own] }.Returns E cap
        Server.lenient (E.content [E.sample v hidden tenant]) (E.sample v hidden tenant) :=
    fun hidden _ hhidden htenant => h.samples hE hlacks hs ht hhidden htenant [v] _
      List.mem_cons_self
  obtain ⟨q, out, -, hq, hrun, -⟩ := hone _ (fun _ => rfl) hgiven
  have hnames := (Select.rows_eq_ok hq).1 ▸ (SqlSelect.run_eq_some.mp hrun).1
  have hlimit := h.unlimited hE hlacks hs ht hgiven
  have hoffset := h.fromStart hE hlacks hs ht hgiven
  refine ⟨(Select.statement_eq_ok hq).2.2.2, hnames, fun hsoft => ?_, fun htenant t htq => ?_,
    hlimit, hoffset, fun server filters db q w hkeyed hq hw hresolves row hrow hhits =>
      h.kept hE hnames hlimit hoffset hkeyed hq hw hresolves hrow hhits⟩
  · obtain ⟨column, hcolumn⟩ := Option.isSome_iff_exists.mp hsoft
    cases hdeleted : query.deleted with
    | any => exact .inl rfl
    | live =>
      refine .inr ⟨rfl, ?_⟩
      by_contra hskips
      have hmode := (hone (some v) (fun hs => absurd hs hskips) hgiven).conditions.1
        column hcolumn
      simp [hdeleted, sample_softDelete hcolumn] at hmode
    | only =>
      have hmode := (hone _ (fun _ => rfl) hgiven).conditions.1 column hcolumn
      simp [hdeleted, sample_softDelete hcolumn] at hmode
  · obtain ⟨column, hcolumn⟩ := Option.isSome_iff_exists.mp htenant
    by_contra hne
    obtain ⟨u, hut, hu⟩ : ∃ u, u ≠ t ∧ ∀ t' ∈ self.tenant, t' = u := by
      cases hself : self.tenant with
      | none => exact (exists_ne t).imp fun u hu => ⟨hu, by simp⟩
      | some t' => exact ⟨t', fun heq => hne (heq ▸ hself), by simp⟩
    have hcell := (hone _ (fun _ => rfl) hu).conditions.2 column hcolumn t htq
    rw [sample_tenant hcolumn] at hcell
    exact hut (Option.some.inj hcell)

/-- A query without joins and groups, of the rows that the write is about, carries over. -/
lemma Bulk.carriesOver_of_plain (hjoins : query.joins = []) (hgroup : query.groupBy = [])
    (hhaving : query.having = []) (hlimit : (query.applyRowCap cap).limit = none)
    (hoffset : query.offset.getD 0 = 0)
    (haccepted : E.tenant.isSome → query.tenant.isSome ∨ query.acrossTenants)
    (hmode : query.deleted = if self.skipsDeleted then .live else .any)
    (htenant : query.tenant = self.tenant) : self.CarriesOver E cap query where
  accepted := haccepted
  names := by simp [hjoins]
  mode _ := by
    rw [hmode]
    cases self.skipsDeleted with
    | false => exact .inl rfl
    | true => exact .inr ⟨rfl, rfl⟩
  tenant _ t ht := htenant ▸ ht
  unlimited := hlimit
  fromStart := hoffset
  kept server filters db q w _ hq hw hresolves row hrow hhits := by
    obtain ⟨-, hsource, -, hfilters, -⟩ := Select.rows_eq_ok hq
    have hplain : q.joins = [] ∧ q.groupBy = [] ∧ q.having = [] := by
      obtain ⟨_, -, hq⟩ := Fallible.bind_eq_ok.mp hq
      obtain ⟨_, -, hq⟩ := Fallible.bind_eq_ok.mp hq
      obtain rfl := Except.ok.inj hq
      simp only [Select.applyRowCap]
      split <;> simp [hjoins, hgroup, hhaving]
    have hadmits : self.Admits E row := by
      rw [Hits, hfilters, Select.keeps_conditions (Env.only_self _ _)] at hhits
      exact ⟨hmode ▸ hhits.1, htenant ▸ hhits.2.1⟩
    refine iff_of_true ⟨Env.only E.table row, ?_, Env.only_self _ _⟩ hadmits
    rw [server.group_of_nil q db _ hplain.2.1 hplain.2.2, SqlSelect.mem_selected,
      SqlSelect.joined, hplain.1, hsource]
    exact ⟨List.mem_map_of_mem hrow, hhits⟩

end

/-! ### Posts -/

/-- An entity whose rows are hidden before they are removed. -/
def posts : Entity where
  name := "Post"
  table := "posts"
  columns := [⟨"id", .i64, true, false⟩, ⟨"deleted_at", .timestamp, false, true⟩]
  softDelete := some "deleted_at"

lemma ownKey_posts : posts.OwnKey := by decide

end Moso.Orm
