import Moso.Orm.Select

/-!
# The write builders

`INSERT`, `UPDATE` and `DELETE` over one entity: what each builder checks, the statement that it
becomes, and what running it does. The managed columns (tenant, version, timestamps) are filled in
here, unless the caller wrote them.
-/

namespace Moso.Orm

variable {V : Type}

/-- A statement that writes. -/
inductive WriteStatement (V : Type) where
  | insert (i : SqlInsert V)
  | update (u : SqlUpdate V)
  | delete (d : SqlDelete V)

/-- The database after the statement, and the rows that it wrote or removed; `none` when the server
refuses it. -/
def WriteStatement.run (server : Server V) (moment : Moment V) (db : Database V) :
    WriteStatement V → Option (Database V × List (Row V))
  | .insert i => i.run server moment db
  | .update u => u.run server moment db
  | .delete d => d.run server db

/-- The server knows the tables that the conditions name. -/
def WriteStatement.resolves : WriteStatement V → Bool
  | .insert _ => true
  | .update u => Resolves u.filters u.table
  | .delete d => Resolves d.filters d.table

lemma WriteStatement.resolves_of_run {server : Server V} {moment : Moment V} {db : Database V}
    {w : WriteStatement V} {out : Database V × List (Row V)}
    (h : w.run server moment db = some out) : w.resolves = true := by
  cases w with
  | insert i => rfl
  | update u => exact decide_eq_true (SqlUpdate.run_eq_some.1 h).1
  | delete d => exact decide_eq_true (SqlDelete.run_eq_some.1 h).1

inductive ConflictAction where
  | nothing
  | update (columns : List Ident)

/-- `DO UPDATE`. -/
def ConflictAction.writes : ConflictAction → Bool
  | .nothing  => false
  | .update _ => true

structure Conflict where
  target : List Ident
  action : ConflictAction

structure Insert (V : Type) where
  columns : List Ident
  rows : List (List (Option V))
  conflict : Option Conflict := none

structure Update (V : Type) where
  assignments : List (Assignment V) := []
  filters : List (Predicate V) := []
  allRows : Bool := false
  version : Option V := none
  tenant : Option V := none
  acrossTenants : Bool := false
  withDeleted : Bool := false

structure Delete (V : Type) where
  filters : List (Predicate V) := []
  allRows : Bool := false
  hard : Bool := false
  version : Option V := none
  tenant : Option V := none
  acrossTenants : Bool := false

/-- A mass write that neither a filter nor the caller's word justifies is refused. -/
def checkGuard (E : Entity) (operation : String) (filters : List (Predicate V)) (allRows : Bool) :
    Except Error Unit :=
  if allRows || !filters.isEmpty then pure () else throw (.unfilteredWrite operation E.name)

/-- Every filter is about the entity that is written. -/
def checkScope (E : Entity) (filters : List (Predicate V)) : Except Error Unit :=
  match filters.findSome? fun filter => filter.missingFrom [E.name] with
  | some missing => throw (.unjoined E.name missing [])
  | none => pure ()

section

variable [DecidableEq V]

/-- The condition that the row belongs to the tenant; an error when none was chosen. -/
def tenantCondition (E : Entity) (tenant : Option V) (acrossTenants : Bool) :
    Except Error (Option (Condition V)) :=
  match E.tenant with
  | none => pure none
  | some column =>
    match tenant, acrossTenants with
    | some t, _ => pure (some ((Expr.column E.table column).eq (Expr.bound (some t))))
    | none, true => pure none
    | none, false => throw (.tenantMissing E.name)

/-- The condition that the row still has the version that was read. -/
def versionCondition (E : Entity) (version : Option V) : Option (Condition V) :=
  version.bind fun expected =>
    E.version.map fun column => (Expr.column E.table column).eq (Expr.bound (some expected))

end

section

variable [DecidableEq V] {E : Entity} {tenant : Option V} {across : Bool}
  {filters : List (Predicate V)}

lemma tenantCondition_some {c : Ident} {t : V} (hE : E.tenant = some c) :
    tenantCondition E (some t) across =
      .ok (some ((Expr.column E.table c).eq (Expr.bound (some t)))) := by
  rw [tenantCondition, hE]
  rfl

/-- A write to a tenant-scoped entity with no tenant chosen is refused. -/
lemma tenantCondition_none (hE : E.tenant.isSome) :
    tenantCondition E (none : Option V) false = .error (.tenantMissing E.name) := by
  obtain ⟨c, hc⟩ := Option.isSome_iff_exists.mp hE
  rw [tenantCondition, hc]
  rfl

omit [DecidableEq V] in
lemma checkGuard_eq_ok {operation : String} {allRows : Bool} {u : Unit} :
    checkGuard E operation filters allRows = .ok u ↔ allRows = true ∨ filters ≠ [] := by
  rw [checkGuard]
  split
  · next h => exact iff_of_true rfl (by simpa using h)
  · next h => exact iff_of_false (by rintro ⟨⟩) (by simpa using h)

omit [DecidableEq V] in
/-- Every filter that is accepted is about the entity alone. -/
lemma checkScope_eq_ok {u : Unit} : checkScope E filters = .ok u ↔
    ∀ filter ∈ filters, ∀ entity ∈ filter.entities, entity = E.name := by
  rw [checkScope]
  split
  · next missing h =>
    refine iff_of_false (by rintro ⟨⟩) fun hall => ?_
    obtain ⟨filter, hfilter, hmissing⟩ := List.exists_of_findSome?_eq_some h
    have hnone : filter.missingFrom [E.name] = none :=
      Predicate.missingFrom_eq_none.mpr fun e he => by simp [hall filter hfilter e he]
    rw [hnone] at hmissing
    cases hmissing
  · next h =>
    refine iff_of_true rfl fun filter hfilter e he => ?_
    have := Predicate.missingFrom_eq_none.mp (List.findSome?_eq_none_iff.mp h filter hfilter) e he
    simpa using this

end

namespace Insert

/-- Set `column` to `value` in every row, in its place or as a further column. -/
def assign (self : Insert V) (column : Ident) (value : Option V) : Insert V :=
  if column ∈ self.columns then
    { self with rows := self.rows.map fun row => row.set (self.columns.idxOf column) value }
  else
    { self with columns := self.columns ++ [column], rows := self.rows.map (· ++ [value]) }

def set (self : Insert V) (column : Ident) (value : Option V) : Insert V :=
  self.assign column value

def scopedTo (E : Entity) (self : Insert V) (tenant : V) : Insert V :=
  match E.tenant with
  | some column => self.assign column (some tenant)
  | none => self

def nothingToInsert : Error :=
  .incomplete "INSERT" "any rows to insert"
    ("call `Entity::insert(row)` or `Entity::insert_many(rows)` with at least one row; an " ++
      "empty bulk insert is a no-op through `execute`, which reports zero rows")

def checkTenant (E : Entity) (self : Insert V) : Except Error Unit :=
  match E.tenant with
  | some column => if column ∈ self.columns then pure () else throw (.tenantMissing E.name)
  | none => pure ()

def checkArity (self : Insert V) : Except Error Unit :=
  match self.rows.zipIdx.find? fun row => row.1.length ≠ self.columns.length with
  | some row => throw (.rowArity row.2 self.columns.length row.1.length)
  | none => pure ()

/-- What `DO UPDATE` sets: the columns from the row being inserted, and `updated_at`. -/
def conflictAssignments (E : Entity) (columns : List Ident) : List (Assignment V) :=
  columns.map (fun column => ⟨column, .excluded column⟩) ++
    match E.updatedAt with
    | some updatedAt => if updatedAt ∈ columns then [] else [⟨updatedAt, .currentTimestamp⟩]
    | none => []

/-- The conflict clause in SQL. -/
def conflictClause (E : Entity) (conflict : Conflict) : Except Error (OnConflict V) :=
  match conflict.action with
  | .nothing => pure ⟨conflict.target, none⟩
  | .update columns =>
    if conflict.target.isEmpty then
      throw (.invalidClause "ON CONFLICT … DO UPDATE"
        ("no conflict target was named, and an update needs to know which " ++
          "unique index it is resolving")
        "name the column: `.on_conflict(User::EMAIL).do_update(..)`")
    else pure ⟨conflict.target, some (conflictAssignments E columns)⟩

def onConflict (E : Entity) (self : Insert V) : Except Error (Option (OnConflict V)) :=
  match self.conflict with
  | none => pure none
  | some conflict => (conflictClause E conflict).map some

/-- The rows that the insert is to put into the table. -/
def newRows (self : Insert V) (moment : Moment V) : List (Row V) :=
  self.rows.zipIdx.map fun p => SqlInsert.newRow self.columns p.1 (moment.defaults p.2)

/-- The rows in groups that fit under the parameter limit. A statement without columns inserts one
row of defaults. -/
def chunks (maxBindParams : ℕ) (self : Insert V) : List (List (List (Option V))) :=
  if self.columns.isEmpty then self.rows.map ([·])
  else Rows.chunks (max (maxBindParams / self.columns.length) 1) self.rows.length self.rows

def statements (E : Entity) (maxBindParams : ℕ) (self : Insert V) :
    Except Error (List (SqlInsert V)) :=
  if self.rows.isEmpty then throw nothingToInsert
  else do
    self.checkTenant E
    self.checkArity
    let conflict ← self.onConflict E
    return (self.chunks maxBindParams).map fun rows => ⟨E.table, self.columns, rows, conflict⟩

/-- What it takes for the insert to become statements, and what statements it becomes. -/
lemma statements_eq_ok {E : Entity} {n : ℕ} {self : Insert V} {is : List (SqlInsert V)}
    (h : self.statements E n = .ok is) : (∀ c ∈ E.tenant, c ∈ self.columns) ∧
      (∀ row ∈ self.rows, row.length = self.columns.length) ∧ ∃ conflict,
        self.onConflict E = .ok conflict ∧
          is = (self.chunks n).map fun rows => ⟨E.table, self.columns, rows, conflict⟩ := by
  rw [statements] at h
  split at h
  · cases h
  · obtain ⟨_, htenant, h⟩ := Fallible.bind_eq_ok.mp h
    obtain ⟨_, harity, h⟩ := Fallible.bind_eq_ok.mp h
    obtain ⟨conflict, hconflict, h⟩ := Fallible.bind_eq_ok.mp h
    refine ⟨fun c hc => ?_, fun row hrow => ?_, conflict, hconflict, (Except.ok.inj h).symm⟩
    · by_contra hne
      simp only [checkTenant, Option.mem_def.mp hc, if_neg hne] at htenant
      cases htenant
    · rw [checkArity] at harity
      split at harity
      · cases harity
      · next hfind =>
        obtain ⟨i, hi, rfl⟩ := List.getElem_of_mem hrow
        have hmem : (self.rows[i], i) ∈ self.rows.zipIdx :=
          List.mk_mem_zipIdx_iff_getElem?.mpr (List.getElem?_eq_getElem hi)
        simpa using List.find?_eq_none.mp hfind _ hmem

/-- An insert that may rewrite rows was told so, with the columns of the index. -/
lemma writes_of_onConflict {self : Insert V} {E : Entity} {server : Server V}
    {conflict : Option (OnConflict V)} (h : self.onConflict E = .ok conflict) {columns : List Ident}
    {rows : List (List (Option V))} {clash : Row V → Row V → Bool}
    (hdo : (conflict.bind (·.doUpdate)).isSome)
    (hclash : SqlInsert.clash server ⟨E.table, columns, rows, conflict⟩ = some clash) :
    ∃ conflict₀ ∈ self.conflict, conflict₀.action.writes = true ∧
      clash ∈ server.arbiter E.table conflict₀.target := by
  rw [onConflict] at h
  split at h
  · obtain rfl := Except.ok.inj h
    cases hdo
  · next conflict₀ hconflict =>
    obtain ⟨clause, hclause, rfl⟩ := Fallible.map_eq_ok.mp h
    rw [conflictClause] at hclause
    split at hclause
    · obtain rfl := Except.ok.inj hclause
      cases hdo
    · next columns' haction =>
      split at hclause
      · cases hclause
      · obtain rfl := Except.ok.inj hclause
        exact ⟨conflict₀, hconflict, by rw [haction]; rfl, hclash⟩

end Insert

/-- The defaults that are left after `n` rows. -/
def Moment.skip (moment : Moment V) (n : ℕ) : Moment V :=
  { moment with defaults := fun i => moment.defaults (i + n) }

/-- The rows that the statements are to put into the table. -/
def candidates : Moment V → List (SqlInsert V) → List (Row V)
  | _, []           => []
  | moment, i :: is => i.newRows moment ++ candidates (moment.skip i.rows.length) is

/-- Grouping the rows changes nothing about them. -/
lemma candidates_groups {table : Ident} {columns : List Ident} {conflict : Option (OnConflict V)}
    {moment : Moment V} {groups : List (List (List (Option V)))} :
    candidates moment (groups.map fun rows => ⟨table, columns, rows, conflict⟩) =
      groups.flatten.zipIdx.map fun p =>
        SqlInsert.newRow columns p.1 (moment.defaults p.2) := by
  induction groups generalizing moment with
  | nil => rfl
  | cons rows groups ih =>
    rw [List.map_cons, candidates, ih, List.flatten_cons, List.zipIdx_append, List.map_append,
      Nat.zero_add, List.zipIdx_eq_map_add (i := rows.length), List.map_map]
    refine congrArg _ (List.map_congr_left fun p _ => ?_)
    simp only [Function.comp_apply, Moment.skip, Nat.add_comm p.2]

lemma Insert.flatten_chunks {n : ℕ} {self : Insert V} : (self.chunks n).flatten = self.rows := by
  rw [chunks]
  split
  · rw [← List.flatMap_def, List.flatMap_singleton']
  · exact Rows.flatten_chunks (by omega) le_rfl

/-- Statements one after the other, until one is refused. -/
def runInserts (server : Server V) : Moment V → Database V → List (SqlInsert V) →
    Database V × Except Error (List (Row V))
  | _, db, []           => (db, .ok [])
  | moment, db, i :: is =>
    match i.run server moment db with
    | none => (db, .error .database)
    | some out =>
      let rest := runInserts server (moment.skip i.rows.length) out.1 is
      (rest.1, rest.2.map (out.2 ++ ·))

/-- Run the insert: the database after it, and the rows that it wrote. -/
def Insert.run (server : Server V) (moment : Moment V) (E : Entity) (maxBindParams : ℕ)
    (self : Insert V) (db : Database V) : Database V × Except Error (List (Row V)) :=
  if self.rows.isEmpty then (db, .ok [])
  else match self.statements E maxBindParams with
    | .error e => (db, .error e)
    | .ok statements => runInserts server moment db statements

/-- What running one statement does. -/
def WriteStatement.execute (server : Server V) (moment : Moment V) (db : Database V)
    (statement : Except Error (WriteStatement V)) : Database V × Except Error (List (Row V)) :=
  match statement with
  | .error e => (db, .error e)
  | .ok statement => match statement.run server moment db with
    | none => (db, .error .database)
    | some out => (out.1, .ok out.2)

/-- The ways to run an update or a delete. -/
inductive Running where
  | execute
  | fetchOne
  | fetchAll
  deriving DecidableEq

/-- What becomes of an empty answer: to expect a version and match no row is to be stale. -/
def Running.judge (E : Entity) (expectsVersion : Bool) (running : Running)
    (rows : List (Row V)) : Except Error (List (Row V)) :=
  match running with
  | .execute => if expectsVersion && rows.isEmpty then .error (.staleWrite E.name) else .ok rows
  | .fetchOne =>
    match rows with
    | [] => .error (if expectsVersion then .staleWrite E.name else .notFound E.name)
    | row :: _ => .ok [row]
  | .fetchAll => .ok rows

lemma Running.judge_subset {E : Entity} {expects : Bool} {running : Running}
    {rows rows' : List (Row V)} (h : running.judge E expects rows = .ok rows') : rows' ⊆ rows := by
  cases running with
  | execute =>
    simp only [judge] at h
    split at h
    · cases h
    · obtain rfl := Except.ok.inj h
      exact List.Subset.refl _
  | fetchOne =>
    cases rows with
    | nil => cases h
    | cons row rows =>
      obtain rfl := Except.ok.inj h
      simp
  | fetchAll =>
    obtain rfl := Except.ok.inj h
    exact List.Subset.refl _

section

variable [DecidableEq V]

namespace Update

/-- The update of the rows that these filters select. -/
def fromFilters (filters : List (Predicate V)) : Update V := { filters }

def byKey (E : Entity) (key : V) : Update V :=
  match E.columns.find? (·.primaryKey) with
  | none => {}
  | some primary =>
    { filters := [⟨(Expr.column E.table primary.name).eq (Expr.bound (some key)), [E.name]⟩] }

def assigns (self : Update V) (column : Ident) : Bool :=
  self.assignments.any fun a => a.column = column

def nothingToSet : Error :=
  .incomplete "UPDATE" "anything to set"
    "call `.set(Column, value)`, `.set_with(Column, |current| …)` or `.set_null(..)`"

/-- The columns that the builder writes when the caller does not. -/
def managed (E : Entity) (self : Update V) : List (Assignment V) :=
  ((E.updatedAt.filter fun column => !self.assigns column).map
      fun column => ⟨column, .currentTimestamp⟩).toList ++
    ((E.version.filter fun column => !self.assigns column).map
      fun column => ⟨column, .plusOne column⟩).toList

/-- The conditions of the statement, after those of the caller. -/
def conditions (E : Entity) (self : Update V) (tenant : Option (Condition V)) :
    List (Condition V) :=
  self.filters.map Predicate.expr ++ (versionCondition E self.version).toList ++ tenant.toList ++
    if self.withDeleted then []
    else (E.softDelete.map fun column => (Expr.column E.table column).isNull).toList

def toStatement (E : Entity) (self : Update V) : Except Error (SqlUpdate V) := do
  checkGuard E "UPDATE" self.filters self.allRows
  checkScope E self.filters
  if self.assignments.isEmpty then throw nothingToSet
  else do
    let tenant ← tenantCondition E self.tenant self.acrossTenants
    return ⟨E.table, self.assignments ++ self.managed E, self.conditions E tenant⟩

omit [DecidableEq V] in
lemma column_of_mem_managed {E : Entity} {self : Update V} {a : Assignment V}
    (h : a ∈ self.managed E) : E.updatedAt = some a.column ∨ E.version = some a.column := by
  rcases List.mem_append.mp h with h | h
  · obtain ⟨column, hcolumn, rfl⟩ := Option.map_eq_some_iff.mp (Option.mem_toList.mp h)
    exact .inl ((Option.filter_eq_some_iff.mp hcolumn).1)
  · obtain ⟨column, hcolumn, rfl⟩ := Option.map_eq_some_iff.mp (Option.mem_toList.mp h)
    exact .inr ((Option.filter_eq_some_iff.mp hcolumn).1)

/-- What it takes for the update to become a statement, and what statement it becomes. -/
lemma toStatement_eq_ok {E : Entity} {self : Update V} {u : SqlUpdate V} :
    self.toStatement E = .ok u ↔ (self.allRows = true ∨ self.filters ≠ []) ∧
      (∀ filter ∈ self.filters, ∀ entity ∈ filter.entities, entity = E.name) ∧
        self.assignments ≠ [] ∧ ∃ tenant,
          tenantCondition E self.tenant self.acrossTenants = .ok tenant ∧
            u = ⟨E.table, self.assignments ++ self.managed E, self.conditions E tenant⟩ := by
  rw [toStatement, Fallible.bind_eq_ok]
  constructor
  · rintro ⟨_, hguard, h⟩
    obtain ⟨_, hscope, h⟩ := Fallible.bind_eq_ok.mp h
    split at h
    · cases h
    · next hassign =>
      obtain ⟨tenant, htenant, h⟩ := Fallible.bind_eq_ok.mp h
      exact ⟨checkGuard_eq_ok.1 hguard, checkScope_eq_ok.1 hscope,
        by simpa using hassign, tenant, htenant, (Except.ok.inj h).symm⟩
  · rintro ⟨hguard, hscope, hassign, tenant, htenant, rfl⟩
    refine ⟨(), checkGuard_eq_ok.2 hguard, Fallible.bind_eq_ok.mpr ⟨(), ?_, ?_⟩⟩
    · exact checkScope_eq_ok.2 hscope
    · rw [if_neg (by simpa using hassign)]
      exact Fallible.bind_eq_ok.mpr ⟨tenant, htenant, rfl⟩

/-- Run the update: the database after it, and the rows that it rewrote. -/
def run (server : Server V) (moment : Moment V) (E : Entity) (running : Running) (self : Update V)
    (db : Database V) : Database V × Except Error (List (Row V)) :=
  if running = .execute ∧ self.assignments.isEmpty then (db, .ok [])
  else
    let out := WriteStatement.execute server moment db ((self.toStatement E).map .update)
    (out.1, out.2.bind (running.judge E self.version.isSome))

end Update

namespace Delete

def fromFilters (filters : List (Predicate V)) : Delete V := { filters }

def byKey (E : Entity) (key : V) : Delete V :=
  match E.columns.find? (·.primaryKey) with
  | none => {}
  | some primary =>
    { filters := [⟨(Expr.column E.table primary.name).eq (Expr.bound (some key)), [E.name]⟩] }

/-- The conditions of the statement. -/
def conditions (E : Entity) (self : Delete V) (tenant : Option (Condition V)) :
    List (Condition V) :=
  self.filters.map Predicate.expr ++ (versionCondition E self.version).toList ++ tenant.toList

/-- What a soft delete sets. -/
def softAssignments (E : Entity) (column : Ident) : List (Assignment V) :=
  ⟨column, .currentTimestamp⟩ ::
    ((E.updatedAt.map fun column => ⟨column, .currentTimestamp⟩).toList ++
      (E.version.map fun column => ⟨column, .plusOne column⟩).toList)

/-- The column that hides a row, unless rows are to be removed. -/
def softColumn (E : Entity) (self : Delete V) : Option Ident :=
  if self.hard then none else E.softDelete

/-- The rows are hidden by an update, or they are removed. -/
def removal (E : Entity) (self : Delete V) (conditions : List (Condition V)) : WriteStatement V :=
  match self.softColumn E with
  | some column =>
    .update ⟨E.table, softAssignments E column,
      conditions ++ [(Expr.column E.table column).isNull]⟩
  | none => .delete ⟨E.table, conditions⟩

omit [DecidableEq V] in
lemma softDelete_of_softColumn {E : Entity} {self : Delete V} {column : Ident}
    (h : self.softColumn E = some column) : E.softDelete = some column := by
  rw [softColumn] at h
  split at h
  · cases h
  · exact h

omit [DecidableEq V] in
lemma column_of_mem_softAssignments {E : Entity} {column : Ident} {a : Assignment V}
    (h : a ∈ softAssignments E column) :
    a.column = column ∨ E.updatedAt = some a.column ∨ E.version = some a.column := by
  rcases List.mem_cons.mp h with rfl | h
  · exact .inl rfl
  · rcases List.mem_append.mp h with h | h
    · obtain ⟨column, hcolumn, rfl⟩ := Option.map_eq_some_iff.mp (Option.mem_toList.mp h)
      exact .inr (.inl hcolumn)
    · obtain ⟨column, hcolumn, rfl⟩ := Option.map_eq_some_iff.mp (Option.mem_toList.mp h)
      exact .inr (.inr hcolumn)

def toStatement (E : Entity) (self : Delete V) : Except Error (WriteStatement V) := do
  checkGuard E "DELETE" self.filters self.allRows
  checkScope E self.filters
  let tenant ← tenantCondition E self.tenant self.acrossTenants
  return self.removal E (self.conditions E tenant)

/-- What it takes for the delete to become a statement, and what statement it becomes. -/
lemma toStatement_eq_ok {E : Entity} {self : Delete V} {w : WriteStatement V} :
    self.toStatement E = .ok w ↔ (self.allRows = true ∨ self.filters ≠ []) ∧
      (∀ filter ∈ self.filters, ∀ entity ∈ filter.entities, entity = E.name) ∧
        ∃ tenant, tenantCondition E self.tenant self.acrossTenants = .ok tenant ∧
          w = self.removal E (self.conditions E tenant) := by
  rw [toStatement, Fallible.bind_eq_ok]
  constructor
  · rintro ⟨_, hguard, h⟩
    obtain ⟨_, hscope, h⟩ := Fallible.bind_eq_ok.mp h
    obtain ⟨tenant, htenant, h⟩ := Fallible.bind_eq_ok.mp h
    exact ⟨checkGuard_eq_ok.1 hguard, checkScope_eq_ok.1 hscope, tenant, htenant,
      (Except.ok.inj h).symm⟩
  · rintro ⟨hguard, hscope, tenant, htenant, rfl⟩
    refine ⟨(), checkGuard_eq_ok.2 hguard, Fallible.bind_eq_ok.mpr ⟨(), ?_, ?_⟩⟩
    · exact checkScope_eq_ok.2 hscope
    · exact Fallible.bind_eq_ok.mpr ⟨tenant, htenant, rfl⟩

/-- Run the delete: the database after it, and the rows that it hid or removed. -/
def run (server : Server V) (moment : Moment V) (E : Entity) (running : Running) (self : Delete V)
    (db : Database V) : Database V × Except Error (List (Row V)) :=
  let out := WriteStatement.execute server moment db (self.toStatement E)
  (out.1, out.2.bind (running.judge E self.version.isSome))

end Delete

/-! ### Other tables -/

variable {server : Server V} {moment : Moment V} {E : Entity} {db : Database V} {other : Ident}

omit [DecidableEq V] in
lemma Server.store_elsewhere {after : Database V} {table : Ident} {rows : List (Row V)}
    (h : server.store db table rows = some after) (ho : other ≠ table) : after other = db other := by
  obtain ⟨-, rfl⟩ := Server.store_eq_some.1 h
  exact Function.update_of_ne ho _ _

omit [DecidableEq V] in
lemma runInserts_elsewhere {is : List (SqlInsert V)} (his : ∀ i ∈ is, other ≠ i.table) :
    (runInserts server moment db is).1 other = db other := by
  induction is generalizing moment db with
  | nil => rfl
  | cons i is ih =>
    rw [runInserts]
    cases hrun : i.run server moment db with
    | none => rfl
    | some out =>
      obtain ⟨_, _, -, -, hstore⟩ := SqlInsert.run_eq_some.mp hrun
      exact (ih fun j hj => his j (List.mem_cons_of_mem i hj)).trans
        (Server.store_elsewhere hstore (his i List.mem_cons_self))

omit [DecidableEq V] in
lemma Insert.run_elsewhere {n : ℕ} {self : Insert V} (ho : other ≠ E.table) :
    (self.run server moment E n db).1 other = db other := by
  rw [Insert.run]
  split
  · rfl
  · split
    · rfl
    · next is his =>
      obtain ⟨-, -, conflict, -, rfl⟩ := Insert.statements_eq_ok his
      refine runInserts_elsewhere fun i hi => ?_
      obtain ⟨rows, -, rfl⟩ := List.mem_map.mp hi
      exact ho

omit [DecidableEq V] in
lemma SqlUpdate.run_elsewhere {u : SqlUpdate V} {after : Database V} {rows : List (Row V)}
    (h : u.run server moment db = some (after, rows)) (ho : other ≠ u.table) :
    after other = db other := by
  obtain ⟨-, _, -, hstore⟩ := SqlUpdate.run_eq_some.1 h
  exact Server.store_elsewhere hstore ho

omit [DecidableEq V] in
lemma SqlDelete.run_elsewhere {d : SqlDelete V} {after : Database V} {rows : List (Row V)}
    (h : d.run server db = some (after, rows)) (ho : other ≠ d.table) :
    after other = db other := by
  obtain ⟨-, hstore, -⟩ := SqlDelete.run_eq_some.1 h
  exact Server.store_elsewhere hstore ho

omit [DecidableEq V] in
lemma WriteStatement.execute_elsewhere {statement : Except Error (WriteStatement V)}
    (h : ∀ w after rows, statement = .ok w → w.run server moment db = some (after, rows) →
      after other = db other) :
    (WriteStatement.execute server moment db statement).1 other = db other := by
  cases statement with
  | error e => rfl
  | ok w =>
    rw [execute]
    cases hrun : w.run server moment db with
    | none => rfl
    | some out => exact h w out.1 out.2 rfl hrun

lemma Update.run_elsewhere {running : Running} {self : Update V} (ho : other ≠ E.table) :
    (self.run server moment E running db).1 other = db other := by
  rw [Update.run]
  split
  · rfl
  · refine WriteStatement.execute_elsewhere fun w after rows hw hrun => ?_
    obtain ⟨u, hu, rfl⟩ := Fallible.map_eq_ok.mp hw
    obtain ⟨-, -, -, tenant, -, rfl⟩ := Update.toStatement_eq_ok.mp hu
    exact SqlUpdate.run_elsewhere hrun ho

lemma Delete.run_elsewhere {running : Running} {self : Delete V} (ho : other ≠ E.table) :
    (self.run server moment E running db).1 other = db other := by
  refine WriteStatement.execute_elsewhere fun w after rows hw hrun => ?_
  obtain ⟨-, -, tenant, -, rfl⟩ := Delete.toStatement_eq_ok.mp hw
  rw [Delete.removal] at hrun
  split at hrun
  · exact SqlUpdate.run_elsewhere hrun ho
  · exact SqlDelete.run_elsewhere hrun ho

end

end Moso.Orm
