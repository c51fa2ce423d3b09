import Moso.Migrate.Ledger
import Moso.Migrate.Schema.Model
import Moso.Sql.Ddl

/-!
# Planning tables and indexes

From the schema model to the statements that create a table with its indexes, and those that add
an index to a table that exists.
-/

namespace Moso.Migrate

open Sql (CreateIndex CreateTable Ddl Ident IndexMethod IndexTarget TableConstraint TableRef)

inductive PlanError where
  | spelling (error : SpellingError)
  | unsupported (backend operation help : String)
  deriving DecidableEq

/-! ### Names and expressions -/

def ident (name : List Char) : Except PlanError Ident := (mkIdent name).mapError .spelling

def idents (names : List (List Char)) : Except PlanError (List Ident) := names.mapM ident

def tableRef (qualified : List Char) : Except PlanError TableRef :=
  match unqualify qualified with
  | (some schema, name) => do
    let schema ← ident schema
    let name ← ident name
    return ⟨some schema, name⟩
  | (none, name) => do
    let name ← ident name
    return ⟨none, name⟩

/-- SQL text as an expression that renders back verbatim. -/
def raw (sql : List Char) : Sql.RawExpr := sql.flatMap fun c => if c = '?' then ['?', '?'] else [c]

/-! ### Constraints -/

def Action.toSqlAction : Action → Sql.ReferentialAction
  | .noAction => .noAction
  | .restrict => .restrict
  | .cascade => .cascade
  | .setNull => .setNull
  | .setDefault => .setDefault

def foreignKeyDdl (foreignKey : ForeignKey) (notValid : Bool) : Except PlanError Sql.ForeignKeySpec := do
  let name ← ident foreignKey.name
  let columns ← idents foreignKey.columns
  let target ← tableRef foreignKey.target
  let targetColumns ← idents foreignKey.targetColumns
  return {
    name := some name
    columns
    target
    targetColumns
    onDelete := foreignKey.onDelete.map Action.toSqlAction
    onUpdate := foreignKey.onUpdate.map Action.toSqlAction
    deferrable := if foreignKey.deferrable then some foreignKey.initiallyDeferred else none
    notValid }

def checkDdl (check : Check) (notValid : Bool) : Except PlanError TableConstraint := do
  let name ← ident check.name
  return .check (some name) (raw check.expression) notValid

def partitionDdl (partition : Partition) : Except PlanError Sql.Partitioning := do
  let columns ← idents partition.columns
  let strategy : Sql.PartitionStrategy := match String.ofList partition.strategy with
    | "list" => .list
    | "hash" => .hash
    | _ => .range
  return ⟨strategy, columns⟩

/-! ### Tables -/

def columnSpec (column : Column) : Except PlanError Sql.ColumnSpec := do
  let name ← ident column.name
  let dataType ← (parse column.dataType).mapError .spelling
  let collation ← column.collation.mapM ident
  return {
    name
    dataType
    nullable := column.nullable
    default := column.default.map raw
    generated := column.generated.map fun generated =>
      if generated.stored then .stored (raw generated.expression)
      else .virtual (raw generated.expression)
    identity := column.identity.map fun
      | .always => .always
      | .byDefault => .byDefault
    collation }

/-- The column of a single-column primary key that the database numbers itself. -/
def inlineKey (table : Table) : Option (List Char) :=
  match table.primaryKey with
  | [only] => ((table.column only).filter fun column =>
      match parse column.dataType with
      | .ok dataType => Column.isAutoIncrement dataType
      | .error _ => false).map Column.name
  | _ => none

/-- The constraint of a primary key that is not written with its column. -/
def primaryKeyConstraint (table : Table) : Except PlanError (Option TableConstraint) :=
  if inlineKey table = none ∧ table.primaryKey ≠ [] then do
    let name ← ident (table.name ++ "_pkey".toList)
    let columns ← idents table.primaryKey
    return some (.primaryKey (some name) columns)
  else return none

/-- The constraint that carries a unique index, if one does. -/
def uniqueConstraint (index : Index) : Except PlanError (Option TableConstraint) :=
  if !(index.constraint && index.unique && index.predicate.isNone) then return none
  else
    let columns := index.columns.filterMap IndexPart.columnName
    if columns.length = index.columns.length then do
      let name ← ident index.name
      let columns ← idents columns
      return some (.unique (some name) columns false)
    else return none

def uniqueConstraints (table : Table) (backend : Backend) :
    Except PlanError (List (Option TableConstraint)) :=
  if backend = .postgres then table.indexes.mapM uniqueConstraint else return []

def createTableDdl (table : Table) (backend : Backend) : Except PlanError CreateTable := do
  let reference ← tableRef table.qualifiedName
  let columns ← table.columns.mapM fun column => do
    let spec ← columnSpec column
    return if inlineKey table = some column.name then { spec with primaryKey := true } else spec
  let primaryKey ← primaryKeyConstraint table
  let uniques ← uniqueConstraints table backend
  let checks ← table.checks.mapM fun check => checkDdl check false
  let foreignKeys ← table.foreignKeys.mapM fun foreignKey => foreignKeyDdl foreignKey false
  let partitionBy ← table.partitionBy.mapM partitionDdl
  return {
    table := reference
    columns
    constraints := primaryKey.toList ++ uniques.reduceOption ++ checks ++
      foreignKeys.map TableConstraint.foreignKey
    partitionBy }

/-! ### Indexes -/

def indexMethod (method : List Char) : IndexMethod :=
  match String.ofList method with
  | "hash" => .hash
  | "gin" => .gin
  | "gist" => .gist
  | "spgist" => .spgist
  | "brin" => .brin
  | "btree" => .btree
  | _ => match Ident.mk' method with
    | .ok name => .custom name
    | .error _ => .btree

def targetExpr (part : IndexPart) : Except PlanError Sql.TargetExpr :=
  match part.columnName with
  | some name => (ident name).map .column
  | none => return .expr (raw part.expr)

def indexTarget (part : IndexPart) : Except PlanError IndexTarget := do
  let expr ← targetExpr part
  let operatorClass ← part.ops.mapM ident
  let collation ← part.collation.mapM ident
  return {
    expr
    order := part.sort.map fun
      | .asc => .asc
      | .desc => .desc
    nulls := part.nulls.map fun
      | .first => .first
      | .last => .last
    operatorClass
    collation }

/-- SQLite has one method only. -/
def createIndexMethod (index : Index) (backend : Backend) : Except PlanError (Option IndexMethod) :=
  match index.method with
  | some method =>
    if backend = .postgres then return some (indexMethod method)
    else if method ≠ "btree".toList then
      throw (.unsupported backend.asStr s!"build a `{String.ofList method}` index"
        ("SQLite has one index type; drop `method = \"...\"` from the index " ++
          "attribute, or keep this entity on PostgreSQL"))
    else return none
  | none => return none

/-- SQLite has no included columns. -/
def createIndexIncluded (index : Index) (backend : Backend) : Except PlanError (List Ident) :=
  if index.include_ ≠ [] ∧ backend = .postgres then idents index.include_ else return []

def createIndexDdl (table : List Char) (index : Index) (backend : Backend) (concurrent : Bool) :
    Except PlanError CreateIndex := do
  let targets ← index.columns.mapM indexTarget
  let name ← ident index.name
  let reference ← tableRef table
  let method ← createIndexMethod index backend
  let included ← createIndexIncluded index backend
  return {
    name
    table := reference
    targets
    unique := index.unique
    concurrently := concurrent && backend = .postgres
    method
    include_ := included
    predicate := index.predicate.map raw
    nullsNotDistinct := index.nullsNotDistinct && backend = .postgres }

/-- Whether a `CREATE TABLE` carries this index as an inline `UNIQUE` constraint. -/
def inlinedAsAConstraint (index : Index) (backend : Backend) : Bool :=
  backend = .postgres && index.constraint && index.unique && index.predicate.isNone &&
    index.columns.all (·.column)

/-! ### Plans -/

/-- The statements that create a table. -/
def planCreateTable (table : Table) (backend : Backend) : Except PlanError (List Ddl) := do
  let create ← createTableDdl table backend
  let indexes ← (table.indexes.filter fun index => !inlinedAsAConstraint index backend).mapM
    fun index => createIndexDdl table.qualifiedName index backend false
  let comments := if backend = .postgres then
      (table.comment.toList.map fun comment => Ddl.comment table.qualifiedName none (some comment)) ++
        table.columns.flatMap fun column => column.comment.toList.map fun comment =>
          Ddl.comment table.qualifiedName (some column.name) (some comment)
    else []
  return .createTable create :: indexes.map .createIndex ++ comments

/-- The statements that add an index to a table. -/
def planCreateIndex (table : List Char) (index : Index) (backend : Backend) :
    Except PlanError (List Ddl) := do
  let create ← createIndexDdl table index backend true
  if backend = .postgres ∧ index.unique = true ∧ index.constraint = true then
    let reference ← tableRef table
    let name ← ident index.name
    return [.createIndex create, .addUniqueUsingIndex reference (some name) name]
  else return [.createIndex create]

end Moso.Migrate
