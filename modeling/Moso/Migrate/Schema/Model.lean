import Moso.Migrate.Schema.Types

/-!
# The schema model

What a snapshot records of a database: tables with their columns, keys, indexes and constraints,
enums, schemas and extensions. Names and SQL text are lists of characters. A map is a list whose
elements have distinct names, in the order of the names.
-/

namespace Moso.Migrate

open Sql (DataType)
open Text (splitOnce)

/-! ### Columns -/

/-- What a generated column is computed from. -/
structure Generated where
  expression : List Char
  stored : Bool
  deriving DecidableEq

inductive IdentityKind where
  | always
  | byDefault
  deriving DecidableEq

structure Column where
  name : List Char
  /-- The spelling of its type. -/
  dataType : List Char
  /-- The field of the entity that it comes from. -/
  field : Option (List Char) := none
  nullable : Bool := false
  default : Option (List Char) := none
  generated : Option Generated := none
  identity : Option IdentityKind := none
  collation : Option (List Char) := none
  comment : Option (List Char) := none
  deriving DecidableEq

namespace Column

variable (column other : Column)

/-- `DataType::is_auto_increment`. -/
def isAutoIncrement : DataType → Bool
  | .smallSerial | .serial | .bigSerial => true
  | _ => false

/-- Whether the database fills it in itself. -/
def isAutoPopulated : Bool :=
  column.identity.isSome || column.generated.isSome ||
    match parse column.dataType with
    | .ok dataType => isAutoIncrement dataType
    | .error _ => false

/-- Whether existing rows need a value when it is added. -/
def needsAFillValue : Bool :=
  !column.nullable && column.default.isNone && !column.isAutoPopulated

def matchesIgnoringName : Bool :=
  column.dataType = other.dataType && column.nullable = other.nullable &&
    column.default = other.default && column.generated = other.generated &&
    column.identity = other.identity && column.collation = other.collation

end Column

/-! ### Indexes -/

inductive SortOrder where
  | asc
  | desc
  deriving DecidableEq

inductive NullsOrder where
  | first
  | last
  deriving DecidableEq

/-- One column or expression of an index. -/
structure IndexPart where
  expr : List Char
  /-- Whether `expr` is a column's name. -/
  column : Bool := true
  sort : Option SortOrder := none
  nulls : Option NullsOrder := none
  ops : Option (List Char) := none
  collation : Option (List Char) := none
  deriving DecidableEq

def IndexPart.columnName (part : IndexPart) : Option (List Char) :=
  if part.column then some part.expr else none

structure Index where
  name : List Char
  columns : List IndexPart
  unique : Bool := false
  method : Option (List Char) := none
  predicate : Option (List Char) := none
  include_ : List (List Char) := []
  nullsNotDistinct : Bool := false
  /-- Whether a constraint owns it. -/
  constraint : Bool := false
  deriving DecidableEq

/-- Whether a constraint owns an index does not count. -/
def Index.matchesIgnoringName (index other : Index) : Bool :=
  index.columns = other.columns && index.unique = other.unique && index.method = other.method &&
    index.predicate = other.predicate && index.include_ = other.include_ &&
    index.nullsNotDistinct = other.nullsNotDistinct

/-! ### Constraints -/

inductive Action where
  | noAction
  | restrict
  | cascade
  | setNull
  | setDefault
  deriving DecidableEq

structure ForeignKey where
  name : List Char
  columns : List (List Char)
  /-- The qualified name of the table that it points at. -/
  target : List Char
  targetColumns : List (List Char)
  onDelete : Option Action := none
  onUpdate : Option Action := none
  deferrable : Bool := false
  initiallyDeferred : Bool := false
  deriving DecidableEq

structure Check where
  name : List Char
  expression : List Char
  deriving DecidableEq

structure Partition where
  strategy : List Char
  columns : List (List Char)
  deriving DecidableEq

/-! ### Tables -/

/-- The name of an object of a schema. -/
def qualify (schema : Option (List Char)) (name : List Char) : List Char :=
  match schema with
  | some schema => schema ++ '.' :: name
  | none => name

/-- Splits a qualified name back into its parts. -/
def unqualify (qualified : List Char) : Option (List Char) × List Char :=
  match splitOnce '.' qualified with
  | some (schema, name) => (some schema, name)
  | none => (none, qualified)

/-- A table; nothing in it has the name of another thing of its kind. -/
structure Table where
  name : List Char
  schema : Option (List Char) := none
  entity : Option (List Char) := none
  columns : List Column := []
  primaryKey : List (List Char) := []
  indexes : List Index := []
  foreignKeys : List ForeignKey := []
  checks : List Check := []
  partitionBy : Option Partition := none
  comment : Option (List Char) := none
  columns_nodup : (columns.map Column.name).Nodup := by decide
  indexes_nodup : (indexes.map Index.name).Nodup := by decide
  foreignKeys_nodup : (foreignKeys.map ForeignKey.name).Nodup := by decide
  checks_nodup : (checks.map Check.name).Nodup := by decide
  deriving DecidableEq

namespace Table

variable (table : Table)

def qualifiedName : List Char := qualify table.schema table.name

def column (name : List Char) : Option Column := table.columns.find? fun column => column.name = name

def index (name : List Char) : Option Index := table.indexes.find? fun index => index.name = name

end Table

/-- A schema; no two tables have one name. -/
structure Schema where
  tables : List Table
  tables_nodup : (tables.map Table.qualifiedName).Nodup := by decide
  deriving DecidableEq

def Schema.table (schema : Schema) (qualifiedName : List Char) : Option Table :=
  schema.tables.find? fun table => table.qualifiedName = qualifiedName

end Moso.Migrate
