import Moso.Sql.DataType

/-!
# Statements that define tables and indexes

The tree of a statement, which a dialect renders. An expression is the text it is rendered as.
-/

namespace Moso.Sql

structure TableRef where
  schema : Option Ident
  name : Ident
  deriving DecidableEq

/-- SQL text; a question mark is doubled, as a single one is a placeholder. -/
abbrev RawExpr := List Char

/-! ### Tables -/

inductive GeneratedSpec where
  | stored (expr : RawExpr)
  | virtual (expr : RawExpr)
  deriving DecidableEq

inductive Identity where
  | always
  | byDefault
  deriving DecidableEq

structure ColumnSpec where
  name : Ident
  dataType : DataType
  nullable : Bool
  default : Option RawExpr := none
  generated : Option GeneratedSpec := none
  identity : Option Identity := none
  collation : Option Ident := none
  primaryKey : Bool := false
  deriving DecidableEq

inductive ReferentialAction where
  | noAction
  | restrict
  | cascade
  | setNull
  | setDefault
  deriving DecidableEq

structure ForeignKeySpec where
  name : Option Ident
  columns : List Ident
  target : TableRef
  targetColumns : List Ident
  onDelete : Option ReferentialAction := none
  onUpdate : Option ReferentialAction := none
  /-- Whether a deferrable key is initially deferred. -/
  deferrable : Option Bool := none
  notValid : Bool := false
  deriving DecidableEq

inductive TableConstraint where
  | primaryKey (name : Option Ident) (columns : List Ident)
  | unique (name : Option Ident) (columns : List Ident) (nullsNotDistinct : Bool)
  | foreignKey (key : ForeignKeySpec)
  | check (name : Option Ident) (expr : RawExpr) (notValid : Bool)
  deriving DecidableEq

inductive PartitionStrategy where
  | range
  | list
  | hash
  deriving DecidableEq

structure Partitioning where
  strategy : PartitionStrategy
  columns : List Ident
  deriving DecidableEq

structure CreateTable where
  table : TableRef
  columns : List ColumnSpec := []
  constraints : List TableConstraint := []
  partitionBy : Option Partitioning := none
  deriving DecidableEq

/-! ### Indexes -/

inductive IndexMethod where
  | btree
  | hash
  | gin
  | gist
  | spgist
  | brin
  | custom (name : Ident)
  deriving DecidableEq

/-- What an index is over: a column or an expression. -/
inductive TargetExpr where
  | column (name : Ident)
  | expr (sql : RawExpr)
  deriving DecidableEq

inductive Order where
  | asc
  | desc
  deriving DecidableEq

inductive Nulls where
  | first
  | last
  deriving DecidableEq

structure IndexTarget where
  expr : TargetExpr
  order : Option Order := none
  nulls : Option Nulls := none
  operatorClass : Option Ident := none
  collation : Option Ident := none
  deriving DecidableEq

structure CreateIndex where
  name : Ident
  table : TableRef
  targets : List IndexTarget
  unique : Bool := false
  concurrently : Bool := false
  method : Option IndexMethod := none
  include_ : List Ident := []
  predicate : Option RawExpr := none
  nullsNotDistinct : Bool := false
  deriving DecidableEq

/-! ### Statements -/

inductive Ddl where
  | createTable (create : CreateTable)
  | createIndex (create : CreateIndex)
  /-- `ALTER TABLE … ADD CONSTRAINT … UNIQUE USING INDEX …`. -/
  | addUniqueUsingIndex (table : TableRef) (name : Option Ident) (index : Ident)
  | comment (table : List Char) (column : Option (List Char)) (comment : Option (List Char))
  deriving DecidableEq

end Moso.Sql
