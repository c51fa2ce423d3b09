import Mathlib.Data.List.ReduceOption
import Mathlib.Logic.Function.Basic
import Moso.Foundation.Fallible
import Moso.Foundation.ThreeValued

/-!
# Entities, rows and conditions

What an entity says of its table, the rows that a database holds, and the conditions that the
query builders pass on: an expression is what it evaluates to, with the tables whose columns it
names. Nothing else in a row's surroundings may change its value, and this is a field of it.
-/

namespace Moso.Orm

open ThreeValued

abbrev Ident := String

inductive ValueKind where
  | unknown | bool | i8 | i16 | i32 | i64 | u8 | u16 | u32 | u64 | f32 | f64 | decimal | text
  | bytes | uuid | json | timestamp | dateTime | date | time | interval | array
  deriving DecidableEq

structure ColumnDef where
  name : Ident
  kind : ValueKind
  primaryKey : Bool := false
  nullable : Bool := false
  deriving DecidableEq

/-- An entity, with what its descriptor says of the columns that the builders manage. -/
structure Entity where
  name : String
  table : Ident
  columns : List ColumnDef
  softDelete : Option Ident := none
  tenant : Option Ident := none
  version : Option Ident := none
  updatedAt : Option Ident := none
  /-- A column is managed in one way only. -/
  managed_nodup : [softDelete, tenant, version, updatedAt].reduceOption.Nodup := by decide

inductive Error where
  | notFound (entity : String)
  | staleWrite (entity : String)
  /-- A condition names an entity that the statement neither reads nor has joined. -/
  | unjoined (entity missing : String) (joined : List String)
  | unfilteredWrite (operation table : String)
  | tenantMissing (entity : String)
  | incomplete (statement missing help : String)
  | invalidClause (clause reason help : String)
  | rowArity (row expected found : ℕ)
  | unsupported (feature : String)
  | decode (entity field expected found : String)
  /-- The server refused the statement. -/
  | database
  deriving DecidableEq

/-- The value under each column; `none` is `NULL`. -/
abbrev Row (V : Type) := Ident → Option V

/-- The rows of each table. -/
abbrev Database (V : Type) := Ident → List (Row V)

/-- The row that each table of a statement stands at; `none` where an outer join found none. -/
abbrev Env (V : Type) := Ident → Option (Row V)

section

variable {V α : Type}

namespace Env

/-- One table at one row. -/
def only (table : Ident) (row : Row V) : Env V := fun name => if name = table then some row else none

def extend (env : Env V) (name : Ident) (row : Option (Row V)) : Env V :=
  Function.update env name row

def cell (env : Env V) (table column : Ident) : Option V := (env table).bind (· column)

@[simp] lemma only_self (table : Ident) (row : Row V) : only table row table = some row :=
  if_pos rfl

@[simp] lemma cell_only (table column : Ident) (row : Row V) :
    (only table row).cell table column = row column := by
  rw [cell, only_self]
  rfl

lemma extend_of_ne {env : Env V} {name t : Ident} {row : Option (Row V)} (h : t ≠ name) :
    env.extend name row t = env t := by
  rw [extend, Function.update_of_ne h]

end Env

/-- An expression, with the tables whose columns it names. -/
structure Expr (V α : Type) where
  reads : List Ident
  eval : Database V → Env V → α
  eval_congr : ∀ db env env', (∀ t ∈ reads, env t = env' t) → eval db env = eval db env'

/-- An expression that is a truth value. -/
abbrev Condition (V : Type) := Expr V Truth

/-- An expression that is a value or `NULL`. -/
abbrev Scalar (V : Type) := Expr V (Option V)

namespace Expr

def column (table column : Ident) : Scalar V where
  reads := [table]
  eval _ env := env.cell table column
  eval_congr db env env' h := by rw [Env.cell, Env.cell, h table List.mem_cons_self]

def bound (value : Option V) : Scalar V where
  reads := []
  eval _ _ := value
  eval_congr _ _ _ _ := rfl

def constant (value : Truth) : Condition V where
  reads := []
  eval _ _ := value
  eval_congr _ _ _ _ := rfl

def isNull (e : Scalar V) : Condition V where
  reads := e.reads
  eval db env := ThreeValued.isNull (e.eval db env)
  eval_congr db env env' h := by rw [e.eval_congr db env env' h]

def isNotNull (e : Scalar V) : Condition V where
  reads := e.reads
  eval db env := (ThreeValued.isNull (e.eval db env)).not
  eval_congr db env env' h := by rw [e.eval_congr db env env' h]

def eq [DecidableEq V] (e e' : Scalar V) : Condition V where
  reads := e.reads ++ e'.reads
  eval db env := equal (e.eval db env) (e'.eval db env)
  eval_congr db env env' h := by
    rw [e.eval_congr db env env' fun t ht => h t (List.mem_append_left _ ht),
      e'.eval_congr db env env' fun t ht => h t (List.mem_append_right _ ht)]

/-- The condition keeps the row. -/
def Keeps (c : Condition V) (db : Database V) (env : Env V) : Prop := (c.eval db env).Holds

instance (c : Condition V) (db : Database V) (env : Env V) : Decidable (c.Keeps db env) :=
  inferInstanceAs (Decidable (Truth.Holds _))

lemma keeps_congr {c : Condition V} {db : Database V} {env env' : Env V}
    (h : ∀ t ∈ c.reads, env t = env' t) : c.Keeps db env ↔ c.Keeps db env' := by
  rw [Keeps, Keeps, c.eval_congr db env env' h]

@[simp] lemma keeps_isNull {t c : Ident} {db : Database V} {env : Env V} :
    (column t c).isNull.Keeps db env ↔ env.cell t c = none :=
  holds_isNull

@[simp] lemma keeps_isNotNull {t c : Ident} {db : Database V} {env : Env V} :
    (column t c).isNotNull.Keeps db env ↔ env.cell t c ≠ none :=
  holds_not_isNull

@[simp] lemma keeps_column_eq_bound [DecidableEq V] {t c : Ident} {v : V} {db : Database V}
    {env : Env V} : ((column t c).eq (bound (some v))).Keeps db env ↔ env.cell t c = some v :=
  holds_equal_some

end Expr

/-- An expression that remembers which entities it mentions. -/
structure Predicate (V : Type) where
  expr : Condition V
  entities : List String

namespace Predicate

/-- The first entity mentioned that is not in `scope`. -/
def missingFrom (self : Predicate V) (scope : List String) : Option String :=
  self.entities.find? fun entity => !scope.contains entity

lemma missingFrom_eq_none {p : Predicate V} {scope : List String} :
    p.missingFrom scope = none ↔ ∀ entity ∈ p.entities, entity ∈ scope := by
  rw [missingFrom, List.find?_eq_none]
  refine forall₂_congr fun entity _ => ?_
  rw [Bool.not_eq_true', Bool.not_eq_false, List.contains_iff_mem]

end Predicate

end

/-- Which rows of a soft-deletable entity a query is about. -/
inductive Deleted where
  | live
  | any
  | only
  deriving DecidableEq

namespace Entity

variable {V : Type} {E : Entity} {c d : Ident}

lemma softDelete_ne_tenant (hc : E.softDelete = some c) (hd : E.tenant = some d) : c ≠ d := by
  have h := E.managed_nodup
  rw [hc, hd, List.reduceOption_cons_of_some, List.nodup_cons] at h
  rintro rfl
  exact h.1 (List.reduceOption_mem_iff.mpr (by simp))

lemma softDelete_ne_version (hc : E.softDelete = some c) (hd : E.version = some d) : c ≠ d := by
  have h := E.managed_nodup
  rw [hc, hd, List.reduceOption_cons_of_some, List.nodup_cons] at h
  rintro rfl
  exact h.1 (List.reduceOption_mem_iff.mpr (by simp))

lemma tenant_ne_version (hc : E.tenant = some c) (hd : E.version = some d) : c ≠ d := by
  have h := E.managed_nodup
  rw [hc, hd] at h
  rintro rfl
  cases hs : E.softDelete <;> simp [hs, List.reduceOption_cons_of_some] at h

lemma tenant_ne_updatedAt (hc : E.tenant = some c) (hd : E.updatedAt = some d) : c ≠ d := by
  have h := E.managed_nodup
  rw [hc, hd] at h
  rintro rfl
  cases hs : E.softDelete <;> cases hv : E.version <;>
    simp [hs, hv, List.reduceOption_cons_of_some] at h

lemma version_ne_updatedAt (hc : E.version = some c) (hd : E.updatedAt = some d) : c ≠ d := by
  have h := E.managed_nodup
  rw [hc, hd] at h
  rintro rfl
  cases hs : E.softDelete <;> cases ht : E.tenant <;>
    simp [hs, ht, List.reduceOption_cons_of_some] at h

def requiresTenant (E : Entity) : Bool := E.tenant.isSome

/-- The predicate on the soft-delete column that `mode` asks for, if it asks for one. -/
def softDeletePredicate (E : Entity) (mode : Deleted) : Option (Predicate V) :=
  E.softDelete.bind fun column =>
    match mode with
    | .live => some ⟨(Expr.column E.table column).isNull, [E.name]⟩
    | .only => some ⟨(Expr.column E.table column).isNotNull, [E.name]⟩
    | .any => none

/-- The predicate that the row belongs to `tenant`. -/
def tenantPredicate [DecidableEq V] (E : Entity) (tenant : V) : Option (Predicate V) :=
  E.tenant.map fun column =>
    ⟨(Expr.column E.table column).eq (Expr.bound (some tenant)), [E.name]⟩

def primaryKeyColumns (E : Entity) : List Ident :=
  (E.columns.filter (·.primaryKey)).map (·.name)

end Entity

end Moso.Orm
