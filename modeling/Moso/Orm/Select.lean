import Moso.Orm.Statement

/-!
# The query builder

A query over one entity, and the statements it becomes: the rows, a count, an existence test and a
subquery all go through `build`, which puts the soft-delete predicate and the tenant predicate in
front of the caller's filters.
-/

namespace Moso.Orm

variable {V : Type}

/-- A query over an entity. -/
structure Select (V : Type) where
  filters : List (Predicate V) := []
  joins : List (Joined V) := []
  order : List (OrderTerm V) := []
  groupBy : List (Scalar V) := []
  having : List (Condition V) := []
  limit : Option ℕ := none
  offset : Option ℕ := none
  distinct : Bool := false
  deleted : Deleted := .live
  tenant : Option V := none
  acrossTenants : Bool := false
  unlimited : Bool := false

/-- What the rendered statement puts between `SELECT` and `FROM`. -/
inductive Shape (V : Type) where
  | entity
  | items (items : List (Scalar V))
  | expr (expr : Scalar V)

def Shape.projection (E : Entity) : Shape V → List (Scalar V)
  | .entity      => E.columns.map fun column => Expr.column E.table column.name
  | .items exprs => exprs
  | .expr e      => [e]

/-- The forms in which a query is run. -/
inductive Reading (V : Type) where
  | rows
  | project (items : List (Scalar V))
  | count
  | existence
  | subquery (column : Ident)

/-- An `ORDER BY` term with an explicit place for `NULL`s. -/
def pinNullOrder (term : OrderTerm V) : OrderTerm V :=
  match term.nulls with
  | some _ => term
  | none => match term.order with
    | .desc => { term with nulls := some .first }
    | .asc => { term with nulls := some .last }

namespace Select

/-- The entities whose columns a filter may mention. -/
def scope (E : Entity) (self : Select V) : List String :=
  self.joins.foldl (fun scope j => if j.entity ∈ scope then scope else scope ++ [j.entity]) [E.name]

/-- Every filter is about entities that the query reads. -/
def checkScope (E : Entity) (self : Select V) : Except Error Unit :=
  match self.filters.findSome? fun filter => filter.missingFrom (self.scope E) with
  | some missing => throw (.unjoined E.name missing (self.scope E).tail)
  | none => pure ()

def checkTenant (E : Entity) (self : Select V) : Except Error Unit :=
  if E.requiresTenant && self.tenant.isNone && !self.acrossTenants then
    throw (.tenantMissing E.name)
  else pure ()

variable [DecidableEq V]

/-- The conditions of the statement: the framework's predicates go first. -/
def conditions (E : Entity) (self : Select V) : List (Condition V) :=
  ((E.softDeletePredicate self.deleted).toList ++
    (self.tenant.bind E.tenantPredicate).toList ++ self.filters).map Predicate.expr

/-- The statement, with what `shape` says of its projection. -/
def build (E : Entity) (self : Select V) (shape : Shape V) : Except Error (SqlSelect V) := do
  self.checkScope E
  self.checkTenant E
  return {
    source := E.table
    items := shape.projection E
    distinct := self.distinct
    joins := self.joins
    filters := self.conditions E
    groupBy := self.groupBy
    having := self.having
    order := self.order.map pinNullOrder
    limit := self.limit
    offset := self.offset }

def toStatement (E : Entity) (self : Select V) : Except Error (SqlSelect V) :=
  self.build E .entity

/-- The statement whose rows are counted. -/
def toCountStatement (E : Entity) (self : Select V) : Except Error (SqlSelect V) :=
  if self.groupBy.isEmpty && !self.distinct then
    { self with order := [], limit := none, offset := none }.build E (.items [])
  else { self with order := [] }.build E .entity

/-- The statement that an `EXISTS` is about. -/
def toSubquery (E : Entity) (self : Select V) : Except Error (SqlSelect V) :=
  { self with order := [] }.build E (.expr (Expr.bound none))

def toExistsStatement (E : Entity) (self : Select V) : Except Error (SqlSelect V) :=
  { self with limit := some (self.limit.elim 1 (min · 1)) }.toSubquery E

def toColumnSubquery (E : Entity) (self : Select V) (column : Ident) :
    Except Error (SqlSelect V) :=
  self.build E (.expr (Expr.column E.table column))

/-- The cap that a query with no limit of its own gets; `0` is no cap. -/
def applyRowCap (cap : ℕ) (self : Select V) : Select V :=
  if self.limit.isSome || self.unlimited || cap = 0 then self else { self with limit := some cap }

/-- The statement that one way of running the query sends. -/
def statement (E : Entity) (cap : ℕ) (self : Select V) : Reading V → Except Error (SqlSelect V)
  | .rows => (self.applyRowCap cap).toStatement E
  | .project items => (self.applyRowCap cap).build E (.items items)
  | .count => self.toCountStatement E
  | .existence => self.toExistsStatement E
  | .subquery column => self.toColumnSubquery E column

/-- However the query is run, its statement reads the entity's table under the query's conditions,
and no tenant-scoped entity is read with no tenant chosen. -/
theorem statement_eq_ok {E : Entity} {cap : ℕ} {self : Select V} {reading : Reading V}
    {q : SqlSelect V} (h : self.statement E cap reading = .ok q) :
    q.source = E.table ∧ q.filters = self.conditions E ∧ q.joins = self.joins ∧
      (E.tenant.isSome → self.tenant.isSome ∨ self.acrossTenants) := by
  have hbuild : ∀ (s : Select V) (shape : Shape V), s.filters = self.filters →
      s.joins = self.joins → s.deleted = self.deleted → s.tenant = self.tenant →
      s.acrossTenants = self.acrossTenants → s.build E shape = .ok q →
      q.source = E.table ∧ q.filters = self.conditions E ∧ q.joins = self.joins ∧
        (E.tenant.isSome → self.tenant.isSome ∨ self.acrossTenants) := by
    intro s shape hf hj hd ht ha hb
    obtain ⟨_, -, hb⟩ := Fallible.bind_eq_ok.mp hb
    obtain ⟨_, hcheck, hb⟩ := Fallible.bind_eq_ok.mp hb
    obtain rfl := Except.ok.inj hb
    refine ⟨rfl, by simp only [conditions, hf, hd, ht], hj, fun hE => ?_⟩
    by_contra hne
    obtain ⟨hnone, hacross⟩ := not_or.mp hne
    rw [Option.not_isSome_iff_eq_none] at hnone
    rw [checkTenant, ht, ha, if_pos (by simp [Entity.requiresTenant, hE, hnone, hacross])] at hcheck
    cases hcheck
  cases reading with
  | rows =>
    refine hbuild _ _ ?_ ?_ ?_ ?_ ?_ h <;> (rw [applyRowCap]; split <;> rfl)
  | project items =>
    refine hbuild _ _ ?_ ?_ ?_ ?_ ?_ h <;> (rw [applyRowCap]; split <;> rfl)
  | count =>
    rw [statement, toCountStatement] at h
    split at h
    · refine hbuild _ _ ?_ ?_ ?_ ?_ ?_ h <;> rfl
    · refine hbuild _ _ ?_ ?_ ?_ ?_ ?_ h <;> rfl
  | existence => refine hbuild _ _ ?_ ?_ ?_ ?_ ?_ h <;> rfl
  | subquery column => exact hbuild _ _ rfl rfl rfl rfl rfl h

/-- A query on a tenant-scoped entity with no tenant chosen becomes no statement. -/
theorem statement_of_no_tenant {E : Entity} {cap : ℕ} {self : Select V} {reading : Reading V}
    (hE : E.tenant.isSome) (ht : self.tenant = none) (ha : self.acrossTenants = false) :
    ∃ e, self.statement E cap reading = .error e := by
  cases h : self.statement E cap reading with
  | error e => exact ⟨e, rfl⟩
  | ok q =>
    rcases (statement_eq_ok h).2.2.2 hE with hsome | hacross
    · simp [ht] at hsome
    · simp [ha] at hacross

end Select

end Moso.Orm
