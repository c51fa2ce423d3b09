import Moso.Foundation.Precedence

/-!
# Compound queries

A `SELECT` with the set operations that were called on it, the text that the renderer writes for
it, and what a server reads in that text. What stands between the set operators, from `SELECT` to
`WINDOW`, is one piece of text, and so is a common table expression.
-/

namespace Moso.Sql

open Precedence

/-- The dialects, as the renderer tells them apart. -/
inductive Flavor where
  | postgres
  | sqlite
  deriving DecidableEq

inductive SetOp where
  | union
  | unionAll
  | intersect
  | intersectAll
  | except
  | exceptAll
  deriving DecidableEq

inductive Error where
  | unsupported (construct help : String)
  | invalidClause (clause reason help : String)
  /-- What is refused inside one of the pieces. -/
  | piece (reason : String)
  deriving DecidableEq

/-- A `SELECT` statement. -/
structure Select (κ γ ω ℓ : Type) where
  ctes : List γ
  recursive : Bool
  /-- The part of the query that a set operation combines. -/
  core : κ
  orderTerms : List ω
  limit : Option ℕ
  offset : Option ℕ
  lock : Option ℓ
  setOps : List (SetOp × Select κ γ ω ℓ)

section

variable {κ γ ω ℓ : Type}

namespace Select

/-- Combines this query with another through a set operation. -/
def setOp (self : Select κ γ ω ℓ) (op : SetOp) (other : Select κ γ ω ℓ) : Select κ γ ω ℓ :=
  { self with setOps := self.setOps ++ [(op, other)] }

def union (self other : Select κ γ ω ℓ) : Select κ γ ω ℓ := self.setOp .union other
def unionAll (self other : Select κ γ ω ℓ) : Select κ γ ω ℓ := self.setOp .unionAll other
def intersect (self other : Select κ γ ω ℓ) : Select κ γ ω ℓ := self.setOp .intersect other
def except (self other : Select κ γ ω ℓ) : Select κ γ ω ℓ := self.setOp .except other

end Select

/-- What the renderer writes: the pieces of the text, in order. -/
inductive Token (κ γ ω ℓ : Type) where
  | withClause (recursive : Bool) (ctes : List γ)
  | core (core : κ)
  | setOp (op : SetOp)
  | orderBy (terms : List ω)
  /-- `LIMIT -1` is no limit. -/
  | limit (rows : Option ℕ)
  | offset (rows : ℕ)
  | lock (lock : ℓ)
  deriving DecidableEq

/-- A renderer for one dialect, with what it refuses of the pieces. -/
structure Renderer (κ γ ω ℓ : Type) where
  flavor : Flavor
  checkCore : κ → Except Error Unit
  checkCte : γ → Except Error Unit
  checkOrderTerms : List ω → Except Error Unit
  checkLock : ℓ → Except Error Unit
  /-- The query groups or deduplicates. -/
  aggregates : κ → Bool

namespace Renderer

variable (r : Renderer κ γ ω ℓ)

/-- `WITH [RECURSIVE] name AS (…), …`. -/
def withClause (ctes : List γ) (recursive : Bool) : Except Error (List (Token κ γ ω ℓ)) :=
  if ctes.isEmpty then .ok []
  else do
    ctes.forM r.checkCte
    return [.withClause recursive ctes]

def selectCore (core : κ) : Except Error (List (Token κ γ ω ℓ)) := do
  r.checkCore core
  return [.core core]

/-- The keyword between two branches of a compound query. -/
def setOperator (op : SetOp) : Except Error (List (Token κ γ ω ℓ)) :=
  if (op = .intersectAll ∨ op = .exceptAll) ∧ r.flavor = .sqlite then
    .error (.unsupported "`INTERSECT ALL` and `EXCEPT ALL`"
      ("use `INTERSECT` or `EXCEPT`, which deduplicate, or count the duplicates with a " ++
        "`GROUP BY`"))
  else .ok [.setOp op]

/-- An ordering, a limit or a lock belongs to the whole compound query. -/
def checkOperand (other : Select κ γ ω ℓ) : Except Error Unit :=
  if other.limit.isSome ∨ other.offset.isSome ∨ ¬ other.orderTerms.isEmpty ∨ other.lock.isSome then
    .error (.invalidClause "ORDER BY / LIMIT on a set-operation operand"
      "they belong to the whole compound query, not to one branch of it"
      ("move `.order_by(..)` and `.limit(..)` onto the query you call `.union(..)` on, or " ++
        "wrap the branch in a CTE"))
  else .ok ()

/-- The branches after the first one. -/
def setOperations : List (SetOp × Select κ γ ω ℓ) → Except Error (List (Token κ γ ω ℓ))
  | [] => .ok []
  | (op, other) :: rest => do
    let operator ← r.setOperator op
    checkOperand other
    let ctes ← r.withClause other.ctes other.recursive
    let core ← r.selectCore other.core
    let later ← setOperations rest
    return operator ++ ctes ++ core ++ later

/-- `ORDER BY …`, or nothing. -/
def orderBy (terms : List ω) : Except Error (List (Token κ γ ω ℓ)) :=
  if terms.isEmpty then .ok []
  else do
    r.checkOrderTerms terms
    return [.orderBy terms]

/-- `LIMIT n OFFSET m`, with SQLite's requirement that an `OFFSET` be preceded by a `LIMIT`. -/
def limitOffset : Option ℕ → Option ℕ → List (Token κ γ ω ℓ)
  | none, none => []
  | some limit, none => [.limit (some limit)]
  | some limit, some offset => [.limit (some limit), .offset offset]
  | none, some offset =>
    if r.flavor = .sqlite then [.limit none, .offset offset] else [.offset offset]

/-- `FOR UPDATE OF … SKIP LOCKED`, or nothing. -/
def lock (select : Select κ γ ω ℓ) : Option ℓ → Except Error (List (Token κ γ ω ℓ))
  | none => .ok []
  | some lock =>
    if r.flavor = .sqlite then
      .error (.unsupported "row-level locks (`FOR UPDATE` and friends)"
        ("SQLite locks the whole database file for a write transaction, so the lock is already " ++
          "held; drop the clause"))
    else if r.aggregates select.core ∨ ¬ select.setOps.isEmpty then
      .error (.invalidClause "FOR UPDATE"
        "the query groups, deduplicates or combines rows, so there is no single row to lock"
        ("lock the rows in a separate statement: select the keys, then " ++
          "`SELECT … WHERE id = ANY(..) FOR UPDATE`"))
    else do
      r.checkLock lock
      return [.lock lock]

/-- A whole `SELECT`, including its `WITH`, set operations, ordering, limit and lock. -/
def select (select : Select κ γ ω ℓ) : Except Error (List (Token κ γ ω ℓ)) := do
  let ctes ← r.withClause select.ctes select.recursive
  let core ← r.selectCore select.core
  let branches ← r.setOperations select.setOps
  let orderBy ← r.orderBy select.orderTerms
  let locked ← r.lock select select.lock
  return ctes ++ core ++ branches ++ orderBy ++ r.limitOffset select.limit select.offset ++ locked

end Renderer

end

end Moso.Sql
