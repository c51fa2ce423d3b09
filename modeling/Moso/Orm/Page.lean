import Moso.Orm.Preload

/-!
# Keyset pagination

The `ORDER BY` of a query becomes a key: plain columns, each with a direction and a place for
`NULL`s, the primary key at the end. A cursor is the key of a row, and a page resumes from it with
the condition that a row comes strictly after. A page that goes backwards runs the query in reverse.

A codec signs cursors and verifies them; rows are returned as the server has them.
-/

namespace Moso.Orm

open ThreeValued

variable {V : Type}

/-! ### Directions -/

def Order.reversed : Order → Order
  | .asc => .desc
  | .desc => .asc

def Nulls.reversed : Nulls → Nulls
  | .first => .last
  | .last => .first

def OrderTerm.reversed (self : OrderTerm V) : OrderTerm V :=
  { self with
    order := self.order.reversed
    nulls := self.nulls.map Nulls.reversed }

inductive PageDirection where
  | forward
  | backward
  deriving DecidableEq

def PageDirection.reversesTheOrder : PageDirection → Bool
  | .forward => false
  | .backward => true

/-! ### Conditions -/

namespace Expr

/-- `e < e'`, by the server's order. -/
def lt (server : Server V) (e e' : Scalar V) : Condition V where
  reads := e.reads ++ e'.reads
  eval db env := compare server.less (e.eval db env) (e'.eval db env)
  eval_congr db env env' h := by
    rw [e.eval_congr db env env' fun t ht => h t (List.mem_append_left _ ht),
      e'.eval_congr db env env' fun t ht => h t (List.mem_append_right _ ht)]

/-- `e > e'`. -/
def gt (server : Server V) (e e' : Scalar V) : Condition V := lt server e' e

/-- The conjunction of some conditions. -/
def allOf (cs : List (Condition V)) : Condition V where
  reads := cs.flatMap Expr.reads
  eval db env := Truth.all (cs.map fun c => c.eval db env)
  eval_congr db env env' h := by
    refine congrArg Truth.all (List.map_congr_left fun c hc => ?_)
    refine c.eval_congr db env env' fun t ht => ?_
    exact h t (List.mem_flatMap.mpr ⟨c, hc, ht⟩)

/-- The disjunction of some conditions; `FALSE` if there are none. -/
def anyOf (cs : List (Condition V)) : Condition V where
  reads := cs.flatMap Expr.reads
  eval db env := Truth.any (cs.map fun c => c.eval db env)
  eval_congr db env env' h := by
    refine congrArg Truth.any (List.map_congr_left fun c hc => ?_)
    refine c.eval_congr db env env' fun t ht => ?_
    exact h t (List.mem_flatMap.mpr ⟨c, hc, ht⟩)

variable {db : Database V} {env : Env V} {cs : List (Condition V)}

lemma keeps_lt {server : Server V} {e e' : Scalar V} : (lt server e e').Keeps db env ↔
    ∃ a b, e.eval db env = some a ∧ e'.eval db env = some b ∧ server.less a b = true :=
  holds_compare

@[simp] lemma keeps_allOf : (allOf cs).Keeps db env ↔ ∀ c ∈ cs, c.Keeps db env := by
  rw [Keeps, allOf, Truth.holds_all, List.forall_mem_map]
  rfl

@[simp] lemma keeps_anyOf : (anyOf cs).Keeps db env ↔ ∃ c ∈ cs, c.Keeps db env := by
  rw [Keeps, anyOf, Truth.holds_any]
  constructor
  · rintro ⟨t, ht, hholds⟩
    obtain ⟨c, hc, rfl⟩ := List.mem_map.mp ht
    exact ⟨c, hc, hholds⟩
  · rintro ⟨c, hc, hkeeps⟩
    exact ⟨_, List.mem_map_of_mem hc, hkeeps⟩

end Expr

/-! ### The key -/

inductive CursorError where
  | noOrder
  | tampered
  | orderingChanged
  | noSigningKey
  deriving DecidableEq

/-- What a page may fail with. -/
inductive PageError where
  | cursor (error : CursorError)
  | query (error : Error)
  deriving DecidableEq

/-- One column of the key, with its place among the entity's columns. -/
structure KeyColumn where
  index : ℕ
  column : Ident
  kind : ValueKind
  nullable : Bool
  order : Order
  nulls : Nulls
  deriving DecidableEq

/-- PostgreSQL's place for `NULL`s where a term does not say. -/
def defaultNulls : Order → Nulls
  | .desc => .first
  | .asc => .last

def notAColumn : PageError := .query <| .invalidClause "ORDER BY"
  ("keyset pagination reads the sort key back out of each row, so every term must be a plain " ++
    "column of the entity being selected")
  ("order by the entity's own columns — a joined column belongs in a `filter`, and a computed " ++
    "one in a projection — or use `paginate_offset(page, per_page)`")

def notASortKey : PageError := .query <| .invalidClause "ORDER BY"
  ("this column's type cannot be carried in a pagination cursor; an interval or an array is not " ++
    "a sort key")
  ("order by an id, a timestamp, a number or a text column, or use " ++
    "`paginate_offset(page, per_page)`")

/-- The column of the key that a term is about. -/
def keyColumn (E : Entity) (term : OrderTerm V) : Except PageError KeyColumn :=
  match term.expr with
  | .scalar _ => throw notAColumn
  | .column qualifier name =>
    if qualifier.any (· ≠ E.table) then throw notAColumn
    else
      match E.columns.zipIdx.find? fun column => column.1.name = name with
      | none => throw notAColumn
      | some (definition, index) => pure {
          index
          column := definition.name
          kind := definition.kind
          nullable := definition.nullable
          order := term.order
          nulls := term.nulls.getD (defaultNulls term.order) }

/-- The columns of the primary key that are not yet in the key. -/
def tiebreakers (E : Entity) (key : List KeyColumn) (direction : Order) : List KeyColumn :=
  (E.columns.zipIdx.filter fun column =>
    column.1.primaryKey && !key.any fun known => known.index = column.2).map fun column => {
      index := column.2
      column := column.1.name
      kind := column.1.kind
      nullable := false
      order := direction
      nulls := defaultNulls direction }

def keyColumns (E : Entity) (order : List (OrderTerm V)) : Except PageError (List KeyColumn) := do
  let key ← order.mapM (keyColumn E)
  let direction := (key.getLast?.map KeyColumn.order).getD .asc
  let key := key ++ tiebreakers E key direction
  if key.isEmpty then throw (.cursor .noOrder) else pure key

namespace KeyColumn

variable (E : Entity) (direction : PageDirection) (column : KeyColumn)

def orderFor : Order := if direction.reversesTheOrder then column.order.reversed else column.order

def nullsFor : Nulls := if direction.reversesTheOrder then column.nulls.reversed else column.nulls

/-- The spelling of the column in the fingerprint. -/
def canonical : String :=
  E.table ++ "." ++ column.column ++
    (match column.order with
      | .desc => " desc"
      | .asc => " asc") ++
    match column.nulls with
    | .first => " nulls first"
    | .last => " nulls last"

end KeyColumn

/-- The `ORDER BY` of the statement. -/
def orderTerms (E : Entity) (key : List KeyColumn) (direction : PageDirection) :
    List (OrderTerm V) :=
  key.map fun column =>
    let term : OrderTerm V := ⟨.column E.table column.column, column.order, some column.nulls⟩
    if direction.reversesTheOrder then term.reversed else term

/-- `column = value`, or `column IS NULL`. -/
def equalTo [DecidableEq V] (E : Entity) (column : KeyColumn) (value : Option V) : Condition V :=
  match value with
  | none => (Expr.column E.table column.column).isNull
  | some value => (Expr.column E.table column.column).eq (Expr.bound (some value))

/-- The values that come after this one. -/
def beyond (server : Server V) (order : Order) (reference : Scalar V) (value : V) : Condition V :=
  match order with
  | .desc => Expr.lt server reference (Expr.bound (some value))
  | .asc => Expr.gt server reference (Expr.bound (some value))

/-- The rows that this column puts strictly after the value; `none` if there are none. -/
def strictlyAfter (server : Server V) (E : Entity) (direction : PageDirection) (column : KeyColumn)
    (value : Option V) : Option (Condition V) :=
  let reference : Scalar V := Expr.column E.table column.column
  match value with
  | none => match column.nullsFor direction with
    | .first => some reference.isNotNull
    | .last => none
  | some value =>
    let base := beyond server (column.orderFor direction) reference value
    if column.nullsFor direction = .last && column.nullable then
      some (Expr.anyOf [base, reference.isNull])
    else some base

section

variable [DecidableEq V] (server : Server V) (E : Entity) (direction : PageDirection)

/-- The disjuncts from a column on, each behind the equality of what comes before. -/
def disjuncts (equal : List (Condition V)) : List (KeyColumn × Option V) → List (Condition V)
  | [] => []
  | (column, value) :: rest =>
    let later := disjuncts (equal ++ [equalTo E column value]) rest
    match strictlyAfter server E direction column value with
    | none => later
    | some after => Expr.allOf (equal ++ [after]) :: later

/-- The rows strictly after the one with these values. -/
def keysetExpr (key : List KeyColumn) (values : List (Option V)) : Condition V :=
  Expr.anyOf (disjuncts server E direction [] (key.zip values))

end

/-! ### A page -/

/-- FNV-1a over the terms, each closed with a zero byte. -/
def fingerprint (terms : List String) : UInt64 :=
  (terms.flatMap fun term => term.toUTF8.toList ++ [0]).foldl
    (fun hash byte => (hash ^^^ byte.toUInt64) * 0x00000100000001b3) 0xcbf29ce484222325

structure PageCursor (V : Type) where
  ordering : UInt64
  key : List (Option V)

/-- What signs cursors, each for one listing. -/
structure CursorCodec (V Cursor : Type) where
  sign : String → PageCursor V → Except Error Cursor
  verify : String → Cursor → Except CursorError (PageCursor V)

structure Page (V Cursor : Type) where
  items : List (Env V)
  next : Option Cursor := none
  prev : Option Cursor := none

structure Paginated (V Cursor : Type) where
  select : Select V
  cursor : Option Cursor
  limit : ℕ
  direction : PageDirection := .forward
  codec : Option (CursorCodec V Cursor) := none
  scope : Option String := none

/-- The sort key of a row, as far as its columns are of kinds that a cursor carries. -/
def readKeyValue (E : Entity) (row : Env V) (column : KeyColumn) : Except PageError (Option V) :=
  match row.cell E.table column.column with
  | none =>
    if column.nullable then pure none
    else throw (.query (.decode E.name column.column "a value" "NULL"))
  | some value =>
    if column.kind ∈ [.interval, .array, .unknown] then throw notASortKey else pure (some value)

def readKey (E : Entity) (key : List KeyColumn) (row : Env V) :
    Except PageError (List (Option V)) :=
  key.mapM (readKeyValue E row)

namespace Paginated

variable {Cursor : Type} [DecidableEq V] (server : Server V) (E : Entity)
  (self : Paginated V Cursor)

def ordering (key : List KeyColumn) : UInt64 := fingerprint (key.map (KeyColumn.canonical E))

/-- The cursor, if it is one of this listing. -/
def opened (key : List KeyColumn) (token : Cursor) : Except PageError (PageCursor V) :=
  match self.codec with
  | none => throw (.cursor .noSigningKey)
  | some codec => do
    let opened ← (codec.verify (self.scope.getD E.name) token).mapError .cursor
    if opened.ordering = ordering E key ∧ opened.key.length = key.length then pure opened
    else throw (.cursor .orderingChanged)

/-- The query that the page runs: it asks for one row more than the page holds. -/
def plan (key : List KeyColumn) : Except PageError (Select V) := do
  let query := { self.select with order := orderTerms E key self.direction }
  let query ← match self.cursor with
    | none => pure query
    | some token => do
      let opened ← self.opened E key token
      let after := keysetExpr server E self.direction key opened.key
      pure { query with filters := query.filters ++ [⟨after, [E.name]⟩] }
  pure { query with limit := some (self.limit + 1) }

def mint (ordering : UInt64) (key : List (Option V)) : Except PageError Cursor :=
  match self.codec with
  | none => throw (.cursor .noSigningKey)
  | some codec => (codec.sign (self.scope.getD E.name) ⟨ordering, key⟩).mapError .query

/-- A cursor for the row at this end of the page, if there is to be one. -/
def mintIf (wanted : Bool) (ordering : UInt64) (key : Option (List (Option V))) :
    Except PageError (Option Cursor) :=
  match key.filter fun _ => wanted with
  | none => pure none
  | some key => some <$> self.mint E ordering key

/-- What becomes of the rows that the statement returned. -/
def assemble (key : List KeyColumn) (rows : List (Env V)) : Except PageError (Page V Cursor) := do
  let more := decide (self.limit < rows.length)
  let kept := rows.take self.limit
  let keys ← kept.mapM (readKey E key)
  let items := if self.direction.reversesTheOrder then kept.reverse else kept
  let keys := if self.direction.reversesTheOrder then keys.reverse else keys
  let resuming := self.cursor.isSome
  let next ← self.mintIf E (if self.direction = .backward then resuming else more)
    (ordering E key) keys.getLast?
  let prev ← self.mintIf E (if self.direction = .backward then more else resuming)
    (ordering E key) keys.head?
  pure { items, next, prev }

def fetch (db : Database V) : Except PageError (Page V Cursor) := do
  let key ← keyColumns E self.select.order
  let query ← self.plan server E key
  let statement ← (query.toStatement E).mapError .query
  match statement.run server db with
  | none => throw (.query .database)
  | some rows => self.assemble E key rows

end Paginated

end Moso.Orm
