import Moso.Foundation.Criteria
import Moso.Foundation.Rows
import Moso.Orm.Entity
import Moso.Sql.Compound

/-!
# Statements, and a server that runs them

What the builders hand to the server, and what a server does with it. A server picks the order of
rows that no `ORDER BY` term tells apart; it refuses a statement as a whole, which then changes
nothing.
-/

namespace Moso.Orm

open ThreeValued

inductive Order where
  | asc
  | desc
  deriving DecidableEq

inductive Nulls where
  | first
  | last
  deriving DecidableEq

/-- What an `ORDER BY` term sorts by. -/
inductive SortExpr (V : Type) where
  | column (table : Option Ident) (name : Ident)
  | scalar (expr : Scalar V)

structure OrderTerm (V : Type) where
  expr : SortExpr V
  order : Order
  nulls : Option Nulls

inductive JoinKind where
  | inner
  | left
  | right
  | full
  deriving DecidableEq

namespace JoinKind

def keepsUnmatchedRows : JoinKind → Bool
  | .left | .full   => true
  | .inner | .right => false

def keepsUnmatchedJoinedRows : JoinKind → Bool
  | .right | .full => true
  | .inner | .left => false

end JoinKind

structure Joined (V : Type) where
  kind : JoinKind
  entity : String
  table : Ident
  on : Condition V
  aliased : Option Ident

/-- A rendered `SELECT`. -/
structure SqlSelect (V : Type) where
  source : Ident
  items : List (Scalar V)
  distinct : Bool
  joins : List (Joined V)
  filters : List (Condition V)
  groupBy : List (Scalar V)
  having : List (Condition V)
  order : List (OrderTerm V)
  limit : Option ℕ
  offset : Option ℕ

/-- The right-hand side of an assignment. -/
inductive SetExpr (V : Type) where
  | expr (value : Scalar V)
  | currentTimestamp
  /-- `column + 1`. -/
  | plusOne (column : Ident)
  /-- What the row to be inserted has under the column. -/
  | excluded (column : Ident)

structure Assignment (V : Type) where
  column : Ident
  value : SetExpr V

structure SqlUpdate (V : Type) where
  table : Ident
  assignments : List (Assignment V)
  filters : List (Condition V)

structure SqlDelete (V : Type) where
  table : Ident
  filters : List (Condition V)

/-- `ON CONFLICT`, with the columns of the unique index; none of them stands for any index. -/
structure OnConflict (V : Type) where
  target : List Ident
  /-- What `DO UPDATE` sets; `DO NOTHING` without. -/
  doUpdate : Option (List (Assignment V))

structure SqlInsert (V : Type) where
  table : Ident
  columns : List Ident
  rows : List (List (Option V))
  conflict : Option (OnConflict V)

section

variable {V : Type}

/-! ### Reading -/

def SortExpr.eval (source : Ident) (db : Database V) (env : Env V) : SortExpr V → Option V
  | .column table name => env.cell (table.getD source) name
  | .scalar expr       => expr.eval db env

/-- Where a server puts `NULL`s that a term says nothing about. -/
def Order.defaultNulls (flavor : Sql.Flavor) (order : Order) : Nulls :=
  match flavor, order with
  | .postgres, .asc | .sqlite, .desc => .last
  | .postgres, .desc | .sqlite, .asc => .first

/-- Whether `x` sorts strictly before `y`. -/
def comesBefore (less : V → V → Bool) (order : Order) (nulls : Nulls) :
    Option V → Option V → Bool
  | none, none     => false
  | none, some _   => nulls = .first
  | some _, none   => nulls = .last
  | some a, some b => match order with
    | .asc => less a b
    | .desc => less b a

namespace OrderTerm

def before (flavor : Sql.Flavor) (less : V → V → Bool) (source : Ident) (db : Database V)
    (term : OrderTerm V) (env env' : Env V) : Bool :=
  comesBefore less term.order (term.nulls.getD (term.order.defaultNulls flavor))
    (term.expr.eval source db env) (term.expr.eval source db env')

end OrderTerm

/-- The order that `ORDER BY` asks for; rows that no term tells apart are tied. -/
def SqlSelect.before (flavor : Sql.Flavor) (less : V → V → Bool) (q : SqlSelect V)
    (db : Database V) : Env V → Env V → Bool :=
  Criteria.lex (q.order.map fun term => term.before flavor less q.source db)

lemma strictWeak_comesBefore {less : V → V → Bool} (h : Criteria.StrictWeak less) (order : Order)
    (nulls : Nulls) : Criteria.StrictWeak (comesBefore less order nulls) := by
  constructor
  · intro x y hxy
    rcases x with _ | a <;> rcases y with _ | b
    · cases hxy
    · cases nulls <;> simp_all [comesBefore]
    · cases nulls <;> simp_all [comesBefore]
    · cases order
      · exact h.asymm hxy
      · exact h.asymm hxy
  · intro x y hxy z
    rcases x with _ | a <;> rcases y with _ | b <;> rcases z with _ | c
    · cases hxy
    · cases hxy
    · exact .inr hxy
    · exact .inl hxy
    · exact .inl hxy
    · exact .inr hxy
    · cases nulls <;> simp [comesBefore]
    · cases order
      · exact h.cotrans hxy c
      · exact (h.cotrans hxy c).symm

theorem SqlSelect.strictWeak_before {flavor : Sql.Flavor} {less : V → V → Bool}
    (h : Criteria.StrictWeak less) (q : SqlSelect V) (db : Database V) :
    Criteria.StrictWeak (q.before flavor less db) := by
  refine Criteria.strictWeak_lex fun p hp => ?_
  obtain ⟨term, -, rfl⟩ := List.mem_map.mp hp
  exact (strictWeak_comesBefore h _ _).comap _

/-- A server, with the indexes and constraints of its tables. -/
structure Server (V : Type) where
  flavor : Sql.Flavor
  less : V → V → Bool
  /-- The order in which it returns the rows of a query. -/
  arrange : SqlSelect V → Database V → List (Env V) → List (Env V)
  arrange_perm : ∀ q db rows, (arrange q db rows).Perm rows
  arrange_sorted : ∀ q db rows, Criteria.Sorted (q.before flavor less db) (arrange q db rows)
  /-- One of the rows of each group that `HAVING` keeps. -/
  group : SqlSelect V → Database V → List (Env V) → List (Env V)
  mem_of_mem_group : ∀ q db rows env, env ∈ group q db rows → env ∈ rows
  group_of_nil : ∀ q db rows, q.groupBy = [] → q.having = [] → group q db rows = rows
  /-- `value + 1`, unless that is out of range. -/
  next : V → Option V
  /-- The unique index over these columns of a table: whether two rows collide in it. -/
  arbiter : Ident → List Ident → Option (Row V → Row V → Bool)
  /-- The constraints. -/
  admits : Database V → Bool

/-- A server that leaves tied rows as they come, and takes every row for a group of its own. -/
def Server.stable (flavor : Sql.Flavor) (less : V → V → Bool) (hless : Criteria.StrictWeak less)
    (next : V → Option V) (arbiter : Ident → List Ident → Option (Row V → Row V → Bool))
    (admits : Database V → Bool) : Server V where
  flavor := flavor
  less := less
  arrange q db rows := Criteria.sort (q.before flavor less db) rows
  arrange_perm _ _ _ := Criteria.sort_perm _ _
  arrange_sorted q db _ := Criteria.sorted_sort (q.strictWeak_before hless db) _
  group _ _ rows := rows
  mem_of_mem_group _ _ _ _ h := h
  group_of_nil _ _ _ _ _ := rfl
  next := next
  arbiter := arbiter
  admits := admits

namespace Joined

def name (j : Joined V) : Ident := j.aliased.getD j.table

/-- A row with each of the rows that are joined to it. -/
def pairs (j : Joined V) (db : Database V) (env : Env V) : List (Env V) :=
  ((db j.table).map fun row => env.extend j.name (some row)).filter fun env' => j.on.Keeps db env'

/-- The rows that none of `rows` is joined to. -/
def unmatched (j : Joined V) (db : Database V) (rows : List (Env V)) : List (Row V) :=
  (db j.table).filter fun row =>
    rows.all fun env => !decide (j.on.Keeps db (env.extend j.name (some row)))

def apply (j : Joined V) (db : Database V) (rows : List (Env V)) : List (Env V) :=
  rows.flatMap (fun env =>
    if (j.pairs db env).isEmpty && j.kind.keepsUnmatchedRows then [env.extend j.name none]
    else j.pairs db env) ++
  if j.kind.keepsUnmatchedJoinedRows then
    (j.unmatched db rows).map fun row => Env.only j.name row
  else []

/-- Joining extends a row, or stands at a row that nothing was joined to. -/
lemma mem_apply {j : Joined V} {db : Database V} {rows : List (Env V)} {env : Env V}
    (h : env ∈ j.apply db rows) :
    (∃ env₀ ∈ rows, ∃ row, env = env₀.extend j.name row) ∨
      ∃ row ∈ db j.table, env = Env.only j.name row := by
  rcases List.mem_append.mp h with h | h
  · obtain ⟨env₀, henv₀, h⟩ := List.mem_flatMap.mp h
    refine .inl ⟨env₀, henv₀, ?_⟩
    split at h
    · exact ⟨none, List.mem_singleton.mp h⟩
    · obtain ⟨row, -, rfl⟩ := List.mem_map.mp (List.mem_of_mem_filter h)
      exact ⟨some row, rfl⟩
  · split at h
    · obtain ⟨row, hrow, rfl⟩ := List.mem_map.mp h
      exact .inr ⟨row, List.mem_of_mem_filter hrow, rfl⟩
    · cases h

end Joined

namespace SqlSelect

variable [DecidableEq V]

def names (q : SqlSelect V) : List Ident := q.source :: q.joins.map Joined.name

/-- `FROM` and `JOIN`. -/
def joined (q : SqlSelect V) (db : Database V) : List (Env V) :=
  q.joins.foldl (fun rows j => j.apply db rows) ((db q.source).map (Env.only q.source))

/-- `WHERE`. -/
def Matches (q : SqlSelect V) (db : Database V) (env : Env V) : Prop :=
  ∀ c ∈ q.filters, c.Keeps db env

instance (q : SqlSelect V) (db : Database V) (env : Env V) : Decidable (q.Matches db env) :=
  inferInstanceAs (Decidable (∀ c ∈ q.filters, c.Keeps db env))

def selected (q : SqlSelect V) (db : Database V) : List (Env V) :=
  (q.joined db).filter fun env => q.Matches db env

/-- `DISTINCT`, over what is projected. -/
def distincts (q : SqlSelect V) (db : Database V) (rows : List (Env V)) : List (Env V) :=
  if q.distinct then
    rows.pwFilter fun env env' =>
      (q.items.map fun item => item.eval db env) ≠ q.items.map fun item => item.eval db env'
  else rows

/-- `LIMIT` and `OFFSET`. -/
def window (q : SqlSelect V) (rows : List (Env V)) : List (Env V) :=
  let rest := rows.drop (q.offset.getD 0)
  match q.limit with
  | none => rest
  | some n => rest.take n

/-- The rows that the server returns, before the projection; it refuses a query in which a name
stands for two tables. -/
def run (server : Server V) (q : SqlSelect V) (db : Database V) : Option (List (Env V)) :=
  if q.names.Nodup then
    some (q.window (server.arrange q db (q.distincts db (server.group q db (q.selected db)))))
  else none

variable {server : Server V} {q : SqlSelect V} {db : Database V} {out : List (Env V)} {env : Env V}

lemma mem_selected : env ∈ q.selected db ↔ env ∈ q.joined db ∧ q.Matches db env := by
  rw [selected, List.mem_filter, decide_eq_true_eq]

lemma distincts_subset {rows : List (Env V)} : q.distincts db rows ⊆ rows := by
  rw [distincts]
  split
  · exact List.pwFilter_subset _
  · exact List.Subset.refl _

/-- `DISTINCT` leaves of every row one that looks the same. -/
lemma exists_mem_distincts {rows : List (Env V)} (henv : env ∈ rows) :
    ∃ env' ∈ q.distincts db rows,
      (q.items.map fun item => item.eval db env) = q.items.map fun item => item.eval db env' := by
  rw [distincts]
  split
  · by_contra hnone
    push Not at hnone
    exact (List.forall_mem_pwFilter (fun {x y z} hxz => by
      by_contra hboth
      obtain ⟨hxy, hyz⟩ := not_or.mp hboth
      exact hxz ((not_not.mp hxy).trans (not_not.mp hyz))) env rows).mp hnone env henv rfl
  · exact ⟨env, henv, rfl⟩

lemma window_subset {rows : List (Env V)} : q.window rows ⊆ rows := by
  intro env henv
  rw [window] at henv
  split at henv
  · exact List.mem_of_mem_drop henv
  · exact List.mem_of_mem_drop (List.mem_of_mem_take henv)

lemma run_eq_some : q.run server db = some out ↔ q.names.Nodup ∧
    out = q.window (server.arrange q db (q.distincts db (server.group q db (q.selected db)))) := by
  rw [run, Option.ite_none_right_eq_some, Option.some.injEq, eq_comm (a := out)]

lemma mem_group_of_mem_run (h : q.run server db = some out) (henv : env ∈ out) :
    env ∈ server.group q db (q.selected db) := by
  obtain ⟨-, rfl⟩ := run_eq_some.1 h
  exact distincts_subset ((server.arrange_perm q db _).mem_iff.mp (window_subset henv))

/-- Whatever the clauses, what is returned meets the conditions. -/
theorem matches_of_mem_run (h : q.run server db = some out) (henv : env ∈ out) :
    env ∈ q.joined db ∧ q.Matches db env :=
  mem_selected.1 (server.mem_of_mem_group q db _ env (mem_group_of_mem_run h henv))

/-- The query's own table contributes its own rows only. -/
lemma source_of_mem_joined (hnames : q.names.Nodup) (henv : env ∈ q.joined db) {row : Row V}
    (hrow : env q.source = some row) : row ∈ db q.source := by
  have hjoins : ∀ (joins : List (Joined V)) (rows : List (Env V)),
      (∀ j ∈ joins, q.source ≠ j.name) →
      (∀ env ∈ rows, ∀ row, env q.source = some row → row ∈ db q.source) →
      ∀ env ∈ joins.foldl (fun rows j => j.apply db rows) rows, ∀ row,
        env q.source = some row → row ∈ db q.source := by
    intro joins
    induction joins with
    | nil => exact fun rows _ hrows => hrows
    | cons j joins ih =>
      intro rows hne hrows
      refine ih _ (fun k hk => hne k (List.mem_cons_of_mem j hk)) fun env henv row hrow => ?_
      rcases Joined.mem_apply henv with ⟨env₀, henv₀, r, rfl⟩ | ⟨r, -, rfl⟩
      · rw [Env.extend_of_ne (hne j List.mem_cons_self)] at hrow
        exact hrows env₀ henv₀ row hrow
      · rw [Env.only, if_neg (hne j List.mem_cons_self)] at hrow
        cases hrow
  refine hjoins q.joins _ (fun j hj heq => ?_) (fun env henv row hrow => ?_) env henv row hrow
  · exact (List.nodup_cons.mp hnames).1 (heq ▸ List.mem_map_of_mem hj)
  · obtain ⟨r, hr, rfl⟩ := List.mem_map.mp henv
    rw [Env.only_self] at hrow
    exact Option.some.inj hrow ▸ hr

end SqlSelect

/-! ### Writing -/

/-- What a statement finds when it runs: the clock, and the defaults for the rows it inserts. -/
structure Moment (V : Type) where
  now : V
  defaults : ℕ → Row V

namespace SetExpr

/-- The value on `row`; `none` when the server refuses to compute it. -/
def eval (server : Server V) (moment : Moment V) (db : Database V) (table : Ident)
    (row excluded : Row V) : SetExpr V → Option (Option V)
  | .expr value       => some (value.eval db (Env.only table row))
  | .currentTimestamp => some (some moment.now)
  | .plusOne column   => match row column with
    | none => some none
    | some value => (server.next value).map some
  | .excluded column  => some (excluded column)

end SetExpr

/-- Make assignments in `acc`, each from the values in `row`. -/
def assignFrom (server : Server V) (moment : Moment V) (db : Database V) (table : Ident)
    (row excluded : Row V) : Row V → List (Assignment V) → Option (Row V)
  | acc, []      => some acc
  | acc, a :: as => (a.value.eval server moment db table row excluded).bind fun value =>
    assignFrom server moment db table row excluded (Function.update acc a.column value) as

/-- The row with every assignment made, each from the values before. -/
def assignAll (server : Server V) (moment : Moment V) (db : Database V) (table : Ident)
    (assignments : List (Assignment V)) (row excluded : Row V) : Option (Row V) :=
  assignFrom server moment db table row excluded row assignments

section

variable {server : Server V} {moment : Moment V} {db : Database V} {table : Ident}
  {row excluded acc row' : Row V} {as : List (Assignment V)} {c : Ident} {v : Option V}

lemma assignFrom_cons_eq_some {a : Assignment V} :
    assignFrom server moment db table row excluded acc (a :: as) = some row' ↔
      ∃ value, a.value.eval server moment db table row excluded = some value ∧
        assignFrom server moment db table row excluded (Function.update acc a.column value) as =
          some row' :=
  Option.bind_eq_some_iff

/-- What every assignment to a column sets, and what was there already, is there afterwards. -/
lemma assignFrom_keeps (h : assignFrom server moment db table row excluded acc as = some row')
    (hset : ∀ a ∈ as, a.column = c → a.value.eval server moment db table row excluded = some v)
    (hacc : acc c = v) : row' c = v := by
  induction as generalizing acc with
  | nil =>
    obtain rfl := Option.some.inj h
    exact hacc
  | cons a as ih =>
    obtain ⟨value, hvalue, hrest⟩ := assignFrom_cons_eq_some.1 h
    refine ih hrest (fun b hb => hset b (List.mem_cons_of_mem a hb)) ?_
    by_cases ha : a.column = c
    · rw [← ha, Function.update_self]
      exact Option.some.inj (hvalue.symm.trans (hset a List.mem_cons_self ha))
    · rw [Function.update_of_ne (Ne.symm ha), hacc]

/-- What every assignment to a column sets is there afterwards, if there is such an assignment. -/
lemma assignFrom_sets (h : assignFrom server moment db table row excluded acc as = some row')
    (hset : ∀ a ∈ as, a.column = c → a.value.eval server moment db table row excluded = some v)
    (hex : ∃ a ∈ as, a.column = c) : row' c = v := by
  induction as generalizing acc with
  | nil => exact absurd hex (by simp)
  | cons a as ih =>
    obtain ⟨value, hvalue, hrest⟩ := assignFrom_cons_eq_some.1 h
    have hset' := fun b (hb : b ∈ as) => hset b (List.mem_cons_of_mem a hb)
    by_cases ha : a.column = c
    · refine assignFrom_keeps hrest hset' ?_
      rw [← ha, Function.update_self]
      exact Option.some.inj (hvalue.symm.trans (hset a List.mem_cons_self ha))
    · obtain ⟨b, hb, hbc⟩ := hex
      rcases List.mem_cons.mp hb with rfl | hb
      · exact absurd hbc ha
      · exact ih hrest hset' ⟨b, hb, hbc⟩

/-- Every right-hand side was computed. -/
lemma eval_of_assignFrom (h : assignFrom server moment db table row excluded acc as = some row') :
    ∀ a ∈ as, ∃ value, a.value.eval server moment db table row excluded = some value := by
  induction as generalizing acc with
  | nil => exact fun a ha => absurd ha List.not_mem_nil
  | cons a as ih =>
    obtain ⟨value, hvalue, hrest⟩ := assignFrom_cons_eq_some.1 h
    exact List.forall_mem_cons.mpr ⟨⟨value, hvalue⟩, ih hrest⟩

/-- A column that is not assigned keeps its value. -/
lemma assignAll_of_not_assigned
    (h : assignAll server moment db table as row excluded = some row')
    (hne : ∀ a ∈ as, a.column ≠ c) : row' c = row c :=
  assignFrom_keeps h (fun a ha hac => absurd hac (hne a ha)) rfl

end

/-- Whether a row of a table meets the conditions. -/
def Hits (filters : List (Condition V)) (db : Database V) (table : Ident) (row : Row V) : Prop :=
  ∀ c ∈ filters, c.Keeps db (Env.only table row)

instance (filters : List (Condition V)) (db : Database V) (table : Ident) (row : Row V) :
    Decidable (Hits filters db table row) :=
  inferInstanceAs (Decidable (∀ c ∈ filters, c.Keeps db (Env.only table row)))

/-- The server knows the tables that the conditions name. -/
def Resolves (filters : List (Condition V)) (table : Ident) : Prop :=
  ∀ c ∈ filters, ∀ t ∈ c.reads, t = table

instance (filters : List (Condition V)) (table : Ident) : Decidable (Resolves filters table) :=
  inferInstanceAs (Decidable (∀ c ∈ filters, ∀ t ∈ c.reads, t = table))

/-- The database with other rows in one table, if its constraints admit them. -/
def Server.store (server : Server V) (db : Database V) (table : Ident) (rows : List (Row V)) :
    Option (Database V) :=
  let after : Database V := Function.update db table rows
  if server.admits after then some after else none

lemma Server.store_eq_some {server : Server V} {db after : Database V} {table : Ident}
    {rows : List (Row V)} : server.store db table rows = some after ↔
      server.admits (Function.update db table rows) = true ∧
        after = Function.update db table rows := by
  rw [Server.store, Option.ite_none_right_eq_some, Option.some.injEq, eq_comm (a := after)]

/-- The database after the update, and the rows as it rewrote them. -/
def SqlUpdate.run (server : Server V) (moment : Moment V) (u : SqlUpdate V) (db : Database V) :
    Option (Database V × List (Row V)) :=
  if Resolves u.filters u.table then
    (Rows.rewrite (fun row => Hits u.filters db u.table row)
      (fun row => assignAll server moment db u.table u.assignments row row) (db u.table)).bind
      fun out => (server.store db u.table out.1).map fun after => (after, out.2)
  else none

lemma SqlUpdate.run_eq_some {server : Server V} {moment : Moment V} {u : SqlUpdate V}
    {db after : Database V} {rows : List (Row V)} :
    u.run server moment db = some (after, rows) ↔ Resolves u.filters u.table ∧
      ∃ rows', Rows.rewrite (fun row => Hits u.filters db u.table row)
          (fun row => assignAll server moment db u.table u.assignments row row) (db u.table) =
            some (rows', rows) ∧ server.store db u.table rows' = some after := by
  rw [SqlUpdate.run, Option.ite_none_right_eq_some]
  refine and_congr_right fun _ => ?_
  rw [Option.bind_eq_some_iff]
  constructor
  · rintro ⟨out, hout, hrun⟩
    obtain ⟨db', hdb', hpair⟩ := Option.map_eq_some_iff.mp hrun
    obtain ⟨rfl, rfl⟩ := Prod.ext_iff.mp hpair
    exact ⟨out.1, hout, hdb'⟩
  · rintro ⟨rows', hrows, hafter⟩
    exact ⟨_, hrows, Option.map_eq_some_iff.mpr ⟨after, hafter, rfl⟩⟩

/-- The database after the delete, and the rows that it removed. -/
def SqlDelete.run (server : Server V) (d : SqlDelete V) (db : Database V) :
    Option (Database V × List (Row V)) :=
  if Resolves d.filters d.table then
    (server.store db d.table ((db d.table).filter fun row => ¬Hits d.filters db d.table row)).map
      fun after => (after, (db d.table).filter fun row => Hits d.filters db d.table row)
  else none

lemma SqlDelete.run_eq_some {server : Server V} {d : SqlDelete V} {db after : Database V}
    {rows : List (Row V)} : d.run server db = some (after, rows) ↔ Resolves d.filters d.table ∧
      server.store db d.table ((db d.table).filter fun row => ¬Hits d.filters db d.table row) =
          some after ∧
        rows = (db d.table).filter fun row => Hits d.filters db d.table row := by
  rw [SqlDelete.run, Option.ite_none_right_eq_some, Option.map_eq_some_iff]
  refine and_congr_right fun _ => ?_
  constructor
  · rintro ⟨db', hdb', hpair⟩
    obtain ⟨rfl, rfl⟩ := Prod.ext_iff.mp hpair
    exact ⟨hdb', rfl⟩
  · rintro ⟨hafter, rfl⟩
    exact ⟨after, hafter, rfl⟩

namespace SqlInsert

/-- The row to be inserted: what is given for it, and else the defaults. -/
def newRow (columns : List Ident) (values : List (Option V)) (defaults : Row V) : Row V :=
  fun column =>
    if column ∈ columns then (values[columns.idxOf column]?).join else defaults column

def newRows (i : SqlInsert V) (moment : Moment V) : List (Row V) :=
  i.rows.zipIdx.map fun p => newRow i.columns p.1 (moment.defaults p.2)

/-- One row of the statement. A row is marked when the statement has already written it, which
PostgreSQL does not do twice. The second part is the row that was written. -/
def put (server : Server V) (moment : Moment V) (db : Database V) (i : SqlInsert V)
    (clash : Row V → Row V → Bool) (rows : List (Bool × Row V)) (new : Row V) :
    Option (List (Bool × Row V) × List (Row V)) :=
  match rows.find? fun old => clash new old.2 with
  | none => some (rows ++ [(true, new)], [new])
  | some old => match i.conflict.bind (·.doUpdate) with
    | none => some (rows, [])
    | some assignments =>
      if old.1 && server.flavor = .postgres then none
      else (assignAll server moment db i.table assignments old.2 new).map fun row =>
        (Rows.replaceFirst (fun old => clash new old.2) (true, row) rows, [row])

def putAll (server : Server V) (moment : Moment V) (db : Database V) (i : SqlInsert V)
    (clash : Row V → Row V → Bool) :
    List (Bool × Row V) → List (Row V) → Option (List (Bool × Row V) × List (Row V))
  | rows, []          => some (rows, [])
  | rows, new :: news =>
    (put server moment db i clash rows new).bind fun out =>
      (putAll server moment db i clash out.1 news).map fun rest => (rest.1, out.2 ++ rest.2)

/-- When two rows are in conflict: never without a conflict clause, and not known when no unique
index is over the columns that the clause names. -/
def clash (server : Server V) (i : SqlInsert V) : Option (Row V → Row V → Bool) :=
  match i.conflict with
  | none => some fun _ _ => false
  | some conflict => server.arbiter i.table conflict.target

/-- The database after the insert, and the rows that it wrote. -/
def run (server : Server V) (moment : Moment V) (i : SqlInsert V) (db : Database V) :
    Option (Database V × List (Row V)) :=
  (i.clash server).bind fun clash =>
    (putAll server moment db i clash ((db i.table).map (false, ·)) (i.newRows moment)).bind
      fun out => (server.store db i.table (out.1.map (·.2))).map fun after => (after, out.2)

lemma run_eq_some {server : Server V} {moment : Moment V} {i : SqlInsert V} {db after : Database V}
    {rows : List (Row V)} : i.run server moment db = some (after, rows) ↔
      ∃ clash out, i.clash server = some clash ∧
        putAll server moment db i clash ((db i.table).map (false, ·)) (i.newRows moment) =
          some (out, rows) ∧ server.store db i.table (out.map (·.2)) = some after := by
  rw [run, Option.bind_eq_some_iff]
  refine exists_congr fun clash => ?_
  rw [Option.bind_eq_some_iff]
  constructor
  · rintro ⟨hclash, out, hout, hrun⟩
    obtain ⟨db', hdb', hpair⟩ := Option.map_eq_some_iff.mp hrun
    obtain ⟨rfl, rfl⟩ := Prod.ext_iff.mp hpair
    exact ⟨out.1, hclash, hout, hdb'⟩
  · rintro ⟨out, hclash, hout, hafter⟩
    exact ⟨hclash, (out, rows), hout, Option.map_eq_some_iff.mpr ⟨after, hafter, rfl⟩⟩

lemma putAll_cons_eq_some {server : Server V} {moment : Moment V} {db : Database V}
    {i : SqlInsert V} {clash : Row V → Row V → Bool} {rows out : List (Bool × Row V)}
    {new : Row V} {news written : List (Row V)} :
    putAll server moment db i clash rows (new :: news) = some (out, written) ↔
      ∃ rows' first rest, put server moment db i clash rows new = some (rows', first) ∧
        putAll server moment db i clash rows' news = some (out, rest) ∧ written = first ++ rest := by
  rw [putAll, Option.bind_eq_some_iff]
  constructor
  · rintro ⟨one, hone, h⟩
    obtain ⟨rest, hrest, hpair⟩ := Option.map_eq_some_iff.mp h
    obtain ⟨rfl, rfl⟩ := Prod.ext_iff.mp hpair
    exact ⟨one.1, one.2, rest.2, hone, hrest, rfl⟩
  · rintro ⟨rows', first, rest, hone, hrest, rfl⟩
    exact ⟨_, hone, Option.map_eq_some_iff.mpr ⟨_, hrest, rfl⟩⟩

/-- What becomes of the rows when one more is put: it is added, or it is dropped, or it rewrites a
row that it collides with. -/
lemma put_cases {server : Server V} {moment : Moment V} {db : Database V} {i : SqlInsert V}
    {clash : Row V → Row V → Bool} {rows rows' : List (Bool × Row V)} {new : Row V}
    {written : List (Row V)}
    (h : put server moment db i clash rows new = some (rows', written)) :
    (rows' = rows ++ [(true, new)] ∧ written = [new] ∧ ∀ old ∈ rows, clash new old.2 = false) ∨
      (rows' = rows ∧ written = []) ∨
      ∃ l₁ old l₂ row assignments, rows = l₁ ++ old :: l₂ ∧ rows' = l₁ ++ (true, row) :: l₂ ∧
        written = [row] ∧ clash new old.2 = true ∧
          i.conflict.bind (·.doUpdate) = some assignments ∧
            assignAll server moment db i.table assignments old.2 new = some row := by
  rw [put] at h
  split at h
  · next hfind =>
    obtain ⟨rfl, rfl⟩ := Prod.ext_iff.mp (Option.some.inj h)
    refine .inl ⟨rfl, rfl, fun old hold => ?_⟩
    simpa using List.find?_eq_none.mp hfind old hold
  · next old hfind =>
    obtain ⟨l₁, l₂, hrows, hput⟩ := Rows.exists_split_of_find hfind
    split at h
    · obtain ⟨rfl, rfl⟩ := Prod.ext_iff.mp (Option.some.inj h)
      exact .inr (.inl ⟨rfl, rfl⟩)
    · next assignments hassign =>
      split at h
      · cases h
      · obtain ⟨row, hrow, hpair⟩ := Option.map_eq_some_iff.mp h
        obtain ⟨rfl, rfl⟩ := Prod.ext_iff.mp hpair
        have hclash := List.find?_some hfind
        exact .inr (.inr ⟨l₁, old, l₂, row, assignments, hrows, hput _, rfl, hclash, hassign,
          hrow⟩)

end SqlInsert

end

end Moso.Orm
