import Moso.Foundation.Ranking
import Moso.Orm.Attachment

/-!
# Preloading some rows of a relation

One statement fetches the related rows of every parent, at most a limit of them for each. It numbers
the rows of a parent in a window, or it counts for each row how many of the same parent come before
it. The rows are in the order that was asked for, with the primary key after it.
-/

namespace Moso.Orm

open ThreeValued Criteria

variable {V : Type}

/-- What of a related row has the parent's key. -/
inductive RelationKind where
  | belongsTo
  | hasOne (key : Ident)
  | hasMany (key : Ident)
  | manyToMany (join left right : Ident)
  deriving DecidableEq

inductive LimitStrategy where
  | window
  | correlatedCount
  deriving DecidableEq

/-- A preload that is limited per parent. The order is one of the related rows. -/
structure Preload (V : Type) where
  kind : RelationKind
  table : Ident
  columns : List Ident
  /-- The first column of the primary key, and the others. -/
  targetKey : Ident
  moreKeys : List Ident := []
  filters : List (Condition V) := []
  order : List (OrderTerm V) := []
  limitPerParent : ℕ
  order_own : ∀ term ∈ order, ∀ t column, term.expr = .column t column → t.getD table = table

/-- A condition on a row and one that may come before it. -/
abbrev PeerCondition (V : Type) := Server V → Row V → Row V → Truth

/-- The two statements of a limited preload. -/
inductive LimitedStatement (V : Type) where
  /-- `SELECT * FROM (SELECT …, ROW_NUMBER() OVER (PARTITION BY key ORDER BY order) FROM …)
  WHERE row <= limit ORDER BY key, row`. -/
  | window (ranked : SqlSelect V) (key : Scalar V) (order : List (OrderTerm V)) (limit : ℕ)
  /-- `WITH children AS (…) SELECT * FROM children WHERE (SELECT count(*) FROM children AS peer
  WHERE peer.key = children.key AND before) < limit ORDER BY key, order`. -/
  | correlated (children : SqlSelect V) (key : Scalar V) (before : PeerCondition V)
    (order : List (Ident × Order × Option Nulls)) (limit : ℕ)

/-! ### Building the statements -/

/-- The column of a term of the ranking. -/
def columnOf (term : OrderTerm V) : Except Error Ident :=
  match term.expr with
  | .column _ column => .ok column
  | .scalar _ =>
    .error (.unsupported "a per-parent preload limit ordered by an expression rather than a column")

/-- The peer has the smaller value, or the greater one in a descending order. -/
def strictly (column : Ident) (order : Order) : PeerCondition V := fun server peer row =>
  match order with
  | .desc => compare (fun a b => server.less b a) (peer column) (row column)
  | .asc => compare server.less (peer column) (row column)

variable [DecidableEq V]

/-- The peer sorts strictly before the row. -/
def precedes : List (OrderTerm V) → Except Error (PeerCondition V)
  | [] => .ok fun _ _ _ => some false
  | [first] => do
    let column ← columnOf first
    return strictly column first.order
  | first :: second :: rest => do
    let column ← columnOf first
    let after ← precedes (second :: rest)
    return fun server peer row => (strictly column first.order server peer row).or
      ((equal (peer column) (row column)).and (after server peer row))

/-- A term of the ranking, on the columns of the common table expression. -/
def scopeTerm (term : OrderTerm V) : Except Error (Ident × Order × Option Nulls) := do
  let column ← columnOf term
  return (column, term.order, term.nulls)

namespace Preload

omit [DecidableEq V] in
/-- A term on the column under this name. -/
def names (column : Ident) (term : OrderTerm V) : Bool :=
  match term.expr with
  | .column _ name => name = column
  | .scalar _ => false

/-- What was asked for, and the primary key's first column where that is not in it. -/
def ordering (self : Preload V) : List (OrderTerm V) :=
  if self.order.any (names self.targetKey) then self.order
  else self.order ++ [⟨.column none self.targetKey, .asc, none⟩]

def fromTable (table : Ident) (joins : List (Joined V)) : SqlSelect V where
  source := table
  items := []
  distinct := false
  joins := joins
  filters := []
  groupBy := []
  having := []
  order := []
  limit := none
  offset := none

/-- The `FROM` clause, and what the rows are grouped by. -/
def sourceAndKey (self : Preload V) : SqlSelect V × Scalar V :=
  match self.kind with
  | .belongsTo => (fromTable self.table [], Expr.column self.table self.targetKey)
  | .hasOne key | .hasMany key => (fromTable self.table [], Expr.column self.table key)
  | .manyToMany join left right =>
    (fromTable self.table [⟨.inner, join, join,
      (Expr.column join right).eq (Expr.column self.table self.targetKey), none⟩],
      Expr.column join left)

def key (self : Preload V) : Scalar V := self.sourceAndKey.2

def projection (self : Preload V) : List (Scalar V) := self.columns.map (Expr.column self.table)

/-- The related rows of the parents with these keys. -/
def rowsQuery (self : Preload V) (keys : List V) (capabilities : Capabilities) : SqlSelect V :=
  { self.sourceAndKey.1 with
    items := self.projection ++ [self.key]
    filters := self.key.keyMatch keys capabilities :: self.filters }

def statementUsing (self : Preload V) (keys : List V) (capabilities : Capabilities) :
    LimitStrategy → Except Error (LimitedStatement V)
  | .window =>
    .ok (.window (self.rowsQuery keys capabilities) self.key self.ordering self.limitPerParent)
  | .correlatedCount => do
    let before ← precedes self.ordering
    let order ← self.ordering.mapM scopeTerm
    return .correlated (self.rowsQuery keys capabilities) self.key before order
      self.limitPerParent

end Preload

/-! ### Running them -/

/-- The values that a row of a table has in a statement. -/
def cells (table : Ident) (env : Env V) : Row V := fun column => env.cell table column

/-- Ascending, with `NULL` where the server puts it. -/
def Server.ascending (server : Server V) : Option V → Option V → Bool :=
  comesBefore server.less .asc (Order.asc.defaultNulls server.flavor)

namespace LimitedStatement

/-- The server knows which column each name of the statement means: a name without a table is not
one that a joined table has as well. -/
def Accepted (schema : Ident → List Ident) : LimitedStatement V → Prop
  | .window ranked _ order _ => ranked.names.Nodup ∧ ∀ term ∈ order, ∀ column,
      term.expr = .column none column → ∀ j ∈ ranked.joins, column ∉ schema j.table
  | .correlated children _ _ _ _ => children.names.Nodup

/-- What the server may answer; it is free in the order of rows that are tied. -/
def Answers (server : Server V) (db : Database V) : LimitedStatement V → List (Env V) → Prop
  | .window ranked key order limit, out => ∃ arranged : Option V → List (Env V),
      (∀ k, Arranges ({ ranked with order }.before server.flavor server.less db)
        ((ranked.selected db).filter fun env => key.eval db env = k) (arranged k)) ∧
      ∃ out', Arranges (byNumber (key.eval db) server.ascending)
          ((numbered (ranked.selected db) (key.eval db) arranged).filter fun p => p.2 ≤ limit)
          out' ∧ out = out'.map (·.1)
  | .correlated children key before order limit, out =>
      Arranges (byPart (key.eval db) server.ascending (lex (order.map fun term env env' =>
          comesBefore server.less term.2.1 (term.2.2.getD (term.2.1.defaultNulls server.flavor))
            (env.cell children.source term.1) (env'.cell children.source term.1))))
        ((children.selected db).filter fun env => (children.selected db).countP (fun peer =>
          decide ((equal (key.eval db peer) (key.eval db env)).and
            (before server (cells children.source peer) (cells children.source env))).Holds) <
              limit) out

end LimitedStatement

/-! ### What is asked for -/

/-- The server's comparisons of a type agree with each other. -/
structure Server.Compares (server : Server V) : Prop where
  strictWeak : StrictWeak server.less
  eq_of_tied : ∀ {a b}, server.less a b = false → server.less b a = false → a = b

namespace Preload

variable (p : Preload V) (server : Server V) (schema : Ident → List Ident) (keys : List V)
  (capabilities : Capabilities) (db : Database V)

/-- What was asked for, and then the primary key. -/
def fullOrder : List (OrderTerm V) :=
  p.order ++ (p.targetKey :: p.moreKeys).map fun column => ⟨.column none column, .asc, none⟩

def sortsBefore (terms : List (OrderTerm V)) : Env V → Env V → Bool :=
  lex (terms.map fun term => term.before server.flavor server.less p.table db)

/-- The related rows of the parent with this key. -/
def related (k : V) : List (Env V) :=
  ((p.rowsQuery keys capabilities).selected db).filter fun env => p.key.eval db env = some k

/-- The related rows of a parent, in the order that was asked for. -/
def ranked (k : V) : List (Env V) :=
  sort (p.sortsBefore server db p.fullOrder) (p.related keys capabilities db k)

def shown (env : Env V) : List (Option V) := p.columns.map (env.cell p.table)

/-- What the parent is to get. -/
def expected (k : V) : List (List (Option V)) :=
  ((p.ranked server keys capabilities db k).take p.limitPerParent).map p.shown

/-- What the parent gets of an answer. -/
def payload (out : List (Env V)) (k : V) : List (List (Option V)) :=
  (out.filter fun env => p.key.eval db env = some k).map p.shown

/-- Whatever the server makes of the two statements, each gives every parent the first of its rows
in the order that was asked for. -/
def StrategiesAgree : Prop :=
  ∃ w c, p.statementUsing keys capabilities .window = .ok w ∧
    p.statementUsing keys capabilities .correlatedCount = .ok c ∧
      w.Accepted schema ∧ c.Accepted schema ∧
        ∀ out, w.Answers server db out ∨ c.Answers server db out → ∀ k ∈ keys,
          p.payload db out k = p.expected server keys capabilities db k

/-- No column that the ranking names without its table is one of the join table too. -/
def Unambiguous : Prop :=
  p.sourceAndKey.1.names.Nodup ∧ ∀ term ∈ p.ordering, ∀ column, term.expr = .column none column →
    ∀ j ∈ p.sourceAndKey.1.joins, column ∉ schema j.table

/-- The parent's first rows are seen to come before its others, and they look like the rows that
they are tied with. -/
def Separated (before : PeerCondition V) (k : V) : Prop :=
  ∀ a ∈ (p.ranked server keys capabilities db k).take p.limitPerParent,
    (∀ b ∈ (p.ranked server keys capabilities db k).drop p.limitPerParent,
      (before server (cells p.table a) (cells p.table b)).Holds) ∧
    ∀ b ∈ p.ranked server keys capabilities db k,
      Tied (p.sortsBefore server db p.ordering) a b → p.shown a = p.shown b

instance (before : PeerCondition V) (k : V) :
    Decidable (p.Separated server keys capabilities db before k) :=
  inferInstanceAs (Decidable (∀ a ∈ (p.ranked server keys capabilities db k).take p.limitPerParent,
    (∀ b ∈ (p.ranked server keys capabilities db k).drop p.limitPerParent,
      (before server (cells p.table a) (cells p.table b)).Holds) ∧
    ∀ b ∈ p.ranked server keys capabilities db k,
      Tied (p.sortsBefore server db p.ordering) a b → p.shown a = p.shown b))

variable {p server schema keys capabilities db}

/-! ### The order of the ranking -/

omit [DecidableEq V] in
lemma ordering_own : ∀ term ∈ p.ordering, ∀ t column, term.expr = .column t column →
    t.getD p.table = p.table := by
  intro term hterm t column hcolumn
  rw [ordering] at hterm
  split at hterm
  · exact p.order_own term hterm t column hcolumn
  · rcases List.mem_append.mp hterm with hterm | hterm
    · exact p.order_own term hterm t column hcolumn
    · obtain rfl := List.mem_singleton.mp hterm
      obtain ⟨rfl, -⟩ := SortExpr.column.inj hcolumn
      rfl

omit [DecidableEq V] in
lemma strictWeak_sortsBefore (h : server.Compares) (terms : List (OrderTerm V)) :
    StrictWeak (p.sortsBefore server db terms) := by
  refine strictWeak_lex fun before hbefore => ?_
  obtain ⟨term, -, rfl⟩ := List.mem_map.mp hbefore
  exact (strictWeak_comesBefore h.strictWeak _ _).comap _

omit [DecidableEq V] in
/-- The ranking is by the beginning of the full order. -/
lemma exists_fullOrder : ∃ rest, p.fullOrder = p.ordering ++ rest := by
  rw [fullOrder, ordering]
  split
  · exact ⟨_, rfl⟩
  · exact ⟨p.moreKeys.map fun column => ⟨.column none column, .asc, none⟩, by simp⟩

lemma arranges_ranked (h : server.Compares) (k : V) :
    Arranges (p.sortsBefore server db p.ordering) (p.related keys capabilities db k)
      (p.ranked server keys capabilities db k) := by
  refine ⟨sort_perm _ _, (sorted_sort (strictWeak_sortsBefore h _) _).imp fun {a b} hba => ?_⟩
  obtain ⟨rest, hrest⟩ := p.exists_fullOrder
  rw [sortsBefore, hrest, List.map_append] at hba
  by_contra hne
  exact Bool.false_ne_true (hba.symm.trans (lex_append (Bool.not_eq_false _ ▸ hne)))

/-! ### What the count sees -/

/-- Whether a value comes before another in this direction. -/
def below (server : Server V) (order : Order) (x y : V) : Bool :=
  comesBefore server.less order .last (some x) (some y)

omit [DecidableEq V] in
lemma strictWeak_below (h : server.Compares) (order : Order) :
    StrictWeak (below server order) :=
  (strictWeak_comesBefore h.strictWeak order .last).comap some

omit [DecidableEq V] in
lemma eq_of_tied_below (h : server.Compares) {order : Order} {x y : V}
    (hxy : below server order x y = false) (hyx : below server order y x = false) : x = y := by
  cases order with
  | asc => exact h.eq_of_tied hxy hyx
  | desc => exact h.eq_of_tied hyx hxy

omit [DecidableEq V] in
lemma holds_strictly {column : Ident} {order : Order} {peer row : Row V} :
    (strictly column order server peer row).Holds ↔ ∃ x y, peer column = some x ∧
      row column = some y ∧ below server order x y = true := by
  cases order with
  | asc => exact holds_compare
  | desc => exact holds_compare

/-- The first term decides, or the others do where it sees two equal values. -/
lemma precedes_cons_eq_ok {term : OrderTerm V} {terms : List (OrderTerm V)}
    {before : PeerCondition V} (h : precedes (term :: terms) = .ok before) :
    ∃ column after, columnOf term = .ok column ∧ precedes terms = .ok after ∧
      ∀ server peer row, (before server peer row).Holds ↔
        (strictly column term.order server peer row).Holds ∨
          (equal (peer column) (row column)).Holds ∧ (after server peer row).Holds := by
  cases terms with
  | nil =>
    obtain ⟨column, hcolumn, h⟩ := Fallible.bind_eq_ok.mp h
    obtain rfl := Except.ok.inj h
    exact ⟨column, _, hcolumn, rfl, fun server peer row => by simp⟩
  | cons second rest =>
    obtain ⟨column, hcolumn, h⟩ := Fallible.bind_eq_ok.mp h
    obtain ⟨after, hafter, h⟩ := Fallible.bind_eq_ok.mp h
    obtain rfl := Except.ok.inj h
    exact ⟨column, after, hcolumn, hafter, fun server peer row => by simp⟩

omit [DecidableEq V] in
lemma columnOf_eq_ok {term : OrderTerm V} {column : Ident} (h : columnOf term = .ok column) :
    ∃ t, term.expr = .column t column := by
  rw [columnOf] at h
  split at h
  · next t name hexpr => exact ⟨t, hexpr.trans (by rw [Except.ok.inj h])⟩
  · cases h

/-- The peer counts for the row. -/
def seenBefore (server : Server V) (table : Ident) (before : PeerCondition V) (peer env : Env V) :
    Bool :=
  decide (before server (cells table peer) (cells table env)).Holds

omit [DecidableEq V] in
lemma term_before {term : OrderTerm V} {t : Option Ident} {column table : Ident}
    (hcolumn : term.expr = .column t column) (hown : t.getD table = table) (env env' : Env V) :
    term.before server.flavor server.less table db env env' =
      comesBefore server.less term.order (term.nulls.getD (term.order.defaultNulls server.flavor))
        (env.cell table column) (env'.cell table column) := by
  rw [OrderTerm.before, hcolumn, SortExpr.eval, SortExpr.eval, hown]

/-- The count sees some of the rows that come before, and where `NULL` keeps it from seeing one,
it sees only rows that come before that one. -/
theorem approximates_precedes (h : server.Compares) {terms : List (OrderTerm V)}
    {before : PeerCondition V} (hbefore : precedes terms = .ok before)
    (hown : ∀ term ∈ terms, ∀ t column, term.expr = .column t column → t.getD p.table = p.table) :
    Approximates (seenBefore server p.table before) (p.sortsBefore server db terms) := by
  induction terms generalizing before with
  | nil =>
    obtain rfl := Except.ok.inj hbefore
    exact .of_never fun a b => by simp [seenBefore]
  | cons term terms ih =>
    obtain ⟨column, after, hcolumn, hafter, hholds⟩ := precedes_cons_eq_ok hbefore
    obtain ⟨t, hexpr⟩ := columnOf_eq_ok hcolumn
    have hrest := ih hafter fun term' hterm' => hown term' (List.mem_cons_of_mem term hterm')
    have hown := hown term List.mem_cons_self t column hexpr
    refine Approximates.cons (strictWeak_below h term.order) (eq_of_tied_below h)
      (fun {a b x y} (ha : a.cell p.table column = some x)
        (hb : b.cell p.table column = some y) => ?_) hrest fun {a b} => ?_
    · refine (term_before hexpr hown a b).trans ?_
      rw [ha, hb]
      rfl
    · rw [seenBefore, decide_eq_true_eq, hholds, holds_strictly, equal, holds_compare]
      constructor
      · rintro (⟨x, y, hx, hy, hlt⟩ | ⟨⟨x, y, hx, hy, heq⟩, hafter⟩)
        · exact ⟨x, y, hx, hy, .inl hlt⟩
        · exact ⟨x, y, hx, hy, .inr ⟨of_decide_eq_true heq, decide_eq_true hafter⟩⟩
      · rintro ⟨x, y, hx, hy, hlt | ⟨heq, hafter⟩⟩
        · exact .inl ⟨x, y, hx, hy, hlt⟩
        · exact .inr ⟨⟨x, y, hx, hy, decide_eq_true heq⟩, of_decide_eq_true hafter⟩

/-! ### The answers for one parent -/

omit [DecidableEq V] in
lemma strictWeak_ascending (h : server.Compares) : StrictWeak server.ascending :=
  strictWeak_comesBefore h.strictWeak _ _

lemma source_rowsQuery : (p.rowsQuery keys capabilities).source = p.table := by
  rw [rowsQuery, sourceAndKey]
  cases p.kind <;> rfl

lemma names_rowsQuery : (p.rowsQuery keys capabilities).names = p.sourceAndKey.1.names := rfl

lemma before_window : { p.rowsQuery keys capabilities with order := p.ordering }.before
    server.flavor server.less db = p.sortsBefore server db p.ordering := by
  rw [SqlSelect.before, sortsBefore]
  change lex (p.ordering.map fun term => term.before server.flavor server.less
    (p.rowsQuery keys capabilities).source db) = _
  rw [source_rowsQuery]

lemma payload_numbered {k : V} {out : List (Env V × ℕ)} {l : List (Env V)}
    (hout : (out.filter fun q => p.key.eval db q.1 = some k) = l.zipIdx 1) :
    p.payload db (out.map (·.1)) k = l.map p.shown := by
  have hfilter : (out.map (·.1)).filter (fun env => decide (p.key.eval db env = some k)) =
      (out.filter fun q => p.key.eval db q.1 = some k).map (·.1) := List.filter_map
  rw [payload, hfilter, hout, List.zipIdx_map_fst]

/-- The window form may give a parent the first rows of any arrangement, and nothing else. -/
lemma window_payload (h : server.Compares) {k : V} {rows : List (List (Option V))} :
    (∀ out, (LimitedStatement.window (p.rowsQuery keys capabilities) p.key p.ordering
        p.limitPerParent).Answers server db out → p.payload db out k = rows) ↔
      ∀ l, Arranges (p.sortsBefore server db p.ordering) (p.related keys capabilities db k) l →
        (l.take p.limitPerParent).map p.shown = rows := by
  have hkey := strictWeak_ascending h
  constructor
  · intro hall l hl
    let arranged : Option V → List (Env V) := fun k' =>
      if k' = some k then l else sort (p.sortsBefore server db p.ordering)
        (((p.rowsQuery keys capabilities).selected db).filter fun env => p.key.eval db env = k')
    have harranged : ∀ k', Arranges (p.sortsBefore server db p.ordering)
        (((p.rowsQuery keys capabilities).selected db).filter fun env => p.key.eval db env = k')
        (arranged k') := by
      intro k'
      by_cases hk' : k' = some k
      · subst hk'
        have hself : arranged (some k) = l := if_pos rfl
        rw [hself]
        exact hl
      · have hother : arranged k' = sort _ _ := if_neg hk'
        rw [hother]
        exact arranges_sort (strictWeak_sortsBefore h _) _
    have hsorted := arranges_sort (strictWeak_byNumber (p.key.eval db) hkey)
      ((numbered ((p.rowsQuery keys capabilities).selected db) (p.key.eval db) arranged).filter
        fun q => q.2 ≤ p.limitPerParent)
    have hself : arranged (some k) = l := if_pos rfl
    have hpart := filter_of_byNumber hkey.irrefl (fun k' => (harranged k').perm) hsorted (some k)
    rw [hself] at hpart
    refine (payload_numbered hpart).symm.trans (hall _ ⟨arranged, fun k' => ?_, _, hsorted, rfl⟩)
    rw [before_window]
    exact harranged k'
  · rintro hall out ⟨arranged, harranged, out', hout', rfl⟩
    rw [before_window] at harranged
    have hpart := filter_of_byNumber hkey.irrefl (fun k' => (harranged k').perm) hout' (some k)
    rw [← hall _ (harranged (some k)), payload_numbered hpart]

omit [DecidableEq V] in
/-- The terms of the outer order are those of the ranking. -/
lemma scopeTerms_before (server : Server V) (db : Database V) {terms : List (OrderTerm V)}
    {order : List (Ident × Order × Option Nulls)} (horder : terms.mapM scopeTerm = .ok order)
    (hown : ∀ term ∈ terms, ∀ t column, term.expr = .column t column → t.getD p.table = p.table) :
    lex (order.map fun term (env env' : Env V) => comesBefore server.less term.2.1
      (term.2.2.getD (term.2.1.defaultNulls server.flavor)) (env.cell p.table term.1)
        (env'.cell p.table term.1)) = p.sortsBefore server db terms := by
  rw [sortsBefore]
  congr 1
  have hterms := Fallible.forall₂_of_mapM horder
  clear horder
  induction hterms with
  | nil => rfl
  | cons hterm hterms ih =>
    obtain ⟨column, hcolumn, hterm⟩ := Fallible.bind_eq_ok.mp hterm
    obtain rfl := Except.ok.inj hterm
    obtain ⟨t, hexpr⟩ := columnOf_eq_ok hcolumn
    rw [List.map_cons, List.map_cons]
    congr 1
    · funext env env'
      exact (term_before hexpr (hown _ List.mem_cons_self t column hexpr) env env').symm
    · exact ih fun term hterm => hown term (List.mem_cons_of_mem _ hterm)

/-- What the correlated form keeps of one parent's rows. -/
lemma filter_correlated (before : PeerCondition V) (k : V) :
    (((p.rowsQuery keys capabilities).selected db).filter fun env =>
        ((p.rowsQuery keys capabilities).selected db).countP (fun peer =>
          decide ((equal (p.key.eval db peer) (p.key.eval db env)).and
            (before server (cells p.table peer) (cells p.table env))).Holds) <
              p.limitPerParent).filter (fun env => p.key.eval db env = some k) =
      (p.related keys capabilities db k).filter (withinFirst (seenBefore server p.table before)
        (p.related keys capabilities db k) p.limitPerParent) := by
  rw [related, List.filter_comm]
  refine List.filter_congr fun env henv => ?_
  have hkey := of_decide_eq_true (List.mem_filter.mp henv).2
  rw [withinFirst, List.countP_filter]
  refine decide_eq_decide.mpr ?_
  rw [List.countP_congr fun peer _ => ?_]
  rw [hkey, decide_eq_true_eq, Truth.holds_and, holds_equal_some, Bool.and_eq_true, seenBefore,
    decide_eq_true_eq, decide_eq_true_eq, and_comm]

/-- The correlated form may give a parent any arrangement of the rows that it keeps. -/
lemma correlated_payload (h : server.Compares) {before : PeerCondition V}
    {order : List (Ident × Order × Option Nulls)} (horder : p.ordering.mapM scopeTerm = .ok order)
    {k : V} {rows : List (List (Option V))} :
    (∀ out, (LimitedStatement.correlated (p.rowsQuery keys capabilities) p.key before order
        p.limitPerParent).Answers server db out → p.payload db out k = rows) ↔
      ∀ l, Arranges (p.sortsBefore server db p.ordering) ((p.related keys capabilities db k).filter
          (withinFirst (seenBefore server p.table before) (p.related keys capabilities db k)
            p.limitPerParent)) l → l.map p.shown = rows := by
  have hkey := strictWeak_ascending h
  simp only [LimitedStatement.Answers, source_rowsQuery,
    scopeTerms_before server db horder p.ordering_own]
  constructor
  · intro hall l hl
    rw [← filter_correlated] at hl
    obtain ⟨out, hout, hfilter⟩ := exists_byPart hkey (strictWeak_sortsBefore h _) hl
    rw [← hall out hout, payload, hfilter]
  · intro hall out hout
    have hpart := filter_of_byPart hkey.irrefl hout (some k)
    rw [filter_correlated] at hpart
    exact hall _ hpart

/-- A ranking that can be compared can be written in the outer statement. -/
lemma exists_scopeTerms {terms : List (OrderTerm V)} {before : PeerCondition V}
    (hbefore : precedes terms = .ok before) : ∃ order, terms.mapM scopeTerm = .ok order := by
  induction terms generalizing before with
  | nil => exact ⟨[], rfl⟩
  | cons term terms ih =>
    obtain ⟨column, after, hcolumn, hafter, -⟩ := precedes_cons_eq_ok hbefore
    obtain ⟨order, horder⟩ := ih hafter
    refine ⟨(column, term.order, term.nulls) :: order, ?_⟩
    rw [List.mapM_cons, scopeTerm, hcolumn, horder]
    rfl

/-- For one parent the two forms agree just when no row of its first `limitPerParent` is kept from
being told apart from the others, by `NULL` or by a tie. -/
lemma agree_iff_separated (h : server.Compares) {before : PeerCondition V}
    (hbefore : precedes p.ordering = .ok before) {order : List (Ident × Order × Option Nulls)}
    (horder : p.ordering.mapM scopeTerm = .ok order) (k : V) :
    (∀ out, (LimitedStatement.window (p.rowsQuery keys capabilities) p.key p.ordering
          p.limitPerParent).Answers server db out ∨
        (LimitedStatement.correlated (p.rowsQuery keys capabilities) p.key before order
          p.limitPerParent).Answers server db out →
      p.payload db out k = p.expected server keys capabilities db k) ↔
      p.Separated server keys capabilities db before k := by
  have happrox : Approximates (seenBefore server p.table before)
      (p.sortsBefore server db p.ordering) := approximates_precedes h hbefore p.ordering_own
  have harranges : Arranges _ (p.related keys capabilities db k)
      (p.ranked server keys capabilities db k) := arranges_ranked h k
  have hfirst := first_eq_iff (strictWeak_sortsBefore h p.ordering) happrox harranges
    (n := p.limitPerParent) (f := p.shown)
  simp only [or_imp, forall_and]
  rw [window_payload h, correlated_payload h horder, expected, hfirst, Separated]
  simp only [seenBefore, decide_eq_true_eq, forall_and]

/-- The oldest comment of each post. -/
def firstComment : Preload ℕ where
  kind := .hasMany "post_id"
  table := "comments"
  columns := ["id"]
  targetKey := "id"
  order := [⟨.column (some "comments") "written", .asc, none⟩]
  limitPerParent := 1
  order_own := by
    intro term hterm t column hcolumn
    obtain rfl := List.mem_singleton.mp hterm
    obtain ⟨rfl, -⟩ := SortExpr.column.inj hcolumn
    rfl

/-- The comments of post `7`, by their number. -/
def commentsWritten (times : List (ℕ × Option ℕ)) : Database ℕ := fun table =>
  if table = "comments" then times.map fun comment column =>
    if column = "id" then some comment.1
    else if column = "written" then comment.2
    else if column = "post_id" then some 7 else none
  else []

def numbers : Server ℕ :=
  Server.stable .postgres (fun a b => decide (a < b)) strictWeak_lt some (fun _ _ => none)
    fun _ => true

lemma compares_numbers : numbers.Compares where
  strictWeak := strictWeak_lt
  eq_of_tied hab hba :=
    le_antisymm (not_lt.mp (of_decide_eq_false hba)) (not_lt.mp (of_decide_eq_false hab))

end Preload

end Moso.Orm
