import Moso.Foundation.Paging
import Moso.Orm.Page

/-!
# Following the cursors

The condition that a page resumes with is true for the rows strictly after the cursor's row, in
three-valued logic and with `NULL`s on either side. The primary key makes the order total, so that
the pages return every row once, and a page leads back to the one before it.
-/

namespace Moso.Orm

open ThreeValued Criteria Paging

variable {V : Type} {server : Server V} {E : Entity} {direction : PageDirection}
  {column : KeyColumn} {key : List KeyColumn} {db : Database V} {env env' : Env V}

/-! ### The order of the key -/

/-- The order that one column of the key asks for. -/
def KeyColumn.before (server : Server V) (E : Entity) (direction : PageDirection)
    (column : KeyColumn) (env env' : Env V) : Bool :=
  comesBefore server.less (column.orderFor direction) (column.nullsFor direction)
    (env.cell E.table column.column) (env'.cell E.table column.column)

/-- The order of the pages. -/
def keyBefore (server : Server V) (E : Entity) (direction : PageDirection) (key : List KeyColumn) :
    Env V → Env V → Bool :=
  lex (key.map (KeyColumn.before server E direction))

lemma KeyColumn.strictWeak_before (h : server.Compares) :
    StrictWeak (column.before server E direction) :=
  (strictWeak_comesBefore h.strictWeak _ _).comap fun env : Env V => env.cell E.table column.column

lemma strictWeak_keyBefore (h : server.Compares) :
    StrictWeak (keyBefore server E direction key) :=
  strictWeak_lex fun before hbefore => by
    obtain ⟨column, -, rfl⟩ := List.mem_map.mp hbefore
    exact KeyColumn.strictWeak_before h

/-- Two values that are tied are the same. -/
lemma eq_of_tied_comesBefore (h : server.Compares) {order : Order} {nulls : Nulls}
    {x y : Option V} (hxy : comesBefore server.less order nulls x y = false)
    (hyx : comesBefore server.less order nulls y x = false) : x = y := by
  rcases x with _ | a <;> rcases y with _ | b
  · rfl
  · cases nulls <;> simp_all [comesBefore]
  · cases nulls <;> simp_all [comesBefore]
  · cases order with
    | asc => exact congrArg some (h.eq_of_tied hxy hyx)
    | desc => exact congrArg some (h.eq_of_tied hyx hxy)

lemma comesBefore_reversed {less : V → V → Bool} {order : Order} {nulls : Nulls}
    {x y : Option V} :
    comesBefore less order.reversed nulls.reversed x y = comesBefore less order nulls y x := by
  rcases x with _ | a <;> rcases y with _ | b <;> cases order <;> cases nulls <;> rfl

/-- Backwards, the order is the other way round. -/
lemma keyBefore_backward :
    keyBefore server E .backward key env env' = keyBefore server E .forward key env' env := by
  induction key with
  | nil => rfl
  | cons column key ih =>
    have hfirst : ∀ env env' : Env V, column.before server E .backward env env' =
        column.before server E .forward env' env := fun _ _ => comesBefore_reversed
    rw [keyBefore, keyBefore] at ih ⊢
    rw [List.map_cons, List.map_cons, lex, lex, ih, hfirst, hfirst]

/-- The `ORDER BY` of the statement asks for the order of the key. -/
lemma before_orderTerms {q : SqlSelect V}
    (horder : q.order = (orderTerms E key direction).map pinNullOrder) :
    q.before server.flavor server.less db = keyBefore server E direction key := by
  rw [SqlSelect.before, horder, orderTerms, List.map_map, List.map_map, keyBefore]
  refine congrArg lex (List.map_congr_left fun column _ => funext fun env => funext fun env' => ?_)
  rw [KeyColumn.before, KeyColumn.orderFor, KeyColumn.nullsFor]
  cases direction <;> simp [PageDirection.reversesTheOrder, OrderTerm.reversed, pinNullOrder,
    OrderTerm.before, SortExpr.eval]

/-! ### The condition -/

variable [DecidableEq V]

lemma keeps_equalTo {value : Option V} :
    (equalTo E column value).Keeps db env ↔ env.cell E.table column.column = value := by
  cases value with
  | none => exact Expr.keeps_isNull
  | some value => exact Expr.keeps_column_eq_bound

omit [DecidableEq V] in
lemma keeps_beyond {order : Order} (nulls : Nulls) {value : V} {t c : Ident} :
    (beyond server order (Expr.column t c) value).Keeps db env ↔ ∃ b, env.cell t c = some b ∧
      comesBefore server.less order nulls (some value) (some b) = true := by
  cases order with
  | asc =>
    refine Expr.keeps_lt.trans ⟨?_, ?_⟩
    · rintro ⟨a, b, ha, hb, hlt⟩
      obtain rfl := Option.some.inj ha
      exact ⟨b, hb, hlt⟩
    · rintro ⟨b, hb, hlt⟩
      exact ⟨value, b, rfl, hb, hlt⟩
  | desc =>
    refine Expr.keeps_lt.trans ⟨?_, ?_⟩
    · rintro ⟨b, a, hb, ha, hlt⟩
      obtain rfl := Option.some.inj ha
      exact ⟨b, hb, hlt⟩
    · rintro ⟨b, hb, hlt⟩
      exact ⟨b, value, hb, rfl, hlt⟩

omit [DecidableEq V] in
/-- The condition on one column is the order of the column, at a row without a `NULL` where there
may be none. -/
lemma keeps_strictlyAfter (server : Server V) (direction : PageDirection) (db : Database V)
    (value : Option V)
    (hnull : column.nullable = false → env.cell E.table column.column ≠ none) :
    (∃ c ∈ strictlyAfter server E direction column value, c.Keeps db env) ↔
      comesBefore server.less (column.orderFor direction) (column.nullsFor direction) value
        (env.cell E.table column.column) = true := by
  cases value with
  | none =>
    rw [strictlyAfter]
    cases column.nullsFor direction with
    | first =>
      cases hcell : env.cell E.table column.column <;> simp [comesBefore, hcell]
    | last =>
      cases hcell : env.cell E.table column.column <;> simp [comesBefore]
  | some value =>
    rw [strictlyAfter]
    cases hcell : env.cell E.table column.column with
    | none =>
      have hbase : ¬(beyond server (column.orderFor direction)
          (Expr.column E.table column.column) value).Keeps db env := fun hkeeps => by
        obtain ⟨b, hb, -⟩ := (keeps_beyond .first).1 hkeeps
        cases hcell.symm.trans hb
      have hnullable : column.nullable = true := by
        by_contra hne
        exact hnull (Bool.not_eq_true _ ▸ hne) hcell
      cases column.nullsFor direction <;> simp [comesBefore, hbase, hnullable, hcell]
    | some b =>
      have hbase : (beyond server (column.orderFor direction)
          (Expr.column E.table column.column) value).Keeps db env ↔
            comesBefore server.less (column.orderFor direction) (column.nullsFor direction)
              (some value) (some b) = true := by
        rw [keeps_beyond]
        constructor
        · rintro ⟨b', hb', hbefore⟩
          obtain rfl := Option.some.inj (hcell.symm.trans hb')
          exact hbefore
        · exact fun hbefore => ⟨b, hcell, hbefore⟩
      split_ifs
      · simp [hbase, hcell]
      · simp [hbase]

omit [DecidableEq V] in
lemma lex_cons_iff (h : server.Compares) {a : Env V} :
    keyBefore server E direction (column :: key) a env = true ↔
      column.before server E direction a env = true ∨
        env.cell E.table column.column = a.cell E.table column.column ∧
          keyBefore server E direction key a env = true := by
  rw [keyBefore, List.map_cons, lex_cons]
  cases hab : column.before server E direction a env with
  | true => simp
  | false =>
    refine or_congr_right (and_congr_left fun _ => ⟨fun hba => ?_, fun heq => ?_⟩)
    · exact eq_of_tied_comesBefore h hba hab
    · rw [KeyColumn.before, heq]
      exact (strictWeak_comesBefore h.strictWeak _ _).irrefl _

/-- The values of the key in a row. -/
def keyOf (E : Entity) (key : List KeyColumn) (env : Env V) : List (Option V) :=
  key.map fun column => env.cell E.table column.column

/-- The disjuncts from a column on: the row agrees in the columns before, and comes after in those
that are left. -/
lemma keeps_disjuncts (h : server.Compares) {a : Env V}
    (hnull : ∀ column ∈ key, column.nullable = false → env.cell E.table column.column ≠ none)
    (equal : List (Condition V)) :
    (∃ c ∈ disjuncts server E direction equal (key.zip (keyOf E key a)), c.Keeps db env) ↔
      (∀ c ∈ equal, c.Keeps db env) ∧ keyBefore server E direction key a env = true := by
  induction key generalizing equal with
  | nil =>
    rw [keyBefore, List.map_nil, lex_nil]
    refine iff_of_false ?_ fun h => Bool.false_ne_true h.2
    rintro ⟨c, hc, -⟩
    exact List.not_mem_nil hc
  | cons column key ih =>
    obtain ⟨hfirst, hrest⟩ := List.forall_mem_cons.mp hnull
    have hlater := ih hrest (equal ++ [equalTo E column (a.cell E.table column.column)])
    have hafter := keeps_strictlyAfter server direction db (a.cell E.table column.column) hfirst
    rw [List.forall_mem_append, List.forall_mem_singleton, keeps_equalTo] at hlater
    rw [keyOf, List.map_cons, List.zip_cons_cons, disjuncts, lex_cons_iff h, and_or_left,
      ← and_assoc, ← hlater, KeyColumn.before, ← hafter]
    cases strictlyAfter server E direction column (a.cell E.table column.column) with
    | none => simp [keyOf]
    | some c =>
      dsimp only
      rw [List.exists_mem_cons_iff, Expr.keeps_allOf, List.forall_mem_append,
        List.forall_mem_singleton, keyOf]
      simp only [Option.mem_some_iff, exists_eq_left']

/-- The condition holds of the rows strictly after the one with these values, and of no other. -/
theorem keeps_keysetExpr (h : server.Compares) {a : Env V}
    (hnull : ∀ column ∈ key, column.nullable = false → env.cell E.table column.column ≠ none) :
    (keysetExpr server E direction key (keyOf E key a)).Keeps db env ↔
      keyBefore server E direction key a env = true := by
  rw [keysetExpr, Expr.keeps_anyOf, keeps_disjuncts h hnull []]
  exact and_iff_right fun c hc => absurd hc List.not_mem_nil

/-! ### The key of a row -/

omit [DecidableEq V] in
lemma keyColumn_eq_ok {term : OrderTerm V} (h : keyColumn E term = .ok column) :
    (∃ definition, (definition, column.index) ∈ E.columns.zipIdx ∧
        column.column = definition.name) ∧
      (∃ qualifier : Option Ident, term.expr = .column qualifier column.column ∧
        qualifier.getD E.table = E.table) ∧
      column.order = term.order ∧ column.nulls = term.nulls.getD (defaultNulls term.order) := by
  rw [keyColumn] at h
  split at h
  · cases h
  · next qualifier name hexpr =>
    split_ifs at h with hqualifier
    split at h
    · cases h
    · next definition index hfind =>
      obtain rfl := Except.ok.inj h
      have hname : definition.name = name := by simpa using List.find?_some hfind
      refine ⟨⟨definition, List.mem_of_find?_eq_some hfind, rfl⟩, ⟨qualifier, hname ▸ hexpr, ?_⟩,
        rfl, rfl⟩
      cases qualifier with
      | none => rfl
      | some qualifier => simpa using hqualifier

omit [DecidableEq V] in
lemma keyColumns_eq_ok {order : List (OrderTerm V)} (h : keyColumns E order = .ok key) :
    ∃ own rest, key = own ++ rest ∧
      List.Forall₂ (fun term column => keyColumn E term = .ok column) order own ∧
      ∀ column ∈ E.columns, column.primaryKey = true → ∃ k ∈ key, k.column = column.name := by
  obtain ⟨own, hmap, h⟩ := Fallible.bind_eq_ok.1 h
  dsimp only at h
  split_ifs at h with hempty
  obtain rfl := Except.ok.inj h
  have hown := Fallible.forall₂_of_mapM hmap
  refine ⟨own, _, rfl, hown, fun column hcolumn hprimary => ?_⟩
  obtain ⟨i, hi, rfl⟩ := List.mem_iff_getElem.mp hcolumn
  have hzip : (E.columns[i], i) ∈ E.columns.zipIdx :=
    List.mem_zipIdx_iff_getElem?.mpr (List.getElem?_eq_getElem hi)
  by_cases hknown : ∃ k ∈ own, k.index = i
  · obtain ⟨k, hk, rfl⟩ := hknown
    obtain ⟨term, -, hterm⟩ := Fallible.exists_of_mem_mapM hmap hk
    obtain ⟨⟨definition, hdefinition, hname⟩, -⟩ := keyColumn_eq_ok hterm
    have hget := List.mem_zipIdx_iff_getElem?.mp hdefinition
    rw [List.getElem?_eq_getElem hi] at hget
    exact ⟨k, List.mem_append_left _ hk, hname.trans (congrArg _ (Option.some.inj hget)).symm⟩
  · refine ⟨_, List.mem_append_right own
      (List.mem_map.mpr ⟨_, List.mem_filter.mpr ⟨hzip, ?_⟩, rfl⟩), rfl⟩
    push Not at hknown
    simpa [hprimary] using hknown

omit [DecidableEq V] in
lemma pinNullOrder_spec (term : OrderTerm V) : (pinNullOrder term).expr = term.expr ∧
    (pinNullOrder term).order = term.order ∧
      (pinNullOrder term).nulls = some (term.nulls.getD (defaultNulls term.order)) := by
  obtain ⟨expr, order, nulls⟩ := term
  cases nulls with
  | none => cases order <;> exact ⟨rfl, rfl, rfl⟩
  | some nulls => exact ⟨rfl, rfl, rfl⟩

omit [DecidableEq V] in
/-- The key begins with what the query is ordered by. -/
lemma before_of_own {order : List (OrderTerm V)} {own : List KeyColumn} {q : SqlSelect V}
    (hown : List.Forall₂ (fun term column => keyColumn E term = .ok column) order own)
    (hsource : q.source = E.table) (horder : q.order = order.map pinNullOrder) :
    q.before server.flavor server.less db = keyBefore server E .forward own := by
  rw [SqlSelect.before, horder, List.map_map, keyBefore]
  refine congrArg lex ?_
  clear horder
  induction hown with
  | nil => rfl
  | @cons term column terms columns hterm _ ih =>
    obtain ⟨-, ⟨qualifier, hexpr, hqualifier⟩, horder, hnulls⟩ := keyColumn_eq_ok hterm
    rw [List.map_cons, List.map_cons, ih]
    refine congrArg (· :: _) (funext fun env => funext fun env' => ?_)
    obtain ⟨hexpr', horder', hnulls'⟩ := pinNullOrder_spec term
    rw [Function.comp_apply, OrderTerm.before, hexpr', horder', hnulls', ← hnulls, hexpr, ← horder,
      SortExpr.eval, SortExpr.eval, hsource, hqualifier]
    rfl

/-! ### The statement of a page -/

omit [DecidableEq V] in
lemma Select.checkScope_eq_ok {self : Select V} : self.checkScope E = .ok () ↔
    ∀ filter ∈ self.filters, filter.missingFrom (self.scope E) = none := by
  rw [← List.findSome?_eq_none_iff, Select.checkScope]
  cases self.filters.findSome? fun filter => filter.missingFrom (self.scope E) with
  | none => exact iff_of_true rfl rfl
  | some missing => exact iff_of_false (fun h => by cases h) (fun h => by cases h)

/-- The query of a page, as a statement: it differs from the whole query in the order, in one more
condition and in the limit. -/
lemma toStatement_paged {self : Select V} {q : SqlSelect V} (h : self.toStatement E = .ok q)
    (hjoins : self.joins = []) (terms : List (OrderTerm V)) (n : ℕ) (extra : List (Condition V)) :
    ({ self with
      order := terms
      filters := self.filters ++ extra.map (Predicate.mk · [E.name])
      limit := some n } : Select V).toStatement E = .ok { q with
        order := terms.map pinNullOrder
        filters := q.filters ++ extra
        limit := some n } := by
  obtain ⟨_, hscope, h⟩ := Fallible.bind_eq_ok.1 h
  obtain ⟨_, htenant, h⟩ := Fallible.bind_eq_ok.1 h
  obtain rfl := Except.ok.inj h
  refine Fallible.bind_eq_ok.2 ⟨(), ?_, Fallible.bind_eq_ok.2 ⟨(), htenant, ?_⟩⟩
  · refine Select.checkScope_eq_ok.2 fun filter hfilter => ?_
    rcases List.mem_append.mp hfilter with hfilter | hfilter
    · exact Select.checkScope_eq_ok.1 hscope filter hfilter
    · obtain ⟨c, -, rfl⟩ := List.mem_map.mp hfilter
      rw [Predicate.missingFrom_eq_none, Select.scope, hjoins]
      exact fun entity hentity => hentity
  · refine congrArg Except.ok ?_
    simp [Select.conditions, Function.comp_def]

/-- What a query in the order of the key returns, when the key tells its rows apart. -/
lemma run_eq_take (h : server.Compares) {q : SqlSelect V} {l : List (Env V)}
    (hl : Strict (keyBefore server E direction key) l) (hperm : l.Perm (q.selected db))
    (hjoins : q.joins = []) (hgroup : q.groupBy = []) (hhaving : q.having = [])
    (hdistinct : q.distinct = false) (hoffset : q.offset = none) {n : ℕ} (hlimit : q.limit = some n)
    (horder : q.order = (orderTerms E key direction).map pinNullOrder) :
    q.run server db = some (l.take n) := by
  have hgrouped := server.group_of_nil q db (q.selected db) hgroup hhaving
  have hdistincts : q.distincts db (q.selected db) = q.selected db := by
    rw [SqlSelect.distincts, hdistinct, if_neg Bool.false_ne_true]
  have harranged := server.arrange_sorted q db (q.selected db)
  rw [before_orderTerms horder] at harranged
  have heq := hl.eq_of_perm (strictWeak_keyBefore h) harranged
    ((server.arrange_perm q db _).trans hperm.symm)
  refine SqlSelect.run_eq_some.2 ⟨by simp [SqlSelect.names, hjoins], ?_⟩
  rw [hgrouped, hdistincts, heq, SqlSelect.window, hoffset, hlimit]
  rfl

omit [DecidableEq V] in
lemma selected_filters {q : SqlSelect V} {terms : List (OrderTerm V)} {limit : Option ℕ}
    {extra : List (Condition V)} :
    ({ q with
      order := terms
      filters := q.filters ++ extra
      limit := limit } : SqlSelect V).selected db =
      (q.selected db).filter fun env => ∀ c ∈ extra, c.Keeps db env := by
  rw [SqlSelect.selected, SqlSelect.selected, List.filter_filter]
  refine List.filter_congr fun env _ => ?_
  rw [← Bool.decide_and, decide_eq_decide, SqlSelect.Matches, SqlSelect.Matches]
  exact List.forall_mem_append.trans and_comm

/-! ### What a page is made of -/

omit [DecidableEq V] in
lemma readKeyValue_eq_ok {value : Option V} (h : readKeyValue E env column = .ok value) :
    value = env.cell E.table column.column ∧
      (column.nullable = false → env.cell E.table column.column ≠ none) := by
  rw [readKeyValue] at h
  split at h
  · next hcell =>
    split_ifs at h with hnullable
    obtain rfl := Except.ok.inj h
    exact ⟨hcell.symm, fun hne => absurd (hne.symm.trans hnullable) Bool.false_ne_true⟩
  · next value' hcell =>
    split_ifs at h
    obtain rfl := Except.ok.inj h
    exact ⟨hcell.symm, fun _ hnone => by cases hcell.symm.trans hnone⟩

omit [DecidableEq V] in
/-- The key that is read is that of the row, which has no `NULL` where there may be none. -/
lemma readKey_eq_ok {values : List (Option V)} (h : readKey E key env = .ok values) :
    values = keyOf E key env ∧
      ∀ column ∈ key, column.nullable = false → env.cell E.table column.column ≠ none := by
  have hall := Fallible.forall₂_of_mapM h
  clear h
  induction hall with
  | nil => exact ⟨rfl, fun _ h => absurd h List.not_mem_nil⟩
  | cons hvalue _ ih =>
    obtain ⟨rfl, hnull⟩ := readKeyValue_eq_ok hvalue
    obtain ⟨rfl, hrest⟩ := ih
    exact ⟨rfl, List.forall_mem_cons.mpr ⟨hnull, hrest⟩⟩

variable {Cursor : Type} {self : Paginated V Cursor}

/-- The cursor for a row. -/
def Paginated.cursorOf (E : Entity) (self : Paginated V Cursor) (key : List KeyColumn)
    (row : Env V) : Option Cursor :=
  (self.mint E (Paginated.ordering E key) (keyOf E key row)).toOption

/-- A row whose key can be read, and be carried in a cursor. -/
def Paginated.Names (E : Entity) (self : Paginated V Cursor) (key : List KeyColumn) (row : Env V) :
    Prop :=
  readKey E key row = .ok (keyOf E key row) ∧ (self.cursorOf E key row).isSome

omit [DecidableEq V] in
lemma mintIf_eq_ok (row : Option (Env V)) (h : ∀ r ∈ row, self.Names E key r) (wanted : Bool) :
    self.mintIf E wanted (Paginated.ordering E key) (row.map (keyOf E key)) =
      .ok (if wanted then row.bind (self.cursorOf E key) else none) := by
  cases wanted with
  | false => cases row <;> rfl
  | true =>
    cases row with
    | none => rfl
    | some row =>
      obtain ⟨-, hnamed⟩ := h row rfl
      rw [if_pos rfl, Option.bind_some]
      rw [Paginated.cursorOf] at hnamed ⊢
      change some <$> self.mint E (Paginated.ordering E key) (keyOf E key row) = _
      cases hmint : self.mint E (Paginated.ordering E key) (keyOf E key row) with
      | error e =>
        rw [hmint] at hnamed
        cases hnamed
      | ok token => rfl

omit [DecidableEq V] in
lemma assemble_eq_ok (self : Paginated V Cursor) {rows items : List (Env V)}
    (hitems : items = if self.direction.reversesTheOrder then (rows.take self.limit).reverse
      else rows.take self.limit)
    (h : ∀ row ∈ items, self.Names E key row) :
    self.assemble E key rows = .ok {
      items
      next := if (if self.direction = .backward then self.cursor.isSome
        else decide (self.limit < rows.length)) then items.getLast?.bind (self.cursorOf E key)
        else none
      prev := if (if self.direction = .backward then decide (self.limit < rows.length)
        else self.cursor.isSome) then items.head?.bind (self.cursorOf E key) else none } := by
  have hkept : ∀ row ∈ rows.take self.limit, readKey E key row = .ok (keyOf E key row) := by
    intro row hrow
    refine (h row ?_).1
    rw [hitems]
    split_ifs
    · exact List.mem_reverse.mpr hrow
    · exact hrow
  have hkeys : (rows.take self.limit).mapM (readKey E key) =
      .ok ((rows.take self.limit).map (keyOf E key)) :=
    Fallible.mapM_eq_ok_iff.2 (List.forall₂_map_right_iff.mpr (List.forall₂_same.mpr hkept))
  have hreversed : (if self.direction.reversesTheOrder then
      ((rows.take self.limit).map (keyOf E key)).reverse
      else (rows.take self.limit).map (keyOf E key)) = items.map (keyOf E key) := by
    rw [hitems]
    split_ifs
    · exact List.map_reverse.symm
    · rfl
  have hlast := mintIf_eq_ok items.getLast? fun r hr => h r (List.mem_of_mem_getLast? hr)
  have hfirst := mintIf_eq_ok items.head? fun r hr => h r (List.mem_of_mem_head? hr)
  refine Fallible.bind_eq_ok.2 ⟨_, hkeys, ?_⟩
  dsimp only
  rw [hreversed, ← hitems, List.getLast?_map, List.head?_map]
  exact Fallible.bind_eq_ok.2 ⟨_, hlast _, Fallible.bind_eq_ok.2 ⟨_, hfirst _, rfl⟩⟩

omit [DecidableEq V] in
lemma cells_eq_of_tied (h : server.Compares) {a : Env V}
    (hab : keyBefore server E direction key a env = false)
    (hba : keyBefore server E direction key env a = false) :
    ∀ column ∈ key, a.cell E.table column.column = env.cell E.table column.column := by
  induction key with
  | nil => exact fun _ hmem => absurd hmem List.not_mem_nil
  | cons column key ih =>
    rw [← Bool.not_eq_true, lex_cons_iff h, not_or, Bool.not_eq_true] at hab hba
    have hcell := eq_of_tied_comesBefore h hab.1 hba.1
    refine List.forall_mem_cons.mpr ⟨hcell, ih ?_ ?_⟩
    · exact Bool.not_eq_true _ ▸ fun hrest => hab.2 ⟨hcell.symm, hrest⟩
    · exact Bool.not_eq_true _ ▸ fun hrest => hba.2 ⟨hcell, hrest⟩

/-! ### Listings -/

/-- The primary key tells the rows of a table apart. -/
def KeyedBy (E : Entity) (rows : List (Row V)) : Prop :=
  rows.Pairwise fun row row' =>
    ∃ column ∈ E.columns, column.primaryKey = true ∧ row column.name ≠ row' column.name

namespace Paginated

/-- A listing of one table's rows by a key: the server compares values as an order, the primary
key is one, every row's key fits into a cursor, and what the codec signs it verifies. -/
structure Listing (server : Server V) (E : Entity) (page : Paginated V Cursor)
    (key : List KeyColumn) (q : SqlSelect V) (db : Database V) : Prop where
  compares : server.Compares
  resolves : keyColumns E page.select.order = .ok key
  builds : page.select.toStatement E = .ok q
  joins : page.select.joins = []
  groupBy : page.select.groupBy = []
  having : page.select.having = []
  distinct : page.select.distinct = false
  unlimited : page.select.limit = none
  offset : page.select.offset = none
  keyed : KeyedBy E (db E.table)
  names : ∀ row ∈ db E.table, page.Names E key (Env.only E.table row)
  verifies : ∀ codec ∈ page.codec, ∀ scope cursor token,
    codec.sign scope cursor = .ok token → codec.verify scope token = .ok cursor

/-- The page of the listing from a cursor, in a direction. -/
def resumed (self : Paginated V Cursor) (direction : PageDirection) (cursor : Option Cursor) :
    Paginated V Cursor :=
  { self with
    cursor := cursor
    direction := direction }

variable {q : SqlSelect V} {l pre post : List (Env V)}

lemma plan_resumed_none : (self.resumed direction none).plan server E key = .ok { self.select with
    order := orderTerms E key direction
    limit := some (self.limit + 1) } := rfl

omit [DecidableEq V] in
lemma cursorOf_eq_some {token : Cursor} {a : Env V} (h : self.cursorOf E key a = some token) :
    ∃ codec, self.codec = some codec ∧
      codec.sign (self.scope.getD E.name) ⟨ordering E key, keyOf E key a⟩ = .ok token := by
  rw [cursorOf, mint] at h
  cases hcodec : self.codec with
  | none =>
    rw [hcodec] at h
    cases h
  | some codec =>
    rw [hcodec] at h
    dsimp only at h
    refine ⟨codec, rfl, ?_⟩
    cases hsign : codec.sign (self.scope.getD E.name) ⟨ordering E key, keyOf E key a⟩ with
    | error e =>
      rw [hsign] at h
      cases h
    | ok token' =>
      rw [hsign] at h
      exact congrArg Except.ok (Option.some.inj h)

lemma plan_resumed_some (h : Listing server E self key q db) {token : Cursor} {a : Env V}
    (htoken : self.cursorOf E key a = some token) :
    (self.resumed direction (some token)).plan server E key = .ok { self.select with
      order := orderTerms E key direction
      filters := self.select.filters ++
        [⟨keysetExpr server E direction key (keyOf E key a), [E.name]⟩]
      limit := some (self.limit + 1) } := by
  have hopened : (self.resumed direction (some token)).opened E key token =
      .ok ⟨ordering E key, keyOf E key a⟩ := by
    obtain ⟨codec, hcodec, hsign⟩ := cursorOf_eq_some htoken
    have hverify := h.verifies codec hcodec _ _ _ hsign
    rw [opened, resumed]
    simp only [hcodec, hverify]
    exact if_pos ⟨rfl, List.length_map _⟩
  exact Fallible.bind_eq_ok.2 ⟨_, hopened, rfl⟩

/-- The statement is over the rows of the table, without grouping. -/
lemma Listing.shape (h : Listing server E self key q db) : q.source = E.table ∧ q.joins = [] ∧
    q.groupBy = [] ∧ q.having = [] ∧ q.distinct = false ∧ q.offset = none ∧
      q.order = self.select.order.map pinNullOrder := by
  obtain ⟨_, -, hq⟩ := Fallible.bind_eq_ok.1 h.builds
  obtain ⟨_, -, hq⟩ := Fallible.bind_eq_ok.1 hq
  obtain rfl := Except.ok.inj hq
  exact ⟨rfl, h.joins, h.groupBy, h.having, h.distinct, h.offset, rfl⟩

lemma Listing.selected_eq (h : Listing server E self key q db) : q.selected db =
    ((db E.table).map (Env.only E.table)).filter fun env => q.Matches db env := by
  obtain ⟨hsource, hjoins, -⟩ := h.shape
  rw [SqlSelect.selected, SqlSelect.joined, hsource, hjoins]
  rfl

lemma Listing.names_of_mem (h : Listing server E self key q db) (henv : env ∈ q.selected db) :
    self.Names E key env := by
  rw [h.selected_eq] at henv
  obtain ⟨row, hrow, rfl⟩ := List.mem_map.mp (List.mem_of_mem_filter henv)
  exact h.names row hrow

/-- What the page from a row on is made of. -/
theorem fetch_resumed (h : Listing server E self key q db)
    (hl : Strict (keyBefore server E direction key) l) (hperm : l.Perm (q.selected db))
    (hsplit : l = pre ++ post) :
    (self.resumed direction (pre.getLast?.bind (self.cursorOf E key))).fetch server E db =
      (self.resumed direction (pre.getLast?.bind (self.cursorOf E key))).assemble E key
        (post.take (self.limit + 1)) := by
  obtain ⟨-, hjoins, hgroup, hhaving, hdistinct, hoffset, -⟩ := h.shape
  have hselect : (self.resumed direction (pre.getLast?.bind (self.cursorOf E key))).select =
      self.select := rfl
  -- the conditions that the page adds, and the rows that they keep
  obtain ⟨extra, hplan, hkeep⟩ : ∃ extra : List (Condition V),
      (self.resumed direction (pre.getLast?.bind (self.cursorOf E key))).plan server E key =
        .ok { self.select with
          order := orderTerms E key direction
          filters := self.select.filters ++ extra.map (Predicate.mk · [E.name])
          limit := some (self.limit + 1) } ∧
      l.filter (fun env => ∀ c ∈ extra, c.Keeps db env) = post := by
    rcases List.eq_nil_or_concat pre with rfl | ⟨front, a, rfl⟩
    · refine ⟨[], ?_, ?_⟩
      · rw [List.map_nil, List.append_nil]
        exact plan_resumed_none
      · rw [hsplit, List.nil_append, List.filter_eq_self.mpr]
        exact fun env _ => decide_eq_true fun c hc => absurd hc List.not_mem_nil
    · rw [List.concat_eq_append, List.append_assoc, List.singleton_append] at hsplit
      subst hsplit
      have hnames : ∀ env ∈ front ++ a :: post, self.Names E key env := fun env henv =>
        h.names_of_mem (hperm.mem_iff.mp henv)
      obtain ⟨token, htoken⟩ := Option.isSome_iff_exists.mp (hnames a (by simp)).2
      refine ⟨[keysetExpr server E direction key (keyOf E key a)], ?_, ?_⟩
      · rw [List.concat_eq_append, List.getLast?_append, List.getLast?_singleton, Option.some_or,
          Option.bind_some, htoken]
        exact plan_resumed_some h htoken
      · refine (List.filter_congr fun env henv => ?_).trans
          (hl.filter_after (strictWeak_keyBefore h.compares))
        have hnull := (readKey_eq_ok (hnames env henv).1).2
        rw [Bool.eq_iff_iff, decide_eq_true_iff, List.forall_mem_singleton,
          keeps_keysetExpr h.compares hnull]
  have hstrict : Strict (keyBefore server E direction key) post := hkeep ▸ hl.filter _
  have hkept : post.Perm (({ q with
      order := (orderTerms E key direction).map pinNullOrder
      filters := q.filters ++ extra
      limit := some (self.limit + 1) } : SqlSelect V).selected db) := by
    rw [← hkeep, selected_filters]
    exact hperm.filter _
  have hrun := run_eq_take h.compares hstrict hkept hjoins hgroup hhaving hdistinct hoffset rfl rfl
  have hstatement := toStatement_paged h.builds h.joins (orderTerms E key direction)
    (self.limit + 1) extra
  rw [fetch, hselect, h.resolves]
  simp only [bind, Except.bind, hplan, hstatement, Except.mapError, hrun]

/-- A page: the rows that follow, in the order of the listing, and the cursors of its ends where
there are rows beyond. -/
theorem fetch_eq_ok (h : Listing server E self key q db)
    (hl : Strict (keyBefore server E direction key) l) (hperm : l.Perm (q.selected db))
    (hsplit : l = pre ++ post) (items : List (Env V))
    (hitems : items = if direction.reversesTheOrder then (post.take self.limit).reverse
      else post.take self.limit) :
    (self.resumed direction (pre.getLast?.bind (self.cursorOf E key))).fetch server E db = .ok {
      items
      next := if (if direction = .backward then !pre.isEmpty
        else decide (self.limit < post.length)) then items.getLast?.bind (self.cursorOf E key)
        else none
      prev := if (if direction = .backward then decide (self.limit < post.length)
        else !pre.isEmpty) then items.head?.bind (self.cursorOf E key) else none } := by
  have hnames : ∀ env ∈ l, self.Names E key env := fun env henv =>
    h.names_of_mem (hperm.mem_iff.mp henv)
  have hresuming : (pre.getLast?.bind (self.cursorOf E key)).isSome = !pre.isEmpty := by
    rcases List.eq_nil_or_concat pre with rfl | ⟨front, a, rfl⟩
    · rfl
    · rw [List.concat_eq_append, List.getLast?_append, List.getLast?_singleton, Option.some_or,
        Option.bind_some, (hnames a (by simp [hsplit])).2]
      simp
  have hmore : decide (self.limit < (post.take (self.limit + 1)).length) =
      decide (self.limit < post.length) := by
    rw [decide_eq_decide, List.length_take]
    omega
  have htake : (post.take (self.limit + 1)).take self.limit = post.take self.limit := by
    rw [List.take_take, Nat.min_eq_left (Nat.le_succ _)]
  have hmade : items = if direction.reversesTheOrder then
      ((post.take (self.limit + 1)).take self.limit).reverse
      else (post.take (self.limit + 1)).take self.limit := by
    rw [hitems, htake]
  have hpageNames : ∀ row ∈ items, self.Names E key row := by
    intro row hrow
    refine hnames row (hsplit ▸ List.mem_append_right pre ?_)
    refine List.mem_of_mem_take (i := self.limit) ?_
    rw [hitems] at hrow
    split_ifs at hrow
    · exact List.mem_reverse.mp hrow
    · exact hrow
  have hassemble := assemble_eq_ok
    (self.resumed direction (pre.getLast?.bind (self.cursorOf E key))) hmade hpageNames
  rw [fetch_resumed h hl hperm hsplit, hassemble, ← hresuming, ← hmore]
  rfl

/-! ### The walk -/

/-- The page in a direction from a cursor on, if it can be had. -/
def turn (server : Server V) (E : Entity) (self : Paginated V Cursor) (db : Database V)
    (direction : PageDirection) (cursor : Option Cursor) : Option (Page V Cursor) :=
  ((self.resumed direction cursor).fetch server E db).toOption

lemma Listing.apart (h : Listing server E self key q db) :
    Apart (keyBefore server E .forward key) (q.selected db) := by
  rw [h.selected_eq]
  obtain ⟨_, _, -, -, hprimary⟩ := keyColumns_eq_ok h.resolves
  refine List.Pairwise.sublist List.filter_sublist (List.pairwise_map.mpr (h.keyed.imp ?_))
  rintro row row' ⟨column, hcolumn, hkey, hne⟩
  by_contra hnone
  rw [not_or, Bool.not_eq_true, Bool.not_eq_true] at hnone
  obtain ⟨k, hk, hname⟩ := hprimary column hcolumn hkey
  have hcell := cells_eq_of_tied h.compares hnone.1 hnone.2 k hk
  rw [Env.cell_only, Env.cell_only, hname] at hcell
  exact hne hcell

/-- The rows in the order of the listing. -/
lemma Listing.exists_strict (h : Listing server E self key q db) :
    ∃ l, Strict (keyBefore server E .forward key) l ∧ l.Perm (q.selected db) ∧
      Arranges (q.before server.flavor server.less db) (q.selected db) l := by
  have hweak : StrictWeak (keyBefore server E .forward key) := strictWeak_keyBefore h.compares
  have hperm := sort_perm (keyBefore server E .forward key) (q.selected db)
  have hsorted := sorted_sort hweak (q.selected db)
  refine ⟨_, strict_of_sorted hsorted (h.apart.perm hperm.symm), hperm, hperm, ?_⟩
  obtain ⟨own, rest, rfl, hown, -⟩ := keyColumns_eq_ok h.resolves
  obtain ⟨hsource, -, -, -, -, -, horder⟩ := h.shape
  rw [before_of_own hown hsource horder]
  refine hsorted.imp fun {a b} hba => ?_
  by_contra hne
  refine Bool.false_ne_true (hba.symm.trans ?_)
  rw [keyBefore, List.map_append]
  exact lex_append (Bool.not_eq_false _ ▸ hne)

lemma Listing.resumes (h : Listing server E self key q db)
    (hl : Strict (keyBefore server E .forward key) l) (hperm : l.Perm (q.selected db)) :
    Resumes (turn server E self db .forward) Page.next Page.items (self.cursorOf E key) self.limit
      l where
  named a ha := Option.isSome_iff_exists.mp (h.names_of_mem (hperm.mem_iff.mp ha)).2
  page pre post hsplit := by
    have hpage := fetch_eq_ok h hl hperm hsplit (post.take self.limit) rfl
    refine ⟨_, by rw [turn, hpage]; rfl, rfl, ?_⟩
    simp

/-- A page that goes backwards from the row after some others has the last of these. -/
lemma Listing.turn_backward (h : Listing server E self key q db)
    (hl : Strict (keyBefore server E .forward key) l) (hperm : l.Perm (q.selected db))
    {mid : List (Env V)} {a : Env V} (hsplit : l = pre ++ (mid ++ a :: post))
    (hmid : mid.length = self.limit) :
    ∃ page, turn server E self db .backward (self.cursorOf E key a) = some page ∧
      page.items = mid := by
  have hreverse : Strict (keyBefore server E .backward key) l.reverse := by
    refine List.pairwise_reverse.mpr (hl.imp fun hab => ?_)
    rwa [keyBefore_backward]
  have hsplit' : l.reverse = (post.reverse ++ [a]) ++ (mid.reverse ++ pre.reverse) := by
    simp [hsplit]
  have hmade : mid = if PageDirection.backward.reversesTheOrder then
      ((mid.reverse ++ pre.reverse).take self.limit).reverse
      else (mid.reverse ++ pre.reverse).take self.limit := by
    rw [List.take_append_of_le_length (by simp [hmid]), List.take_of_length_le (by simp [hmid]),
      List.reverse_reverse]
    rfl
  have hpage := fetch_eq_ok h hreverse (l.reverse_perm.trans hperm) hsplit' mid hmade
  rw [List.getLast?_append, List.getLast?_singleton, Option.some_or, Option.bind_some] at hpage
  exact ⟨_, by rw [turn, hpage]; rfl, rfl⟩

/-! ### The newest comments -/

/-- A codec that puts the listing's name on the cursor. -/
def labelled : CursorCodec ℕ (String × PageCursor ℕ) where
  sign scope cursor := .ok (scope, cursor)
  verify scope token := if token.1 = scope then .ok token.2 else .error .tampered

/-- Comments, of which some have no time. -/
def comments : Entity where
  name := "Comment"
  table := "comments"
  columns := [⟨"id", .i64, true, false⟩, ⟨"written", .timestamp, false, true⟩]
  managed_nodup := by exact List.Pairwise.nil

/-- Two comments to a page, the newest first. -/
def newest : Paginated ℕ (String × PageCursor ℕ) where
  select := { order := [⟨.column none "written", .desc, none⟩] }
  cursor := none
  limit := 2
  codec := some labelled

def newestKey : List KeyColumn :=
  [⟨1, "written", .timestamp, true, .desc, .first⟩, ⟨0, "id", .i64, false, .desc, .first⟩]

def newestQuery : SqlSelect ℕ where
  source := "comments"
  items := Shape.entity.projection comments
  distinct := false
  joins := []
  filters := []
  groupBy := []
  having := []
  order := [⟨.column none "written", .desc, some .first⟩]
  limit := none
  offset := none

lemma keyedBy_commentsWritten {times : List (ℕ × Option ℕ)} (h : (times.map Prod.fst).Nodup) :
    KeyedBy comments (Preload.commentsWritten times "comments") :=
  List.pairwise_map.mpr ((List.pairwise_map.mp h).imp fun hne =>
    ⟨_, List.mem_cons_self, rfl, fun heq => hne (Option.some.inj heq)⟩)

def threeComments : Database ℕ := Preload.commentsWritten [(1, some 5), (2, none), (3, some 6)]

lemma listing_newest :
    Listing Preload.numbers comments newest newestKey newestQuery threeComments where
  compares := Preload.compares_numbers
  resolves := by decide
  builds := rfl
  joins := rfl
  groupBy := rfl
  having := rfl
  distinct := rfl
  unlimited := rfl
  offset := rfl
  keyed := keyedBy_commentsWritten (by decide)
  names row hrow := by
    obtain ⟨⟨id, written⟩, -, rfl⟩ := List.mem_map.mp hrow
    cases written <;> exact ⟨rfl, rfl⟩
  verifies codec hcodec scope cursor token hsign := by
    obtain rfl := Option.some.inj hcodec
    obtain rfl := Except.ok.inj hsign
    exact if_pos rfl

/-- Following the cursors from the first page returns every row of the query once, in an order
that the query asks for, and in pages that are full but for the last. -/
theorem walk_visits (h : Listing server E self key q db) (hlimit : 0 < self.limit) :
    ∃ pages, Walk (turn server E self db .forward) Page.next none pages ∧
      Arranges (q.before server.flavor server.less db) (q.selected db)
        (pages.flatMap Page.items) ∧
      ∀ page ∈ pages.dropLast, page.items.length = self.limit := by
  obtain ⟨l, hl, hperm, harranges⟩ := h.exists_strict
  obtain ⟨pages, hwalk, hitems, hfull⟩ := (h.resumes hl hperm).exists_walk hlimit l.nil_append.symm
  exact ⟨pages, hwalk, hitems ▸ harranges, hfull⟩

theorem walk_visits_newest : ∃ pages,
    Walk (turn Preload.numbers comments newest threeComments .forward) Page.next none pages ∧
      Arranges (newestQuery.before .postgres Preload.numbers.less threeComments)
        (newestQuery.selected threeComments) (pages.flatMap Page.items) ∧
      ∀ page ∈ pages.dropLast, page.items.length = 2 :=
  walk_visits listing_newest (by decide)

/-- The cursor for the page before leads back to it, along the whole walk. -/
theorem walk_leads_back (h : Listing server E self key q db) (hlimit : 0 < self.limit)
    {pages : List (Page V Cursor)}
    (hwalk : Walk (turn server E self db .forward) Page.next none pages) :
    pages.IsChain fun page page' => ∃ cursor back, page'.prev = some cursor ∧
      turn server E self db .backward (some cursor) = some back ∧ back.items = page.items := by
  obtain ⟨l, hl, hperm, -⟩ := h.exists_strict
  refine (h.resumes hl hperm).isChain hlimit ?_ l.nil_append.symm hwalk
  intro pre mid post page page' hsplit hmid hpost hpage hpage'
  obtain ⟨a, post, rfl⟩ := List.exists_cons_of_ne_nil hpost
  obtain ⟨token, htoken⟩ := (h.resumes hl hperm).named a (by simp [hsplit])
  obtain ⟨back, hback, hitems⟩ := h.turn_backward hl hperm hsplit hmid
  rw [htoken] at hback
  refine ⟨token, back, ?_, hback, hitems.trans ?_⟩
  · have hsplit' : l = (pre ++ mid) ++ a :: post := by rw [hsplit, List.append_assoc]
    have hfetch := fetch_eq_ok h hl hperm hsplit' ((a :: post).take self.limit) rfl
    rw [turn, hfetch] at hpage'
    obtain rfl := Option.some.inj hpage'
    have hne : (pre ++ mid).isEmpty = false := by
      rw [List.isEmpty_eq_false_iff]
      refine List.append_ne_nil_of_right_ne_nil pre (List.ne_nil_of_length_pos ?_)
      rw [hmid]
      exact hlimit
    obtain ⟨n, hn⟩ := Nat.exists_eq_succ_of_ne_zero hlimit.ne'
    simp [hne, hn, htoken]
  · have hfetch := fetch_eq_ok h hl hperm hsplit mid
      (by rw [List.take_append_of_le_length hmid.ge, ← hmid, List.take_length]; rfl)
    rw [turn, hfetch] at hpage
    obtain rfl := Option.some.inj hpage
    rfl

theorem walk_leads_back_newest : ∃ pages, 1 < pages.length ∧
    Walk (turn Preload.numbers comments newest threeComments .forward) Page.next none pages ∧
    pages.IsChain fun page page' => ∃ cursor back, page'.prev = some cursor ∧
      turn Preload.numbers comments newest threeComments .backward (some cursor) = some back ∧
        back.items = page.items := by
  obtain ⟨l, hl, hperm, -⟩ := listing_newest.exists_strict
  obtain ⟨pages, hwalk, -⟩ := (listing_newest.resumes hl hperm).exists_walk (by decide)
    l.nil_append.symm
  refine ⟨pages, ?_, hwalk, walk_leads_back listing_newest (by decide) hwalk⟩
  have hfirst : ((turn Preload.numbers comments newest threeComments .forward none).bind
      Page.next).isSome = true := by rfl
  cases hwalk with
  | last hfetch hnext =>
    rw [List.getLast?_nil, Option.bind_none] at hfetch
    rw [hfetch, Option.bind_some, hnext] at hfirst
    cases hfirst
  | more _ _ hlater => cases hlater <;> simp

end Paginated

end Moso.Orm
