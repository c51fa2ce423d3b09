import Moso.Orm.Select

/-!
# Counting

`count` renders a plain `count(*)` when the query is neither grouped nor distinct, and else counts
the rows of a subquery; `exists` asks for one row of a subquery that projects a constant. The
answers are compared with the number of rows that the query itself returns.
-/

namespace Moso.Orm

variable {V : Type}

/-- What a server makes of a query that has `HAVING` and no `GROUP BY`: its rows are one group,
from which it may refuse to return the query's columns. -/
structure WholeGroup (V : Type) where
  refuses : SqlSelect V → Bool
  /-- `HAVING` keeps the group. -/
  keeps : SqlSelect V → Database V → Bool

namespace SqlSelect

/-- Two queries that form the same groups: they differ in what comes after `HAVING`. -/
structure SameGroups (q q' : SqlSelect V) : Prop where
  source : q.source = q'.source
  joins : q.joins = q'.joins
  filters : q.filters = q'.filters
  groupBy : q.groupBy = q'.groupBy
  having : q.having = q'.having

/-- The rows are one group. -/
def isWhole (q : SqlSelect V) : Bool := q.groupBy.isEmpty && !q.having.isEmpty

/-- How many of `n` rows `LIMIT` and `OFFSET` leave. -/
def windowSize (q : SqlSelect V) (n : ℕ) : ℕ :=
  match q.limit with
  | none => n - q.offset.getD 0
  | some limit => min limit (n - q.offset.getD 0)

variable [DecidableEq V]

/-- How many rows the query returns, unless it is refused. -/
def size (server : Server V) (whole : WholeGroup V) (q : SqlSelect V) (db : Database V) :
    Option ℕ :=
  if q.isWhole then
    if q.names.Nodup ∧ whole.refuses q = false then
      some (q.windowSize (whole.keeps q db).toNat)
    else none
  else (q.run server db).map List.length

/-- What `count(*)` in the place of the columns answers. It is read as zero when `HAVING` drops
the only row. -/
def tally (whole : WholeGroup V) (q : SqlSelect V) (db : Database V) : Option ℕ :=
  if q.names.Nodup then
    some (if q.isWhole && !whole.keeps q db then 0 else (q.selected db).length)
  else none

/-- How many rows there are before `LIMIT` and `OFFSET`. -/
def available (server : Server V) (whole : WholeGroup V) (q : SqlSelect V) (db : Database V) : ℕ :=
  if q.isWhole then (whole.keeps q db).toNat
  else (q.distincts db (server.group q db (q.selected db))).length

end SqlSelect

/-- Grouping comes before the projection, the order and the paging, which have no say in it. -/
structure Server.GroupsFirst (server : Server V) (whole : WholeGroup V) : Prop where
  group_congr : ∀ {q q' : SqlSelect V}, q.SameGroups q' → ∀ db rows,
    server.group q db rows = server.group q' db rows
  keeps_congr : ∀ {q q' : SqlSelect V}, q.SameGroups q' → ∀ db,
    whole.keeps q db = whole.keeps q' db
  /-- Columns that are returned are returned under any paging. -/
  refuses_paged : ∀ (q : SqlSelect V) limit offset,
    whole.refuses { q with limit, offset } = whole.refuses q
  /-- Where columns are returned, so are constants. -/
  returns_constants : ∀ {q q' : SqlSelect V}, q.SameGroups q' → whole.refuses q = false →
    (∀ item ∈ q'.items, item.reads = []) → whole.refuses q' = false

namespace Select

variable [DecidableEq V]

/-- The query without its ordering, limit and offset. -/
def unpaged (self : Select V) : Select V :=
  { self with order := [], limit := none, offset := none }

def count (server : Server V) (whole : WholeGroup V) (E : Entity) (self : Select V)
    (db : Database V) : Except Error (Option ℕ) := do
  let q ← self.toCountStatement E
  return if self.groupBy.isEmpty && !self.distinct then q.tally whole db else q.size server whole db

end Select

/-- `SELECT EXISTS (SELECT 1 FROM … LIMIT 1)`. -/
def Select.exists [DecidableEq V] (server : Server V) (whole : WholeGroup V) (E : Entity)
    (self : Select V) (db : Database V) : Except Error (Option Bool) := do
  let q ← self.toExistsStatement E
  return (q.size server whole db).map fun n => decide (0 < n)

/-! ### Sizes -/

namespace SqlSelect

variable {q q' : SqlSelect V} {db : Database V} {n : ℕ} {server : Server V} {whole : WholeGroup V}

lemma length_window {rows : List (Env V)} : (q.window rows).length = q.windowSize rows.length := by
  rw [window, windowSize]
  cases q.limit with
  | none => exact List.length_drop
  | some limit => simp only [List.length_take, List.length_drop]

lemma windowSize_pos : 0 < q.windowSize n ↔ q.limit ≠ some 0 ∧ q.offset.getD 0 < n := by
  rw [windowSize]
  cases q.limit with
  | none => simp [Nat.sub_pos_iff_lt]
  | some limit => simp [Nat.pos_iff_ne_zero, Nat.sub_ne_zero_iff_lt]

lemma windowSize_eq_self : q.windowSize n = n ↔
    n = 0 ∨ q.offset.getD 0 = 0 ∧ ∀ limit ∈ q.limit, n ≤ limit := by
  rw [windowSize]
  cases q.limit with
  | none =>
    simp only [Option.not_mem_none, false_imp_iff, implies_true, and_true]
    omega
  | some limit =>
    simp only [Option.mem_some_iff, forall_eq']
    omega

section

variable [DecidableEq V]

lemma size_eq_some : q.size server whole db = some n ↔ q.names.Nodup ∧
    (q.isWhole = true → whole.refuses q = false) ∧
      n = q.windowSize (q.available server whole db) := by
  rw [size, available]
  cases hwhole : q.isWhole with
  | true =>
    simp only [if_true, Option.ite_none_right_eq_some, Option.some.injEq, forall_const, and_assoc,
      eq_comm (a := n)]
  | false =>
    rw [if_neg Bool.false_ne_true, if_neg Bool.false_ne_true, Option.map_eq_some_iff]
    constructor
    · rintro ⟨rows, hrun, rfl⟩
      obtain ⟨hnames, rfl⟩ := run_eq_some.1 hrun
      refine ⟨hnames, fun h => absurd h Bool.false_ne_true, ?_⟩
      rw [length_window, (server.arrange_perm q db _).length_eq]
    · rintro ⟨hnames, -, rfl⟩
      refine ⟨_, run_eq_some.2 ⟨hnames, rfl⟩, ?_⟩
      rw [length_window, (server.arrange_perm q db _).length_eq]

end

namespace SameGroups

lemma names (h : q.SameGroups q') : q.names = q'.names := by
  rw [SqlSelect.names, SqlSelect.names, h.source, h.joins]

lemma isWhole (h : q.SameGroups q') : q.isWhole = q'.isWhole := by
  rw [SqlSelect.isWhole, SqlSelect.isWhole, h.groupBy, h.having]

lemma selected [DecidableEq V] (h : q.SameGroups q') (db : Database V) :
    q.selected db = q'.selected db := by
  refine List.filter_congr (fun env _ => ?_) |>.trans (congrArg _ ?_)
  · exact decide_eq_decide.mpr (by rw [Matches, Matches, h.filters])
  · rw [joined, joined, h.source, h.joins]

end SameGroups

variable [DecidableEq V]

lemma available_congr (hserver : server.GroupsFirst whole) (h : q.SameGroups q')
    (hitems : q.items = q'.items) (hdistinct : q.distinct = q'.distinct) :
    q.available server whole db = q'.available server whole db := by
  rw [available, available, h.isWhole, hserver.keeps_congr h, h.selected, hserver.group_congr h,
    distincts, distincts, hitems, hdistinct]

/-- Rows that all look alike are distinct only when there is one. -/
lemma length_distincts_of_constant {rows : List (Env V)} (hdistinct : q.distinct = true)
    (hitems : ∀ item ∈ q.items, item.reads = []) :
    (q.distincts db rows).length = min 1 rows.length := by
  rw [distincts, if_pos hdistinct]
  have halike : ∀ env env', (q.items.map fun item => item.eval db env) =
      q.items.map fun item => item.eval db env' := by
    intro env env'
    refine List.map_congr_left fun item hitem => item.eval_congr db env env' fun t ht => ?_
    rw [hitems item hitem] at ht
    exact absurd ht List.not_mem_nil
  induction rows with
  | nil => rfl
  | cons env rows ih =>
    cases rows with
    | nil => rfl
    | cons env' rows =>
      rw [List.pwFilter_cons_of_neg, ih]
      · simp
      · intro hall
        have hpos : 0 < (List.pwFilter (fun env env' : Env V =>
            (q.items.map fun item => item.eval db env) ≠
              q.items.map fun item => item.eval db env') (env' :: rows)).length := by
          rw [ih]
          simp
        obtain ⟨other, hother⟩ := List.exists_mem_of_length_pos hpos
        exact hall other hother (halike env other)

lemma length_distincts_pos {rows : List (Env V)} :
    0 < (q.distincts db rows).length ↔ 0 < rows.length := by
  rw [List.length_pos_iff_exists_mem, List.length_pos_iff_exists_mem]
  constructor
  · rintro ⟨env, henv⟩
    exact ⟨env, distincts_subset henv⟩
  · rintro ⟨env, henv⟩
    obtain ⟨env', henv', -⟩ : ∃ env' ∈ q.distincts db rows,
        (q.items.map fun item => item.eval db env) = q.items.map fun item => item.eval db env' :=
      exists_mem_distincts henv
    exact ⟨env', henv'⟩

/-- A query for constants has the rows of the query for columns, or is left with one of them. -/
lemma available_of_constant (db : Database V) (hserver : server.GroupsFirst whole)
    (h : q.SameGroups q') (hdistinct : q.distinct = q'.distinct)
    (hitems : ∀ item ∈ q'.items, item.reads = []) :
    (q'.distinct = false → q'.available server whole db = q.available server whole db) ∧
      (q'.distinct = true →
        q'.available server whole db = min 1 (q.available server whole db)) := by
  rw [available, available, ← h.isWhole, ← hserver.keeps_congr h, ← h.selected,
    ← hserver.group_congr h]
  cases hwhole : q.isWhole with
  | true =>
    refine ⟨fun _ => rfl, fun _ => ?_⟩
    cases whole.keeps q db <;> rfl
  | false =>
    refine ⟨fun hplain => ?_, fun hunique => ?_⟩
    · simp only [distincts, hdistinct, hplain]
      rfl
    · have hpos : 0 < (q.distincts db (server.group q db (q.selected db))).length ↔
          0 < (server.group q db (q.selected db)).length := length_distincts_pos
      rw [if_neg Bool.false_ne_true, if_neg Bool.false_ne_true,
        length_distincts_of_constant hunique hitems]
      omega

end SqlSelect

/-! ### The statements of the queries -/

namespace Select

variable [DecidableEq V] {server : Server V} {whole : WholeGroup V} {E : Entity} {cap : ℕ}
  {self : Select V} {db : Database V} {q : SqlSelect V} {n : ℕ}

/-- The statement, when nothing speaks against it. -/
def rendered (E : Entity) (self : Select V) (shape : Shape V) : SqlSelect V where
  source := E.table
  items := shape.projection E
  distinct := self.distinct
  joins := self.joins
  filters := self.conditions E
  groupBy := self.groupBy
  having := self.having
  order := self.order.map pinNullOrder
  limit := self.limit
  offset := self.offset

/-- The query whose existence is asked. -/
def probe (self : Select V) : Select V :=
  { self with order := [], limit := some (self.limit.elim 1 (min · 1)) }

/-- Nothing speaks against the query. -/
def Passes (E : Entity) (self : Select V) : Prop :=
  self.checkScope E = .ok () ∧ self.checkTenant E = .ok ()

lemma build_eq_ok {shape : Shape V} :
    self.build E shape = .ok q ↔ self.Passes E ∧ q = self.rendered E shape := by
  rw [build, Fallible.bind_eq_ok]
  constructor
  · rintro ⟨⟨⟩, hscope, h⟩
    obtain ⟨⟨⟩, htenant, h⟩ := Fallible.bind_eq_ok.mp h
    exact ⟨⟨hscope, htenant⟩, (Except.ok.inj h).symm⟩
  · rintro ⟨⟨hscope, htenant⟩, rfl⟩
    exact ⟨(), hscope, Fallible.bind_eq_ok.mpr ⟨(), htenant, rfl⟩⟩

omit [DecidableEq V] in
lemma applyRowCap_eq (cap : ℕ) (self : Select V) :
    ∃ limit, self.applyRowCap cap = { self with limit } ∧
      (limit = some 0 ↔ self.limit = some 0) := by
  rw [applyRowCap]
  split
  · exact ⟨self.limit, rfl, Iff.rfl⟩
  · next h =>
    simp only [Bool.or_eq_true, decide_eq_true_eq, not_or, Option.not_isSome_iff_eq_none] at h
    obtain ⟨⟨hlimit, -⟩, hcap⟩ := h
    exact ⟨some cap, rfl, by simp [hlimit, hcap]⟩

/-- `count` answers when the query for the rows does. -/
lemma count_eq (hserver : server.GroupsFirst whole) (hq : self.unpaged.toStatement E = .ok q)
    (hn : q.size server whole db = some n) :
    ∃ m, self.count server whole E db = .ok (some m) ∧
      m = if self.groupBy = [] ∧ self.distinct = false then
          if q.isWhole && !whole.keeps q db then 0 else (q.selected db).length
        else (self.rendered E .entity).windowSize n := by
  obtain ⟨hpasses, rfl⟩ := build_eq_ok.1 hq
  obtain ⟨hnames, hreturns, rfl⟩ := SqlSelect.size_eq_some.mp hn
  have hplain : (self.groupBy.isEmpty && !self.distinct) = true ↔
      self.groupBy = [] ∧ self.distinct = false := by
    rw [Bool.and_eq_true, List.isEmpty_iff, Bool.not_eq_true']
  by_cases h : self.groupBy = [] ∧ self.distinct = false
  · -- the items play no part in what is counted
    have hcount : self.toCountStatement E = .ok (self.unpaged.rendered E (.items [])) := by
      rw [toCountStatement, if_pos (hplain.mpr h)]
      exact build_eq_ok.2 ⟨hpasses, rfl⟩
    have hsame : (self.unpaged.rendered E .entity).SameGroups
        (self.unpaged.rendered E (.items [])) := ⟨rfl, rfl, rfl, rfl, rfl⟩
    refine ⟨_, ?_, (if_pos h).symm⟩
    rw [count, hcount]
    refine congrArg Except.ok ?_
    rw [if_pos (hplain.mpr h), SqlSelect.tally, ← hsame.names, if_pos hnames, ← hsame.isWhole,
      ← hsame.selected, hserver.keeps_congr hsame]
  · have hcount : self.toCountStatement E =
        .ok ({ self with order := [] }.rendered E .entity) := by
      rw [toCountStatement, if_neg (hplain.not.mpr h)]
      exact build_eq_ok.2 ⟨hpasses, rfl⟩
    have hsame : (self.unpaged.rendered E .entity).SameGroups
        ({ self with order := [] }.rendered E .entity) := ⟨rfl, rfl, rfl, rfl, rfl⟩
    refine ⟨_, ?_, (if_neg h).symm⟩
    rw [count, hcount]
    refine congrArg Except.ok ?_
    rw [if_neg (hplain.not.mpr h)]
    refine SqlSelect.size_eq_some.mpr ⟨hnames, fun hwhole => ?_, ?_⟩
    · exact (hserver.refuses_paged _ self.limit self.offset).trans (hreturns hwhole)
    · rw [SqlSelect.available_congr hserver hsame rfl rfl]
      rfl

/-- A plain count is off only where `HAVING` makes one row of many. -/
lemma tally_eq_iff (hgroup : self.groupBy = []) (hdistinct : self.distinct = false) :
    (if (self.unpaged.rendered E .entity).isWhole &&
          !whole.keeps (self.unpaged.rendered E .entity) db then 0
        else ((self.unpaged.rendered E .entity).selected db).length) =
      (self.unpaged.rendered E .entity).windowSize
        ((self.unpaged.rendered E .entity).available server whole db) ↔
      self.having = [] ∨ (self.unpaged.rendered E .entity).windowSize
          ((self.unpaged.rendered E .entity).available server whole db) = 0 ∨
        ((self.unpaged.rendered E .entity).selected db).length = 1 := by
  have hall : ∀ n, (self.unpaged.rendered E .entity).windowSize n = n := fun n => Nat.sub_zero n
  rw [hall, SqlSelect.available]
  by_cases hhaving : self.having = []
  · have hwhole : (self.unpaged.rendered E .entity).isWhole = false := by
      simp [SqlSelect.isWhole, rendered, unpaged, hhaving]
    rw [hwhole, if_neg Bool.false_ne_true, if_neg (by simp), SqlSelect.distincts,
      if_neg (by simp [rendered, unpaged, hdistinct]), server.group_of_nil _ _ _ hgroup hhaving]
    simp [hhaving]
  · have hwhole : (self.unpaged.rendered E .entity).isWhole = true := by
      simp [SqlSelect.isWhole, rendered, unpaged, hhaving, hgroup]
    rw [hwhole, if_pos rfl]
    cases whole.keeps (self.unpaged.rendered E .entity) db with
    | true => simp [hhaving]
    | false => simp

/-- Of one row that stands for all of them an offset leaves nothing. -/
lemma probe_iff {distinct : Bool} {limit : Option ℕ} {offset m : ℕ}
    (hm : m ≠ 0 ↔ limit ≠ some 0 ∧ offset < n) :
    ((limit ≠ some 0 ∧ offset < if distinct then min 1 n else n) ↔ m ≠ 0) ↔
      distinct = false ∨ offset = 0 ∨ m = 0 := by
  cases distinct with
  | false => simp [hm]
  | true =>
    rw [if_pos rfl, ← not_ne_iff (a := m), hm]
    by_cases hlimit : limit = some 0
    · simp [hlimit]
    · simp only [ne_eq, hlimit, not_false_eq_true, true_and, Bool.true_eq_false, false_or]
      omega

/-- `exists` answers when the query for the rows does. -/
lemma exists_eq (hserver : server.GroupsFirst whole)
    (hq : self.statement E cap .rows = .ok q) (hn : q.size server whole db = some n) :
    ∃ found, self.exists server whole E db = .ok (some found) ∧
      (found = true ↔ self.limit ≠ some 0 ∧ self.offset.getD 0 <
        if self.distinct then min 1 (q.available server whole db)
        else q.available server whole db) := by
  obtain ⟨limit, hcap, -⟩ := applyRowCap_eq cap self
  rw [statement, hcap] at hq
  obtain ⟨hpasses, rfl⟩ := build_eq_ok.1 hq
  obtain ⟨hnames, hreturns, rfl⟩ := SqlSelect.size_eq_some.mp hn
  have hexists : self.toExistsStatement E =
      .ok (self.probe.rendered E (.expr (Expr.bound none))) :=
    build_eq_ok.2 ⟨hpasses, rfl⟩
  have hsame : ({ self with limit }.rendered E .entity).SameGroups
      (self.probe.rendered E (.expr (Expr.bound none))) := ⟨rfl, rfl, rfl, rfl, rfl⟩
  have hconstant : ∀ item ∈ (Shape.expr (V := V) (Expr.bound none)).projection E,
      item.reads = [] := by
    intro item hitem
    rw [List.mem_singleton.mp hitem]
    rfl
  have hsize : (self.probe.rendered E (.expr (Expr.bound none))).size server whole db = some _ :=
    SqlSelect.size_eq_some.mpr ⟨hnames,
      fun hwhole => hserver.returns_constants hsame (hreturns hwhole) hconstant, rfl⟩
  obtain ⟨hfull, hone⟩ := SqlSelect.available_of_constant db hserver hsame rfl hconstant
  refine ⟨decide (0 < (self.probe.rendered E (.expr (Expr.bound none))).windowSize
    ((self.probe.rendered E (.expr (Expr.bound none))).available server whole db)), ?_, ?_⟩
  · rw [Select.exists, hexists]
    refine congrArg Except.ok ?_
    rw [hsize]
    rfl
  · have hlimit : some (self.limit.elim 1 (min · 1)) ≠ some 0 ↔ self.limit ≠ some 0 := by
      cases self.limit with
      | none => simp
      | some limit => simp [Nat.min_eq_zero_iff]
    rw [decide_eq_true_eq, SqlSelect.windowSize_pos]
    refine and_congr hlimit ?_
    by_cases hdistinct : self.distinct = true
    · rw [hone hdistinct, if_pos hdistinct]
      rfl
    · rw [hfull (Bool.eq_false_iff.mpr hdistinct), if_neg hdistinct]
      rfl

end Select

/-! ### Agreement -/

/-- Under `DISTINCT` or `GROUP BY` the subquery that is counted keeps its limit and offset, and
under `DISTINCT` an offset skips the only row of the subquery whose existence is asked. -/
theorem Select.count_exists_iff [DecidableEq V] {server : Server V} {whole : WholeGroup V}
    (hserver : server.GroupsFirst whole) (E : Entity) (cap : ℕ) (self : Select V)
    (db : Database V) :
    (∀ q n, self.unpaged.toStatement E = .ok q → q.size server whole db = some n →
      ∃ m, self.count server whole E db = .ok (some m) ∧
        (m = n ↔ if self.groupBy = [] ∧ self.distinct = false then
            self.having = [] ∨ n = 0 ∨ (q.selected db).length = 1
          else n = 0 ∨ self.offset.getD 0 = 0 ∧ ∀ limit ∈ self.limit, n ≤ limit)) ∧
    ∀ q n, self.statement E cap .rows = .ok q → q.size server whole db = some n →
      ∃ found, self.exists server whole E db = .ok (some found) ∧
        ((found = true ↔ n ≠ 0) ↔ self.distinct = false ∨ self.offset.getD 0 = 0 ∨ n = 0) := by
  constructor
  · intro q n hq hn
    obtain ⟨m, hm, hvalue⟩ := Select.count_eq hserver hq hn
    refine ⟨m, hm, ?_⟩
    obtain ⟨-, rfl⟩ := Select.build_eq_ok.mp hq
    by_cases h : self.groupBy = [] ∧ self.distinct = false
    · rw [if_pos h] at hvalue
      rw [if_pos h, hvalue]
      obtain ⟨-, -, rfl⟩ := SqlSelect.size_eq_some.mp hn
      exact Select.tally_eq_iff h.1 h.2
    · rw [if_neg h] at hvalue
      rw [if_neg h, hvalue, SqlSelect.windowSize_eq_self]
      rfl
  · intro q n hq hn
    obtain ⟨found, hfound, hvalue⟩ := Select.exists_eq hserver hq hn
    refine ⟨found, hfound, ?_⟩
    obtain ⟨limit, hcap, hzero⟩ := Select.applyRowCap_eq cap self
    rw [Select.statement, hcap] at hq
    obtain ⟨-, rfl⟩ := Select.build_eq_ok.mp hq
    obtain ⟨-, -, rfl⟩ := SqlSelect.size_eq_some.mp hn
    have hrows : (Select.rendered E { self with limit } .entity).windowSize
          ((Select.rendered E { self with limit } .entity).available server whole db) ≠ 0 ↔
        self.limit ≠ some 0 ∧ self.offset.getD 0 <
          (Select.rendered E { self with limit } .entity).available server whole db := by
      rw [← Nat.pos_iff_ne_zero, SqlSelect.windowSize_pos]
      exact and_congr_left' hzero.not
    rw [hvalue]
    exact Select.probe_iff hrows

/-! ### Two tags -/

namespace Select

/-- An entity with one column. -/
def tags : Entity where
  name := "Tag"
  table := "tags"
  columns := [⟨"name", .i64, true, false⟩]

/-- Two rows, and nothing else. -/
def twoTags : Database ℕ := fun table =>
  if table = "tags" then [fun _ => some 1, fun _ => some 2] else []

/-- A server that leaves rows as they come and accepts no `HAVING` without `GROUP BY`. -/
def strict : Server ℕ :=
  Server.stable .postgres (fun _ _ => false)
    ⟨fun h => absurd h Bool.false_ne_true, fun h => absurd h Bool.false_ne_true⟩ some
    (fun _ _ => none) fun _ => true

def refusing : WholeGroup ℕ := ⟨fun _ => true, fun _ _ => true⟩

lemma groupsFirst_strict : strict.GroupsFirst refusing where
  group_congr _ _ _ := rfl
  keeps_congr _ _ := rfl
  refuses_paged _ _ _ := rfl
  returns_constants _ h := absurd h Bool.noConfusion

theorem count_exists_iff_tags :
    (∃ m, ({ offset := some 1 } : Select ℕ).count strict refusing tags twoTags = .ok (some m) ∧
      (m = 2 ↔ True)) ∧
    ∃ found, ({ offset := some 1 } : Select ℕ).exists strict refusing tags twoTags =
        .ok (some found) ∧ ((found = true ↔ 1 ≠ 0) ↔ True) := by
  obtain ⟨hcount, hexists⟩ :=
    count_exists_iff groupsFirst_strict tags 0 ({ offset := some 1 } : Select ℕ) twoTags
  obtain ⟨m, hm, hagree⟩ := hcount _ 2 rfl rfl
  obtain ⟨found, hfound, hfinds⟩ := hexists _ 1 rfl rfl
  exact ⟨⟨m, hm, by simpa using hagree⟩, found, hfound, by simpa using hfinds⟩

/-- Of two distinct rows one is asked for and counted, and the second alone is not found. -/
theorem count_exists_ne_rows :
    (¬∀ (self : Select ℕ) (q : SqlSelect ℕ) (n : ℕ),
      self.unpaged.toStatement tags = .ok q → q.size strict refusing twoTags = some n →
        self.count strict refusing tags twoTags = .ok (some n)) ∧
    ¬∀ (self : Select ℕ) (q : SqlSelect ℕ) (n : ℕ),
      self.statement tags 0 .rows = .ok q → q.size strict refusing twoTags = some n →
        self.exists strict refusing tags twoTags = .ok (some (decide (n ≠ 0))) := by
  constructor
  · intro h
    have hcount := h { distinct := true, limit := some 1 } _ 2 rfl rfl
    have hone : ({ distinct := true, limit := some 1 } : Select ℕ).count strict refusing tags
        twoTags = .ok (some 1) := rfl
    rw [hone] at hcount
    exact absurd (Option.some.inj (Except.ok.inj hcount)) (by decide)
  · intro h
    have hexists := h { distinct := true, offset := some 1 } _ 1 rfl rfl
    have hnone : ({ distinct := true, offset := some 1 } : Select ℕ).exists strict refusing tags
        twoTags = .ok (some false) := rfl
    rw [hnone] at hexists
    exact absurd (Option.some.inj (Except.ok.inj hexists)) (by decide)

end Select

end Moso.Orm
