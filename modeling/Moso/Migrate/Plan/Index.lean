import Moso.Foundation.Fallible
import Moso.Migrate.Plan.Table
import Moso.Migrate.Schema.Spelling

/-!
# The index that a database ends up with

What the statements that are planned leave in the catalogue of a server. An index that is created
with its table and one that is added later mean the same, unless the table's `UNIQUE` constraint
leaves out what the index has.
-/

namespace Moso.Migrate

open Sql (CreateIndex CreateTable Ddl Ident IndexMethod IndexTarget RawExpr TableConstraint
  TableRef TargetExpr)

/-- An index as the catalogue has it. -/
structure CatalogIndex where
  name : Ident
  table : TableRef
  unique : Bool
  targets : List IndexTarget
  nullsNotDistinct : Bool
  include_ : List Ident
  predicate : Option RawExpr
  method : Option IndexMethod
  /-- Whether a constraint owns it. -/
  constraint : Bool

/-- What counts: whether it is unique and whether nulls are equal in it, its keys, the columns that
it includes, and the rows that it is about. -/
structure IndexMeaning where
  unique : Bool
  keys : List TargetExpr
  nullsNotDistinct : Bool
  include_ : List Ident
  predicate : Option RawExpr
  deriving DecidableEq

def CatalogIndex.meaning (index : CatalogIndex) : IndexMeaning where
  unique := index.unique
  keys := index.targets.map (·.expr)
  nullsNotDistinct := index.nullsNotDistinct
  include_ := index.include_
  predicate := index.predicate

namespace Catalog

/-- The index behind a unique constraint. -/
def ofConstraint (table : TableRef) : TableConstraint → Option CatalogIndex
  | .unique (some name) columns nullsNotDistinct => some {
      name
      table
      unique := true
      targets := columns.map fun column => { expr := .column column }
      nullsNotDistinct
      include_ := []
      predicate := none
      method := none
      constraint := true }
  | _ => none

def ofCreateIndex (create : CreateIndex) : CatalogIndex where
  name := create.name
  table := create.table
  unique := create.unique
  targets := create.targets
  nullsNotDistinct := create.nullsNotDistinct
  include_ := create.include_
  predicate := create.predicate
  method := create.method
  constraint := false

/-- What a statement does to the indexes, but for those of primary keys. -/
def execute (catalog : List CatalogIndex) : Ddl → List CatalogIndex
  | .createTable create => catalog ++ create.constraints.filterMap (ofConstraint create.table)
  | .createIndex create => catalog ++ [ofCreateIndex create]
  | .addUniqueUsingIndex table _ name => catalog.map fun index =>
      if index.table = table ∧ index.name = name then { index with constraint := true } else index
  | .comment .. => catalog

def run (statements : List Ddl) (catalog : List CatalogIndex) : List CatalogIndex :=
  statements.foldl execute catalog

/-- The meaning of the index of this name, if there is one. -/
def lookup (catalog : List CatalogIndex) (name : List Char) : Option IndexMeaning :=
  (catalog.find? fun index => index.name.chars = name).map CatalogIndex.meaning

end Catalog

/-! ### Looking up -/

section
variable {α β γ : Type} {related : α → β → Prop} {key : α → List Char} {name : γ → List Char}
  {g : β → Option γ} {as : List α} {bs : List β}

lemma find?_eq_none_of_forall₂ (h : List.Forall₂ related as bs)
    (hname : ∀ a b c, related a b → g b = some c → name c = key a) {n : List Char}
    (hn : ∀ a ∈ as, key a ≠ n) : (bs.filterMap g).find? (fun c => name c = n) = none := by
  induction h with
  | nil => rfl
  | @cons a b as bs hab h ih =>
    have hrest := ih fun a ha => hn a (List.mem_cons_of_mem _ ha)
    rw [List.filterMap_cons]
    cases hb : g b with
    | none => exact hrest
    | some c =>
      have hne : name c ≠ n := hname a b c hab hb ▸ hn a List.mem_cons_self
      dsimp only
      rw [List.find?_cons_of_neg (by simpa using hne), hrest]

/-- Among things with distinct names, a thing's own one is found. -/
lemma find?_of_forall₂ (h : List.Forall₂ related as bs)
    (hname : ∀ a b c, related a b → g b = some c → name c = key a) (hkeys : (as.map key).Nodup)
    {a : α} (ha : a ∈ as) :
    ∃ b, related a b ∧ (bs.filterMap g).find? (fun c => name c = key a) = g b := by
  induction h with
  | nil => cases ha
  | @cons a' b as bs hab h ih =>
    obtain ⟨hnotMem, hkeys⟩ := List.nodup_cons.mp hkeys
    rw [List.filterMap_cons]
    rcases List.mem_cons.mp ha with rfl | ha
    · refine ⟨b, hab, ?_⟩
      cases hb : g b with
      | none =>
        refine find?_eq_none_of_forall₂ h hname fun a' ha' heq => ?_
        exact hnotMem (heq ▸ List.mem_map_of_mem ha')
      | some c => exact List.find?_cons_of_pos (by simpa using hname _ _ _ hab hb)
    · obtain ⟨b', hab', hfind⟩ := ih hkeys ha
      refine ⟨b', hab', ?_⟩
      cases hb : g b with
      | none => exact hfind
      | some c =>
        have hne : name c ≠ key a := by
          rw [hname _ _ _ hab hb]
          exact fun heq => hnotMem (heq ▸ List.mem_map_of_mem ha)
        dsimp only
        rw [List.find?_cons_of_neg (by simpa using hne), hfind]

end

/-! ### What the planner writes -/

section
variable {name : List Char} {id : Ident} {table : List Char} {index : Index} {backend : Backend}
  {create : CreateIndex} {concurrent : Bool}

lemma chars_of_ident (h : ident name = .ok id) : id.chars = name := by
  unfold ident mkIdent at h
  cases hname : Ident.mk' name with
  | ok other =>
    rw [hname] at h
    obtain rfl := Except.ok.inj h
    exact Ident.chars_of_mk' hname
  | error e =>
    rw [hname] at h
    cases h

/-- What a planned `CREATE INDEX` has. -/
lemma createIndexDdl_eq_ok (h : createIndexDdl table index backend concurrent = .ok create) :
    index.columns.mapM indexTarget = .ok create.targets ∧ create.name.chars = index.name ∧
      createIndexIncluded index backend = .ok create.include_ ∧
      create.unique = index.unique ∧ create.predicate = index.predicate.map raw ∧
      create.nullsNotDistinct = (index.nullsNotDistinct && backend = .postgres) := by
  obtain ⟨targets, htargets, h⟩ := Fallible.bind_eq_ok.mp h
  obtain ⟨id, hid, h⟩ := Fallible.bind_eq_ok.mp h
  obtain ⟨reference, -, h⟩ := Fallible.bind_eq_ok.mp h
  obtain ⟨method, -, h⟩ := Fallible.bind_eq_ok.mp h
  obtain ⟨included, hincluded, h⟩ := Fallible.bind_eq_ok.mp h
  obtain rfl := Except.ok.inj h
  exact ⟨htargets, chars_of_ident hid, hincluded, rfl, rfl, rfl⟩

/-- Of the constraints of a planned table, the unique ones carry indexes. -/
lemma createTableDdl_eq_ok {table : Table} {create : CreateTable}
    (h : createTableDdl table backend = .ok create) :
    ∃ uniques, uniqueConstraints table backend = .ok uniques ∧
      create.constraints.filterMap (Catalog.ofConstraint create.table) =
        uniques.filterMap fun unique => unique.bind (Catalog.ofConstraint create.table) := by
  obtain ⟨reference, -, h⟩ := Fallible.bind_eq_ok.mp h
  obtain ⟨columns, -, h⟩ := Fallible.bind_eq_ok.mp h
  obtain ⟨primaryKey, hprimaryKey, h⟩ := Fallible.bind_eq_ok.mp h
  obtain ⟨uniques, huniques, h⟩ := Fallible.bind_eq_ok.mp h
  obtain ⟨checks, hchecks, h⟩ := Fallible.bind_eq_ok.mp h
  obtain ⟨foreignKeys, -, h⟩ := Fallible.bind_eq_ok.mp h
  obtain ⟨partitionBy, -, h⟩ := Fallible.bind_eq_ok.mp h
  obtain rfl := Except.ok.inj h
  refine ⟨uniques, huniques, ?_⟩
  have hkey : primaryKey.toList.filterMap (Catalog.ofConstraint reference) = [] := by
    unfold primaryKeyConstraint at hprimaryKey
    split_ifs at hprimaryKey
    · obtain ⟨name, -, hprimaryKey⟩ := Fallible.bind_eq_ok.mp hprimaryKey
      obtain ⟨columns, -, hprimaryKey⟩ := Fallible.bind_eq_ok.mp hprimaryKey
      obtain rfl := Except.ok.inj hprimaryKey
      rfl
    · obtain rfl := Except.ok.inj hprimaryKey
      rfl
  have hcheck : checks.filterMap (Catalog.ofConstraint reference) = [] := by
    refine List.filterMap_eq_nil_iff.mpr fun constraint hconstraint => ?_
    obtain ⟨check, -, hcheck⟩ := Fallible.exists_of_mem_mapM hchecks hconstraint
    obtain ⟨name, -, hcheck⟩ := Fallible.bind_eq_ok.mp hcheck
    obtain rfl := Except.ok.inj hcheck
    rfl
  have hforeign : (foreignKeys.map TableConstraint.foreignKey).filterMap
      (Catalog.ofConstraint reference) = [] := by
    refine List.filterMap_eq_nil_iff.mpr fun constraint hconstraint => ?_
    obtain ⟨key, -, rfl⟩ := List.mem_map.mp hconstraint
    rfl
  have hreduce : ∀ constraints : List (Option TableConstraint),
      constraints.reduceOption = constraints.filterMap id := fun _ => rfl
  simp only [List.filterMap_append, hkey, hcheck, hforeign, List.nil_append, List.append_nil,
    hreduce, List.filterMap_filterMap, id_eq]

lemma isSome_columnName (part : IndexPart) : part.columnName.isSome = part.column := by
  unfold IndexPart.columnName
  cases part.column <;> rfl

/-- The constraint that carries an index, if the index is inlined. -/
lemma uniqueConstraint_eq_ok {unique : Option TableConstraint}
    (h : uniqueConstraint index = .ok unique) :
    if inlinedAsAConstraint index .postgres = true then ∃ name columns,
      unique = some (.unique (some name) columns false) ∧ name.chars = index.name ∧
        idents (index.columns.filterMap IndexPart.columnName) = .ok columns
    else unique = none := by
  have hlength : (index.columns.filterMap IndexPart.columnName).length = index.columns.length ↔
      index.columns.all (·.column) = true := by
    rw [List.filterMap_length_eq_length, List.all_eq_true]
    simp only [isSome_columnName]
  have hinlined : inlinedAsAConstraint index .postgres =
      (index.constraint && index.unique && index.predicate.isNone &&
        index.columns.all (·.column)) := by simp [inlinedAsAConstraint]
  unfold uniqueConstraint at h
  rw [hinlined]
  by_cases hflags : (index.constraint && index.unique && index.predicate.isNone) = true
  · rw [hflags] at h
    by_cases hall : index.columns.all (·.column) = true
    · rw [if_pos (hlength.mpr hall)] at h
      obtain ⟨name, hname, h⟩ := Fallible.bind_eq_ok.mp h
      obtain ⟨columns, hcolumns, h⟩ := Fallible.bind_eq_ok.mp h
      rw [hflags, hall, Bool.and_self, if_pos rfl]
      exact ⟨name, columns, (Except.ok.inj h).symm, chars_of_ident hname, hcolumns⟩
    · rw [if_neg fun heq => hall (hlength.mp heq)] at h
      rw [Bool.eq_false_iff.mpr hall, Bool.and_false, if_neg Bool.false_ne_true]
      exact (Except.ok.inj h).symm
  · rw [Bool.eq_false_iff.mpr hflags] at h
    rw [Bool.eq_false_iff.mpr hflags, Bool.false_and, if_neg Bool.false_ne_true]
    exact (Except.ok.inj h).symm

/-- The key of a target is the expression of its part. -/
lemma expr_of_indexTarget {part : IndexPart} {target : IndexTarget}
    (h : indexTarget part = .ok target) : targetExpr part = .ok target.expr := by
  obtain ⟨expr, hexpr, h⟩ := Fallible.bind_eq_ok.mp h
  obtain ⟨operatorClass, -, h⟩ := Fallible.bind_eq_ok.mp h
  obtain ⟨collation, -, h⟩ := Fallible.bind_eq_ok.mp h
  obtain rfl := Except.ok.inj h
  exact hexpr

/-- The keys of an index over columns only are these. -/
lemma keys_of_columns {parts : List IndexPart} {targets : List IndexTarget} {columns : List Ident}
    (hall : ∀ part ∈ parts, part.column = true) (htargets : parts.mapM indexTarget = .ok targets)
    (hcolumns : idents (parts.filterMap IndexPart.columnName) = .ok columns) :
    targets.map (·.expr) = columns.map .column := by
  have hrelated := Fallible.forall₂_of_mapM htargets
  clear htargets
  induction hrelated generalizing columns with
  | nil =>
    obtain rfl := Except.ok.inj hcolumns
    rfl
  | @cons part target parts targets htarget _ ih =>
    have hname : part.columnName = some part.expr := by
      rw [IndexPart.columnName, if_pos (hall part List.mem_cons_self)]
    have hexpr := expr_of_indexTarget htarget
    rw [targetExpr, hname] at hexpr
    obtain ⟨name, hident, heq⟩ := Fallible.map_eq_ok.mp hexpr
    rw [List.filterMap_cons, hname, idents, List.mapM_cons] at hcolumns
    obtain ⟨name', hname', hcolumns⟩ := Fallible.bind_eq_ok.mp hcolumns
    obtain ⟨rest, hrest, h⟩ := Fallible.bind_eq_ok.mp hcolumns
    obtain rfl := Except.ok.inj h
    obtain rfl := Except.ok.inj (hident.symm.trans hname')
    rw [List.map_cons, List.map_cons, ← heq,
      ih (fun part hpart => hall part (List.mem_cons_of_mem _ hpart)) hrest]

end

/-! ### Two ways to create an index -/

section
variable {table : Table} {index : Index} {backend : Backend} {creating adding : List Ddl}
  {catalog : List CatalogIndex}

lemma run_createIndexes (creates : List CreateIndex) (catalog : List CatalogIndex) :
    Catalog.run (creates.map .createIndex) catalog =
      catalog ++ creates.map Catalog.ofCreateIndex := by
  unfold Catalog.run
  induction creates generalizing catalog with
  | nil => simp
  | cons create creates ih =>
    rw [List.map_cons, List.foldl_cons, ih, Catalog.execute, List.append_assoc]
    rfl

lemma run_comments {comments : List Ddl}
    (h : ∀ ddl ∈ comments, ∃ table column comment, ddl = .comment table column comment)
    (catalog : List CatalogIndex) : Catalog.run comments catalog = catalog := by
  unfold Catalog.run
  induction comments with
  | nil => rfl
  | cons ddl comments ih =>
    obtain ⟨_, _, _, rfl⟩ := h ddl List.mem_cons_self
    exact ih fun ddl hddl => h ddl (List.mem_cons_of_mem _ hddl)

/-- What creating a table adds to the catalogue. -/
lemma run_planCreateTable (h : planCreateTable table backend = .ok creating)
    (catalog : List CatalogIndex) : ∃ create creates,
      createTableDdl table backend = .ok create ∧
      (table.indexes.filter fun index => !inlinedAsAConstraint index backend).mapM
        (fun index => createIndexDdl table.qualifiedName index backend false) = .ok creates ∧
      Catalog.run creating catalog = catalog ++
        create.constraints.filterMap (Catalog.ofConstraint create.table) ++
          creates.map Catalog.ofCreateIndex := by
  obtain ⟨create, hcreate, h⟩ := Fallible.bind_eq_ok.mp h
  obtain ⟨creates, hcreates, h⟩ := Fallible.bind_eq_ok.mp h
  obtain rfl := Except.ok.inj h
  refine ⟨create, creates, hcreate, hcreates, ?_⟩
  rw [Catalog.run, List.foldl_append, List.foldl_cons]
  refine (run_comments (fun ddl hddl => ?_) _).trans (run_createIndexes creates _)
  split_ifs at hddl
  · rcases List.mem_append.mp hddl with hddl | hddl
    · obtain ⟨comment, -, rfl⟩ := List.mem_map.mp hddl
      exact ⟨_, _, _, rfl⟩
    · obtain ⟨column, -, hddl⟩ := List.mem_flatMap.mp hddl
      obtain ⟨comment, -, rfl⟩ := List.mem_map.mp hddl
      exact ⟨_, _, _, rfl⟩
  · cases hddl

lemma find?_append_of_notMem {entries : List CatalogIndex}
    (h : ∀ entry ∈ catalog, entry.name.chars ≠ index.name) :
    (catalog ++ entries).find? (fun entry => entry.name.chars = index.name) =
      entries.find? fun entry => entry.name.chars = index.name := by
  have hnone : catalog.find? (fun entry => entry.name.chars = index.name) = none :=
    List.find?_eq_none.mpr fun entry hentry => by simpa using h entry hentry
  rw [List.find?_append, hnone]
  rfl

/-- An index that is added later means what its statement says. -/
lemma lookup_planCreateIndex {table : List Char} (h : planCreateIndex table index backend = .ok adding)
    (hcatalog : ∀ entry ∈ catalog, entry.name.chars ≠ index.name) : ∃ create,
      createIndexDdl table index backend true = .ok create ∧
      Catalog.lookup (Catalog.run adding catalog) index.name =
        some (Catalog.ofCreateIndex create).meaning := by
  obtain ⟨create, hcreate, h⟩ := Fallible.bind_eq_ok.mp h
  refine ⟨create, hcreate, ?_⟩
  have hname := (createIndexDdl_eq_ok hcreate).2.1
  have hlookup : Catalog.lookup (catalog ++ [Catalog.ofCreateIndex create]) index.name =
      some (Catalog.ofCreateIndex create).meaning := by
    have hfind : [Catalog.ofCreateIndex create].find? (fun entry => entry.name.chars = index.name) =
        some (Catalog.ofCreateIndex create) := List.find?_cons_of_pos (decide_eq_true hname)
    rw [Catalog.lookup, find?_append_of_notMem hcatalog, hfind]
    rfl
  split_ifs at h
  · obtain ⟨reference, -, h⟩ := Fallible.bind_eq_ok.mp h
    obtain ⟨name, -, h⟩ := Fallible.bind_eq_ok.mp h
    obtain rfl := Except.ok.inj h
    rw [← hlookup]
    -- a constraint that takes the index over leaves its meaning
    have hmark : ∀ entry : CatalogIndex,
        (if entry.table = reference ∧ entry.name = name then { entry with constraint := true }
          else entry).name = entry.name ∧
        (if entry.table = reference ∧ entry.name = name then { entry with constraint := true }
          else entry).meaning = entry.meaning := by
      intro entry
      split_ifs <;> exact ⟨rfl, rfl⟩
    change ((List.map _ (catalog ++ [Catalog.ofCreateIndex create])).find? _).map _ = _
    rw [List.find?_map, Option.map_map, Catalog.lookup]
    simp only [Function.comp_def, hmark]
  · obtain rfl := Except.ok.inj h
    exact hlookup

/-- Among the constraints of a table, an index has its own when it is inlined. -/
lemma find?_uniqueConstraints {uniques : List (Option TableConstraint)} (reference : TableRef)
    (h : uniqueConstraints table backend = .ok uniques) (hindex : index ∈ table.indexes) :
    ∃ entry, (uniques.filterMap fun unique => unique.bind (Catalog.ofConstraint reference)).find?
        (fun entry => entry.name.chars = index.name) = entry ∧
      if inlinedAsAConstraint index backend = true then ∃ name columns,
        idents (index.columns.filterMap IndexPart.columnName) = .ok columns ∧
          entry = Catalog.ofConstraint reference (.unique (some name) columns false)
      else entry = none := by
  refine ⟨_, rfl, ?_⟩
  unfold uniqueConstraints at h
  cases backend with
  | sqlite =>
    obtain rfl := Except.ok.inj h
    have hinlined : inlinedAsAConstraint index .sqlite = false := by simp [inlinedAsAConstraint]
    rw [hinlined, if_neg Bool.false_ne_true]
    rfl
  | postgres =>
    rw [if_pos rfl] at h
    have hname : ∀ (a : Index) b (c : CatalogIndex), uniqueConstraint a = .ok b →
        b.bind (Catalog.ofConstraint reference) = some c → c.name.chars = a.name := by
      intro a b c hab hc
      have hunique := uniqueConstraint_eq_ok hab
      split_ifs at hunique
      · obtain ⟨name, columns, rfl, hname, -⟩ := hunique
        obtain rfl := Option.some.inj hc
        exact hname
      · rw [hunique] at hc
        cases hc
    obtain ⟨unique, hunique, hfind⟩ :=
      find?_of_forall₂ (Fallible.forall₂_of_mapM h) hname table.indexes_nodup hindex
    rw [hfind]
    have hunique := uniqueConstraint_eq_ok hunique
    split_ifs at hunique ⊢
    · obtain ⟨name, columns, rfl, -, hcolumns⟩ := hunique
      exact ⟨name, columns, hcolumns, rfl⟩
    · rw [hunique]
      rfl

/-- An index that is not inlined is created with its table by a statement of its own. -/
lemma lookup_planCreateTable_of_not_inlined (h : planCreateTable table backend = .ok creating)
    (hindex : index ∈ table.indexes) (hinlined : inlinedAsAConstraint index backend = false)
    (hcatalog : ∀ entry ∈ catalog, entry.name.chars ≠ index.name) : ∃ create,
      createIndexDdl table.qualifiedName index backend false = .ok create ∧
      Catalog.lookup (Catalog.run creating catalog) index.name =
        some (Catalog.ofCreateIndex create).meaning := by
  obtain ⟨create, creates, hcreate, hcreates, hrun⟩ := run_planCreateTable h catalog
  obtain ⟨uniques, huniques, hconstraints⟩ := createTableDdl_eq_ok hcreate
  obtain ⟨entry, hentry, hnone⟩ := find?_uniqueConstraints create.table huniques hindex
  rw [hinlined, if_neg Bool.false_ne_true] at hnone
  have hname : ∀ (a : Index) b (c : CatalogIndex),
      createIndexDdl table.qualifiedName a backend false = .ok b →
      some (Catalog.ofCreateIndex b) = some c → c.name.chars = a.name := by
    intro a b c hab hc
    obtain rfl := Option.some.inj hc
    exact (createIndexDdl_eq_ok hab).2.1
  have hkeys : ((table.indexes.filter fun index => !inlinedAsAConstraint index backend).map
      Index.name).Nodup := table.indexes_nodup.sublist (List.filter_sublist.map _)
  have hmem : index ∈ table.indexes.filter fun index => !inlinedAsAConstraint index backend :=
    List.mem_filter.mpr ⟨hindex, by simp [hinlined]⟩
  obtain ⟨create', hcreate', hfind⟩ :=
    find?_of_forall₂ (Fallible.forall₂_of_mapM hcreates) hname hkeys hmem
  refine ⟨create', hcreate', ?_⟩
  rw [List.filterMap_eq_map'] at hfind
  rw [Catalog.lookup, hrun, List.append_assoc, find?_append_of_notMem hcatalog, hconstraints,
    List.find?_append, hentry, hnone, Option.none_or, hfind]
  rfl

/-- An inlined index is created with its table by a constraint. -/
lemma lookup_planCreateTable_of_inlined (h : planCreateTable table backend = .ok creating)
    (hindex : index ∈ table.indexes) (hinlined : inlinedAsAConstraint index backend = true)
    (hcatalog : ∀ entry ∈ catalog, entry.name.chars ≠ index.name) : ∃ columns,
      idents (index.columns.filterMap IndexPart.columnName) = .ok columns ∧
      Catalog.lookup (Catalog.run creating catalog) index.name =
        some ⟨true, columns.map .column, false, [], none⟩ := by
  obtain ⟨create, creates, hcreate, -, hrun⟩ := run_planCreateTable h catalog
  obtain ⟨uniques, huniques, hconstraints⟩ := createTableDdl_eq_ok hcreate
  obtain ⟨entry, hentry, hsome⟩ := find?_uniqueConstraints create.table huniques hindex
  rw [hinlined, if_pos rfl] at hsome
  obtain ⟨name, columns, hcolumns, rfl⟩ := hsome
  refine ⟨columns, hcolumns, ?_⟩
  rw [Catalog.lookup, hrun, List.append_assoc, find?_append_of_notMem hcatalog, hconstraints,
    List.find?_append, hentry]
  simp [Catalog.ofConstraint, CatalogIndex.meaning]

/-- Whether a table's `UNIQUE` constraint stands for the index and leaves out some of it: a
constraint owns it, it is unique and total and over columns only, and it includes columns or takes
nulls as equal. -/
def LosesOptions (index : Index) (backend : Backend) : Prop :=
  backend = .postgres ∧ index.constraint = true ∧ index.unique = true ∧ index.predicate = none ∧
    (∀ part ∈ index.columns, part.column = true) ∧
      (index.include_ ≠ [] ∨ index.nullsNotDistinct = true)

lemma inlinedAsAConstraint_iff : inlinedAsAConstraint index backend = true ↔
    backend = .postgres ∧ index.constraint = true ∧ index.unique = true ∧ index.predicate = none ∧
      ∀ part ∈ index.columns, part.column = true := by
  simp [inlinedAsAConstraint, and_assoc]

/-- What an index means does not depend on whether it is created at once or with others. -/
lemma meaning_of_createIndexDdl {table : List Char} {create create' : CreateIndex}
    (h : createIndexDdl table index backend false = .ok create)
    (h' : createIndexDdl table index backend true = .ok create') :
    (Catalog.ofCreateIndex create).meaning = (Catalog.ofCreateIndex create').meaning := by
  obtain ⟨htargets, -, hincluded, hunique, hpredicate, hnulls⟩ := createIndexDdl_eq_ok h
  obtain ⟨htargets', -, hincluded', hunique', hpredicate', hnulls'⟩ := createIndexDdl_eq_ok h'
  have htargets := Except.ok.inj (htargets.symm.trans htargets')
  have hincluded := Except.ok.inj (hincluded.symm.trans hincluded')
  simp [CatalogIndex.meaning, Catalog.ofCreateIndex, htargets, hincluded, hunique, hunique',
    hpredicate, hpredicate', hnulls, hnulls']

lemma createIndexIncluded_eq_nil_iff {included : List Ident}
    (h : createIndexIncluded index .postgres = .ok included) :
    included = [] ↔ index.include_ = [] := by
  unfold createIndexIncluded at h
  split_ifs at h with hinclude
  · have hlength := (Fallible.forall₂_of_mapM h).length_eq
    rw [← List.length_eq_zero_iff, ← hlength, List.length_eq_zero_iff]
  · obtain rfl := Except.ok.inj h
    exact iff_of_true rfl (not_not.mp fun hne => hinclude ⟨hne, rfl⟩)

/-- An index that was created with its table and one that was added to it mean the same exactly when
the constraint that may stand for it leaves out nothing. -/
theorem index_agrees_iff (hcreating : planCreateTable table backend = .ok creating)
    (hindex : index ∈ table.indexes)
    (hadding : planCreateIndex table.qualifiedName index backend = .ok adding)
    {fresh existing : List CatalogIndex} (hfresh : ∀ entry ∈ fresh, entry.name.chars ≠ index.name)
    (hexisting : ∀ entry ∈ existing, entry.name.chars ≠ index.name) :
    ∃ created added, Catalog.lookup (Catalog.run creating fresh) index.name = some created ∧
      Catalog.lookup (Catalog.run adding existing) index.name = some added ∧
      (created = added ↔ ¬LosesOptions index backend) := by
  obtain ⟨create, hcreate, hadded⟩ := lookup_planCreateIndex hadding hexisting
  cases hinlined : inlinedAsAConstraint index backend with
  | false =>
    obtain ⟨create', hcreate', hcreated⟩ :=
      lookup_planCreateTable_of_not_inlined hcreating hindex hinlined hfresh
    refine ⟨_, _, hcreated, hadded, iff_of_true (meaning_of_createIndexDdl hcreate' hcreate) ?_⟩
    rintro ⟨hbackend, hconstraint, hunique, hpredicate, hcolumns, -⟩
    rw [inlinedAsAConstraint_iff.mpr ⟨hbackend, hconstraint, hunique, hpredicate, hcolumns⟩]
      at hinlined
    cases hinlined
  | true =>
    obtain ⟨columns, hkeys, hcreated⟩ :=
      lookup_planCreateTable_of_inlined hcreating hindex hinlined hfresh
    obtain ⟨rfl, hconstraint, hunique, hpredicate, hcolumns⟩ := inlinedAsAConstraint_iff.mp hinlined
    obtain ⟨htargets, -, hincluded, hunique', hpredicate', hnulls⟩ := createIndexDdl_eq_ok hcreate
    refine ⟨_, _, hcreated, hadded, ?_⟩
    have hmeaning : (Catalog.ofCreateIndex create).meaning =
        ⟨true, columns.map .column, index.nullsNotDistinct, create.include_, none⟩ := by
      simp [CatalogIndex.meaning, Catalog.ofCreateIndex, hunique', hunique, hpredicate', hpredicate,
        hnulls, keys_of_columns hcolumns htargets hkeys]
    rw [hmeaning, IndexMeaning.mk.injEq]
    constructor
    · rintro ⟨-, -, hnulls, hinclude, -⟩ ⟨-, -, -, -, -, h | h⟩
      · exact h ((createIndexIncluded_eq_nil_iff hincluded).mp hinclude.symm)
      · rw [← hnulls] at h
        cases h
    · intro h
      refine ⟨rfl, rfl, ?_, ?_, rfl⟩
      · by_contra hne
        exact h ⟨rfl, hconstraint, hunique, hpredicate, hcolumns, .inr (by simpa using Ne.symm hne)⟩
      · refine ((createIndexIncluded_eq_nil_iff hincluded).mpr ?_).symm
        by_contra hne
        exact h ⟨rfl, hconstraint, hunique, hpredicate, hcolumns, .inl hne⟩

end

lemma columnSpec_text {name : List Char} {id : Ident} (h : ident name = .ok id) :
    columnSpec { name, dataType := "text".toList } =
      .ok { name := id, dataType := .text, nullable := false } := by
  have hparse : parse "text".toList = .ok .text := parse_of_trim_eq rfl (by decide)
  refine Fallible.bind_eq_ok.mpr ⟨id, h, Fallible.bind_eq_ok.mpr ⟨.text, ?_, rfl⟩⟩
  rw [hparse]
  rfl

/-- Users with an email address and an index of it. -/
def usersByEmail (nullsNotDistinct : Bool) : Table where
  name := "users".toList
  columns := [{ name := "email".toList, dataType := "text".toList }]
  indexes := [{
    name := "users_email_key".toList
    columns := [{ expr := "email".toList }]
    unique := true
    nullsNotDistinct
    constraint := true }]
  indexes_nodup := List.nodup_singleton _

lemma planCreateTable_usersByEmail (nullsNotDistinct : Bool) :
    planCreateTable (usersByEmail nullsNotDistinct) .postgres = .ok [.createTable {
      table := ⟨none, ⟨"users".toList, rfl⟩⟩
      columns := [{ name := ⟨"email".toList, rfl⟩, dataType := .text, nullable := false }]
      constraints := [.unique (some ⟨"users_email_key".toList, rfl⟩) [⟨"email".toList, rfl⟩] false] }] := by
  have hemail : ident "email".toList = .ok ⟨"email".toList, rfl⟩ := rfl
  have hspec := columnSpec_text hemail
  refine Fallible.bind_eq_ok.mpr ⟨_, Fallible.bind_eq_ok.mpr ⟨_, rfl, Fallible.bind_eq_ok.mpr
    ⟨[_], Fallible.bind_eq_ok.mpr ⟨_, Fallible.bind_eq_ok.mpr ⟨_, hspec, rfl⟩, rfl⟩, rfl⟩⟩, rfl⟩

/-- The unique index of an email address, which has no options. -/
theorem index_agrees_users : ∃ creating adding created added,
    planCreateTable (usersByEmail false) .postgres = .ok creating ∧
      planCreateIndex "users".toList ((usersByEmail false).indexes.head (by decide)) .postgres =
        .ok adding ∧
      Catalog.lookup (Catalog.run creating []) "users_email_key".toList = some created ∧
      Catalog.lookup (Catalog.run adding []) "users_email_key".toList = some added ∧
      created = added := by
  have hadding : ∃ adding, planCreateIndex "users".toList
      ((usersByEmail false).indexes.head (by decide)) .postgres = .ok adding := ⟨_, rfl⟩
  obtain ⟨adding, hadding⟩ := hadding
  obtain ⟨created, added, hcreated, hadded, hiff⟩ := index_agrees_iff
    (planCreateTable_usersByEmail false) (List.head_mem _) hadding
    (fun _ h => (List.not_mem_nil h).elim) (fun _ h => (List.not_mem_nil h).elim)
  refine ⟨_, adding, created, added, planCreateTable_usersByEmail false, hadding, hcreated, hadded,
    hiff.mpr ?_⟩
  rintro ⟨-, -, -, -, -, h | h⟩
  · exact h rfl
  · cases h

/-- An email address is not unique among nulls in a fresh database, and is in a migrated one. -/
theorem index_agrees_fails : ∃ creating adding,
    planCreateTable (usersByEmail true) .postgres = .ok creating ∧
      planCreateIndex "users".toList ((usersByEmail true).indexes.head (by decide)) .postgres =
        .ok adding ∧
      Catalog.lookup (Catalog.run creating []) "users_email_key".toList =
        some ⟨true, [.column ⟨"email".toList, rfl⟩], false, [], none⟩ ∧
      Catalog.lookup (Catalog.run adding []) "users_email_key".toList =
        some ⟨true, [.column ⟨"email".toList, rfl⟩], true, [], none⟩ :=
  ⟨_, _, planCreateTable_usersByEmail true, rfl, rfl, rfl⟩

end Moso.Migrate
