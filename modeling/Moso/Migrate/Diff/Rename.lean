import Moso.Migrate.Schema.Model

/-!
# Rename matching

A thing that is gone and one that is new may be one thing under two names. Somebody is asked about
each likely pair, and what is neither renamed nor kept is dropped or created. A failing answer
ends the comparison.
-/

namespace Moso.Migrate

attribute [local instance] Text.lawfulBEq

inductive RenameKind where
  | table
  | column
  | index
  deriving DecidableEq

structure RenameQuestion where
  kind : RenameKind
  table : Option (List Char)
  from_ : List Char
  to_ : List Char
  deriving DecidableEq

inductive RenameAnswer where
  | rename
  | dropAndAdd
  deriving DecidableEq

/-- Who answers. -/
abbrev Oracle (ε : Type) := RenameQuestion → Except ε RenameAnswer

/-- The changes of tables, columns and indexes as a whole. -/
inductive Change where
  | createTable (table : Table)
  | dropTable (table : Table)
  | renameTable (from_ to_ : List Char)
  | addColumn (table : List Char) (column : Column) (needsBackfill : Bool)
  | dropColumn (table : List Char) (column : Column)
  | renameColumn (table from_ to_ : List Char)
  | createIndex (table : List Char) (index : Index)
  | dropIndex (table : List Char) (index : Index)
  | renameIndex (table from_ to_ : List Char)
  deriving DecidableEq

/-! ### Matching -/

/-- The names claimed so far, the accepted pairs, and the pairs that were asked about. -/
structure Matching (α : Type) where
  claimedBefore : List (List Char) := []
  claimedAfter : List (List Char) := []
  renames : List (α × α) := []
  asked : List (α × α) := []

section
variable {α ε : Type} (name : α → List Char) (question : α → α → RenameQuestion)
  (oracle : Oracle ε) (likely : α → α → Bool)

/-- Asks whether what is gone became `new`. -/
def ask (gone : α) (s : Matching α) (new : α) : Except ε (Matching α) := do
  let answer ← oracle (question gone new)
  let asked := s.asked ++ [(gone, new)]
  if answer = .rename then
    return {
      claimedBefore := s.claimedBefore ++ [name gone]
      claimedAfter := s.claimedAfter ++ [name new]
      renames := s.renames ++ [(gone, new)]
      asked }
  else return { s with asked }

/-- Offers `new` unless it is claimed. -/
def offer (gone : α) (s : Matching α) (new : α) : Except ε (Matching α) :=
  if name new ∈ s.claimedAfter then return s
  else if likely gone new then ask name question oracle gone s new
  else return s

/-- Offers `new` unless one of both is claimed. -/
def offerFree (gone : α) (s : Matching α) (new : α) : Except ε (Matching α) :=
  if name new ∈ s.claimedAfter ∨ name gone ∈ s.claimedBefore then return s
  else if likely gone new then ask name question oracle gone s new
  else return s

/-- A pass that looks once, before all offers, whether what is gone is claimed. -/
def matchPass (removed added : List α) (s : Matching α) : Except ε (Matching α) :=
  removed.foldlM (fun s gone =>
    if name gone ∈ s.claimedBefore then return s
    else added.foldlM (offer name question oracle likely gone) s) s

/-- A pass that looks at each offer whether what is gone is claimed. -/
def matchFree (removed added : List α) : Except ε (Matching α) :=
  removed.foldlM (fun s gone => added.foldlM (offerFree name question oracle likely gone) s) {}

end

/-- What a comparison returns. -/
structure Outcome (α : Type) where
  changes : List Change
  matching : Matching α

section
variable {α : Type} (name : α → List Char)

def Matching.dropped (s : Matching α) (removed : List α) : List α :=
  removed.filter fun gone => name gone ∉ s.claimedBefore

def Matching.created (s : Matching α) (added : List α) : List α :=
  added.filter fun new => name new ∉ s.claimedAfter

end

/-! ### Tables -/

/-- The same entity, or at least half of the columns' names. -/
def looksLikeTheSameTable (before after : Table) : Bool :=
  if before.entity.isSome && before.entity = after.entity then true
  else
    let beforeColumns := before.columns.map Column.name
    let afterColumns := after.columns.map Column.name
    if beforeColumns = [] ∨ afterColumns = [] then false
    else
      let shared := (beforeColumns.filter fun name => name ∈ afterColumns).length
      max beforeColumns.length afterColumns.length ≤ shared * 2

variable {ε : Type} (oracle : Oracle ε)

def tableQuestion (gone new : Table) : RenameQuestion :=
  ⟨.table, none, gone.qualifiedName, new.name⟩

def removedTables (before after : Schema) : List Table :=
  before.tables.filter fun table => (after.table table.qualifiedName).isNone

def addedTables (before after : Schema) : List Table := removedTables after before

def diffTables (before after : Schema) : Except ε (Outcome Table) := do
  let removed := removedTables before after
  let added := addedTables before after
  let s ← matchFree Table.qualifiedName tableQuestion oracle looksLikeTheSameTable removed added
  return {
    changes := s.renames.map (fun (gone, new) => .renameTable gone.qualifiedName new.name) ++
      (s.dropped Table.qualifiedName removed).map .dropTable ++
      (s.created Table.qualifiedName added).map .createTable
    matching := s }

/-! ### Columns -/

variable (key : List Char)

def columnQuestion (gone new : Column) : RenameQuestion := ⟨.column, some key, gone.name, new.name⟩

def removedColumns (before after : Table) : List Column :=
  before.columns.filter fun column => (after.column column.name).isNone

def addedColumns (before after : Table) : List Column := removedColumns after before

def sameField (gone new : Column) : Bool := gone.field.isSome && gone.field = new.field

def diffColumns (before after : Table) : Except ε (Outcome Column) := do
  let removed := removedColumns before after
  let added := addedColumns before after
  -- everything but the name first, so that no weaker candidate takes a column that was renamed
  let strict ← matchPass Column.name (columnQuestion key) oracle Column.matchesIgnoringName
    removed added {}
  let s ← matchPass Column.name (columnQuestion key) oracle sameField removed added strict
  return {
    changes := s.renames.map (fun (gone, new) => .renameColumn key gone.name new.name) ++
      (s.dropped Column.name removed).map (.dropColumn key) ++
      (s.created Column.name added).map fun new => .addColumn key new new.needsAFillValue
    matching := s }

/-! ### Indexes -/

def indexQuestion (gone new : Index) : RenameQuestion := ⟨.index, some key, gone.name, new.name⟩

def removedIndexes (before after : Table) : List Index :=
  before.indexes.filter fun index => (after.index index.name).isNone

def addedIndexes (before after : Table) : List Index := removedIndexes after before

/-- An index that changed under its name is dropped and built again. -/
def rebuiltIndexes (before after : Table) : List Change :=
  after.indexes.flatMap fun wanted =>
    match before.index wanted.name with
    | some existing =>
      if existing.matchesIgnoringName wanted then []
      else [.dropIndex key existing, .createIndex key wanted]
    | none => []

def diffIndexes (before after : Table) : Except ε (Outcome Index) := do
  let removed := removedIndexes before after
  let added := addedIndexes before after
  let s ← matchFree Index.name (indexQuestion key) oracle Index.matchesIgnoringName removed added
  return {
    changes := s.renames.map (fun (gone, new) => .renameIndex key gone.name new.name) ++
      (s.dropped Index.name removed).map (.dropIndex key) ++
      (s.created Index.name added).map (.createIndex key) ++ rebuiltIndexes key before after
    matching := s }

end Moso.Migrate
