import Mathlib.Data.List.Dedup
import Moso.Foundation.Machine
import Moso.Foundation.Versions
import Moso.Orm.Write

/-!
# Rows with a version

Clients that read rows of one versioned entity and write them back expecting the version they read,
among any other writes to the entity. Ghosts log what each write did to the row under each key.
-/

namespace Moso.Orm

open Versions

/-- The primary key of a row. -/
abbrev Key (V : Type) := List (Option V)

def Entity.keyOf {V : Type} (E : Entity) (row : Row V) : Key V := E.primaryKeyColumns.map row

/-- A versioned entity and the server that has its table: the primary key is one, the version is
not null, and adding one gives a later version. -/
structure Versioned (V : Type) [LinearOrder V] where
  server : Server V
  E : Entity
  version : Ident
  maxBindParams : ℕ
  version_eq : E.version = some version
  key_unmanaged : ∀ c ∈ E.primaryKeyColumns,
    E.softDelete ≠ some c ∧ E.version ≠ some c ∧ E.updatedAt ≠ some c
  keys_nodup : ∀ db, server.admits db = true → ((db E.table).map E.keyOf).Nodup
  version_some : ∀ db, server.admits db = true → ∀ row ∈ db E.table, row version ≠ none
  lt_of_next : ∀ v w, server.next v = some w → v < w

variable {V : Type} [LinearOrder V]

/-- An update or a delete, and how it is run. -/
inductive Rewriting (V : Type) where
  | update (update : Update V) (running : Running)
  | delete (delete : Delete V) (running : Running)

inductive VersionCall (V : Type) where
  | read (client : ℕ) (key : Key V)
  /-- A write on the strength of the client's last read of the row. -/
  | save (client : ℕ) (key : Key V) (write : Rewriting V) (moment : Moment V)
  | rewrite (write : Rewriting V) (moment : Moment V)
  | insert (insert : Insert V) (moment : Moment V)

namespace Rewriting

def expecting (version : V) : Rewriting V → Rewriting V
  | update u running => .update { u with version := some version } running
  | delete d running => .delete { d with version := some version } running

def running : Rewriting V → Running
  | update _ running | delete _ running => running

def filters : Rewriting V → List (Condition V)
  | update u _ => u.filters.map Predicate.expr
  | delete d _ => d.filters.map Predicate.expr

/-- The columns that the caller assigns. -/
def assigned : Rewriting V → List Ident
  | update u _ => u.assignments.map (·.column)
  | delete .. => []

/-- There is something to write. -/
def writes : Rewriting V → Bool
  | update u _ => !u.assignments.isEmpty
  | delete .. => true

def statement (E : Entity) : Rewriting V → Except Error (WriteStatement V)
  | update u _ => (u.toStatement E).map .update
  | delete d _ => d.toStatement E

def run (server : Server V) (moment : Moment V) (E : Entity) (db : Database V) :
    Rewriting V → Database V × Except Error (List (Row V))
  | update u running => u.run server moment E running db
  | delete d running => d.run server moment E running db

end Rewriting

/-- The database, and what happened so far. -/
structure VersionRun (V : Type) where
  db : Database V
  log : Log (Key V) V
  /-- The keys of rows that a write left with a version they had before. -/
  reused : List (Key V)
  /-- The keys of rows that a client wrote, or was not told of, though they had been written since
  it read them. -/
  lost : List (Key V)

namespace VersionRun

variable (S : Versioned V)

/-- What a client sees of the row under a key. -/
def cells (db : Database V) (k : Key V) : Option (List (Option V)) :=
  (Rows.lookup S.E.keyOf k (db S.E.table)).map fun row =>
    row S.version :: S.E.columns.map fun column => row column.name

def versionAt (db : Database V) (k : Key V) : Option V :=
  (Rows.lookup S.E.keyOf k (db S.E.table)).bind (· S.version)

/-- The keys whose rows are not as they were. -/
def touched (db after : Database V) : List (Key V) :=
  ((db S.E.table ++ after S.E.table).map S.E.keyOf).dedup.filter fun k => cells S db k ≠ cells S after k

/-- After a write that left the database `after`. -/
def wrote (s : VersionRun V) (after : Database V) : VersionRun V where
  db := after
  log := s.log.write (touched S s.db after) (versionAt S after)
  reused := s.reused ++ (touched S s.db after).filter fun k =>
    (versionAt S after k).any fun v => (k, v) ∈ s.log.held
  lost := s.lost

/-- A stale write is refused as such, unless it is no statement that the server would run. -/
def refused (write : Rewriting V) (answer : Except Error (List (Row V))) : Bool :=
  match answer, write.statement S.E with
  | .ok _, _ => false
  | .error e, .ok w => e = .staleWrite S.E.name || !w.resolves
  | .error _, .error _ => true

/-- What a save did on the strength of `r`. -/
def saved (s : VersionRun V) (r : Read (Key V) V) (write : Rewriting V)
    (out : Database V × Except Error (List (Row V))) : VersionRun V :=
  let s' := s.wrote S out.1
  { s' with
    lost := if s.log.Stale r ∧ ¬(refused S write out.2 ∧ touched S s.db out.1 = []) then
      r.key :: s.lost else s.lost
    log := if touched S s.db out.1 = [] then s'.log else s'.log.save r.key r.version }

/-- The filters of a save are about the row that was read. -/
def Aims (db : Database V) (write : Rewriting V) (k : Key V) : Prop :=
  ∀ row ∈ db S.E.table, Hits write.filters db S.E.table row → S.E.keyOf row = k

instance (db : Database V) (write : Rewriting V) (k : Key V) : Decidable (Aims S db write k) :=
  inferInstanceAs (Decidable (∀ row ∈ db S.E.table, Hits write.filters db S.E.table row →
    S.E.keyOf row = k))

def step (s : VersionRun V) : VersionCall V → Option (VersionRun V)
  | .read client k => (versionAt S s.db k).map fun v => { s with log := s.log.read client k v }
  | .save client k write moment =>
    (s.log.reads.find? fun r => r.client = client ∧ r.key = k).bind fun r =>
      if Aims S s.db write k then
        let write := write.expecting r.version
        some (s.saved S r write (write.run S.server moment S.E s.db))
      else none
  | .rewrite write moment => some (s.wrote S (write.run S.server moment S.E s.db).1)
  | .insert insert moment =>
    some (s.wrote S (insert.run S.server moment S.E S.maxBindParams s.db).1)

/-- Before any call. -/
def start (db : Database V) : VersionRun V where
  db := db
  log :=
    { held := (db S.E.table).filterMap fun row => (row S.version).map (S.E.keyOf row, ·)
      writes := []
      reads := []
      saves := [] }
  reused := []
  lost := []

/-- Whatever was written has a new version, no stale write went unnoticed, and no version was good
for two. -/
structure LosesNothing (s : VersionRun V) : Prop where
  reused : s.reused = []
  lost : s.lost = []
  once : s.log.saves.Nodup

end VersionRun

end Moso.Orm
