import Moso.Foundation.Json
import Moso.Foundation.Lapsing
import Moso.Foundation.Program
import Moso.Kv.Key

/-!
# Sessions in a key-value store

A session is one record, which lapses, and every user has an index of the identifiers of their
sessions, which is one entry and lapses as a whole. The index is a set of the store where it has
sets (`structures`), and a list that is read and written back where it has not. Every call of the session store
is a program of commands to the key-value store; times are in milliseconds.
-/

namespace Moso.Auth

variable {κ U : Type}

/-- A session: whose it is once somebody has logged in, and what the application put in it. -/
structure SessionRecord (κ U : Type) where
  id : κ
  userId : Option U
  authHash : List UInt8
  data : Json
  createdAt : ℕ
  lastSeenAt : ℕ

/-- The only way in which a call fails here: the key of a user's index is too long. -/
inductive SessionError where
  | unavailable (detail : Kv.KeyError)

/-- What the session store asks of the key-value store: of the namespace of records, of the
namespace of indexes, and of the sets of the store. -/
inductive SessionCmd (κ U : Type) where
  | get (id : κ)
  | setTtl (id : κ) (record : SessionRecord κ U) (ttl : ℕ)
  | delete (id : κ)
  | ttl (id : κ)
  | getIndex (user : U)
  | setIndex (user : U) (ids : List κ) (ttl : ℕ)
  | setAdd (user : U) (id : κ)
  | expire (user : U) (ttl : ℕ)
  | setRemove (user : U) (id : κ)
  | setMembers (user : U)

namespace SessionCmd

/-- What a command returns when it does not fail. -/
abbrev Result : SessionCmd κ U → Type
  | get _ => Option (SessionRecord κ U)
  | delete _ => Bool
  | ttl _ => Option ℕ
  | getIndex _ => Option (List κ)
  | setMembers _ => List κ
  | setTtl .. | setIndex .. | setAdd .. | expire .. | setRemove .. => Unit

abbrev Answer (c : SessionCmd κ U) : Type := Except SessionError c.Result

/-- Whose index a command is about. -/
def user : SessionCmd κ U → Option U
  | getIndex user | setIndex user .. | setAdd user _ | expire user _ | setRemove user _
  | setMembers user => some user
  | get _ | setTtl .. | delete _ | ttl _ => none

end SessionCmd

abbrev SessionProgram (κ U : Type) : Type → Type :=
  ExceptT SessionError (Program (SessionCmd κ U) SessionCmd.Answer)

abbrev SessionCmd.call (c : SessionCmd κ U) : SessionProgram κ U c.Result := Program.call c

namespace KvSessionStore

open SessionCmd (call)

variable [DecidableEq κ] (structures : Bool)

/-- Ninety days. -/
def indexTtl : ℕ := 90 * 24 * 3600 * 1000

def indexAdd (user : U) (id : κ) (ttl : ℕ) : SessionProgram κ U Unit :=
  if structures then do
    call (.setAdd user id)
    call (.expire user (max ttl 60000))
  else do
    let ids := (← call (.getIndex user)).getD []
    if id ∈ ids then pure ()
    else call (.setIndex user (ids ++ [id]) ttl)

def indexRemove (user : U) (id : κ) : SessionProgram κ U Unit :=
  if structures then call (.setRemove user id)
  else do
    match ← call (.getIndex user) with
    | some ids => call (.setIndex user (ids.filter fun held => held ≠ id) indexTtl)
    | none     => pure ()

def indexRead (user : U) : SessionProgram κ U (List κ) :=
  if structures then call (.setMembers user)
  else do
    return (← call (.getIndex user)).getD []

def load (id : κ) : SessionProgram κ U (Option (SessionRecord κ U)) := call (.get id)

def save (record : SessionRecord κ U) (ttl : ℕ) : SessionProgram κ U Unit := do
  call (.setTtl record.id record ttl)
  match record.userId with
  | some user => indexAdd structures user record.id ttl
  | none      => pure ()

def delete (id : κ) : SessionProgram κ U Bool := do
  let existing ← call (.get id)
  let removed ← call (.delete id)
  match existing.bind SessionRecord.userId with
  | some user => indexRemove structures user id
  | none      => pure ()
  return removed

/-- Write the record under another identifier before the one it has is dropped. -/
def rename (source target : κ) : SessionProgram κ U Unit := do
  match ← call (.get source) with
  | none        => pure ()
  | some record =>
    let ttl := (← call (.ttl source)).getD (14 * 24 * 3600 * 1000)
    call (.setTtl target { record with id := target } ttl)
    let _ ← call (.delete source)
    match record.userId with
    | some user =>
      indexAdd structures user target ttl
      indexRemove structures user source
    | none => pure ()

/-- The records of a list of identifiers, and the identifiers that have none. -/
def lookUp : List κ → SessionProgram κ U (List (SessionRecord κ U) × List κ)
  | []        => pure ([], [])
  | id :: ids => do
    let found ← call (.get id)
    let (records, stale) ← lookUp ids
    match found with
    | some record => return (record :: records, stale)
    | none        => return (records, id :: stale)

def removeAll (user : U) : List κ → SessionProgram κ U Unit
  | []        => pure ()
  | id :: ids => do
    indexRemove structures user id
    removeAll user ids

/-- The sessions of a user, the one seen last first; entries without a record are cleaned up. -/
def listForUser (user : U) : SessionProgram κ U (List (SessionRecord κ U)) := do
  let (records, stale) ← lookUp (← indexRead structures user)
  removeAll structures user stale
  return records.mergeSort fun record record' => record'.lastSeenAt ≤ record.lastSeenAt

/-- Delete the records of a list of identifiers but for one, and count them. -/
def deleteAll (user : U) (except : Option κ) : List κ → ℕ → SessionProgram κ U ℕ
  | [], deleted        => pure deleted
  | id :: ids, deleted =>
    if except = some id then deleteAll user except ids deleted
    else do
      let removed ← call (.delete id)
      indexRemove structures user id
      deleteAll user except ids (if removed then deleted + 1 else deleted)

def deleteForUser (user : U) (except : Option κ) : SessionProgram κ U ℕ := do
  deleteAll structures user except (← indexRead structures user) 0

end KvSessionStore

/-! ### The store -/

/-- What the key-value store holds. -/
structure SessionKv (κ U : Type) where
  data : Lapsing κ (SessionRecord κ U)
  index : Lapsing U (List κ)

namespace SessionKv

def empty : SessionKv κ U := ⟨Lapsing.empty, Lapsing.empty⟩

variable [DecidableEq κ] [DecidableEq U]

/-- What becomes of an index when a set of the store loses a member: an empty set is not kept. -/
def setRemove (kv : SessionKv κ U) (now : ℕ) (user : U) (id : κ) : SessionKv κ U :=
  match kv.index.live now user with
  | none            => kv
  | some (ids, end_) =>
    let kept := ids.filter fun held => held ≠ id
    if kept.isEmpty then { kv with index := kv.index.delete user }
    else { kv with index := kv.index.set user kept end_ }

/-- A command at an instant. A set that is made by its first member stays for good, until it is
given an end. -/
def exec (now : ℕ) (kv : SessionKv κ U) : (c : SessionCmd κ U) → c.Result × SessionKv κ U
  | .get id => (kv.data.get now id, kv)
  | .setTtl id record ttl => ((), { kv with data := kv.data.set id record (some (now + ttl)) })
  | .delete id => ((kv.data.get now id).isSome, { kv with data := kv.data.delete id })
  | .ttl id => ((kv.data.live now id).bind fun entry => entry.2.map (· - now), kv)
  | .getIndex user => (kv.index.get now user, kv)
  | .setIndex user ids ttl => ((), { kv with index := kv.index.set user ids (some (now + ttl)) })
  | .setAdd user id =>
    match kv.index.live now user with
    | none             => ((), { kv with index := kv.index.set user [id] none })
    | some (ids, end_) => ((), { kv with index := kv.index.set user (ids.insert id) end_ })
  | .expire user ttl =>
    match kv.index.live now user with
    | none          => ((), kv)
    | some (ids, _) => ((), { kv with index := kv.index.set user ids (some (now + ttl)) })
  | .setRemove user id => ((), kv.setRemove now user id)
  | .setMembers user => ((kv.index.get now user).getD [], kv)

/-- The answer to a command, which is refused when it names an index whose key cannot be built. -/
def answer (indexKey : U → Except Kv.KeyError Unit) (now : ℕ) (c : SessionCmd κ U)
    (kv : SessionKv κ U) : c.Answer × SessionKv κ U :=
  match c.user.map indexKey with
  | some (.error error) => (.error (.unavailable error), kv)
  | _                   => (.ok (kv.exec now c).1, (kv.exec now c).2)

end SessionKv

end Moso.Auth
