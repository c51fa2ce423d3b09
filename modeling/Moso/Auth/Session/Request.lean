import Moso.Auth.Session.Store
import Moso.Foundation.Machine
import Mathlib.Logic.Function.Basic

/-!
# The session of a request

A request has a session of its own: the identifier that the client presented, and a private copy
of the record from the moment it is loaded. What the request does to the session it does to the
copy, and `save` writes the copy back at the end. Every method is a program of commands to the
key-value store; it also reads the clock and generates identifiers.
-/

namespace Moso.Auth

variable {κ U : Type}

/-- Durations in milliseconds. -/
structure SessionConfig where
  idleTimeout : ℕ
  absoluteTimeout : ℕ
  /-- For how long a session that is only read need not be written. -/
  touchInterval : ℕ

namespace SessionRecord

variable (record : SessionRecord κ U) (config : SessionConfig) (now : ℕ)

/-- A fresh, empty, unauthenticated record. -/
def new (id : κ) : SessionRecord κ U where
  id := id
  userId := none
  authHash := []
  data := .object []
  createdAt := now
  lastSeenAt := now

def isExpired : Bool :=
  now - record.lastSeenAt > config.idleTimeout || now - record.createdAt > config.absoluteTimeout

/-- How long the record should live in the store. -/
def ttl : ℕ :=
  let absoluteLeft := config.absoluteTimeout - (now - record.createdAt)
  max (min config.idleTimeout absoluteLeft) 1000

end SessionRecord

/-- What the session of a request asks: of the store, of the clock, and of the generator. -/
inductive RequestCmd (κ U : Type) where
  | store (c : SessionCmd κ U)
  | now
  | generate

namespace RequestCmd

abbrev Result : RequestCmd κ U → Type
  | store c  => c.Result
  | now      => ℕ
  | generate => κ

abbrev Answer (c : RequestCmd κ U) : Type := Except SessionError c.Result

end RequestCmd

abbrev RequestProgram (κ U : Type) : Type → Type :=
  ExceptT SessionError (Program (RequestCmd κ U) RequestCmd.Answer)

abbrev RequestCmd.call (c : RequestCmd κ U) : RequestProgram κ U c.Result := Program.call c

/-- A call of the session store. -/
def SessionProgram.onStore {α : Type} (p : SessionProgram κ U α) : RequestProgram κ U α :=
  ExceptT.mk (Program.embed RequestCmd.store p.run)

/-- What a request holds of its session. -/
structure Session (κ U : Type) where
  id : κ
  /-- The copy of the record, once loaded. -/
  record : Option (SessionRecord κ U)
  /-- The identifier came from the client, so the store may know it. -/
  presented : Bool
  dirty : Bool
  destroyed : Bool

namespace Session

open RequestCmd (call)

def build (id : κ) (presented : Bool) : Session κ U where
  id := id
  record := none
  presented := presented
  dirty := false
  destroyed := false

variable [DecidableEq κ] (structures : Bool) (config : SessionConfig)

/-- Read the record from the store, if it has not been read already. A record past either timeout
is treated as absent and deleted. -/
def load (session : Session κ U) : RequestProgram κ U (Session κ U) :=
  if session.record.isSome then pure session
  else do
    let loaded ←
      if session.presented then (KvSessionStore.load session.id).onStore else pure none
    match loaded with
    | some record =>
      if record.isExpired config (← call .now) then
        let _ ← (KvSessionStore.delete structures record.id).onStore
        let fresh := SessionRecord.new (← call .now) session.id
        return { session with presented := false, record := some fresh }
      else return { session with record := some record }
    | none =>
      let fresh := SessionRecord.new (← call .now) session.id
      return { session with presented := false, record := some fresh }

/-- Change the loaded record and mark the session dirty. -/
def withRecordMut (session : Session κ U) (write : SessionRecord κ U → SessionRecord κ U) :
    Session κ U :=
  match session.record with
  | some record => { session with record := some (write record), dirty := true }
  | none        => session

/-- A map with a value put under a key; a key that is there keeps its place. -/
def put (key : List Char) (value : Json) : List (List Char × Json) → List (List Char × Json)
  | []               => [(key, value)]
  | entry :: entries =>
    if entry.1 = key then (key, value) :: entries else entry :: put key value entries

/-- A map without a key; the last entry takes the place of the one that goes. -/
def swapRemove (key : List Char) : List (List Char × Json) → List (List Char × Json)
  | []               => []
  | entry :: entries =>
    if entry.1 = key then
      match entries.getLast? with
      | some last => last :: entries.dropLast
      | none      => []
    else entry :: swapRemove key entries

def insert (session : Session κ U) (key : List Char) (value : Json) : Session κ U :=
  session.withRecordMut fun record =>
    match record.data with
    | .object entries => { record with data := .object (put key value entries) }
    | _               => { record with data := .object [(key, value)] }

def remove (session : Session κ U) (key : List Char) : Session κ U :=
  session.withRecordMut fun record =>
    match record.data with
    | .object entries => { record with data := .object (swapRemove key entries) }
    | _               => record

/-- Issue a new identifier, keeping the contents. -/
def cycleId (session : Session κ U) : RequestProgram κ U (Session κ U) := do
  let session ← session.load structures config
  let new ← call .generate
  if session.presented then
    (KvSessionStore.rename structures session.id new).onStore
  return { session with id := new }.withRecordMut fun record => { record with id := new }

/-- Bind the session to a principal, under a new identifier. -/
def logIn (session : Session κ U) (subject : U) (authHash : List UInt8) :
    RequestProgram κ U (Session κ U) := do
  let session ← session.load structures config
  let session ← session.cycleId structures config
  let now ← call .now
  return session.withRecordMut fun record =>
    { record with userId := some subject, authHash := authHash, createdAt := now,
                  lastSeenAt := now }

def destroy (session : Session κ U) : RequestProgram κ U (Session κ U) := do
  if session.presented then
    let _ ← (KvSessionStore.delete structures session.id).onStore
  return { session with record := none, presented := false, destroyed := true, dirty := false }

/-- Write the session out, if it changed, or if it was last seen too long ago. -/
def save (session : Session κ U) : RequestProgram κ U (Session κ U) :=
  if session.destroyed then pure session
  else do
    let now ← call .now
    match session.record with
    | none        => return session
    | some record =>
      let stale := config.touchInterval ≤ now - record.lastSeenAt
      if !session.dirty && !stale then return session
      else
        let record := { record with lastSeenAt := now }
        (KvSessionStore.save structures record (record.ttl config now)).onStore
        return { session with record := some record, presented := true, dirty := false }

end Session

/-- What a request does with its session, or with the sessions of a user. -/
inductive RequestCall (κ U : Type) where
  | load
  | insert (key : List Char) (value : Json)
  | remove (key : List Char)
  | cycleId
  | logIn (subject : U) (authHash : List UInt8)
  | destroy
  | save
  | deleteForUser (user : U) (except : Option κ)

namespace RequestCall

variable [DecidableEq κ] (structures : Bool) (config : SessionConfig)

def program (session : Session κ U) : RequestCall κ U → RequestProgram κ U (Session κ U)
  | load => session.load structures config
  | insert key value => pure (session.insert key value)
  | remove key => pure (session.remove key)
  | cycleId => session.cycleId structures config
  | logIn subject authHash => session.logIn structures config subject authHash
  | destroy => session.destroy structures
  | save => session.save structures config
  | deleteForUser user except => do
    let _ ← (KvSessionStore.deleteForUser structures user except).onStore
    return session

/-- The calls that end sessions. -/
def ends : RequestCall κ U → Bool
  | destroy | deleteForUser .. => true
  | _ => false

end RequestCall

/-! ### Requests side by side -/

/-- A call that a request is in: what is left of it, and the sessions it has ended so far. -/
structure RunningCall (κ U : Type) where
  ends : Bool
  program : Program (RequestCmd κ U) RequestCmd.Answer (Except SessionError (Session κ U))
  ended : List κ

/-- A request, and the sessions that calls have ended since it began. -/
structure Request (κ U : Type) where
  session : Session κ U
  running : Option (RunningCall κ U)
  overtaken : List κ

/-- Requests that share a store whose commands are carried out one at a time. Kept beside it are
the identifiers that were presented, generated or deleted so far, those whose records a call that
ends sessions has deleted, and those for which that call has returned. -/
structure Requests (κ U : Type) where
  kv : SessionKv κ U
  now : ℕ
  requests : ℕ → Option (Request κ U)
  seen : List κ
  removed : List κ
  ended : List κ

/-- What happens next. A generated identifier has not been seen before. -/
inductive RequestEvent (κ U : Type) where
  | wait (millis : ℕ)
  /-- A request arrives with a cookie. -/
  | present (i : ℕ) (id : κ)
  /-- A request arrives without one, and is given a new identifier. -/
  | arrive (i : ℕ) (generated : κ)
  | call (i : ℕ) (c : RequestCall κ U)
  /-- The next command of the call is carried out. -/
  | ask (i : ℕ) (generated : κ)
  | return_ (i : ℕ)

/-- The record that a command deletes. -/
def SessionCmd.deleted : SessionCmd κ U → List κ
  | .delete id => [id]
  | _          => []

namespace Requests

def start : Requests κ U where
  kv := SessionKv.empty
  now := 0
  requests := fun _ => none
  seen := []
  removed := []
  ended := []

variable [DecidableEq κ] [DecidableEq U] (structures : Bool) (config : SessionConfig)

/-- What becomes of one of the requests. -/
def update (s : Requests κ U) (i : ℕ) (request : Request κ U) : Requests κ U :=
  { s with requests := Function.update s.requests i (some request) }

/-- Sessions are ended while these requests are open. -/
def overtake (s : Requests κ U) (ids : List κ) : Requests κ U :=
  { s with
    removed := ids ++ s.removed
    requests := fun i => (s.requests i).map fun request =>
      { request with overtaken := ids ++ request.overtaken } }

/-- The answer to a command of a call, and what is left of the call. -/
def answer (s : Requests κ U) (i : ℕ) (request : Request κ U) (running : RunningCall κ U)
    (generated : κ) : (c : RequestCmd κ U) → (c.Answer →
      Program (RequestCmd κ U) RequestCmd.Answer (Except SessionError (Session κ U))) →
    Option (Requests κ U)
  | .store c, next =>
    let ids := if running.ends then c.deleted else []
    let rest : RunningCall κ U :=
      { running with program := next (.ok (s.kv.exec s.now c).1), ended := ids ++ running.ended }
    some (({ s with kv := (s.kv.exec s.now c).2, seen := c.deleted ++ s.seen }.update i
      { request with running := some rest }).overtake ids)
  | .now, next =>
    some (s.update i { request with running := some { running with program := next (.ok s.now) } })
  | .generate, next =>
    if generated ∈ s.seen then none
    else some ({ s with seen := generated :: s.seen }.update i
      { request with running := some { running with program := next (.ok generated) } })

def step (s : Requests κ U) : RequestEvent κ U → Option (Requests κ U)
  | .wait millis => some { s with now := s.now + millis }
  | .present i id =>
    match s.requests i with
    | some _ => none
    | none   => some ({ s with seen := id :: s.seen }.update i ⟨Session.build id true, none, []⟩)
  | .arrive i generated =>
    match s.requests i with
    | some _ => none
    | none   =>
      if generated ∈ s.seen then none
      else some ({ s with seen := generated :: s.seen }.update i
        ⟨Session.build generated false, none, []⟩)
  | .call i c =>
    match s.requests i with
    | some ⟨session, none, overtaken⟩ =>
      some (s.update i
        ⟨session, some ⟨c.ends, (c.program structures config session).run, []⟩, overtaken⟩)
    | _ => none
  | .ask i generated =>
    match s.requests i with
    | some ⟨session, some ⟨ends, .ask c next, ended⟩, overtaken⟩ =>
      s.answer i ⟨session, none, overtaken⟩ ⟨ends, .ask c next, ended⟩ generated c next
    | _ => none
  | .return_ i =>
    match s.requests i with
    | some ⟨_, some ⟨_, .done (.ok session), ended⟩, overtaken⟩ =>
      some ({ s with ended := ended ++ s.ended }.update i ⟨session, none, overtaken⟩)
    | some ⟨session, some ⟨_, .done (.error _), _⟩, overtaken⟩ =>
      some (s.update i ⟨session, none, overtaken⟩)
    | _ => none

/-- An ended session stays ended: under its identifier there is no record of anybody to load. -/
def StaysEnded (s : Requests κ U) : Prop :=
  ∀ id ∈ s.ended, ∀ record, s.kv.data.get s.now id = some record → record.userId = none

/-- The event writes somebody's session back that was ended since the request began. -/
def resurrects (s : Requests κ U) : RequestEvent κ U → Bool
  | .ask i _ =>
    match s.requests i with
    | some ⟨_, some ⟨_, .ask (.store (.setTtl id record _)) _, _⟩, overtaken⟩ =>
      record.userId.isSome && decide (id ∈ overtaken)
    | _ => false
  | _ => false

end Requests

end Moso.Auth
