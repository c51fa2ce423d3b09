import Moso.Auth.Session.Effects
import Moso.Auth.Session.Request
import Moso.Auth.Throttle
import Moso.Foundation.HeaderMap
import Moso.Foundation.Stateful
import Moso.Foundation.Text

/-!
# Whom a request acts as

The session layer makes a session from the cookie of a request and reads nothing. The extractors
read it when they are asked: `CurrentUser` and `MaybeUser` load the account and compare the hash
that the session recorded, and `Principal` tries the bearer credential first. What an extractor
does to the session stays done for the next one.
-/

namespace Moso.Auth

open Stateful (settle)
open Decimal (isWhitespace)
open Text (splitOnce)
open HeaderMap (toStr)

/-- How an extractor or a guard refuses a request. -/
inductive CoreError where
  | unauthenticated
  | forbidden (detail : String)
  | unavailable (detail : String)
  | internal (detail : String)
  deriving DecidableEq

/-- The problem that a failure of authentication means: a store that could not be reached, a
mistake of configuration, or the same 401 for everything else. -/
def toCore : Error → CoreError
  | .unavailable component _ => .unavailable (component ++ " is unavailable")
  | .config detail           => .internal detail
  | _                        => .unauthenticated

def SessionError.toCore : SessionError → CoreError
  | .unavailable _ => .unavailable "session store is unavailable"

/-! ### Requests -/

inductive Method where
  | get
  | head
  | options
  | trace
  | post
  | put
  | delete
  | patch
  | connect
  | extension (name : List Char)
  deriving DecidableEq

/-- What guards and extractors read of a request. -/
structure RequestParts where
  method : Method
  headers : HeaderMap
  /-- The authority of its uri. -/
  authority : Option (List Char)
  query : Option (List Char)

/-! ### Bearer credentials -/

inductive PrincipalKind where
  | anonymous
  | session
  | token
  | apiKey
  | service
  deriving DecidableEq

/-- Who is acting. -/
structure Principal (U : Type) where
  kind : PrincipalKind
  subject : Option U
  /-- Which credential, if it has a name that is not a secret. -/
  credential : Option (List Char)
  scopes : List (List Char)

namespace Principal

variable {U : Type}

def anonymous : Principal U := ⟨.anonymous, none, none, []⟩

def ofSession (subject : U) : Principal U := ⟨.session, some subject, none, []⟩

def ofToken (subject : U) (scopes : List (List Char)) : Principal U :=
  ⟨.token, some subject, none, scopes⟩

def ofApiKey (owner : U) (keyPrefix : List Char) (scopes : List (List Char)) : Principal U :=
  ⟨.apiKey, some owner, some keyPrefix, scopes⟩

end Principal

/-- A stored API key that was authenticated. -/
structure ApiKeyRecord (U : Type) where
  owner : U
  keyPrefix : List Char
  scopes : List (List Char)

/-- The claims of a token that was verified. -/
structure Claims (U : Type) where
  sub : U
  extra : List (List Char × Json)

/-- What there is to check bearer credentials with. -/
structure BearerState (U : Type) where
  /-- Whether a credential has the form of an API key. -/
  isApiKey : List Char → Bool
  /-- The authenticator over the store of API keys. -/
  apiKeyStore : Option (List Char → Except Error (ApiKeyRecord U))
  /-- The verifier of access tokens. -/
  jwt : Option (List Char → Except Error (Claims U))

section Bearer

variable {U : Type}

def eqIgnoreAsciiCase (text text' : List Char) : Bool :=
  text.map Char.toLower = text'.map Char.toLower

/-- The token of an `Authorization: Bearer <token>` header, if there is one. -/
def bearerOf (headers : HeaderMap) : Option (List Char) := do
  let value ← toStr (← headers.get "authorization".toList)
  let (scheme, token) ← splitOnce ' ' value
  let token := Decimal.trim token
  if eqIgnoreAsciiCase scheme "bearer".toList && !token.isEmpty then some token else none

def asStr : Json → Option (List Char)
  | .string text => some text
  | _            => none

/-- The scopes of a token: words of a `scope` text, or the texts of a `scopes` array. -/
def scopesOf (claims : Claims U) : List (List Char) :=
  match claims.extra.find? fun entry => entry.1 = "scope".toList with
  | some (_, .string scope) => (scope.splitOnP isWhitespace).filter fun word => !word.isEmpty
  | _ =>
    match claims.extra.find? fun entry => entry.1 = "scopes".toList with
    | some (_, .array items) => items.filterMap asStr
    | _                      => []

/-- The principal of a credential that checks out. -/
def BearerState.principalOf (state : BearerState U) (presented : List Char) : Option (Principal U) :=
  if state.isApiKey presented then do
    let authenticate ← state.apiKeyStore
    match authenticate presented with
    | .ok key  => some (.ofApiKey key.owner key.keyPrefix key.scopes)
    | .error _ => none
  else do
    let verify ← state.jwt
    match verify presented with
    | .ok claims => some (.ofToken claims.sub (scopesOf claims))
    | .error _   => none

def resolveBearer (state : Option (BearerState U)) (headers : HeaderMap) : Option (Principal U) := do
  let state ← state
  state.principalOf (← bearerOf headers)

end Bearer

/-! ### The session of the request -/

/-- The answer to a command of a request's session, at an instant. -/
def SessionKv.serve {κ U : Type} [DecidableEq κ] [DecidableEq U]
    (indexKey : U → Except Kv.KeyError Unit) (now : ℕ) (generated : κ) :
    (c : RequestCmd κ U) → SessionKv κ U → c.Answer × SessionKv κ U
  | .store c, kv  => kv.answer indexKey now c
  | .now, kv      => (.ok now, kv)
  | .generate, kv => (.ok generated, kv)

namespace Session

variable {κ U : Type} (session : Session κ U)

def userId : Option U := session.record.bind SessionRecord.userId

def authHash : Option (List UInt8) := session.record.map SessionRecord.authHash

/-- A text in the loaded record; `describe` is the library's word for a value of another shape. -/
def getString (describe : Json → String) (key : List Char) : Except Error (Option (List Char)) :=
  match session.record with
  | none => .error (.config ("the session was read before it was loaded; help: take " ++
      "`Depends<AuthSession>` in the handler, or call `Session::load().await` first — the store " ++
      "is deliberately not touched until something asks for it"))
  | some record =>
    match record.data with
    | .object entries =>
      match entries.find? fun entry => entry.1 = key with
      | none | some (_, .null) => .ok none
      | some (_, .string text) => .ok (some text)
      | some (_, value)        => .error (.config ("session key `" ++ String.ofList key ++
          "` no longer deserialises as `alloc::string::String`: " ++ describe value ++
          "; help: bump the value's shape behind a new key, or clear it on read"))
    | _ => .ok none

end Session

/-- What an application has installed: the session store and what its sessions are, the accounts,
and the verifiers of bearer credentials. -/
structure Installed (κ U Id User : Type) where
  indexKey : U → Except Kv.KeyError Unit
  structures : Bool
  config : SessionConfig
  decodeSubject : U → Except Error Id
  /-- The registered `UserStore`. -/
  users : Option (Id → Except Error (Option User))
  authHash : User → List UInt8
  isActive : User → Bool
  auth : Option (BearerState U)
  describe : Json → String

/-- The store, and the session that the layer has put into the request. -/
structure RequestState (κ U : Type) where
  kv : SessionKv κ U
  session : Option (Session κ U)

section

variable {κ U Id User : Type} [DecidableEq κ] [DecidableEq U] (app : Installed κ U Id User)
  (now : ℕ) (generated : κ)

/-- Part of the handling of a request. -/
abbrev Extraction (κ U : Type) := Stateful CoreError (RequestState κ U)

/-- A method of the request's session. If it fails, the session is as it was, and what it has done
to the store stays done. -/
def onSession (method : Session κ U → RequestProgram κ U (Session κ U)) (session : Session κ U) :
    Extraction κ U (Session κ U) :=
  ExceptT.mk fun s =>
    match (method session).run.interpret (SessionKv.serve app.indexKey now generated) s.kv with
    | (.ok session', kv) => (.ok session', ⟨kv, some session'⟩)
    | (.error error, kv) => (.error error.toCore, ⟨kv, s.session⟩)

def load (session : Session κ U) : Extraction κ U (Session κ U) :=
  onSession app now generated (Session.load app.structures app.config) session

/-- Go on whatever comes of it. -/
def discard {ε σ α : Type} (p : Stateful ε σ α) : Stateful ε σ Unit :=
  ExceptT.mk fun s => (.ok (), (p.run s).2)

/-- End a session that turned out not to authenticate anybody. -/
def dropSession (session : Session κ U) : Extraction κ U Unit :=
  discard (onSession app now generated (Session.destroy app.structures) session)

/-- The account that a session's subject names, if the session may still act for it. -/
def resolveAccount (session : Session κ U) (user : Option User) : Extraction κ U (Option User) :=
  match user with
  | none => do
    dropSession app now generated session
    return none
  | some user =>
    if (session.authHash.getD []) ≠ app.authHash user then do
      dropSession app now generated session
      return none
    else if !app.isActive user then do
      dropSession app now generated session
      return none
    else return some user

def noUserStore : CoreError := .internal
  ("no `UserStore` is registered, so `CurrentUser` cannot load anybody; help: register the auth " ++
    "backend with `.provide_dyn::<dyn UserStore<User>>(backend)` at boot")

/-- The account of a subject, if there is one to be loaded. -/
def resolveSubject (session : Session κ U) (subject : U) : Extraction κ U (Option User) :=
  match app.decodeSubject subject with
  | .error _ => do
    dropSession app now generated session
    return none
  | .ok id =>
    match app.users with
    | none          => throw noUserStore
    | some loadUser => do
      let user ← settle ((loadUser id).mapError toCore)
      resolveAccount app now generated session user

/-- Load the account that the request is acting as, if any. -/
def resolveUser : Extraction κ U (Option User) := do
  match (← get).session with
  | none         => return none
  | some session => do
    let session ← load app now generated session
    match session.userId with
    | none         => return none
    | some subject => resolveSubject app now generated session subject

def orUnauthenticated {α : Type} : Option α → Except CoreError α
  | some a => .ok a
  | none   => .error .unauthenticated

/-- `CurrentUser::resolve`. -/
def currentUser : Extraction κ U User := do
  settle (orUnauthenticated (← resolveUser app now generated))

/-- `MaybeUser::resolve`. -/
def maybeUser : Extraction κ U (Option User) := resolveUser app now generated

/-- The principal of a session, loaded if it was not. -/
def sessionPrincipal : Extraction κ U (Principal U) := do
  match (← get).session with
  | none         => return .anonymous
  | some session => do
    let session ← load app now generated session
    return (session.userId.map Principal.ofSession).getD .anonymous

/-- `Principal::resolve`. What a layer of the application has established comes first. -/
def principal (established : Option (Principal U)) (headers : HeaderMap) :
    Extraction κ U (Principal U) :=
  match established with
  | some principal => return principal
  | none =>
    match resolveBearer app.auth headers with
    | some principal => return principal
    | none           => sessionPrincipal app now generated

def noSession : CoreError := .internal
  ("no session in the request extensions; help: install `SessionLayer` in `Slot::Session` — " ++
    "`AuthSession` cannot invent one, because the cookie it would have to read has already gone past")

/-- `AuthSession::resolve`. -/
def authSession : Extraction κ U (Session κ U) := do
  match (← get).session with
  | none         => throw noSession
  | some session => load app now generated session

/-- The subject of the routes that act for a session: whom it belongs to, or the one 401. -/
def subjectOf : Extraction κ U U := do
  settle (orUnauthenticated (← authSession app now generated).userId)

end

/-! ### What the extractors find -/

section

open Stateful
open Program (interpret_bind_ok interpret_bind_error interpret_call interpret_call_ok)

variable {κ U Id User : Type} [DecidableEq κ] [DecidableEq U] {app : Installed κ U Id User}
  {now : ℕ} {generated : κ} {s s' : RequestState κ U} {session session' : Session κ U}
  {record : SessionRecord κ U} {kv kv' : SessionKv κ U}

/-- The record under an identifier, unless it is past a timeout. -/
def SessionKv.unexpired (kv : SessionKv κ U) (config : SessionConfig) (now : ℕ) (id : κ) :
    Option (SessionRecord κ U) :=
  (kv.data.get now id).filter fun record => !record.isExpired config now

/-- The record that the request's session has, or that it will have once it is loaded. -/
def RequestState.found (s : RequestState κ U) (config : SessionConfig) (now : ℕ) :
    Option (SessionRecord κ U) := do
  let session ← s.session
  match session.record with
  | some record => some record
  | none        => if session.presented then s.kv.unexpired config now session.id else none

/-- Whom the session is of. -/
def RequestState.subject (s : RequestState κ U) (config : SessionConfig) (now : ℕ) : Option U :=
  (s.found config now).bind SessionRecord.userId

/-- The session of this record may act for this account. -/
structure Recognises (app : Installed κ U Id User) (record : SessionRecord κ U) (user : User) :
    Prop where
  account : ∃ subject id loadUser, record.userId = some subject ∧
    app.decodeSubject subject = .ok id ∧ app.users = some loadUser ∧
      loadUser id = .ok (some user)
  hash : record.authHash = app.authHash user
  active : app.isActive user = true

lemma interpret_onStore {α : Type} {indexKey : U → Except Kv.KeyError Unit}
    {p : SessionProgram κ U α} :
    p.onStore.run.interpret (SessionKv.serve indexKey now generated) kv =
      kv.perform indexKey now p :=
  Program.interpret_embed

lemma yields_onSession {method : Session κ U → RequestProgram κ U (Session κ U)} :
    Yields (onSession app now generated method session) s session' s' ↔
      s'.session = some session' ∧
        (method session).run.interpret (SessionKv.serve app.indexKey now generated) s.kv =
          (.ok session', s'.kv) := by
  rw [Yields, onSession, ExceptT.run_mk]
  cases h : (method session).run.interpret (SessionKv.serve app.indexKey now generated) s.kv with
  | mk result kv =>
    cases result with
    | error error =>
      constructor
      · intro heq
        cases congrArg Prod.fst heq
      · intro heq
        cases congrArg Prod.fst heq.2
    | ok session'' =>
      constructor
      · rintro ⟨⟩
        exact ⟨rfl, rfl⟩
      · obtain ⟨kv', session₀⟩ := s'
        rintro ⟨hsession, hkv⟩
        cases hsession
        cases hkv
        rfl

variable {method : Session κ U → RequestProgram κ U (Session κ U)}

/-! ### Loading -/

lemma interpret_now {α : Type} {indexKey : U → Except Kv.KeyError Unit}
    {f : ℕ → RequestProgram κ U α} :
    (RequestCmd.call .now >>= f).run.interpret (SessionKv.serve indexKey now generated) kv =
      (f now).run.interpret (SessionKv.serve indexKey now generated) kv :=
  interpret_call_ok rfl

/-- Loading finds the record. -/
lemma interpret_load_of_unexpired (hrecord : session.record = none)
    (hpresented : session.presented = true)
    (hfound : kv.unexpired app.config now session.id = some record) :
    (Session.load app.structures app.config session).run.interpret
        (SessionKv.serve app.indexKey now generated) kv =
      (.ok { session with record := some record }, kv) := by
  obtain ⟨hget, hexpired⟩ := Option.filter_eq_some_iff.mp hfound
  have hload : (KvSessionStore.load session.id).onStore.run.interpret
      (SessionKv.serve app.indexKey now generated) kv = (.ok (some record), kv) := by
    rw [interpret_onStore, ← hget]
    exact SessionKv.perform_call (by rintro user ⟨⟩)
  rw [Bool.not_eq_true'] at hexpired
  rw [Session.load, hrecord, if_neg (by simp), if_pos hpresented, interpret_bind_ok hload]
  simp only
  rw [interpret_now, if_neg (by simp [hexpired])]
  rfl

/-- Where loading finds nothing, the session gets a fresh record. -/
lemma eq_of_interpret_load (hrecord : session.record = none)
    (hlost : session.presented = true → kv.unexpired app.config now session.id = none)
    (h : (Session.load app.structures app.config session).run.interpret
      (SessionKv.serve app.indexKey now generated) kv = (.ok session', kv')) :
    session' = { session with
      presented := false, record := some (SessionRecord.new now session.id) } := by
  rw [Session.load, hrecord, if_neg (by simp)] at h
  by_cases hpresented : session.presented = true
  · rw [if_pos hpresented] at h
    obtain ⟨loaded, kv₁, hloaded, h⟩ := Program.interpret_bind_eq_ok h
    have hget : kv.perform app.indexKey now (KvSessionStore.load session.id) =
        (.ok (kv.data.get now session.id), kv) := SessionKv.perform_call (by rintro user ⟨⟩)
    rw [interpret_onStore, hget, Prod.mk.injEq, Except.ok.injEq] at hloaded
    have hnone := hlost hpresented
    rw [SessionKv.unexpired, hloaded.1] at hnone
    cases loaded with
    | none =>
      simp only at h
      rw [interpret_now] at h
      cases h
      rfl
    | some record =>
      have hexpired : record.isExpired app.config now = true := by
        rw [Option.filter_some] at hnone
        by_contra hnot
        rw [Bool.not_eq_true] at hnot
        rw [hnot] at hnone
        cases hnone
      simp only at h
      rw [interpret_now, if_pos hexpired] at h
      obtain ⟨removed, kv₂, hremoved, h⟩ := Program.interpret_bind_eq_ok h
      rw [interpret_now] at h
      cases h
      rfl
  · have hpure : (pure none : RequestProgram κ U (Option (SessionRecord κ U))).run.interpret
        (SessionKv.serve app.indexKey now generated) kv = (.ok none, kv) := rfl
    rw [if_neg hpresented, interpret_bind_ok hpure] at h
    simp only at h
    rw [interpret_now] at h
    cases h
    rfl

lemma interpret_load_of_loaded (hrecord : session.record = some record) :
    (Session.load app.structures app.config session).run.interpret
      (SessionKv.serve app.indexKey now generated) kv = (.ok session, kv) := by
  rw [Session.load, hrecord]
  rfl

omit [DecidableEq κ] [DecidableEq U] in
lemma found_of_loaded {config : SessionConfig} (hsession : s.session = some session)
    (hrecord : session.record = some record) : s.found config now = some record := by
  simp [RequestState.found, hsession, hrecord]

omit [DecidableEq κ] [DecidableEq U] in
lemma found_of_not_loaded {config : SessionConfig} (hsession : s.session = some session)
    (hrecord : session.record = none) : s.found config now =
      if session.presented then s.kv.unexpired config now session.id else none := by
  simp [RequestState.found, hsession, hrecord]

variable (generated) in
/-- A record that is there to be found is loaded, and nothing else happens. -/
lemma yields_load_of_found (hsession : s.session = some session)
    (hfound : s.found app.config now = some record) :
    Yields (load app now generated session) s { session with record := some record }
      ⟨s.kv, some { session with record := some record }⟩ := by
  rw [load, yields_onSession]
  refine ⟨rfl, ?_⟩
  cases hrecord : session.record with
  | some record' =>
    rw [found_of_loaded hsession hrecord] at hfound
    cases hfound
    have hsame : session = { session with record := some record } := by
      rw [← hrecord]
    rw [interpret_load_of_loaded hrecord, ← hsame]
  | none =>
    rw [found_of_not_loaded hsession hrecord] at hfound
    split_ifs at hfound with hpresented
    exact interpret_load_of_unexpired hrecord hpresented hfound

/-- What loading leaves. -/
lemma loaded_of_yields_load (hsession : s.session = some session)
    (h : Yields (load app now generated session) s session' s') :
    s'.session = some session' ∧ ∃ record, session'.record = some record ∧
      (s.found app.config now = some record ∨
        s.found app.config now = none ∧ record.userId = none) := by
  cases hfound : s.found app.config now with
  | some record =>
    have hload := yields_load_of_found generated hsession hfound
    rw [Yields] at h hload
    rw [h] at hload
    cases hload
    exact ⟨rfl, record, rfl, .inl rfl⟩
  | none =>
    obtain ⟨hsession', hrun⟩ := yields_onSession.1 h
    have hrecord : session.record = none := by
      cases hrecord : session.record with
      | none => rfl
      | some record =>
        rw [found_of_loaded hsession hrecord] at hfound
        cases hfound
    have hlost : session.presented = true →
        s.kv.unexpired app.config now session.id = none := by
      intro hpresented
      rw [found_of_not_loaded hsession hrecord, if_pos hpresented] at hfound
      exact hfound
    rw [eq_of_interpret_load hrecord hlost hrun] at hsession' ⊢
    exact ⟨hsession', _, rfl, .inr ⟨rfl, rfl⟩⟩

omit [DecidableEq κ] [DecidableEq U] in
lemma subject_of_loaded {config : SessionConfig} (hsession : s.session = some session)
    (hrecord : session.record = some record) : s.subject config now = record.userId := by
  rw [RequestState.subject, found_of_loaded hsession hrecord]
  rfl

/-- Loading does not change whom the session is of. -/
lemma subject_of_yields_load (hsession : s.session = some session)
    (h : Yields (load app now generated session) s session' s') :
    session'.userId = s.subject app.config now ∧
      s'.subject app.config now = s.subject app.config now := by
  obtain ⟨hsession', record, hrecord, hfound⟩ := loaded_of_yields_load hsession h
  have hsubject : s.subject app.config now = record.userId := by
    rcases hfound with hfound | ⟨hfound, huser⟩
    · rw [RequestState.subject, hfound]
      rfl
    · rw [RequestState.subject, hfound, huser]
      rfl
  rw [subject_of_loaded hsession' hrecord, hsubject, Session.userId, hrecord]
  exact ⟨rfl, rfl⟩

/-! ### Resolving -/

lemma yields_principal_of_session {principal : Principal U}
    (h : Yields (sessionPrincipal app now generated) s principal s') :
    principal = ((s.subject app.config now).map Principal.ofSession).getD .anonymous := by
  rw [sessionPrincipal, yields_get_bind] at h
  cases hsession : s.session with
  | none =>
    rw [hsession] at h
    have hnone : s.subject app.config now = none := by
      simp [RequestState.subject, RequestState.found, hsession]
    rw [hnone]
    exact (yields_pure.1 h).1.symm
  | some session =>
    rw [hsession] at h
    obtain ⟨session', s₁, hload, hpure⟩ := yields_bind.1 h
    rw [← (subject_of_yields_load hsession hload).1]
    exact (yields_pure.1 hpure).1.symm

variable (generated) in
/-- A session that is of somebody is the principal of its request. -/
lemma exists_yields_sessionPrincipal {subject : U}
    (hsubject : s.subject app.config now = some subject) :
    ∃ s', Yields (sessionPrincipal app now generated) s (.ofSession subject) s' := by
  obtain ⟨record, hfound, huser⟩ := Option.bind_eq_some_iff.mp hsubject
  cases hsession : s.session with
  | none => simp [RequestState.found, hsession] at hfound
  | some session =>
    have hload := yields_load_of_found generated hsession hfound
    refine ⟨⟨s.kv, some { session with record := some record }⟩, ?_⟩
    rw [sessionPrincipal, yields_get_bind, hsession]
    refine yields_bind.2 ⟨_, _, hload, yields_pure.2 ⟨?_, rfl⟩⟩
    simp [Session.userId, huser]

omit [DecidableEq κ] [DecidableEq U] in
lemma not_yields_discard_bind {p : Extraction κ U Unit} {user : User} :
    ¬ Yields (do p; return (none : Option User)) s (some user) s' := by
  intro h
  obtain ⟨_, _, _, hpure⟩ := yields_bind.1 h
  cases (yields_pure.1 hpure).1

lemma yields_resolveAccount {found : Option User} {user : User} :
    Yields (resolveAccount app now generated session found) s (some user) s' ↔
      found = some user ∧ session.authHash.getD [] = app.authHash user ∧
        app.isActive user = true ∧ s = s' := by
  cases found with
  | none => exact ⟨fun h => absurd h not_yields_discard_bind, fun h => (by cases h.1)⟩
  | some found =>
    rw [resolveAccount]
    split_ifs with hhash hactive
    · refine ⟨fun h => absurd h not_yields_discard_bind, fun ⟨hfound, hequal, _⟩ => ?_⟩
      cases hfound
      exact absurd hequal hhash
    · refine ⟨fun h => absurd h not_yields_discard_bind, fun ⟨hfound, _, hon, _⟩ => ?_⟩
      cases hfound
      rw [hon] at hactive
      cases hactive
    · rw [yields_pure, Option.some.injEq]
      constructor
      · rintro ⟨rfl, rfl⟩
        exact ⟨rfl, not_not.mp hhash, by simpa using hactive, rfl⟩
      · rintro ⟨hfound, -, -, rfl⟩
        exact ⟨hfound, rfl⟩

lemma yields_resolveSubject {subject : U} {user : User} :
    Yields (resolveSubject app now generated session subject) s (some user) s' ↔
      (∃ id loadUser, app.decodeSubject subject = .ok id ∧ app.users = some loadUser ∧
        loadUser id = .ok (some user)) ∧
      session.authHash.getD [] = app.authHash user ∧ app.isActive user = true ∧ s = s' := by
  rw [resolveSubject]
  cases hid : app.decodeSubject subject with
  | error error =>
    refine ⟨fun h => absurd h not_yields_discard_bind, ?_⟩
    rintro ⟨⟨_, _, ⟨⟩, _⟩, _⟩
  | ok id =>
    cases husers : app.users with
    | none =>
      refine ⟨fun h => absurd h not_yields_throw, ?_⟩
      rintro ⟨⟨_, _, _, ⟨⟩, _⟩, _⟩
    | some loadUser =>
      simp only [yields_settle_bind]
      constructor
      · rintro ⟨found, hfound, h⟩
        obtain ⟨rfl, hrest⟩ := yields_resolveAccount.1 h
        refine ⟨⟨id, loadUser, rfl, rfl, ?_⟩, hrest⟩
        cases hload : loadUser id with
        | error error => simp [hload, Except.mapError] at hfound
        | ok found => simpa [hload, Except.mapError] using hfound
      · rintro ⟨⟨id', loadUser', hid', husers', hload⟩, hrest⟩
        cases hid'
        cases husers'
        exact ⟨some user, by rw [hload]; rfl, yields_resolveAccount.2 ⟨rfl, hrest⟩⟩

/-- The account that is loaded is one that the session may act for. -/
theorem recognises_of_yields_resolveUser {user : User}
    (h : Yields (resolveUser app now generated) s (some user) s') :
    ∃ record, s.found app.config now = some record ∧ Recognises app record user := by
  rw [resolveUser, yields_get_bind] at h
  cases hsession : s.session with
  | none =>
    rw [hsession] at h
    cases (yields_pure.1 h).1
  | some session =>
    rw [hsession] at h
    obtain ⟨session', s₁, hload, hresolve⟩ := yields_bind.1 h
    obtain ⟨hsession', record, hrecord, hfound⟩ := loaded_of_yields_load hsession hload
    cases huser : record.userId with
    | none =>
      simp only [Session.userId, hrecord, Option.bind_some, huser] at hresolve
      cases (yields_pure.1 hresolve).1
    | some subject =>
      simp only [Session.userId, hrecord, Option.bind_some, huser] at hresolve
      obtain ⟨⟨id, loadUser, hid, husers, hload'⟩, hhash, hactive, -⟩ :=
        yields_resolveSubject.1 hresolve
      refine ⟨record, ?_, ⟨subject, id, loadUser, huser, hid, husers, hload'⟩, ?_, hactive⟩
      · refine hfound.resolve_right fun hlost => ?_
        rw [hlost.2] at huser
        cases huser
      · simpa [Session.authHash, hrecord] using hhash

variable (generated) in
/-- A session that may act for an account does. -/
theorem exists_yields_resolveUser {user : User} (hfound : s.found app.config now = some record)
    (hrecognises : Recognises app record user) :
    ∃ s', Yields (resolveUser app now generated) s (some user) s' := by
  obtain ⟨⟨subject, id, loadUser, huser, hid, husers, hload'⟩, hhash, hactive⟩ := hrecognises
  cases hsession : s.session with
  | none => simp [RequestState.found, hsession] at hfound
  | some session =>
    have hload := yields_load_of_found generated hsession hfound
    refine ⟨⟨s.kv, some { session with record := some record }⟩, ?_⟩
    rw [resolveUser, yields_get_bind, hsession]
    refine yields_bind.2 ⟨_, _, hload, ?_⟩
    simp only [Session.userId, Option.bind_some, huser]
    refine yields_resolveSubject.2 ⟨⟨id, loadUser, hid, husers, hload'⟩, ?_, hactive, rfl⟩
    simpa [Session.authHash] using hhash

lemma yields_currentUser {user : User} :
    Yields (currentUser app now generated) s user s' ↔
      Yields (resolveUser app now generated) s (some user) s' := by
  rw [currentUser, yields_bind]
  constructor
  · rintro ⟨found, s₁, hresolve, hsettle⟩
    obtain ⟨hfound, rfl⟩ := yields_settle.1 hsettle
    cases found with
    | none => cases hfound
    | some found =>
      cases hfound
      exact hresolve
  · intro h
    exact ⟨some user, s', h, yields_settle.2 ⟨rfl, rfl⟩⟩

end

end Moso.Auth
