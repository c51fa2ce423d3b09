import Moso.Auth.Totp
import Moso.Foundation.Machine
import Moso.Foundation.Stateful

/-!
# Logins

The handlers of `POST /auth/login` and `POST /auth/token`, one request after the other. A login
takes two requests where a second factor is enrolled: the first one leaves a challenge in the
session, and the second one comes with that challenge and a code.

What a handler asks of the account store, of the hash and of the stores answers as it will for
each request. Beside the state of the handlers stand the passwords that were hashed, and the code
that the request had compared, if it had one.
-/

namespace Moso.Auth

open Stateful (settle)

structure User where
  authId : String
  isActive : Bool
  deriving DecidableEq

structure AccountStore where
  findByIdentity : String → Except Error (Option User)
  findById : String → Except Error (Option User)
  passwordHash : String → Except Error (Option String)

/-- What is there for one request. -/
structure Services where
  /-- The wall clock. -/
  now : ℕ
  /-- For how long the quota of the address refuses the request, if it does. -/
  address : Option ℕ
  /-- What the CAPTCHA verifier says of the response token, if there are both. -/
  captcha : Option (Except Error Bool)
  accounts : Except Error AccountStore
  /-- Whether a hash is that of a password. -/
  verify : String → String → Except Error Bool
  dummyVerify : Except Error Unit
  opaqueToken : Except Error String
  logIn : Except Error Unit
  readTotp : Except Error Unit
  writeTotp : Except Error Unit
  /-- A refresh token and an access token for a subject. -/
  issuePair : String → Except Error (String × String)

/-- How the routes are mounted. -/
structure AuthState where
  loginThrottle : Option ThrottleConfig
  /-- A key-value store is configured. -/
  hasKv : Bool
  totp : Totp
  codeFor : CodeForCounter
  normalise : String → String
  encodeSubject : String → Except Error String
  decodeSubject : String → Except Error String
  /-- Whether a target after the login is allowed. -/
  validateNext : String → Except Error Unit

structure LoginRequest where
  identity : String
  password : String
  totp : Option String
  challenge : Option String
  next : Option String

structure TokenIssueRequest where
  identity : String
  password : String
  totp : Option String

structure LoginResponse where
  requiresSecondFactor : Bool
  challenge : Option String
  accessToken : Option String
  refreshToken : Option String
  next : Option String
  deriving DecidableEq

/-- What the first step of a two-step login leaves in the session. -/
structure PendingSecondFactor where
  subject : String
  identity : String
  challenge : String
  next : Option String
  /-- Which challenge it is, counted from the first. -/
  serial : ℕ
  deriving DecidableEq

/-- A code that was compared with the enrolment of the account that a challenge is for. -/
structure Guess where
  pending : PendingSecondFactor
  accepted : Bool
  deriving DecidableEq

/-- What the handlers keep beside the throttle. -/
structure Credentials (σ : Type) where
  pending : σ → Option PendingSecondFactor
  /-- The subject and the identity that a session is signed in as. -/
  signedIn : σ → Option (String × String)
  confirmed : String → Option StoredTotp
  /-- How many challenges there were. -/
  issued : ℕ
  /-- How many passwords were hashed. -/
  hashes : ℕ
  guess : Option Guess

/-- Part of a handler: what it has done stays done when it fails. -/
abbrev Handler (σ : Type) := Stateful Error (Credentials σ)

section

variable {σ : Type} [DecidableEq σ] (state : AuthState) (services : Services)

/-- What is missing is answered as a wrong password is. -/
def present {α : Type} : Option α → Handler σ α
  | some a => pure a
  | none   => throw .invalidCredentials

def require (p : Prop) [Decidable p] : Handler σ Unit :=
  if p then pure () else throw .invalidCredentials

/-- Every failure of a password has one answer, and costs one verification. -/
def verifyPassword (identity password : String) : Handler σ User := do
  let accounts ← settle services.accounts
  match ← settle (accounts.findByIdentity identity) with
  | none =>
    modify fun c => { c with hashes := c.hashes + 1 }
    settle services.dummyVerify
    throw .invalidCredentials
  | some user =>
    let hash ← settle (accounts.passwordHash user.authId)
    modify fun c => { c with hashes := c.hashes + 1 }
    match hash with
    | none =>
      settle services.dummyVerify
      throw .invalidCredentials
    | some hash =>
      require ((← settle (services.verify hash password)) = true)
      require (user.isActive = true)
      return user

/-- The confirmed enrolment of a subject, if there is one. -/
def confirmed (subject : String) : Handler σ (Option StoredTotp) := do
  if state.hasKv then
    settle services.readTotp
    return (← get).confirmed subject
  else return none

/-- Write back the period a code was accepted from. -/
def saveConfirmed (subject : String) (enrolment : StoredTotp) : Handler σ Unit := do
  settle services.writeTotp
  modify fun c => { c with confirmed := Function.update c.confirmed subject (some enrolment) }

/-- Bind the session to the user. -/
def finish (session : σ) (user : User) (identity : String) : Handler σ Unit := do
  settle services.logIn
  let subject ← settle (state.encodeSubject user.authId)
  modify fun c =>
    { c with signedIn := Function.update c.signedIn session (some (subject, identity)) }

/-! ### `POST /auth/login` -/

/-- Hand back the token that binds the second request to this one. -/
def challenge (session : σ) (subject identity : String) (next : Option String) :
    Handler σ LoginResponse := do
  let challenge ← settle services.opaqueToken
  modify fun c =>
    { c with
      pending := Function.update c.pending session
        (some { subject, identity, challenge, next, serial := c.issued })
      issued := c.issued + 1 }
  return { requiresSecondFactor := true, challenge := some challenge, accessToken := none,
           refreshToken := none, next }

/-- The second request of a two-step login. -/
def secondStep (session : σ) (presented : Option String) (code : String) (next : Option String) :
    Handler σ LoginResponse := do
  let pending ← present ((← get).pending session)
  let presented ← present presented
  require (pending.challenge = presented)
  let enrolment ← present (← confirmed state services pending.subject)
  let accepted ← settle (enrolment.accept state.totp state.codeFor code
    (services.now / 1000000000))
  modify fun c => { c with guess := some { pending, accepted := accepted.isSome } }
  let period ← present accepted
  saveConfirmed services pending.subject (enrolment.consume period)
  let accounts ← settle services.accounts
  let id ← settle (state.decodeSubject pending.subject)
  let user ← present (← settle (accounts.findById id))
  require (user.isActive = true)
  modify fun c => { c with pending := Function.update c.pending session none }
  finish state services session user pending.identity
  return { requiresSecondFactor := false, challenge := none, accessToken := none,
           refreshToken := none, next := next.or pending.next }

/-- The credential half of a login. -/
def attempt (session : σ) (body : LoginRequest) (next : Option String) :
    Handler σ LoginResponse :=
  match body.totp with
  | some code => secondStep state services session body.challenge code next
  | none => do
    let identity := state.normalise body.identity
    let user ← verifyPassword services identity body.password
    let subject ← settle (state.encodeSubject user.authId)
    match ← confirmed state services subject with
    | some _ => challenge services session subject identity next
    | none =>
      finish state services session user identity
      return { requiresSecondFactor := false, challenge := none, accessToken := none,
               refreshToken := none, next }

/-! ### `POST /auth/token` -/

/-- Mint the first pair of a new family. -/
def issuePair (subject : String) : Handler σ LoginResponse := do
  let (refresh, access) ← settle (services.issuePair subject)
  return { requiresSecondFactor := false, challenge := none, accessToken := some access,
           refreshToken := some refresh, next := none }

/-- Verify the credentials and, when every factor is cleared, mint a pair. -/
def authenticate (body : TokenIssueRequest) : Handler σ LoginResponse := do
  let user ← verifyPassword services (state.normalise body.identity) body.password
  let subject ← settle (state.encodeSubject user.authId)
  match ← confirmed state services subject with
  | none => issuePair services subject
  | some enrolment =>
    match body.totp with
    | none =>
      return { requiresSecondFactor := true, challenge := none, accessToken := none,
               refreshToken := none, next := none }
    | some code =>
      let period ← present (← settle (enrolment.accept state.totp state.codeFor code
        (services.now / 1000000000)))
      saveConfirmed services subject (enrolment.consume period)
      issuePair services subject

/-! ### The throttle around the handlers -/

/-- Ask the throttle whether an attempt may proceed. -/
def gate (backoff : Backoff) : Except Error Unit :=
  match state.loginThrottle with
  | none => .ok ()
  | some config =>
    match config.check backoff services.now services.address with
    | .allow => .ok ()
    | .deny retryAfter => .error (.rateLimited retryAfter)
    | .challenge =>
      match services.captcha with
      | some (.error error) => .error error
      | some (.ok true) => .ok ()
      | _ => .error (.rateLimited config.perIdentityBase)

/-- Read a target from a request and check it. -/
def checkedNext (next : Option String) : Except Error (Option String) :=
  match next with
  | none => .ok none
  | some next => do
    state.validateNext next
    return some next

variable {state} in
/-- A target that is allowed is handed on. -/
lemma checkedNext_of_isOk {next : Option String} (h : (checkedNext state next).isOk = true) :
    checkedNext state next = .ok next := by
  cases next with
  | none => rfl
  | some next =>
    rw [checkedNext] at h ⊢
    cases hvalid : state.validateNext next with
    | error error =>
      rw [hvalid] at h
      cases h
    | ok _ => rfl

structure AuthWorld (σ : Type) where
  /-- What the throttle has of each identity. -/
  throttle : String → Backoff
  credentials : Credentials σ

/-- Record the outcome of an attempt. -/
def record (world : AuthWorld σ) (identity : String) (succeeded : Bool) : AuthWorld σ :=
  match state.loginThrottle with
  | none => world
  | some config =>
    let key := state.normalise identity
    { world with
      throttle := Function.update world.throttle key
        (config.record (world.throttle key) services.now succeeded) }

/-- Whether the throttle is told that an attempt succeeded. -/
def recordedAs : Except Error LoginResponse → Bool
  | .ok _        => true
  | .error error => error.countsAsAttempt

/-- Run the credential half of a handler, and record what came of it. -/
def conclude (world : AuthWorld σ) (identity : String) (handler : Handler σ LoginResponse) :
    Except Error LoginResponse × AuthWorld σ :=
  let (outcome, credentials) := handler.run { world.credentials with guess := none }
  (outcome, record state services { world with credentials := credentials } identity
    (recordedAs outcome))

/-- `POST /auth/login`. -/
def login (session : σ) (body : LoginRequest) (world : AuthWorld σ) :
    Except Error LoginResponse × AuthWorld σ :=
  match gate state services (world.throttle (state.normalise body.identity)) with
  | .error error => (.error error, world)
  | .ok _ =>
    match checkedNext state body.next with
    | .error error => (.error error, world)
    | .ok next =>
      conclude state services world body.identity (attempt state services session body next)

/-- `POST /auth/token`. -/
def issue (body : TokenIssueRequest) (world : AuthWorld σ) :
    Except Error LoginResponse × AuthWorld σ :=
  match gate state services (world.throttle (state.normalise body.identity)) with
  | .error error => (.error error, world)
  | .ok _ => conclude state services world body.identity (authenticate state services body)

end

/-- One of the two requests, and what is there for it. -/
inductive AuthRequest (σ : Type) where
  | login (session : σ) (body : LoginRequest) (services : Services)
  | issue (body : TokenIssueRequest) (services : Services)

namespace AuthRequest

variable {σ : Type} [DecidableEq σ] (state : AuthState)

def services : AuthRequest σ → Services
  | login _ _ services => services
  | issue _ services   => services

def identity : AuthRequest σ → String
  | login _ body _ => body.identity
  | issue body _   => body.identity

/-- The target after the login is one that is allowed. -/
def nextAllowed : AuthRequest σ → Bool
  | login _ body _ => (checkedNext state body.next).isOk
  | issue _ _      => true

/-- The credential half of the handler. -/
def credentialHalf : AuthRequest σ → Handler σ LoginResponse
  | login session body services => attempt state services session body body.next
  | issue body services         => authenticate state services body

/-- The request gets as far as its credentials. -/
def reaches (world : AuthWorld σ) (request : AuthRequest σ) : Bool :=
  (gate state request.services (world.throttle (state.normalise request.identity))).isOk &&
    request.nextAllowed state

def handle (world : AuthWorld σ) : AuthRequest σ → Except Error LoginResponse × AuthWorld σ
  | login session body services => Auth.login state services session body world
  | issue body services         => Auth.issue state services body world

variable {state} {world : AuthWorld σ} {request : AuthRequest σ}

/-- A request that gets so far runs the credential half, and is put on record. -/
lemma handle_of_reaches (h : request.reaches state world = true) : request.handle state world =
    conclude state request.services world request.identity (request.credentialHalf state) := by
  obtain ⟨hgate, hnext⟩ := Bool.and_eq_true_iff.mp h
  cases request with
  | issue body services =>
    rw [handle, Auth.issue]
    cases hresult : gate state services (world.throttle (state.normalise body.identity)) with
    | error error =>
      have hok : (gate state services (world.throttle (state.normalise body.identity))).isOk = true :=
        hgate
      rw [hresult] at hok
      cases hok
    | ok _ => rfl
  | login session body services =>
    rw [handle, Auth.login]
    cases hresult : gate state services (world.throttle (state.normalise body.identity)) with
    | error error =>
      have hok : (gate state services (world.throttle (state.normalise body.identity))).isOk = true :=
        hgate
      rw [hresult] at hok
      cases hok
    | ok _ =>
      have hchecked : checkedNext state body.next = .ok body.next := checkedNext_of_isOk hnext
      rw [hchecked]
      rfl

/-- A request that is refused before its credentials are looked at leaves everything as it is. -/
lemma handle_of_not_reaches (h : request.reaches state world = false) :
    ∃ error, request.handle state world = (.error error, world) := by
  cases request with
  | issue body services =>
    rw [handle, Auth.issue]
    cases hresult : gate state services (world.throttle (state.normalise body.identity)) with
    | error error => exact ⟨error, rfl⟩
    | ok _ =>
      have hok : ((gate state services (world.throttle (state.normalise body.identity))).isOk &&
          true) = false := h
      rw [hresult] at hok
      cases hok
  | login session body services =>
    rw [handle, Auth.login]
    cases hresult : gate state services (world.throttle (state.normalise body.identity)) with
    | error error => exact ⟨error, rfl⟩
    | ok _ =>
      cases hchecked : checkedNext state body.next with
      | error error => exact ⟨error, rfl⟩
      | ok next =>
        have hok : ((gate state services (world.throttle (state.normalise body.identity))).isOk &&
            (checkedNext state body.next).isOk) = false := h
        rw [hresult, hchecked] at hok
        cases hok

/-- Whoever is in backoff is refused, before any password is hashed. -/
lemma handle_of_inBackoff {config : ThrottleConfig} (hconfig : state.loginThrottle = some config)
    (h : config.InBackoff (world.throttle (state.normalise request.identity))
      request.services.now) :
    ∃ retryAfter, request.handle state world = (.error (.rateLimited retryAfter), world) := by
  obtain ⟨retryAfter, hdeny⟩ :=
    ThrottleConfig.check_of_inBackoff h request.services.address
  have hgate : gate state request.services (world.throttle (state.normalise request.identity)) =
      .error (.rateLimited retryAfter) := by
    rw [gate, hconfig]
    dsimp only
    rw [hdeny]
  refine ⟨retryAfter, ?_⟩
  cases request with
  | issue body services =>
    rw [handle, Auth.issue]
    exact hgate ▸ rfl
  | login session body services =>
    rw [handle, Auth.login]
    exact hgate ▸ rfl

end AuthRequest

end Moso.Auth
