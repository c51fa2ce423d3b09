import Mathlib.Data.List.Nodup
import Moso.Auth.Totp
import Moso.Foundation.Fallible

/-!
# Signing in against a table of accounts

`DatabaseBackend::authenticate`: one query for the password of the typed identity, another for the
account, and updates by the same predicate. Which of the matching rows a query returns is up to
the database, each time anew.
-/

namespace Moso.Auth

variable {K : Type}

/-- A row of the application's table of accounts, as far as the backend reads it. -/
structure Account (K : Type) where
  id : K
  identity : String
  passwordHash : String
  active : Bool
  totpSecret : Option String
  lastPeriod : Option ℤ
  deriving DecidableEq

/-- The rows that statements of the entity reach; the primary key tells them apart. -/
structure Accounts (K : Type) where
  rows : List (Account K)
  ids_nodup : (rows.map Account.id).Nodup

/-- What the database returns of the rows that a query finds, when it returns at most one. -/
structure FetchOptional (R : Type) where
  pick : List R → Except Error (Option R)
  mem_of_pick : ∀ rows row, pick rows = .ok (some row) → row ∈ rows

inductive VerifyOutcome where
  | ok
  | okNeedsRehash
  | invalid
  deriving DecidableEq

def VerifyOutcome.isValid : VerifyOutcome → Bool
  | ok | okNeedsRehash => true
  | invalid => false

structure PasswordCredentials where
  identity : String
  password : String
  challenge : Option String
  totp : Option String

/-- What is there for one call. -/
structure BackendServices (K : Type) where
  now : ℕ
  toLowercase : String → String
  codeFor : CodeForCounter
  dummyVerify : Except Error Unit
  /-- Read a hash and verify a password against it. -/
  verify : String → String → Except Error VerifyOutcome
  encodeSubject : K → Except Error String
  /-- Leave a challenge for a subject. -/
  issue : String → Except Error String
  /-- The subject of a challenge, which is used up. -/
  redeem : String → Except Error (Option String)
  fromBase32 : String → Except Error TotpSecret
  newHash : Except Error String
  updatePeriod : Except Error Unit
  updateHash : Except Error Unit

/-- Which columns the backend was given, and what the application says of its accounts. -/
structure DatabaseBackend (K : Type) where
  name : String
  identityColumn : Bool
  passwordColumn : Bool
  activeColumn : Bool
  rehashOnLogin : Bool
  secondFactor : Bool
  isActive : Account K → Bool

/-- An account that is signed in: what was checked of a second factor, the rows when the call
returns, and the keys of those that it has updated. -/
structure SignIn (K : Type) where
  user : Account K
  checked : Option (String × Option ℤ)
  rows : List (Account K)
  written : List K
  deriving DecidableEq

def trim (s : String) : String := String.ofList (Decimal.trim s.toList)

/-- `UPDATE … SET … WHERE`. -/
def SignIn.update (signIn : SignIn K) (found : Account K → Bool)
    (set : Account K → Account K) : SignIn K :=
  { signIn with
    rows := signIn.rows.map fun row => if found row then set row else row
    written := signIn.written ++ (signIn.rows.filter found).map Account.id }

namespace DatabaseBackend

variable (backend : DatabaseBackend K) (services : BackendServices K)
  (credentials : PasswordCredentials)

def normalise (identity : String) : String := services.toLowercase (trim identity)

/-- The predicate that matches an identity, however it was capitalised. -/
def identityMatches (identity : String) : Except Error (Account K → Bool) :=
  if backend.identityColumn then
    let normalised := normalise services identity
    let typed := trim identity
    .ok fun row =>
      if normalised = typed then row.identity = normalised
      else row.identity = normalised ∨ row.identity = typed
  else
    .error (.config (s!"`DatabaseBackend<{backend.name}>` has no identity column; help: call " ++
      "`validate()` at boot so this is a boot error and not a login one"))

/-- The second factor that a row asks for: its secret and its last period. -/
def factorOf (row : Account K) : Option (String × Option ℤ) :=
  if backend.secondFactor then
    (row.totpSecret.filter fun secret => trim secret ≠ "").map fun secret =>
      (secret, row.lastPeriod)
  else none

/-- The enrolment that a secret and a last period are of. -/
def resume (secret : TotpSecret) (lastPeriod : Option ℤ) : StoredTotp :=
  ⟨secret, lastPeriod.bind fun period => if 0 ≤ period then some period.toNat else none⟩

/-- A period as the column holds it. -/
def asColumn (period : ℕ) : Option ℤ := if period < 9223372036854775808 then some (period : ℤ) else none

/-- Claim the challenge, check the code, and write back its period. -/
def secondStep (subject secret : String) (lastPeriod : Option ℤ) (found : Account K → Bool)
    (signIn : SignIn K) : Except Error (Option (SignIn K)) :=
  match credentials.challenge, credentials.totp with
  | some token, some code => do
    match ← services.redeem token with
    | none => return none
    | some claimed =>
      if claimed = subject then
        let secret ← services.fromBase32 secret
        let period ← (resume secret lastPeriod).accept {} services.codeFor code services.now
        match period with
        | none => return none
        | some period =>
          services.updatePeriod
          return some (signIn.update found fun row => { row with lastPeriod := asColumn period })
      else return none
  | _, _ => return none

/-- Upgrade an aged hash. A failure does not fail the login. -/
def upgradeHash (found : Account K → Bool) (signIn : SignIn K) : SignIn K :=
  match services.newHash, services.updateHash with
  | .ok upgraded, .ok _ => signIn.update found fun row => { row with passwordHash := upgraded }
  | _, _ => signIn

/-- What is left once the password was verified and the account is known to be usable. -/
def complete (found : Account K → Bool) (row : Account K) (outcome : VerifyOutcome)
    (user : Account K) (rows : List (Account K)) : Except Error (Option (SignIn K)) := do
  let upgrade := fun signIn =>
    if backend.rehashOnLogin ∧ outcome = .okNeedsRehash then upgradeHash services found signIn
    else signIn
  match backend.factorOf row with
  | none => return some (upgrade ⟨user, none, rows, []⟩)
  | some (secret, lastPeriod) =>
    let subject ← services.encodeSubject user.id
    match credentials.totp with
    | none => do
      let challenge ← services.issue subject
      throw (.secondFactorRequired challenge)
    | some _ =>
      let done ← secondStep services credentials subject secret lastPeriod found
        ⟨user, some (secret, lastPeriod), rows, []⟩
      return done.map upgrade

def authenticate (passwordRow userRow : FetchOptional (Account K)) (accounts : Accounts K) :
    Except Error (Option (SignIn K)) :=
  if backend.passwordColumn then do
    let found ← backend.identityMatches services credentials.identity
    match ← passwordRow.pick (accounts.rows.filter found) with
    | none => do
      services.dummyVerify
      return none
    | some row => do
      let outcome ← services.verify row.passwordHash credentials.password
      if outcome.isValid then do
        let load := fun row => found row && (!backend.activeColumn || row.active)
        match ← userRow.pick (accounts.rows.filter load) with
        | none => return none
        | some user =>
          if backend.isActive user then
            backend.complete services credentials found row outcome user accounts.rows
          else return none
      else return none
  else
    .error (.config
      s!"`DatabaseBackend<{backend.name}>` has no password column; help: call `validate()` at boot")

/-! ### What a sign-in promises -/

/-- The password verifies against the row's hash. -/
def opens (row : Account K) : Prop :=
  ∃ outcome, services.verify row.passwordHash credentials.password = .ok outcome ∧
    outcome.isValid = true

/-- The row is one of an account that may sign in. -/
def usable (row : Account K) : Prop :=
  (backend.activeColumn = true → row.active = true) ∧ backend.isActive row = true

/-- The account signed in is the account whose password, second factor and activity were checked,
and no other row was written. -/
def SignsInOwn (signIn : SignIn K) : Prop :=
  (opens services credentials signIn.user ∧ backend.usable signIn.user) ∧
    signIn.checked = backend.factorOf signIn.user ∧
    ∀ id ∈ signIn.written, id = signIn.user.id

/-- The row's hash has aged, and is upgraded when it is signed in with. -/
def upgrades (row : Account K) : Prop :=
  backend.rehashOnLogin = true ∧
    services.verify row.passwordHash credentials.password = .ok .okNeedsRehash ∧
    services.newHash.isOk = true ∧ services.updateHash.isOk = true

/-- The request has a challenge of the account, and a code of this second factor. -/
def completes (factor : String × Option ℤ) (user : Account K) : Prop :=
  ∃ token code subject secret period, credentials.challenge = some token ∧
    credentials.totp = some code ∧ services.encodeSubject user.id = .ok subject ∧
    services.redeem token = .ok (some subject) ∧ services.fromBase32 factor.1 = .ok secret ∧
    (resume secret factor.2).accept {} services.codeFor code services.now = .ok (some period) ∧
    services.updatePeriod = .ok ()

/-- Whenever the password opens a row of the typed identity and another row of it, or the same,
may sign in: if the first asks for a second factor that the request completes for the other, the
other is the only row; if it asks for none, the password opens the other too, which asks for none
either, and which is the only row if the hash is upgraded. -/
def Unmistakable (accounts : Accounts K) : Prop :=
  ∀ found, backend.passwordColumn = true →
    backend.identityMatches services credentials.identity = .ok found →
    ∀ row ∈ accounts.rows, ∀ user ∈ accounts.rows, found row = true → found user = true →
      opens services credentials row → backend.usable user →
      (∀ factor, backend.factorOf row = some factor → completes services credentials factor user →
        ∀ other ∈ accounts.rows, found other = true → other = user) ∧
      (backend.factorOf row = none →
        opens services credentials user ∧ backend.factorOf user = none ∧
          (backend.upgrades services credentials row →
            ∀ other ∈ accounts.rows, found other = true → other = user))

end DatabaseBackend

end Moso.Auth
