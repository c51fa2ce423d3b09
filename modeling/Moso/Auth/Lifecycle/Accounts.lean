import Moso.Auth.Lifecycle
import Moso.Auth.Throttle
import Moso.Foundation.Fallible
import Moso.Foundation.Stateful

/-!
# The flows of an account

Registering, resetting and changing a password, and changing an address, one call after the other,
over the lifecycle tokens in a key-value store. What the store of accounts, the password policy and
the hash answer is given for each call, and so is whether a command to the key-value store fails.
-/

namespace Moso.Auth

open Stateful (settle)

/-- How the flows are configured. -/
structure LifecycleConfig where
  verificationTtl : ℕ
  resetTtl : ℕ
  emailChangeTtl : ℕ
  /-- Whether a password change ends every other session. -/
  revokeSessionsOnPasswordChange : Bool := true
  /-- The new password may not be the one being replaced. -/
  refusePasswordReuse : Bool := true

/-- The flows, for accounts with identifiers in `Id` and subjects in `U`. -/
structure AccountFlows (Id U : Type) where
  config : LifecycleConfig
  normalise : String → String
  encodeSubject : Id → Except Error U
  decodeSubject : U → Except Error Id
  /-- The subject that stands for nobody. -/
  absent : String → U

/-- The commands of a call to the key-value store. -/
inductive TokenCommand (δ : Type) where
  | setClaim
  | readIndex
  | pushIndex
  | getClaim
  | deleteClaim
  | lookIndex
  | retainIndex
  | getHeld
  | deleteHeld (key : TokenKey δ)
  | deleteIndex

/-- What is there for one call. -/
structure AccountServices (Id δ : Type) where
  /-- The wall clock. -/
  now : ℕ
  /-- The digest of a fresh token. -/
  generate : Except Error δ
  command : TokenCommand δ → Except Error Unit
  policy : Except Error Unit
  hash : Except Error Unit
  findByIdentity : Except Error (Option Id)
  findById : Except Error (Option Id)
  create : Except Error Id
  passwordHash : Except Error (Option String)
  /-- Whether a hash is that of the current password. -/
  verify : String → Except Error Bool
  /-- Whether a hash is that of the new password. -/
  verifyNew : String → Except Error Bool
  dummyVerify : Except Error Unit
  setPasswordHash : Except Error Unit
  bumpEpoch : Except Error Unit
  setIdentity : Except Error Unit
  markVerified : Except Error Unit
  deleteForUser : Except Error ℕ

abbrev IssuedToken (U δ : Type) := TokenKey δ × TokenClaim U

inductive RegistrationOutcome where
  | created
  | alreadyRegistered
  deriving DecidableEq

structure Registration (Id U δ : Type) where
  outcome : RegistrationOutcome
  user : Option Id
  token : Option (IssuedToken U δ)

structure EmailChange (U δ : Type) where
  confirmation : IssuedToken U δ
  notifyPrevious : String

/-- Part of a flow: what it has done stays done when it fails. -/
abbrev Flow (U δ : Type) := Stateful Error (TokenKv U δ)

section

variable {Id U δ : Type} [DecidableEq U] [DecidableEq δ] (services : AccountServices Id δ)

/-- What is missing is answered as a bad token is. -/
def orInvalid {α : Type} : Option α → Except Error α
  | some a => .ok a
  | none   => .error .invalidCredentials

def refuseIf (p : Prop) [Decidable p] (error : Error) : Except Error Unit :=
  if p then .error error else .ok ()

/-! ### Tokens -/

/-- A command that changes the store. -/
def write (command : TokenCommand δ) (change : TokenKv U δ → TokenKv U δ) : Flow U δ Unit := do
  settle (services.command command)
  modify change

/-- A command that reads the store. -/
def look {α : Type} (command : TokenCommand δ) (read : TokenKv U δ → α) : Flow U δ α := do
  settle (services.command command)
  return read (← get)

def issueToken (purpose : TokenPurpose) (subject : U) (destination : String) (ttl : ℕ) :
    Flow U δ (IssuedToken U δ) := do
  let digest ← settle services.generate
  let key : TokenKey δ := ⟨purpose, digest⟩
  let claim : TokenClaim U := ⟨subject, destination, services.now, expiryOf services.now ttl⟩
  write services .setClaim fun kv => kv.setClaim key claim (services.now + ttl)
  let held ← look services .readIndex fun kv =>
    (kv.index.get services.now (indexFor key claim)).getD []
  write services .pushIndex fun kv =>
    kv.setIndex (indexFor key claim) (held ++ [key]) (services.now + ttl)
  return (key, claim)

/-- Take a token that was used out of its index. -/
def retain (key : TokenKey δ) (claim : TokenClaim U) : Flow U δ Unit := do
  match ← look services .lookIndex fun kv => kv.index.get services.now (indexFor key claim) with
  | none => pure ()
  | some held =>
    write services .retainIndex fun kv => kv.setIndex (indexFor key claim)
      (held.filter fun entry => entry ≠ key) (services.now + TokenCall.retainTtl)

def consumeToken (key : TokenKey δ) : Flow U δ (Option (TokenClaim U)) := do
  match ← look services .getClaim fun kv => kv.claims.get services.now key with
  | none => return none
  | some claim =>
    -- deleted before it is returned: what was read must not be usable a second time
    write services .deleteClaim fun kv => kv.deleteClaim key
    retain services key claim
    return if claim.expiresAt ≤ services.now then none else some claim

/-- Delete these tokens; how many there were. -/
def deleteAll : List (TokenKey δ) → Flow U δ ℕ
  | [] => return 0
  | key :: held => do
    let there ← look services (.deleteHeld key) fun kv =>
      (kv.claims.get services.now key).isSome
    modify fun kv => kv.deleteClaim key
    let revoked ← deleteAll held
    return revoked + there.toNat

def revokeAll (purpose : TokenPurpose) (subject : U) : Flow U δ ℕ := do
  match ← look services .getHeld fun kv => kv.index.get services.now ⟨purpose, subject⟩ with
  | none => return 0
  | some held => do
    let revoked ← deleteAll services held
    write services .deleteIndex fun kv => kv.deleteIndex ⟨purpose, subject⟩
    return revoked

end

namespace AccountFlows

section

variable {Id U δ : Type} [DecidableEq U] [DecidableEq δ] (accounts : AccountFlows Id U)
  (services : AccountServices Id δ)

/-! ### Flows -/

/-- Create an account and mint its verification token, or a reset token for the account that has
the address. -/
def register (identity : String) : Flow U δ (Registration Id U δ) := do
  let identity := accounts.normalise identity
  settle services.policy
  settle services.hash
  match ← settle services.findByIdentity with
  | some existing =>
    let subject ← settle (accounts.encodeSubject existing)
    let token ← issueToken services .resetPassword subject identity accounts.config.resetTtl
    return { outcome := .alreadyRegistered, user := none, token := some token }
  | none =>
    let user ← settle services.create
    let subject ← settle (accounts.encodeSubject user)
    let token ← issueToken services .verifyEmail subject identity accounts.config.verificationTtl
    return { outcome := .created, user := some user, token := some token }

/-- Mint a token for whoever holds an identity, doing the same work either way. -/
def issueForIdentity (identity : String) (purpose : TokenPurpose) (ttl : ℕ) :
    Flow U δ (Option (IssuedToken U δ)) := do
  let identity := accounts.normalise identity
  match ← settle services.findByIdentity with
  | some user =>
    let subject ← settle (accounts.encodeSubject user)
    let _ ← revokeAll services purpose subject
    let token ← issueToken services purpose subject identity ttl
    return some token
  | none =>
    let subject := accounts.absent identity
    let _ ← issueToken services purpose subject identity ttl
    let _ ← revokeAll services purpose subject
    return none

def requestPasswordReset (identity : String) : Flow U δ (Option (IssuedToken U δ)) :=
  accounts.issueForIdentity services identity .resetPassword accounts.config.resetTtl

/-- The password that an account already has is refused. -/
def refuseReuse : Option String → Except Error Unit
  | none => .ok ()
  | some hash => do
    let same ← services.verifyNew hash
    refuseIf (same = true)
      (.passwordPolicy "reused" "this is the password you already had; choose a different one")

/-- What a reset does beside the token: the new password is set, and every session is ended. -/
def recover (subject : U) : Except Error Id := do
  let _ ← accounts.decodeSubject subject
  let user ← orInvalid (← services.findById)
  services.policy
  if accounts.config.refusePasswordReuse then refuseReuse services (← services.passwordHash)
  services.hash
  services.setPasswordHash
  services.bumpEpoch
  let _ ← services.deleteForUser
  return user

/-- Redeem a reset token and set a new password. -/
def resetPassword (digest : δ) : Flow U δ (U × Id) := do
  let claim ← settle (orInvalid (← consumeToken services ⟨.resetPassword, digest⟩))
  let user ← settle (accounts.recover services claim.subject)
  return (claim.subject, user)

/-- Whether the current password is right; an account without one costs a verification too. -/
def checkCurrent : Option String → Except Error Bool
  | some hash => services.verify hash
  | none => do
    services.dummyVerify
    return false

/-- Change a signed-in user's password, given the current one. -/
def changePassword (id : Id) : Except Error ℕ := do
  let stored ← services.passwordHash
  let ok ← checkCurrent services stored
  refuseIf (ok = false) .invalidCredentials
  services.policy
  if accounts.config.refusePasswordReuse then refuseReuse services stored
  services.hash
  services.setPasswordHash
  services.bumpEpoch
  if accounts.config.revokeSessionsOnPasswordChange then do
    let _ ← accounts.encodeSubject id
    services.deleteForUser
  else return 0

/-- Begin a change of address: mint a token for the new one. -/
def requestEmailChange (id : Id) (currentIdentity newIdentity : String) :
    Flow U δ (EmailChange U δ) := do
  let newIdentity := accounts.normalise newIdentity
  settle (refuseIf (newIdentity = accounts.normalise currentIdentity)
    (.ceremony "email_change" "the new address is the one already on the account"))
  let holder ← settle services.findByIdentity
  settle (refuseIf (holder.isSome = true)
    (.ceremony "email_change" "that address is already in use"))
  let subject ← settle (accounts.encodeSubject id)
  let _ ← revokeAll services .changeEmail subject
  let confirmation ←
    issueToken services .changeEmail subject newIdentity accounts.config.emailChangeTtl
  return { confirmation := confirmation, notifyPrevious := accounts.normalise currentIdentity }

/-- What a change of address does beside the token. -/
def move (subject : U) : Except Error Id := do
  let _ ← accounts.decodeSubject subject
  let user ← orInvalid (← services.findById)
  let holder ← services.findByIdentity
  refuseIf (holder.isSome = true) (.ceremony "email_change"
    "that address was registered while the confirmation was outstanding")
  services.setIdentity
  services.markVerified
  return user

/-- Redeem a change-of-address token. -/
def confirmEmailChange (digest : δ) : Flow U δ (U × Id) := do
  let claim ← settle (orInvalid (← consumeToken services ⟨.changeEmail, digest⟩))
  let user ← settle (accounts.move services claim.subject)
  return (claim.subject, user)

end

end AccountFlows

/-! ### What the commands do -/

section

open Stateful

variable {Id U δ α β : Type} [DecidableEq U] [DecidableEq δ] {services : AccountServices Id δ}
  {command : TokenCommand δ} {kv kv' : TokenKv U δ} {Q : TokenKv U δ → Prop} {b : β}
  {key : TokenKey δ} {claim : TokenClaim U}

omit [DecidableEq U] [DecidableEq δ] in
lemma leaves_write_bind {change : TokenKv U δ → TokenKv U δ} {f : Unit → Flow U δ β} (hfail : Q kv)
    (hgo : services.command command = .ok () → Leaves (f ()) (change kv) Q) :
    Leaves (write services command change >>= f) kv Q := by
  rw [write, bind_assoc]
  refine leaves_settle_bind hfail fun _ h => ?_
  rw [Leaves, run_modify_bind]
  exact hgo h

omit [DecidableEq U] [DecidableEq δ] in
lemma leaves_look_bind {read : TokenKv U δ → α} {f : α → Flow U δ β} (hfail : Q kv)
    (hgo : services.command command = .ok () → Leaves (f (read kv)) kv Q) :
    Leaves (look services command read >>= f) kv Q := by
  rw [look, bind_assoc]
  refine leaves_settle_bind hfail fun _ h => ?_
  rw [Leaves, bind_assoc, run_get_bind]
  exact hgo h

omit [DecidableEq U] [DecidableEq δ] in
lemma yields_write_bind {change : TokenKv U δ → TokenKv U δ} {f : Unit → Flow U δ β} :
    Yields (write services command change >>= f) kv b kv' ↔
      services.command command = .ok () ∧ Yields (f ()) (change kv) b kv' := by
  rw [write, bind_assoc, yields_settle_bind]
  refine ⟨fun ⟨_, h, hrest⟩ => ⟨h, yields_modify_bind.1 hrest⟩, fun ⟨h, hrest⟩ => ⟨(), h, ?_⟩⟩
  exact yields_modify_bind.2 hrest

omit [DecidableEq U] [DecidableEq δ] in
lemma yields_look_bind {read : TokenKv U δ → α} {f : α → Flow U δ β} :
    Yields (look services command read >>= f) kv b kv' ↔
      services.command command = .ok () ∧ Yields (f (read kv)) kv b kv' := by
  rw [look, bind_assoc, yields_settle_bind]
  refine ⟨fun ⟨_, h, hrest⟩ => ⟨h, ?_⟩, fun ⟨h, hrest⟩ => ⟨(), h, ?_⟩⟩
  · rw [bind_assoc, yields_get_bind] at hrest
    exact hrest
  · rw [bind_assoc, yields_get_bind]
    exact hrest

omit [DecidableEq U] [DecidableEq δ] in
lemma leaves_write {change : TokenKv U δ → TokenKv U δ} (hfail : Q kv)
    (hdone : services.command command = .ok () → Q (change kv)) :
    Leaves (write services command change) kv Q :=
  leaves_settle_bind hfail fun _ h => hdone h

omit [DecidableEq U] [DecidableEq δ] in
lemma yields_write {change : TokenKv U δ → TokenKv U δ} :
    Yields (write services command change) kv () kv' ↔
      services.command command = .ok () ∧ change kv = kv' := by
  have h : Yields (write services command change >>= pure) kv () kv' ↔ _ := yields_write_bind
  rw [bind_pure, yields_pure] at h
  exact h.trans (and_congr_right fun _ => and_iff_right rfl)

/-- A token that is issued is stored under its key, and named in its index. -/
lemma yields_issue {purpose : TokenPurpose} {subject : U} {destination : String} {ttl : ℕ}
    {token : IssuedToken U δ} :
    Yields (issueToken services purpose subject destination ttl) kv token kv' ↔
      ∃ digest, services.generate = .ok digest ∧ services.command .setClaim = .ok () ∧
        services.command .readIndex = .ok () ∧ services.command .pushIndex = .ok () ∧
        token = (⟨purpose, digest⟩,
          ⟨subject, destination, services.now, expiryOf services.now ttl⟩) ∧
        kv' = (kv.setClaim token.1 token.2 (services.now + ttl)).setIndex ⟨purpose, subject⟩
          (((kv.index.get services.now ⟨purpose, subject⟩).getD []) ++ [token.1])
          (services.now + ttl) := by
  rw [issueToken, yields_settle_bind]
  refine exists_congr fun digest => and_congr_right fun _ => ?_
  rw [yields_write_bind, yields_look_bind, yields_write_bind, yields_pure]
  refine and_congr_right fun _ => and_congr_right fun _ => and_congr_right fun _ => ?_
  constructor
  · rintro ⟨rfl, rfl⟩
    exact ⟨rfl, rfl⟩
  · rintro ⟨rfl, rfl⟩
    exact ⟨rfl, rfl⟩

lemma yields_retain : Yields (retain services key claim) kv () kv' ↔
    services.command .lookIndex = .ok () ∧
      match kv.index.get services.now (indexFor key claim) with
      | none      => kv = kv'
      | some held => services.command .retainIndex = .ok () ∧
          kv.setIndex (indexFor key claim) (held.filter fun entry => entry ≠ key)
            (services.now + TokenCall.retainTtl) = kv' := by
  rw [retain, yields_look_bind]
  refine and_congr_right fun _ => ?_
  cases kv.index.get services.now (indexFor key claim) with
  | none => simp [yields_pure]
  | some held =>
    exact yields_write

lemma yields_consume : Yields (consumeToken services key) kv (some claim) kv' ↔
    services.command .getClaim = .ok () ∧ kv.claims.get services.now key = some claim ∧
      services.command .deleteClaim = .ok () ∧ services.now < claim.expiresAt ∧
      Yields (retain services key claim) (kv.deleteClaim key) () kv' := by
  rw [consumeToken, yields_look_bind]
  refine and_congr_right fun _ => ?_
  cases hclaim : kv.claims.get services.now key with
  | none => simp [yields_pure]
  | some claim' =>
    show Yields (write services .deleteClaim _ >>= fun _ => retain services key claim' >>= _)
      _ _ _ ↔ _
    rw [yields_write_bind, yields_bind, Option.some.injEq]
    constructor
    · rintro ⟨hdelete, _, _, hretain, hreturn⟩
      obtain ⟨hexpires, rfl⟩ := yields_pure.1 hreturn
      split_ifs at hexpires with hle
      obtain rfl := Option.some.inj hexpires
      exact ⟨rfl, hdelete, Nat.lt_of_not_le hle, hretain⟩
    · rintro ⟨rfl, hdelete, hlt, hretain⟩
      exact ⟨hdelete, (), kv', hretain, yields_pure.2 ⟨if_neg (Nat.not_le_of_lt hlt), rfl⟩⟩

/-- A token that was used is gone. -/
lemma claims_of_consume (h : Yields (consumeToken services key) kv (some claim) kv') :
    kv'.claims = kv.claims.delete key := by
  obtain ⟨-, -, -, -, hretain⟩ := yields_consume.1 h
  obtain ⟨-, hretain⟩ := yields_retain.1 hretain
  split at hretain
  · exact hretain ▸ rfl
  · exact hretain.2 ▸ rfl

lemma orInvalid_eq_ok {α : Type} {o : Option α} {a : α} : orInvalid o = .ok a ↔ o = some a := by
  cases o <;> simp [orInvalid]

lemma exists_retain (key : TokenKey δ) (claim : TokenClaim U) (kv : TokenKv U δ)
    (hlook : services.command .lookIndex = .ok ())
    (hretain : kv.index.get services.now (indexFor key claim) ≠ none →
      services.command .retainIndex = .ok ()) :
    ∃ kv', Yields (retain services key claim) kv () kv' := by
  cases hheld : kv.index.get services.now (indexFor key claim) with
  | none =>
    refine ⟨kv, yields_retain.2 ⟨hlook, ?_⟩⟩
    rw [hheld]
  | some held =>
    refine ⟨kv.setIndex (indexFor key claim) (held.filter fun entry => entry ≠ key)
      (services.now + TokenCall.retainTtl), yields_retain.2 ⟨hlook, ?_⟩⟩
    rw [hheld]
    exact ⟨hretain (by simp [hheld]), rfl⟩

/-! ### Calls that run to their end -/

/-- A call of the token store that runs to its end at one instant. -/
inductive TokenCall.Ends (now : ℕ) (generated : δ) :
    TokenCall U δ → TokenKv U δ → TokenResult U δ → TokenKv U δ → Prop
  | last {call : TokenCall U δ} {kv kv' : TokenKv U δ} {result : TokenResult U δ} :
    call.advance now generated kv = (.inr result, kv') → Ends now generated call kv result kv'
  | next {call call' : TokenCall U δ} {kv kv' kv'' : TokenKv U δ} {result : TokenResult U δ} :
    call.advance now generated kv = (.inl call', kv') →
      Ends now generated call' kv' result kv'' → Ends now generated call kv result kv''

lemma ends_of_issue {purpose : TokenPurpose} {subject : U} {destination : String} {ttl : ℕ}
    {token : IssuedToken U δ}
    (h : Yields (issueToken services purpose subject destination ttl) kv token kv') :
    TokenCall.Ends services.now token.1.digest (.generate purpose subject destination ttl) kv
      (.issued token.1 token.2) kv' := by
  obtain ⟨digest, -, -, -, -, rfl, rfl⟩ := yields_issue.1 h
  exact .next rfl (.next rfl (.next rfl (.next rfl (.last rfl))))

lemma ends_of_consume {found : Option (TokenClaim U)} (generated : δ)
    (h : Yields (consumeToken services key) kv found kv') :
    TokenCall.Ends services.now generated (.getClaim key) kv (.consumed key found) kv' := by
  obtain ⟨-, h⟩ := yields_look_bind.1 h
  cases hclaim : kv.claims.get services.now key with
  | none =>
    rw [hclaim] at h
    obtain ⟨rfl, rfl⟩ := yields_pure.1 h
    exact .last (by simp [TokenCall.advance, hclaim])
  | some claim =>
    rw [hclaim] at h
    obtain ⟨-, h⟩ := yields_write_bind.1 h
    obtain ⟨_, kv₁, hretain, hpure⟩ := yields_bind.1 h
    obtain ⟨rfl, rfl⟩ := yields_pure.1 hpure
    have hget : (TokenCall.getClaim key).advance services.now generated kv =
        (.inl (.deleteClaim key claim), kv) := by simp [TokenCall.advance, hclaim]
    have hcheck : (TokenCall.checkExpiry key claim).advance services.now generated kv₁ =
        (.inr (.consumed key (if claim.expiresAt ≤ services.now then none else some claim)),
          kv₁) := by
      rw [TokenCall.advance]
      split_ifs <;> rfl
    refine .next hget (.next rfl ?_)
    obtain ⟨-, hretain⟩ := yields_retain.1 hretain
    cases hheld : (kv.deleteClaim key).index.get services.now (indexFor key claim) with
    | none =>
      rw [hheld] at hretain
      have hlook : (TokenCall.lookIndex key claim).advance services.now generated
          (kv.deleteClaim key) = (.inl (.checkExpiry key claim), kv.deleteClaim key) := by
        simp [TokenCall.advance, hheld]
      exact .next (hretain ▸ hlook) (.last hcheck)
    | some held =>
      rw [hheld] at hretain
      have hlook : (TokenCall.lookIndex key claim).advance services.now generated
          (kv.deleteClaim key) = (.inl (.retainIndex key claim held), kv.deleteClaim key) := by
        simp [TokenCall.advance, hheld]
      refine .next hlook (.next ?_ (.last hcheck))
      rw [← hretain.2]
      rfl

lemma ends_of_deleteAll (index : IndexKey U) {held : List (TokenKey δ)} {count : ℕ} (revoked : ℕ)
    (generated : δ) (h : Yields (deleteAll services held) kv count kv') :
    TokenCall.Ends services.now generated (.deleteHeld index held revoked) kv
      (.revoked (revoked + count)) (kv'.deleteIndex index) := by
  induction held generalizing kv count revoked with
  | nil =>
    obtain ⟨rfl, rfl⟩ := yields_pure.1 h
    exact .last rfl
  | cons key held ih =>
    obtain ⟨-, h⟩ := yields_look_bind.1 h
    rw [yields_modify_bind, yields_bind] at h
    obtain ⟨rest, _, hrest, hpure⟩ := h
    obtain ⟨rfl, rfl⟩ := yields_pure.1 hpure
    refine .next rfl ?_
    have hcount :
        (if (kv.claims.get services.now key).isSome then revoked + 1 else revoked) + rest =
        revoked + (rest + (kv.claims.get services.now key).isSome.toNat) := by
      cases (kv.claims.get services.now key).isSome
      · rfl
      · exact (Nat.add_right_comm revoked 1 rest).trans (Nat.add_assoc revoked rest 1)
    rw [← hcount]
    exact ih _ hrest

lemma ends_of_revokeAll {purpose : TokenPurpose} {subject : U} {count : ℕ} (generated : δ)
    (h : Yields (revokeAll services purpose subject) kv count kv') :
    TokenCall.Ends services.now generated (.getHeld ⟨purpose, subject⟩) kv
      (.revoked count) kv' := by
  obtain ⟨-, h⟩ := yields_look_bind.1 h
  cases hheld : kv.index.get services.now ⟨purpose, subject⟩ with
  | none =>
    rw [hheld] at h
    obtain ⟨rfl, rfl⟩ := yields_pure.1 h
    exact .last (by simp [TokenCall.advance, hheld])
  | some held =>
    rw [hheld] at h
    obtain ⟨_, kv₁, hdelete, h⟩ := yields_bind.1 h
    obtain ⟨-, h⟩ := yields_write_bind.1 h
    obtain ⟨rfl, rfl⟩ := yields_pure.1 h
    have hget : (TokenCall.getHeld (⟨purpose, subject⟩ : IndexKey U)).advance services.now generated
        kv = (.inl (.deleteHeld ⟨purpose, subject⟩ held 0), kv) := by
      simp [TokenCall.advance, hheld]
    have hends := ends_of_deleteAll ⟨purpose, subject⟩ 0 generated hdelete
    rw [Nat.zero_add] at hends
    exact .next hget hends

end

end Moso.Auth
