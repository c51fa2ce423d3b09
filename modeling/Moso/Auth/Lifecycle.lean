import Moso.Foundation.Lapsing
import Moso.Foundation.Machine
import Mathlib.Logic.Function.Basic

/-!
# Lifecycle tokens in a key-value store

A token for one purpose and one subject is a claim under the token's digest, and every purpose and
subject has an index of the digests of its outstanding tokens. `issue`, `consume` and `revoke_all`
are sequences of single commands to the store, and any number of them interleave. Tokens are taken
by their digests, and times are in milliseconds.
-/

namespace Moso.Auth

variable {U δ : Type}

inductive TokenPurpose where
  | verifyEmail
  | resetPassword
  | changeEmail
  deriving DecidableEq

/-- The key a token is stored under: its purpose and its digest. -/
structure TokenKey (δ : Type) where
  purpose : TokenPurpose
  digest : δ
  deriving DecidableEq

/-- What a stored token stands for. -/
structure TokenClaim (U : Type) where
  subject : U
  destination : String
  issuedAt : ℕ
  expiresAt : ℕ

/-- The key a subject's index is stored under. -/
structure IndexKey (U : Type) where
  purpose : TokenPurpose
  subject : U
  deriving DecidableEq

def indexFor (key : TokenKey δ) (claim : TokenClaim U) : IndexKey U := ⟨key.purpose, claim.subject⟩

/-- The longest duration, in milliseconds; what is longer is taken for an hour. -/
def maxDuration : ℕ := 9223372036854775807

def expiryOf (now ttl : ℕ) : ℕ := now + if ttl ≤ maxDuration then ttl else 3600000

/-- What a call does next. The calls are `issue`, `consume` and `revoke_all`, in this order. -/
inductive TokenCall (U δ : Type) where
  | generate (purpose : TokenPurpose) (subject : U) (destination : String) (ttl : ℕ)
  | stamp (key : TokenKey δ) (subject : U) (destination : String) (ttl : ℕ)
  | setClaim (key : TokenKey δ) (claim : TokenClaim U) (ttl : ℕ)
  | readIndex (key : TokenKey δ) (claim : TokenClaim U) (ttl : ℕ)
  | pushIndex (key : TokenKey δ) (claim : TokenClaim U) (ttl : ℕ) (held : List (TokenKey δ))
  | getClaim (key : TokenKey δ)
  | deleteClaim (key : TokenKey δ) (claim : TokenClaim U)
  | lookIndex (key : TokenKey δ) (claim : TokenClaim U)
  | retainIndex (key : TokenKey δ) (claim : TokenClaim U) (held : List (TokenKey δ))
  | checkExpiry (key : TokenKey δ) (claim : TokenClaim U)
  | getHeld (index : IndexKey U)
  | deleteHeld (index : IndexKey U) (held : List (TokenKey δ)) (revoked : ℕ)

/-- What a call returns. -/
inductive TokenResult (U δ : Type) where
  | issued (key : TokenKey δ) (claim : TokenClaim U)
  | consumed (key : TokenKey δ) (claim : Option (TokenClaim U))
  | revoked (count : ℕ)

/-- What the key-value store holds. -/
structure TokenKv (U δ : Type) where
  claims : Lapsing (TokenKey δ) (TokenClaim U)
  index : Lapsing (IndexKey U) (List (TokenKey δ))

namespace TokenKv

def empty : TokenKv U δ := ⟨Lapsing.empty, Lapsing.empty⟩

variable [DecidableEq U] [DecidableEq δ]

def setClaim (kv : TokenKv U δ) (key : TokenKey δ) (claim : TokenClaim U) (end_ : ℕ) :
    TokenKv U δ :=
  { kv with claims := kv.claims.set key claim (some end_) }

def deleteClaim (kv : TokenKv U δ) (key : TokenKey δ) : TokenKv U δ :=
  { kv with claims := kv.claims.delete key }

def setIndex (kv : TokenKv U δ) (index : IndexKey U) (held : List (TokenKey δ)) (end_ : ℕ) :
    TokenKv U δ :=
  { kv with index := kv.index.set index held (some end_) }

def deleteIndex (kv : TokenKv U δ) (index : IndexKey U) : TokenKv U δ :=
  { kv with index := kv.index.delete index }

end TokenKv

namespace TokenCall

variable [DecidableEq U] [DecidableEq δ]

/-- An hour, which `consume` gives to the index it writes back. -/
def retainTtl : ℕ := 3600 * 1000

/-- Carry out the next command of a call: what the call does after it, or what it returns, and
the store. `generated` is the token that `issue` makes. -/
def advance (now : ℕ) (generated : δ) (kv : TokenKv U δ) :
    TokenCall U δ → (TokenCall U δ ⊕ TokenResult U δ) × TokenKv U δ
  | generate purpose subject destination ttl =>
    (.inl (stamp ⟨purpose, generated⟩ subject destination ttl), kv)
  | stamp key subject destination ttl =>
    (.inl (setClaim key ⟨subject, destination, now, expiryOf now ttl⟩ ttl), kv)
  | setClaim key claim ttl =>
    (.inl (readIndex key claim ttl), kv.setClaim key claim (now + ttl))
  | readIndex key claim ttl =>
    (.inl (pushIndex key claim ttl ((kv.index.get now (indexFor key claim)).getD [])), kv)
  | pushIndex key claim ttl held =>
    (.inr (.issued key claim), kv.setIndex (indexFor key claim) (held ++ [key]) (now + ttl))
  | getClaim key =>
    match kv.claims.get now key with
    | none       => (.inr (.consumed key none), kv)
    | some claim => (.inl (deleteClaim key claim), kv)
  | deleteClaim key claim => (.inl (lookIndex key claim), kv.deleteClaim key)
  | lookIndex key claim =>
    match kv.index.get now (indexFor key claim) with
    | none      => (.inl (checkExpiry key claim), kv)
    | some held => (.inl (retainIndex key claim held), kv)
  | retainIndex key claim held =>
    (.inl (checkExpiry key claim),
      kv.setIndex (indexFor key claim) (held.filter fun entry => entry ≠ key) (now + retainTtl))
  | checkExpiry key claim =>
    if claim.expiresAt ≤ now then (.inr (.consumed key none), kv)
    else (.inr (.consumed key (some claim)), kv)
  | getHeld index =>
    match kv.index.get now index with
    | none      => (.inr (.revoked 0), kv)
    | some held => (.inl (deleteHeld index held 0), kv)
  | deleteHeld index [] revoked => (.inr (.revoked revoked), kv.deleteIndex index)
  | deleteHeld index (key :: held) revoked =>
    let revoked := if (kv.claims.get now key).isSome then revoked + 1 else revoked
    (.inl (deleteHeld index held revoked), kv.deleteClaim key)

end TokenCall

/-! ### Calls side by side -/

/-- A call in progress, and what is kept of it: the tokens whose issue had returned when a
revocation was called, and whether a `consume` was called when its token had been revoked. -/
structure OpenCall (U δ : Type) where
  call : TokenCall U δ
  targets : List (TokenKey δ)
  late : Bool

/-- A `consume` that returned a claim, and when it checked its expiry. -/
structure Redemption (U δ : Type) where
  key : TokenKey δ
  claim : TokenClaim U
  checkedAt : ℕ
  late : Bool

/-- Calls that share a store. Kept beside it are the numbers of the calls so far, the tokens that
were generated, those that were stored, those whose issue has returned, those that were redeemed,
and those that were revoked by a call that has returned. -/
structure TokenRun (U δ : Type) where
  kv : TokenKv U δ
  now : ℕ
  calls : ℕ → Option (OpenCall U δ)
  begun : List ℕ
  generated : List δ
  stored : List (TokenKey δ × TokenClaim U)
  returned : List (TokenKey δ × TokenClaim U)
  redeemed : List (Redemption U δ)
  revoked : List (TokenKey δ)

/-- What happens next: time passes, somebody calls, or a call goes on with its next command. A
generated token is a new one. -/
inductive TokenEvent (U δ : Type) where
  | wait (millis : ℕ)
  | issue (i : ℕ) (purpose : TokenPurpose) (subject : U) (destination : String) (ttl : ℕ)
  | consume (i : ℕ) (purpose : TokenPurpose) (digest : δ)
  | revokeAll (i : ℕ) (purpose : TokenPurpose) (subject : U)
  | go (i : ℕ) (generated : δ)

namespace TokenRun

def start : TokenRun U δ where
  kv := TokenKv.empty
  now := 0
  calls := fun _ => none
  begun := []
  generated := []
  stored := []
  returned := []
  redeemed := []
  revoked := []

variable [DecidableEq U] [DecidableEq δ]

/-- The tokens of a purpose and a subject whose issue has returned. -/
def outstanding (s : TokenRun U δ) (index : IndexKey U) : List (TokenKey δ) :=
  (s.returned.filter fun entry => indexFor entry.1 entry.2 = index).map Prod.fst

def begin_ (s : TokenRun U δ) (i : ℕ) (opened : OpenCall U δ) : Option (TokenRun U δ) :=
  match s.calls i with
  | some _ => none
  | none   =>
    some { s with calls := Function.update s.calls i (some opened), begun := i :: s.begun }

/-- What is kept of a command. -/
def note (s : TokenRun U δ) (generated : δ) : TokenCall U δ → TokenRun U δ
  | .generate ..           => { s with generated := generated :: s.generated }
  | .setClaim key claim _  => { s with stored := (key, claim) :: s.stored }
  | _                      => s

/-- What is kept of a call that returns. -/
def conclude (s : TokenRun U δ) (opened : OpenCall U δ) : TokenResult U δ → TokenRun U δ
  | .issued key claim => { s with returned := (key, claim) :: s.returned }
  | .consumed key (some claim) =>
    { s with redeemed := ⟨key, claim, s.now, opened.late⟩ :: s.redeemed }
  | .consumed _ none  => s
  | .revoked _        => { s with revoked := opened.targets ++ s.revoked }

/-- A token that is generated is new. -/
def makesAgain (s : TokenRun U δ) (generated : δ) : TokenCall U δ → Bool
  | .generate .. => decide (generated ∈ s.generated)
  | _            => false

def step (s : TokenRun U δ) : TokenEvent U δ → Option (TokenRun U δ)
  | .wait millis => some { s with now := s.now + millis }
  | .issue i purpose subject destination ttl =>
    s.begin_ i ⟨.generate purpose subject destination ttl, [], false⟩
  | .consume i purpose digest =>
    s.begin_ i ⟨.getClaim ⟨purpose, digest⟩, [], decide (⟨purpose, digest⟩ ∈ s.revoked)⟩
  | .revokeAll i purpose subject =>
    s.begin_ i ⟨.getHeld ⟨purpose, subject⟩, s.outstanding ⟨purpose, subject⟩, false⟩
  | .go i generated =>
    match s.calls i with
    | none => none
    | some opened =>
      if s.makesAgain generated opened.call then none
      else
        let s' := s.note generated opened.call
        match opened.call.advance s.now generated s.kv with
        | (.inl call, kv) =>
          some { s' with
            kv := kv, calls := Function.update s.calls i (some { opened with call := call }) }
        | (.inr result, kv) =>
          some ({ s' with kv := kv, calls := Function.update s.calls i none }.conclude opened
            result)

/-! ### What tokens promise -/

/-- A token is redeemed at most once, for the purpose it was issued for, before its expiry, and by
no call that was made when it had been revoked. -/
def SingleUse (s : TokenRun U δ) : Prop :=
  (s.redeemed.map fun redemption => redemption.key.digest).Nodup ∧
  ∀ redemption ∈ s.redeemed, (redemption.key, redemption.claim) ∈ s.stored ∧
    redemption.checkedAt < redemption.claim.expiresAt ∧ redemption.late = false

end TokenRun

namespace TokenCall

/-- The index that a call reads with its next command. -/
def reads : TokenCall U δ → Option (IndexKey U)
  | readIndex key claim _ | lookIndex key claim => some (indexFor key claim)
  | getHeld index => some index
  | _ => none

/-- The index that a call has read, and has still to write. -/
def holds : TokenCall U δ → Option (IndexKey U)
  | pushIndex key claim _ _ | retainIndex key claim _ => some (indexFor key claim)
  | deleteHeld index _ _ => some index
  | _ => none

variable [DecidableEq δ]

/-- The call has read the claim of a token, and has still to delete it. -/
def deletes (key : TokenKey δ) : TokenCall U δ → Bool
  | deleteClaim key' _ => key' = key
  | _                  => false

/-- The tokens that a call found in an index and writes back, and for how long. -/
def rewrites : TokenCall U δ → Option (List (TokenKey δ) × ℕ)
  | pushIndex _ _ ttl held   => some (held, ttl)
  | retainIndex key _ held => some (held.filter fun entry => entry ≠ key, retainTtl)
  | _ => none

end TokenCall

namespace TokenRun

variable [DecidableEq U] [DecidableEq δ]

/-- The next command of a call comes between two commands of another: it reads a claim that the
other has read and will delete, or an index that the other has read and will write. -/
def cutsIn (s : TokenRun U δ) (call other : TokenCall U δ) : Bool :=
  (match call with
    | .getClaim key => (s.kv.claims.get s.now key).isSome && other.deletes key
    | _             => false) ||
  match call.reads with
  | some index => other.holds = some index
  | none       => false

/-- The next command of a call gives an index an end before that of a token it names. -/
def cutsShort (s : TokenRun U δ) (call : TokenCall U δ) : Bool :=
  match call.rewrites with
  | some (held, ttl) => held.any fun key => (s.kv.claims.get (s.now + ttl) key).isSome
  | none             => false

/-- An event neither cuts in on another call nor cuts an index short. -/
def orderly (s : TokenRun U δ) : TokenEvent U δ → Bool
  | .go i _ =>
    match s.calls i with
    | none        => true
    | some opened =>
      !s.cutsShort opened.call &&
        s.begun.all fun j => (s.calls j).all fun other => !s.cutsIn opened.call other.call
  | _ => true

end TokenRun

end Moso.Auth
