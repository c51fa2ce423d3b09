import Moso.Foundation.Machine
import Moso.Foundation.Parties
import Moso.Foundation.ReadCommitted

/-!
# Refresh families in a table

A refresh token is a row under its digest, and the tokens that come of one sign-in are a family.
An exchange claims a token by a compare-and-set and inserts its successor, and a token that had
been claimed already burns its family; a revocation burns it with one statement. Any number of
these transactions interleave, at PostgreSQL's READ COMMITTED level: a statement works on the rows
that are committed when it starts, takes them one at a time once no other transaction has them
locked, and looks at each of them again before it writes it.

Tokens are taken by their digests, and times are in milliseconds.
-/

namespace Moso.Auth

open ReadCommitted (Work locked visible)

variable {F S δ : Type}

/-- A row of the table. -/
structure RefreshRow (F S δ : Type) where
  tokenHash : δ
  family : F
  subject : S
  issuedAt : ℕ
  expiresAt : ℕ
  used : Bool

/-- A `delete`, and what it is for: a token presented twice, one that has expired, a revocation,
or the sweep. -/
inductive Deletion (F S δ : Type) where
  | reused (family : F)
  | invalid (hash : δ)
  | revokeFamily (family : F)
  | revokeSubject (subject : S)
  | sweep (now : ℕ)

/-- What an exchange, a revocation or a sweep returns. The access token is minted after the
commit. -/
inductive RefreshResult (F S δ : Type) where
  | rotated (hash : δ) (next : RefreshRow F S δ)
  | reuseDetected (family : F)
  | invalid
  | deleted (count : ℕ)

/-- What a transaction does next. -/
inductive RefreshPhase (F S δ : Type) where
  | claim (hash : δ) (now : ℕ)
  | claiming (hash : δ) (now : ℕ)
  | select (hash : δ) (now : ℕ) (claimed : Bool)
  | insert (hash : δ) (row : RefreshRow F S δ) (now : ℕ)
  | delete (deletion : Deletion F S δ)
  | deleting (deletion : Deletion F S δ) (rest : List δ)
  | commit (result : RefreshResult F S δ)

/-- A transaction in progress. Kept beside it are the families that it burns. -/
structure RefreshTx (F S δ : Type) where
  phase : RefreshPhase F S δ
  work : Work δ (RefreshRow F S δ)
  burns : List F

/-- An exchange that has rotated a token, and whether the token's family was burned. -/
structure Rotation (δ : Type) where
  hash : δ
  late : Bool

/-- The table and the transactions in progress. Kept beside them are the numbers of the
transactions so far, the tokens that were minted, the families that were issued, and to whom, the
tokens that were rotated, and the families whose burn has returned. -/
structure RefreshRun (F S δ : Type) where
  rows : List (RefreshRow F S δ)
  txs : ℕ → Option (RefreshTx F S δ)
  begun : List ℕ
  minted : List δ
  issued : List (F × S)
  rotations : List (Rotation δ)
  burned : List F

/-- What happens next: a token is issued, somebody calls, the transaction of a call takes its next
step, gets hold of a row, inserts the token it has minted, commits, or ends without committing. A
token or family that is issued is a new one. -/
inductive RefreshEvent (F S δ : Type) where
  | issue (hash : δ) (family : F) (subject : S) (now expiresAt : ℕ)
  | exchange (i : ℕ) (hash : δ) (now : ℕ)
  | revokeFamily (i : ℕ) (family : F)
  | revokeSubject (i : ℕ) (subject : S)
  | sweep (i : ℕ) (now : ℕ)
  | go (i : ℕ)
  | lock (i : ℕ) (hash : δ)
  | insert (i : ℕ) (fresh : δ) (expiresAt : ℕ)
  | commit (i : ℕ)
  | abort (i : ℕ)

section Statements

variable [DecidableEq F] [DecidableEq S] [DecidableEq δ]

/-- The `where` clause of the compare-and-set. -/
def RefreshRow.claimable (hash : δ) (now : ℕ) (row : RefreshRow F S δ) : Bool :=
  row.tokenHash = hash ∧ row.used = false ∧ now < row.expiresAt

namespace Deletion

/-- The `where` clause of a `delete`. -/
def takes : Deletion F S δ → RefreshRow F S δ → Bool
  | reused family, row => row.family = family
  | invalid hash, row => row.tokenHash = hash
  | revokeFamily family, row => row.family = family
  | revokeSubject subject, row => row.subject = subject
  | sweep now, row => row.expiresAt ≤ now

omit [DecidableEq F] [DecidableEq S] [DecidableEq δ] in
/-- What is returned when the statement has deleted so many rows. -/
def result : Deletion F S δ → ℕ → RefreshResult F S δ
  | reused family, _ => .reuseDetected family
  | invalid _, _ => .invalid
  | _, count => .deleted count

end Deletion

namespace RefreshTx

def seen (tx : RefreshTx F S δ) (rows : List (RefreshRow F S δ)) : List (RefreshRow F S δ) :=
  visible RefreshRow.tokenHash rows tx.work

/-- Start or finish a statement that needs nothing but the table. -/
def advance (rows : List (RefreshRow F S δ)) (tx : RefreshTx F S δ) : Option (RefreshTx F S δ) :=
  match tx.phase with
  | .claim hash now =>
    if (tx.seen rows).any (RefreshRow.claimable hash now) then
      some { tx with phase := .claiming hash now }
    else some { tx with phase := .select hash now false }
  | .select hash now claimed =>
    match (tx.seen rows).find? fun row => row.tokenHash = hash with
    | none => some { tx with phase := .commit .invalid }
    | some row =>
      if claimed then some { tx with phase := .insert hash row now }
      else if row.used then
        some { tx with phase := .delete (.reused row.family), burns := [row.family] }
      else some { tx with phase := .delete (.invalid hash) }
  | .delete deletion =>
    some { tx with
      phase := .deleting deletion (((tx.seen rows).filter deletion.takes).map RefreshRow.tokenHash) }
  | .deleting deletion [] => some { tx with phase := .commit (deletion.result tx.work.length) }
  | _ => none

/-- Get hold of a row that a statement is about to write, and look at it again. -/
def take (rows : List (RefreshRow F S δ)) (hash : δ) (tx : RefreshTx F S δ) :
    Option (RefreshTx F S δ) :=
  match tx.phase with
  | .claiming hash' now =>
    if hash ≠ hash' then none
    else
      match rows.find? (RefreshRow.claimable hash now) with
      | none => some { tx with phase := .select hash now false }
      | some row =>
        some { tx with
          phase := .select hash now true
          work := (hash, some { row with used := true }) :: tx.work }
  | .deleting deletion rest =>
    if hash ∉ rest then none
    else
      let rest := rest.filter fun hash' => hash' ≠ hash
      if rows.any fun row => row.tokenHash = hash ∧ deletion.takes row = true then
        some { tx with phase := .deleting deletion rest, work := (hash, none) :: tx.work }
      else some { tx with phase := .deleting deletion rest }
  | _ => none

end RefreshTx

namespace RefreshRun

omit [DecidableEq F] [DecidableEq S] [DecidableEq δ] in
def start : RefreshRun F S δ where
  rows := []
  txs := fun _ => none
  begun := []
  minted := []
  issued := []
  rotations := []
  burned := []

omit [DecidableEq F] [DecidableEq S] [DecidableEq δ] in
def begin_ (s : RefreshRun F S δ) (i : ℕ) (phase : RefreshPhase F S δ) (burns : List F) :
    Option (RefreshRun F S δ) :=
  match s.txs i with
  | some _ => none
  | none   =>
    some { s with txs := Function.update s.txs i (some ⟨phase, [], burns⟩), begun := i :: s.begun }

/-- A property of some transaction in progress but this one. -/
def anyOther (s : RefreshRun F S δ) (i : ℕ) (p : RefreshTx F S δ → Bool) : Bool :=
  s.begun.any fun j => j ≠ i && (s.txs j).any p

/-- What is kept of a transaction that commits. -/
def conclude (s : RefreshRun F S δ) (tx : RefreshTx F S δ) :
    RefreshResult F S δ → RefreshRun F S δ
  | .rotated hash next =>
    { s with rotations := ⟨hash, decide (next.family ∈ s.burned)⟩ :: s.rotations }
  | _ => { s with burned := tx.burns ++ s.burned }

def step (s : RefreshRun F S δ) : RefreshEvent F S δ → Option (RefreshRun F S δ)
  | .issue hash family subject now expiresAt =>
    if hash ∈ s.minted ∨ family ∈ s.issued.map Prod.fst then none
    else some { s with
      rows := ⟨hash, family, subject, now, expiresAt, false⟩ :: s.rows
      minted := hash :: s.minted
      issued := (family, subject) :: s.issued }
  | .exchange i hash now => s.begin_ i (.claim hash now) []
  | .revokeFamily i family =>
    s.begin_ i (.delete (.revokeFamily family))
      ((s.issued.filter fun entry => entry.1 = family).map Prod.fst)
  | .revokeSubject i subject =>
    s.begin_ i (.delete (.revokeSubject subject))
      ((s.issued.filter fun entry => entry.2 = subject).map Prod.fst)
  | .sweep i now => s.begin_ i (.delete (.sweep now)) []
  | .go i =>
    match s.txs i with
    | none => none
    | some tx =>
      (tx.advance s.rows).map fun tx' => { s with txs := Function.update s.txs i (some tx') }
  | .lock i hash =>
    match s.txs i with
    | none => none
    | some tx =>
      if s.anyOther i fun other => hash ∈ locked other.work then none
      else
        (tx.take s.rows hash).map fun tx' => { s with txs := Function.update s.txs i (some tx') }
  | .insert i fresh expiresAt =>
    match s.txs i with
    | none => none
    | some tx =>
      match tx.phase with
      | .insert hash row now =>
        if fresh ∈ s.minted then none
        else
          let next := ⟨fresh, row.family, row.subject, now, expiresAt, false⟩
          some { s with
            minted := fresh :: s.minted
            txs := Function.update s.txs i (some { tx with
              phase := .commit (.rotated hash next)
              work := (fresh, some next) :: tx.work }) }
      | _ => none
  | .commit i =>
    match s.txs i with
    | none => none
    | some tx =>
      match tx.phase with
      | .commit result =>
        some (({ s with
          rows := tx.seen s.rows
          txs := Function.update s.txs i none } : RefreshRun F S δ).conclude tx result)
      | _ => none
  | .abort i =>
    match s.txs i with
    | none => none
    | some _ => some { s with txs := Function.update s.txs i none }

/-! ### What burning promises -/

/-- A token is rotated at most once, and not when its family's burn has returned. -/
def BurnsWhole (s : RefreshRun F S δ) : Prop :=
  (s.rotations.map Rotation.hash).Nodup ∧ ∀ rotation ∈ s.rotations, rotation.late = false

/-- The transaction has claimed or inserted a token of one of the families. -/
def wrote (families : List F) (tx : RefreshTx F S δ) : Bool :=
  tx.work.any fun entry => entry.2.any fun row => row.family ∈ families

/-- The transaction is deleting, and burns one of the families. -/
def burning (family : F) (tx : RefreshTx F S δ) : Bool :=
  match tx.phase with
  | .deleting .. => family ∈ tx.burns
  | _            => false

/-- No burn starts on its `delete` while another transaction has claimed a token of a family it
burns, and no token is claimed of a family that another transaction is deleting. -/
def keepsOut (s : RefreshRun F S δ) : RefreshEvent F S δ → Bool
  | .go i =>
    match s.txs i with
    | none => true
    | some tx =>
      match tx.phase with
      | .delete _ => !s.anyOther i (wrote tx.burns)
      | _         => true
  | .lock i hash =>
    match s.txs i with
    | none => true
    | some tx =>
      match tx.phase with
      | .claiming _ now =>
        match s.rows.find? (RefreshRow.claimable hash now) with
        | none => true
        | some row => !s.anyOther i (burning row.family)
      | _ => true
  | _ => true

end RefreshRun

end Statements

end Moso.Auth
