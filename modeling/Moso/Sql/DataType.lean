import Moso.Foundation.Text

/-!
# Identifiers and column types

An identifier is text of a limited number of bytes that needs no escaping between quotes in any
dialect; a type that the user defines is named by one, with or without a schema.
-/

namespace Moso.Sql

/-- Whether a character may stand in an identifier: no control character, no double quote, no
backtick and no backslash. -/
def charIsAllowed (c : Char) : Bool :=
  !(c.toNat < 0x20 || c.toNat = 0x7f || c.toNat = 0x22 || c.toNat = 0x60 || c.toNat = 0x5c)

/-- How many bytes an identifier has at most. -/
def maxLen : ℕ := 63

/-- Why a string could not become an identifier. -/
inductive IdentError where
  | empty
  | tooLong (identifier : List Char) (len max : ℕ)
  | forbiddenByte (identifier : List Char) (byte position : ℕ)
  deriving DecidableEq

/-- `Ident::validate`. -/
def validate (raw : List Char) : Except IdentError Unit :=
  if raw = [] then .error .empty
  else if maxLen < (String.ofList raw).utf8ByteSize then
    .error (.tooLong raw (String.ofList raw).utf8ByteSize maxLen)
  else match raw.find? fun c => !charIsAllowed c with
    -- the first byte of a character that is not allowed is the character
    | some c => .error (.forbiddenByte raw c.toNat
        (String.ofList (raw.takeWhile charIsAllowed)).utf8ByteSize)
    | none   => .ok ()

/-- A validated identifier. -/
structure Ident where
  chars : List Char
  valid : validate chars = .ok ()
  deriving DecidableEq

namespace Ident

/-- `Ident::new`. -/
def mk' (raw : List Char) : Except IdentError Ident :=
  match h : validate raw with
  | .ok () => .ok ⟨raw, h⟩
  | .error e => .error e

variable {ident : Ident}

lemma mk'_chars (ident : Ident) : mk' ident.chars = .ok ident := by
  unfold mk'
  split
  · rfl
  · next e h => rw [ident.valid] at h; cases h

lemma chars_of_mk' {raw : List Char} (h : mk' raw = .ok ident) : ident.chars = raw := by
  unfold mk' at h
  split at h
  · exact (Except.ok.inj h) ▸ rfl
  · cases h

lemma chars_ne_nil (ident : Ident) : ident.chars ≠ [] := by
  intro h
  have hvalid := ident.valid
  rw [validate, if_pos h] at hvalid
  cases hvalid

end Ident

/-- A type's name, schema-qualified when it has a schema. -/
structure TypeRef where
  schema : Option Ident
  name : Ident
  deriving DecidableEq

/-- The type of a column. -/
inductive DataType where
  | boolean
  | smallInt
  | integer
  | bigInt
  | smallSerial
  | serial
  | bigSerial
  | real
  | doublePrecision
  | numeric (precision scale : Option UInt8)
  | text
  | varChar (length : Option UInt32)
  | char (length : Option UInt32)
  | bytea
  | uuid
  | json
  | jsonB
  | date
  | time (withTimeZone : Bool)
  | timestamp (withTimeZone : Bool)
  | interval
  | inet
  | cidr
  | macAddr
  | tsVector
  | tsQuery
  | array (element : DataType)
  | enum (name : TypeRef)
  | custom (name : TypeRef)
  deriving DecidableEq

end Moso.Sql
