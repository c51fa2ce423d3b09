import Moso.Foundation.Json
import Moso.Foundation.Word
import Moso.Sql.DataType

/-!
# The spelling of column types

A column's type is one string in a schema's snapshot. Text is a list of characters.
-/

namespace Moso.Migrate

open Decimal (isWhitespace trim)
open Sql (DataType Ident TypeRef IdentError)
open Text (trimEnd splitOnce)

/-- The name of a user-defined type. -/
def spellTypeRef (name : TypeRef) : List Char :=
  match name.schema with
  | none => name.name.chars
  | some schema => schema.chars ++ '.' :: name.name.chars

/-- The canonical spelling of a type, as it appears in a snapshot. -/
def spell : DataType → List Char
  | .boolean => "boolean".toList
  | .smallInt => "smallint".toList
  | .integer => "integer".toList
  | .bigInt => "bigint".toList
  | .smallSerial => "smallserial".toList
  | .serial => "serial".toList
  | .bigSerial => "bigserial".toList
  | .real => "real".toList
  | .doublePrecision => "double precision".toList
  | .numeric (some precision) (some scale) =>
    "numeric(".toList ++ (toString precision.toNat).toList ++ ',' ::
      ((toString scale.toNat).toList ++ [')'])
  | .numeric (some precision) none =>
    "numeric(".toList ++ ((toString precision.toNat).toList ++ [')'])
  | .numeric none _ => "numeric".toList
  | .text => "text".toList
  | .varChar none => "varchar".toList
  | .varChar (some length) => "varchar(".toList ++ ((toString length.toNat).toList ++ [')'])
  | .char none => "char".toList
  | .char (some length) => "char(".toList ++ ((toString length.toNat).toList ++ [')'])
  | .bytea => "bytea".toList
  | .uuid => "uuid".toList
  | .json => "json".toList
  | .jsonB => "jsonb".toList
  | .date => "date".toList
  | .time true => "timetz".toList
  | .time false => "time".toList
  | .timestamp true => "timestamptz".toList
  | .timestamp false => "timestamp".toList
  | .interval => "interval".toList
  | .inet => "inet".toList
  | .cidr => "cidr".toList
  | .macAddr => "macaddr".toList
  | .tsVector => "tsvector".toList
  | .tsQuery => "tsquery".toList
  | .array element => spell element ++ "[]".toList
  | .enum name => "enum:".toList ++ spellTypeRef name
  | .custom name => "custom:".toList ++ spellTypeRef name

/-- Why a spelling is no type. -/
inductive SpellingError where
  /-- `Error::Snapshot`. -/
  | snapshot (path reason : String)
  | ident (error : IdentError)
  deriving DecidableEq

def mkIdent (raw : List Char) : Except SpellingError Ident :=
  (Ident.mk' raw).mapError .ident

def parseTypeRef (raw : List Char) : Except SpellingError TypeRef :=
  match splitOnce '.' raw with
  | some (schema, name) => do
    let schema ← mkIdent schema
    let name ← mkIdent name
    return ⟨some schema, name⟩
  | none => do
    let name ← mkIdent raw
    return ⟨none, name⟩

/-- What `str::strip_suffix` leaves. -/
def stripSuffix (last cs : List Char) : Option (List Char) :=
  if last <:+ cs then some (cs.take (cs.length - last.length)) else none

/-- A spelling without `[]` at its end. -/
def parseElement (spelling : List Char) : Except SpellingError DataType :=
  match spelling.dropPrefix? "enum:".toList with
  | some name => (parseTypeRef name).map .enum
  | none =>
  match spelling.dropPrefix? "custom:".toList with
  | some name => (parseTypeRef name).map .custom
  | none =>
    let (head, argument) := match splitOnce '(' spelling with
      | some (head, rest) => (trim head, some (trim ((trimEnd rest).rdropWhile (· = ')'))))
      | none => (spelling, none)
    let numbers : List (List Char) := match argument with
      | some argument => (Json.split ',' argument).map trim
      | none => []
    let length : Option UInt32 := (numbers[0]?.bind (Decimal.parse u32Max)).map UInt32.ofNat
    let digits (index : ℕ) : Option UInt8 :=
      (numbers[index]?.bind (Decimal.parse 255)).map UInt8.ofNat
    match String.ofList head with
    | "boolean" | "bool" => .ok .boolean
    | "smallint" | "int2" => .ok .smallInt
    | "integer" | "int" | "int4" => .ok .integer
    | "bigint" | "int8" => .ok .bigInt
    | "smallserial" => .ok .smallSerial
    | "serial" => .ok .serial
    | "bigserial" => .ok .bigSerial
    | "real" | "float4" => .ok .real
    | "double precision" | "float8" => .ok .doublePrecision
    | "numeric" | "decimal" => .ok (.numeric (digits 0) (digits 1))
    | "text" => .ok .text
    | "varchar" | "character varying" => .ok (.varChar length)
    | "char" | "character" | "bpchar" => .ok (.char length)
    | "bytea" | "blob" => .ok .bytea
    | "uuid" => .ok .uuid
    | "json" => .ok .json
    | "jsonb" => .ok .jsonB
    | "date" => .ok .date
    | "time" => .ok (.time false)
    | "timetz" | "time with time zone" => .ok (.time true)
    | "timestamp" | "timestamp without time zone" => .ok (.timestamp false)
    | "timestamptz" | "timestamp with time zone" => .ok (.timestamp true)
    | "interval" => .ok .interval
    | "inet" => .ok .inet
    | "cidr" => .ok .cidr
    | "macaddr" => .ok .macAddr
    | "tsvector" => .ok .tsVector
    | "tsquery" => .ok .tsQuery
    | _ => .error (.snapshot "migrations/.schema.json" (s!"`{String.ofList spelling}` is not a type this " ++
        "version understands; if it is a database type Moso has no name for, spell it " ++
        s!"`custom:{String.ofList spelling}`"))

lemma eq_append_of_stripSuffix {last cs rest : List Char} (h : stripSuffix last cs = some rest) :
    cs = rest ++ last := by
  unfold stripSuffix at h
  split_ifs at h with hlast
  obtain ⟨start, rfl⟩ := hlast
  obtain rfl := Option.some.inj h
  simp

/-- Parse a canonical spelling back. -/
def parse (spelling : List Char) : Except SpellingError DataType :=
  match _h : stripSuffix "[]".toList (trim spelling) with
  | some element => (parse element).map .array
  | none => parseElement (trim spelling)
termination_by spelling.length
decreasing_by
  have hlength := congrArg List.length (eq_append_of_stripSuffix _h)
  have := Text.length_trim_le spelling
  rw [List.length_append] at hlength
  have : "[]".toList.length = 2 := rfl
  omega

end Moso.Migrate
