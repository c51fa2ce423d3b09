import Moso.Foundation.Template
import Moso.Orm.Value
import Moso.Sql.DataType

/-!
# The names of a tenant's storage

A tenant is identified by a value. From the text of the value come the key under which its pool is
kept, and the name of its schema or the connection URL of its database. `inside` is what the debug
form of a value has between its parentheses.
-/

namespace Moso.Orm

/-- Why a tenant cannot be routed. -/
structure ConfigurationError where
  detail : List Char
  deriving DecidableEq

/-- The name of a kind. -/
def ValueKind.debug : ValueKind → List Char
  | .unknown => "Unknown".toList
  | .bool => "Bool".toList
  | .i8 => "I8".toList
  | .i16 => "I16".toList
  | .i32 => "I32".toList
  | .i64 => "I64".toList
  | .u8 => "U8".toList
  | .u16 => "U16".toList
  | .u32 => "U32".toList
  | .u64 => "U64".toList
  | .f32 => "F32".toList
  | .f64 => "F64".toList
  | .decimal => "Decimal".toList
  | .text => "Text".toList
  | .bytes => "Bytes".toList
  | .uuid => "Uuid".toList
  | .json => "Json".toList
  | .timestamp => "Timestamp".toList
  | .dateTime => "DateTime".toList
  | .date => "Date".toList
  | .time => "Time".toList
  | .interval => "Interval".toList
  | .array => "Array".toList

/-- Two digits of a byte. -/
def hexByte (b : UInt8) : List Char :=
  [Nat.digitChar (b.toNat / 16), Nat.digitChar (b.toNat % 16)]

/-- `Display` of a UUID: its bytes, with hyphens in front of four of them. -/
def displayUuid (uuid : BitVec (8 * 16)) : List Char :=
  (Wire.toBeBytes uuid).zipIdx.flatMap fun (b, index) =>
    (if index = 4 ∨ index = 6 ∨ index = 8 ∨ index = 10 then ['-'] else []) ++ hexByte b

/-- `Display` of an identifier that is refused. -/
def displayIdentError : Sql.IdentError → List Char
  | .empty => ("a SQL identifier cannot be empty\n" ++
      "help: pass the column or table name, for example `Ident::from_static(\"email\")`").toList
  | .tooLong identifier len max =>
    "the identifier `".toList ++ identifier ++ "` is ".toList ++ Nat.toDigits 10 len ++
      " bytes, and the limit is ".toList ++ Nat.toDigits 10 max ++
      ("\nhelp: PostgreSQL truncates longer names, so two generated names could collide; " ++
        "shorten it, or hash the tail — `idx_").toList ++ identifier.take 20 ++ "_<hash>`".toList
  | .forbiddenByte identifier byte position =>
    "the identifier `".toList ++ identifier ++
      "` contains a byte that is not allowed (0x".toList ++ hexByte (UInt8.ofNat byte) ++
      " at offset ".toList ++ Nat.toDigits 10 position ++
      (")\nhelp: identifiers may not contain control characters, `\"`, a backtick or `\\`; " ++
        "if this value came from a request, it is data — bind it as a parameter instead").toList

/-- A tenant's identity. -/
structure TenantId (valid : String → Bool) where
  value : Value valid

namespace TenantId

variable {valid : String → Bool} (inside : Value valid → List Char)

/-- The value without its type tag; its debug form, if no tenant key is declared as such. -/
def render (tenant : TenantId valid) : List Char :=
  match tenant.value with
  | .text text => text.toList
  | .uuid uuid => displayUuid uuid
  | .null _ => []
  | .bool value => if value then "true".toList else "false".toList
  | .i8 value => Numeral.signed value.toInt
  | .i16 value => Numeral.signed value.toInt
  | .i32 value => Numeral.signed value.toInt
  | .i64 value => Numeral.signed value.toInt
  | .u8 value => Nat.toDigits 10 value.toNat
  | .u16 value => Nat.toDigits 10 value.toNat
  | .u32 value => Nat.toDigits 10 value.toNat
  | .u64 value => Nat.toDigits 10 value.toNat
  | .decimal value => value.display
  | other => other.kind.debug ++ '(' :: inside other ++ [')']

/-- The tenant as a cache key. -/
def key (tenant : TenantId valid) : List Char :=
  tenant.value.kind.debug ++ ':' :: tenant.render inside

/-- What may stand in a tenant's text; the bytes of any other character are refused. -/
def isPlain (c : Char) : Bool := c.isAlphanum || c = '_' || c = '-'

def underscored (c : Char) : Char := if c = '-' then '_' else c

/-- The tenant as it appears inside an identifier or a URL. -/
def slug (tenant : TenantId valid) : Except ConfigurationError (List Char) :=
  let rendered := tenant.render inside
  if rendered ≠ [] ∧ rendered.all isPlain then .ok (rendered.map underscored)
  else .error ⟨"the tenant `".toList ++ rendered ++
    ("` cannot name a schema or a database\n  " ++
      "help: a routed tenant key must be letters, digits, `_` or `-`\n  " ++
      "note: this is the check that stops a tenant name from being interpolated " ++
      "into SQL").toList⟩

/-- The schema that the tenant's tables live in. -/
def schema (tenant : TenantId valid) (start : List Char) : Except ConfigurationError Sql.Ident := do
  let name := start ++ (← tenant.slug inside)
  (Sql.Ident.mk' name).mapError fun error =>
    ⟨"the schema name `".toList ++ name ++ "` is not usable: ".toList ++ displayIdentError error ++
      "\n  help: shorten `tenancy.prefix`, or use shorter tenant keys".toList⟩

end TenantId

/-- Which tenancy model an application uses. -/
inductive TenancyModel where
  | discriminator
  | schemaPerTenant (start : List Char)
  | databasePerTenant (urlTemplate : List Char)
  deriving DecidableEq

namespace TenancyModel

def asStr : TenancyModel → List Char
  | discriminator => "discriminator".toList
  | schemaPerTenant _ => "schema-per-tenant".toList
  | databasePerTenant _ => "database-per-tenant".toList

/-- Where the tenant goes in a URL template. -/
def placeholder : List Char := "\x7btenant\x7d".toList

variable {valid : String → Bool} (inside : Value valid → List Char)

/-- The connection URL of a tenant. -/
def tenantUrl (model : TenancyModel) (tenant : TenantId valid) :
    Except ConfigurationError (List Char) :=
  match model with
  | databasePerTenant urlTemplate =>
    if Template.contains placeholder urlTemplate then do
      return Template.fill placeholder (← tenant.slug inside) urlTemplate
    else .error ⟨("the database-per-tenant URL template has no `\x7btenant\x7d` placeholder, so " ++
      "every tenant would share one database\n  " ++
      "help: `postgres://host/app_\x7btenant\x7d`").toList⟩
  | other => .error ⟨'`' :: other.asStr ++ "` does not route a tenant to its own database".toList⟩

end TenancyModel

namespace TenantId

variable {valid : String → Bool} {inside : Value valid → List Char} {a b : TenantId valid}

/-- The texts of two tenants differ at most in that one has a hyphen where the other has an
underscore. -/
def Alike (inside : Value valid → List Char) (a b : TenantId valid) : Prop :=
  (a.render inside).map underscored = (b.render inside).map underscored

lemma slug_eq_ok {s : List Char} (h : a.slug inside = .ok s) :
    s = (a.render inside).map underscored := by
  unfold slug at h
  dsimp only at h
  split_ifs at h
  exact (Except.ok.inj h).symm

lemma slug_eq_iff {s t : List Char} (ha : a.slug inside = .ok s) (hb : b.slug inside = .ok t) :
    s = t ↔ Alike inside a b := by
  rw [slug_eq_ok ha, slug_eq_ok hb, Alike]

lemma schema_eq_ok {start : List Char} {name : Sql.Ident} (h : a.schema inside start = .ok name) :
    ∃ s, a.slug inside = .ok s ∧ name.chars = start ++ s := by
  obtain ⟨s, hs, h⟩ := Fallible.bind_eq_ok.mp h
  refine ⟨s, hs, ?_⟩
  dsimp only at h
  cases hname : Sql.Ident.mk' (start ++ s) with
  | error e =>
    rw [hname] at h
    cases h
  | ok ident =>
    rw [hname] at h
    obtain rfl := Except.ok.inj h
    exact Sql.Ident.chars_of_mk' hname

/-- Two tenants have one schema exactly if their texts are alike. -/
lemma schema_eq_iff {start : List Char} {m n : Sql.Ident} (ha : a.schema inside start = .ok m)
    (hb : b.schema inside start = .ok n) : m = n ↔ Alike inside a b := by
  obtain ⟨s, hs, hm⟩ := schema_eq_ok ha
  obtain ⟨t, ht, hn⟩ := schema_eq_ok hb
  rw [← slug_eq_iff hs ht, ← List.append_right_inj start, ← hm, ← hn]
  refine ⟨congrArg _, fun h => ?_⟩
  cases m
  cases n
  cases h
  rfl

lemma tenantUrl_eq_ok {urlTemplate url : List Char}
    (h : (TenancyModel.databasePerTenant urlTemplate).tenantUrl inside a = .ok url) :
    Template.contains TenancyModel.placeholder urlTemplate = true ∧
      ∃ s, a.slug inside = .ok s ∧ url = Template.fill TenancyModel.placeholder s urlTemplate := by
  unfold TenancyModel.tenantUrl at h
  dsimp only at h
  split_ifs at h with hcontains
  obtain ⟨s, hs, h⟩ := Fallible.bind_eq_ok.mp h
  exact ⟨hcontains, s, hs, (Except.ok.inj h).symm⟩

/-- Two tenants have one database exactly if their texts are alike. -/
lemma tenantUrl_eq_iff {urlTemplate u v : List Char}
    (ha : (TenancyModel.databasePerTenant urlTemplate).tenantUrl inside a = .ok u)
    (hb : (TenancyModel.databasePerTenant urlTemplate).tenantUrl inside b = .ok v) :
    u = v ↔ Alike inside a b := by
  obtain ⟨hcontains, s, hs, rfl⟩ := tenantUrl_eq_ok ha
  obtain ⟨-, t, ht, rfl⟩ := tenantUrl_eq_ok hb
  rw [Template.fill_inj (by decide) hcontains, slug_eq_iff hs ht]

end TenantId

end Moso.Orm
