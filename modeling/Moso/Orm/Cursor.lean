import Moso.Orm.Value

/-!
# The payload of a pagination cursor

A cursor is the fingerprint of an ordering and the sort key of one row. Its payload is a format
byte, the fingerprint, the number of values and the values, each of them behind a tag. A number is
written with its highest byte first, a text behind its length.
-/

namespace Moso.Orm.Cursor

open Sql (Date Time Timestamp Interval Decimal I32 I64 I128)
open Wire

/-- The tags that values are written under. -/
inductive Tag where
  | null | bool | i8 | i16 | i32 | i64 | u8 | u16 | u32 | u64 | f32 | f64 | decimal | text
  | bytes | uuid | json | timestamp | dateTime | date | time | interval
  /-- An untyped `NULL`. -/
  | unknown
  deriving DecidableEq

namespace Tag

def byte : Tag → UInt8
  | null => 0 | bool => 1 | i8 => 2 | i16 => 3 | i32 => 4 | i64 => 5 | u8 => 6 | u16 => 7
  | u32 => 8 | u64 => 9 | f32 => 10 | f64 => 11 | decimal => 12 | text => 13 | bytes => 14
  | uuid => 15 | json => 16 | timestamp => 17 | dateTime => 18 | date => 19 | time => 20
  | interval => 21 | unknown => 255

/-- The tag that a byte is. -/
def ofByte (b : UInt8) : Option Tag :=
  match b.toNat with
  | 0 => some null | 1 => some bool | 2 => some i8 | 3 => some i16 | 4 => some i32
  | 5 => some i64 | 6 => some u8 | 7 => some u16 | 8 => some u32 | 9 => some u64
  | 10 => some f32 | 11 => some f64 | 12 => some decimal | 13 => some text | 14 => some bytes
  | 15 => some uuid | 16 => some json | 17 => some timestamp | 18 => some dateTime
  | 19 => some date | 20 => some time | 21 => some interval | 255 => some unknown
  | _ => none

/-- The kind that the tag of a `NULL` stands for. -/
def kind : Tag → Option ValueKind
  | null => none | bool => some .bool | i8 => some .i8 | i16 => some .i16 | i32 => some .i32
  | i64 => some .i64 | u8 => some .u8 | u16 => some .u16 | u32 => some .u32 | u64 => some .u64
  | f32 => some .f32 | f64 => some .f64 | decimal => some .decimal | text => some .text
  | bytes => some .bytes | uuid => some .uuid | json => some .json
  | timestamp => some .timestamp | dateTime => some .dateTime | date => some .date
  | time => some .time | interval => some .interval | unknown => some .unknown

/-- The tag that a `NULL` of a kind is written under. -/
def ofKind : ValueKind → Option Tag
  | .unknown => some unknown | .bool => some bool | .i8 => some i8 | .i16 => some i16
  | .i32 => some i32 | .i64 => some i64 | .u8 => some u8 | .u16 => some u16 | .u32 => some u32
  | .u64 => some u64 | .f32 => some f32 | .f64 => some f64 | .decimal => some decimal
  | .text => some text | .bytes => some bytes | .uuid => some uuid | .json => some json
  | .timestamp => some timestamp | .dateTime => some dateTime | .date => some date
  | .time => some time | .interval => some interval | .array => none

lemma ofByte_eq_some_iff {b : UInt8} {t : Tag} : ofByte b = some t ↔ b = t.byte := by
  constructor
  · intro h
    have hb : b.toNat = t.byte.toNat := by
      unfold ofByte at h
      split at h <;> first | (cases h; assumption) | cases h
    exact UInt8.toNat.inj hb
  · rintro rfl
    cases t <;> rfl

lemma kind_eq_some_iff {t : Tag} {k : ValueKind} : t.kind = some k ↔ ofKind k = some t := by
  cases t <;> cases k <;> simp [kind, ofKind]

end Tag

/-- The one error for a sort key that will not fit in, or cannot be spelled by, a token. -/
def tooLarge : Error := .invalidClause "ORDER BY"
  ("this sort key cannot be carried in a pagination cursor — it is either too large " ++
    "for a URL or contains a column type that has no cursor encoding")
  ("sort by fewer or narrower columns (an id and a timestamp is the usual pair), or " ++
    "use `paginate_offset(page, per_page)`")

def format : UInt8 := 1

def maxKeyColumns : ℕ := 16

/-- `Cursor::MAX_ENCODED_LENGTH / 4 * 3 - 1 - TAG_LEN`. -/
def maxPayload : ℕ := 2048 / 4 * 3 - 1 - 16

/-! ### Writing -/

variable {valid : String → Bool}

def utf8 (text : String) : List UInt8 := text.toByteArray.data.toList

/-- A byte string behind its length. -/
def writeBytes (bytes : List UInt8) : Except Error (List UInt8) :=
  if bytes.length < 2 ^ 32 then
    .ok (toBeBytes (BitVec.ofNat (8 * 4) bytes.length) ++ bytes)
  else .error tooLarge

def ofI32 (n : I32) : BitVec (8 * 4) := BitVec.ofInt (8 * 4) n.1

def ofI64 (n : I64) : BitVec (8 * 8) := BitVec.ofInt (8 * 8) n.1

def ofI128 (n : I128) : BitVec (8 * 16) := BitVec.ofInt (8 * 16) n.1

def ofU32 (n : ℕ) : BitVec (8 * 4) := BitVec.ofNat (8 * 4) n

def writeDate (date : Date) : List UInt8 :=
  toBeBytes (ofI32 date.year) ++ [UInt8.ofNat date.month, UInt8.ofNat date.day]

def writeTime (time : Time) : List UInt8 :=
  [UInt8.ofNat time.hour, UInt8.ofNat time.minute, UInt8.ofNat time.second] ++
    toBeBytes (ofU32 time.nanosecond)

/-- What is appended for a value: its tag and its bytes. -/
def writeValue : Value valid → Except Error (List UInt8)
  | .null kind =>
    match Tag.ofKind kind with
    | some t => .ok [Tag.null.byte, t.byte]
    | none => .error tooLarge
  | .bool flag => .ok [Tag.bool.byte, if flag then 1 else 0]
  | .i8 number => .ok (Tag.i8.byte :: toBeBytes number)
  | .i16 number => .ok (Tag.i16.byte :: toBeBytes number)
  | .i32 number => .ok (Tag.i32.byte :: toBeBytes number)
  | .i64 number => .ok (Tag.i64.byte :: toBeBytes number)
  | .u8 number => .ok (Tag.u8.byte :: toBeBytes number)
  | .u16 number => .ok (Tag.u16.byte :: toBeBytes number)
  | .u32 number => .ok (Tag.u32.byte :: toBeBytes number)
  | .u64 number => .ok (Tag.u64.byte :: toBeBytes number)
  | .f32 bits => .ok (Tag.f32.byte :: toBeBytes bits)
  | .f64 bits => .ok (Tag.f64.byte :: toBeBytes bits)
  | .decimal decimal => .ok (Tag.decimal.byte ::
      (toBeBytes (ofI128 decimal.mantissa) ++ toBeBytes (ofU32 decimal.scale)))
  | .text text => (writeBytes (utf8 text)).map (Tag.text.byte :: ·)
  | .bytes bytes => (writeBytes bytes).map (Tag.bytes.byte :: ·)
  | .uuid uuid => .ok (Tag.uuid.byte :: toBeBytes uuid)
  | .json json => (writeBytes (utf8 json.1)).map (Tag.json.byte :: ·)
  | .timestamp timestamp => .ok (Tag.timestamp.byte ::
      (toBeBytes (ofI64 timestamp.unixSeconds) ++ toBeBytes (ofU32 timestamp.nanoseconds.toNat)))
  | .dateTime date time => .ok (Tag.dateTime.byte :: (writeDate date ++ writeTime time))
  | .date date => .ok (Tag.date.byte :: writeDate date)
  | .time time => .ok (Tag.time.byte :: writeTime time)
  | .interval interval => .ok (Tag.interval.byte ::
      (toBeBytes (ofI32 interval.months) ++ (toBeBytes (ofI32 interval.days) ++
        toBeBytes (ofI64 interval.microseconds))))
  | .array _ _ => .error tooLarge

/-- The sort-key tuple of one row, and the ordering it belongs to. -/
structure PageCursor (valid : String → Bool) where
  ordering : BitVec (8 * 8)
  key : List (Value valid)

def toPayload (cursor : PageCursor valid) : Except Error (List UInt8) :=
  if maxKeyColumns < cursor.key.length then .error tooLarge
  else do
    let values ← cursor.key.mapM writeValue
    let out := format :: toBeBytes cursor.ordering ++
      UInt8.ofNat cursor.key.length :: values.flatten
    if maxPayload < out.length then .error tooLarge else .ok out

/-! ### Reading -/

/-- A byte string behind its length. -/
def blob : Read (List UInt8) := do
  let length ← number 4
  take length.toNat

def fromUtf8 (bytes : List UInt8) : Option String := String.fromUTF8? ⟨bytes.toArray⟩

def string : Read String := do
  ofOption (fromUtf8 (← blob))

/-- A value that its constructor accepts. -/
def accepted {ε α : Type} (value : Except ε α) : Read α := ofOption value.toOption

def toI32 (n : BitVec (8 * 4)) : I32 :=
  ⟨n.toInt, BitVec.le_toInt n, BitVec.toInt_lt⟩

def toI64 (n : BitVec (8 * 8)) : I64 :=
  ⟨n.toInt, BitVec.le_toInt n, Int.le_sub_one_of_lt BitVec.toInt_lt⟩

def toI128 (n : BitVec (8 * 16)) : I128 :=
  ⟨n.toInt, BitVec.le_toInt n, BitVec.toInt_lt⟩

def readDate : Read Date := do
  let year ← number 4
  let month ← byte
  let day ← byte
  accepted (Date.new (toI32 year) month.toNat day.toNat)

def readTime : Read Time := do
  let hour ← byte
  let minute ← byte
  let second ← byte
  let nanosecond ← number 4
  accepted (Time.new hour.toNat minute.toNat second.toNat nanosecond.toNat)

def readDecimal : Read Decimal := do
  let mantissa ← number 16
  let scale ← number 4
  accepted (Decimal.new (toI128 mantissa) scale.toNat)

def readTimestamp : Read Timestamp := do
  let seconds ← number 8
  let nanoseconds ← number 4
  accepted (Timestamp.new (toI64 seconds) nanoseconds.toNat)

def readInterval : Read Interval := do
  let months ← number 4
  let days ← number 4
  let microseconds ← number 8
  return ⟨toI32 months, toI32 days, toI64 microseconds⟩

/-- `Json::from_json_string`. -/
def fromJsonString (text : String) : Option {text : String // valid text = true} :=
  if h : valid text = true then some ⟨text, h⟩ else none

/-- What stands behind a tag. -/
def readBody : Tag → Read (Value valid)
  | .null => do return .null (← ofOption ((Tag.ofByte (← byte)).bind Tag.kind))
  | .bool => do return .bool (decide ((← byte) ≠ 0))
  | .i8 => do return .i8 (← number 1)
  | .i16 => do return .i16 (← number 2)
  | .i32 => do return .i32 (← number 4)
  | .i64 => do return .i64 (← number 8)
  | .u8 => do return .u8 (← number 1)
  | .u16 => do return .u16 (← number 2)
  | .u32 => do return .u32 (← number 4)
  | .u64 => do return .u64 (← number 8)
  | .f32 => do return .f32 (← number 4)
  | .f64 => do return .f64 (← number 8)
  | .decimal => do return .decimal (← readDecimal)
  | .text => do return .text (← string)
  | .bytes => do return .bytes (← blob)
  | .uuid => do return .uuid (← number 16)
  | .json => do return .json (← ofOption (fromJsonString (← string)))
  | .timestamp => do return .timestamp (← readTimestamp)
  | .dateTime => do
    let date ← readDate
    return .dateTime date (← readTime)
  | .date => do return .date (← readDate)
  | .time => do return .time (← readTime)
  | .interval => do return .interval (← readInterval)
  | .unknown => throw .malformed

def readTag : Read Tag := do
  ofOption (Tag.ofByte (← byte))

/-- Reads one tagged value. -/
def readValue : Read (Value valid) := do
  readBody (← readTag)

/-- Reads so many values. -/
def readValues : ℕ → Read (List (Value valid))
  | 0 => pure []
  | n + 1 => do
    let value ← readValue
    return value :: (← readValues n)

def check (p : Bool) : Read Unit := if p then pure () else throw .malformed

/-- The fields of a payload. -/
def readCursor : Read (PageCursor valid) := do
  check ((← byte) = format)
  let ordering ← number 8
  let arity ← byte
  check (arity.toNat ≤ maxKeyColumns)
  return ⟨ordering, ← readValues arity.toNat⟩

/-- Nothing may stand behind the last value. -/
def readPayload : Read (PageCursor valid) := do
  let cursor ← readCursor
  check (← isExhausted)
  return cursor

def fromPayload (payload : List UInt8) : Except Fault (PageCursor valid) :=
  (readPayload (Reader.new payload)).map (·.1)

/-! ### What is read of the parts -/

lemma reads_blob : Reads blob fun b c => writeBytes b = .ok c := by
  refine ((Reads.number 4).bind fun length _ _ => Reads.take length.toNat).congr fun b c => ?_
  unfold writeBytes
  constructor
  · rintro ⟨length, _, _, rfl, ⟨rfl, hlen⟩, rfl⟩
    rw [hlen, if_pos length.isLt, BitVec.ofNat_toNat, BitVec.setWidth_eq]
  · intro h
    split_ifs at h with hlt
    obtain rfl := Except.ok.inj h
    exact ⟨_, _, b, rfl, ⟨rfl, (Wire.toNat_ofNat hlt).symm⟩, rfl⟩

lemma fromUtf8_eq_some_iff {bytes : List UInt8} {text : String} :
    fromUtf8 bytes = some text ↔ bytes = utf8 text := by
  unfold fromUtf8 String.fromUTF8? utf8
  constructor
  · intro h
    split_ifs at h
    obtain rfl := Option.some.inj h
    rfl
  · rintro rfl
    rw [dif_pos text.isValidUTF8]
    rfl

lemma reads_string : Reads string fun text c => writeBytes (utf8 text) = .ok c := by
  refine (reads_blob).bindOption.congr fun text c => ?_
  simp only [fromUtf8_eq_some_iff]
  exact ⟨fun ⟨_, h, rfl⟩ => h, fun h => ⟨_, h, rfl⟩⟩

/-- Machine integers and their bits determine each other. -/
lemma eq_toI32_iff {n : BitVec (8 * 4)} {v : I32} : v = toI32 n ↔ n = ofI32 v := by
  have h := v.2
  constructor
  · rintro rfl
    exact BitVec.ofInt_toInt.symm
  · rintro rfl
    exact Subtype.ext (Wire.toInt_ofInt (by omega) (by omega)).symm

lemma eq_toI64_iff {n : BitVec (8 * 8)} {v : I64} : v = toI64 n ↔ n = ofI64 v := by
  have hmin : i64Min = -9223372036854775808 := rfl
  have hmax : i64Max = 9223372036854775807 := rfl
  have h := v.2
  constructor
  · rintro rfl
    exact BitVec.ofInt_toInt.symm
  · rintro rfl
    exact Subtype.ext (Wire.toInt_ofInt (by omega) (by omega)).symm

lemma eq_toI128_iff {n : BitVec (8 * 16)} {v : I128} : v = toI128 n ↔ n = ofI128 v := by
  have h := v.2
  constructor
  · rintro rfl
    exact BitVec.ofInt_toInt.symm
  · rintro rfl
    exact Subtype.ext (Wire.toInt_ofInt (by omega) (by omega)).symm

lemma eq_ofU32_iff {n : BitVec (8 * 4)} {v : ℕ} (h : v < 2 ^ 32) :
    v = n.toNat ↔ n = ofU32 v := by
  constructor
  · rintro rfl
    rw [ofU32, BitVec.ofNat_toNat, BitVec.setWidth_eq]
  · rintro rfl
    exact (Wire.toNat_ofNat h).symm

lemma eq_ofNat_iff {b : UInt8} {v : ℕ} (h : v < 256) : v = b.toNat ↔ b = UInt8.ofNat v := by
  constructor
  · rintro rfl
    exact UInt8.ofNat_toNat.symm
  · rintro rfl
    exact (UInt8.toNat_ofNat_of_lt' h).symm

lemma toOption_eq_some_iff {ε α : Type} {x : Except ε α} {a : α} :
    x.toOption = some a ↔ x = .ok a := by
  cases x <;> simp [Except.toOption]

lemma reads_accepted {ε α : Type} (x : Except ε α) :
    Reads (accepted x) fun a c => x = .ok a ∧ c = [] :=
  (Reads.ofOption _).congr fun a c => by rw [toOption_eq_some_iff]

lemma reads_date : Reads readDate fun date c => c = writeDate date := by
  refine ((Reads.number 4).bind fun year _ _ => (Reads.byte).bind fun month _ _ =>
    (Reads.byte).bind fun day _ _ => reads_accepted _).congr fun date c => ?_
  have hmonth := date.month_bounds
  have hday := date.day_bounds
  have hdays : Sql.daysInMonth date.year.1 date.month ≤ 31 := by
    unfold Sql.daysInMonth
    split_ifs <;> omega
  have hbytes : date.month < 256 ∧ date.day < 256 := by omega
  simp only [Sql.Date.new_eq_ok_iff, eq_toI32_iff, eq_ofNat_iff hbytes.1, eq_ofNat_iff hbytes.2]
  unfold writeDate
  constructor
  · rintro ⟨year, _, _, rfl, ⟨month, _, _, rfl, ⟨day, _, _, rfl, ⟨⟨rfl, rfl, rfl⟩, rfl⟩, rfl⟩, rfl⟩,
      rfl⟩
    rfl
  · rintro rfl
    exact ⟨_, _, _, rfl, ⟨_, _, _, rfl, ⟨_, _, _, rfl, ⟨⟨rfl, rfl, rfl⟩, rfl⟩, rfl⟩, rfl⟩, rfl⟩

lemma reads_time : Reads readTime fun time c => c = writeTime time := by
  refine ((Reads.byte).bind fun hour _ _ => (Reads.byte).bind fun minute _ _ =>
    (Reads.byte).bind fun second _ _ => (Reads.number 4).bind fun nanosecond _ _ =>
      reads_accepted _).congr fun time c => ?_
  have hhour := time.hour_le
  have hminute := time.minute_le
  have hsecond := time.second_le
  have hnanosecond := time.nanosecond_lt
  have hbytes : time.hour < 256 ∧ time.minute < 256 ∧ time.second < 256 := by omega
  simp only [Sql.Time.new_eq_ok_iff, eq_ofNat_iff hbytes.1, eq_ofNat_iff hbytes.2.1,
    eq_ofNat_iff hbytes.2.2, eq_ofU32_iff (show time.nanosecond < 2 ^ 32 by omega)]
  unfold writeTime
  constructor
  · rintro ⟨hour, _, _, rfl, ⟨minute, _, _, rfl, ⟨second, _, _, rfl, ⟨nanosecond, _, _, rfl,
      ⟨⟨rfl, rfl, rfl, rfl⟩, rfl⟩, rfl⟩, rfl⟩, rfl⟩, rfl⟩
    simp
  · rintro rfl
    exact ⟨_, _, _, rfl, ⟨_, _, _, rfl, ⟨_, _, _, rfl, ⟨_, _, _, rfl,
      ⟨⟨rfl, rfl, rfl, rfl⟩, rfl⟩, rfl⟩, rfl⟩, rfl⟩, by simp⟩

section

-- the bytes of a wide number are not to be computed when an equation for them is used up
attribute [local irreducible] toBeBytes

lemma reads_decimal : Reads readDecimal fun decimal c =>
    c = toBeBytes (ofI128 decimal.mantissa) ++ toBeBytes (ofU32 decimal.scale) := by
  refine ((Reads.number 16).bind fun mantissa _ _ => (Reads.number 4).bind fun scale _ _ =>
    reads_accepted _).congr fun decimal c => ?_
  have hscale : decimal.scale < 2 ^ 32 := decimal.scale_le.trans_lt (by decide)
  simp only [Sql.Decimal.new_eq_ok_iff, eq_toI128_iff, eq_ofU32_iff hscale]
  constructor
  · rintro ⟨mantissa, c, d, rfl, ⟨scale, c', d', rfl, ⟨⟨hmantissa, hscale⟩, hd⟩, hc⟩, hcd⟩
    rw [hcd, hc, hd, hmantissa, hscale, List.append_nil]
  · rintro rfl
    exact ⟨_, _, _, rfl, ⟨_, _, _, rfl, ⟨⟨rfl, rfl⟩, rfl⟩, rfl⟩, by rw [List.append_nil]⟩

lemma reads_timestamp : Reads readTimestamp fun timestamp c =>
    c = toBeBytes (ofI64 timestamp.unixSeconds) ++
      toBeBytes (ofU32 timestamp.nanoseconds.toNat) := by
  refine ((Reads.number 8).bind fun seconds _ _ => (Reads.number 4).bind fun nanoseconds _ _ =>
    reads_accepted _).congr fun timestamp c => ?_
  have hnonneg := timestamp.nonneg
  have hlt := timestamp.lt
  have hnanoseconds : ∀ n : ℕ, timestamp.nanoseconds = n ↔ timestamp.nanoseconds.toNat = n := by
    omega
  simp only [Sql.Timestamp.new_eq_ok_iff, eq_toI64_iff, hnanoseconds,
    eq_ofU32_iff (show timestamp.nanoseconds.toNat < 2 ^ 32 by omega)]
  constructor
  · rintro ⟨seconds, _, _, rfl, ⟨nanoseconds, _, _, rfl, ⟨⟨rfl, rfl⟩, rfl⟩, rfl⟩, rfl⟩
    rw [List.append_nil]
  · rintro rfl
    exact ⟨_, _, _, rfl, ⟨_, _, _, rfl, ⟨⟨rfl, rfl⟩, rfl⟩, rfl⟩, by rw [List.append_nil]⟩

lemma reads_interval : Reads readInterval fun interval c =>
    c = toBeBytes (ofI32 interval.months) ++ (toBeBytes (ofI32 interval.days) ++
      toBeBytes (ofI64 interval.microseconds)) := by
  refine ((Reads.number 4).bind fun months _ _ => (Reads.number 4).bind fun days _ _ =>
    (Reads.number 8).bind fun microseconds _ _ => Reads.pure _).congr fun interval c => ?_
  obtain ⟨m, d, u⟩ := interval
  simp only [Sql.Interval.mk.injEq, eq_toI32_iff, eq_toI64_iff]
  constructor
  · rintro ⟨months, _, _, rfl, ⟨days, _, _, rfl, ⟨microseconds, _, _, rfl,
      ⟨⟨rfl, rfl, rfl⟩, rfl⟩, rfl⟩, rfl⟩, rfl⟩
    rw [List.append_nil]
  · rintro rfl
    exact ⟨_, _, _, rfl, ⟨_, _, _, rfl, ⟨_, _, _, rfl,
      ⟨⟨rfl, rfl, rfl⟩, rfl⟩, rfl⟩, rfl⟩, by rw [List.append_nil]⟩

/-! ### What is read of a value -/

/-- How a value is spelled behind a tag. -/
def BodySpells : Tag → Value valid → List UInt8 → Prop
  | .null, v, c => ∃ kind t, Tag.ofKind kind = some t ∧ v = .null kind ∧ c = [t.byte]
  | .bool, v, c => ∃ b, v = .bool (decide (b ≠ 0)) ∧ c = [b]
  | .i8, v, c => ∃ n, v = .i8 n ∧ c = toBeBytes n
  | .i16, v, c => ∃ n, v = .i16 n ∧ c = toBeBytes n
  | .i32, v, c => ∃ n, v = .i32 n ∧ c = toBeBytes n
  | .i64, v, c => ∃ n, v = .i64 n ∧ c = toBeBytes n
  | .u8, v, c => ∃ n, v = .u8 n ∧ c = toBeBytes n
  | .u16, v, c => ∃ n, v = .u16 n ∧ c = toBeBytes n
  | .u32, v, c => ∃ n, v = .u32 n ∧ c = toBeBytes n
  | .u64, v, c => ∃ n, v = .u64 n ∧ c = toBeBytes n
  | .f32, v, c => ∃ n, v = .f32 n ∧ c = toBeBytes n
  | .f64, v, c => ∃ n, v = .f64 n ∧ c = toBeBytes n
  | .decimal, v, c => ∃ d : Decimal, v = .decimal d ∧
      c = toBeBytes (ofI128 d.mantissa) ++ toBeBytes (ofU32 d.scale)
  | .text, v, c => ∃ text, v = .text text ∧ writeBytes (utf8 text) = .ok c
  | .bytes, v, c => ∃ bytes, v = .bytes bytes ∧ writeBytes bytes = .ok c
  | .uuid, v, c => ∃ n, v = .uuid n ∧ c = toBeBytes n
  | .json, v, c => ∃ json, v = .json json ∧ writeBytes (utf8 json.1) = .ok c
  | .timestamp, v, c => ∃ t : Timestamp, v = .timestamp t ∧
      c = toBeBytes (ofI64 t.unixSeconds) ++ toBeBytes (ofU32 t.nanoseconds.toNat)
  | .dateTime, v, c => ∃ date time, v = .dateTime date time ∧ c = writeDate date ++ writeTime time
  | .date, v, c => ∃ date, v = .date date ∧ c = writeDate date
  | .time, v, c => ∃ time, v = .time time ∧ c = writeTime time
  | .interval, v, c => ∃ i : Interval, v = .interval i ∧ c = toBeBytes (ofI32 i.months) ++
      (toBeBytes (ofI32 i.days) ++ toBeBytes (ofI64 i.microseconds))
  | .unknown, _, _ => False

lemma reads_body (t : Tag) : Reads (readBody t : Read (Value valid)) (BodySpells t) := by
  cases t with
  | null =>
    refine ((Reads.byte).bind fun b _ _ =>
      (Reads.ofOption ((Tag.ofByte b).bind Tag.kind)).map).congr fun v c => ?_
    constructor
    · rintro ⟨b, _, _, rfl, ⟨kind, rfl, hkind, rfl⟩, rfl⟩
      obtain ⟨t, ht, htkind⟩ := Option.bind_eq_some_iff.mp hkind
      obtain rfl := Tag.ofByte_eq_some_iff.mp ht
      exact ⟨kind, t, Tag.kind_eq_some_iff.mp htkind, rfl, rfl⟩
    · rintro ⟨kind, t, ht, rfl, rfl⟩
      refine ⟨t.byte, _, [], rfl, ⟨kind, rfl, ?_, rfl⟩, rfl⟩
      rw [Tag.ofByte_eq_some_iff.mpr rfl, Option.bind_some, Tag.kind_eq_some_iff.mpr ht]
  | bool => exact (Reads.byte).map
  | i8 => exact (Reads.number 1).map
  | i16 => exact (Reads.number 2).map
  | i32 => exact (Reads.number 4).map
  | i64 => exact (Reads.number 8).map
  | u8 => exact (Reads.number 1).map
  | u16 => exact (Reads.number 2).map
  | u32 => exact (Reads.number 4).map
  | u64 => exact (Reads.number 8).map
  | f32 => exact (Reads.number 4).map
  | f64 => exact (Reads.number 8).map
  | decimal => exact (reads_decimal).map
  | text => exact (reads_string).map
  | bytes => exact (reads_blob).map
  | uuid => exact (Reads.number 16).map
  | json =>
    refine ((reads_string).bind fun text _ _ => (Reads.ofOption (fromJsonString text)).map).congr
      fun v c => ?_
    constructor
    · rintro ⟨text, _, _, htext, ⟨json, rfl, hjson, rfl⟩, rfl⟩
      unfold fromJsonString at hjson
      split_ifs at hjson
      obtain rfl := Option.some.inj hjson
      exact ⟨_, rfl, by rwa [List.append_nil]⟩
    · rintro ⟨json, rfl, hjson⟩
      exact ⟨json.1, c, [], hjson, ⟨json, rfl, dif_pos json.2, rfl⟩, (List.append_nil c).symm⟩
  | timestamp => exact (reads_timestamp).map
  | dateTime =>
    refine ((reads_date).bind fun date _ _ => (reads_time).map).congr fun v c => ?_
    constructor
    · rintro ⟨date, _, _, rfl, ⟨time, rfl, rfl⟩, rfl⟩
      exact ⟨date, time, rfl, rfl⟩
    · rintro ⟨date, time, rfl, rfl⟩
      exact ⟨date, _, _, rfl, ⟨time, rfl, rfl⟩, rfl⟩
  | date => exact (reads_date).map
  | time => exact (reads_time).map
  | interval => exact (reads_interval).map
  | unknown => exact Reads.malformed

/-- A byte that spells `true` although it is not the one that is written for it. -/
def Odd (v : Value valid) (c : List UInt8) : Prop :=
  v = .bool true ∧ ∃ b : UInt8, c = [Tag.bool.byte, b] ∧ 1 < b.toNat

lemma reads_tag : Reads readTag fun t c => c = [t.byte] := by
  refine (Reads.byte).bindOption.congr fun t c => ?_
  simp only [Tag.ofByte_eq_some_iff]
  exact ⟨fun ⟨_, h, rfl⟩ => h, fun h => ⟨_, h, rfl⟩⟩

/-- What spells a value is what is written for it, but for the bytes that are taken for `true`. -/
lemma spells_iff (v : Value valid) (c : List UInt8) :
    (∃ t rest, c = t.byte :: rest ∧ BodySpells t v rest) ↔ writeValue v = .ok c ∨ Odd v c := by
  constructor
  · rintro ⟨t, rest, rfl, h⟩
    cases t with
    | null =>
      obtain ⟨kind, t, ht, rfl, rfl⟩ := h
      exact .inl (by rw [writeValue, ht])
    | bool =>
      obtain ⟨b, rfl, rfl⟩ := h
      by_cases hzero : b = 0
      · subst hzero
        exact .inl rfl
      · by_cases hone : b = 1
        · subst hone
          exact .inl rfl
        · refine .inr ⟨by rw [decide_eq_true hzero], b, rfl, ?_⟩
          have h0 : b.toNat ≠ 0 := fun h => hzero (UInt8.toNat.inj h)
          have h1 : b.toNat ≠ 1 := fun h => hone (UInt8.toNat.inj h)
          omega
    | text =>
      obtain ⟨text, rfl, h⟩ := h
      exact .inl (Fallible.map_eq_ok.mpr ⟨rest, h, rfl⟩)
    | bytes =>
      obtain ⟨bytes, rfl, h⟩ := h
      exact .inl (Fallible.map_eq_ok.mpr ⟨rest, h, rfl⟩)
    | json =>
      obtain ⟨json, rfl, h⟩ := h
      exact .inl (Fallible.map_eq_ok.mpr ⟨rest, h, rfl⟩)
    | dateTime =>
      obtain ⟨date, time, rfl, rfl⟩ := h
      exact .inl rfl
    | unknown => exact h.elim
    | _ =>
      obtain ⟨a, rfl, rfl⟩ := h
      exact .inl rfl
  · rintro (h | ⟨rfl, b, rfl, hb⟩)
    · cases v with
      | null kind =>
        cases ht : Tag.ofKind kind with
        | none =>
          rw [writeValue, ht] at h
          cases h
        | some t =>
          rw [writeValue, ht] at h
          obtain rfl := Except.ok.inj h
          exact ⟨.null, _, rfl, kind, t, ht, rfl, rfl⟩
      | bool flag =>
        obtain rfl := Except.ok.inj h
        exact ⟨.bool, _, rfl, _, by cases flag <;> rfl, rfl⟩
      | text text =>
        obtain ⟨rest, hrest, rfl⟩ := Fallible.map_eq_ok.mp h
        exact ⟨.text, rest, rfl, text, rfl, hrest⟩
      | bytes bytes =>
        obtain ⟨rest, hrest, rfl⟩ := Fallible.map_eq_ok.mp h
        exact ⟨.bytes, rest, rfl, bytes, rfl, hrest⟩
      | json json =>
        obtain ⟨rest, hrest, rfl⟩ := Fallible.map_eq_ok.mp h
        exact ⟨.json, rest, rfl, json, rfl, hrest⟩
      | array element items => cases h
      | i8 n => exact ⟨.i8, _, (Except.ok.inj h).symm, n, rfl, rfl⟩
      | i16 n => exact ⟨.i16, _, (Except.ok.inj h).symm, n, rfl, rfl⟩
      | i32 n => exact ⟨.i32, _, (Except.ok.inj h).symm, n, rfl, rfl⟩
      | i64 n => exact ⟨.i64, _, (Except.ok.inj h).symm, n, rfl, rfl⟩
      | u8 n => exact ⟨.u8, _, (Except.ok.inj h).symm, n, rfl, rfl⟩
      | u16 n => exact ⟨.u16, _, (Except.ok.inj h).symm, n, rfl, rfl⟩
      | u32 n => exact ⟨.u32, _, (Except.ok.inj h).symm, n, rfl, rfl⟩
      | u64 n => exact ⟨.u64, _, (Except.ok.inj h).symm, n, rfl, rfl⟩
      | f32 n => exact ⟨.f32, _, (Except.ok.inj h).symm, n, rfl, rfl⟩
      | f64 n => exact ⟨.f64, _, (Except.ok.inj h).symm, n, rfl, rfl⟩
      | decimal d => exact ⟨.decimal, _, (Except.ok.inj h).symm, d, rfl, rfl⟩
      | uuid n => exact ⟨.uuid, _, (Except.ok.inj h).symm, n, rfl, rfl⟩
      | timestamp t => exact ⟨.timestamp, _, (Except.ok.inj h).symm, t, rfl, rfl⟩
      | dateTime date time => exact ⟨.dateTime, _, (Except.ok.inj h).symm, date, time, rfl, rfl⟩
      | date date => exact ⟨.date, _, (Except.ok.inj h).symm, date, rfl, rfl⟩
      | time time => exact ⟨.time, _, (Except.ok.inj h).symm, time, rfl, rfl⟩
      | interval i => exact ⟨.interval, _, (Except.ok.inj h).symm, i, rfl, rfl⟩
    · have hne : b ≠ 0 := by
        rintro rfl
        cases hb
      exact ⟨.bool, [b], rfl, b, by rw [decide_eq_true hne], rfl⟩

end

lemma reads_value : Reads (readValue : Read (Value valid)) fun v c =>
    writeValue v = .ok c ∨ Odd v c := by
  refine ((reads_tag).bind fun t _ _ => reads_body t).congr fun v c => ?_
  rw [← spells_iff]
  constructor
  · rintro ⟨t, _, rest, rfl, hrest, rfl⟩
    exact ⟨t, rest, rfl, hrest⟩
  · rintro ⟨t, rest, rfl, hrest⟩
    exact ⟨t, _, rest, rfl, hrest, rfl⟩

/-! ### Payloads -/

/-- What spells values, one by one. -/
def ValuesSpell (vs : List (Value valid)) (c : List UInt8) : Prop :=
  ∃ chunks, List.Forall₂ (fun v c => writeValue v = .ok c ∨ Odd v c) vs chunks ∧
    c = chunks.flatten

lemma reads_values (n : ℕ) : Reads (readValues n : Read (List (Value valid))) fun vs c =>
    vs.length = n ∧ ValuesSpell vs c := by
  induction n with
  | zero =>
    refine (Reads.pure _).congr fun vs c => ?_
    constructor
    · rintro ⟨rfl, rfl⟩
      exact ⟨rfl, [], .nil, rfl⟩
    · rintro ⟨hlen, chunks, hall, rfl⟩
      obtain rfl := List.eq_nil_of_length_eq_zero hlen
      cases hall
      exact ⟨rfl, rfl⟩
  | succ n ih =>
    refine ((reads_value).bind fun v _ _ => ih.map).congr fun vs c => ?_
    constructor
    · rintro ⟨v, c, _, hv, ⟨vs, rfl, hlen, chunks, hall, rfl⟩, rfl⟩
      exact ⟨congrArg (· + 1) hlen, c :: chunks, .cons hv hall, rfl⟩
    · rintro ⟨hlen, chunks, hall, rfl⟩
      cases hall with
      | nil => cases hlen
      | @cons v c vs chunks hv hall =>
        exact ⟨v, c, _, hv, ⟨vs, rfl, Nat.succ.inj hlen, chunks, hall, rfl⟩, rfl⟩

lemma reads_check (p : Bool) : Reads (check p) fun _ c => p = true ∧ c = [] := by
  cases p with
  | false => exact (Reads.malformed).congr fun _ _ => by simp
  | true => exact (Reads.pure ()).congr fun _ _ => by simp

/-- What stands in front of the values. -/
def header (cursor : PageCursor valid) : List UInt8 :=
  format :: toBeBytes cursor.ordering ++ [UInt8.ofNat cursor.key.length]

lemma length_header (cursor : PageCursor valid) : (header cursor).length = 10 := by
  simp [header]

/-- How a cursor is spelled. -/
def CursorSpells (cursor : PageCursor valid) (c : List UInt8) : Prop :=
  cursor.key.length ≤ maxKeyColumns ∧ ∃ body, ValuesSpell cursor.key body ∧
    c = header cursor ++ body

lemma reads_cursor : Reads (readCursor : Read (PageCursor valid)) CursorSpells := by
  refine ((Reads.byte).bind fun b _ _ => (reads_check _).bind fun _ _ _ =>
    (Reads.number 8).bind fun ordering _ _ => (Reads.byte).bind fun arity _ _ =>
      (reads_check _).bind fun _ _ _ => (reads_values arity.toNat).map).congr fun cursor c => ?_
  constructor
  · rintro ⟨b, _, _, rfl, ⟨_, _, _, ⟨hb, rfl⟩, ⟨ordering, _, _, rfl, ⟨arity, _, _, rfl, ⟨_, _, _,
      ⟨harity, rfl⟩, ⟨key, rfl, hlength, hkey⟩, rfl⟩, rfl⟩, rfl⟩, rfl⟩, rfl⟩
    obtain rfl := of_decide_eq_true hb
    refine ⟨hlength ▸ of_decide_eq_true harity, _, hkey, ?_⟩
    simp [header, hlength]
  · rintro ⟨hlength, body, hbody, rfl⟩
    have harity : (UInt8.ofNat cursor.key.length).toNat = cursor.key.length :=
      UInt8.toNat_ofNat_of_lt' (hlength.trans_lt (by decide))
    refine ⟨format, _, _, rfl, ⟨(), _, _, ⟨decide_eq_true rfl, rfl⟩, ⟨cursor.ordering, _, _, rfl,
      ⟨UInt8.ofNat cursor.key.length, _, _, rfl, ⟨(), _, _, ⟨?_, rfl⟩,
        ⟨cursor.key, rfl, harity.symm, hbody⟩, rfl⟩, rfl⟩, rfl⟩, rfl⟩, ?_⟩
    · rw [harity]
      exact decide_eq_true hlength
    · simp [header]

lemma readPayload_apply (r : Reader) : (readPayload : Read (PageCursor valid)) r =
    (readCursor r).bind fun p =>
      if p.2.position = p.2.bytes.length then .ok p else .error .malformed := by
  refine congrArg (readCursor r).bind (funext fun p => ?_)
  change (check (decide (p.2.position = p.2.bytes.length)) p.2).bind _ = _
  by_cases hend : p.2.position = p.2.bytes.length
  · rw [if_pos hend, decide_eq_true hend]
    rfl
  · rw [if_neg hend, decide_eq_false hend]
    rfl

lemma fromPayload_eq_ok_iff {payload : List UInt8} {cursor : PageCursor valid} :
    fromPayload payload = .ok cursor ↔ payload.length < 2 ^ 64 ∧ CursorSpells cursor payload := by
  rw [← (reads_cursor).whole_iff, fromPayload, Fallible.map_eq_ok, readPayload_apply]
  constructor
  · rintro ⟨p, h, rfl⟩
    obtain ⟨p', hread, h⟩ := Fallible.bind_eq_ok.mp h
    split_ifs at h with hend
    obtain rfl := Except.ok.inj h
    exact ⟨p'.2, hread, hend⟩
  · rintro ⟨r, hread, hend⟩
    refine ⟨(cursor, r), ?_, rfl⟩
    exact Fallible.bind_eq_ok.mpr ⟨(cursor, r), hread, if_pos hend⟩

lemma fromPayload_ne_panic (payload : List UInt8) :
    (fromPayload payload : Except Fault (PageCursor valid)) ≠ .error .panic := by
  unfold fromPayload
  rw [readPayload_apply]
  have hne : (readCursor : Read (PageCursor valid)) (Reader.new payload) ≠ .error .panic :=
    (reads_cursor).ne_panic _
  cases hread : (readCursor : Read (PageCursor valid)) (Reader.new payload) with
  | error e =>
    rintro ⟨⟩
    exact hne hread
  | ok p =>
    rw [Except.bind]
    split_ifs <;> rintro ⟨⟩

lemma toPayload_eq_ok_iff {cursor : PageCursor valid} {payload : List UInt8} :
    toPayload cursor = .ok payload ↔ cursor.key.length ≤ maxKeyColumns ∧
      ∃ chunks, List.Forall₂ (fun v c => writeValue v = .ok c) cursor.key chunks ∧
        payload = header cursor ++ chunks.flatten ∧ payload.length ≤ maxPayload := by
  unfold toPayload
  split_ifs with hlarge
  · simp [hlarge]
  rw [and_iff_right (not_lt.mp hlarge), Fallible.bind_eq_ok]
  refine exists_congr fun chunks => ?_
  rw [Fallible.mapM_eq_ok_iff]
  refine and_congr_right' ?_
  have hout : format :: toBeBytes cursor.ordering ++
      UInt8.ofNat cursor.key.length :: chunks.flatten = header cursor ++ chunks.flatten := by
    simp [header]
  dsimp only
  rw [hout]
  split_ifs with hlong
  · simp only [false_iff]
    rintro ⟨rfl, hle⟩
    exact absurd hle (not_le.mpr hlong)
  · rw [Except.ok.injEq]
    exact ⟨fun h => ⟨h.symm, h ▸ not_lt.mp hlong⟩, fun h => h.1.symm⟩

/-! ### One spelling of every cursor -/

/-- A byte string that is read to its end as so many values. -/
def IsValues (valid : String → Bool) (bytes : List UInt8) : Prop :=
  ∃ (n : ℕ) (vs : List (Value valid)) (r : Reader),
    readValues n (Reader.new bytes) = .ok (vs, r) ∧ r.position = r.bytes.length

/-- Every `Bool` among the values is spelled by one of the bytes that are written for it. -/
def CanonicalValues (valid : String → Bool) (bytes : List UInt8) : Prop :=
  ∀ before flag after, bytes = before ++ Tag.bool.byte :: flag :: after →
    IsValues valid before → flag.toNat ≤ 1

/-- The same, of the values in a payload. -/
def Canonical (valid : String → Bool) (payload : List UInt8) : Prop :=
  CanonicalValues valid (payload.drop 10)

lemma isValues_iff {bytes : List UInt8} :
    IsValues valid bytes ↔
      bytes.length < 2 ^ 64 ∧ ∃ vs : List (Value valid), ValuesSpell vs bytes := by
  constructor
  · rintro ⟨n, vs, h⟩
    obtain ⟨hlt, -, hvs⟩ := (reads_values n).whole_iff.mp h
    exact ⟨hlt, vs, hvs⟩
  · rintro ⟨hlt, vs, hvs⟩
    exact ⟨vs.length, vs, (reads_values vs.length).whole_iff.mpr ⟨hlt, rfl, hvs⟩⟩

lemma isValues_nil : IsValues valid [] := ⟨0, [], Reader.new [], rfl, rfl⟩

lemma ne_nil_of_spells {v : Value valid} {c : List UInt8} (h : writeValue v = .ok c ∨ Odd v c) :
    c ≠ [] := by
  obtain ⟨t, rest, rfl, -⟩ := (spells_iff v c).mpr h
  exact List.cons_ne_nil _ _

/-- Values go on with values. -/
lemma isValues_append_iff {v : Value valid} {c bytes : List UInt8}
    (hv : writeValue v = .ok c ∨ Odd v c) (hlt : (c ++ bytes).length < 2 ^ 64) :
    IsValues valid (c ++ bytes) ↔ IsValues valid bytes := by
  have hlength : (c ++ bytes).length = c.length + bytes.length := List.length_append
  rw [isValues_iff, isValues_iff, and_iff_right hlt, and_iff_right (by omega)]
  constructor
  · rintro ⟨vs, chunks, hall, hflat⟩
    cases hall with
    | nil => exact absurd (List.append_eq_nil_iff.mp hflat).1 (ne_nil_of_spells hv)
    | @cons w d vs chunks hw hall =>
      rw [List.flatten_cons] at hflat
      have hlength' := congrArg List.length hflat
      rw [List.length_append, List.length_append] at hlength'
      obtain ⟨-, rfl⟩ := (reads_value).unique hv hw (by omega) (by omega) hflat
      exact ⟨vs, chunks, hall, List.append_cancel_left hflat⟩
  · rintro ⟨vs, chunks, hall, rfl⟩
    exact ⟨v :: vs, c :: chunks, .cons hv hall, rfl⟩

/-- What is written for values is canonical, and what else spells them is not. -/
lemma forall₂_writeValue_iff {vs : List (Value valid)} {chunks : List (List UInt8)}
    (hall : List.Forall₂ (fun v c => writeValue v = .ok c ∨ Odd v c) vs chunks)
    (hlt : chunks.flatten.length < 2 ^ 64) :
    List.Forall₂ (fun v c => writeValue v = .ok c) vs chunks ↔
      CanonicalValues valid chunks.flatten := by
  induction hall with
  | nil =>
    refine iff_of_true .nil fun before flag after heq => ?_
    exact absurd heq.symm (List.append_ne_nil_of_right_ne_nil _ (List.cons_ne_nil _ _))
  | @cons v c vs chunks hv hall ih =>
    rw [List.flatten_cons] at hlt ⊢
    have hlength : (c ++ chunks.flatten).length = c.length + chunks.flatten.length :=
      List.length_append
    rw [List.forall₂_cons, ih (by omega)]
    constructor
    · rintro ⟨hwrite, hcanonical⟩ before flag after heq hbefore
      have hlength' := congrArg List.length heq
      rw [List.length_append] at hlength'
      obtain ⟨-, us, chunks', hall', rfl⟩ := isValues_iff.1 hbefore
      cases hall' with
      | nil =>
        -- the `Bool` is the first of the values
        have hflag : Odd (.bool (decide (flag ≠ 0)) : Value valid) [Tag.bool.byte, flag] ∨
            writeValue (.bool (decide (flag ≠ 0)) : Value valid) =
              .ok [Tag.bool.byte, flag] := by
          exact ((spells_iff _ _).mp ⟨.bool, [flag], rfl, flag, rfl, rfl⟩).symm
        have hshort : [Tag.bool.byte, flag].length < 2 ^ 64 := (by decide : 2 < 2 ^ 64)
        obtain ⟨rfl, rfl⟩ := (reads_value).unique hv hflag.symm (by omega) hshort heq
        obtain hflag := Except.ok.inj hwrite
        rw [List.cons.injEq, List.cons.injEq] at hflag
        rw [← hflag.2.1]
        split <;> decide
      | @cons u d us chunks' hu hall' =>
        rw [List.flatten_cons, List.append_assoc] at heq
        obtain ⟨-, rfl⟩ := (reads_value).unique hv hu (by omega)
          (by simp only [List.flatten_cons, List.length_append] at hlength'; omega) heq
        refine hcanonical chunks'.flatten flag after (List.append_cancel_left heq) ?_
        refine (isValues_append_iff hu ?_).mp hbefore
        simp only [List.flatten_cons, List.length_append] at hlength' ⊢
        omega
    · intro hcanonical
      constructor
      · rcases hv with hwrite | ⟨rfl, b, rfl, hb⟩
        · exact hwrite
        · exact absurd (hcanonical [] b chunks.flatten rfl isValues_nil) (not_le.mpr hb)
      · rintro before flag after heq hbefore
        refine hcanonical (c ++ before) flag after ?_ ((isValues_append_iff hv ?_).mpr hbefore)
        · rw [heq, List.append_assoc]
        · have hlength' := congrArg List.length heq
          rw [List.length_append] at hlength' ⊢
          omega

/-- Cursors survive being written and read. What is read is written in the same bytes exactly if
it fits into a token and its `Bool`s are spelled as they are written. No bytes fault the reader. -/
theorem payload_bijective_iff (valid : String → Bool) :
    (∀ (cursor : PageCursor valid) payload,
      toPayload cursor = .ok payload → fromPayload payload = .ok cursor) ∧
    (∀ payload, (fromPayload payload : Except Fault (PageCursor valid)) ≠ .error .panic) ∧
    ∀ payload (cursor : PageCursor valid), fromPayload payload = .ok cursor →
      (toPayload cursor = .ok payload ↔
        payload.length ≤ maxPayload ∧ Canonical valid payload) := by
  refine ⟨fun cursor payload h => ?_, fromPayload_ne_panic, fun payload cursor h => ?_⟩
  · obtain ⟨harity, chunks, hall, rfl, hle⟩ := toPayload_eq_ok_iff.mp h
    refine fromPayload_eq_ok_iff.mpr ⟨hle.trans_lt (by decide), harity, _, ⟨chunks, ?_, rfl⟩, rfl⟩
    exact hall.imp fun _ _ => .inl
  · obtain ⟨hlt, harity, _, ⟨chunks, hall, rfl⟩, rfl⟩ := fromPayload_eq_ok_iff.mp h
    have hvalues : chunks.flatten.length < 2 ^ 64 := by
      rw [List.length_append] at hlt
      omega
    have hdrop : (header cursor ++ chunks.flatten).drop 10 = chunks.flatten := by
      rw [← length_header cursor, List.drop_left]
    rw [toPayload_eq_ok_iff, Canonical, hdrop]
    constructor
    · rintro ⟨-, chunks', hall', heq, hle⟩
      obtain hflat := List.append_cancel_left heq
      rw [hflat] at hvalues hle ⊢
      exact ⟨hle, (forall₂_writeValue_iff (hall'.imp fun _ _ => .inl) hvalues).mp hall'⟩
    · rintro ⟨hle, hcanonical⟩
      exact ⟨harity, chunks, (forall₂_writeValue_iff hall hvalues).mpr hcanonical, rfl, hle⟩

theorem payload_bijective_iff_flag :
    fromPayload [1, 0, 0, 0, 0, 0, 0, 0, 0, 1, 1, 1] =
        .ok (⟨0, [.bool true]⟩ : PageCursor fun _ => true) ∧
      (toPayload (⟨0, [.bool true]⟩ : PageCursor fun _ => true) =
          .ok [1, 0, 0, 0, 0, 0, 0, 0, 0, 1, 1, 1] ↔
        [1, 0, 0, 0, 0, 0, 0, 0, 0, 1, 1, (1 : UInt8)].length ≤ maxPayload ∧
          Canonical (fun _ => true) [1, 0, 0, 0, 0, 0, 0, 0, 0, 1, 1, 1]) := by
  have hwritten : toPayload (⟨0, [.bool true]⟩ : PageCursor fun _ => true) =
      .ok [1, 0, 0, 0, 0, 0, 0, 0, 0, 1, 1, 1] := rfl
  have hread := (payload_bijective_iff fun _ => true).1 _ _ hwritten
  exact ⟨hread, (payload_bijective_iff fun _ => true).2.2 _ _ hread⟩

/-- `true` is spelled by every byte but one: a second spelling of a cursor is accepted. -/
theorem payload_not_bijective : ∃ cursor : PageCursor fun _ => true,
    fromPayload [1, 0, 0, 0, 0, 0, 0, 0, 0, 1, 1, 2] = .ok cursor ∧
      toPayload cursor = .ok [1, 0, 0, 0, 0, 0, 0, 0, 0, 1, 1, 1] ∧
      toPayload cursor ≠ .ok [1, 0, 0, 0, 0, 0, 0, 0, 0, 1, 1, 2] := by
  have hwritten : toPayload (⟨0, [.bool true]⟩ : PageCursor fun _ => true) =
      .ok [1, 0, 0, 0, 0, 0, 0, 0, 0, 1, 1, 1] := rfl
  refine ⟨⟨0, [.bool true]⟩, rfl, hwritten, ?_⟩
  rw [hwritten]
  exact fun h => absurd (Except.ok.inj h) (by decide)

end Moso.Orm.Cursor
