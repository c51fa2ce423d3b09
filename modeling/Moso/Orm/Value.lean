import Moso.Foundation.Wire
import Moso.Orm.Entity
import Moso.Sql.Timestamp
import Moso.Sql.ValueText

/-!
# Bound values

The values that the builders bind to a statement. `valid` says which texts the JSON parser accepts.
-/

namespace Moso.Orm

open Sql (Date Time Timestamp Interval Decimal)

/-- A value; a floating-point number is its bits. -/
inductive Value (valid : String → Bool) where
  | null (kind : ValueKind)
  | bool (flag : Bool)
  | i8 (number : BitVec (8 * 1))
  | i16 (number : BitVec (8 * 2))
  | i32 (number : BitVec (8 * 4))
  | i64 (number : BitVec (8 * 8))
  | u8 (number : BitVec (8 * 1))
  | u16 (number : BitVec (8 * 2))
  | u32 (number : BitVec (8 * 4))
  | u64 (number : BitVec (8 * 8))
  | f32 (bits : BitVec (8 * 4))
  | f64 (bits : BitVec (8 * 8))
  | decimal (decimal : Decimal)
  | text (text : String)
  | bytes (bytes : List UInt8)
  | uuid (uuid : BitVec (8 * 16))
  | json (json : {text : String // valid text = true})
  | timestamp (timestamp : Timestamp)
  | dateTime (date : Date) (time : Time)
  | date (date : Date)
  | time (time : Time)
  | interval (interval : Interval)
  | array (element : ValueKind) (items : List (Value valid))

/-- The kind of a value; a `NULL` has the kind that it stands in for. -/
def Value.kind {valid : String → Bool} : Value valid → ValueKind
  | .null kind => kind
  | .bool _ => .bool
  | .i8 _ => .i8
  | .i16 _ => .i16
  | .i32 _ => .i32
  | .i64 _ => .i64
  | .u8 _ => .u8
  | .u16 _ => .u16
  | .u32 _ => .u32
  | .u64 _ => .u64
  | .f32 _ => .f32
  | .f64 _ => .f64
  | .decimal _ => .decimal
  | .text _ => .text
  | .bytes _ => .bytes
  | .uuid _ => .uuid
  | .json _ => .json
  | .timestamp _ => .timestamp
  | .dateTime _ _ => .dateTime
  | .date _ => .date
  | .time _ => .time
  | .interval _ => .interval
  | .array _ _ => .array

end Moso.Orm
