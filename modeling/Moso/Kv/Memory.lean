import Moso.Foundation.Decimal
import Moso.Foundation.Machine
import Moso.Foundation.Word
import Mathlib.Logic.Function.Basic

/-!
# The in-process store

What one key of a `MemoryStore` holds and what each operation makes of it. An operation is split
where the source is: `live` looks the entry up and drops it if it has expired, and the rest of the
operation decides, from the live entry and the clock, on a reply and on at most one change to the
cache. Times are nanoseconds of one monotone clock.
-/

namespace Moso.Kv

abbrev Bytes := List UInt8

/-- What one key holds. A set is kept in insertion order, a sorted set by score, then member. -/
inductive Value where
  | bytes (bytes : Bytes)
  | list (items : List Bytes)
  | set (items : List Bytes)
  | zset (items : List (Float × Bytes))

/-- The name Redis uses in a `WRONGTYPE` error. -/
def Value.typeName : Value → String
  | .bytes _ => "string"
  | .list _  => "list"
  | .set _   => "set"
  | .zset _  => "zset"

/-- A value and when it stops being visible. -/
structure Stored where
  value : Value
  expiresAt : Option ℕ

namespace Stored

/-- How long until this entry expires, if it does. -/
def remaining (st : Stored) (now : ℕ) : Option ℕ := st.expiresAt.map fun at_ => at_ - now

/-- Whether this entry is already invisible. -/
def isExpired (st : Stored) (now : ℕ) : Bool := st.expiresAt.any fun at_ => at_ ≤ now

lemma isExpired_mono {st : Stored} {now : ℕ} (d : ℕ) (h : st.isExpired now = true) :
    st.isExpired (now + d) = true := by
  obtain ⟨at_, hat, hle⟩ := (Option.any_eq_true _ _).mp h
  exact (Option.any_eq_true _ _).mpr ⟨at_, hat, by simp_all; omega⟩

end Stored

/-- The errors of this backend. -/
inductive MemoryError where
  | backend (operation source : String)
  | config (detail : String)
  deriving DecidableEq, Repr

/-- The error a type mismatch produces. -/
def wrongType (operation wanted found : String) : MemoryError :=
  .backend operation
    ("WRONGTYPE: this key holds a " ++ found ++ ", and `" ++ operation ++ "` needs a " ++ wanted)

/-- The error Redis returns for `INCR` on something that is not a number. -/
def notAnInteger (operation : String) : MemoryError :=
  .backend operation "the value under this key is not an integer"

structure SetOpts where
  ttl : Option ℕ
  ifAbsent : Bool
  ifPresent : Bool
  keepTtl : Bool
  deriving DecidableEq, Repr

namespace SetOpts

/-- An unconditional write with no expiry. -/
def new : SetOpts := { ttl := none, ifAbsent := false, ifPresent := false, keepTtl := false }

def validate (opts : SetOpts) : Except MemoryError Unit :=
  if opts.ifAbsent && opts.ifPresent then
    .error (.config "a set cannot be both `if_absent` and `if_present`")
  else if opts.keepTtl && opts.ttl.isSome then
    .error (.config "a set cannot both `keep_ttl` and set a new `ttl`")
  else .ok ()

end SetOpts

inductive Side where
  | left
  | right
  deriving DecidableEq, Repr

/-- What an operation returns. -/
inductive Reply where
  | bool (b : Bool)
  | int (n : ℤ)
  | count (n : ℕ)
  | bytes (b : Option Bytes)
  | duration (d : Option ℕ)
  | members (items : List Bytes)
  deriving DecidableEq, Repr

/-- What an operation does to the cache. -/
inductive Effect where
  | keep
  | put (st : Stored)
  | invalidate

/-- `Instant` for a TTL, if there is one. -/
def deadline (now : ℕ) (ttl : Option ℕ) : Option ℕ := ttl.map fun ttl => now + ttl

/-! ### The containers -/

/-- The byte string under the key. -/
def liveBytes (existing : Option Stored) (operation : String) :
    Except MemoryError (Option Bytes) :=
  match existing with
  | none => .ok none
  | some ⟨.bytes bytes, _⟩ => .ok (some bytes)
  | some st => .error (wrongType operation "string" st.value.typeName)

/-- The list under the key; an absent key is an empty list. -/
def liveList (existing : Option Stored) (operation : String) :
    Except MemoryError (List Bytes × Option ℕ) :=
  match existing with
  | none => .ok ([], none)
  | some ⟨.list items, expiresAt⟩ => .ok (items, expiresAt)
  | some st => .error (wrongType operation "list" st.value.typeName)

/-- The set under the key. -/
def liveSet (existing : Option Stored) (operation : String) :
    Except MemoryError (List Bytes × Option ℕ) :=
  match existing with
  | none => .ok ([], none)
  | some ⟨.set items, expiresAt⟩ => .ok (items, expiresAt)
  | some st => .error (wrongType operation "set" st.value.typeName)

/-- The sorted set under the key. -/
def liveZset (existing : Option Stored) (operation : String) :
    Except MemoryError (List (Float × Bytes) × Option ℕ) :=
  match existing with
  | none => .ok ([], none)
  | some ⟨.zset items, expiresAt⟩ => .ok (items, expiresAt)
  | some st => .error (wrongType operation "zset" st.value.typeName)

/-- Whether a scored member may stand before another: by score, where the two compare and differ,
and by member otherwise. -/
def zsetLe (x y : Float × Bytes) : Bool :=
  if x.1 < y.1 then true else if y.1 < x.1 then false else x.2 ≤ y.2

def sortZset (items : List (Float × Bytes)) : List (Float × Bytes) := items.mergeSort zsetLe

/-- `text.trim().parse::<i64>()` of the text the bytes spell. -/
def parseI64 (bytes : Bytes) : Option ℤ :=
  (String.fromUTF8? ⟨bytes.toArray⟩).bind fun text =>
    Decimal.parseSigned i64Max.toNat (Decimal.trim text.toList)

/-! ### The write operations -/

/-- What a write decides on under the write lock, from the clock and the live entry. -/
abbrev Decision := Except MemoryError (Reply × Effect)

/-- Where the write keeps or renews the expiry. -/
def SetOpts.expiresAt (opts : SetOpts) (now : ℕ) (existing : Option Stored) : Option ℕ :=
  if opts.keepTtl then existing.bind Stored.expiresAt else deadline now opts.ttl

namespace MemoryStore

variable (now : ℕ) (existing : Option Stored)

def set (value : Bytes) (opts : SetOpts) : Decision :=
  if opts.ifAbsent && existing.isSome then .ok (.bool false, .keep)
  else if opts.ifPresent && existing.isNone then .ok (.bool false, .keep)
  else .ok (.bool true, .put ⟨.bytes value, opts.expiresAt now existing⟩)

def delete : Decision := .ok (.bool existing.isSome, .invalidate)

def expire (ttl : ℕ) : Decision :=
  match existing with
  | none    => .ok (.bool false, .keep)
  | some st => .ok (.bool true, .put ⟨st.value, deadline now (some ttl)⟩)

def incr (by_ : ℤ) (ttl : Option ℕ) : Decision := do
  let (current, expiresAt) ←
    match existing with
    | none => .ok (0, deadline now ttl)
    | some ⟨.bytes bytes, expiresAt⟩ =>
      match parseI64 bytes with
      | some parsed => .ok (parsed, expiresAt)
      | none        => .error (notAnInteger "incr")
    | some st => .error (wrongType "incr" "string" st.value.typeName)
  if i64Min ≤ current + by_ ∧ current + by_ ≤ i64Max then
    .ok (.int (current + by_),
      .put ⟨.bytes (toString (current + by_)).toUTF8.toList, expiresAt⟩)
  else .error (.backend "incr" "counter overflowed an i64")

def compareAndSwap (old : Option Bytes) (new : Bytes) (opts : SetOpts) : Decision := do
  let current ← liveBytes existing "compare_and_swap"
  if current ≠ old then .ok (.bool false, .keep)
  else .ok (.bool true, .put ⟨.bytes new, opts.expiresAt now existing⟩)

def compareAndDelete (expected : Bytes) : Decision :=
  match existing with
  | some ⟨.bytes bytes, _⟩ =>
    if bytes = expected then .ok (.bool true, .invalidate) else .ok (.bool false, .keep)
  | _ => .ok (.bool false, .keep)

def compareAndExpire (expected : Bytes) (ttl : ℕ) : Decision :=
  match existing with
  | some ⟨.bytes bytes, _⟩ =>
    if bytes = expected then .ok (.bool true, .put ⟨.bytes bytes, deadline now (some ttl)⟩)
    else .ok (.bool false, .keep)
  | _ => .ok (.bool false, .keep)

def listPush (values : List Bytes) (side : Side) : Decision := do
  let (items, expiresAt) ← liveList existing "list_push"
  let items :=
    match side with
    | .right => items ++ values
    | .left  => values.foldl (fun items value => value :: items) items
  .ok (.count items.length, .put ⟨.list items, expiresAt⟩)

/-- The effect of leaving `items` behind: an empty container is no entry at all. -/
def leave {α : Type} (wrap : List α → Value) (items : List α) (expiresAt : Option ℕ) : Effect :=
  if items.isEmpty then .invalidate else .put ⟨wrap items, expiresAt⟩

/-- One round of the polling loop of `list_pop`. -/
def listPop (side : Side) : Decision := do
  let (items, expiresAt) ← liveList existing "list_pop"
  if items.isEmpty then .ok (.bytes none, .keep)
  else
    match side with
    | .left  => .ok (.bytes items.head?, leave .list items.tail expiresAt)
    | .right => .ok (.bytes items.getLast?, leave .list items.dropLast expiresAt)

/-- Add the members that are not held yet, in order. -/
def addMembers (items : List Bytes) (members : List Bytes) : List Bytes × ℕ :=
  members.foldl
    (fun (items, added) member =>
      if member ∈ items then (items, added) else (items ++ [member], added + 1))
    (items, 0)

def setAdd (members : List Bytes) : Decision := do
  let (items, expiresAt) ← liveSet existing "set_add"
  let (items, added) := addMembers items members
  .ok (.count added, .put ⟨.set items, expiresAt⟩)

def setRemove (members : List Bytes) : Decision := do
  let (items, expiresAt) ← liveSet existing "set_remove"
  let kept := items.filter fun held => held ∉ members
  .ok (.count (items.length - kept.length), leave .set kept expiresAt)

/-- Replace the score of the first entry of `member`. -/
def rescore (score : Float) (member : Bytes) : List (Float × Bytes) → List (Float × Bytes)
  | [] => []
  | (old, held) :: items =>
    if held = member then (score, held) :: items else (old, held) :: rescore score member items

/-- Add or rescore the members, in order. -/
def addScored (items : List (Float × Bytes)) (scored : List (Float × Bytes)) :
    List (Float × Bytes) × ℕ :=
  scored.foldl
    (fun (items, added) (score, member) =>
      if items.any fun entry => entry.2 = member then (rescore score member items, added)
      else (items ++ [(score, member)], added + 1))
    (items, 0)

def zadd (scored : List (Float × Bytes)) : Decision := do
  let (items, expiresAt) ← liveZset existing "zadd"
  let (items, added) := addScored items scored
  .ok (.count added, .put ⟨.zset (sortZset items), expiresAt⟩)

def zrem (members : List Bytes) : Decision := do
  let (items, expiresAt) ← liveZset existing "zrem"
  let kept := items.filter fun entry => entry.2 ∉ members
  .ok (.count (items.length - kept.length), leave .zset kept expiresAt)

end MemoryStore

/-- The operations that hold the write lock. -/
inductive WriteOp where
  | set (value : Bytes) (opts : SetOpts)
  | delete
  | expire (ttl : ℕ)
  | incr (by_ : ℤ) (ttl : Option ℕ)
  | compareAndSwap (old : Option Bytes) (new : Bytes) (opts : SetOpts)
  | compareAndDelete (expected : Bytes)
  | compareAndExpire (expected : Bytes) (ttl : ℕ)
  | listPush (values : List Bytes) (side : Side)
  | listPop (side : Side) (timeout : Option ℕ)
  | setAdd (members : List Bytes)
  | setRemove (members : List Bytes)
  | zadd (scored : List (Float × Bytes))
  | zrem (members : List Bytes)

namespace WriteOp

/-- The check of the options, before the lock is taken. -/
def validate : WriteOp → Except MemoryError Unit
  | set _ opts | compareAndSwap _ _ opts => opts.validate
  | _ => .ok ()

/-- The instant a blocking pop gives up. -/
def giveUpAt (now : ℕ) : WriteOp → Option ℕ
  | listPop _ timeout => deadline now timeout
  | _ => none

/-- The body of the operation, once the live entry is known. -/
def decide (now : ℕ) (existing : Option Stored) : WriteOp → Decision
  | set value opts => MemoryStore.set now existing value opts
  | delete => MemoryStore.delete existing
  | expire ttl => MemoryStore.expire now existing ttl
  | incr by_ ttl => MemoryStore.incr now existing by_ ttl
  | compareAndSwap old new opts => MemoryStore.compareAndSwap now existing old new opts
  | compareAndDelete expected => MemoryStore.compareAndDelete existing expected
  | compareAndExpire expected ttl => MemoryStore.compareAndExpire now existing expected ttl
  | listPush values side => MemoryStore.listPush existing values side
  | listPop side _ => MemoryStore.listPop existing side
  | setAdd members => MemoryStore.setAdd existing members
  | setRemove members => MemoryStore.setRemove existing members
  | zadd scored => MemoryStore.zadd existing scored
  | zrem members => MemoryStore.zrem existing members

end WriteOp

/-- The operations that take no lock. -/
inductive ReadOp where
  | get
  | exists_
  | ttl
  | listLen
  | setMembers
  | zrangeByScore (lo hi : Float) (limit : ℕ)

/-- What a read returns, once the live entry is known. -/
def ReadOp.reply (now : ℕ) (existing : Option Stored) : ReadOp → Except MemoryError Reply
  | get => do return .bytes (← liveBytes existing "get")
  | exists_ => .ok (.bool existing.isSome)
  | ttl => .ok (.duration (existing.bind fun st => st.remaining now))
  | listLen => do return .count (← liveList existing "list_len").1.length
  | setMembers => do return .members (← liveSet existing "set_members").1
  | zrangeByScore lo hi limit => do
    let (items, _) ← liveZset existing "zrange_by_score"
    let inRange := items.filter fun entry => entry.1 ≥ lo ∧ entry.1 ≤ hi
    return .members ((inRange.take limit).map Prod.snd)

end Moso.Kv
