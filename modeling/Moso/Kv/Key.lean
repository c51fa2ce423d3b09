import Moso.Foundation.Word
import Mathlib.Data.List.Basic

/-!
# Keys

How a value's name is built: a header of the application, the namespace and its version, and one
escaped segment for each key part, all separated by colons. Text segments come as one string or as
the chunks that a `Display` writes; byte segments are marked and written in hexadecimal.
-/

namespace Moso.Kv

/-- The version of the key layout. -/
def keyFormat : String := "v1"

def keySentinel : String := "moso"

def maxKeyLen : ℕ := 1024

def maxNameLen : ℕ := 48

inductive KeyError where
  | invalidName (kind value reason : String)
  | tooLong (len max : ℕ)
  deriving DecidableEq, Repr

/-- `as_bytes`: the UTF-8 encoding. -/
def asBytes (s : String) : List UInt8 := s.toByteArray.data.toList

/-! ### Names -/

/-- A lower-case ASCII letter, a digit, `_` or `-`. -/
def isNameByte (b : UInt8) : Bool :=
  (97 ≤ b && b ≤ 122) || (48 ≤ b && b ≤ 57) || b == 95 || b == 45

def isValidName (name : String) : Bool :=
  let bytes := asBytes name
  if bytes.isEmpty || bytes.length > maxNameLen then false else bytes.all isNameByte

def validateName (kind name : String) : Except KeyError Unit :=
  if isValidName name then .ok ()
  else
    let reason :=
      if name.isEmpty then "it must not be empty"
      else if (asBytes name).length > maxNameLen then "it must be at most 48 bytes"
      else "only `a`-`z`, `0`-`9`, `_` and `-` are allowed"
    .error (.invalidName kind name reason)

/-! ### Writing into the buffer -/

/-- The sixteen hexadecimal digits. -/
def hexDigit (n : Fin 16) : Char := "0123456789abcdef".toList.get n

/-- The two hexadecimal digits of a byte. -/
def hexByte (byte : UInt8) : List Char :=
  have := byte.toNat_lt
  [hexDigit ⟨byte.toNat / 16, by omega⟩, hexDigit ⟨byte.toNat % 16, by omega⟩]

/-- Push every character. -/
def pushAll (out : String) (chars : List Char) : String := chars.foldl String.push out

/-- The loop of `push_u64`, which fills a buffer of `room` digits from its end. -/
def u64Digits : ℕ → ℕ → List Char → List Char
  | 0, _, digits => digits
  | room + 1, value, digits =>
    if value = 0 then digits
    else u64Digits room (value / 10) (Char.ofNat (48 + value % 10) :: digits)

def pushU64 (out : String) (value : ℕ) : String :=
  if value = 0 then out.push '0' else pushAll out (u64Digits 20 value [])

/-- What one character of a key part is written as. -/
def escapeChar (ch : Char) : List Char :=
  if ch = '\\' then ['\\', '\\']
  else if ch = ':' then ['\\', 'c']
  else if ch = '#' then ['\\', 'h']
  else if ch.toNat < 0x20 ∨ ch.toNat = 0x7f then '\\' :: 'x' :: hexByte ch.toNat.toUInt8
  else [ch]

/-- Append `part` with every separator, marker and control byte escaped. -/
def escapeInto (out part : String) : String :=
  part.toList.foldl (fun out ch => pushAll out (escapeChar ch)) out

/-! ### Building a key -/

structure Key where
  text : String
  prefixLen : ℕ
  deriving DecidableEq, Repr

/-- `starts_with`, the prefix match of `scan` and `delete_prefix`. -/
def Key.startsWith (key start : Key) : Bool := start.text.toList.isPrefixOf key.text.toList

structure KeyBuf where
  text : String
  prefixLen : ℕ
  deriving DecidableEq, Repr

namespace KeyBuf

/-- Start a key in the namespace of an application, or report the name that is not usable. -/
def new (app namespace_ : String) (version : UInt16) : Except KeyError KeyBuf := do
  validateName "application" app
  validateName "namespace" namespace_
  let text := "" ++ keySentinel
  let text := text.push ':' ++ keyFormat
  let text := text.push ':' ++ app
  let text := text.push ':' ++ namespace_
  let text := pushU64 (text.push ':') version.toNat
  .ok { text := text, prefixLen := text.utf8ByteSize }

variable (buf : KeyBuf)

/-- Append one escaped text segment. -/
def segmentStr (part : String) : KeyBuf :=
  { buf with text := escapeInto (buf.text.push ':') part }

/-- Append one byte segment. -/
def segmentBytes (part : List UInt8) : KeyBuf :=
  { buf with
    text := part.foldl (fun text byte => pushAll text (hexByte byte))
      ((buf.text.push ':').push '#') }

/-- Append one segment from the chunks that a `Display` writes, escaping each as it comes. -/
def segmentDisplay (chunks : List String) : KeyBuf :=
  { buf with text := chunks.foldl escapeInto (buf.text.push ':') }

def finish : Except KeyError Key :=
  if buf.text.utf8ByteSize > maxKeyLen then .error (.tooLong buf.text.utf8ByteSize maxKeyLen)
  else .ok { text := buf.text, prefixLen := buf.prefixLen }

/-- A prefix rather than a key: ends in the separator. -/
def finishPrefix : Except KeyError Key := { buf with text := buf.text.push ':' }.finish

end KeyBuf

/-- One call on the buffer. -/
inductive Segment where
  | str (part : String)
  | display (chunks : List String)
  | bytes (part : List UInt8)
  deriving DecidableEq, Repr

/-- What the segment is about: a text or a byte string. -/
def Segment.content : Segment → String ⊕ List UInt8
  | str part => .inl part
  | display chunks => .inl (String.ofList (chunks.flatMap String.toList))
  | bytes part => .inr part

namespace KeyBuf

def segment (buf : KeyBuf) : Segment → KeyBuf
  | .str part => buf.segmentStr part
  | .display chunks => buf.segmentDisplay chunks
  | .bytes part => buf.segmentBytes part

/-- Build a key from its header and its segments. -/
def build (app namespace_ : String) (version : UInt16) (segments : List Segment) :
    Except KeyError Key := do
  let buf ← new app namespace_ version
  (segments.foldl segment buf).finish

/-- Build the prefix of a namespace's keys. -/
def buildPrefix (app namespace_ : String) (version : UInt16) : Except KeyError Key := do
  let buf ← new app namespace_ version
  buf.finishPrefix

end KeyBuf

end Moso.Kv
