import Moso.Foundation.Fallible
import Moso.Foundation.Word
import Moso.Migrate.Runner
import Moso.Migrate.Splitter

/-!
# The migration file format

A migration is a script whose sections, flags and destructive blocks are marked by comments, one
to a line. The statements of a destructive block are pending as long as its lines are comments.
-/

namespace Moso.Migrate

open Decimal (trim isWhitespace)
open Text (lines trimEnd content)
open Splitter (splitStatements)

/-- `Error::MalformedMigration`. -/
structure Malformed where
  path : String
  reason : String
  help : String
  deriving DecidableEq

def upMarker : String := "-- +migrate up"

def downMarker : String := "-- +migrate down"

def destructiveMarker : String := "-- +migrate destructive"

def endMarker : String := "-- +migrate end"

/-- `str::strip_prefix`. -/
def stripPrefix (start : String) (cs : List Char) : Option (List Char) :=
  cs.dropPrefix? start.toList

/-- `Version::parse`: fourteen digits, with anything between them. -/
def parseVersion (raw : List Char) : Except Malformed Version :=
  let digits := raw.filter Char.isDigit
  if digits.length = 14 then .ok (Nat.ofDigitChars 10 digits 0)
  else .error
    { path := String.ofList raw
      reason := "`" ++ String.ofList raw ++ "` has " ++ toString digits.length ++
        " digits and a version needs 14 (YYYYMMDDHHMMSS)"
      help := "name the file `20260729T101500_add_user_locale.sql`; " ++
        "`moso db make-migration` does it for you" }

/-- `MigrationId::parse`: a version and a name around the first `_`, up to the last `.`. -/
def parseId (fileName : String) : Except Malformed MigrationId :=
  let reversed := fileName.toList.reverse
  let stem :=
    if '.' ∈ reversed then ((reversed.dropWhile (· ≠ '.')).drop 1).reverse else fileName.toList
  if '_' ∈ stem then do
    let version ← parseVersion (stem.takeWhile (· ≠ '_'))
    return ⟨version, String.ofList ((stem.dropWhile (· ≠ '_')).drop 1)⟩
  else .error
    { path := fileName
      reason := "the file name has no `_` separating the version from the name"
      help := "name it `20260729T101500_add_user_locale.sql`" }

/-- A duration in milliseconds. -/
def parseDuration (value : List Char) (fileName key : String) : Except Malformed ℕ :=
  let malformed : Malformed :=
    { path := fileName
      reason := "`-- moso:" ++ key ++ " " ++ String.ofList value ++ "` is not a duration"
      help := "write it as `5s`, `500ms` or `2min`" }
  let number := value.takeWhile Char.isDigit
  match Decimal.parseDigits u64Max number with
  | none => .error malformed
  | some number =>
    match String.ofList (trim (value.dropWhile Char.isDigit)) with
    | "" | "s" | "sec" | "secs" => .ok (number * 1000)
    | "ms" => .ok number
    -- the product is taken in 64 bits
    | "min" | "m" => .ok (number * 60 % (u64Max + 1) * 1000)
    | _ => .error malformed

/-- A line `-- moso:…` of the header. -/
def applyDirective (file : MigrationFile) (directive : List Char) (fileName : String) :
    Except Malformed MigrationFile :=
  let key := String.ofList (directive.takeWhile fun c => !isWhitespace c)
  let value := trim ((directive.dropWhile fun c => !isWhitespace c).drop 1)
  match key with
  | "reversible"     => .ok { file with reversible := true }
  | "irreversible"   => .ok { file with reversible := false }
  | "generated-from" => .ok file
  | "transactional"  =>
    let off := ["false", "no", "off"].map String.toList
    .ok { file with transactional := value ∉ off }
  | "destructive"    => .ok file
  | "replaces"       => do
    let versions ← (((value.splitOn ',').map trim).filter fun v => v ≠ []).mapM parseVersion
    return { file with replaces := file.replaces ++ versions }
  | "lock-timeout"   => do
    return { file with lockTimeout := ← parseDuration value fileName key }
  | "statement-timeout" => do
    return { file with statementTimeout := ← parseDuration value fileName key }
  | other => .error
    { path := fileName
      reason := "`-- moso:" ++ other ++ "` is not a directive this build knows"
      help := "the directives are `reversible`, `irreversible`, `transactional`, " ++
        "`lock-timeout`, `statement-timeout`, `destructive`, `replaces` and `generated-from`" }

/-- A directive sets flags, timeouts and replaced versions, and nothing else. -/
lemma eq_of_applyDirective {file file' : MigrationFile} {directive : List Char} {fileName : String}
    (h : applyDirective file directive fileName = .ok file') :
    ∃ reversible transactional replaces lockTimeout statementTimeout,
      file' = { file with
        reversible := reversible
        transactional := transactional
        replaces := replaces
        lockTimeout := lockTimeout
        statementTimeout := statementTimeout } := by
  rw [applyDirective] at h
  dsimp only at h
  split at h
  · obtain rfl := Except.ok.inj h
    exact ⟨_, _, _, _, _, rfl⟩
  · obtain rfl := Except.ok.inj h
    exact ⟨_, _, _, _, _, rfl⟩
  · obtain rfl := Except.ok.inj h
    exact ⟨_, _, _, _, _, rfl⟩
  · obtain rfl := Except.ok.inj h
    exact ⟨_, _, _, _, _, rfl⟩
  · obtain rfl := Except.ok.inj h
    exact ⟨_, _, _, _, _, rfl⟩
  · obtain ⟨versions, -, h⟩ := Fallible.bind_eq_ok.mp h
    obtain rfl := Except.ok.inj h
    exact ⟨_, _, _, _, _, rfl⟩
  · obtain ⟨timeout, -, h⟩ := Fallible.bind_eq_ok.mp h
    obtain rfl := Except.ok.inj h
    exact ⟨_, _, _, _, _, rfl⟩
  · obtain ⟨timeout, -, h⟩ := Fallible.bind_eq_ok.mp h
    obtain rfl := Except.ok.inj h
    exact ⟨_, _, _, _, _, rfl⟩
  · cases h

inductive FileSection where
  | header
  | up
  | down
  deriving DecidableEq

/-- What was read so far. An open destructive block has its reason and its commented lines. -/
structure FileReader where
  file : MigrationFile
  inSection : FileSection := .header
  up : List Char := []
  down : List Char := []
  inDestructive : Option (List Char × List Char) := none
  lastWarning : List Char := []
  sawUpMarker : Bool := false

namespace FileReader

variable (unicode : Char → Bool) (fileName : String)

/-- A line for the section that is being read. -/
def push (s : FileReader) (line : List Char) : FileReader :=
  if s.inSection = .down then { s with down := s.down ++ line ++ ['\n'] }
  else { s with up := s.up ++ line ++ ['\n'] }

/-- A line of an open destructive block. -/
def readDestructive (s : FileReader) (reason buffer trimmed : List Char) : FileReader :=
  let compact := trim trimmed
  if compact = endMarker.toList then
    let pending :=
      if trim buffer = [] then []
      else [{ reason := String.ofList reason,
              statements := (splitStatements unicode buffer).map String.ofList }]
    { s with
      file := { s.file with pendingDestructive := s.file.pendingDestructive ++ pending }
      inDestructive := none }
  else
    match stripPrefix "--" compact with
    | some rest =>
      let line := (stripPrefix " " rest).getD rest
      { s with inDestructive := some (reason, buffer ++ line ++ ['\n']) }
    -- a line that is not a comment was let through by hand
    | none => s.push trimmed

/-- A line of the header that is no marker. -/
def readHeader (s : FileReader) (compact : List Char) : Except Malformed FileReader :=
  match stripPrefix "-- moso:" compact with
  | some directive => do
    return { s with file := ← applyDirective s.file (trim directive) fileName }
  | none => .ok s

/-- The warning that a line gives, if it is one. -/
def warning (compact : List Char) : Option (List Char) :=
  (stripPrefix "-- ⚠ DESTRUCTIVE:" compact).or (stripPrefix "--⚠ DESTRUCTIVE:" compact)

def step (s : FileReader) (line : List Char) : Except Malformed FileReader :=
  let trimmed := trimEnd line
  let compact := trim trimmed
  match s.inDestructive with
  | some (reason, buffer) => .ok (s.readDestructive unicode reason buffer trimmed)
  | none =>
    if compact = upMarker.toList then .ok { s with inSection := .up, sawUpMarker := true }
    else if compact = downMarker.toList then
      .ok { s with inSection := .down, file := { s.file with reversible := true } }
    else if compact = destructiveMarker.toList then
      let reason :=
        if s.lastWarning = [] then "this operation destroys data".toList else s.lastWarning
      .ok { s with inDestructive := some (reason, []) }
    else
      match warning compact with
      | some warning => .ok { s with lastWarning := (trim warning).rdropWhile (· = '.') }
      | none =>
        if s.inSection = .header then s.readHeader fileName compact
        else .ok (s.push trimmed)

/-- The end of the file. -/
def finish (s : FileReader) : Except Malformed MigrationFile :=
  match s.inDestructive with
  | some (reason, _) => .error
    { path := fileName
      reason := "the destructive block `" ++ String.ofList reason ++ "` is never closed"
      help := "add a `" ++ endMarker ++ "` line after it" }
  | none =>
    if !s.sawUpMarker then .error
      { path := fileName
        reason := "there is no `" ++ upMarker ++ "` line"
        help := "every migration needs `" ++ upMarker ++ "`, and a reversible one also needs `" ++
          downMarker ++ "`" }
    else .ok { s.file with
      up := (splitStatements unicode s.up).map String.ofList
      down := (splitStatements unicode s.down).map String.ofList }

end FileReader

/-- What the checksum of a migration is taken of. -/
def normalise (text : String) : List Char :=
  ['\n'].intercalate (content text.toList)

/-- `MigrationFile::parse`. -/
def parseFile (unicode : Char → Bool) (digest : List Char → String) (fileName text : String) :
    Except Malformed MigrationFile := do
  let id ← parseId fileName
  let file : MigrationFile := { id := id, checksum := digest (normalise text), up := [] }
  let reader ← (lines text.toList).foldlM (FileReader.step unicode fileName) { file := file }
  reader.finish unicode fileName

example : (parseFile (fun _ => false) String.ofList "20260101T000000_x.sql"
    "-- moso:irreversible\n-- +migrate up\nSELECT 1;\n").toOption.map (·.up) =
      some ["SELECT 1"] := by
  decide

end Moso.Migrate
