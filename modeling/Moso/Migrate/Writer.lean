import Moso.Migrate.File

/-!
# Writing migration files

A plan is written as a file of the migration format: its flags and descriptions in the header,
its statements under the markers, the destructive ones commented out.
-/

namespace Moso.Migrate

open Decimal (isWhitespace)
open Splitter (byteLength)
open Text (lines unlines)

/-- One step of a plan, with the statements that undo it. -/
structure Operation where
  description : String
  up : List String
  down : List String := []
  reversible : Bool := false
  destructive : Bool := false
  nonTransactional : Bool := false
  notes : List String := []

structure Plan where
  operations : List Operation

namespace Plan

variable (plan : Plan)

def isReversible : Bool := plan.operations.all (·.reversible)

def isDestructive : Bool := plan.operations.any (·.destructive)

def requiresNoTransaction : Bool := plan.operations.any (·.nonTransactional)

end Plan

/-! ### The pieces of a file

Each piece is what one `writeln!` writes. -/

def commentLine (text : List Char) : List Char := "-- ".toList ++ text

/-- `str::split_whitespace`. -/
def splitWhitespace (cs : List Char) : List (List Char) :=
  (cs.splitOnP isWhitespace).filter fun word => word ≠ []

/-- Wraps a note at 90 columns, a word at a time. -/
def wrapWord : List (List Char) × List Char → List Char → List (List Char) × List Char
  | (done, current), word =>
    if current = [] then (done, word)
    else if byteLength current + byteLength word + 1 > 90 then (done ++ [current], word)
    else (done, current ++ ' ' :: word)

def wrapComment (note : List Char) : List (List Char) :=
  let (done, current) := (splitWhitespace note).foldl wrapWord ([], [])
  if current = [] then done else done ++ [current]

/-- A statement that is a template of comments has no terminator of its own. -/
def isTemplate (statement : List Char) : Bool :=
  "--".toList.isPrefixOf (statement.dropWhile isWhitespace)

def writeStatement (statement : List Char) : List Char :=
  if isTemplate statement then statement else statement ++ [';']

/-- A statement of a destructive block. -/
def writeCommented (statement : List Char) : List (List Char) :=
  (lines statement).map commentLine ++ if isTemplate statement then [] else [commentLine [';']]

def writeOperation (operation : Operation) : List (List Char) :=
  let statements := operation.up.map String.toList
  operation.notes.flatMap (fun note => (wrapComment note.toList).map commentLine) ++
    if operation.destructive then
      commentLine ("⚠ DESTRUCTIVE: " ++ operation.description ++ ".").toList ::
        commentLine ("Uncomment the block below to apply it, after confirming " ++
          "that no running version").toList ::
        commentLine "of the application still depends on what it removes.".toList ::
        destructiveMarker.toList :: statements.flatMap writeCommented ++ [endMarker.toList]
    else statements.map writeStatement

/-- The flags and the descriptions. -/
def writeHeader (id : MigrationId) (plan : Plan) (snapshot : Option String) : List (List Char) :=
  commentLine (id.fileName "sql").toList ::
    (snapshot.map fun snapshot =>
      commentLine ("moso:generated-from .schema.json@" ++ snapshot).toList).toList ++
    commentLine (if plan.isReversible then "moso:reversible" else "moso:irreversible").toList ::
    (if plan.requiresNoTransaction then [commentLine "moso:transactional false".toList] else []) ++
    (if plan.isDestructive then [commentLine "moso:destructive".toList] else []) ++
    "--".toList :: plan.operations.map fun operation => commentLine operation.description.toList

def writeUp (plan : Plan) : List (List Char) :=
  [] :: upMarker.toList :: plan.operations.flatMap fun operation =>
    if operation.up = [] then [] else [] :: writeOperation operation

/-- What is done last is undone first. -/
def writeDown (plan : Plan) : List (List Char) :=
  [] :: downMarker.toList :: plan.operations.reverse.flatMap fun operation =>
    if operation.down = [] then []
    else [] :: commentLine ("undo: " ++ operation.description).toList ::
      operation.down.map fun statement => statement.toList ++ [';']

def writeMigration (id : MigrationId) (plan : Plan) (snapshot : Option String) : String :=
  String.ofList (unlines (writeHeader id plan snapshot ++ writeUp plan ++
    if plan.isReversible then writeDown plan else []))

/-! ### The name of a file -/

lemma versionDigits {version : Version} (h : version < 10 ^ 14) :
    ((Nat.toDigits 10 version).leftpad 14 '0').length = 14 ∧
      (∀ c ∈ (Nat.toDigits 10 version).leftpad 14 '0', c.isDigit = true) ∧
      Nat.ofDigitChars 10 ((Nat.toDigits 10 version).leftpad 14 '0') 0 = version := by
  have hlength := (Nat.length_toDigits_le_iff (by decide) (by decide)).mpr h
  refine ⟨by simp [List.leftpad, hlength], fun c hc => ?_, ?_⟩
  · rcases List.mem_append.mp hc with hc | hc
    · rw [List.eq_of_mem_replicate hc]
      rfl
    · exact Nat.isDigit_of_mem_toDigits (by decide) (by decide) hc
  · rw [List.leftpad, Nat.ofDigitChars_append, Nat.ofDigitChars_replicate_zero, Nat.mul_zero,
      Nat.ofDigitChars_ten_toDigits]

lemma toList_displayVersion (version : Version) : (displayVersion version).toList =
    ((Nat.toDigits 10 version).leftpad 14 '0').take 8 ++
      'T' :: ((Nat.toDigits 10 version).leftpad 14 '0').drop 8 := by
  simp [displayVersion, String.toList_append]

lemma parseVersion_displayVersion {version : Version} (h : version < 10 ^ 14) :
    parseVersion (displayVersion version).toList = .ok version := by
  obtain ⟨hlength, hdigit, hvalue⟩ := versionDigits h
  have hdigits : (displayVersion version).toList.filter Char.isDigit =
      (Nat.toDigits 10 version).leftpad 14 '0' := by
    rw [toList_displayVersion, List.filter_append, List.filter_cons_of_neg (by decide),
      List.filter_eq_self.mpr fun c hc => hdigit c (List.mem_of_mem_take hc),
      List.filter_eq_self.mpr fun c hc => hdigit c (List.mem_of_mem_drop hc), List.take_append_drop]
  rw [parseVersion, hdigits, if_pos hlength, hvalue]

/-- Neither a digit nor the `T` between them. -/
lemma notMem_displayVersion {version : Version} (h : version < 10 ^ 14) {c : Char}
    (hdigit : c.isDigit = false) (hc : c ≠ 'T') : c ∉ (displayVersion version).toList := by
  intro hmem
  obtain ⟨-, hdigits, -⟩ := versionDigits h
  rw [toList_displayVersion] at hmem
  rcases List.mem_append.mp hmem with hmem | hmem
  · simp [hdigits c (List.mem_of_mem_take hmem)] at hdigit
  · rcases List.mem_cons.mp hmem with rfl | hmem
    · exact hc rfl
    · simp [hdigits c (List.mem_of_mem_drop hmem)] at hdigit

/-- The name of a file says which migration it is. -/
theorem parseId_fileName {id : MigrationId} (h : id.version < 10 ^ 14) :
    parseId (id.fileName "sql") = .ok id := by
  have hname : (id.fileName "sql").toList.reverse =
      "lqs".toList ++ '.' :: ((displayVersion id.version).toList ++ '_' :: id.name.toList).reverse := by
    simp [MigrationId.fileName, String.toList_append]
  have hunderscore : ∀ c ∈ (displayVersion id.version).toList, decide (c ≠ '_') = true := by
    intro c hc
    rw [decide_eq_true_iff]
    rintro rfl
    exact notMem_displayVersion h (by decide) (by decide) hc
  have hdot : ∀ c ∈ "lqs".toList, decide (c ≠ '.') = true := by simp
  rw [parseId, hname, if_pos (by simp), List.dropWhile_append_of_pos hdot,
    List.dropWhile_cons_of_neg (by decide), List.drop_one, List.tail_cons, List.reverse_reverse,
    if_pos (by simp), List.takeWhile_append_of_pos hunderscore,
    List.dropWhile_append_of_pos hunderscore]
  rw [List.takeWhile_cons_of_neg (by decide), List.append_nil, parseVersion_displayVersion h,
    List.dropWhile_cons_of_neg (by decide), List.drop_one, List.tail_cons, String.ofList_toList]
  rfl

end Moso.Migrate
