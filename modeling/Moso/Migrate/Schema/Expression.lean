import Moso.Migrate.Writer

/-!
# The shape in which expressions are compared

A database prints an expression its own way. What is compared is the text without casts, without
parentheses around one name, without quotes at the ends of words, with single spaces and with some
keywords in lower case. Beyond ASCII it is `unicode` that says which characters are alphanumeric.
-/

namespace Moso.Migrate

open Decimal (trim)
open Splitter (isAlphanumeric)

attribute [local instance] Text.lawfulBEq

variable (unicode : Char → Bool)

/-- The characters of words. -/
def isWordChar (c : Char) : Bool := isAlphanumeric unicode c || c = '_'

/-- The characters of words and of quoted names. -/
def isNameChar (c : Char) : Bool := isWordChar unicode c || c = '"'

/-! ### Casts -/

/-- What the names of some types go on with. -/
def castSuffixes : List (List Char) :=
  [" varying".toList, " precision".toList, " with time zone".toList, " without time zone".toList]

def skipSuffix (cs suffix : List Char) : List Char :=
  if suffix <+: cs then cs.drop suffix.length else cs

def skipBrackets : List Char → List Char
  | '[' :: ']' :: cs => skipBrackets cs
  | cs => cs

/-- What stands behind the name of a type. -/
def castRest (cs : List Char) : List Char :=
  skipBrackets (castSuffixes.foldl skipSuffix (cs.dropWhile (isWordChar unicode)))

/-- Removes the casts from a text whose next characters belong to one. -/
def stripCastsFrom : ℕ → List Char → List Char
  | _, [] => []
  | skip + 1, _ :: cs => stripCastsFrom skip cs
  | 0, c :: cs =>
    if c = ':' ∧ cs.head? = some ':' then
      stripCastsFrom (cs.length - (castRest unicode cs.tail).length) cs
    else c :: stripCastsFrom 0 cs

/-- Removes `::type` casts. -/
def stripCasts (cs : List Char) : List Char := stripCastsFrom unicode 0 cs

/-! ### Parentheses -/

/-- Whether the first parenthesis closes at the very end, `depth` others being open. -/
def wrapsTheWhole (depth : ℤ) : List Char → Bool
  | [] => false
  | c :: cs =>
    if c = '(' then wrapsTheWhole (depth + 1) cs
    else if c = ')' then if depth - 1 = 0 then cs = [] else wrapsTheWhole (depth - 1) cs
    else wrapsTheWhole depth cs

lemma length_trim_lt {cs : List Char} (h : 1 < cs.length) : (trim cs.tail.dropLast).length < cs.length := by
  have htrim := Text.length_trim_le cs.tail.dropLast
  rw [List.length_dropLast, List.length_tail] at htrim
  omega

/-- Removes the parentheses that the catalogue wrapped around the whole. -/
def unwrapWhole (value : List Char) : List Char :=
  if _h : 1 < value.length ∧ value.head? = some '(' ∧ value.getLast? = some ')' ∧
      wrapsTheWhole 0 value then
    unwrapWhole (trim value.tail.dropLast)
  else value
termination_by value.length
decreasing_by exact length_trim_lt _h.1

/-- Whether a parenthesis after this character opens an argument list. -/
def opensCall : Option Char → Bool
  | some c => isNameChar unicode c
  | none => false

/-- The name between the parenthesis that was just opened and the next one, which closes it. -/
def wrappedName (cs : List Char) : Option (List Char) :=
  let name := cs.takeWhile (isNameChar unicode)
  if name ≠ [] ∧ (cs.drop name.length).head? = some ')' then some name else none

/-- Removes the parentheses around single names, after the character `previous`, from a text whose
next characters are taken already. -/
def stripParenthesesFrom : Option Char → ℕ → List Char → List Char
  | _, _, [] => []
  | _, skip + 1, c :: cs => stripParenthesesFrom (some c) skip cs
  | previous, 0, c :: cs =>
    if c = '(' ∧ opensCall unicode previous = false then
      match wrappedName unicode cs with
      | some name => name ++ stripParenthesesFrom (some c) (name.length + 1) cs
      | none => c :: stripParenthesesFrom (some c) 0 cs
    else c :: stripParenthesesFrom (some c) 0 cs

/-- Turns `(title)` into `title`. -/
def stripRedundantParentheses (cs : List Char) : List Char := stripParenthesesFrom unicode none 0 cs

/-! ### Words -/

/-- The keywords whose case does not count. -/
def keywords : List (List Char) :=
  ["IS", "NOT", "NULL", "AND", "OR", "TRUE", "FALSE", "IN", "LIKE", "BETWEEN", "ANY", "ALL"].map
    String.toList

/-- `str::trim_matches`. -/
def trimMatches (c : Char) (cs : List Char) : List Char :=
  (cs.dropWhile (· = c)).rdropWhile (· = c)

def normaliseWord (word : List Char) : List Char :=
  let bare := trimMatches '"' word
  if bare.map Char.toUpper ∈ keywords then bare.map Char.toLower else bare

/-- Squashes an expression to a shape two databases can be compared in. -/
def normaliseExpression (raw : List Char) : List Char :=
  let value := stripRedundantParentheses unicode (unwrapWhole (stripCasts unicode (trim raw)))
  [' '].intercalate ((splitWhitespace value).map normaliseWord)

end Moso.Migrate
