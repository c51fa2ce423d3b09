import Moso.Foundation.Branches

/-!
# Query strings

Decoded pairs of a query string as a tree: `a[b]=c` is the member `b` of `a`, `a[]=c` an element of
the list `a`, and repeated keys make a list.
-/

namespace Moso.Core

abbrev Text := List Char

inductive QueryValue where
  | scalar (value : Text)
  | list (items : List Text)
  | map (members : List (Text × QueryValue))

/-- A 400, with what it says. -/
inductive QueryError where
  | badRequest (detail : Text)
  deriving DecidableEq

/-! ### Keys -/

/-- One step of a bracketed key. -/
inductive Segment where
  /-- `a[b]`: descend into the member named `b`. -/
  | named (name : Text)
  /-- `a[]`: append to a list. -/
  | append
  deriving DecidableEq

def Segment.of (name : Text) : Segment := if name = [] then .append else .named name

/-- The loop of `split_key`, outside of brackets or inside of a pair of them, at what has been read
of the name. There is nothing where the key is a literal name after all. -/
def splitLoop : Option Text → Text → Option (List Segment)
  | none, []         => some []
  | none, c :: rest  => if c = '[' then splitLoop (some []) rest else none
  | some _, []       => none
  | some name, c :: rest =>
    if c = ']' then (splitLoop none rest).map fun segments => .of name :: segments
    else splitLoop (some (name ++ [c])) rest

/-- Split `filter[status]` into `filter` and its member `status`. -/
def splitKey (key : Text) : Text × List Segment :=
  match key.dropWhile (· ≠ '[') with
  | [] => (key, [])
  | brackets =>
    match splitLoop none brackets with
    | some segments => (key.takeWhile (· ≠ '['), segments)
    | none => (key, [])

/-! ### Values -/

def build : List Segment → Text → QueryValue
  | [], value => .scalar value
  | [.append], value => .list [value]
  | .append :: rest, value => .map [([], build rest value)]
  | .named name :: rest, value => .map [(name, build rest value)]

def shapeConflict (key : Text) : QueryError :=
  .badRequest ("query parameter `".toList ++ key ++
    "` is used both as a value and as an object".toList)

/-- One more value at a place. -/
def mergeValue (key value : Text) : QueryValue → Except QueryError QueryValue
  | .scalar existing => .ok (.list [existing, value])
  | .list items => .ok (.list (items ++ [value]))
  | .map _ => .error (shapeConflict key)

/-- The member of a name is merged with something, or comes as a fresh one behind the others. -/
def mergeMember (merged : QueryValue → Except QueryError QueryValue) (name : Text)
    (fresh : QueryValue) : List (Text × QueryValue) → Except QueryError (List (Text × QueryValue))
  | [] => .ok [(name, fresh)]
  | (member, existing) :: members =>
    if member = name then do
      let existing ← merged existing
      return (member, existing) :: members
    else do
      let members ← mergeMember merged name fresh members
      return (member, existing) :: members

def Segment.name : Segment → Text
  | .named name => name
  | .append => []

def merge (key : Text) : List Segment → Text → QueryValue → Except QueryError QueryValue
  | [], value, target => mergeValue key value target
  | [.append], value, target => mergeValue key value target
  | head :: rest, value, target =>
    match target with
    | .map members => do
      let members ← mergeMember (merge key rest value) head.name (build rest value) members
      return .map members
    | _ => .error (shapeConflict key)

/-! ### Parsing -/

/-- The keys in the order in which they were seen first. -/
structure QueryMap where
  entries : List (Text × QueryValue)

namespace QueryMap

def insert (map : QueryMap) (base : Text) (path : List Segment) (value : Text) :
    Except QueryError QueryMap := do
  let entries ← mergeMember (merge base path value) base (build path value) map.entries
  return ⟨entries⟩

/-- One pair of the loop of `QueryMap::parse`. -/
def parsePair (maxDepth : ℕ) (map : QueryMap) (pair : Text × Text) : Except QueryError QueryMap :=
  let (base, path) := splitKey pair.1
  if path.length + 1 > max maxDepth 1 then
    .error (.badRequest ("query parameter `".toList ++ base ++ "` nests deeper than the ".toList ++
      Nat.toDigits 10 maxDepth ++ "-level limit".toList))
  else map.insert base path pair.2

/-- `QueryMap::parse`, from the decoded pairs on. -/
def parse (pairs : List (Text × Text)) (maxDepth : ℕ) : Except QueryError QueryMap :=
  pairs.foldlM (parsePair maxDepth) ⟨[]⟩

end QueryMap

end Moso.Core
