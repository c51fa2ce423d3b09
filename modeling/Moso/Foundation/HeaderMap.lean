import Mathlib.Tactic.Common

/-!
# Headers

The headers of a request, in their order, each a name in lower case with the bytes of its value. A
value is text where it is visible ASCII.
-/

abbrev HeaderMap := List (List Char × List UInt8)

namespace HeaderMap

section

variable (headers : HeaderMap) (name : List Char)

/-- The first value of a header, whose name is looked up in lower case. -/
def get : Option (List UInt8) :=
  (headers.find? fun header => header.1 = name.map Char.toLower).map Prod.snd

def getAll : List (List UInt8) :=
  (headers.filter fun header => header.1 = name.map Char.toLower).map Prod.snd

def containsKey : Bool := headers.any fun header => header.1 = name.map Char.toLower

end

/-- A header value as text: visible ASCII, blanks and tabs. -/
def toStr (value : List UInt8) : Option (List Char) :=
  if value.all fun b => b.toNat == 9 || (32 ≤ b.toNat && b.toNat < 127) then
    some (value.map fun b => Char.ofNat b.toNat)
  else none

variable {headers : HeaderMap} {name : List Char} {value : List UInt8}

lemma mem_getAll_of_get (h : headers.get name = some value) : value ∈ headers.getAll name := by
  obtain ⟨header, hfind, rfl⟩ := Option.map_eq_some_iff.mp h
  have hname := List.find?_some hfind
  exact List.mem_map_of_mem (List.mem_filter.mpr ⟨List.mem_of_find?_eq_some hfind, hname⟩)

lemma containsKey_of_mem (h : value ∈ headers.getAll name) : headers.containsKey name = true := by
  obtain ⟨header, hmem, -⟩ := List.mem_map.mp h
  obtain ⟨hmem, hname⟩ := List.mem_filter.mp hmem
  exact List.any_eq_true.mpr ⟨header, hmem, hname⟩

end HeaderMap
