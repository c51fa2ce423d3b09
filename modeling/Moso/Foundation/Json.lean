import Moso.Foundation.Text

/-!
# JSON values and pointers into them

A JSON value as a tree, its compact rendering, and JSON pointers: a pointer is text, cut at its
slashes into tokens, and each token leads from an object or an array to one of its values.
-/

/-- The entries of an object are in the order in which they were put in. -/
inductive Json where
  | null
  | bool (value : Bool)
  /-- A number, as it is written. -/
  | number (text : List Char)
  | string (text : List Char)
  | array (items : List Json)
  | object (entries : List (List Char × Json))

namespace Json

open Text (push)

/-! ### Rendering -/

def hexDigit (n : ℕ) : Char := "0123456789abcdef".toList.getD n '0'

def escapeChar (c : Char) : List Char :=
  if c = '"' then ['\\', '"']
  else if c = '\\' then ['\\', '\\']
  else if c = '\n' then ['\\', 'n']
  else if c = '\r' then ['\\', 'r']
  else if c = '\t' then ['\\', 't']
  else if c.toNat = 8 then ['\\', 'b']
  else if c.toNat = 12 then ['\\', 'f']
  else if c.toNat < 32 then
    ['\\', 'u', '0', '0', hexDigit (c.toNat / 16), hexDigit (c.toNat % 16)]
  else [c]

def quote (text : List Char) : List Char := '"' :: text.flatMap escapeChar ++ ['"']

mutual

/-- The compact rendering. -/
def render : Json → List Char
  | .null           => ['n', 'u', 'l', 'l']
  | .bool true      => ['t', 'r', 'u', 'e']
  | .bool false     => ['f', 'a', 'l', 's', 'e']
  | .number text    => text
  | .string text    => quote text
  | .array items    => '[' :: renderItems items ++ [']']
  | .object entries => '{' :: renderEntries entries ++ ['}']

def renderItems : List Json → List Char
  | []           => []
  | [v]          => render v
  | v :: w :: vs => render v ++ ',' :: renderItems (w :: vs)

def renderEntries : List (List Char × Json) → List Char
  | []               => []
  | [(k, v)]         => quote k ++ ':' :: render v
  | (k, v) :: e :: es => quote k ++ ':' :: render v ++ ',' :: renderEntries (e :: es)

end

/-! ### Pointers -/

/-- Text cut at a separator: one piece more than there are separators. -/
def split (sep : Char) : List Char → List (List Char)
  | []      => [[]]
  | c :: cs => if c = sep then [] :: split sep cs else push c (split sep cs)

/-- Text cut at the last separator. -/
def rsplitOnce (sep : Char) : List Char → Option (List Char × List Char)
  | []      => none
  | c :: cs => match rsplitOnce sep cs with
    | some (before, after) => some (c :: before, after)
    | none => if c = sep then some ([], cs) else none

/-- `~` and a digit, for a character that a token has. -/
def replaceEscape (digit by' : Char) : List Char → List Char
  | '~' :: c :: cs =>
    if c = digit then by' :: replaceEscape digit by' cs else '~' :: replaceEscape digit by' (c :: cs)
  | c :: cs => c :: replaceEscape digit by' cs
  | [] => []

/-- The token that a piece of a pointer stands for. -/
def unescapeToken (token : List Char) : List Char :=
  replaceEscape '0' '~' (replaceEscape '1' '/' token)

/-- The tokens of a pointer; text that is no pointer has none. -/
def tokens : List Char → Option (List (List Char))
  | []        => some []
  | c :: rest => if c = '/' then some ((split '/' rest).map unescapeToken) else none

/-- The largest `usize`. -/
def usizeMax : ℕ := 18446744073709551615

/-- The index of an array that a token stands for: digits, and no zero in front of others. -/
def parseIndex (token : List Char) : Option ℕ :=
  if token.head? = some '+' ∨ token.head? = some '0' ∧ token.length ≠ 1 then none
  else Decimal.parse usizeMax token

/-- Change the value that the tokens lead to, if they lead to one. -/
def modify (f : Json → Json) : List (List Char) → Json → Json
  | [], v => f v
  | token :: rest, .object entries =>
    .object (entries.map fun e => if e.1 = token then (e.1, modify f rest e.2) else e)
  | token :: rest, .array items =>
    match parseIndex token with
    | some i => .array (items.modify i (modify f rest))
    | none => .array items
  | _ :: _, v => v

/-- Change the value that a pointer leads to. -/
def modifyAt (pointer : List Char) (f : Json → Json) (v : Json) : Json :=
  match tokens pointer with
  | some path => modify f path v
  | none => v

variable {sep : Char} {cs before after : List Char}

lemma split_cons (c : Char) :
    split sep (c :: cs) = if c = sep then [] :: split sep cs else push c (split sep cs) := rfl

lemma rsplitOnce_cons (c : Char) : rsplitOnce sep (c :: cs) =
    match rsplitOnce sep cs with
    | some (before, after) => some (c :: before, after)
    | none => if c = sep then some ([], cs) else none := rfl

lemma split_ne_nil : split sep cs ≠ [] := by
  cases cs with
  | nil => exact List.cons_ne_nil _ _
  | cons c cs =>
    rw [split_cons]
    split
    · exact List.cons_ne_nil _ _
    · cases split sep cs <;> exact List.cons_ne_nil _ _

lemma split_append {sep : Char} {before after : List Char} (h : sep ∉ before) :
    split sep (before ++ sep :: after) = before :: split sep after := by
  induction before with
  | nil => exact if_pos rfl
  | cons c before ih =>
    obtain ⟨hc, hbefore⟩ := not_or.mp (mt List.mem_cons.mpr h)
    rw [List.cons_append, split_cons, if_neg (Ne.symm hc), ih hbefore]
    rfl

lemma split_of_notMem {sep : Char} {cs : List Char} (h : sep ∉ cs) : split sep cs = [cs] := by
  induction cs with
  | nil => rfl
  | cons c cs ih =>
    obtain ⟨hc, hcs⟩ := not_or.mp (mt List.mem_cons.mpr h)
    rw [split_cons, if_neg (Ne.symm hc), ih hcs]
    rfl

lemma split_of_rsplitOnce_none (h : rsplitOnce sep cs = none) : split sep cs = [cs] := by
  induction cs with
  | nil => rfl
  | cons c cs ih =>
    rw [rsplitOnce_cons] at h
    cases hcs : rsplitOnce sep cs with
    | some pair =>
      rw [hcs] at h
      cases h
    | none =>
      rw [hcs] at h
      rw [split_cons, if_neg (by simpa using h), ih hcs]
      rfl

/-- What is behind the last separator is the last piece. -/
lemma split_of_rsplitOnce (h : rsplitOnce sep cs = some (before, after)) :
    split sep cs = split sep before ++ [after] := by
  induction cs generalizing before with
  | nil => cases h
  | cons c cs ih =>
    rw [rsplitOnce_cons] at h
    cases hcs : rsplitOnce sep cs with
    | some pair =>
      rw [hcs] at h
      obtain ⟨rfl, rfl⟩ := Prod.mk.inj (Option.some.inj h)
      rw [split_cons, split_cons, ih hcs]
      split
      · rfl
      · exact Text.push_append split_ne_nil
    | none =>
      rw [hcs] at h
      obtain ⟨hc, hpair⟩ := Option.ite_none_right_eq_some.mp h
      obtain ⟨rfl, rfl⟩ := Prod.mk.inj (Option.some.inj hpair)
      have hsplit : split sep (c :: cs) = [] :: split sep cs := if_pos hc
      rw [hsplit, split_of_rsplitOnce_none hcs]
      rfl

lemma rsplitOnce_eq_none : rsplitOnce sep cs = none ↔ sep ∉ cs := by
  induction cs with
  | nil => exact iff_of_true rfl List.not_mem_nil
  | cons c cs ih =>
    rw [rsplitOnce_cons, List.mem_cons, not_or, ← ih]
    cases rsplitOnce sep cs with
    | some pair => exact iff_of_false (Option.some_ne_none _) fun h => Option.some_ne_none _ h.2
    | none =>
      rw [ite_eq_right_iff, and_iff_left rfl, eq_comm]
      exact ⟨fun h hc => Option.some_ne_none _ (h hc), fun h hc => absurd hc h⟩

lemma rsplitOnce_eq_some :
    rsplitOnce sep cs = some (before, after) ↔ cs = before ++ sep :: after ∧ sep ∉ after := by
  induction cs generalizing before with
  | nil => exact iff_of_false (Option.some_ne_none _).symm fun h => by simpa using h.1
  | cons c cs ih =>
    rw [rsplitOnce_cons]
    cases hcs : rsplitOnce sep cs with
    | some pair =>
      obtain ⟨before', after'⟩ := pair
      rw [Option.some.injEq, Prod.mk.injEq]
      constructor
      · rintro ⟨rfl, rfl⟩
        obtain ⟨hcut, hafter⟩ := ih.1 hcs
        exact ⟨congrArg (c :: ·) hcut, hafter⟩
      · rintro ⟨hcut, hafter⟩
        cases before with
        | nil =>
          obtain ⟨-, rfl⟩ := List.cons.inj hcut
          exact absurd (rsplitOnce_eq_none.2 hafter) (by rw [hcs]; exact Option.some_ne_none _)
        | cons b before =>
          obtain ⟨rfl, hrest⟩ := List.cons.inj hcut
          obtain ⟨rfl, rfl⟩ := Prod.mk.inj (Option.some.inj (hcs.symm.trans (ih.2 ⟨hrest, hafter⟩)))
          exact ⟨rfl, rfl⟩
    | none =>
      have hsep := rsplitOnce_eq_none.1 hcs
      rw [Option.ite_none_right_eq_some, Option.some.injEq, Prod.mk.injEq]
      constructor
      · rintro ⟨rfl, rfl, rfl⟩
        exact ⟨rfl, hsep⟩
      · rintro ⟨hcut, hafter⟩
        cases before with
        | nil =>
          obtain ⟨rfl, rfl⟩ := List.cons.inj hcut
          exact ⟨rfl, rfl, rfl⟩
        | cons b before =>
          obtain ⟨-, rfl⟩ := List.cons.inj hcut
          exact absurd (List.mem_append_right _ List.mem_cons_self) hsep

/-- A pointer is its parent's tokens and one token more. -/
lemma tokens_of_rsplitOnce (h : rsplitOnce '/' cs = some (before, after)) :
    tokens cs = (tokens before).map (· ++ [unescapeToken after]) := by
  cases cs with
  | nil => cases h
  | cons c cs =>
    rw [rsplitOnce_cons] at h
    cases hcs : rsplitOnce '/' cs with
    | some pair =>
      rw [hcs] at h
      obtain ⟨rfl, rfl⟩ := Prod.mk.inj (Option.some.inj h)
      rw [tokens, tokens, split_of_rsplitOnce hcs]
      split
      · rw [List.map_append, Option.map_some]
        rfl
      · rfl
    | none =>
      rw [hcs] at h
      obtain ⟨hc, hpair⟩ := Option.ite_none_right_eq_some.mp h
      obtain ⟨rfl, rfl⟩ := Prod.mk.inj (Option.some.inj hpair)
      have htokens : tokens (c :: cs) = some ((split '/' cs).map unescapeToken) := if_pos hc
      rw [htokens, split_of_rsplitOnce_none hcs]
      rfl

/-- Without a slash there is no token. -/
lemma tokens_of_rsplitOnce_none (h : rsplitOnce '/' cs = none) :
    tokens cs = if cs = [] then some [] else none := by
  cases cs with
  | nil => rfl
  | cons c cs =>
    rw [rsplitOnce_cons] at h
    cases hcs : rsplitOnce '/' cs with
    | some pair =>
      rw [hcs] at h
      cases h
    | none =>
      rw [hcs] at h
      rw [tokens, if_neg (by simpa using h), if_neg (List.cons_ne_nil _ _)]

lemma parse_of_parseIndex {token : List Char} {i : ℕ} (h : parseIndex token = some i) :
    Decimal.parse usizeMax token = some i := by
  rw [parseIndex] at h
  split at h
  · cases h
  · exact h

/-- An index is written in one way. -/
lemma parseIndex_injective {a b : List Char} {n : ℕ} (ha : parseIndex a = some n)
    (hb : parseIndex b = some n) : a = b := by
  have hdigits : ∀ {t : List Char}, parseIndex t = some n → Nat.toDigits 10 n = t := by
    intro t ht
    rw [parseIndex] at ht
    split at ht
    · cases ht
    · next hlead =>
      obtain ⟨hplus, hzero⟩ := not_or.mp hlead
      have hparse : Decimal.parse usizeMax t = Decimal.parseDigits usizeMax t := by
        unfold Decimal.parse
        split
        · exact absurd rfl hplus
        · rfl
      rw [hparse, Decimal.parseDigits] at ht
      obtain ⟨⟨hne, hall, -⟩, hn⟩ := Option.ite_none_right_eq_some.mp ht
      rw [← Option.some.inj hn]
      refine Decimal.toDigits_ofDigitChars (List.all_eq_true.mp hall) hne fun h => ?_
      by_contra hlength
      exact hzero ⟨h, hlength⟩
  exact (hdigits ha).symm.trans (hdigits hb)

end Json
