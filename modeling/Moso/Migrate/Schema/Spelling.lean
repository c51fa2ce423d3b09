import Moso.Foundation.Fallible
import Moso.Migrate.Schema.Types

/-!
# Which spellings are read back

A type is read back from its spelling unless its name is cut at a dot, loses white space at its end
or ends like an array, or it is a number without a precision that has a scale.
-/

namespace Moso.Migrate

open Decimal (isWhitespace trim trim_of_forall)
open Json (split_append split_of_notMem)
open Sql (DataType Ident TypeRef)
open Text (trimEnd splitOnce splitOnce_append splitOnce_eq_none eq_append_of_splitOnce
  notMem_of_splitOnce)

/-- A name that its spelling does not change. -/
structure TypeRef.Spellable (name : TypeRef) : Prop where
  /-- The part before the first dot is the schema. -/
  schema : ∀ schema, name.schema = some schema → '.' ∉ schema.chars
  unqualified : name.schema = none → '.' ∉ name.name.chars
  notArray : ¬"[]".toList <:+ name.name.chars
  notSpace : ∀ c, name.name.chars.getLast? = some c → isWhitespace c = false

/-- A type that its spelling does not change. -/
def Spellable : DataType → Prop
  | .numeric none (some _) => False
  | .array element => Spellable element
  | .enum name => TypeRef.Spellable name
  | .custom name => TypeRef.Spellable name
  | _ => True

variable {cs : List Char} {name : TypeRef} {t : DataType}

/-! ### The ends of a spelling -/

lemma stripSuffix_append (last cs : List Char) : stripSuffix last (cs ++ last) = some cs := by
  rw [stripSuffix, if_pos (List.suffix_append cs last)]
  simp

lemma stripSuffix_eq_none {last : List Char} (h : ¬last <:+ cs) : stripSuffix last cs = none :=
  if_neg h

/-- Text between two characters that are not white space. -/
lemma trim_eq_self {c d : Char} (hhead : cs.head? = some c) (hc : isWhitespace c = false)
    (hlast : cs.getLast? = some d) (hd : isWhitespace d = false) : trim cs = cs := by
  have hdrop : ∀ {cs : List Char} {c : Char}, cs.head? = some c → isWhitespace c = false →
      cs.dropWhile isWhitespace = cs := by
    intro cs c hhead hc
    cases cs with
    | nil => cases hhead
    | cons _ cs =>
      obtain rfl := Option.some.inj hhead
      exact List.dropWhile_cons_of_neg (by simp [hc])
  rw [trim, hdrop hhead hc, hdrop (by rwa [List.head?_reverse]) hd, List.reverse_reverse]

lemma trim_append {start : List Char} {c d : Char} (hhead : start.head? = some c)
    (hc : isWhitespace c = false) (hlast : start.getLast? = some d) (hd : isWhitespace d = false)
    (cs : List Char) : trim (start ++ cs) = start ++ trimEnd cs := by
  obtain ⟨start', rfl⟩ : ∃ start', start = start' ++ [d] :=
    ⟨start.dropLast, (List.dropLast_append_getLast? d hlast).symm⟩
  have hdrop : (start' ++ [d] ++ cs).dropWhile isWhitespace = start' ++ [d] ++ cs := by
    cases hstart : start' ++ [d] with
    | nil => simp at hstart
    | cons c' _ =>
      rw [hstart] at hhead
      obtain rfl := Option.some.inj hhead
      exact List.dropWhile_cons_of_neg (by simp [hc])
  rw [Text.trim_eq, hdrop]
  clear hdrop
  induction cs using List.reverseRecOn with
  | nil =>
    rw [List.append_nil, Text.trimEnd_nil, List.append_nil, trimEnd,
      List.rdropWhile_concat_neg _ _ _ (by simp [hd])]
  | append_singleton cs c ih =>
    rw [← List.append_assoc]
    unfold trimEnd at ih ⊢
    by_cases hspace : isWhitespace c = true
    · rw [List.rdropWhile_concat_pos _ _ _ hspace, List.rdropWhile_concat_pos _ _ _ hspace, ih]
    · rw [List.rdropWhile_concat_neg _ _ _ hspace, List.rdropWhile_concat_neg _ _ _ hspace,
        List.append_assoc]

/-- The last two characters behind one that is not the first of them. -/
lemma suffix_of_suffix_append {start : List Char} {c : Char} (hc : c ≠ '[') (hcs : cs ≠ [])
    (h : "[]".toList <:+ start ++ c :: cs) : "[]".toList <:+ cs := by
  rw [← List.reverse_prefix] at h ⊢
  have hreverse : (start ++ c :: cs).reverse = cs.reverse ++ c :: start.reverse := by simp
  rw [hreverse] at h
  have hne : cs.reverse ≠ [] := by simpa using hcs
  obtain ⟨d, rest, hrest⟩ := List.exists_cons_of_ne_nil hne
  rw [hrest] at h ⊢
  change [']', '['] <+: _ at h
  change [']', '['] <+: _
  obtain ⟨hd, hnext⟩ := List.cons_prefix_cons.mp h
  cases rest with
  | nil => exact absurd (List.cons_prefix_cons.mp hnext).1.symm hc
  | cons e rest =>
    rw [← hd, ← (List.cons_prefix_cons.mp hnext).1]
    exact List.prefix_append [']', '['] rest

/-! ### Reading -/

lemma parse_eq (cs : List Char) : parse cs = match stripSuffix "[]".toList (trim cs) with
    | some element => (parse element).map .array
    | none => parseElement (trim cs) := by
  rw [parse]
  split <;> next h => rw [h]

lemma parse_of_trim_eq (htrim : trim cs = cs) (h : ¬"[]".toList <:+ cs) :
    parse cs = parseElement cs := by
  rw [parse_eq, htrim, stripSuffix_eq_none h]

/-- A name as it is read is spelled as it stands. -/
lemma parseTypeRef_eq_ok : parseTypeRef cs = .ok name ↔ spellTypeRef name = cs ∧
    (∀ schema, name.schema = some schema → '.' ∉ schema.chars) ∧
    (name.schema = none → '.' ∉ name.name.chars) := by
  have hident : ∀ {raw : List Char} {ident : Ident}, mkIdent raw = .ok ident → ident.chars = raw := by
    intro raw ident h
    unfold mkIdent at h
    cases hraw : Ident.mk' raw with
    | ok other =>
      rw [hraw] at h
      obtain rfl := Except.ok.inj h
      exact Ident.chars_of_mk' hraw
    | error e =>
      rw [hraw] at h
      cases h
  have hchars : ∀ ident : Ident, mkIdent ident.chars = .ok ident := by
    intro ident
    rw [mkIdent, Ident.mk'_chars]
    rfl
  constructor
  · intro h
    unfold parseTypeRef at h
    split at h
    · next schema rest hsplit =>
      obtain ⟨hnotMem, rfl⟩ := eq_append_of_splitOnce hsplit
      obtain ⟨schema', hschema, h⟩ := Fallible.bind_eq_ok.mp h
      obtain ⟨rest', hrest, h⟩ := Fallible.bind_eq_ok.mp h
      obtain rfl := Except.ok.inj h
      obtain rfl := hident hschema
      obtain rfl := hident hrest
      exact ⟨rfl, by rintro _ ⟨⟩; exact hnotMem, nofun⟩
    · next hsplit =>
      obtain ⟨name', hname, h⟩ := Fallible.bind_eq_ok.mp h
      obtain rfl := Except.ok.inj h
      obtain rfl := hident hname
      exact ⟨rfl, nofun, fun _ => notMem_of_splitOnce hsplit⟩
  · rintro ⟨rfl, hschema, hname⟩
    obtain ⟨_ | schema, name⟩ := name
    · rw [spellTypeRef, parseTypeRef, splitOnce_eq_none (hname rfl), hchars]
      rfl
    · rw [spellTypeRef, parseTypeRef, splitOnce_append _ (hschema schema rfl)]
      dsimp only
      rw [hchars, hchars]
      rfl

/-! ### Names -/

lemma parseElement_enum (cs : List Char) :
    parseElement ("enum:".toList ++ cs) = (parseTypeRef cs).map .enum := by
  rw [parseElement, List.dropPrefix?_append_of_beq cs BEq.rfl]

lemma parseElement_custom (cs : List Char) :
    parseElement ("custom:".toList ++ cs) = (parseTypeRef cs).map .custom := by
  have henum : ("custom:".toList ++ cs).dropPrefix? "enum:".toList = none := rfl
  rw [parseElement, henum, List.dropPrefix?_append_of_beq cs BEq.rfl]

lemma getLast?_spellTypeRef (name : TypeRef) :
    (spellTypeRef name).getLast? = name.name.chars.getLast? := by
  have hne := name.name.chars_ne_nil
  obtain ⟨_ | schema, name⟩ := name
  · rfl
  · rw [spellTypeRef, List.getLast?_append_of_ne_nil _ (List.cons_ne_nil _ _),
      List.getLast?_cons_of_ne_nil hne]

lemma suffix_spellTypeRef (name : TypeRef) : name.name.chars <:+ spellTypeRef name := by
  obtain ⟨_ | schema, name⟩ := name
  · exact List.suffix_rfl
  · exact (List.suffix_cons '.' _).trans (List.suffix_append _ _)

/-- A tagged name is read back when it is spellable, and otherwise not as itself. -/
lemma parse_tagged (tag : List Char) {c : Char} {make : TypeRef → DataType}
    (hhead : tag.head? = some c) (hc : isWhitespace c = false)
    (hlast : tag.getLast? = some ':') (hmake : ∀ name t, make name ≠ .array t)
    (hparse : ∀ rest t, parseElement (tag ++ rest) = .ok t ↔
      ∃ name, parseTypeRef rest = .ok name ∧ make name = t)
    (hinj : ∀ name name', make name = make name' → name = name') (name : TypeRef) :
    parse (tag ++ spellTypeRef name) = .ok (make name) ↔ TypeRef.Spellable name := by
  have htrim := trim_append hhead hc hlast (by decide) (spellTypeRef name)
  have hspell := getLast?_spellTypeRef name
  constructor
  · intro h
    rw [parse_eq, htrim] at h
    cases hsuffix : stripSuffix "[]".toList (tag ++ trimEnd (spellTypeRef name)) with
    | some element =>
      rw [hsuffix] at h
      obtain ⟨t, -, ht⟩ := Fallible.map_eq_ok.mp h
      exact absurd ht.symm (hmake name t)
    | none =>
      rw [hsuffix] at h
      obtain ⟨read, hread, hname⟩ := (hparse _ _).mp h
      obtain rfl : name = read := (hinj _ _ hname).symm
      obtain ⟨hself, hschema, hunqualified⟩ := parseTypeRef_eq_ok.1 hread
      refine ⟨hschema, hunqualified, fun harray => ?_, fun c hc => ?_⟩
      · have hall : "[]".toList <:+ tag ++ trimEnd (spellTypeRef name) := by
          rw [← hself]
          exact (harray.trans (suffix_spellTypeRef name)).trans (List.suffix_append _ _)
        rw [stripSuffix, if_pos hall] at hsuffix
        cases hsuffix
      · have hne : spellTypeRef name ≠ [] := by
          intro hnil
          rw [hnil, hc] at hspell
          cases hspell
        have hlast := List.rdropWhile_eq_self_iff.mp hself.symm hne
        rw [hc, List.getLast?_eq_some_getLast hne, Option.some.injEq] at hspell
        rw [hspell] at hlast
        simpa using hlast
  · intro h
    have hself : trimEnd (spellTypeRef name) = spellTypeRef name := by
      refine List.rdropWhile_eq_self_iff.mpr fun hne => ?_
      rw [List.getLast?_eq_some_getLast hne] at hspell
      simp [h.notSpace _ hspell.symm]
    rw [hself] at htrim
    rw [parse_of_trim_eq htrim ?_, hparse]
    · exact ⟨name, parseTypeRef_eq_ok.2 ⟨rfl, h.schema, h.unqualified⟩, rfl⟩
    · obtain ⟨tag, rfl⟩ : ∃ tag', tag = tag' ++ [':'] :=
        ⟨tag.dropLast, (List.dropLast_append_getLast? ':' hlast).symm⟩
      refine fun harray => h.notArray ?_
      obtain ⟨_ | schema, name⟩ := name
      · rw [List.append_assoc] at harray
        exact suffix_of_suffix_append (by decide) name.chars_ne_nil harray
      · have hassoc : tag ++ [':'] ++ spellTypeRef ⟨some schema, name⟩ =
            (tag ++ ':' :: schema.chars) ++ '.' :: name.chars := by simp [spellTypeRef]
        rw [hassoc] at harray
        exact suffix_of_suffix_append (by decide) name.chars_ne_nil harray

/-! ### Numbers -/

lemma parse_map_toString {bound n : ℕ} (h : n ≤ bound) :
    Decimal.parse bound (toString n).toList = some n := by
  have hdigit : ∀ c ∈ (toString n).toList, c.isDigit = true :=
    fun _ => Decimal.isDigit_of_mem_toString
  rw [← Decimal.trim_of_isDigit hdigit]
  exact Decimal.parse_trim_toString h

/-- The text between the parentheses of a spelling. -/
lemma argument_eq (hspace : ∀ c ∈ cs, isWhitespace c = false) (hclose : ')' ∉ cs) :
    trim ((trimEnd (cs ++ [')'])).rdropWhile (· = ')')) = cs := by
  rw [trimEnd, List.rdropWhile_concat_neg _ _ _ (by decide),
    List.rdropWhile_concat_pos _ _ _ (by decide), List.rdropWhile_eq_self_iff.mpr,
    trim_of_forall hspace]
  intro hne hlast
  rw [decide_eq_true_eq] at hlast
  exact hclose (hlast ▸ List.getLast_mem hne)

/-- The numbers between the parentheses, after the opening one. -/
def numbers (cs : List Char) : List (List Char) :=
  (Json.split ',' (trim ((trimEnd cs).rdropWhile (· = ')')))).map trim

lemma parseElement_varChar (cs : List Char) : parseElement ("varchar(".toList ++ cs) =
    .ok (.varChar (((numbers cs)[0]?.bind (Decimal.parse u32Max)).map UInt32.ofNat)) := rfl

lemma parseElement_char (cs : List Char) : parseElement ("char(".toList ++ cs) =
    .ok (.char (((numbers cs)[0]?.bind (Decimal.parse u32Max)).map UInt32.ofNat)) := rfl

lemma parseElement_numeric (cs : List Char) : parseElement ("numeric(".toList ++ cs) =
    .ok (.numeric (((numbers cs)[0]?.bind (Decimal.parse 255)).map UInt8.ofNat)
      (((numbers cs)[1]?.bind (Decimal.parse 255)).map UInt8.ofNat)) := rfl

lemma notMem_toString {c : Char} (hc : c.isDigit = false) (n : ℕ) : c ∉ (toString n).toList := by
  intro h
  rw [Decimal.isDigit_of_mem_toString h] at hc
  cases hc

lemma isWhitespace_of_mem_toString {n : ℕ} {c : Char} (h : c ∈ (toString n).toList) :
    isWhitespace c = false :=
  Decimal.isWhitespace_of_isDigit (Decimal.isDigit_of_mem_toString h)

lemma trim_toString (n : ℕ) : trim (toString n).toList = (toString n).toList :=
  trim_of_forall fun _ => isWhitespace_of_mem_toString

/-- One number is read back. -/
lemma numbers_one (n : ℕ) : numbers ((toString n).toList ++ [')']) = [(toString n).toList] := by
  rw [numbers, argument_eq (fun _ => isWhitespace_of_mem_toString) (notMem_toString rfl n),
    split_of_notMem (notMem_toString rfl n), List.map_singleton, trim_toString]

/-- Two numbers are read back. -/
lemma numbers_two (m n : ℕ) : numbers ((toString m).toList ++ ',' :: ((toString n).toList ++ [')'])) =
    [(toString m).toList, (toString n).toList] := by
  have hassoc : (toString m).toList ++ ',' :: ((toString n).toList ++ [')']) =
      ((toString m).toList ++ ',' :: (toString n).toList) ++ [')'] := by simp
  rw [numbers, hassoc, argument_eq, split_append (notMem_toString rfl m),
    split_of_notMem (notMem_toString rfl n), List.map_cons, List.map_singleton, trim_toString,
    trim_toString]
  · intro c hc
    rcases List.mem_append.mp hc with hc | hc
    · exact isWhitespace_of_mem_toString hc
    · rcases List.mem_cons.mp hc with rfl | hc
      · rfl
      · exact isWhitespace_of_mem_toString hc
  · intro hc
    rcases List.mem_append.mp hc with hc | hc
    · exact notMem_toString rfl m hc
    · rcases List.mem_cons.mp hc with hc | hc
      · cases hc
      · exact notMem_toString rfl n hc

lemma parse_toNat32 (n : UInt32) :
    (Decimal.parse u32Max (toString n.toNat).toList).map UInt32.ofNat = some n := by
  have hbound : n.toNat ≤ u32Max := Nat.le_pred_of_lt n.toNat_lt
  rw [parse_map_toString hbound, Option.map_some, UInt32.ofNat_toNat]

lemma parse_toNat8 (n : UInt8) :
    (Decimal.parse 255 (toString n.toNat).toList).map UInt8.ofNat = some n := by
  have hbound : n.toNat ≤ 255 := Nat.le_pred_of_lt n.toNat_lt
  rw [parse_map_toString hbound, Option.map_some, UInt8.ofNat_toNat]

/-! ### Every type -/

lemma head?_spell (t : DataType) : ∃ c, (spell t).head? = some c ∧ isWhitespace c = false := by
  induction t with
  | array element ih =>
    obtain ⟨c, hhead, hc⟩ := ih
    refine ⟨c, ?_, hc⟩
    change (spell element ++ "[]".toList).head? = some c
    rw [List.head?_append, hhead]
    rfl
  | numeric precision scale => rcases precision with _ | _ <;> rcases scale with _ | _ <;>
      exact ⟨'n', rfl, rfl⟩
  | varChar length => cases length <;> exact ⟨'v', rfl, rfl⟩
  | char length => cases length <;> exact ⟨'c', rfl, rfl⟩
  | time withTimeZone | timestamp withTimeZone => cases withTimeZone <;> exact ⟨'t', rfl, rfl⟩
  | _ => exact ⟨_, rfl, rfl⟩

/-- A spelling with its numbers between parentheses. -/
lemma parse_of_close {d : Char} (hhead : cs.head? = some d) (hd : isWhitespace d = false) :
    parse (cs ++ [')']) = parseElement (cs ++ [')']) := by
  refine parse_of_trim_eq (trim_eq_self (c := d) (d := ')') ?_ hd List.getLast?_concat rfl) ?_
  · rw [List.head?_append, hhead]
    rfl
  · rintro ⟨start, h⟩
    have hlast := congrArg List.getLast? h
    have hne : "[]".toList ≠ [] := List.cons_ne_nil _ _
    rw [List.getLast?_concat, List.getLast?_append_of_ne_nil _ hne] at hlast
    cases hlast

lemma parse_varChar (length : Option UInt32) :
    parse (spell (.varChar length)) = .ok (.varChar length) := by
  cases length with
  | none => exact parse_of_trim_eq rfl (by decide)
  | some length =>
    change parse ("varchar(".toList ++ ((toString length.toNat).toList ++ [')'])) = _
    rw [← List.append_assoc, parse_of_close (d := 'v') rfl rfl, List.append_assoc,
      parseElement_varChar, numbers_one]
    exact congrArg (Except.ok ∘ DataType.varChar) (parse_toNat32 length)

lemma parse_char (length : Option UInt32) :
    parse (spell (.char length)) = .ok (.char length) := by
  cases length with
  | none => exact parse_of_trim_eq rfl (by decide)
  | some length =>
    change parse ("char(".toList ++ ((toString length.toNat).toList ++ [')'])) = _
    rw [← List.append_assoc, parse_of_close (d := 'c') rfl rfl, List.append_assoc,
      parseElement_char, numbers_one]
    exact congrArg (Except.ok ∘ DataType.char) (parse_toNat32 length)

/-- A scale is spelled behind a precision only. -/
lemma parse_numeric (precision scale : Option UInt8) : parse (spell (.numeric precision scale)) =
    .ok (.numeric precision (if precision = none then none else scale)) := by
  cases precision with
  | none =>
    change parse "numeric".toList = _
    exact parse_of_trim_eq rfl (by decide)
  | some precision =>
    rw [if_neg (Option.some_ne_none _)]
    cases scale with
    | none =>
      change parse ("numeric(".toList ++ ((toString precision.toNat).toList ++ [')'])) = _
      rw [← List.append_assoc, parse_of_close (d := 'n') rfl rfl, List.append_assoc,
        parseElement_numeric, numbers_one]
      exact congrArg (fun p => Except.ok (DataType.numeric p none)) (parse_toNat8 precision)
    | some scale =>
      have hassoc : "numeric(".toList ++ ((toString precision.toNat).toList ++ ',' ::
          ((toString scale.toNat).toList ++ [')'])) = ("numeric(".toList ++
          ((toString precision.toNat).toList ++ ',' :: (toString scale.toNat).toList)) ++ [')'] := by
        simp only [List.append_assoc, List.cons_append]
      change parse ("numeric(".toList ++ ((toString precision.toNat).toList ++ ',' ::
        ((toString scale.toNat).toList ++ [')']))) = _
      rw [hassoc, parse_of_close (d := 'n') rfl rfl, ← hassoc, parseElement_numeric, numbers_two]
      exact congrArg₂ (fun p s => Except.ok (DataType.numeric p s)) (parse_toNat8 precision)
        (parse_toNat8 scale)

/-- The element of an array is read by itself. -/
lemma parse_array (element : DataType) :
    parse (spell (.array element)) = (parse (spell element)).map .array := by
  obtain ⟨c, hhead, hc⟩ := head?_spell element
  have htrim : trim (spell element ++ "[]".toList) = spell element ++ "[]".toList := by
    refine trim_eq_self (c := c) (d := ']') ?_ hc ?_ rfl
    · rw [List.head?_append, hhead]
      rfl
    · have hne : "[]".toList ≠ [] := List.cons_ne_nil _ _
      rw [List.getLast?_append_of_ne_nil _ hne]
      rfl
  change parse (spell element ++ "[]".toList) = _
  rw [parse_eq, htrim, stripSuffix_append]

/-- Exactly these types are read back from their spelling. -/
theorem parse_spell_iff (t : DataType) : parse (spell t) = .ok t ↔ Spellable t := by
  induction t with
  | array element ih =>
    rw [parse_array, Fallible.map_eq_ok]
    constructor
    · rintro ⟨t, ht, heq⟩
      rw [DataType.array.injEq] at heq
      exact ih.mp (heq ▸ ht)
    · exact fun h => ⟨element, ih.mpr h, rfl⟩
  | numeric precision scale =>
    rw [parse_numeric]
    rcases precision with _ | precision <;> rcases scale with _ | scale <;> simp [Spellable]
  | varChar length => exact iff_of_true (parse_varChar length) trivial
  | char length => exact iff_of_true (parse_char length) trivial
  | time withTimeZone | timestamp withTimeZone =>
    cases withTimeZone <;> exact iff_of_true (parse_of_trim_eq rfl (by decide)) trivial
  | enum name =>
    refine parse_tagged "enum:".toList rfl rfl rfl (by simp) (fun rest t => ?_) (by simp) name
    rw [parseElement_enum]
    exact Fallible.map_eq_ok
  | custom name =>
    refine parse_tagged "custom:".toList rfl rfl rfl (by simp) (fun rest t => ?_) (by simp) name
    rw [parseElement_custom]
    exact Fallible.map_eq_ok
  | _ => exact iff_of_true (parse_of_trim_eq rfl (by decide)) trivial

/-- The type `a.b` outside any schema is read back as the type `b` of the schema `a`. -/
theorem parse_spell_fails :
    parse (spell (.custom ⟨none, ⟨"a.b".toList, rfl⟩⟩)) =
      .ok (.custom ⟨some ⟨"a".toList, rfl⟩, ⟨"b".toList, rfl⟩⟩) ∧
    parse (spell (.custom ⟨none, ⟨"a.b".toList, rfl⟩⟩)) ≠ .ok (.custom ⟨none, ⟨"a.b".toList, rfl⟩⟩) := by
  have hparse : parse (spell (.custom ⟨none, ⟨"a.b".toList, rfl⟩⟩)) =
      .ok (.custom ⟨some ⟨"a".toList, rfl⟩, ⟨"b".toList, rfl⟩⟩) :=
    parse_of_trim_eq rfl (by decide)
  refine ⟨hparse, ?_⟩
  rw [hparse]
  simp

end Moso.Migrate
