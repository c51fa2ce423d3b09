import Moso.Foundation.Framing
import Mathlib.Data.Finset.Attr
import Mathlib.Data.List.Basic
import Mathlib.Data.Nat.Notation
import Mathlib.Tactic.Common

/-!
# The columns behind a constraint's name

A violation names a constraint. Its columns are those of the index or of the foreign key that the
entity describes under this name; otherwise they are read off the name, which by convention is made
of the table, the columns and a suffix. At each place the longest column is taken that fits.
-/

namespace Moso.Orm.Constraint

open Framing (AtSep)

/-- An index: its name, and the columns of its keys; `none` is an expression. -/
structure IndexDescriptor where
  name : List Char
  columns : List (Option (List Char))

structure ForeignKeyDescriptor where
  name : List Char
  columns : List (List Char)

/-- What an entity says of its table. No identifier is empty. -/
structure Entity where
  table : List Char
  columns : List (List Char)
  indexes : List IndexDescriptor := []
  foreignKeys : List ForeignKeyDescriptor := []
  columns_ne_nil : ∀ c ∈ columns, c ≠ []

/-- Every suffix an auto-generated constraint name ends in. -/
def suffixes : List (List Char) :=
  ["_key".toList, "_pkey".toList, "_fkey".toList, "_check".toList, "_excl".toList,
    "_unique".toList, "_idx".toList]

def stripPrefix? (affix text : List Char) : Option (List Char) :=
  if affix <+: text then some (text.drop affix.length) else none

def stripSuffix? (affix text : List Char) : Option (List Char) :=
  if affix <:+ text then some (text.take (text.length - affix.length)) else none

/-- The last of the elements whose key is the greatest. -/
def maxByKey {α : Type} (key : α → ℕ) : List α → Option α
  | [] => none
  | a :: as =>
    match maxByKey key as with
    | none => some a
    | some b => if key a ≤ key b then some b else some a

/-- The text begins with the name, on a `_` boundary. -/
def Fits (name text : List Char) : Prop :=
  name <+: text ∧ AtSep '_' (text.drop name.length)

instance (name text : List Char) : Decidable (Fits name text) :=
  haveI : Decidable (AtSep '_' (text.drop name.length)) :=
    Option.decidableForallMem (text.drop name.length).head?
  inferInstanceAs (Decidable (_ ∧ _))

/-- The longest column that the text begins with, on a `_` boundary. Among beginnings of one text
the longer one has more bytes. -/
def longestColumn (columns : List (List Char)) (rest : List Char) : Option (List Char) :=
  maxByKey List.length (columns.filter fun name => Fits name rest)

/-- What is left of the text behind a column and the separator. -/
def behind (column rest : List Char) : List Char :=
  (stripPrefix? ['_'] (rest.drop column.length)).getD []

variable {columns cs : List (List Char)} {c d text rest trail : List Char}

lemma length_behind_lt (h : rest ≠ []) : (behind c rest).length < rest.length := by
  have hpos := List.length_pos_iff.mpr h
  unfold behind stripPrefix?
  split
  · next hpre =>
    have hlen := hpre.length_le
    simp only [Option.getD_some, List.length_drop, List.length_singleton] at hlen ⊢
    omega
  · exact hpos

/-- The loop over what is left of a name, behind the columns that were read. -/
def readColumns (columns : List (List Char)) (rest : List Char) (read : List (List Char)) :
    List (List Char) :=
  if _h : rest = [] then read
  else
    match longestColumn columns rest with
    -- Half an answer is worse than none.
    | none => []
    | some column => readColumns columns (behind column rest) (read ++ [column])
termination_by rest.length
decreasing_by exact length_behind_lt _h

/-- Without the table in front and the suffix behind. -/
def middle (table constraint : List Char) : List Char :=
  let middle := match stripPrefix? table constraint with
    | some stripped => (stripPrefix? ['_'] stripped).getD stripped
    | none => constraint
  (suffixes.findSome? fun suffix => stripSuffix? suffix middle).getD middle

def columnsByConvention (E : Entity) (constraint : List Char) : List (List Char) :=
  readColumns E.columns (middle E.table constraint) []

/-- The columns that the entity's own description has under a name. -/
def described (E : Entity) (constraint : List Char) : Option (List (List Char)) :=
  let ofIndex := (E.indexes.find? fun index => index.name = constraint).map fun index =>
    index.columns.reduceOption
  let ofForeignKey := (E.foreignKeys.find? fun key => key.name = constraint).map (·.columns)
  (ofIndex.filter fun columns => columns ≠ []).or (ofForeignKey.filter fun columns => columns ≠ [])

def constraintColumns (E : Entity) (constraint : List Char) : List (List Char) :=
  (described E constraint).getD (columnsByConvention E constraint)

/-! ### Conventional names -/

/-- The names of columns, joined. -/
def joined : List (List Char) → List Char
  | [] => []
  | [c] => c
  | c :: cs => c ++ '_' :: joined cs

def conventional (table : List Char) (cs : List (List Char)) (suffix : List Char) : List Char :=
  table ++ '_' :: joined cs ++ suffix

/-- Every column is the longest that fits where it stands. -/
def LongestFirst (columns : List (List Char)) (trail : List Char) (cs : List (List Char)) : Prop :=
  ∀ before c after, cs = before ++ c :: after →
    ∀ d ∈ columns, Fits d (joined (c :: after) ++ trail) → d.length ≤ c.length

/-- No other columns have the same joined names, but for an underscore at the end, with each of
them the longest that fits. -/
def Unmistakable (columns cs : List (List Char)) : Prop :=
  ∀ ds trail, ds ≠ [] → (∀ d ∈ ds, d ∈ columns) → (trail = [] ∨ trail = ['_']) →
    joined ds ++ trail = joined cs → LongestFirst columns trail ds → ds = cs

/-! ### The longest column -/

lemma mem_of_maxByKey {α : Type} {key : α → ℕ} {as : List α} {a : α}
    (h : maxByKey key as = some a) : a ∈ as ∧ ∀ b ∈ as, key b ≤ key a := by
  induction as generalizing a with
  | nil => cases h
  | cons b as ih =>
    simp only [maxByKey] at h
    cases hrest : maxByKey key as with
    | none =>
      have hnil : as = [] := by
        cases as with
        | nil => rfl
        | cons x xs =>
          simp only [maxByKey] at hrest
          split at hrest
          · cases hrest
          · split_ifs at hrest
      rw [hrest] at h
      obtain rfl := Option.some.inj h
      subst hnil
      simp
    | some best =>
      obtain ⟨hmem, hmax⟩ := ih hrest
      rw [hrest] at h
      dsimp only at h
      split_ifs at h with hle <;> obtain rfl := Option.some.inj h
      · exact ⟨List.mem_cons_of_mem _ hmem, List.forall_mem_cons.mpr ⟨hle, hmax⟩⟩
      · refine ⟨List.mem_cons_self, List.forall_mem_cons.mpr ⟨le_rfl, fun x hx => ?_⟩⟩
        exact (hmax x hx).trans (Nat.le_of_not_le hle)

lemma maxByKey_eq_none {α : Type} {key : α → ℕ} {as : List α} (h : maxByKey key as = none) :
    as = [] := by
  cases as with
  | nil => rfl
  | cons a as =>
    simp only [maxByKey] at h
    split at h
    · cases h
    · split_ifs at h

/-- A column is taken where it is the longest that fits. -/
lemma longestColumn_eq_some_iff : longestColumn columns rest = some c ↔
    c ∈ columns ∧ Fits c rest ∧ ∀ d ∈ columns, Fits d rest → d.length ≤ c.length := by
  have hmem : ∀ {d}, d ∈ columns.filter (fun name => Fits name rest) ↔
      d ∈ columns ∧ Fits d rest := by
    simp [List.mem_filter]
  constructor
  · intro h
    obtain ⟨hc, hmax⟩ := mem_of_maxByKey h
    obtain ⟨hc, hfits⟩ := hmem.mp hc
    exact ⟨hc, hfits, fun d hd hfit => hmax d (hmem.mpr ⟨hd, hfit⟩)⟩
  · rintro ⟨hc, hfits, hmax⟩
    cases h : longestColumn columns rest with
    | none =>
      have hnil := maxByKey_eq_none h
      exact absurd (hmem.mpr ⟨hc, hfits⟩) (by simp [hnil])
    | some best =>
      obtain ⟨hbest, hbestmax⟩ := mem_of_maxByKey h
      obtain ⟨hbest, hbestfits⟩ := hmem.mp hbest
      -- Beginnings of one text that are as long as each other are the same.
      have hlen : best.length = c.length :=
        le_antisymm (hmax best hbest hbestfits) (hbestmax c (hmem.mpr ⟨hc, hfits⟩))
      have hpre := List.prefix_of_prefix_length_le hbestfits.1 hfits.1 hlen.le
      rw [hpre.eq_of_length hlen]

/-! ### Reading a name -/

/-- How a text is read: what stands in front is the longest column that fits. -/
inductive Reading (columns : List (List Char)) : List Char → List (List Char) → Prop where
  | nil : Reading columns [] []
  | cons {rest : List Char} {c : List Char} {cs : List (List Char)} (hne : rest ≠ [])
      (hlongest : longestColumn columns rest = some c) (hcs : Reading columns (behind c rest) cs) :
      Reading columns rest (c :: cs)

/-- The loop returns what is read. -/
lemma Reading.readColumns_eq (h : Reading columns rest cs) (read : List (List Char)) :
    readColumns columns rest read = read ++ cs := by
  induction h generalizing read with
  | nil => rw [readColumns, dif_pos rfl, List.append_nil]
  | cons hne hlongest _ ih =>
    rw [readColumns, dif_neg hne]
    simp only [hlongest, ih, List.append_assoc, List.singleton_append]

/-- The loop returns nothing, or it has read the text. -/
lemma readColumns_eq (columns : List (List Char)) (rest : List Char) (read : List (List Char)) :
    readColumns columns rest read = [] ∨
      ∃ cs, Reading columns rest cs ∧ readColumns columns rest read = read ++ cs := by
  fun_induction readColumns columns rest read with
  | case1 => exact .inr ⟨[], .nil, (List.append_nil _).symm⟩
  | case2 => exact .inl rfl
  | case3 rest read hne c hlongest ih =>
    refine ih.imp_right ?_
    rintro ⟨cs, hcs, heq⟩
    exact ⟨c :: cs, .cons hne hlongest hcs, by rw [heq, List.append_assoc, List.singleton_append]⟩

lemma Reading.eq_nil (h : Reading columns rest []) : rest = [] := by
  cases h
  rfl

lemma Reading.ne_nil (h : Reading columns rest (c :: cs)) : rest ≠ [] := by
  cases h
  assumption

lemma Fits.eq (h : Fits c rest) : rest = c ∨ ∃ after, rest = c ++ '_' :: after := by
  obtain ⟨⟨tail, rfl⟩, hat⟩ := h
  rw [List.drop_left] at hat
  cases tail with
  | nil => exact .inl (List.append_nil c)
  | cons x tail =>
    obtain rfl : x = '_' := hat x rfl
    exact .inr ⟨tail, rfl⟩

@[simp] lemma fits_self : Fits c c := ⟨List.prefix_rfl, by simp [AtSep]⟩

@[simp] lemma fits_append : Fits c (c ++ '_' :: rest) := ⟨List.prefix_append _ _, by simp [AtSep]⟩

@[simp] lemma behind_self : behind c c = [] := by simp [behind, stripPrefix?]

@[simp] lemma behind_append : behind c (c ++ '_' :: rest) = rest := by
  simp [behind, stripPrefix?, List.prefix_iff_eq_append]

lemma joined_cons_of_ne_nil (h : cs ≠ []) : joined (c :: cs) = c ++ '_' :: joined cs := by
  cases cs with
  | nil => exact absurd rfl h
  | cons => rfl

/-- What stands behind the first of the joined columns. -/
lemma joined_append_eq (htrail : trail = [] ∨ trail = ['_']) (c : List Char)
    (cs : List (List Char)) :
    Fits c (joined (c :: cs) ++ trail) ∧
      behind c (joined (c :: cs) ++ trail) = if cs = [] then [] else joined cs ++ trail := by
  by_cases hcs : cs = []
  · subst hcs
    rcases htrail with rfl | rfl
    · simp [joined]
    · refine ⟨fits_append, ?_⟩
      exact behind_append
  · rw [joined_cons_of_ne_nil hcs, if_neg hcs, List.append_assoc, List.cons_append]
    exact ⟨fits_append, behind_append⟩

lemma LongestFirst.tail (h : LongestFirst columns trail (c :: cs)) :
    LongestFirst columns trail cs := fun before d after heq =>
  h (c :: before) d after (congrArg (c :: ·) heq)

/-- Columns that are the longest first are read off their joined names. -/
lemma reading_of_longestFirst (hne : ∀ c ∈ columns, c ≠ []) (hcs : ∀ c ∈ cs, c ∈ columns)
    (htrail : trail = [] ∨ trail = ['_']) (h : LongestFirst columns trail cs) (hnil : cs ≠ []) :
    Reading columns (joined cs ++ trail) cs := by
  induction cs with
  | nil => exact absurd rfl hnil
  | cons c cs ih =>
    obtain ⟨hfits, hbehind⟩ := joined_append_eq htrail c cs
    have hc := hcs c List.mem_cons_self
    have hrest : joined (c :: cs) ++ trail ≠ [] := by
      intro hempty
      exact hne c hc (List.prefix_nil.mp (hempty ▸ hfits.1))
    refine .cons hrest (longestColumn_eq_some_iff.2 ⟨hc, hfits, h [] c cs rfl⟩) ?_
    rw [hbehind]
    split_ifs with hcs'
    · subst hcs'
      exact .nil
    · exact ih (fun d hd => hcs d (List.mem_cons_of_mem c hd)) h.tail hcs'

/-- What is read are columns that are the longest first. -/
lemma Reading.longestFirst (h : Reading columns rest cs) :
    (∀ c ∈ cs, c ∈ columns) ∧ ∃ trail, (trail = [] ∨ trail = ['_']) ∧
      joined cs ++ trail = rest ∧ LongestFirst columns trail cs := by
  induction h with
  | nil =>
    refine ⟨by simp, [], .inl rfl, rfl, fun before c after heq => ?_⟩
    exact absurd heq (by simp)
  | @cons rest c cs hne hlongest hcs ih =>
    obtain ⟨hc, hfits, hmax⟩ := longestColumn_eq_some_iff.1 hlongest
    obtain ⟨hmem, trail, htrail, heq, hlong⟩ := ih
    refine ⟨List.forall_mem_cons.mpr ⟨hc, hmem⟩, ?_⟩
    -- Behind the last column nothing is left to read, with or without an underscore before it.
    obtain ⟨trail, htrail, heq, hlong⟩ : ∃ trail, (trail = [] ∨ trail = ['_']) ∧
        joined (c :: cs) ++ trail = rest ∧ LongestFirst columns trail cs := by
      by_cases hnil : cs = []
      · subst hnil
        have hempty := hcs.eq_nil
        have hlong' : ∀ trail, LongestFirst columns trail [] := fun _ _ _ _ hsplit =>
          absurd hsplit (by simp)
        rcases hfits.eq with rfl | ⟨after, rfl⟩
        · exact ⟨[], .inl rfl, List.append_nil _, hlong' _⟩
        · rw [behind_append] at hempty
          subst hempty
          exact ⟨['_'], .inr rfl, rfl, hlong' _⟩
      · refine ⟨trail, htrail, ?_, hlong⟩
        rw [joined_cons_of_ne_nil hnil, List.append_assoc, List.cons_append, heq]
        rcases hfits.eq with rfl | ⟨after, rfl⟩
        · rw [behind_self] at hcs
          obtain ⟨e, es, rfl⟩ := List.exists_cons_of_ne_nil hnil
          exact absurd rfl hcs.ne_nil
        · rw [behind_append]
    refine ⟨trail, htrail, heq, fun before d after hsplit e he hfit => ?_⟩
    cases before with
    | nil =>
      obtain ⟨rfl, rfl⟩ := List.cons.inj hsplit
      exact hmax e he (heq ▸ hfit)
    | cons b before =>
      exact hlong before d after (List.cons.inj hsplit).2 e he hfit

/-- The columns of a conventional name are the only ones that can be read, or they are not read. -/
lemma readColumns_joined_iff (hne : ∀ c ∈ columns, c ≠ []) :
    (readColumns columns (joined cs) [] = cs ∨ readColumns columns (joined cs) [] = []) ↔
      Unmistakable columns cs := by
  constructor
  · intro h ds trail hds hmem htrail heq hlong
    have hread := (reading_of_longestFirst hne hmem htrail hlong hds).readColumns_eq []
    rw [heq, List.nil_append] at hread
    rw [hread] at h
    exact h.resolve_right hds
  · intro h
    rcases readColumns_eq columns (joined cs) [] with hnone | ⟨ds, hds, heq⟩
    · exact .inr hnone
    obtain ⟨hmem, trail, htrail, hjoin, hlong⟩ := hds.longestFirst
    rw [heq, List.nil_append]
    by_cases hnil : ds = []
    · exact .inr hnil
    · exact .inl (h ds trail hnil hmem htrail hjoin hlong)

/-! ### Conventional names -/

lemma stripPrefix?_append (affix text : List Char) :
    stripPrefix? affix (affix ++ text) = some text := by
  rw [stripPrefix?, if_pos (List.prefix_append affix text), List.drop_left]

lemma stripSuffix?_append (affix text : List Char) :
    stripSuffix? affix (text ++ affix) = some text := by
  rw [stripSuffix?, if_pos (List.suffix_append text affix), List.length_append,
    Nat.add_sub_cancel, List.take_left]

/-- No suffix is the end of another one. -/
lemma eq_of_isSuffix {s t : List Char} (hs : s ∈ suffixes) (ht : t ∈ suffixes) (h : s <:+ t) :
    s = t := by
  revert t
  revert s
  decide

/-- One suffix at most stands at the end of a text. -/
lemma findSome?_stripSuffix? {suffix : List Char} (hsuffix : suffix ∈ suffixes)
    (text : List Char) :
    (suffixes.findSome? fun s => stripSuffix? s (text ++ suffix)) = some text := by
  have hall : ∀ s ∈ suffixes, s <:+ text ++ suffix → s = suffix := by
    intro s hs hend
    rcases List.suffix_or_suffix_of_suffix hend (List.suffix_append text suffix) with h | h
    · exact eq_of_isSuffix hs hsuffix h
    · exact (eq_of_isSuffix hsuffix hs h).symm
  revert hsuffix hall
  induction suffixes with
  | nil => exact fun h => absurd h List.not_mem_nil
  | cons s ss ih =>
    intro hsuffix hall
    rw [List.findSome?_cons]
    by_cases hend : s <:+ text ++ suffix
    · rw [hall s List.mem_cons_self hend, stripSuffix?_append]
    · rw [stripSuffix?, if_neg hend]
      refine ih ((List.mem_cons.mp hsuffix).resolve_left ?_) fun t ht =>
        hall t (List.mem_cons_of_mem s ht)
      rintro rfl
      exact hend (List.suffix_append text suffix)

/-- Between the table and the suffix of a conventional name stand the joined columns. -/
lemma middle_conventional {suffix : List Char} (hsuffix : suffix ∈ suffixes) (table : List Char)
    (cs : List (List Char)) : middle table (conventional table cs suffix) = joined cs := by
  have hname : conventional table cs suffix = table ++ (['_'] ++ (joined cs ++ suffix)) := by
    simp [conventional]
  rw [hname, middle, stripPrefix?_append]
  dsimp only
  rw [stripPrefix?_append, Option.getD_some, findSome?_stripSuffix? hsuffix, Option.getD_some]

lemma described_ne_nil {E : Entity} {name : List Char} (h : described E name = some cs) :
    cs ≠ [] := by
  simp only [described, Option.or_eq_some_iff, Option.filter_eq_some_iff] at h
  rcases h with h | h
  · exact of_decide_eq_true h.2
  · exact of_decide_eq_true h.2.2

/-- A conventional name stands for its columns or for none exactly if the entity describes no others
under this name and, where it describes none, the joined columns cannot be mistaken for others. -/
theorem constraintColumns_conventional_iff (E : Entity) (cs : List (List Char))
    {suffix : List Char} (hsuffix : suffix ∈ suffixes) :
    (constraintColumns E (conventional E.table cs suffix) = cs ∨
        constraintColumns E (conventional E.table cs suffix) = []) ↔
      (∀ ds, described E (conventional E.table cs suffix) = some ds → ds = cs) ∧
        (described E (conventional E.table cs suffix) = none → Unmistakable E.columns cs) := by
  unfold constraintColumns
  cases hdescribed : described E (conventional E.table cs suffix) with
  | some ds =>
    have hne := described_ne_nil hdescribed
    simp [hne]
  | none =>
    rw [Option.getD_none, columnsByConvention, middle_conventional hsuffix]
    simpa using readColumns_joined_iff E.columns_ne_nil

/-- An entity whose columns are joined in one way only. -/
def users : Entity where
  table := "users".toList
  columns := ["id".toList, "email".toList, "tenant_id".toList, "tenant".toList]
  columns_ne_nil := by decide

theorem constraintColumns_conventional_iff_users :
    (constraintColumns users (conventional users.table ["tenant_id".toList, "email".toList]
          "_key".toList) = ["tenant_id".toList, "email".toList] ∨
        constraintColumns users (conventional users.table ["tenant_id".toList, "email".toList]
          "_key".toList) = []) ↔
      (∀ ds, described users (conventional users.table ["tenant_id".toList, "email".toList]
          "_key".toList) = some ds → ds = ["tenant_id".toList, "email".toList]) ∧
        (described users (conventional users.table ["tenant_id".toList, "email".toList]
          "_key".toList) = none →
            Unmistakable users.columns ["tenant_id".toList, "email".toList]) :=
  constraintColumns_conventional_iff users _ (by decide)

/-- An entity with a column that is spelled like two others. -/
def memberships : Entity where
  table := "memberships".toList
  columns := ["user".toList, "id".toList, "user_id".toList]
  columns_ne_nil := by decide

/-- The name of a constraint on two columns is taken for one on a third. -/
theorem constraintColumns_fails_for_user_id :
    ¬ ∀ (E : Entity) (cs : List (List Char)) (suffix : List Char), (∀ c ∈ cs, c ∈ E.columns) →
      suffix ∈ suffixes → constraintColumns E (conventional E.table cs suffix) = cs ∨
        constraintColumns E (conventional E.table cs suffix) = [] := by
  intro h
  have hread : Reading memberships.columns (joined ["user".toList, "id".toList])
      ["user_id".toList] := .cons (by decide) rfl .nil
  have hcolumns : constraintColumns memberships
      (conventional memberships.table ["user".toList, "id".toList] "_key".toList) =
        ["user_id".toList] := by
    have hnone : described memberships
        (conventional memberships.table ["user".toList, "id".toList] "_key".toList) = none := rfl
    rw [constraintColumns, hnone, Option.getD_none, columnsByConvention,
      middle_conventional (by decide), hread.readColumns_eq, List.nil_append]
  have hfail := h memberships ["user".toList, "id".toList] "_key".toList (by decide) (by decide)
  rw [hcolumns] at hfail
  revert hfail
  decide

end Moso.Orm.Constraint
