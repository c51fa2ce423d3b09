import Moso.Foundation.Fallible
import Moso.Migrate.Diff.Matching

/-!
# When renames are a partial bijection

Every comparison drops what was not renamed and creates what was not renamed to. For tables and for
indexes its renames are one to one, and nobody is asked twice about a pair. For columns this is so
unless a column that is gone is the first to be renamed to two new ones by one pass, or a question
of the first pass is repeated by the second.
-/

namespace Moso.Migrate

open Greedy (takeAll takeFirst offers offersFirst mem_takeAll mem_offers nodup_offers
  mem_of_mem_takeFirst nodup_fst_takeFirst nodup_snd_takeFirst nodup_offersFirst)

variable {α ε : Type}

/-- Everything is renamed once, or else dropped or created; nobody is asked twice about a pair. -/
structure Matched (rename : α → α → Change) (drop create : α → Change) (removed added : List α)
    (o : Outcome α) : Prop where
  renamed : ∀ x y, (x, y) ∈ o.matching.renames → x ∈ removed ∧ y ∈ added ∧ rename x y ∈ o.changes
  functional : ∀ x y y', (x, y) ∈ o.matching.renames → (x, y') ∈ o.matching.renames → y = y'
  injective : ∀ x x' y, (x, y) ∈ o.matching.renames → (x', y) ∈ o.matching.renames → x = x'
  dropped : ∀ x ∈ removed, drop x ∈ o.changes ↔ ∀ y, (x, y) ∉ o.matching.renames
  created : ∀ y ∈ added, create y ∈ o.changes ↔ ∀ x, (x, y) ∉ o.matching.renames
  asked : o.matching.asked.Nodup

section
variable {name : α → List Char} {removed added : List α} {renames asked : List (α × α)}

/-- Among things with distinct names, a claimed name is a pair's. -/
lemma name_mem_iff (side : α × α → α) {x : α} (hremoved : (removed.map name).Nodup)
    (hrenames : ∀ p ∈ renames, side p ∈ removed) (hx : x ∈ removed) :
    name x ∈ (renames.map fun p => name (side p)) ↔ ∃ p ∈ renames, side p = x := by
  constructor
  · intro h
    obtain ⟨p, hmem, heq⟩ := List.mem_map.mp h
    exact ⟨p, hmem, List.inj_on_of_nodup_map hremoved (hrenames p hmem) hx heq⟩
  · rintro ⟨p, hmem, rfl⟩
    exact List.mem_map.mpr ⟨p, hmem, rfl⟩

lemma mem_dropped_iff {x : α} {s : Matching α} (hs : s = ({} : Matching α).grow name renames asked)
    (hremoved : (removed.map name).Nodup) (hrenames : ∀ p ∈ renames, p.1 ∈ removed)
    (hx : x ∈ removed) : x ∈ s.dropped name removed ↔ ∀ y, (x, y) ∉ renames := by
  have hclaimed : s.claimedBefore = renames.map fun p => name p.1 := by rw [hs]; rfl
  rw [Matching.dropped, List.mem_filter, decide_eq_true_eq, hclaimed,
    name_mem_iff Prod.fst hremoved hrenames hx]
  constructor
  · exact fun h y hmem => h.2 ⟨(x, y), hmem, rfl⟩
  · rintro h
    refine ⟨hx, ?_⟩
    rintro ⟨⟨_, y⟩, hmem, rfl⟩
    exact h y hmem

lemma mem_created_iff {y : α} {s : Matching α} (hs : s = ({} : Matching α).grow name renames asked)
    (hadded : (added.map name).Nodup) (hrenames : ∀ p ∈ renames, p.2 ∈ added)
    (hy : y ∈ added) : y ∈ s.created name added ↔ ∀ x, (x, y) ∉ renames := by
  have hclaimed : s.claimedAfter = renames.map fun p => name p.2 := by rw [hs]; rfl
  rw [Matching.created, List.mem_filter, decide_eq_true_eq, hclaimed,
    name_mem_iff Prod.snd hadded hrenames hy]
  constructor
  · exact fun h x hmem => h.2 ⟨(x, y), hmem, rfl⟩
  · rintro h
    refine ⟨hy, ?_⟩
    rintro ⟨⟨x, _⟩, hmem, rfl⟩
    exact h x hmem

/-- What is left to show of a comparison whose changes are those of its matching. -/
lemma matched_iff {rename : α → α → Change} {drop create : α → Change} {o : Outcome α}
    (hs : o.matching = ({} : Matching α).grow name renames asked)
    (hremoved : (removed.map name).Nodup) (hadded : (added.map name).Nodup)
    (hmem : ∀ p ∈ renames, p.1 ∈ removed ∧ p.2 ∈ added)
    (hinjective : ∀ x x' y, (x, y) ∈ renames → (x', y) ∈ renames → x = x')
    (hrename : ∀ x y, (x, y) ∈ o.matching.renames → rename x y ∈ o.changes)
    (hdrop : ∀ x ∈ removed, drop x ∈ o.changes ↔ x ∈ o.matching.dropped name removed)
    (hcreate : ∀ y ∈ added, create y ∈ o.changes ↔ y ∈ o.matching.created name added) :
    Matched rename drop create removed added o ↔
      (∀ x y y', (x, y) ∈ renames → (x, y') ∈ renames → y = y') ∧ asked.Nodup := by
  have hrenames : o.matching.renames = renames := by rw [hs]; rfl
  have hasked : o.matching.asked = asked := by rw [hs]; rfl
  constructor
  · intro h
    rw [← hrenames, ← hasked]
    exact ⟨h.functional, h.asked⟩
  · rintro ⟨hfunctional, hnodup⟩
    rw [← hrenames] at hfunctional hinjective
    rw [← hasked] at hnodup
    refine ⟨fun x y h => ?_, hfunctional, hinjective, fun x hx => ?_, fun y hy => ?_, hnodup⟩
    · obtain ⟨hx, hy⟩ := hmem (x, y) (hrenames ▸ h)
      exact ⟨hx, hy, hrename x y h⟩
    · rw [hdrop x hx, mem_dropped_iff hs hremoved (fun p hp => (hmem p hp).1) hx, hrenames]
    · rw [hcreate y hy, mem_created_iff hs hadded (fun p hp => (hmem p hp).2) hy, hrenames]

end

variable (f : RenameQuestion → RenameAnswer) (key : List Char)

lemma nodup_filter_map {name : α → List Char} {xs : List α} {p : α → Bool} (h : (xs.map name).Nodup) :
    ((xs.filter p).map name).Nodup :=
  h.sublist (List.filter_sublist.map name)

/-- The renames of a pass that looks at each offer are one to one. -/
lemma matched_of_takeFirst [DecidableEq α] {name : α → List Char} {removed added : List α}
    {question : α → α → RenameQuestion} {likely : α → α → Bool} {rename : α → α → Change}
    {drop create : α → Change} {o : Outcome α} (hremoved : (removed.map name).Nodup)
    (hadded : (added.map name).Nodup)
    (hs : matchFree (ε := ε) name question (answering f) likely removed added = .ok o.matching)
    (hrename : ∀ x y, (x, y) ∈ o.matching.renames → rename x y ∈ o.changes)
    (hdrop : ∀ x ∈ removed, drop x ∈ o.changes ↔ x ∈ o.matching.dropped name removed)
    (hcreate : ∀ y ∈ added, create y ∈ o.changes ↔ y ∈ o.matching.created name added) :
    Matched rename drop create removed added o := by
  rw [matchFree_eq name question f likely hremoved hadded, Except.ok.injEq] at hs
  refine (matched_iff hs.symm hremoved hadded (fun p hp => mem_of_mem_takeFirst hp)
    (fun x x' y hx hx' => ?_) hrename hdrop hcreate).mpr ⟨fun x y y' hy hy' => ?_, ?_⟩
  · exact congrArg Prod.fst (List.inj_on_of_nodup_map nodup_snd_takeFirst hx hx' rfl)
  · exact congrArg Prod.snd (List.inj_on_of_nodup_map (nodup_fst_takeFirst hremoved.of_map) hy hy' rfl)
  · exact nodup_offersFirst hremoved.of_map hadded.of_map

/-- Tables are renamed one to one. -/
lemma diffTables_matched (before after : Schema) :
    ∃ o, diffTables (ε := ε) (answering f) before after = .ok o ∧
      Matched (fun gone new => .renameTable gone.qualifiedName new.name) .dropTable .createTable
        (removedTables before after) (addedTables before after) o := by
  have hremoved : ((removedTables before after).map Table.qualifiedName).Nodup :=
    nodup_filter_map before.tables_nodup
  have hadded : ((addedTables before after).map Table.qualifiedName).Nodup :=
    nodup_filter_map after.tables_nodup
  have hs := matchFree_eq (ε := ε) _ tableQuestion f looksLikeTheSameTable hremoved hadded
  unfold diffTables
  dsimp only
  rw [hs]
  refine ⟨_, rfl, matched_of_takeFirst f hremoved hadded hs (fun x y h => ?_) (fun x _ => ?_)
    fun y _ => ?_⟩
  · simp only [List.mem_append, List.mem_map]
    exact .inl (.inl ⟨(x, y), h, rfl⟩)
  · simp
  · simp

/-- What is rebuilt has its name on both sides. -/
lemma name_of_mem_rebuiltIndexes {before after : Table} {change : Change}
    (h : change ∈ rebuiltIndexes key before after) :
    ∃ existing ∈ before.indexes, ∃ wanted ∈ after.indexes, existing.name = wanted.name ∧
      (change = .dropIndex key existing ∨ change = .createIndex key wanted) := by
  obtain ⟨wanted, hwanted, h⟩ := List.mem_flatMap.mp h
  cases hexisting : before.index wanted.name with
  | none =>
    rw [hexisting] at h
    cases h
  | some existing =>
    rw [hexisting] at h
    have hname := List.find?_some hexisting
    rw [decide_eq_true_eq] at hname
    refine ⟨existing, List.mem_of_find?_eq_some hexisting, wanted, hwanted, hname, ?_⟩
    dsimp only at h
    split_ifs at h
    · cases h
    · simpa using h

lemma notMem_of_mem_removedIndexes {before after : Table} {index other : Index}
    (h : index ∈ removedIndexes before after) (hother : other ∈ after.indexes) :
    index.name ≠ other.name := by
  intro hname
  have hnone := (List.mem_filter.mp h).2
  rw [Table.index, Option.isNone_iff_eq_none, List.find?_eq_none] at hnone
  simpa [hname] using hnone other hother

/-- Indexes are renamed one to one. -/
lemma diffIndexes_matched (before after : Table) :
    ∃ o, diffIndexes (ε := ε) (answering f) key before after = .ok o ∧
      Matched (fun gone new => .renameIndex key gone.name new.name) (.dropIndex key)
        (.createIndex key) (removedIndexes before after) (addedIndexes before after) o := by
  have hremoved : ((removedIndexes before after).map Index.name).Nodup :=
    nodup_filter_map before.indexes_nodup
  have hadded : ((addedIndexes before after).map Index.name).Nodup :=
    nodup_filter_map after.indexes_nodup
  have hs := matchFree_eq (ε := ε) _ (indexQuestion key) f Index.matchesIgnoringName hremoved hadded
  unfold diffIndexes
  dsimp only
  rw [hs]
  refine ⟨_, rfl, matched_of_takeFirst f hremoved hadded hs (fun x y h => ?_) (fun x hx => ?_)
    fun y hy => ?_⟩
  · simp only [List.mem_append, List.mem_map]
    exact .inl (.inl (.inl ⟨(x, y), h, rfl⟩))
  · have hrebuilt : .dropIndex key x ∉ rebuiltIndexes key before after := by
      intro h
      obtain ⟨existing, -, wanted, hwanted, hname, h | h⟩ := name_of_mem_rebuiltIndexes key h
      · obtain rfl := (Change.dropIndex.inj h).2
        exact notMem_of_mem_removedIndexes hx hwanted hname
      · cases h
    simp [hrebuilt]
  · have hrebuilt : .createIndex key y ∉ rebuiltIndexes key before after := by
      intro h
      obtain ⟨existing, hexisting, wanted, -, hname, h | h⟩ := name_of_mem_rebuiltIndexes key h
      · cases h
      · obtain rfl := (Change.createIndex.inj h).2
        exact notMem_of_mem_removedIndexes hy hexisting hname.symm
    simp [hrebuilt]

/-! ### Columns -/

section
variable (before after : Table)

/-- A column that matches in everything but its name, and is renamed by the answers. -/
abbrev strictly : Column → Column → Bool :=
  accepted (columnQuestion key) f Column.matchesIgnoringName

/-- A column of the same field that is renamed by the answers. -/
abbrev loosely : Column → Column → Bool := accepted (columnQuestion key) f sameField

/-- The columns that are gone and are no new column's first strict match. -/
def stillGone : List Column :=
  (removedColumns before after).filter fun gone => ∀ new ∈ addedColumns before after,
    (removedColumns before after).find? (strictly f key · new) ≠ some gone

/-- The new columns without a strict match. -/
def stillNew : List Column :=
  (addedColumns before after).filter fun new =>
    ∀ gone ∈ removedColumns before after, strictly f key gone new = false

/-- No column that is gone is the first match of two new ones in one pass, and no question of the
first pass is one of the second. -/
structure Unambiguous : Prop where
  strict : ∀ new ∈ addedColumns before after, ∀ new' ∈ addedColumns before after, ∀ gone,
    (removedColumns before after).find? (strictly f key · new) = some gone →
    (removedColumns before after).find? (strictly f key · new') = some gone → new = new'
  loose : ∀ new ∈ stillNew f key before after, ∀ new' ∈ stillNew f key before after, ∀ gone,
    (stillGone f key before after).find? (loosely f key · new) = some gone →
    (stillGone f key before after).find? (loosely f key · new') = some gone → new = new'
  once : ∀ new ∈ stillNew f key before after,
    ∀ gone ∈ (stillGone f key before after).takeWhile fun gone => !loosely f key gone new,
      gone.matchesIgnoringName new = true → sameField gone new = false

variable {f key before after}

lemma nodup_removedColumns : ((removedColumns before after).map Column.name).Nodup :=
  nodup_filter_map before.columns_nodup

lemma nodup_addedColumns : ((addedColumns before after).map Column.name).Nodup :=
  nodup_filter_map after.columns_nodup

/-- The pairs of the first pass. -/
abbrev strictPairs (f : RenameQuestion → RenameAnswer) (key : List Char) (before after : Table) :
    List (Column × Column) :=
  takeAll (strictly f key) (removedColumns before after) (addedColumns before after)

lemma mem_of_mem_strictPairs {p : Column × Column} (h : p ∈ strictPairs f key before after) :
    p.1 ∈ removedColumns before after ∧ p.2 ∈ addedColumns before after := by
  obtain ⟨hnew, hfind⟩ := mem_takeAll.1 h
  exact ⟨List.mem_of_find?_eq_some hfind, hnew⟩

/-- What the first pass leaves of the columns that are gone. -/
lemma free_strictPairs_fst :
    free Column.name ((strictPairs f key before after).map fun p => p.1.name)
      (removedColumns before after) = stillGone f key before after := by
  refine List.filter_congr fun gone hgone => ?_
  rw [decide_eq_decide, name_mem_iff Prod.fst nodup_removedColumns
    (fun p hp => (mem_of_mem_strictPairs hp).1) hgone]
  constructor
  · exact fun h new hnew hfind => h ⟨(gone, new), mem_takeAll.2 ⟨hnew, hfind⟩, rfl⟩
  · rintro h ⟨⟨_, new⟩, hmem, rfl⟩
    obtain ⟨hnew, hfind⟩ := mem_takeAll.1 hmem
    exact h new hnew hfind

/-- What the first pass leaves of the new columns. -/
lemma free_strictPairs_snd :
    free Column.name ((strictPairs f key before after).map fun p => p.2.name)
      (addedColumns before after) = stillNew f key before after := by
  refine List.filter_congr fun new hnew => ?_
  rw [decide_eq_decide, name_mem_iff Prod.snd nodup_addedColumns
    (fun p hp => (mem_of_mem_strictPairs hp).2) hnew]
  constructor
  · intro h gone hgone
    by_contra haccepts
    rw [Bool.not_eq_false] at haccepts
    have hsome : ((removedColumns before after).find? (strictly f key · new)).isSome :=
      List.find?_isSome.mpr ⟨gone, hgone, haccepts⟩
    obtain ⟨gone', hfind⟩ := Option.isSome_iff_exists.mp hsome
    exact h ⟨(gone', new), mem_takeAll.2 ⟨hnew, hfind⟩, rfl⟩
  · rintro h ⟨⟨gone, _⟩, hmem, rfl⟩
    obtain ⟨-, hfind⟩ := mem_takeAll.1 hmem
    have haccepts := List.find?_some hfind
    rw [h gone (List.mem_of_find?_eq_some hfind)] at haccepts
    cases haccepts

/-- The pairs of the second pass. -/
abbrev loosePairs (f : RenameQuestion → RenameAnswer) (key : List Char) (before after : Table) :
    List (Column × Column) :=
  takeAll (loosely f key) (stillGone f key before after) (stillNew f key before after)

abbrev strictOffers (f : RenameQuestion → RenameAnswer) (key : List Char) (before after : Table) :
    List (Column × Column) :=
  offers Column.matchesIgnoringName (strictly f key) (removedColumns before after)
    (addedColumns before after)

abbrev looseOffers (f : RenameQuestion → RenameAnswer) (key : List Char) (before after : Table) :
    List (Column × Column) :=
  offers sameField (loosely f key) (stillGone f key before after) (stillNew f key before after)

variable (f key before after) in
/-- Both passes. -/
lemma matchPasses_eq :
    (matchPass (ε := ε) Column.name (columnQuestion key) (answering f) Column.matchesIgnoringName
      (removedColumns before after) (addedColumns before after) {} >>= fun strict =>
        matchPass Column.name (columnQuestion key) (answering f) sameField
          (removedColumns before after) (addedColumns before after) strict) =
      .ok (({} : Matching Column).grow Column.name
        (strictPairs f key before after ++ loosePairs f key before after)
        (strictOffers f key before after ++ looseOffers f key before after)) := by
  have hnil : ∀ xs : List Column, free Column.name [] xs = xs :=
    fun xs => List.filter_eq_self.mpr fun _ _ => rfl
  rw [matchPass_eq nodup_removedColumns nodup_addedColumns, hnil, hnil]
  refine (matchPass_eq nodup_removedColumns nodup_addedColumns _).trans ?_
  rw [Matching.grow_grow]
  simp only [Matching.grow, List.nil_append]
  rw [free_strictPairs_fst, free_strictPairs_snd]

lemma mem_stillGone {gone : Column} : gone ∈ stillGone f key before after ↔
    gone ∈ removedColumns before after ∧
      ∀ new ∈ addedColumns before after, (gone, new) ∉ strictPairs f key before after := by
  rw [stillGone, List.mem_filter, decide_eq_true_eq]
  refine and_congr_right fun _ => forall₂_congr fun new hnew => ?_
  rw [mem_takeAll, and_iff_right hnew]

lemma mem_of_mem_loosePairs {p : Column × Column} (h : p ∈ loosePairs f key before after) :
    p.1 ∈ stillGone f key before after ∧ p.2 ∈ stillNew f key before after := by
  obtain ⟨hnew, hfind⟩ := mem_takeAll.1 h
  exact ⟨List.mem_of_find?_eq_some hfind, hnew⟩

/-- A pair of each pass has neither side in common. -/
lemma disjoint_pairs {p q : Column × Column} (hp : p ∈ strictPairs f key before after)
    (hq : q ∈ loosePairs f key before after) : p.1 ≠ q.1 ∧ p.2 ≠ q.2 := by
  obtain ⟨hgone, hnew⟩ := mem_of_mem_loosePairs hq
  constructor
  · intro h
    exact (mem_stillGone.1 hgone).2 p.2 (mem_of_mem_strictPairs hp).2 (h ▸ hp)
  · intro h
    have hfind := (mem_takeAll.1 hp).2
    have haccepts := List.find?_some hfind
    have hstill := of_decide_eq_true (List.mem_filter.mp hnew).2
    rw [h, hstill p.1 (List.mem_of_find?_eq_some hfind)] at haccepts
    cases haccepts

/-- Whom everybody takes once takes everybody once. -/
lemma functional_takeAll_iff {α β : Type} {accept : α → β → Bool} {as : List α} {bs : List β} :
    (∀ a b b', (a, b) ∈ takeAll accept as bs → (a, b') ∈ takeAll accept as bs → b = b') ↔
      ∀ b ∈ bs, ∀ b' ∈ bs, ∀ a, as.find? (accept · b) = some a → as.find? (accept · b') = some a →
        b = b' :=
  ⟨fun h b hb b' hb' a hfind hfind' =>
      h a b b' (mem_takeAll.2 ⟨hb, hfind⟩) (mem_takeAll.2 ⟨hb', hfind'⟩),
    fun h a b b' hmem hmem' => h b (mem_takeAll.1 hmem).1 b' (mem_takeAll.1 hmem').1 a
      (mem_takeAll.1 hmem).2 (mem_takeAll.1 hmem').2⟩

/-- No column is renamed to two exactly when neither pass does that. -/
lemma functional_iff :
    (∀ x y y', (x, y) ∈ strictPairs f key before after ++ loosePairs f key before after →
      (x, y') ∈ strictPairs f key before after ++ loosePairs f key before after → y = y') ↔
    (∀ x y y', (x, y) ∈ strictPairs f key before after →
      (x, y') ∈ strictPairs f key before after → y = y') ∧
    (∀ x y y', (x, y) ∈ loosePairs f key before after →
      (x, y') ∈ loosePairs f key before after → y = y') := by
  constructor
  · exact fun h => ⟨fun x y y' hy hy' => h x y y' (List.mem_append_left _ hy)
      (List.mem_append_left _ hy'), fun x y y' hy hy' => h x y y' (List.mem_append_right _ hy)
      (List.mem_append_right _ hy')⟩
  · rintro ⟨hstrict, hloose⟩ x y y' hy hy'
    rcases List.mem_append.mp hy with hy | hy <;> rcases List.mem_append.mp hy' with hy' | hy'
    · exact hstrict x y y' hy hy'
    · exact absurd rfl (disjoint_pairs hy hy').1
    · exact absurd rfl (disjoint_pairs hy' hy).1
    · exact hloose x y y' hy hy'

lemma injective_pairs {x x' y : Column}
    (hx : (x, y) ∈ strictPairs f key before after ++ loosePairs f key before after)
    (hx' : (x', y) ∈ strictPairs f key before after ++ loosePairs f key before after) : x = x' := by
  rcases List.mem_append.mp hx with hx | hx <;> rcases List.mem_append.mp hx' with hx' | hx'
  · exact Option.some.inj ((mem_takeAll.1 hx).2.symm.trans (mem_takeAll.1 hx').2)
  · exact absurd rfl (disjoint_pairs hx hx').2
  · exact absurd rfl (disjoint_pairs hx' hx).2
  · exact Option.some.inj ((mem_takeAll.1 hx).2.symm.trans (mem_takeAll.1 hx').2)

/-- A new column that is left over was offered to every strict match of it. -/
lemma mem_strictOffers {gone new : Column} (hgone : gone ∈ removedColumns before after)
    (hnew : new ∈ stillNew f key before after) :
    (gone, new) ∈ strictOffers f key before after ↔ gone.matchesIgnoringName new = true := by
  obtain ⟨hadded, hstill⟩ := List.mem_filter.mp hnew
  have hstill := of_decide_eq_true hstill
  have hall : (removedColumns before after).takeWhile (fun gone => !strictly f key gone new) =
      removedColumns before after :=
    List.takeWhile_eq_self_iff.mpr fun gone hgone => by simp [hstill gone hgone]
  rw [mem_offers, hall]
  exact ⟨fun h => h.2.1, fun h => ⟨hadded, h, .inl hgone⟩⟩

/-- No question is put twice exactly when the second pass repeats none of the first. -/
lemma nodup_offers_iff :
    (strictOffers f key before after ++ looseOffers f key before after).Nodup ↔
      ∀ new ∈ stillNew f key before after,
        ∀ gone ∈ (stillGone f key before after).takeWhile fun gone => !loosely f key gone new,
          gone.matchesIgnoringName new = true → sameField gone new = false := by
  have hremoved : (removedColumns before after).Nodup := (nodup_removedColumns).of_map
  have hadded : (addedColumns before after).Nodup := (nodup_addedColumns).of_map
  have hloose : (looseOffers f key before after).Nodup :=
    nodup_offers (hremoved.filter _) (hadded.filter _)
  rw [List.nodup_append', and_iff_right (nodup_offers hremoved hadded), and_iff_right hloose]
  constructor
  · intro h new hnew gone hgone hstrict
    by_contra hfield
    rw [Bool.not_eq_false] at hfield
    have hstill := (List.takeWhile_sublist _).subset hgone
    exact h ((mem_strictOffers (mem_stillGone.1 hstill).1 hnew).mpr hstrict)
      (mem_offers.2 ⟨hnew, hfield, .inl hgone⟩)
  · rintro h ⟨gone, new⟩ hstrict hloose
    obtain ⟨hnew, hfield, hgone | hfind⟩ := mem_offers.1 hloose
    · have hstill := (List.takeWhile_sublist _).subset hgone
      have hmatches := (mem_strictOffers (mem_stillGone.1 hstill).1 hnew).mp hstrict
      rw [h new hnew gone hgone hmatches] at hfield
      cases hfield
    · -- what is renamed by this question was not refused by the same one
      have hstill := (mem_stillGone.1 (List.mem_of_find?_eq_some hfind)).1
      have hmatches := (mem_strictOffers hstill hnew).mp hstrict
      have haccepts := List.find?_some hfind
      have hyes := (Bool.and_eq_true_iff.mp haccepts).2
      have hrefused := of_decide_eq_true (List.mem_filter.mp hnew).2 gone hstill
      exact absurd (Bool.and_eq_true_iff.mpr ⟨hmatches, hyes⟩) (Bool.not_eq_true _ ▸ hrefused)

variable (f key before after) in
/-- Columns are renamed one to one, and nobody is asked twice, exactly when they are unambiguous. -/
lemma diffColumns_matched_iff : ∃ o, diffColumns (ε := ε) (answering f) key before after = .ok o ∧
    (Matched (fun gone new => .renameColumn key gone.name new.name) (.dropColumn key)
      (fun new => .addColumn key new new.needsAFillValue) (removedColumns before after)
      (addedColumns before after) o ↔ Unambiguous f key before after) := by
  obtain ⟨strict, hstrict, hpass⟩ := Fallible.bind_eq_ok.mp (matchPasses_eq (ε := ε) f key before after)
  unfold diffColumns
  dsimp only
  rw [hstrict]
  refine ⟨_, Fallible.bind_eq_ok.mpr ⟨_, rfl, Fallible.bind_eq_ok.mpr ⟨_, hpass, rfl⟩⟩, ?_⟩
  rw [matched_iff rfl nodup_removedColumns nodup_addedColumns, functional_iff, functional_takeAll_iff,
    functional_takeAll_iff, nodup_offers_iff]
  · exact ⟨fun ⟨⟨hstrict, hloose⟩, honce⟩ => ⟨hstrict, hloose, honce⟩,
      fun h => ⟨⟨h.strict, h.loose⟩, h.once⟩⟩
  · intro p hp
    rcases List.mem_append.mp hp with hp | hp
    · exact mem_of_mem_strictPairs hp
    · obtain ⟨hgone, hnew⟩ := mem_of_mem_loosePairs hp
      exact ⟨(List.mem_filter.mp hgone).1, (List.mem_filter.mp hnew).1⟩
  · exact fun _ _ _ => injective_pairs
  · intro x y h
    simp only [List.mem_append, List.mem_map]
    exact .inl (.inl ⟨(x, y), h, rfl⟩)
  · simp
  · intro y _
    simp only [List.mem_append, List.mem_map]
    constructor
    · rintro ((⟨_, -, h⟩ | ⟨_, -, h⟩) | ⟨_, hmem, h⟩)
      · cases h
      · cases h
      · exact (Change.addColumn.inj h).2.1 ▸ hmem
    · exact fun h => .inr ⟨y, h, rfl⟩

end

/-- Renames are a partial bijection, with every pair asked about once, on all three levels exactly
when the columns are unambiguous. -/
theorem matched_iff_unambiguous (f : RenameQuestion → RenameAnswer) (before after : Schema)
    (key : List Char) (old new : Table) :
    ∃ tables columns indexes,
      diffTables (ε := ε) (answering f) before after = .ok tables ∧
      diffColumns (ε := ε) (answering f) key old new = .ok columns ∧
      diffIndexes (ε := ε) (answering f) key old new = .ok indexes ∧
      ((Matched (fun gone new => .renameTable gone.qualifiedName new.name) .dropTable .createTable
          (removedTables before after) (addedTables before after) tables ∧
        Matched (fun gone new => .renameColumn key gone.name new.name) (.dropColumn key)
          (fun new => .addColumn key new new.needsAFillValue) (removedColumns old new)
          (addedColumns old new) columns ∧
        Matched (fun gone new => .renameIndex key gone.name new.name) (.dropIndex key)
          (.createIndex key) (removedIndexes old new) (addedIndexes old new) indexes) ↔
        Unambiguous f key old new) := by
  obtain ⟨tables, htables, htables'⟩ := diffTables_matched (ε := ε) f before after
  obtain ⟨indexes, hindexes, hindexes'⟩ := diffIndexes_matched (ε := ε) f key old new
  obtain ⟨columns, hcolumns, hcolumns'⟩ := diffColumns_matched_iff (ε := ε) f key old new
  refine ⟨tables, columns, indexes, htables, hcolumns, hindexes, ?_⟩
  rw [and_iff_right htables', and_iff_left hindexes', hcolumns']

/-- A text column is gone, two are new, and every answer is yes: it is renamed twice. -/
theorem matched_fails :
    ∃ o : Outcome Column, diffColumns (ε := Empty) (answering fun _ => .rename) "users".toList
        { name := "users".toList, columns := [{ name := "a".toList, dataType := "text".toList }] }
        { name := "users".toList,
          columns := [{ name := "b".toList, dataType := "text".toList },
            { name := "c".toList, dataType := "text".toList }] } = .ok o ∧
      o.changes = [.renameColumn "users".toList "a".toList "b".toList,
        .renameColumn "users".toList "a".toList "c".toList] ∧
      ¬∀ x y y', (x, y) ∈ o.matching.renames → (x, y') ∈ o.matching.renames → y = y' := by
  refine ⟨_, rfl, rfl, fun h => ?_⟩
  have hname := congrArg Column.name (h _ _ _ List.mem_cons_self (.tail _ List.mem_cons_self))
  exact absurd hname (by decide)

end Moso.Migrate
