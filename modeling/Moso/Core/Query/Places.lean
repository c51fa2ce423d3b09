import Mathlib.Data.List.Perm.Basic
import Mathlib.Data.List.Pairwise
import Moso.Core.Query.Keys
import Moso.Core.Query.Tree

/-!
# Where values belong

The place that a key names: members of objects, and items of lists. Every `[]` that is not the end
of a key opens an item of its own, which no other key goes into. The tree knows only one such item
in each list, so the values of several of them get mixed up.
-/

namespace Moso.Core

open Branches

/-- A step to a place. An item is that of the pair that opens it. -/
inductive Step where
  | member (name : Text)
  | item (pair : ℕ)
  deriving DecidableEq

def steps (pair : ℕ) : List Segment → List Step
  | [] => []
  | [.append] => []
  | .append :: rest => .item pair :: steps pair rest
  | .named name :: rest => .member name :: steps pair rest

/-- The place that a key names, in the pair of this number. -/
def place (pair : ℕ) (key : Text) : List Step :=
  .member (splitKey key).1 :: steps pair (splitKey key).2

def places (pairs : List (Text × Text)) : List (List Step) :=
  pairs.zipIdx.map fun p => place p.2 p.1.1

/-- The values of the pairs that name a place, in the order sent. -/
def valuesFor (pairs : List (Text × Text)) (at_ : List Step) : List Text :=
  (pairs.zipIdx.filter fun p => place p.2 p.1.1 = at_).map fun p => p.1.2

/-- How the tree writes a step. -/
def Step.name : Step → Text
  | .member name => name
  | .item _ => []

/-- A request that has to be refused: a key nests too deep, or a place that holds values is also
on the way to another one. -/
def Refused (pairs : List (Text × Text)) (maxDepth : ℕ) : Prop :=
  (∃ pair ∈ pairs, TooDeep maxDepth pair.1) ∨
    ∃ p ∈ places pairs, ∃ q ∈ places pairs, p ≠ q ∧ p <+: q

/-- What is asked of the parser. -/
structure Faithful (pairs : List (Text × Text)) (maxDepth : ℕ) : Prop where
  refuses : (∃ e, QueryMap.parse pairs maxDepth = .error e) ↔ Refused pairs maxDepth
  reorders : ∀ pairs' : List (Text × Text), pairs'.Perm pairs →
    ((∃ e, QueryMap.parse pairs' maxDepth = .error e) ↔
      ∃ e, QueryMap.parse pairs maxDepth = .error e)
  values : ∀ map, QueryMap.parse pairs maxDepth = .ok map → ∀ at_ ∈ places pairs,
    (QueryValue.map map.entries).valuesAt (at_.map Step.name) = valuesFor pairs at_
  others : ∀ map, QueryMap.parse pairs maxDepth = .ok map → ∀ base path,
    base :: path ∉ (places pairs).map (List.map Step.name) →
      (QueryValue.map map.entries).valuesAt (base :: path) = []
  keys : ∀ map, QueryMap.parse pairs maxDepth = .ok map → ∀ path,
    (QueryValue.map map.entries).keysAt path = heads (beneath path (pairs.map sends))
  literal : ∀ pair ∈ pairs, ¬ Balanced 0 pair.1 ∨ Trails pair.1 → splitKey pair.1 = (pair.1, [])

/-- A place is in an item of a list. -/
def InItem (p : List Step) : Prop := ∃ pair, .item pair ∈ p

/-- The tree takes a place in an item for another one, or for one on the way to it. -/
def MixedUp (p q : List Step) : Prop := InItem p ∧ p.map Step.name <+: q.map Step.name

/-- No bracket is part of a name, and no item is repeated or gone on with, unless the request is
refused. -/
structure Plain (pairs : List (Text × Text)) (maxDepth : ℕ) : Prop where
  brackets : ∀ pair ∈ pairs, ∀ base names, Bracketed pair.1 base names →
    ']' ∉ base ∧ ∀ name ∈ names, '[' ∉ name
  items : Refused pairs maxDepth ∨
    (places pairs).Pairwise fun p q => ¬ MixedUp p q ∧ ¬ MixedUp q p

variable {pairs : List (Text × Text)} {maxDepth i j : ℕ} {segments segments' : List Segment}
  {key key' : Text}

/-! ### Steps -/

lemma map_name_steps (pair : ℕ) (segments : List Segment) :
    (steps pair segments).map Step.name = names segments := by
  induction segments with
  | nil => rfl
  | cons head rest ih =>
    cases head with
    | append =>
      cases rest with
      | nil => rfl
      | cons next rest => exact congrArg _ ih
    | named name =>
      rw [steps, names, List.map_cons, ih]
      · rfl
      · exact fun h => by cases h

lemma map_name_place (pair : Text × Text) (i : ℕ) :
    (place i pair.1).map Step.name = (sends pair).1 := by
  rw [place, List.map_cons, map_name_steps]
  rfl

lemma mem_steps {step : Step} (h : step ∈ steps i segments) :
    step = .item i ∨ ∃ name, step = .member name ∧ .named name ∈ segments := by
  induction segments with
  | nil => cases h
  | cons head rest ih =>
    have hrest : step ∈ steps i rest →
        step = .item i ∨ ∃ name, step = .member name ∧ .named name ∈ head :: rest := fun h =>
      (ih h).imp id fun ⟨name, heq, hmem⟩ => ⟨name, heq, List.mem_cons_of_mem _ hmem⟩
    cases head with
    | append =>
      cases rest with
      | nil => cases h
      | cons next rest => exact (List.mem_cons.mp h).elim .inl hrest
    | named name =>
      rw [steps, List.mem_cons] at h
      exact h.elim (fun h => .inr ⟨name, h, List.mem_cons_self⟩) hrest

/-- The items of a place are those of its own pair. -/
lemma eq_of_item_mem (h : .item j ∈ place i key) : j = i := by
  rw [place, List.mem_cons] at h
  rcases mem_steps (h.resolve_left (by simp)) with h | ⟨name, h, -⟩
  · exact Step.item.inj h
  · cases h

/-- The members that a key names have names. -/
lemma member_ne_nil {name : Text} (h : .member name ∈ steps i (splitKey key).2) : name ≠ [] := by
  rcases mem_steps h with h | ⟨_, h, hmem⟩
  · cases h
  · cases h
    rcases splitKey_cases key with hsplit | ⟨base, names, hkey⟩
    · rw [hsplit] at hmem
      cases hmem
    · rw [splitKey_of_bracketed hkey] at hmem
      obtain ⟨name', -, hof⟩ := List.mem_map.mp hmem
      rw [Segment.of] at hof
      split_ifs at hof with hname
      exact Segment.named.inj hof ▸ hname

lemma prefix_of_map_name {p q : List Step} (hitem : ¬ InItem p)
    (hname : ∀ name, .member name ∈ p → name ≠ []) (h : p.map Step.name <+: q.map Step.name) :
    p <+: q := by
  induction p generalizing q with
  | nil => exact List.nil_prefix
  | cons step p ih =>
    cases q with
    | nil => simp at h
    | cons step' q =>
      rw [List.map_cons, List.map_cons, List.cons_prefix_cons] at h
      have hsteps : step = step' := by
        cases step with
        | item pair => exact absurd ⟨pair, List.mem_cons_self⟩ hitem
        | member name =>
          cases step' with
          | item pair => exact absurd h.1 (hname name List.mem_cons_self)
          | member name' => exact congrArg Step.member h.1
      rw [hsteps, List.cons_prefix_cons]
      refine ⟨rfl, ih ?_ (fun name hmem => hname name (List.mem_cons_of_mem _ hmem)) h.2⟩
      rintro ⟨pair, hmem⟩
      exact hitem ⟨pair, List.mem_cons_of_mem _ hmem⟩

/-- Outside of items the tree tells places apart. -/
lemma place_begins (hitem : ¬ InItem (place i key))
    (h : (place i key).map Step.name <+: (place j key').map Step.name) :
    place i key <+: place j key' := by
  rw [place, place, List.map_cons, List.map_cons, List.cons_prefix_cons] at h
  rw [place, place, List.cons_prefix_cons]
  refine ⟨congrArg Step.member h.1, prefix_of_map_name ?_ (fun name => member_ne_nil) h.2⟩
  rintro ⟨pair, hmem⟩
  exact hitem ⟨pair, List.mem_cons_of_mem _ hmem⟩

/-! ### Requests -/

/-- The number of a pair tells it from the others. -/
lemma eq_of_number_eq {a b : (Text × Text) × ℕ} (ha : a ∈ pairs.zipIdx) (hb : b ∈ pairs.zipIdx)
    (h : a.2 = b.2) : a = b :=
  List.inj_on_of_nodup_map (List.zipIdx_map_snd 0 pairs ▸ List.nodup_range') ha hb h

lemma nodup_numbered : pairs.zipIdx.Nodup :=
  .of_map Prod.snd (List.zipIdx_map_snd 0 pairs ▸ List.nodup_range')

lemma mem_places {p : List Step} :
    p ∈ places pairs ↔ ∃ a ∈ pairs.zipIdx, place a.2 a.1.1 = p := List.mem_map

/-- No two paths of the request are in conflict. -/
lemma pairwise_iff : (pairs.map sends).Pairwise (fun p q => ¬ Conflict p.1 q.1) ↔
    ∀ a ∈ pairs.zipIdx, ∀ b ∈ pairs.zipIdx, a ≠ b →
      ¬ Conflict ((place a.2 a.1.1).map Step.name) ((place b.2 b.1.1).map Step.name) := by
  have hsends : pairs.map sends = pairs.zipIdx.map fun a => sends a.1 := by
    conv_lhs => rw [← List.zipIdx_map_fst 0 pairs, List.map_map]
    rfl
  simp only [map_name_place, hsends, List.pairwise_map]
  constructor
  · intro h a ha b hb hne
    have hsymm : Std.Symm fun a b : (Text × Text) × ℕ => ¬ Conflict (sends a.1).1 (sends b.1).1 :=
      ⟨fun a b h hconflict => h (conflict_comm.1 hconflict)⟩
    exact h.forall ha hb hne
  · exact fun h => (nodup_numbered).pairwise_of_forall_ne h

/-- The parser refuses a request for deep keys and conflicts. -/
lemma parse_error_iff : (∃ e, QueryMap.parse pairs maxDepth = .error e) ↔
    (∃ pair ∈ pairs, TooDeep maxDepth pair.1) ∨
      ¬ (pairs.map sends).Pairwise (fun p q => ¬ Conflict p.1 q.1) := by
  obtain ⟨hgood, hbad⟩ := QueryMap.parse_spec pairs maxDepth
  rw [← not_iff_not, not_or, not_not]
  push Not
  constructor
  · intro h
    by_contra hnot
    obtain ⟨e, he⟩ := hbad hnot
    exact h e he
  · intro h e he
    obtain ⟨map, hmap, -⟩ := hgood h
    rw [hmap] at he
    cases he

/-- What has to be refused is refused. -/
lemma error_of_refused (h : Refused pairs maxDepth) :
    ∃ e, QueryMap.parse pairs maxDepth = .error e := by
  rw [parse_error_iff]
  refine h.imp id ?_
  rintro ⟨p, hp, q, hq, hne, hbegins⟩ hpairwise
  obtain ⟨a, ha, rfl⟩ := mem_places.1 hp
  obtain ⟨b, hb, rfl⟩ := mem_places.1 hq
  refine pairwise_iff.1 hpairwise a ha b hb (fun heq => hne (heq ▸ rfl)) ⟨fun heq => hne ?_, ?_⟩
  · refine hbegins.eq_of_length ?_
    simpa using congrArg List.length heq
  · exact .inl (hbegins.map Step.name)

/-- No item is repeated or gone on with. -/
lemma pairwise_mixedUp_iff :
    ((places pairs).Pairwise fun p q => ¬ MixedUp p q ∧ ¬ MixedUp q p) ↔
      ∀ a ∈ pairs.zipIdx, ∀ b ∈ pairs.zipIdx, a ≠ b →
        ¬ MixedUp (place a.2 a.1.1) (place b.2 b.1.1) := by
  rw [places, List.pairwise_map]
  constructor
  · intro h a ha b hb hne
    have hsymm : Std.Symm fun a b : (Text × Text) × ℕ =>
        ¬ MixedUp (place a.2 a.1.1) (place b.2 b.1.1) ∧
          ¬ MixedUp (place b.2 b.1.1) (place a.2 a.1.1) := ⟨fun a b h => h.symm⟩
    exact (h.forall ha hb hne).1
  · exact fun h => (nodup_numbered).pairwise_of_forall_ne fun a ha b hb hne =>
      ⟨h a ha b hb hne, h b hb a ha (Ne.symm hne)⟩

/-- What is refused without need has places that are mixed up. -/
lemma refused_of_error (h : ∃ e, QueryMap.parse pairs maxDepth = .error e)
    (hitems : (places pairs).Pairwise fun p q => ¬ MixedUp p q ∧ ¬ MixedUp q p) :
    Refused pairs maxDepth := by
  rw [pairwise_mixedUp_iff] at hitems
  have hplace : ∀ a ∈ pairs.zipIdx, ∀ b ∈ pairs.zipIdx, a ≠ b →
      (place a.2 a.1.1).map Step.name ≠ (place b.2 b.1.1).map Step.name →
      (place a.2 a.1.1).map Step.name <+: (place b.2 b.1.1).map Step.name →
      ∃ p ∈ places pairs, ∃ q ∈ places pairs, p ≠ q ∧ p <+: q := by
    intro a ha b hb hne hnames hbegins
    refine ⟨_, mem_places.2 ⟨a, ha, rfl⟩, _, mem_places.2 ⟨b, hb, rfl⟩, fun heq => ?_, ?_⟩
    · exact hnames (congrArg _ heq)
    · exact place_begins (fun hitem => hitems a ha b hb hne ⟨hitem, hbegins⟩) hbegins
  refine (parse_error_iff.1 h).imp id fun hpairwise => ?_
  rw [pairwise_iff] at hpairwise
  push Not at hpairwise
  obtain ⟨a, ha, b, hb, hne, hnames, hbegins | hbegins⟩ := hpairwise
  · exact hplace a ha b hb hne hnames hbegins
  · exact hplace b hb a ha (Ne.symm hne) (Ne.symm hnames) hbegins

/-- An accepted request has no paths in conflict, and its tree holds what was sent. -/
lemma holds_of_ok {map : QueryMap} (h : QueryMap.parse pairs maxDepth = .ok map) :
    Holds map.entries (pairs.map sends) ∧
      (pairs.map sends).Pairwise (fun p q => ¬ Conflict p.1 q.1) := by
  obtain ⟨hgood, hbad⟩ := QueryMap.parse_spec pairs maxDepth
  by_cases hpairs : (∀ pair ∈ pairs, ¬ TooDeep maxDepth pair.1) ∧
      (pairs.map sends).Pairwise (fun p q => ¬ Conflict p.1 q.1)
  · obtain ⟨map', hmap, hholds⟩ := hgood hpairs
    obtain rfl := Except.ok.inj (h.symm.trans hmap)
    exact ⟨hholds, hpairs.2⟩
  · obtain ⟨e, he⟩ := hbad hpairs
    rw [h] at he
    cases he

/-- Whether a request is refused does not depend on the order of its pairs. -/
lemma error_perm {pairs' : List (Text × Text)} (h : pairs'.Perm pairs) :
    (∃ e, QueryMap.parse pairs' maxDepth = .error e) ↔
      ∃ e, QueryMap.parse pairs maxDepth = .error e := by
  have hpairwise : (pairs'.map sends).Pairwise (fun p q => ¬ Conflict p.1 q.1) ↔
      (pairs.map sends).Pairwise (fun p q => ¬ Conflict p.1 q.1) :=
    (h.map sends).pairwise_iff fun hfree hconflict => hfree (conflict_comm.1 hconflict)
  rw [parse_error_iff, parse_error_iff, hpairwise]
  simp only [h.mem_iff]

lemma valuesOf_sends (path : List Text) : valuesOf path (pairs.map sends) =
    (pairs.zipIdx.filter fun a => (sends a.1).1 = path).map fun a => a.1.2 := by
  have hsends : pairs.map sends = pairs.zipIdx.map fun a => sends a.1 := by
    conv_lhs => rw [← List.zipIdx_map_fst 0 pairs, List.map_map]
    rfl
  rw [hsends, valuesOf, List.filter_map, List.map_map]
  rfl

/-- What the tree has at the place of a pair. -/
lemma valuesAt_place {map : QueryMap} (h : QueryMap.parse pairs maxDepth = .ok map)
    (a : (Text × Text) × ℕ) :
    (QueryValue.map map.entries).valuesAt ((place a.2 a.1.1).map Step.name) =
      (pairs.zipIdx.filter fun c => (sends c.1).1 = (sends a.1).1).map fun c => c.1.2 := by
  have hat := ((holds_of_ok h).1.at (splitKey a.1.1).1 (names (splitKey a.1.1).2)).1
  rw [map_name_place]
  exact hat.trans (valuesOf_sends _)

/-- Values that are mixed up are not those of the place. -/
lemma ne_of_mixedUp {a b : (Text × Text) × ℕ} (ha : a ∈ pairs.zipIdx) (hb : b ∈ pairs.zipIdx)
    (hne : a ≠ b) (hitem : InItem (place a.2 a.1.1))
    (hnames : (place a.2 a.1.1).map Step.name = (place b.2 b.1.1).map Step.name) :
    ((pairs.zipIdx.filter fun c => (sends c.1).1 = (sends a.1).1).map fun c => c.1.2) ≠
      valuesFor pairs (place a.2 a.1.1) := by
  intro hvalues
  have hsub : (pairs.zipIdx.filter fun c => place c.2 c.1.1 = place a.2 a.1.1).Sublist
      (pairs.zipIdx.filter fun c => (sends c.1).1 = (sends a.1).1) := by
    refine List.monotone_filter_right _ fun c hc => decide_eq_true ?_
    have hplace := congrArg (List.map Step.name) (of_decide_eq_true hc)
    rwa [map_name_place, map_name_place] at hplace
  have hlen := congrArg List.length hvalues
  rw [valuesFor, List.length_map, List.length_map] at hlen
  have hmem : b ∈ pairs.zipIdx.filter fun c => (sends c.1).1 = (sends a.1).1 := by
    rw [map_name_place, map_name_place] at hnames
    exact List.mem_filter.mpr ⟨hb, decide_eq_true hnames.symm⟩
  rw [← hsub.eq_of_length hlen.symm, List.mem_filter, decide_eq_true_eq] at hmem
  obtain ⟨pair, hpair⟩ := hitem
  have hpair' : .item pair ∈ place b.2 b.1.1 := hmem.2 ▸ hpair
  exact hne (eq_of_number_eq ha hb ((eq_of_item_mem hpair).symm.trans (eq_of_item_mem hpair')))

/-! ### Results -/

/-- The parser does what is asked of it when no bracket is part of a name and no item is repeated
or gone on with. -/
theorem faithful_iff (pairs : List (Text × Text)) (maxDepth : ℕ) :
    Faithful pairs maxDepth ↔ Plain pairs maxDepth := by
  constructor
  · intro h
    refine ⟨fun pair hpair => (literal_iff pair.1).mp (h.literal pair hpair), ?_⟩
    by_contra hnot
    rw [not_or, pairwise_mixedUp_iff] at hnot
    obtain ⟨hfree, hmixed⟩ := hnot
    push Not at hmixed
    obtain ⟨a, ha, b, hb, hne, hitem, hbegins⟩ := hmixed
    cases hparse : QueryMap.parse pairs maxDepth with
    | error e => exact hfree (h.refuses.mp ⟨e, hparse⟩)
    | ok map =>
      -- the two paths are the same, or the request would have been refused
      have hnames : (place a.2 a.1.1).map Step.name = (place b.2 b.1.1).map Step.name := by
        by_contra hnames
        exact pairwise_iff.mp (holds_of_ok hparse).2 a ha b hb hne ⟨hnames, .inl hbegins⟩
      have hvalues := h.values map hparse _ (mem_places.mpr ⟨a, ha, rfl⟩)
      rw [valuesAt_place hparse] at hvalues
      exact ne_of_mixedUp ha hb hne hitem hnames hvalues
  · intro h
    have hitems : ∀ map, QueryMap.parse pairs maxDepth = .ok map →
        (places pairs).Pairwise fun p q => ¬ MixedUp p q ∧ ¬ MixedUp q p := by
      intro map hmap
      refine h.items.resolve_left fun hrefused => ?_
      obtain ⟨e, he⟩ := error_of_refused hrefused
      rw [hmap] at he
      cases he
    refine ⟨⟨fun herror => ?_, error_of_refused⟩, fun pairs' => error_perm, ?_, ?_, ?_,
      fun pair hpair => (literal_iff pair.1).mpr (h.brackets pair hpair)⟩
    · exact h.items.elim id (refused_of_error herror)
    · intro map hmap at_ hat
      obtain ⟨a, ha, rfl⟩ := mem_places.mp hat
      have hfree := pairwise_mixedUp_iff.mp (hitems map hmap)
      rw [valuesAt_place hmap, valuesFor]
      refine congrArg _ (List.filter_congr fun c hc => decide_eq_decide.mpr ?_)
      rw [← map_name_place, ← map_name_place]
      refine ⟨fun hnames => ?_, congrArg _⟩
      by_cases hca : c = a
      · rw [hca]
      · have hbegins : (place c.2 c.1.1).map Step.name <+: (place a.2 a.1.1).map Step.name := by
          rw [hnames]
        refine (place_begins (fun hitem => ?_) hbegins).eq_of_length ?_
        · exact hfree c hc a ha hca ⟨hitem, hbegins⟩
        · simpa using congrArg List.length hnames
    · intro map hmap base path hnone
      rw [((holds_of_ok hmap).1.at base path).1, valuesOf_sends, List.map_eq_nil_iff,
        List.filter_eq_nil_iff]
      intro a ha hpath
      refine hnone (List.mem_map.mpr ⟨_, mem_places.mpr ⟨a, ha, rfl⟩, ?_⟩)
      rw [map_name_place]
      exact of_decide_eq_true hpath
    · intro map hmap path
      cases path with
      | nil => exact (holds_of_ok hmap).1.keys
      | cons base path => exact ((holds_of_ok hmap).1.at base path).2

/-- Two items of a list are taken for one. -/
theorem not_faithful : ¬ Faithful
    [("a[][b]".toList, "1".toList), ("a[][b]".toList, "2".toList)] 8 := by
  intro h
  have hvalues := h.values
    ⟨[("a".toList, .map [([], .map [("b".toList, .list ["1".toList, "2".toList])])])]⟩ rfl
    [.member "a".toList, .item 0, .member "b".toList] List.mem_cons_self
  exact absurd hvalues (by decide)

end Moso.Core
