import Moso.Core.Query
import Moso.Foundation.Fallible

/-!
# What the tree of a query holds

A value is sent along a path: the base of its key and the names of the members. The tree describes
what has been sent when it has a leaf for each path, with the values in their order, and the
members of a place are in the order in which they were seen first. A pair is refused when its path
goes on where another one ends.
-/

namespace Moso.Core

open Branches

/-! ### Paths -/

/-- The members that a key goes through. An empty name stands for `[]`, but at the end, where it
only says that the value is an element of a list. -/
def names : List Segment → List Text
  | [] => []
  | [.append] => []
  | head :: rest => head.name :: names rest

/-- One path goes on where the other ends. -/
def Conflict (path path' : List Text) : Prop := path ≠ path' ∧ (path <+: path' ∨ path' <+: path)

/-- The path is in conflict with one along which something was sent. -/
def Conflicts (path : List Text) (sent : List (List Text × Text)) : Prop :=
  ∃ p ∈ sent, Conflict p.1 path

/-- The tree holds what was sent. -/
inductive Describes : QueryValue → List (List Text × Text) → Prop where
  | scalar (value : Text) : Describes (.scalar value) [([], value)]
  | list (items : List Text) (hne : items ≠ []) : Describes (.list items) (items.map ([], ·))
  | map (members : List (Text × QueryValue)) (sent : List (List Text × Text)) (hne : sent ≠ [])
      (hpaths : ∀ p ∈ sent, p.1 ≠ []) (hkeys : members.map Prod.fst = heads sent)
      (hmembers : ∀ m ∈ members, Describes m.2 (under m.1 sent)) : Describes (.map members) sent

/-- The same for the whole map. -/
structure Holds (entries : List (Text × QueryValue)) (sent : List (List Text × Text)) : Prop where
  keys : entries.map Prod.fst = heads sent
  members : ∀ m ∈ entries, Describes m.2 (under m.1 sent)

variable {key name value : Text} {path path' : List Text} {sent : List (List Text × Text)}
  {t : QueryValue} {segments rest : List Segment} {entries : List (Text × QueryValue)}

lemma conflict_comm : Conflict path path' ↔ Conflict path' path := by
  rw [Conflict, Conflict, ne_comm, or_comm]

lemma conflict_cons {name' : Text} :
    Conflict (name :: path) (name' :: path') ↔ name = name' ∧ Conflict path path' := by
  simp only [Conflict, ne_eq, List.cons.injEq, List.cons_prefix_cons]
  grind

lemma conflicts_cons (hpaths : ∀ p ∈ sent, p.1 ≠ []) :
    Conflicts (name :: path) sent ↔ Conflicts path (under name sent) := by
  constructor
  · rintro ⟨⟨start, value⟩, hmem, hconflict⟩
    obtain ⟨head, rest, rfl⟩ := List.exists_cons_of_ne_nil (hpaths _ hmem)
    obtain ⟨rfl, hrest⟩ := conflict_cons.1 hconflict
    exact ⟨(rest, value), mem_under.2 hmem, hrest⟩
  · rintro ⟨⟨rest, value⟩, hmem, hconflict⟩
    exact ⟨(name :: rest, value), mem_under.1 hmem, conflict_cons.2 ⟨rfl, hconflict⟩⟩

/-! ### A tree of one value -/

/-- A key ends at a place, or goes on under a name. -/
lemma names_cases (segments : List Segment) :
    (names segments = [] ∧ (segments = [] ∨ segments = [.append])) ∨
      ∃ head rest, segments = head :: rest ∧ names segments = head.name :: names rest ∧
        segments ≠ [.append] := by
  match segments with
  | [] => exact .inl ⟨rfl, .inl rfl⟩
  | [.append] => exact .inl ⟨rfl, .inr rfl⟩
  | [.named name] => exact .inr ⟨_, _, rfl, rfl, by simp⟩
  | .append :: next :: rest => exact .inr ⟨_, _, rfl, rfl, by simp⟩
  | .named name :: next :: rest => exact .inr ⟨_, _, rfl, rfl, by simp⟩

lemma build_cons {head : Segment} (h : head :: rest ≠ [.append]) :
    build (head :: rest) value = .map [(head.name, build rest value)] := by
  match head, rest with
  | .named name, rest => rfl
  | .append, [] => exact absurd rfl h
  | .append, next :: rest => rfl

lemma merge_cons {head : Segment} (h : head :: rest ≠ [.append]) (t : QueryValue) :
    merge key (head :: rest) value t =
      match t with
      | .map members => do
        let members ← mergeMember (merge key rest value) head.name (build rest value) members
        return .map members
      | _ => .error (shapeConflict key) := by
  match head, rest with
  | .named name, rest => rfl
  | .append, [] => exact absurd rfl h
  | .append, next :: rest => rfl

lemma describes_build (segments : List Segment) (value : Text) :
    Describes (build segments value) [(names segments, value)] := by
  induction segments with
  | nil => exact .scalar value
  | cons head rest ih =>
    rcases names_cases (head :: rest) with ⟨hnames, h | h⟩ | ⟨_, _, h, hnames, hne⟩
    · cases h
    · rw [h]
      exact .list [value] (by simp)
    · obtain ⟨rfl, rfl⟩ := List.cons.inj h
      rw [hnames, build_cons hne]
      refine .map _ _ (by simp) (by simp) ?_ ?_
      · show [head.name] = heads ([] ++ [(head.name :: names rest, value)])
        rw [heads_concat_cons, if_neg (by simp [heads, firstSeen])]
        rfl
      · rintro m hm
        obtain rfl := List.mem_singleton.mp hm
        rwa [← List.nil_append [(head.name :: names rest, value)], under_concat_self]

/-! ### Merging -/

section

variable {merged : QueryValue → Except QueryError QueryValue} {fresh : QueryValue}

lemma mergeMember_of_notMem (h : name ∉ entries.map Prod.fst) :
    mergeMember merged name fresh entries = .ok (entries ++ [(name, fresh)]) := by
  induction entries with
  | nil => rfl
  | cons entry entries ih =>
    rw [List.map_cons, List.mem_cons, not_or] at h
    rw [mergeMember, if_neg (Ne.symm h.1), ih h.2]
    rfl

lemma mergeMember_of_mem {front back : List (Text × QueryValue)} (h : name ∉ front.map Prod.fst) :
    mergeMember merged name fresh (front ++ (name, t) :: back) = (do
      let t ← merged t
      return front ++ (name, t) :: back) := by
  induction front with
  | nil => rw [List.nil_append, mergeMember, if_pos rfl]; rfl
  | cons entry front ih =>
    rw [List.map_cons, List.mem_cons, not_or] at h
    rw [List.cons_append, mergeMember, if_neg (Ne.symm h.1), ih h.2]
    cases merged t <;> rfl

end

/-- Merging keeps to what has been sent, and is refused for a conflict only. -/
def Merges (segments : List Segment) : Prop := ∀ (key value : Text) (t : QueryValue) (sent : _),
  Describes t sent →
    (Conflicts (names segments) sent → merge key segments value t = .error (shapeConflict key)) ∧
    (¬ Conflicts (names segments) sent → ∃ t', merge key segments value t = .ok t' ∧
      Describes t' (sent ++ [(names segments, value)]))

/-- The same for a member of a map, there already or new. -/
lemma Holds.mergeMember (h : Holds entries sent) (hpaths : ∀ p ∈ sent, p.1 ≠ [])
    (hmerges : Merges rest) (key name value : Text) :
    (Conflicts (name :: names rest) sent →
      mergeMember (merge key rest value) name (build rest value) entries =
        .error (shapeConflict key)) ∧
    (¬ Conflicts (name :: names rest) sent → ∃ entries',
      mergeMember (merge key rest value) name (build rest value) entries = .ok entries' ∧
        Holds entries' (sent ++ [(name :: names rest, value)])) := by
  rw [conflicts_cons hpaths]
  by_cases hmem : name ∈ heads sent
  · -- the member is there
    obtain ⟨⟨name', t⟩, ht, heq⟩ := List.mem_map.mp (h.keys ▸ hmem)
    obtain rfl : name = name' := heq.symm
    obtain ⟨front, back, rfl⟩ := List.append_of_mem ht
    have hnodup : ((front ++ (name, t) :: back).map Prod.fst).Nodup := by
      rw [h.keys]
      exact nodup_firstSeen _
    rw [List.map_append, List.map_cons, List.nodup_append, List.nodup_cons] at hnodup
    obtain ⟨-, ⟨hback, -⟩, hfront⟩ := hnodup
    rw [mergeMember_of_mem fun hmem => hfront _ hmem _ List.mem_cons_self rfl]
    obtain ⟨hbad, hgood⟩ := hmerges key value t _ (h.members _ ht)
    refine ⟨fun hconflict => by rw [hbad hconflict]; rfl, fun hfree => ?_⟩
    obtain ⟨t', hmerge, ht'⟩ := hgood hfree
    refine ⟨_, by rw [hmerge]; rfl, ?_, fun m hm => ?_⟩
    · rw [heads_concat_cons, if_pos hmem, ← h.keys]
      simp
    · rw [List.mem_append, List.mem_cons] at hm
      rcases hm with hm | rfl | hm
      · have hne := hfront _ (List.mem_map_of_mem hm) _ List.mem_cons_self
        rw [under_concat_of_ne (Ne.symm hne)]
        exact h.members m (List.mem_append_left _ hm)
      · rwa [under_concat_self]
      · have hne : name ≠ m.1 := by
          rintro rfl
          have hkey : m.1 ∈ back.map Prod.fst := List.mem_map_of_mem hm
          exact hback hkey
        rw [under_concat_of_ne hne]
        exact h.members m (List.mem_append_right _ (List.mem_cons_of_mem _ hm))
  · -- the member is new
    have hunder := under_eq_nil hmem
    refine ⟨fun ⟨p, hp, _⟩ => absurd (hunder ▸ hp) List.not_mem_nil, fun _ => ?_⟩
    refine ⟨_, mergeMember_of_notMem (h.keys ▸ hmem), ?_, fun m hm => ?_⟩
    · rw [heads_concat_cons, if_neg hmem, List.map_append, h.keys]
      rfl
    · rw [List.mem_append, List.mem_singleton] at hm
      rcases hm with hm | rfl
      · have hne : name ≠ m.1 := by
          rintro rfl
          exact hmem (h.keys ▸ List.mem_map_of_mem hm)
        rw [under_concat_of_ne hne]
        exact h.members m hm
      · rw [under_concat_self, hunder]
        exact describes_build rest value

lemma mergeValue_describes (h : Describes t sent) :
    (Conflicts [] sent → mergeValue key value t = .error (shapeConflict key)) ∧
    (¬ Conflicts [] sent → ∃ t', mergeValue key value t = .ok t' ∧
      Describes t' (sent ++ [([], value)])) := by
  cases h with
  | scalar existing =>
    refine ⟨fun ⟨p, hp, hne, _⟩ => absurd ?_ hne, fun _ => ⟨_, rfl, ?_⟩⟩
    · rw [List.mem_singleton.mp hp]
    · exact .list [existing, value] (by simp)
  | list items hitems =>
    refine ⟨fun ⟨p, hp, hne, _⟩ => absurd ?_ hne, fun _ => ⟨_, rfl, ?_⟩⟩
    · obtain ⟨item, -, rfl⟩ := List.mem_map.mp hp
      rfl
    · rw [show items.map ([], ·) ++ [([], value)] = (items ++ [value]).map (([] : List Text), ·) by
        simp]
      exact .list _ (by simp)
  | map members sent hne hpaths =>
    obtain ⟨p, hp⟩ := List.exists_mem_of_ne_nil sent hne
    refine ⟨fun _ => rfl, fun hfree => absurd ⟨p, hp, hpaths p hp, .inr List.nil_prefix⟩ hfree⟩

lemma merges (segments : List Segment) : Merges segments := by
  induction segments with
  | nil => exact fun key value t sent h => mergeValue_describes h
  | cons head rest ih =>
    intro key value t sent h
    rcases names_cases (head :: rest) with ⟨hnames, hsegments | hsegments⟩ | ⟨_, _, heq, hnames, hne⟩
    · cases hsegments
    · rw [hnames, hsegments]
      exact mergeValue_describes h
    · obtain ⟨rfl, rfl⟩ := List.cons.inj heq
      rw [hnames, merge_cons hne]
      have hends : ∀ v, Conflicts (head.name :: names rest) [([], v)] := fun v =>
        ⟨_, List.mem_singleton_self _, by simp, .inl List.nil_prefix⟩
      cases h with
      | scalar v => exact ⟨fun _ => rfl, fun hfree => absurd (hends v) hfree⟩
      | list items hitems =>
        obtain ⟨v, hv⟩ := List.exists_mem_of_ne_nil items hitems
        refine ⟨fun _ => rfl, fun hfree => absurd ?_ hfree⟩
        exact ⟨([], v), List.mem_map_of_mem hv, by simp, .inl List.nil_prefix⟩
      | map members sent hne hpaths hkeys hmembers =>
        obtain ⟨hbad, hgood⟩ :=
          Holds.mergeMember ⟨hkeys, hmembers⟩ hpaths ih key head.name value
        refine ⟨fun hconflict => by simp only [hbad hconflict]; rfl, fun hfree => ?_⟩
        obtain ⟨members', hmerge, hholds⟩ := hgood hfree
        refine ⟨_, by simp only [hmerge]; rfl, .map _ _ (by simp) ?_ hholds.keys hholds.members⟩
        rintro p hp
        rcases List.mem_append.mp hp with hp | hp
        · exact hpaths p hp
        · rw [List.mem_singleton.mp hp]
          exact List.cons_ne_nil _ _

/-! ### Parsing -/

/-- What a pair sends. -/
def sends (pair : Text × Text) : List Text × Text :=
  let (base, segments) := splitKey pair.1
  (base :: names segments, pair.2)

/-- The key has more levels than are allowed. A key without brackets has one. -/
def TooDeep (maxDepth : ℕ) (key : Text) : Prop :=
  (splitKey key).2 ≠ [] ∧ (splitKey key).2.length + 1 > maxDepth

variable {maxDepth : ℕ} {pairs : List (Text × Text)}

lemma tooDeep_iff : TooDeep maxDepth key ↔ (splitKey key).2.length + 1 > max maxDepth 1 := by
  rw [TooDeep, ← List.length_pos_iff]
  omega

lemma sends_ne_nil : ∀ p ∈ pairs.map sends, p.1 ≠ [] := by
  rintro p hp
  obtain ⟨pair, -, rfl⟩ := List.mem_map.mp hp
  exact List.cons_ne_nil _ _

namespace QueryMap

lemma insert_holds (base : Text) (segments : List Segment) (value : Text) {map : QueryMap}
    (h : Holds map.entries sent)
    (hpaths : ∀ p ∈ sent, p.1 ≠ []) :
    (Conflicts (base :: names segments) sent → ∃ e, map.insert base segments value = .error e) ∧
    (¬ Conflicts (base :: names segments) sent → ∃ map', map.insert base segments value = .ok map' ∧
      Holds map'.entries (sent ++ [(base :: names segments, value)])) := by
  obtain ⟨hbad, hgood⟩ := h.mergeMember hpaths (merges segments) base base value
  refine ⟨fun hconflict => ⟨_, by rw [insert, hbad hconflict]; rfl⟩, fun hfree => ?_⟩
  obtain ⟨entries', hmerge, hholds⟩ := hgood hfree
  exact ⟨⟨entries'⟩, by rw [insert, hmerge]; rfl, hholds⟩

lemma parsePair_spec (maxDepth : ℕ) (pair : Text × Text) {map : QueryMap}
    (h : Holds map.entries sent)
    (hpaths : ∀ p ∈ sent, p.1 ≠ []) :
    (TooDeep maxDepth pair.1 ∨ Conflicts (sends pair).1 sent →
      ∃ e, parsePair maxDepth map pair = .error e) ∧
    (¬ TooDeep maxDepth pair.1 ∧ ¬ Conflicts (sends pair).1 sent →
      ∃ map', parsePair maxDepth map pair = .ok map' ∧ Holds map'.entries (sent ++ [sends pair])) := by
  obtain ⟨hbad, hgood⟩ := insert_holds (splitKey pair.1).1 (splitKey pair.1).2 pair.2 h hpaths
  by_cases hdeep : (splitKey pair.1).2.length + 1 > max maxDepth 1
  · exact ⟨fun _ => ⟨_, if_pos hdeep⟩, fun hfree => absurd (tooDeep_iff.2 hdeep) hfree.1⟩
  · have hpair : parsePair maxDepth map pair =
        map.insert (splitKey pair.1).1 (splitKey pair.1).2 pair.2 := if_neg hdeep
    rw [hpair]
    refine ⟨fun hconflict => hbad (hconflict.resolve_left fun hd => hdeep (tooDeep_iff.1 hd)),
      fun hfree => hgood hfree.2⟩

/-- A query is refused for a key that is too deep or for two paths in conflict, and is otherwise
the tree of what was sent. -/
lemma parse_spec (pairs : List (Text × Text)) (maxDepth : ℕ) :
    ((∀ pair ∈ pairs, ¬ TooDeep maxDepth pair.1) ∧
        (pairs.map sends).Pairwise (fun p q => ¬ Conflict p.1 q.1) →
      ∃ map, parse pairs maxDepth = .ok map ∧ Holds map.entries (pairs.map sends)) ∧
    (¬ ((∀ pair ∈ pairs, ¬ TooDeep maxDepth pair.1) ∧
        (pairs.map sends).Pairwise (fun p q => ¬ Conflict p.1 q.1)) →
      ∃ e, parse pairs maxDepth = .error e) := by
  induction pairs using List.reverseRecOn with
  | nil => exact ⟨fun _ => ⟨⟨[]⟩, rfl, rfl, by simp⟩, fun h => absurd ⟨by simp, by simp⟩ h⟩
  | append_singleton pairs pair ih =>
    obtain ⟨hgood, hbad⟩ := ih
    have hparse : parse (pairs ++ [pair]) maxDepth = (do
        let map ← parse pairs maxDepth
        parsePair maxDepth map pair) := by
      rw [parse, List.foldlM_append]
      simp [parse]
    have hlast : (∀ p ∈ pairs.map sends, ¬ Conflict p.1 (sends pair).1) ↔
        ¬ Conflicts (sends pair).1 (pairs.map sends) := by
      rw [Conflicts]
      push Not
      rfl
    simp only [List.forall_mem_append, List.forall_mem_singleton, List.map_append, List.map_cons,
      List.map_nil, List.pairwise_append, List.pairwise_singleton, true_and, hlast]
    by_cases hpairs : (∀ pair ∈ pairs, ¬ TooDeep maxDepth pair.1) ∧
        (pairs.map sends).Pairwise (fun p q => ¬ Conflict p.1 q.1)
    · obtain ⟨map, hmap, hholds⟩ := hgood hpairs
      obtain ⟨hbad', hgood'⟩ := parsePair_spec maxDepth pair hholds sends_ne_nil
      rw [hparse, hmap]
      refine ⟨fun h => hgood' ⟨h.1.2, h.2.2⟩, fun h => hbad' ?_⟩
      by_contra hnone
      rw [not_or] at hnone
      exact h ⟨⟨hpairs.1, hnone.1⟩, hpairs.2, hnone.2⟩
    · obtain ⟨e, he⟩ := hbad hpairs
      rw [hparse, he]
      exact ⟨fun h => absurd ⟨h.1.1, h.2.1⟩ hpairs, fun _ => ⟨e, rfl⟩⟩

end QueryMap

/-! ### Reading the tree -/

namespace QueryValue

/-- The values that stand at the end of a path. -/
def valuesAt : List Text → QueryValue → List Text
  | [], .scalar value => [value]
  | [], .list items => items
  | [], .map _ => []
  | name :: path, .map members =>
    match members.find? (·.1 = name) with
    | some member => valuesAt path member.2
    | none => []
  | _ :: _, _ => []

/-- The members at the end of a path. -/
def keysAt : List Text → QueryValue → List Text
  | [], .map members => members.map Prod.fst
  | name :: path, .map members =>
    match members.find? (·.1 = name) with
    | some member => keysAt path member.2
    | none => []
  | _, _ => []

end QueryValue

/-- What goes on beneath a path. -/
def beneath (path : List Text) (sent : List (List Text × Text)) : List (List Text × Text) :=
  path.foldl (fun sent name => under name sent) sent

lemma beneath_nil (path : List Text) : beneath path [] = [] := by
  induction path with
  | nil => rfl
  | cons name path ih => exact ih

/-- A member is found under its name. -/
lemma find?_eq (hkeys : entries.map Prod.fst = heads sent)
    (hmembers : ∀ m ∈ entries, Describes m.2 (under m.1 sent)) (name : Text) :
    (∃ t, entries.find? (·.1 = name) = some (name, t) ∧ Describes t (under name sent)) ∨
      (entries.find? (·.1 = name) = none ∧ under name sent = []) := by
  cases hfind : entries.find? (·.1 = name) with
  | some m =>
    have hname := List.find?_some hfind
    obtain rfl : m.1 = name := of_decide_eq_true hname
    exact .inl ⟨m.2, rfl, hmembers m (List.mem_of_find?_eq_some hfind)⟩
  | none =>
    refine .inr ⟨rfl, under_eq_nil fun hmem => ?_⟩
    obtain ⟨m, hm, rfl⟩ := List.mem_map.mp (hkeys ▸ hmem)
    exact List.find?_eq_none.mp hfind m hm (decide_eq_true rfl)

/-- What was sent along a path, in its order. -/
def valuesOf (path : List Text) (sent : List (List Text × Text)) : List Text :=
  (sent.filter (·.1 = path)).map Prod.snd

lemma valuesOf_under (path : List Text) :
    valuesOf path (under name sent) = valuesOf (name :: path) sent := by
  induction sent with
  | nil => rfl
  | cons p sent ih =>
    obtain ⟨start, value⟩ := p
    rw [valuesOf, valuesOf, under] at ih ⊢
    cases start with
    | nil => simpa using ih
    | cons head rest =>
      by_cases hname : head = name
      · by_cases hpath : rest = path <;> simp [hname, hpath, ih]
      · simp [hname, ih]

lemma under_ends (items : List Text) : under name (items.map (([] : List Text), ·)) = [] := by
  simp [under]

lemma heads_ends (items : List Text) : heads (items.map (([] : List Text), ·)) = [] := by
  have hnone : (items.map (([] : List Text), ·)).filterMap (fun p => p.1.head?) = [] := by
    rw [List.filterMap_map]
    exact List.filterMap_eq_nil_iff.mpr fun _ _ => rfl
  rw [heads, hnone]
  rfl

lemma valuesOf_ends (items : List Text) : valuesOf [] (items.map ([], ·)) = items := by
  induction items with
  | nil => rfl
  | cons item items ih => exact congrArg (item :: ·) ih

/-- At the end of each path stands what was sent along it, and go on the names that were seen. -/
lemma Describes.at (h : Describes t sent) (path : List Text) :
    t.valuesAt path = valuesOf path sent ∧ t.keysAt path = heads (beneath path sent) := by
  induction path generalizing t sent with
  | nil =>
    cases h with
    | scalar value => exact ⟨rfl, rfl⟩
    | list items hne => exact ⟨(valuesOf_ends items).symm, (heads_ends items).symm⟩
    | map members sent hne hpaths hkeys hmembers =>
      refine ⟨?_, hkeys⟩
      have hnone : sent.filter (·.1 = []) = [] := by
        rw [List.filter_eq_nil_iff]
        exact fun p hp h => hpaths p hp (of_decide_eq_true h)
      rw [valuesOf, hnone]
      rfl
  | cons name path ih =>
    rw [beneath, List.foldl_cons, ← beneath, ← valuesOf_under]
    cases h with
    | scalar value =>
      rw [show [(([] : List Text), value)] = [value].map (([] : List Text), ·) from rfl, under_ends,
        beneath_nil]
      exact ⟨rfl, rfl⟩
    | list items hne =>
      rw [under_ends, beneath_nil]
      exact ⟨rfl, rfl⟩
    | map members sent hne hpaths hkeys hmembers =>
      rcases find?_eq hkeys hmembers name with ⟨t, hfind, ht⟩ | ⟨hfind, hunder⟩
      · simp only [QueryValue.valuesAt, QueryValue.keysAt, hfind]
        exact ih ht
      · simp only [QueryValue.valuesAt, QueryValue.keysAt, hfind, hunder, beneath_nil]
        exact ⟨rfl, rfl⟩

/-- The same for the whole map. -/
lemma Holds.at (h : Holds entries sent) (base : Text) (path : List Text) :
    (QueryValue.map entries).valuesAt (base :: path) = valuesOf (base :: path) sent ∧
      (QueryValue.map entries).keysAt (base :: path) = heads (beneath (base :: path) sent) := by
  rw [beneath, List.foldl_cons, ← beneath, ← valuesOf_under]
  rcases find?_eq h.keys h.members base with ⟨t, hfind, ht⟩ | ⟨hfind, hunder⟩
  · simp only [QueryValue.valuesAt, QueryValue.keysAt, hfind]
    exact ht.at path
  · simp only [QueryValue.valuesAt, QueryValue.keysAt, hfind, hunder, beneath_nil]
    exact ⟨rfl, rfl⟩

end Moso.Core
