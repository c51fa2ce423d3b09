import Moso.Foundation.Fallible
import Moso.Foundation.Binary64
import Moso.Kv.Memory
import Mathlib.Data.List.Nodup

/-!
# The collections of the in-process store

Sequences of operations on all keys of a `MemoryStore`. Every operation keeps a set free of
repetitions and a sorted set in its order, counts what it changed and takes an emptied collection
away; only an addition of no members to an absent key leaves an empty collection behind.
-/

namespace Moso.Kv

/-! ### A sequential store -/

/-- The lookup: an expired entry is dropped. -/
def live (now : ℕ) (cache : Option Stored) : Option Stored :=
  cache.filter fun st => !st.isExpired now

/-- What an effect leaves in the cache. -/
def Effect.leaves (existing : Option Stored) : Effect → Option Stored
  | .keep       => existing
  | .put st     => some st
  | .invalidate => none

/-- One operation, undisturbed: the reply and the entry that it leaves. A blocking pop that finds
nothing finds nothing until it gives up. -/
def perform (now : ℕ) (op : WriteOp) (cache : Option Stored) :
    Except MemoryError Reply × Option Stored :=
  match op.validate with
  | .error e => (.error e, cache)
  | .ok () =>
    match op.decide now (live now cache) with
    | .error e            => (.error e, live now cache)
    | .ok (reply, effect) => (.ok reply, effect.leaves (live now cache))

/-- A finished operation: what it found under its key, replied and left there. -/
structure Performed where
  op : WriteOp
  found : Option Stored
  reply : Except MemoryError Reply
  left : Option Stored

/-- The clock and the cache, with the last operation. -/
structure StoreState where
  now : ℕ
  cache : String → Option Stored
  last : Option Performed

inductive StoreEvent where
  | tick (d : ℕ)
  | perform (key : String) (op : WriteOp)

/-- The scores that the operation writes are finite. -/
def WriteOp.finiteScores : WriteOp → Bool
  | zadd scored => scored.all fun entry => entry.1.isFinite
  | _           => true

namespace StoreState

def init : StoreState := { now := 0, cache := fun _ => none, last := none }

/-- The operation on one key, on the whole store. -/
def perform (s : StoreState) (key : String) (op : WriteOp) : StoreState :=
  let (reply, left) := Kv.perform s.now op (s.cache key)
  { s with
    cache := Function.update s.cache key left
    last := some { op := op, found := live s.now (s.cache key), reply := reply, left := left } }

def step (s : StoreState) : StoreEvent → Option StoreState
  | .tick d         => some { s with now := s.now + d }
  | .perform key op => if op.finiteScores then some (s.perform key op) else none

end StoreState

/-! ### What holds of the collections -/

/-- A collection as Redis has it: not empty, no member twice, a sorted set by score and member. -/
def Value.WellFormed : Value → Prop
  | .bytes _    => True
  | .list items => items ≠ []
  | .set items  => items ≠ [] ∧ items.Nodup
  | .zset items => items ≠ [] ∧ (items.map Prod.snd).Nodup ∧
      items.Pairwise fun x y => zsetLe x y = true

/-- How many elements the collection under a key has. -/
def card : Option Stored → ℕ
  | some ⟨.list items, _⟩ | some ⟨.set items, _⟩ => items.length
  | some ⟨.zset items, _⟩ => items.length
  | _ => 0

/-- The returned count is the length after a push, and else what was added or removed. -/
def Performed.Counted (p : Performed) : Prop :=
  ∀ n, p.reply = .ok (.count n) →
    match p.op with
    | .listPush _ _           => card p.left = n
    | .setAdd _ | .zadd _     => card p.left = card p.found + n
    | .setRemove _ | .zrem _  => card p.found = card p.left + n
    | _                       => True

/-- Every live collection is well formed, and the last operation counted right. -/
def StoreState.Sound (s : StoreState) : Prop :=
  (∀ key st, live s.now (s.cache key) = some st → st.value.WellFormed) ∧
    ∀ p, s.last = some p → p.Counted

/-- The operation adds to a collection, but no member. -/
def WriteOp.addsNothing : WriteOp → Bool
  | listPush values _ => values.isEmpty
  | setAdd members    => members.isEmpty
  | zadd scored       => scored.isEmpty
  | _                 => false

/-- An addition of no members finds its key. -/
def StoreState.AddsToSomething (s : StoreState) : StoreEvent → Prop
  | .tick _         => True
  | .perform key op => op.addsNothing = true → live s.now (s.cache key) ≠ none

/-! ### The order of a sorted set -/

/-- The entry's place: score first, then member. -/
def entryLe (x y : Float × Bytes) : Bool :=
  if FloatOrder.rank x.1 < FloatOrder.rank y.1 then true
  else if FloatOrder.rank y.1 < FloatOrder.rank x.1 then false
  else x.2 ≤ y.2

lemma entryLe_iff {x y : Float × Bytes} : entryLe x y = true ↔
    FloatOrder.rank x.1 < FloatOrder.rank y.1 ∨
      FloatOrder.rank x.1 = FloatOrder.rank y.1 ∧ x.2 ≤ y.2 := by
  unfold entryLe
  rcases lt_trichotomy (FloatOrder.rank x.1) (FloatOrder.rank y.1) with h | h | h
  · simp [h]
  · simp [h]
  · simp [h, h.not_gt, h.ne']

lemma entryLe_trans (x y z : Float × Bytes) (hxy : entryLe x y = true)
    (hyz : entryLe y z = true) : entryLe x z = true := by
  rw [entryLe_iff] at hxy hyz ⊢
  rcases hxy with hxy | ⟨hxy, hle⟩
  · rcases hyz with hyz | ⟨hyz, -⟩
    · exact .inl (hxy.trans hyz)
    · exact .inl (hyz ▸ hxy)
  · rcases hyz with hyz | ⟨hyz, hle'⟩
    · exact .inl (hxy ▸ hyz)
    · exact .inr ⟨hxy.trans hyz, List.le_trans hle hle'⟩

lemma entryLe_total (x y : Float × Bytes) : (entryLe x y || entryLe y x) = true := by
  rw [Bool.or_eq_true, entryLe_iff, entryLe_iff]
  rcases lt_trichotomy (FloatOrder.rank x.1) (FloatOrder.rank y.1) with h | h | h
  · exact .inl (.inl h)
  · exact (List.le_total x.2 y.2).imp (fun hle => .inr ⟨h, hle⟩) fun hle => .inr ⟨h.symm, hle⟩
  · exact .inr (.inl h)

/-- On finite scores the source's comparison is that order. -/
lemma zsetLe_eq {x y : Float × Bytes} (hx : x.1.isFinite = true) (hy : y.1.isFinite = true) :
    zsetLe x y = entryLe x y := by
  have hnx := FloatOrder.isNaN_of_isFinite hx
  have hny := FloatOrder.isNaN_of_isFinite hy
  simp only [zsetLe, entryLe, FloatOrder.rank_lt hnx hny, FloatOrder.rank_lt hny hnx]

lemma sortZset_perm (items : List (Float × Bytes)) : (sortZset items).Perm items :=
  List.mergeSort_perm _ _

lemma pairwise_sortZset {items : List (Float × Bytes)}
    (hfinite : ∀ entry ∈ items, entry.1.isFinite = true) :
    (sortZset items).Pairwise fun x y => zsetLe x y = true := by
  have hsort : sortZset items = items.mergeSort entryLe := by
    have h := List.map_mergeSort (r := zsetLe) (s := entryLe) (f := id) (l := items)
      fun x hx y hy => zsetLe_eq (hfinite x hx) (hfinite y hy)
    rwa [List.map_id, List.map_id] at h
  have hmem : ∀ entry ∈ sortZset items, entry.1.isFinite = true := fun entry h =>
    hfinite entry ((sortZset_perm items).mem_iff.mp h)
  have hpairwise := List.pairwise_mergeSort entryLe_trans entryLe_total items
  rw [← hsort] at hpairwise
  exact hpairwise.imp_of_mem fun hx hy h => (zsetLe_eq (hmem _ hx) (hmem _ hy)).trans h

/-! ### Additions -/

/-- A loop that adds the members it does not hold yet, and counts them, keeps the members
distinct and counts how many it has gained. -/
lemma foldl_added {β ε : Type*} (names : β → List Bytes) (member : ε → Bytes)
    (f : β × ℕ → ε → β × ℕ)
    (hheld : ∀ acc e, member e ∈ names acc.1 → names (f acc e).1 = names acc.1 ∧
      (f acc e).2 = acc.2)
    (hnew : ∀ acc e, member e ∉ names acc.1 → names (f acc e).1 = names acc.1 ++ [member e] ∧
      (f acc e).2 = acc.2 + 1)
    (es : List ε) (acc : β × ℕ) (h : (names acc.1).Nodup) :
    (names (es.foldl f acc).1).Nodup ∧
      (names (es.foldl f acc).1).length + acc.2 = (names acc.1).length + (es.foldl f acc).2 ∧
      (names (es.foldl f acc).1 = [] → names acc.1 = [] ∧ es = []) := by
  induction es generalizing acc with
  | nil => exact ⟨h, rfl, fun hnil => ⟨hnil, rfl⟩⟩
  | cons e es ih =>
    rw [List.foldl_cons]
    have ih := ih (f acc e)
    by_cases hmem : member e ∈ names acc.1
    · obtain ⟨hnames, hcount⟩ := hheld acc e hmem
      obtain ⟨hnodup, hlength, hempty⟩ := ih (hnames ▸ h)
      rw [hnames, hcount] at hlength
      refine ⟨hnodup, hlength, fun hnil => ?_⟩
      rw [← hnames, (hempty hnil).1] at hmem
      exact absurd hmem List.not_mem_nil
    · obtain ⟨hnames, hcount⟩ := hnew acc e hmem
      have hdisjoint : (names (f acc e).1).Nodup := by
        rw [hnames]
        exact List.nodup_append'.mpr ⟨h, List.nodup_singleton _, by simpa using hmem⟩
      obtain ⟨hnodup, hlength, hempty⟩ := ih hdisjoint
      rw [hnames, hcount, List.length_append, List.length_singleton] at hlength
      refine ⟨hnodup, by omega, fun hnil => ?_⟩
      have happend := (hempty hnil).1
      rw [hnames] at happend
      exact absurd happend (by simp)

namespace MemoryStore

/-- The entries that a set has after an addition. -/
lemma addMembers_spec {items : List Bytes} (h : items.Nodup) (members : List Bytes) :
    (addMembers items members).1.Nodup ∧
      (addMembers items members).1.length = items.length + (addMembers items members).2 ∧
      ((addMembers items members).1 = [] → items = [] ∧ members = []) := by
  refine foldl_added id id _ ?_ ?_ members (items, 0) h
  · intro acc member hmem
    exact ⟨congrArg Prod.fst (if_pos hmem), congrArg Prod.snd (if_pos hmem)⟩
  · intro acc member hmem
    exact ⟨congrArg Prod.fst (if_neg hmem), congrArg Prod.snd (if_neg hmem)⟩

lemma map_snd_rescore (score : Float) (member : Bytes) (items : List (Float × Bytes)) :
    (rescore score member items).map Prod.snd = items.map Prod.snd := by
  induction items with
  | nil => rfl
  | cons entry items ih =>
    rw [rescore]
    by_cases h : entry.2 = member
    · rw [if_pos h]
      rfl
    · rw [if_neg h, List.map_cons, List.map_cons, ih]

/-- One turn of the loop of `addScored`. -/
def addOneScored (acc : List (Float × Bytes) × ℕ) (entry : Float × Bytes) :
    List (Float × Bytes) × ℕ :=
  if acc.1.any fun held => held.2 = entry.2 then (rescore entry.1 entry.2 acc.1, acc.2)
  else (acc.1 ++ [entry], acc.2 + 1)

lemma any_held {items : List (Float × Bytes)} {member : Bytes} :
    (items.any fun held => held.2 = member) = true ↔ member ∈ items.map Prod.snd := by
  rw [List.any_eq_true, List.mem_map]
  exact exists_congr fun held => and_congr_right fun _ => decide_eq_true_iff

/-- The entries that a sorted set has after an addition, by their members. -/
lemma addScored_spec {items : List (Float × Bytes)} (h : (items.map Prod.snd).Nodup)
    (scored : List (Float × Bytes)) :
    ((addScored items scored).1.map Prod.snd).Nodup ∧
      (addScored items scored).1.length = items.length + (addScored items scored).2 ∧
      ((addScored items scored).1 = [] → items = [] ∧ scored = []) := by
  have hloop : addScored items scored = scored.foldl addOneScored (items, 0) := rfl
  have hheld : ∀ acc (entry : Float × Bytes), entry.2 ∈ acc.1.map Prod.snd →
      (addOneScored acc entry).1.map Prod.snd = acc.1.map Prod.snd ∧
        (addOneScored acc entry).2 = acc.2 := by
    intro acc entry hmem
    rw [addOneScored, if_pos (any_held.2 hmem)]
    exact ⟨map_snd_rescore _ _ _, rfl⟩
  have hnew : ∀ acc (entry : Float × Bytes), entry.2 ∉ acc.1.map Prod.snd →
      (addOneScored acc entry).1.map Prod.snd = acc.1.map Prod.snd ++ [entry.2] ∧
        (addOneScored acc entry).2 = acc.2 + 1 := by
    intro acc entry hmem
    rw [addOneScored, if_neg (mt any_held.1 hmem)]
    exact ⟨List.map_append, rfl⟩
  have hspec := foldl_added (List.map Prod.snd) Prod.snd _ hheld hnew scored (items, 0) h
  rw [← hloop] at hspec
  simpa only [List.length_map, List.map_eq_nil_iff, Nat.add_zero] using hspec

lemma isFinite_of_mem_rescore {score : Float} {member : Bytes} {items : List (Float × Bytes)}
    (hscore : score.isFinite = true) (h : ∀ entry ∈ items, entry.1.isFinite = true) :
    ∀ entry ∈ rescore score member items, entry.1.isFinite = true := by
  induction items with
  | nil => exact h
  | cons held items ih =>
    obtain ⟨hheld, hitems⟩ := List.forall_mem_cons.mp h
    rw [rescore]
    by_cases hmember : held.2 = member
    · rw [if_pos hmember]
      exact List.forall_mem_cons.mpr ⟨hscore, hitems⟩
    · rw [if_neg hmember]
      exact List.forall_mem_cons.mpr ⟨hheld, ih hitems⟩

lemma isFinite_of_mem_addScored {items scored : List (Float × Bytes)}
    (h : ∀ entry ∈ items, entry.1.isFinite = true)
    (hscored : ∀ entry ∈ scored, entry.1.isFinite = true) :
    ∀ entry ∈ (addScored items scored).1, entry.1.isFinite = true := by
  have hloop : addScored items scored = scored.foldl addOneScored (items, 0) := rfl
  rw [hloop]
  refine List.foldlRecOn (motive := fun acc => ∀ entry ∈ acc.1, entry.1.isFinite = true)
    scored addOneScored (b := (items, 0)) h fun acc hacc entry hentry => ?_
  have hscore := hscored entry hentry
  by_cases hheld : (acc.1.any fun held => held.2 = entry.2) = true
  · rw [addOneScored, if_pos hheld]
    exact isFinite_of_mem_rescore hscore hacc
  · rw [addOneScored, if_neg hheld]
    exact List.forall_mem_append.mpr ⟨hacc, List.forall_mem_singleton.mpr hscore⟩

end MemoryStore

/-! ### The containers -/

section Live

variable {existing : Option Stored} {operation : String} {expiresAt : Option ℕ}

lemma liveList_eq_ok {items : List Bytes} : liveList existing operation = .ok (items, expiresAt) ↔
    existing = none ∧ items = [] ∧ expiresAt = none ∨ existing = some ⟨.list items, expiresAt⟩ := by
  rcases existing with _ | ⟨_ | _ | _ | _, _⟩ <;> simp [liveList, eq_comm]

lemma liveSet_eq_ok {items : List Bytes} : liveSet existing operation = .ok (items, expiresAt) ↔
    existing = none ∧ items = [] ∧ expiresAt = none ∨ existing = some ⟨.set items, expiresAt⟩ := by
  rcases existing with _ | ⟨_ | _ | _ | _, _⟩ <;> simp [liveSet, eq_comm]

lemma liveZset_eq_ok {items : List (Float × Bytes)} :
    liveZset existing operation = .ok (items, expiresAt) ↔
      existing = none ∧ items = [] ∧ expiresAt = none ∨
        existing = some ⟨.zset items, expiresAt⟩ := by
  rcases existing with _ | ⟨_ | _ | _ | _, _⟩ <;> simp [liveZset, eq_comm]

end Live

/-! ### One operation -/

/-- What is kept of every entry, expired or not. -/
def Value.Kept (v : Value) : Prop :=
  v.WellFormed ∧ ∀ items, v = .zset items → ∀ entry ∈ items, entry.1.isFinite = true

/-- The operation leaves a kept entry, if any, and counts right. -/
def Performed.Fine (p : Performed) : Prop :=
  (∀ st, p.left = some st → st.value.Kept) ∧ p.Counted

namespace MemoryStore

variable {existing : Option Stored} {reply : Reply} {effect : Effect}

/-- What a push leaves to be pushed in front of. -/
lemma foldl_cons (values items : List Bytes) :
    values.foldl (fun items value => value :: items) items = values.reverse ++ items := by
  induction values generalizing items with
  | nil => rfl
  | cons value values ih => rw [List.foldl_cons, ih, List.reverse_cons, List.append_assoc]; rfl

lemma fine_listPush {values : List Bytes} {side : Side}
    (hkept : ∀ st, existing = some st → st.value.Kept)
    (hadds : values = [] → existing ≠ none)
    (h : listPush existing values side = .ok (reply, effect)) :
    Performed.Fine ⟨.listPush values side, existing, .ok reply, effect.leaves existing⟩ := by
  obtain ⟨⟨items, expiresAt⟩, hlive, h⟩ := Fallible.bind_eq_ok.mp h
  obtain ⟨rfl, rfl⟩ := Prod.mk.inj (Except.ok.inj h)
  refine ⟨fun st hst => ?_, fun n hn => ?_⟩
  · obtain rfl := Option.some.inj hst
    refine ⟨fun hnil => ?_, nofun⟩
    have hboth : values = [] ∧ items = [] := by
      cases side with
      | left => simpa [foldl_cons] using hnil
      | right => simpa [and_comm] using hnil
    rcases liveList_eq_ok.1 hlive with ⟨hnone, -, -⟩ | hsome
    · exact hadds hboth.1 hnone
    · exact (hkept _ hsome).1 hboth.2
  · exact Reply.count.inj (Except.ok.inj hn)

lemma fine_setAdd {members : List Bytes}
    (hkept : ∀ st, existing = some st → st.value.Kept)
    (hadds : members = [] → existing ≠ none)
    (h : setAdd existing members = .ok (reply, effect)) :
    Performed.Fine ⟨.setAdd members, existing, .ok reply, effect.leaves existing⟩ := by
  obtain ⟨⟨items, expiresAt⟩, hlive, h⟩ := Fallible.bind_eq_ok.mp h
  obtain ⟨rfl, rfl⟩ := Prod.mk.inj (Except.ok.inj h)
  have hnodup : items.Nodup := by
    rcases liveSet_eq_ok.1 hlive with ⟨-, rfl, -⟩ | hsome
    · exact List.nodup_nil
    · exact (hkept _ hsome).1.2
  obtain ⟨hnodup, hlength, hempty⟩ := addMembers_spec hnodup members
  refine ⟨fun st hst => ?_, fun n hn => ?_⟩
  · obtain rfl := Option.some.inj hst
    refine ⟨⟨fun hnil => ?_, hnodup⟩, nofun⟩
    obtain ⟨rfl, rfl⟩ := hempty hnil
    rcases liveSet_eq_ok.1 hlive with ⟨hnone, -, -⟩ | hsome
    · exact hadds rfl hnone
    · exact (hkept _ hsome).1.1 rfl
  · obtain rfl := Reply.count.inj (Except.ok.inj hn)
    rcases liveSet_eq_ok.1 hlive with ⟨rfl, rfl, -⟩ | rfl
    · exact hlength
    · exact hlength

lemma fine_zadd {scored : List (Float × Bytes)}
    (hkept : ∀ st, existing = some st → st.value.Kept)
    (hfinite : ∀ entry ∈ scored, entry.1.isFinite = true)
    (hadds : scored = [] → existing ≠ none)
    (h : zadd existing scored = .ok (reply, effect)) :
    Performed.Fine ⟨.zadd scored, existing, .ok reply, effect.leaves existing⟩ := by
  obtain ⟨⟨items, expiresAt⟩, hlive, h⟩ := Fallible.bind_eq_ok.mp h
  have hitems : (items.map Prod.snd).Nodup ∧ ∀ entry ∈ items, entry.1.isFinite = true := by
    rcases liveZset_eq_ok.1 hlive with ⟨-, rfl, -⟩ | hsome
    · exact ⟨List.nodup_nil, nofun⟩
    · exact ⟨(hkept _ hsome).1.2.1, (hkept _ hsome).2 _ rfl⟩
  obtain ⟨hnodup, hlength, hempty⟩ := addScored_spec hitems.1 scored
  have hscores := isFinite_of_mem_addScored hitems.2 hfinite
  rcases hgrown : addScored items scored with ⟨grown, added⟩
  rw [hgrown] at hnodup hlength hempty hscores
  simp only [hgrown] at h
  obtain ⟨rfl, rfl⟩ := Prod.mk.inj (Except.ok.inj h)
  have hperm := sortZset_perm grown
  refine ⟨fun st hst => ?_, fun n hn => ?_⟩
  · obtain rfl := Option.some.inj hst
    refine ⟨⟨fun hnil => ?_, ?_, pairwise_sortZset hscores⟩, ?_⟩
    · rw [hnil] at hperm
      obtain ⟨rfl, rfl⟩ := hempty hperm.nil_eq.symm
      rcases liveZset_eq_ok.1 hlive with ⟨hnone, -, -⟩ | hsome
      · exact hadds rfl hnone
      · exact (hkept _ hsome).1.1 rfl
    · exact (hperm.map Prod.snd).nodup_iff.mpr hnodup
    · rintro _ ⟨⟩ entry hentry
      exact hscores entry (hperm.mem_iff.mp hentry)
  · obtain rfl := Reply.count.inj (Except.ok.inj hn)
    rcases liveZset_eq_ok.1 hlive with ⟨rfl, rfl, -⟩ | rfl
    · exact hperm.length_eq.trans hlength
    · exact hperm.length_eq.trans hlength

/-- What is left of a collection is there only when it is not empty. -/
lemma leaves_leave {α : Type} {wrap : List α → Value} {items : List α} {expiresAt : Option ℕ}
    {st : Stored} (h : (leave wrap items expiresAt).leaves existing = some st) :
    items ≠ [] ∧ st = ⟨wrap items, expiresAt⟩ := by
  unfold leave at h
  cases items with
  | nil => cases h
  | cons item items => exact ⟨List.cons_ne_nil _ _, (Option.some.inj h).symm⟩

lemma card_leave {α : Type} (wrap : List α → Value) (items : List α) (expiresAt : Option ℕ)
    (existing : Option Stored) (hwrap : card (some ⟨wrap items, expiresAt⟩) = items.length) :
    card ((leave wrap items expiresAt).leaves existing) = items.length := by
  cases items with
  | nil => rfl
  | cons item items => exact hwrap

lemma fine_listPop {side : Side} {timeout : Option ℕ}
    (hkept : ∀ st, existing = some st → st.value.Kept)
    (h : listPop existing side = .ok (reply, effect)) :
    Performed.Fine ⟨.listPop side timeout, existing, .ok reply, effect.leaves existing⟩ := by
  refine ⟨fun st hst => ?_, fun _ _ => trivial⟩
  obtain ⟨⟨items, expiresAt⟩, hlive, h⟩ := Fallible.bind_eq_ok.mp h
  dsimp only at h
  by_cases hempty : items.isEmpty = true
  · rw [if_pos hempty] at h
    obtain ⟨-, rfl⟩ := Prod.mk.inj (Except.ok.inj h)
    exact hkept st hst
  · rw [if_neg hempty] at h
    cases side with
    | left | right =>
      obtain ⟨-, rfl⟩ := Prod.mk.inj (Except.ok.inj h)
      obtain ⟨hne, rfl⟩ := leaves_leave hst
      exact ⟨hne, nofun⟩

lemma fine_setRemove {members : List Bytes} (hkept : ∀ st, existing = some st → st.value.Kept)
    (h : setRemove existing members = .ok (reply, effect)) :
    Performed.Fine ⟨.setRemove members, existing, .ok reply, effect.leaves existing⟩ := by
  obtain ⟨⟨items, expiresAt⟩, hlive, h⟩ := Fallible.bind_eq_ok.mp h
  obtain ⟨rfl, rfl⟩ := Prod.mk.inj (Except.ok.inj h)
  have hle : (items.filter fun held => held ∉ members).length ≤ items.length :=
    List.length_filter_le _ _
  have hfound : items.Nodup ∧ card existing = items.length := by
    rcases liveSet_eq_ok.1 hlive with ⟨rfl, rfl, -⟩ | rfl
    · exact ⟨List.nodup_nil, rfl⟩
    · exact ⟨(hkept _ rfl).1.2, rfl⟩
  refine ⟨fun st hst => ?_, fun n hn => ?_⟩
  · obtain ⟨hne, rfl⟩ := leaves_leave hst
    exact ⟨⟨hne, hfound.1.filter _⟩, nofun⟩
  · obtain rfl := Reply.count.inj (Except.ok.inj hn)
    have hleft := card_leave .set (items.filter fun held => held ∉ members) expiresAt existing rfl
    dsimp only
    omega

lemma fine_zrem {members : List Bytes} (hkept : ∀ st, existing = some st → st.value.Kept)
    (h : zrem existing members = .ok (reply, effect)) :
    Performed.Fine ⟨.zrem members, existing, .ok reply, effect.leaves existing⟩ := by
  obtain ⟨⟨items, expiresAt⟩, hlive, h⟩ := Fallible.bind_eq_ok.mp h
  obtain ⟨rfl, rfl⟩ := Prod.mk.inj (Except.ok.inj h)
  have hle : (items.filter fun entry => entry.2 ∉ members).length ≤ items.length :=
    List.length_filter_le _ _
  have hfound : Value.Kept (.zset items) ∨ items = [] := by
    rcases liveZset_eq_ok.1 hlive with ⟨-, rfl, -⟩ | rfl
    · exact .inr rfl
    · exact .inl (hkept _ rfl)
  have hcard : card existing = items.length := by
    rcases liveZset_eq_ok.1 hlive with ⟨rfl, rfl, -⟩ | rfl
    · rfl
    · rfl
  refine ⟨fun st hst => ?_, fun n hn => ?_⟩
  · obtain ⟨hne, rfl⟩ := leaves_leave hst
    rcases hfound with ⟨⟨-, hnodup, hsorted⟩, hfinite⟩ | rfl
    · refine ⟨⟨hne, hnodup.sublist (List.filter_sublist.map _), hsorted.filter _⟩, ?_⟩
      rintro _ ⟨⟩ entry hentry
      exact hfinite _ rfl entry (List.mem_of_mem_filter hentry)
    · exact absurd rfl hne
  · obtain rfl := Reply.count.inj (Except.ok.inj hn)
    have hleft :=
      card_leave .zset (items.filter fun entry => entry.2 ∉ members) expiresAt existing rfl
    dsimp only
    omega

/-- An operation on byte strings leaves bytes, or the value it found. -/
lemma fine_of_value {op : WriteOp} (hkept : ∀ st, existing = some st → st.value.Kept)
    (hcounted : Performed.Counted ⟨op, existing, .ok reply, effect.leaves existing⟩)
    (h : ∀ st, effect = .put st → (∃ bytes, st.value = .bytes bytes) ∨
      ∃ st', existing = some st' ∧ st.value = st'.value) :
    Performed.Fine ⟨op, existing, .ok reply, effect.leaves existing⟩ := by
  refine ⟨fun st hst => ?_, hcounted⟩
  cases effect with
  | keep => exact hkept st hst
  | invalidate => cases hst
  | put st' =>
    obtain rfl := Option.some.inj hst
    rcases h st' rfl with ⟨bytes, hvalue⟩ | ⟨found, hfound, hvalue⟩
    · rw [hvalue]
      exact ⟨trivial, nofun⟩
    · rw [hvalue]
      exact hkept found hfound

variable {now : ℕ} {st : Stored}

lemma bytes_of_set {value : Bytes} {opts : SetOpts}
    (h : set now existing value opts = .ok (reply, .put st)) : st.value = .bytes value := by
  unfold set at h
  split_ifs at h
  · cases h
  · cases h
  · cases h
    rfl

lemma bytes_of_incr {by_ : ℤ} {ttl : Option ℕ}
    (h : incr now existing by_ ttl = .ok (reply, .put st)) :
    ∃ bytes, st.value = .bytes bytes := by
  have hwritten : ∀ (current : ℤ) (expiresAt : Option ℕ),
      (if i64Min ≤ current + by_ ∧ current + by_ ≤ i64Max then
        Except.ok (Reply.int (current + by_),
          Effect.put ⟨.bytes (toString (current + by_)).toUTF8.toList, expiresAt⟩)
      else .error (MemoryError.backend "incr" "counter overflowed an i64")) =
          .ok (reply, .put st) →
      ∃ bytes, st.value = .bytes bytes := by
    intro current expiresAt h
    split_ifs at h
    cases h
    exact ⟨_, rfl⟩
  rcases existing with _ | ⟨bytes | _ | _ | _, expiresAt⟩
  · exact hwritten _ _ h
  · unfold incr at h
    dsimp only at h
    cases hparse : parseI64 bytes with
    | none =>
      rw [hparse] at h
      cases h
    | some parsed =>
      rw [hparse] at h
      exact hwritten _ _ h
  · cases h
  · cases h
  · cases h

lemma bytes_of_compareAndSwap {old : Option Bytes} {new : Bytes} {opts : SetOpts}
    (h : compareAndSwap now existing old new opts = .ok (reply, .put st)) :
    st.value = .bytes new := by
  unfold compareAndSwap at h
  obtain ⟨current, -, h⟩ := Fallible.bind_eq_ok.mp h
  split_ifs at h
  · cases h
  · cases h
    rfl

lemma not_put_of_compareAndDelete {expected : Bytes} :
    compareAndDelete existing expected ≠ .ok (reply, .put st) := by
  unfold compareAndDelete
  split
  · split_ifs <;> nofun
  · nofun

lemma bytes_of_compareAndExpire {expected : Bytes} {ttl : ℕ}
    (h : compareAndExpire now existing expected ttl = .ok (reply, .put st)) :
    ∃ bytes, st.value = .bytes bytes := by
  unfold compareAndExpire at h
  split at h
  · split_ifs at h
    · cases h
      exact ⟨_, rfl⟩
    · cases h
  · cases h

lemma value_of_expire {ttl : ℕ} (h : expire now existing ttl = .ok (reply, .put st)) :
    ∃ st', existing = some st' ∧ st.value = st'.value := by
  cases existing with
  | none => cases h
  | some st' =>
    cases h
    exact ⟨st', rfl, rfl⟩

end MemoryStore

/-- Every operation leaves a kept entry and counts right, unless it adds nothing to an absent
key. -/
lemma decide_fine {now : ℕ} {existing : Option Stored} {op : WriteOp} {reply : Reply}
    {effect : Effect} (hkept : ∀ st, existing = some st → st.value.Kept)
    (hfinite : op.finiteScores = true) (hadds : op.addsNothing = true → existing ≠ none)
    (h : op.decide now existing = .ok (reply, effect)) :
    Performed.Fine ⟨op, existing, .ok reply, effect.leaves existing⟩ := by
  cases op with
  | listPush values side =>
    exact MemoryStore.fine_listPush hkept (fun hnil => hadds (List.isEmpty_iff.mpr hnil)) h
  | setAdd members =>
    exact MemoryStore.fine_setAdd hkept (fun hnil => hadds (List.isEmpty_iff.mpr hnil)) h
  | zadd scored =>
    exact MemoryStore.fine_zadd hkept (List.all_eq_true.mp hfinite)
      (fun hnil => hadds (List.isEmpty_iff.mpr hnil)) h
  | listPop side timeout => exact MemoryStore.fine_listPop hkept h
  | setRemove members => exact MemoryStore.fine_setRemove hkept h
  | zrem members => exact MemoryStore.fine_zrem hkept h
  | set value opts =>
    refine MemoryStore.fine_of_value hkept (fun _ _ => trivial) fun st hst => .inl ?_
    exact ⟨value, MemoryStore.bytes_of_set (hst ▸ h)⟩
  | delete =>
    refine MemoryStore.fine_of_value hkept (fun _ _ => trivial) fun st hst => ?_
    subst hst
    cases h
  | expire ttl =>
    refine MemoryStore.fine_of_value hkept (fun _ _ => trivial) fun st hst => .inr ?_
    exact MemoryStore.value_of_expire (hst ▸ h)
  | incr by_ ttl =>
    refine MemoryStore.fine_of_value hkept (fun _ _ => trivial) fun st hst => .inl ?_
    exact MemoryStore.bytes_of_incr (hst ▸ h)
  | compareAndSwap old new opts =>
    refine MemoryStore.fine_of_value hkept (fun _ _ => trivial) fun st hst => .inl ?_
    exact ⟨new, MemoryStore.bytes_of_compareAndSwap (hst ▸ h)⟩
  | compareAndDelete expected =>
    refine MemoryStore.fine_of_value hkept (fun _ _ => trivial) fun st hst => ?_
    exact absurd (hst ▸ h) MemoryStore.not_put_of_compareAndDelete
  | compareAndExpire expected ttl =>
    refine MemoryStore.fine_of_value hkept (fun _ _ => trivial) fun st hst => .inl ?_
    exact MemoryStore.bytes_of_compareAndExpire (hst ▸ h)

/-! ### Whole runs -/

lemma eq_some_of_live {now : ℕ} {cache : Option Stored} {st : Stored}
    (h : live now cache = some st) : cache = some st := (Option.filter_eq_some_iff.mp h).1

/-- One operation, from a kept entry. -/
lemma perform_fine {now : ℕ} {op : WriteOp} {cache : Option Stored}
    (hkept : ∀ st, cache = some st → st.value.Kept) (hfinite : op.finiteScores = true)
    (hadds : op.addsNothing = true → live now cache ≠ none) :
    Performed.Fine ⟨op, live now cache, (perform now op cache).1, (perform now op cache).2⟩ := by
  have hlive : ∀ st, live now cache = some st → st.value.Kept := fun st hst =>
    hkept st (eq_some_of_live hst)
  unfold perform
  cases op.validate with
  | error e => exact ⟨hkept, nofun⟩
  | ok =>
    dsimp only
    cases hdecide : op.decide now (live now cache) with
    | error e => exact ⟨hlive, nofun⟩
    | ok decided => exact decide_fine hlive hfinite hadds hdecide

namespace StoreState

variable {s s' : StoreState} {e : StoreEvent}

@[simp] lemma cache_perform_self {key : String} {op : WriteOp} :
    (s.perform key op).cache key = (Kv.perform s.now op (s.cache key)).2 :=
  Function.update_self ..

lemma cache_perform_of_ne {key k : String} {op : WriteOp} (h : k ≠ key) :
    (s.perform key op).cache k = s.cache k :=
  Function.update_of_ne h ..

/-- All entries are kept, and the last operation counted right. -/
def Consistent (s : StoreState) : Prop :=
  (∀ key st, s.cache key = some st → st.value.Kept) ∧ ∀ p, s.last = some p → p.Counted

lemma consistent_init : init.Consistent := by
  constructor
  · intro key st hst
    cases hst
  · intro p hp
    cases hp

lemma Consistent.sound (h : s.Consistent) : s.Sound :=
  ⟨fun key st hst => (h.1 key st (eq_some_of_live hst)).1, h.2⟩

lemma Consistent.step (h : s.Consistent) (hadds : s.AddsToSomething e)
    (hstep : step s e = some s') : s'.Consistent := by
  cases e with
  | tick d =>
    cases hstep
    exact h
  | perform key op =>
    unfold StoreState.step at hstep
    dsimp only at hstep
    split_ifs at hstep with hfinite
    cases hstep
    have hfine := perform_fine (h.1 key) hfinite hadds
    refine ⟨fun k st hst => ?_, fun p hp => ?_⟩
    · by_cases hk : k = key
      · rw [hk, cache_perform_self] at hst
        exact hfine.1 st hst
      · rw [cache_perform_of_ne hk] at hst
        exact h.1 k st hst
    · cases hp
      exact hfine.2

/-- Adding nothing to an absent key leaves an empty collection there. -/
lemma not_sound_of_addsNothing {key : String} {op : WriteOp} (hop : op.addsNothing = true)
    (habsent : live s.now (s.cache key) = none) : ¬(s.perform key op).Sound := by
  intro hsound
  have hput : ∃ v, (perform s key op).cache key = some ⟨v, none⟩ ∧ ¬v.WellFormed := by
    rw [cache_perform_self, Kv.perform, habsent]
    cases op with
    | listPush values side =>
      obtain rfl := List.isEmpty_iff.mp hop
      cases side with
      | left | right => exact ⟨.list [], rfl, fun h => h rfl⟩
    | setAdd members =>
      obtain rfl := List.isEmpty_iff.mp hop
      exact ⟨.set [], rfl, fun h => h.1 rfl⟩
    | zadd scored =>
      obtain rfl := List.isEmpty_iff.mp hop
      exact ⟨.zset (sortZset []), rfl, fun h => h.1 List.mergeSort_nil⟩
    | _ => cases hop
  obtain ⟨v, hcache, hv⟩ := hput
  exact hv (hsound.1 key ⟨v, none⟩ (by rw [hcache]; rfl))

/-- The collections are sound along exactly the runs that add no empty slice to an absent key. -/
theorem always_sound_iff (es : List StoreEvent) :
    Machine.Always step Sound init es ↔ Machine.Meets step AddsToSomething init es := by
  refine Machine.always_iff_meets (I := Consistent) (fun s e s' hs hadds hstep =>
    hs.step hadds hstep) (fun s hs => hs.sound) (fun s e s' _ hbad hstep => ?_) consistent_init es
  cases e with
  | tick d => exact absurd trivial hbad
  | perform key op =>
    unfold step at hstep
    dsimp only at hstep
    split_ifs at hstep
    cases hstep
    obtain ⟨hop, habsent⟩ := Classical.not_imp.mp hbad
    exact not_sound_of_addsNothing hop (not_not.mp habsent)

/-- Pushing an empty slice to an absent key leaves an empty list under it. -/
theorem always_sound_fails :
    ¬Machine.Always step Sound init [.perform "queue" (.listPush [] .left)] := by
  intro h
  have habsent : live init.now (init.cache "queue") = none := rfl
  exact not_sound_of_addsNothing rfl habsent (h.of_exec rfl)

end StoreState

end Moso.Kv
