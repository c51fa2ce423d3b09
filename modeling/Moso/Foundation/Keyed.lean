import Mathlib.Data.List.Nodup
import Mathlib.Order.Lattice

/-!
# Tables in the order of a key

A list whose elements are in strictly ascending order of a key: a table with a primary key, read
in the order of that key, or a map that lists its keys in order.
-/

/-- A list in the order of a key, with no key twice. -/
@[ext]
structure Keyed {α κ : Type*} [LinearOrder κ] (key : α → κ) where
  toList : List α
  sorted : toList.Pairwise fun a b => key a < key b

namespace Keyed

variable {α κ : Type*} [LinearOrder κ] {key : α → κ}

instance : Membership α (Keyed key) := ⟨fun l a => a ∈ l.toList⟩

@[simp] lemma mem_toList {l : Keyed key} {a : α} : a ∈ l.toList ↔ a ∈ l := Iff.rfl

lemma mem_mk {l : List α} {hl : l.Pairwise fun a b => key a < key b} {a : α} :
    a ∈ (⟨l, hl⟩ : Keyed key) ↔ a ∈ l := Iff.rfl

def empty : Keyed key := ⟨[], .nil⟩

lemma not_mem_empty (a : α) : a ∉ (empty : Keyed key) := List.not_mem_nil

/-- The keys, in order. -/
def keys (l : Keyed key) : List κ := l.toList.map key

lemma mem_keys {l : Keyed key} {k : κ} : k ∈ l.keys ↔ ∃ a ∈ l, key a = k := List.mem_map

lemma mem_keys_of_mem {l : Keyed key} {a : α} (ha : a ∈ l) : key a ∈ l.keys :=
  List.mem_map_of_mem ha

lemma sorted_keys (l : Keyed key) : l.keys.Pairwise (· < ·) := List.pairwise_map.mpr l.sorted

lemma nodup_keys (l : Keyed key) : l.keys.Nodup := l.sorted_keys.imp fun h => ne_of_lt h

/-- An element is determined by its key. -/
lemma eq_of_key_eq {l : Keyed key} {a b : α} (ha : a ∈ l) (hb : b ∈ l) (hab : key a = key b) :
    a = b :=
  List.inj_on_of_nodup_map l.nodup_keys ha hb hab

/-- An element is the only one with its key. -/
lemma filter_key [DecidableEq α] {l : Keyed key} {a : α} (ha : a ∈ l) :
    l.toList.filter (fun b => key b = key a) = [a] := by
  have hnodup : l.toList.Nodup := l.sorted.imp fun h hab => ne_of_lt h (congrArg key hab)
  have hcongr : l.toList.filter (fun b => key b = key a) = l.toList.filter (fun b => b = a) := by
    apply List.filter_congr
    intro b hb
    exact decide_eq_decide.mpr ⟨eq_of_key_eq hb ha, congrArg key⟩
  rw [hcongr, List.filter_eq, List.count_eq_one_of_mem hnodup ha]
  rfl

/-- The element with a key. -/
def get? (l : Keyed key) (k : κ) : Option α := l.toList.find? fun a => decide (key a = k)

lemma get?_eq_some {l : Keyed key} {k : κ} {a : α} : l.get? k = some a ↔ a ∈ l ∧ key a = k := by
  constructor
  · intro h
    have hk := List.find?_some h
    exact ⟨List.mem_of_find?_eq_some h, of_decide_eq_true hk⟩
  · rintro ⟨ha, rfl⟩
    cases h : l.get? (key a) with
    | none =>
      have hnone := List.find?_eq_none.mp h a ha
      simp at hnone
    | some b =>
      have hb := List.find?_some h
      rw [eq_of_key_eq (List.mem_of_find?_eq_some h) ha (of_decide_eq_true hb)]

/-! ### Insertion -/

/-- Put an element in its place; an element with the same key goes. -/
def insertBy (key : α → κ) (a : α) : List α → List α
  | []     => [a]
  | b :: l =>
    if key a < key b then a :: b :: l
    else if key a = key b then a :: l
    else b :: insertBy key a l

lemma mem_insertBy_of_sorted {l : List α} (hl : l.Pairwise fun a b => key a < key b) {a b : α} :
    b ∈ insertBy key a l ↔ b = a ∨ b ∈ l ∧ key b ≠ key a := by
  induction l with
  | nil => simp [insertBy]
  | cons c l ih =>
    obtain ⟨hc, hl⟩ := List.pairwise_cons.mp hl
    rw [insertBy]
    split
    · next hlt =>
      have hne : ∀ d ∈ c :: l, key d ≠ key a := by
        intro d hd
        rcases List.mem_cons.mp hd with rfl | hd
        · exact ne_of_gt hlt
        · exact ne_of_gt (lt_trans hlt (hc d hd))
      rw [List.mem_cons]
      exact or_congr_right ⟨fun hb => ⟨hb, hne b hb⟩, fun hb => hb.1⟩
    · split
      · next heq =>
        have hne : ∀ d ∈ l, key d ≠ key a := fun d hd => heq ▸ ne_of_gt (hc d hd)
        rw [List.mem_cons, List.mem_cons]
        refine or_congr_right ⟨fun hb => ⟨.inr hb, hne b hb⟩, ?_⟩
        rintro ⟨rfl | hb, hb'⟩
        · exact absurd heq.symm hb'
        · exact hb
      · next hne =>
        rw [List.mem_cons, List.mem_cons, ih hl]
        constructor
        · rintro (rfl | rfl | hb)
          · exact .inr ⟨.inl rfl, Ne.symm hne⟩
          · exact .inl rfl
          · exact .inr ⟨.inr hb.1, hb.2⟩
        · rintro (rfl | ⟨rfl | hb, hb'⟩)
          · exact .inr (.inl rfl)
          · exact .inl rfl
          · exact .inr (.inr ⟨hb, hb'⟩)

lemma sorted_insertBy {l : List α} (hl : l.Pairwise fun a b => key a < key b) (a : α) :
    (insertBy key a l).Pairwise fun a b => key a < key b := by
  induction l with
  | nil => exact List.pairwise_singleton _ _
  | cons c l ih =>
    have hcl := List.pairwise_cons.mp hl
    rw [insertBy]
    split
    · next hlt =>
      refine List.pairwise_cons.mpr ⟨fun d hd => ?_, hl⟩
      rcases List.mem_cons.mp hd with rfl | hd
      · exact hlt
      · exact lt_trans hlt (hcl.1 d hd)
    · next hle =>
      split
      · next heq =>
        exact List.pairwise_cons.mpr ⟨fun d hd => heq ▸ hcl.1 d hd, hcl.2⟩
      · next hne =>
        refine List.pairwise_cons.mpr ⟨fun d hd => ?_, ih hcl.2⟩
        rcases (mem_insertBy_of_sorted hcl.2).mp hd with rfl | hd
        · exact lt_of_le_of_ne (not_lt.mp hle) (Ne.symm hne)
        · exact hcl.1 d hd.1

def insert (l : Keyed key) (a : α) : Keyed key :=
  ⟨insertBy key a l.toList, sorted_insertBy l.sorted a⟩

lemma mem_insert {l : Keyed key} {a b : α} : b ∈ l.insert a ↔ b = a ∨ b ∈ l ∧ key b ≠ key a :=
  mem_insertBy_of_sorted l.sorted

lemma mem_keys_insert {l : Keyed key} {a : α} {k : κ} :
    k ∈ (l.insert a).keys ↔ k = key a ∨ k ∈ l.keys := by
  simp only [mem_keys, mem_insert]
  constructor
  · rintro ⟨b, rfl | ⟨hb, -⟩, rfl⟩
    · exact Or.inl rfl
    · exact Or.inr ⟨b, hb, rfl⟩
  · rintro (rfl | ⟨b, hb, rfl⟩)
    · exact ⟨a, Or.inl rfl, rfl⟩
    · by_cases hk : key b = key a
      · exact ⟨a, Or.inl rfl, hk.symm⟩
      · exact ⟨b, Or.inr ⟨hb, hk⟩, rfl⟩

section

variable {β : Type*} {f : β → α} {l : Keyed key} {xs : List β}

/-- The keys after many insertions. -/
lemma mem_keys_foldl_insert {k : κ} :
    k ∈ (xs.foldl (fun l x => l.insert (f x)) l).keys ↔
      (∃ x ∈ xs, key (f x) = k) ∨ k ∈ l.keys := by
  induction xs generalizing l with
  | nil => simp
  | cons x xs ih =>
    rw [List.foldl_cons, ih, mem_keys_insert, List.exists_mem_cons_iff, eq_comm (a := k), or_assoc,
      or_left_comm]

/-- The elements after many insertions, all with keys of their own. -/
lemma mem_foldl_insert (hxs : (xs.map fun x => key (f x)).Nodup) {a : α} :
    a ∈ xs.foldl (fun l x => l.insert (f x)) l ↔
      (∃ x ∈ xs, f x = a) ∨ a ∈ l ∧ ∀ x ∈ xs, key (f x) ≠ key a := by
  induction xs generalizing l with
  | nil => simp
  | cons x xs ih =>
    rw [List.map_cons, List.nodup_cons] at hxs
    rw [List.foldl_cons, ih hxs.2, mem_insert, List.exists_mem_cons_iff, List.forall_mem_cons]
    have hother : ∀ y ∈ xs, key (f y) ≠ key (f x) := fun y hy heq =>
      hxs.1 (List.mem_map.mpr ⟨y, hy, heq⟩)
    constructor
    · rintro (hmem | ⟨rfl | ⟨ha, hk⟩, hall⟩)
      · exact Or.inl (Or.inr hmem)
      · exact Or.inl (Or.inl rfl)
      · exact Or.inr ⟨ha, Ne.symm hk, hall⟩
    · rintro ((rfl | hmem) | ⟨ha, hk, hall⟩)
      · exact Or.inr ⟨Or.inl rfl, hother⟩
      · exact Or.inl hmem
      · exact Or.inr ⟨Or.inr ⟨ha, Ne.symm hk⟩, hall⟩

/-- An element stays when none of its key is inserted. -/
lemma mem_foldl_insert_of_ne {a : α} (ha : a ∈ l) (hxs : ∀ x ∈ xs, key (f x) ≠ key a) :
    a ∈ xs.foldl (fun l x => l.insert (f x)) l := by
  induction xs generalizing l with
  | nil => exact ha
  | cons x xs ih =>
    obtain ⟨hx, hxs⟩ := List.forall_mem_cons.mp hxs
    exact ih (mem_insert.2 (Or.inr ⟨ha, Ne.symm hx⟩)) hxs

end

/-! ### Changes to one element, and removal -/

/-- Change the element with a key, which keeps its key. -/
def update (l : Keyed key) (k : κ) (f : α → α) (hf : ∀ a, key (f a) = key a) : Keyed key where
  toList := l.toList.map fun a => if key a = k then f a else a
  sorted := by
    refine List.pairwise_map.mpr (l.sorted.imp fun {a b} hab => ?_)
    have hkey : ∀ c, key (if key c = k then f c else c) = key c := by
      intro c
      split
      · exact hf c
      · rfl
    rw [hkey, hkey]
    exact hab

lemma mem_update {l : Keyed key} {k : κ} {f : α → α} {hf : ∀ a, key (f a) = key a} {b : α} :
    b ∈ l.update k f hf ↔ (∃ a ∈ l, key a = k ∧ b = f a) ∨ b ∈ l ∧ key b ≠ k := by
  refine List.mem_map.trans ⟨?_, ?_⟩
  · rintro ⟨a, ha, rfl⟩
    by_cases hk : key a = k
    · rw [if_pos hk]
      exact .inl ⟨a, ha, hk, rfl⟩
    · rw [if_neg hk]
      exact .inr ⟨ha, hk⟩
  · rintro (⟨a, ha, hk, rfl⟩ | ⟨hb, hk⟩)
    · exact ⟨a, ha, if_pos hk⟩
    · exact ⟨b, hb, if_neg hk⟩

lemma keys_update {l : Keyed key} {k : κ} {f : α → α} {hf : ∀ a, key (f a) = key a} :
    (l.update k f hf).keys = l.keys := by
  rw [keys, keys, update, List.map_map]
  apply List.map_congr_left
  intro a _
  simp only [Function.comp_apply]
  split
  · exact hf a
  · rfl

/-- Remove the element with a key. -/
def erase (l : Keyed key) (k : κ) : Keyed key where
  toList := l.toList.filter fun a => key a ≠ k
  sorted := l.sorted.filter _

lemma mem_erase {l : Keyed key} {k : κ} {b : α} : b ∈ l.erase k ↔ b ∈ l ∧ key b ≠ k :=
  List.mem_filter.trans (and_congr_right' decide_eq_true_iff)

lemma keys_erase {l : Keyed key} {k : κ} : (l.erase k).keys = l.keys.filter (· ≠ k) := by
  rw [keys, keys, erase, List.filter_map]
  rfl

lemma mem_keys_erase {l : Keyed key} {k k' : κ} :
    k' ∈ (l.erase k).keys ↔ k' ∈ l.keys ∧ k' ≠ k := by
  rw [keys_erase, List.mem_filter, decide_eq_true_iff]

end Keyed
