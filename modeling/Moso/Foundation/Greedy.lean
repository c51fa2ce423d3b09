import Mathlib.Data.List.Nodup
import Mathlib.Data.List.ProdSigma

/-!
# Greedy matching

The elements of one list choose, in their order, among those of another that no earlier one took:
each takes all that it accepts, or the first one only. What an element looks at are the offers that
are likely to it.
-/

namespace Greedy

variable {α β : Type*} (likely accept : α → β → Bool)

/-- The pairs when everything that is accepted is taken. -/
def takeAll : List α → List β → List (α × β)
  | [], _       => []
  | a :: as, bs => (bs.filter (accept a)).map (a, ·) ++ takeAll as (bs.filter fun b => !accept a b)

/-- What is looked at when everything that is accepted is taken. -/
def offers : List α → List β → List (α × β)
  | [], _       => []
  | a :: as, bs =>
    (bs.filter (likely a)).map (a, ·) ++ offers as (bs.filter fun b => !accept a b)

/-- The pairs when the first that is accepted is taken. -/
def takeFirst [DecidableEq β] : List α → List β → List (α × β)
  | [], _       => []
  | a :: as, bs =>
    match bs.find? (accept a) with
    | some b => (a, b) :: takeFirst as (bs.filter fun c => c ≠ b)
    | none   => takeFirst as bs

/-- What is looked at when the first that is accepted is taken. -/
def offersFirst [DecidableEq β] : List α → List β → List (α × β)
  | [], _       => []
  | a :: as, bs =>
    ((bs.take (bs.findIdx (accept a) + 1)).filter (likely a)).map (a, ·) ++
      offersFirst as (match bs.find? (accept a) with
        | some b => bs.filter fun c => c ≠ b
        | none   => bs)

variable {likely accept} {a : α} {b : β} {as : List α} {bs : List β}

/-- Who takes an element is the first to accept it. -/
lemma mem_takeAll :
    (a, b) ∈ takeAll accept as bs ↔ b ∈ bs ∧ as.find? (accept · b) = some a := by
  induction as generalizing bs with
  | nil => simp [takeAll]
  | cons a' as ih =>
    rw [takeAll, List.mem_append, ih, List.find?_cons, List.mem_filter]
    cases haccept : accept a' b with
    | false =>
      refine ⟨?_, fun h => .inr ⟨⟨h.1, by simp⟩, h.2⟩⟩
      rintro (h | ⟨⟨hb, -⟩, hfind⟩)
      · obtain ⟨b', hb', heq⟩ := List.mem_map.mp h
        obtain ⟨rfl, rfl⟩ := Prod.mk.inj heq
        rw [List.mem_filter, haccept] at hb'
        cases hb'.2
      · exact ⟨hb, hfind⟩
    | true =>
      constructor
      · rintro (h | ⟨⟨-, hfalse⟩, -⟩)
        · obtain ⟨b', hb', heq⟩ := List.mem_map.mp h
          obtain ⟨rfl, rfl⟩ := Prod.mk.inj heq
          exact ⟨(List.mem_filter.mp hb').1, rfl⟩
        · cases hfalse
      · rintro ⟨hb, heq⟩
        obtain rfl := Option.some.inj heq
        exact .inl (List.mem_map.mpr ⟨b, List.mem_filter.mpr ⟨hb, haccept⟩, rfl⟩)

/-- Who looks at an element are those before the first to accept it, and this one. -/
lemma mem_offers : (a, b) ∈ offers likely accept as bs ↔
    b ∈ bs ∧ likely a b = true ∧
      (a ∈ as.takeWhile (fun a => !accept a b) ∨ as.find? (accept · b) = some a) := by
  induction as generalizing bs with
  | nil => simp [offers]
  | cons a' as ih =>
    have hmap : (a, b) ∈ (bs.filter (likely a')).map (a', ·) ↔
        b ∈ bs ∧ likely a b = true ∧ a = a' := by
      simp only [List.mem_map, List.mem_filter, Prod.mk.injEq]
      constructor
      · rintro ⟨b', ⟨hb, hplausible⟩, rfl, rfl⟩
        exact ⟨hb, hplausible, rfl⟩
      · rintro ⟨hb, hplausible, rfl⟩
        exact ⟨b, ⟨hb, hplausible⟩, rfl, rfl⟩
    rw [offers, List.mem_append, hmap, ih, List.find?_cons, List.mem_filter, List.takeWhile_cons]
    cases haccept : accept a' b with
    | false =>
      simp only [Bool.not_false, if_true, List.mem_cons]
      tauto
    | true =>
      simp only [Bool.not_true, Option.some.injEq]
      constructor
      · rintro (⟨hb, hplausible, rfl⟩ | ⟨⟨-, hfalse⟩, -⟩)
        · exact ⟨hb, hplausible, .inr rfl⟩
        · cases hfalse
      · rintro ⟨hb, hplausible, h | rfl⟩
        · cases h
        · exact .inl ⟨hb, hplausible, rfl⟩

lemma fst_mem_of_mem_offers (h : (a, b) ∈ offers likely accept as bs) : a ∈ as := by
  obtain ⟨-, -, h | h⟩ := mem_offers.1 h
  · exact (List.takeWhile_sublist _).subset h
  · exact List.mem_of_find?_eq_some h

/-- No pair is looked at twice. -/
lemma nodup_offers (has : as.Nodup) (hbs : bs.Nodup) : (offers likely accept as bs).Nodup := by
  induction as generalizing bs with
  | nil => exact List.nodup_nil
  | cons a as ih =>
    obtain ⟨ha, has⟩ := List.nodup_cons.mp has
    refine List.nodup_append'.mpr ⟨?_, ih has (hbs.filter _), ?_⟩
    · exact (hbs.filter _).map fun _ _ h => (Prod.mk.inj h).2
    · rintro ⟨a', b⟩ hmap hoffers
      obtain ⟨_, -, heq⟩ := List.mem_map.mp hmap
      exact ha ((Prod.mk.inj heq).1 ▸ fst_mem_of_mem_offers hoffers)

/-! ### One for each -/

variable [DecidableEq β]

lemma mem_of_mem_takeFirst (h : (a, b) ∈ takeFirst accept as bs) : a ∈ as ∧ b ∈ bs := by
  induction as generalizing bs with
  | nil => cases h
  | cons a' as ih =>
    rw [takeFirst] at h
    cases hfind : bs.find? (accept a') with
    | some b' =>
      rw [hfind] at h
      rcases List.mem_cons.mp h with heq | h
      · obtain ⟨rfl, rfl⟩ := Prod.mk.inj heq
        exact ⟨List.mem_cons_self, List.mem_of_find?_eq_some hfind⟩
      · obtain ⟨ha, hb⟩ := ih h
        exact ⟨List.mem_cons_of_mem _ ha, (List.mem_filter.mp hb).1⟩
    | none =>
      rw [hfind] at h
      obtain ⟨ha, hb⟩ := ih h
      exact ⟨List.mem_cons_of_mem _ ha, hb⟩

/-- Nothing is taken by two. -/
lemma nodup_snd_takeFirst : ((takeFirst accept as bs).map Prod.snd).Nodup := by
  induction as generalizing bs with
  | nil => exact List.nodup_nil
  | cons a as ih =>
    rw [takeFirst]
    cases bs.find? (accept a) with
    | some b =>
      refine List.nodup_cons.mpr ⟨fun h => ?_, ih⟩
      obtain ⟨⟨a', b'⟩, hmem, rfl⟩ := List.mem_map.mp h
      simpa using (List.mem_filter.mp (mem_of_mem_takeFirst hmem).2).2
    | none => exact ih

/-- Nobody takes two. -/
lemma nodup_fst_takeFirst (has : as.Nodup) : ((takeFirst accept as bs).map Prod.fst).Nodup := by
  induction as generalizing bs with
  | nil => exact List.nodup_nil
  | cons a as ih =>
    obtain ⟨ha, has⟩ := List.nodup_cons.mp has
    rw [takeFirst]
    cases bs.find? (accept a) with
    | some b =>
      refine List.nodup_cons.mpr ⟨fun h => ?_, ih has⟩
      obtain ⟨⟨a', b'⟩, hmem, rfl⟩ := List.mem_map.mp h
      exact ha (mem_of_mem_takeFirst hmem).1
    | none => exact ih has

lemma fst_mem_of_mem_offersFirst (h : (a, b) ∈ offersFirst likely accept as bs) : a ∈ as := by
  induction as generalizing bs with
  | nil => cases h
  | cons a' as ih =>
    rcases List.mem_append.mp h with h | h
    · obtain ⟨_, -, heq⟩ := List.mem_map.mp h
      exact (Prod.mk.inj heq).1 ▸ List.mem_cons_self
    · exact List.mem_cons_of_mem _ (ih h)

lemma nodup_offersFirst (has : as.Nodup) (hbs : bs.Nodup) :
    (offersFirst likely accept as bs).Nodup := by
  induction as generalizing bs with
  | nil => exact List.nodup_nil
  | cons a as ih =>
    obtain ⟨ha, has⟩ := List.nodup_cons.mp has
    refine List.nodup_append'.mpr ⟨?_, ih has ?_, ?_⟩
    · refine ((hbs.sublist (List.take_sublist _ _)).filter _).map fun _ _ h => (Prod.mk.inj h).2
    · cases bs.find? (accept a) with
      | some b => exact hbs.filter _
      | none => exact hbs
    · rintro ⟨a', b⟩ hmap hoffers
      obtain ⟨_, -, heq⟩ := List.mem_map.mp hmap
      exact ha ((Prod.mk.inj heq).1 ▸ fst_mem_of_mem_offersFirst hoffers)

end Greedy
