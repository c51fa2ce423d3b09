import Mathlib.Data.List.Sort
import Mathlib.Data.List.Nodup
import Mathlib.Data.Prod.Lex
import Mathlib.Data.Int.Order.Basic

/-!
# Sorted sets

The sorted sets of the key-value store: members with a score, kept by score and then by member.
Scores are the integers the queue stores; each one is exact in the source's `f64`.
-/

namespace Moso.Kv

/-- The order of the entries: by score, ties by member. -/
def ZLe {α : Type*} [LinearOrder α] (x y : ℤ × α) : Prop := toLex x ≤ toLex y

section

variable {α : Type*} [LinearOrder α]

instance : DecidableRel (ZLe (α := α)) := fun x y => inferInstanceAs (Decidable (toLex x ≤ toLex y))

instance : Std.Total (ZLe (α := α)) := ⟨fun x y => le_total (toLex x) (toLex y)⟩

instance : IsTrans (ℤ × α) ZLe := ⟨fun _ _ _ h h' => le_trans (α := ℤ ×ₗ α) h h'⟩

end

/-- A sorted set. No member occurs twice. -/
structure ZSet (α : Type*) [LinearOrder α] where
  items : List (ℤ × α)
  sorted : items.Pairwise ZLe
  nodup : (items.map Prod.snd).Nodup

namespace ZSet

variable {α : Type*} [LinearOrder α]

def empty : ZSet α := ⟨[], .nil, .nil⟩

/-- Replace the score of a member that is already in; otherwise add it. -/
def insertScored (items : List (ℤ × α)) (entry : ℤ × α) : List (ℤ × α) :=
  if entry.2 ∈ items.map Prod.snd then
    items.map fun held => if held.2 = entry.2 then entry else held
  else items ++ [entry]

lemma map_snd_replace (items : List (ℤ × α)) (entry : ℤ × α) :
    (items.map fun held => if held.2 = entry.2 then entry else held).map Prod.snd =
      items.map Prod.snd := by
  rw [List.map_map]
  refine List.map_congr_left fun held _ => ?_
  by_cases h : held.2 = entry.2 <;> simp [h]

lemma nodup_insertScored {items : List (ℤ × α)} (entry : ℤ × α)
    (h : (items.map Prod.snd).Nodup) : ((insertScored items entry).map Prod.snd).Nodup := by
  unfold insertScored
  split
  next => rwa [map_snd_replace]
  next hnot =>
    rw [List.map_append, List.map_singleton]
    exact List.nodup_append'.mpr ⟨h, List.nodup_singleton _, by simpa using hnot⟩

/-- `zadd` of one scored member, and how many were new. -/
def zadd (z : ZSet α) (score : ℤ) (member : α) : ℕ × ZSet α :=
  (if member ∈ z.items.map Prod.snd then 0 else 1,
    { items := (insertScored z.items (score, member)).insertionSort ZLe
      sorted := List.pairwise_insertionSort _ _
      nodup := ((List.perm_insertionSort _ _).map _).nodup_iff.mpr
        (nodup_insertScored _ z.nodup) })

/-- `zrange_by_score` from negative infinity: the members scored at most `hi`, lowest first, at
most `limit`. -/
def zrangeByScore (z : ZSet α) (hi : ℤ) (limit : ℕ) : List α :=
  ((z.items.filter (·.1 ≤ hi)).take limit).map Prod.snd

/-- `zrange_by_score` over all scores: the members, lowest first, at most `limit`. -/
def members (z : ZSet α) (limit : ℕ) : List α := (z.items.take limit).map Prod.snd

/-- `zrem` of one member, and how many were removed. -/
def zrem (z : ZSet α) (member : α) : ℕ × ZSet α :=
  (z.items.length - (z.items.filter (·.2 ≠ member)).length,
    { items := z.items.filter (·.2 ≠ member)
      sorted := z.sorted.filter _
      nodup := z.nodup.sublist (List.filter_sublist.map _) })

instance : Membership (ℤ × α) (ZSet α) := ⟨fun z entry => entry ∈ z.items⟩

lemma mem_def {z : ZSet α} {entry : ℤ × α} : entry ∈ z ↔ entry ∈ z.items := Iff.rfl

@[simp] lemma not_mem_empty (entry : ℤ × α) : entry ∉ (empty : ZSet α) := List.not_mem_nil

/-- A member has one score. -/
lemma score_unique {z : ZSet α} {s s' : ℤ} {m : α} (h : (s, m) ∈ z) (h' : (s', m) ∈ z) :
    s = s' :=
  congrArg Prod.fst (List.inj_on_of_nodup_map z.nodup h h' rfl)

@[simp] lemma mem_zadd {z : ZSet α} {score : ℤ} {member : α} {entry : ℤ × α} :
    entry ∈ (z.zadd score member).2 ↔
      entry = (score, member) ∨ entry ∈ z ∧ entry.2 ≠ member := by
  rw [mem_def, zadd, List.mem_insertionSort, insertScored]
  split
  next hin =>
    obtain ⟨held, hheld, rfl⟩ := List.mem_map.mp hin
    simp only [List.mem_map]
    constructor
    · rintro ⟨x, hx, rfl⟩
      by_cases h : x.2 = held.2
      · simp [h]
      · simp only [if_neg h]
        exact .inr ⟨hx, h⟩
    · rintro (rfl | ⟨hx, hne⟩)
      · exact ⟨held, hheld, by simp⟩
      · exact ⟨entry, hx, by simp [hne]⟩
  next hnot =>
    have hne : entry ∈ z.items → entry.2 ≠ member := by
      intro hx h
      exact hnot (List.mem_map.mpr ⟨entry, hx, h⟩)
    rw [List.mem_append, List.mem_singleton, mem_def]
    constructor
    · rintro (hx | hx)
      · exact .inr ⟨hx, hne hx⟩
      · exact .inl hx
    · rintro (hx | hx)
      · exact .inr hx
      · exact .inl hx.1

@[simp] lemma mem_zrem {z : ZSet α} {member : α} {entry : ℤ × α} :
    entry ∈ (z.zrem member).2 ↔ entry ∈ z ∧ entry.2 ≠ member := by
  rw [mem_def, zrem, mem_def]
  simp

/-- Removing a member that is in removes exactly one. -/
lemma zrem_count {z : ZSet α} {score : ℤ} {member : α} (h : (score, member) ∈ z) :
    (z.zrem member).1 = 1 := by
  have hcount : (z.items.map Prod.snd).count member = 1 :=
    List.count_eq_one_of_mem z.nodup (List.mem_map_of_mem (f := Prod.snd) h)
  have hlen := List.length_eq_countP_add_countP (fun x : ℤ × α => x.2 = member) (l := z.items)
  rw [List.count_eq_countP, List.countP_map] at hcount
  have hin : z.items.countP (fun x => decide (x.2 = member)) = 1 := by
    rw [← hcount]
    exact List.countP_congr fun x _ => by simp
  have hout : z.items.countP (fun x => decide ¬decide (x.2 = member) = true) =
      (z.items.filter (·.2 ≠ member)).length := by
    rw [List.countP_eq_length_filter]
    exact congrArg List.length (List.filter_congr fun x _ => by simp)
  rw [zrem]
  simp only
  omega

/-- What a removal counted was in. -/
lemma exists_mem_of_zrem {z : ZSet α} {member : α} (h : (z.zrem member).1 = 1) :
    ∃ score, (score, member) ∈ z := by
  by_contra hnot
  have hkeep : z.items.filter (·.2 ≠ member) = z.items := by
    rw [List.filter_eq_self]
    intro entry hentry
    rw [decide_eq_true_eq]
    rintro rfl
    exact hnot ⟨entry.1, hentry⟩
  rw [zrem] at h
  simp only [hkeep, Nat.sub_self] at h
  cases h

lemma mem_members {z : ZSet α} {limit : ℕ} {member : α} (h : member ∈ z.members limit) :
    ∃ score, (score, member) ∈ z := by
  obtain ⟨entry, hentry, rfl⟩ := List.mem_map.mp h
  exact ⟨entry.1, List.mem_of_mem_take hentry⟩

lemma nodup_zrangeByScore (z : ZSet α) (hi : ℤ) (limit : ℕ) :
    (z.zrangeByScore hi limit).Nodup :=
  z.nodup.sublist (((List.take_sublist _ _).trans List.filter_sublist).map _)

lemma zrangeByScore_eq_take (z : ZSet α) (hi : ℤ) (limit : ℕ) :
    z.zrangeByScore hi limit = ((z.items.filter (·.1 ≤ hi)).map Prod.snd).take limit :=
  List.map_take

end ZSet

end Moso.Kv
