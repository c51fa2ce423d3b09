import Mathlib.Data.Finset.Card
import Mathlib.Data.List.Perm.Subperm

/-!
# Bounded selections

What taking at most `limit` elements of a set of eligible ones has to deliver: distinct eligible
elements, no more than `limit` of them, and everything eligible when the limit does not cut.
Selections made one after the other compose.
-/

variable {α : Type*}

/-- `got` is a choice of at most `limit` elements of `E` that leaves room only when nothing of
`E` is left. -/
structure Selects (E : Finset α) (limit : ℕ) (got : List α) : Prop where
  nodup : got.Nodup
  subset : ∀ x ∈ got, x ∈ E
  length_le : got.length ≤ limit
  full : got.length < limit → ∀ x ∈ E, x ∈ got

namespace Selects

variable {E E₁ E₂ : Finset α} {limit : ℕ} {got got₁ got₂ : List α}

lemma nil_zero : Selects E 0 [] := ⟨.nil, by simp, le_rfl, by simp⟩

lemma nil_empty : Selects (∅ : Finset α) limit [] :=
  ⟨.nil, by simp, Nat.zero_le _, by simp⟩

/-- When the limit covers the eligible elements, the selection is all of them. -/
theorem mem_iff (h : Selects E limit got) (hE : E.card ≤ limit) (x : α) : x ∈ got ↔ x ∈ E := by
  refine ⟨h.subset x, fun hx => ?_⟩
  by_cases hlt : got.length < limit
  · exact h.full hlt x hx
  · -- the limit is reached by distinct elements of `E`, so they are all of `E`
    have hsub : got ⊆ E.toList := fun y hy => Finset.mem_toList.mpr (h.subset y hy)
    have hperm : got.Perm E.toList := by
      refine (h.nodup.subperm hsub).perm_of_length_le ?_
      rw [Finset.length_toList]
      omega
    exact hperm.mem_iff.mpr (Finset.mem_toList.mpr hx)

/-- The first `limit` elements of a list without repetitions that enumerates `E`. -/
theorem take {l : List α} (hl : l.Nodup) (hE : ∀ x, x ∈ l ↔ x ∈ E) :
    Selects E limit (l.take limit) := by
  refine ⟨hl.sublist (List.take_sublist limit l),
    fun x hx => (hE x).mp (List.mem_of_mem_take hx), List.length_take_le limit l, ?_⟩
  intro hlt x hx
  have hlen : l.length ≤ limit := by
    rw [List.length_take] at hlt
    omega
  rw [List.take_of_length_le hlen]
  exact (hE x).mpr hx

/-- A second selection, out of what the first one left, fills up the room that remains. -/
theorem append [DecidableEq α] (h₁ : Selects E₁ limit got₁)
    (h₂ : Selects E₂ (limit - got₁.length) got₂) (hdisj : ∀ x ∈ got₁, x ∉ E₂) :
    Selects (E₁ ∪ E₂) limit (got₁ ++ got₂) := by
  have hlen₁ := h₁.length_le
  have hlen₂ := h₂.length_le
  refine ⟨?_, ?_, ?_, ?_⟩
  · exact List.nodup_append'.mpr ⟨h₁.nodup, h₂.nodup, fun x hx hx' => hdisj x hx (h₂.subset x hx')⟩
  · intro x hx
    rcases List.mem_append.mp hx with hx | hx
    · exact Finset.mem_union_left _ (h₁.subset x hx)
    · exact Finset.mem_union_right _ (h₂.subset x hx)
  · rw [List.length_append]
    omega
  · intro hlt x hx
    rw [List.length_append] at hlt
    rcases Finset.mem_union.mp hx with hx | hx
    · exact List.mem_append_left _ (h₁.full (by omega) x hx)
    · exact List.mem_append_right _ (h₂.full (by omega) x hx)

/-- Two selections agree as sets as soon as neither limit cuts and the eligible sets agree. -/
theorem mem_iff_mem (h₁ : Selects E limit got₁) (h₂ : Selects E limit got₂)
    (hE : E.card ≤ limit) (x : α) : x ∈ got₁ ↔ x ∈ got₂ := by
  rw [h₁.mem_iff hE, h₂.mem_iff hE]

end Selects
