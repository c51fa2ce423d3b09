import Mathlib.Data.List.Basic
import Mathlib.Logic.Function.Basic

/-!
# Items in the custody of somebody

Items that are kept at places, each of them at one place and there once. Items come in at a place
and go from one place to another.
-/

namespace Custody

variable {ι α : Type*}

/-- The places hold the items, each item at one place and once. -/
structure Exact (items : List α) (held : ι → List α) : Prop where
  nodup : ∀ p, (held p).Nodup
  apart : ∀ p q a, p ≠ q → a ∈ held p → a ∉ held q
  mem_iff : ∀ a, a ∈ items ↔ ∃ p, a ∈ held p

variable {items : List α} {held held' : ι → List α} {p q : ι} {a : α} {moved left : List α}

lemma exact_empty : Exact [] fun _ : ι => ([] : List α) where
  nodup _ := List.nodup_nil
  apart _ _ _ _ h := by cases h
  mem_iff a := iff_of_false List.not_mem_nil fun ⟨_, h⟩ => List.not_mem_nil h

/-- The order in which a place holds its items does not matter. -/
lemma Exact.perm (h : Exact items held) (hperm : ∀ p, (held' p).Perm (held p)) :
    Exact items held' where
  nodup p := (hperm p).nodup_iff.mpr (h.nodup p)
  apart p q a hpq hp hq := h.apart p q a hpq ((hperm p).mem_iff.mp hp) ((hperm q).mem_iff.mp hq)
  mem_iff a := (h.mem_iff a).trans (exists_congr fun p => (hperm p).mem_iff.symm)

variable [DecidableEq ι]

/-- A new item comes in. -/
lemma Exact.add (h : Exact items held) (hnew : a ∉ items) (p : ι) :
    Exact (a :: items) (Function.update held p (a :: held p)) := by
  have hnot : ∀ q, a ∉ held q := fun q hq => hnew ((h.mem_iff a).mpr ⟨q, hq⟩)
  refine ⟨fun q => ?_, fun q r b hqr hq hr => ?_, fun b => ?_⟩
  · by_cases hqp : q = p
    · subst hqp
      rw [Function.update_self]
      exact List.nodup_cons.mpr ⟨hnot q, h.nodup q⟩
    · rw [Function.update_of_ne hqp]
      exact h.nodup q
  · by_cases hqp : q = p
    · subst hqp
      rw [Function.update_self] at hq
      rw [Function.update_of_ne (Ne.symm hqr)] at hr
      rcases List.mem_cons.mp hq with rfl | hq
      · exact hnot r hr
      · exact h.apart q r b hqr hq hr
    · rw [Function.update_of_ne hqp] at hq
      by_cases hrp : r = p
      · subst hrp
        rw [Function.update_self] at hr
        rcases List.mem_cons.mp hr with rfl | hr
        · exact hnot q hq
        · exact h.apart q r b hqr hq hr
      · rw [Function.update_of_ne hrp] at hr
        exact h.apart q r b hqr hq hr
  · rw [List.mem_cons]
    constructor
    · rintro (rfl | hb)
      · exact ⟨p, by rw [Function.update_self]; exact List.mem_cons_self⟩
      · obtain ⟨q, hq⟩ := (h.mem_iff b).mp hb
        refine ⟨q, ?_⟩
        by_cases hqp : q = p
        · subst hqp
          rw [Function.update_self]
          exact List.mem_cons_of_mem _ hq
        · rwa [Function.update_of_ne hqp]
    · rintro ⟨q, hq⟩
      by_cases hqp : q = p
      · subst hqp
        rw [Function.update_self] at hq
        exact (List.mem_cons.mp hq).imp_right fun hq => (h.mem_iff b).mpr ⟨q, hq⟩
      · rw [Function.update_of_ne hqp] at hq
        exact .inr ((h.mem_iff b).mpr ⟨q, hq⟩)

/-- The first items of a place go to another. -/
lemma Exact.transfer (h : Exact items held) (hpq : p ≠ q) (hp : held p = moved ++ left) :
    Exact items (Function.update (Function.update held p left) q (moved ++ held q)) := by
  have hnodup := h.nodup p
  rw [hp, List.nodup_append] at hnodup
  obtain ⟨hmoved, hleft, hapart⟩ := hnodup
  have hmem : ∀ b, b ∈ held p ↔ b ∈ moved ∨ b ∈ left := fun b => by rw [hp, List.mem_append]
  -- What each place holds afterwards, by membership.
  have hheld : ∀ r b, b ∈ Function.update (Function.update held p left) q (moved ++ held q) r ↔
      (r = q ∧ b ∈ moved) ∨ (r = p ∧ b ∈ left) ∨ (r ≠ p ∧ b ∈ held r) := by
    intro r b
    by_cases hrq : r = q
    · subst hrq
      rw [Function.update_self, List.mem_append]
      have hne : r ≠ p := Ne.symm hpq
      simp [hne]
    · rw [Function.update_of_ne hrq]
      by_cases hrp : r = p
      · subst hrp
        simp [hrq]
      · rw [Function.update_of_ne hrp]
        simp [hrq, hrp]
  refine ⟨fun r => ?_, fun r t b hrt hr ht => ?_, fun b => ?_⟩
  · by_cases hrq : r = q
    · subst hrq
      rw [Function.update_self, List.nodup_append]
      refine ⟨hmoved, h.nodup r, fun b hb c hc heq => ?_⟩
      subst heq
      exact h.apart p r b hpq ((hmem b).mpr (.inl hb)) hc
    · rw [Function.update_of_ne hrq]
      by_cases hrp : r = p
      · subst hrp
        rwa [Function.update_self]
      · rw [Function.update_of_ne hrp]
        exact h.nodup r
  · rw [hheld] at hr ht
    rcases hr with ⟨rfl, hr⟩ | ⟨rfl, hr⟩ | ⟨hrp, hr⟩
    · rcases ht with ⟨rfl, -⟩ | ⟨rfl, ht⟩ | ⟨htp, ht⟩
      · exact hrt rfl
      · exact hapart b hr b ht rfl
      · exact h.apart p t b (Ne.symm htp) ((hmem b).mpr (.inl hr)) ht
    · rcases ht with ⟨rfl, ht⟩ | ⟨rfl, -⟩ | ⟨htp, ht⟩
      · exact hapart b ht b hr rfl
      · exact hrt rfl
      · exact h.apart r t b hrt ((hmem b).mpr (.inr hr)) ht
    · rcases ht with ⟨rfl, ht⟩ | ⟨rfl, ht⟩ | ⟨-, ht⟩
      · exact h.apart p r b (Ne.symm hrp) ((hmem b).mpr (.inl ht)) hr
      · exact h.apart t r b (Ne.symm hrp) ((hmem b).mpr (.inr ht)) hr
      · exact h.apart r t b hrt hr ht
  · rw [h.mem_iff]
    constructor
    · rintro ⟨r, hr⟩
      by_cases hrp : r = p
      · subst hrp
        rcases (hmem b).mp hr with hb | hb
        · exact ⟨q, (hheld q b).mpr (.inl ⟨rfl, hb⟩)⟩
        · exact ⟨r, (hheld r b).mpr (.inr (.inl ⟨rfl, hb⟩))⟩
      · exact ⟨r, (hheld r b).mpr (.inr (.inr ⟨hrp, hr⟩))⟩
    · rintro ⟨r, hr⟩
      rcases (hheld r b).mp hr with ⟨-, hb⟩ | ⟨-, hb⟩ | ⟨-, hb⟩
      · exact ⟨p, (hmem b).mpr (.inl hb)⟩
      · exact ⟨p, (hmem b).mpr (.inr hb)⟩
      · exact ⟨r, hb⟩

end Custody
