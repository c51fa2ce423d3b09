import Mathlib.Data.List.Nodup
import Mathlib.Data.List.Basic

/-!
# Transactions at READ COMMITTED

A table of rows with a key, and what a transaction has done to it and not yet committed: under
each key it has written, the row it has put there, or none. These are the keys it has locked. A
statement sees the committed rows with what its own transaction has done over them, and that is
what a commit leaves.
-/

namespace ReadCommitted

variable {κ R : Type*}

/-- What a transaction has done under the keys it has locked. -/
abbrev Work (κ R : Type*) := List (κ × Option R)

/-- The keys that a transaction has locked. -/
def locked (work : Work κ R) : List κ := work.map Prod.fst

@[simp] lemma locked_nil : locked ([] : Work κ R) = [] := rfl

@[simp] lemma locked_cons {k : κ} {o : Option R} {work : Work κ R} :
    locked ((k, o) :: work) = k :: locked work := rfl

variable [DecidableEq κ] (key : R → κ)

/-- The rows that the transaction sees. -/
def visible (rows : List R) (work : Work κ R) : List R :=
  rows.filter (fun row => key row ∉ locked work) ++ work.filterMap Prod.snd

variable {key} {rows : List R} {work : Work κ R} {row : R}

@[simp] lemma visible_nil : visible key rows [] = rows := by
  simp [visible]

lemma mem_visible : row ∈ visible key rows work ↔
    (row ∈ rows ∧ key row ∉ locked work) ∨ ∃ k, (k, some row) ∈ work := by
  simp [visible]

/-- A transaction that has only deleted leaves the rows that it has not locked. -/
lemma mem_visible_of_deleted (hwork : ∀ entry ∈ work, entry.2 = none) :
    row ∈ visible key rows work ↔ row ∈ rows ∧ key row ∉ locked work := by
  rw [mem_visible]
  refine or_iff_left ?_
  rintro ⟨k, hmem⟩
  cases hwork _ hmem

/-- The keys stay distinct when what was put under a key has that key, and no other row does. -/
lemma nodup_visible (hrows : (rows.map key).Nodup) (hwork : (locked work).Nodup)
    (hkey : ∀ k row, (k, some row) ∈ work → key row = k) :
    ((visible key rows work).map key).Nodup := by
  rw [visible, List.map_append, List.nodup_append]
  refine ⟨?_, ?_, ?_⟩
  · exact hrows.sublist (List.filter_sublist.map key)
  · induction work with
    | nil => exact List.nodup_nil
    | cons entry work ih =>
      obtain ⟨k, o⟩ := entry
      obtain ⟨hk, hwork⟩ := List.nodup_cons.mp hwork
      have ih := ih hwork fun k row hmem => hkey k row (List.mem_cons_of_mem _ hmem)
      cases o with
      | none => exact ih
      | some row =>
        simp only [List.filterMap_cons, List.map_cons]
        refine List.nodup_cons.mpr ⟨fun hmem => hk ?_, ih⟩
        obtain ⟨row', hrow', heq⟩ := List.mem_map.mp hmem
        obtain ⟨⟨k', o'⟩, hmem', rfl⟩ := List.mem_filterMap.mp hrow'
        rw [hkey k row List.mem_cons_self, hkey k' row' (List.mem_cons_of_mem _ hmem')] at heq
        exact List.mem_map.mpr ⟨_, hmem', heq⟩
  · intro a ha b hb heq
    obtain ⟨row, hrow, rfl⟩ := List.mem_map.mp ha
    obtain ⟨row', hrow', rfl⟩ := List.mem_map.mp hb
    obtain ⟨⟨k', o'⟩, hmem', ho⟩ := List.mem_filterMap.mp hrow'
    simp only at ho
    subst ho
    have hnot := of_decide_eq_true (List.mem_filter.mp hrow).2
    rw [heq, hkey k' row' hmem'] at hnot
    exact hnot (List.mem_map_of_mem hmem')

end ReadCommitted
