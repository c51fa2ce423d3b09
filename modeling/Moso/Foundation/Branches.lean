import Mathlib.Data.List.Infix
import Mathlib.Data.List.Induction
import Mathlib.Data.List.Nodup
import Mathlib.Tactic.Common

/-!
# Paths and their branches

Values sent along paths. At each place some paths end and the others go on, each under its next
name; the names at a place are in the order in which they were seen first.
-/

namespace Branches

variable {ν β : Type} [DecidableEq ν]

/-- The different elements of a list, in the order of their first occurrences. -/
def firstSeen (names : List ν) : List ν :=
  names.foldl (fun seen name => if name ∈ seen then seen else seen ++ [name]) []

/-- The names under which the paths go on. -/
def heads (sent : List (List ν × β)) : List ν := firstSeen (sent.filterMap fun p => p.1.head?)

/-- What is sent along a path that goes on under a name, from there. -/
def under (name : ν) (sent : List (List ν × β)) : List (List ν × β) :=
  sent.filterMap fun p =>
    match p.1 with
    | [] => none
    | head :: rest => if head = name then some (rest, p.2) else none

variable {name name' : ν} {names path : List ν} {sent sent' : List (List ν × β)} {value : β}

lemma firstSeen_concat (names : List ν) (name : ν) : firstSeen (names ++ [name]) =
    if name ∈ firstSeen names then firstSeen names else firstSeen names ++ [name] := by
  rw [firstSeen, List.foldl_append]
  rfl

@[simp] lemma mem_firstSeen : name ∈ firstSeen names ↔ name ∈ names := by
  induction names using List.reverseRecOn with
  | nil => rfl
  | append_singleton names name' ih =>
    rw [firstSeen_concat]
    split_ifs with hseen
    · rw [ih, List.mem_append, List.mem_singleton]
      refine ⟨.inl, fun h => h.elim id fun heq => ?_⟩
      subst heq
      exact ih.mp hseen
    · simp [ih]

lemma nodup_firstSeen (names : List ν) : (firstSeen names).Nodup := by
  induction names using List.reverseRecOn with
  | nil => exact List.nodup_nil
  | append_singleton names name ih =>
    rw [firstSeen_concat]
    split_ifs with hseen
    · exact ih
    · rw [List.nodup_append]
      refine ⟨ih, List.nodup_singleton name, ?_⟩
      rintro a ha b hb rfl
      exact hseen (List.mem_singleton.mp hb ▸ ha)

lemma under_append : under name (sent ++ sent') = under name sent ++ under name sent' :=
  List.filterMap_append

lemma heads_concat_nil : heads (sent ++ [([], value)]) = heads sent := by
  rw [heads, List.filterMap_append]
  exact congrArg firstSeen (List.append_nil _)

lemma heads_concat_cons : heads (sent ++ [(name :: path, value)]) =
    if name ∈ heads sent then heads sent else heads sent ++ [name] := by
  rw [heads, List.filterMap_append]
  exact firstSeen_concat _ _

lemma mem_heads : name ∈ heads sent ↔ ∃ rest value, (name :: rest, value) ∈ sent := by
  simp only [heads, mem_firstSeen, List.mem_filterMap, Prod.exists]
  constructor
  · rintro ⟨path, value, hmem, hhead⟩
    obtain ⟨rest, rfl⟩ : ∃ rest, path = name :: rest := by
      cases path with
      | nil => cases hhead
      | cons head rest => exact ⟨rest, by rw [Option.some.inj hhead]⟩
    exact ⟨rest, value, hmem⟩
  · rintro ⟨rest, value, hmem⟩
    exact ⟨name :: rest, value, hmem, rfl⟩

lemma mem_under {rest : List ν} :
    (rest, value) ∈ under name sent ↔ (name :: rest, value) ∈ sent := by
  simp only [under, List.mem_filterMap, Prod.exists]
  constructor
  · rintro ⟨path, value', hmem, hmatch⟩
    cases path with
    | nil => cases hmatch
    | cons head rest' =>
      simp only [Option.ite_none_right_eq_some, Option.some.injEq, Prod.mk.injEq] at hmatch
      obtain ⟨rfl, rfl, rfl⟩ := hmatch
      exact hmem
  · intro hmem
    exact ⟨_, _, hmem, by simp⟩

@[simp] lemma under_concat_self {rest : List ν} :
    under name (sent ++ [(name :: rest, value)]) = under name sent ++ [(rest, value)] := by
  rw [under_append]
  simp [under]

lemma under_concat_of_ne {rest : List ν} (h : name' ≠ name) :
    under name (sent ++ [(name' :: rest, value)]) = under name sent := by
  rw [under_append]
  simp [under, h]

lemma under_eq_nil (h : name ∉ heads sent) : under name sent = [] := by
  rw [List.eq_nil_iff_forall_not_mem]
  exact fun p hp => h (mem_heads.2 ⟨p.1, p.2, mem_under.1 hp⟩)

end Branches
