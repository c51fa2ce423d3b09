import Mathlib.Data.List.Induction
import Mathlib.Data.Nat.Basic

/-!
# Operators of different strength

A flat sequence of operands with binary operators between them, and the tree that it denotes: a
stronger operator binds its operands first, and operators of the same strength associate to the
left.
-/

namespace Precedence

variable {α ο : Type*}

inductive Tree (α ο : Type*) where
  | leaf (a : α)
  | node (op : ο) (left right : Tree α ο)
  deriving DecidableEq

namespace Tree

/-- The operands, from the left. -/
def leaves : Tree α ο → List α
  | leaf a => [a]
  | node _ left right => left.leaves ++ right.leaves

/-- Put an operator and an operand at the end. Only the operands of weaker operators are still
open for it. -/
def attach (strength : ο → ℕ) (op : ο) (a : α) : Tree α ο → Tree α ο
  | leaf b => node op (leaf b) (leaf a)
  | node op' left right =>
    if strength op' < strength op then node op' left (attach strength op a right)
    else node op (node op' left right) (leaf a)

@[simp] lemma leaves_leaf (a : α) : (leaf a : Tree α ο).leaves = [a] := rfl

@[simp] lemma leaves_node (op : ο) (left right : Tree α ο) :
    (node op left right).leaves = left.leaves ++ right.leaves := rfl

lemma leaves_ne_nil : ∀ t : Tree α ο, t.leaves ≠ []
  | leaf _ => List.cons_ne_nil _ _
  | node _ left _ => List.append_ne_nil_of_left_ne_nil left.leaves_ne_nil _

/-- A tree is a single operand as soon as it has only one. -/
lemma exists_eq_leaf {t : Tree α ο} (h : t.leaves.length ≤ 1) : ∃ a, t = leaf a := by
  cases t with
  | leaf a => exact ⟨a, rfl⟩
  | node op left right =>
    have hleft := List.length_pos_iff.mpr left.leaves_ne_nil
    have hright := List.length_pos_iff.mpr right.leaves_ne_nil
    rw [leaves_node, List.length_append] at h
    omega

@[simp] lemma leaves_attach (strength : ο → ℕ) (op : ο) (a : α) (t : Tree α ο) :
    (t.attach strength op a).leaves = t.leaves ++ [a] := by
  induction t with
  | leaf b => rfl
  | node op' left right _ ih =>
    rw [attach]
    split
    · rw [leaves_node, ih, leaves_node, List.append_assoc]
    · rfl

/-- What is put at the end is an operand of the whole exactly when no weaker operator is open. -/
lemma attach_eq_node_iff {strength : ο → ℕ} {op op' : ο} {a : α} {t t' : Tree α ο} :
    t.attach strength op a = node op' t' (leaf a) ↔
      op = op' ∧ t = t' ∧
        ∀ weaker left right, t = node weaker left right → strength op ≤ strength weaker := by
  cases t with
  | leaf b =>
    rw [attach, node.injEq]
    constructor
    · rintro ⟨rfl, rfl, -⟩
      refine ⟨rfl, rfl, ?_⟩
      rintro _ _ _ ⟨⟩
    · rintro ⟨rfl, rfl, -⟩
      exact ⟨rfl, rfl, rfl⟩
  | node weaker left right =>
    rw [attach]
    split
    · next hlt =>
      -- the operand is then deeper, and beside another one
      refine iff_of_false (fun h => ?_) fun h => (h.2.2 _ _ _ rfl).not_gt hlt
      have hleaves := congrArg leaves (node.inj h).2.2
      rw [leaves_attach, leaves_leaf] at hleaves
      exact right.leaves_ne_nil (List.append_left_eq_self.mp hleaves)
    · next hle =>
      rw [node.injEq]
      constructor
      · rintro ⟨rfl, rfl, -⟩
        refine ⟨rfl, rfl, ?_⟩
        rintro _ _ _ ⟨⟩
        exact Nat.le_of_not_lt hle
      · rintro ⟨rfl, rfl, -⟩
        exact ⟨rfl, rfl, rfl⟩

end Tree

open Tree

/-- The tree of a flat sequence. -/
def parse (strength : ο → ℕ) (a : α) (rest : List (ο × α)) : Tree α ο :=
  rest.foldl (fun t p => t.attach strength p.1 p.2) (leaf a)

/-- The operands combined one after the other, whatever the operators are. -/
def leftFold (t : Tree α ο) (rest : List (ο × Tree α ο)) : Tree α ο :=
  rest.foldl (fun t p => node p.1 t p.2) t

lemma leaves_leftFold (t : Tree α ο) (rest : List (ο × Tree α ο)) :
    (leftFold t rest).leaves = t.leaves ++ rest.flatMap fun p => p.2.leaves := by
  induction rest generalizing t with
  | nil => exact (List.append_nil _).symm
  | cons p rest ih =>
    rw [leftFold, List.foldl_cons, ← leftFold, ih, leaves_node, List.flatMap_cons, List.append_assoc]

lemma parse_append (strength : ο → ℕ) (a : α) (rest : List (ο × α)) (p : ο × α) :
    parse strength a (rest ++ [p]) = (parse strength a rest).attach strength p.1 p.2 := by
  rw [parse, List.foldl_append]
  rfl

lemma leftFold_append (t : Tree α ο) (rest : List (ο × Tree α ο)) (p : ο × Tree α ο) :
    leftFold t (rest ++ [p]) = node p.1 (leftFold t rest) p.2 := by
  rw [leftFold, List.foldl_append]
  rfl

lemma leaves_parse (strength : ο → ℕ) (a : α) (rest : List (ο × α)) :
    (parse strength a rest).leaves = a :: rest.map Prod.snd := by
  induction rest using List.reverseRecOn with
  | nil => rfl
  | append_singleton rest p ih =>
    rw [parse_append, leaves_attach, ih, List.map_append, List.cons_append]
    rfl

/-- The operator of the root is the last one. -/
lemma leftFold_eq_node {a : α} {rest : List (ο × α)} {op : ο} {left right : Tree α ο}
    (h : leftFold (leaf a) (rest.map (Prod.map id leaf)) = node op left right) :
    ∃ first last, rest = first ++ [(op, last)] := by
  induction rest using List.reverseRecOn with
  | nil => cases h
  | append_singleton rest p _ =>
    rw [List.map_append, List.map_singleton, leftFold_append] at h
    obtain ⟨rfl, -, -⟩ := node.inj h
    exact ⟨rest, p.2, rfl⟩

/-- A flat sequence denotes the operands combined from left to right exactly when no operator is
stronger than one before it. -/
theorem parse_eq_leftFold_iff {strength : ο → ℕ} {a : α} {rest : List (ο × α)} :
    parse strength a rest = leftFold (leaf a) (rest.map (Prod.map id leaf)) ↔
      (rest.map fun p => strength p.1).Pairwise (· ≥ ·) := by
  induction rest using List.reverseRecOn with
  | nil => exact iff_of_true rfl .nil
  | append_singleton rest p ih =>
    rw [parse_append, List.map_append, List.map_singleton, leftFold_append, Prod.map_fst,
      Prod.map_snd, id, attach_eq_node_iff, List.map_append, List.pairwise_append, ← ih]
    constructor
    · rintro ⟨-, hparse, hroot⟩
      refine ⟨hparse, List.pairwise_singleton _ _, fun strong hstrong weak hweak => ?_⟩
      obtain rfl := List.mem_singleton.mp hweak
      -- the last operator is the root, and the weakest
      rcases rest.eq_nil_or_concat with rfl | ⟨first, last, rfl⟩
      · cases hstrong
      have hle : strength p.1 ≤ strength last.1 := by
        refine hroot last.1 (leftFold (leaf a) (first.map (Prod.map id leaf))) (leaf last.2) ?_
        rw [hparse, List.concat_eq_append, List.map_append, List.map_singleton, leftFold_append]
        rfl
      have hpairwise := ih.mp hparse
      rw [List.concat_eq_append, List.map_append] at hstrong hpairwise
      rcases List.mem_append.mp hstrong with hfirst | hlast
      · exact Nat.le_trans hle
          ((List.pairwise_append.mp hpairwise).2.2 _ hfirst _ List.mem_cons_self)
      · obtain rfl := List.mem_singleton.mp hlast
        exact hle
    · rintro ⟨hparse, -, hweakest⟩
      refine ⟨rfl, hparse, fun op left right hnode => ?_⟩
      rw [hparse] at hnode
      obtain ⟨first, last, rfl⟩ := leftFold_eq_node hnode
      refine hweakest _ ?_ _ (List.mem_singleton.mpr rfl)
      rw [List.map_append]
      exact List.mem_append_right _ List.mem_cons_self

end Precedence
