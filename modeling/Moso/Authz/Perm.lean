import Moso.Foundation.PackedBits
import Mathlib.Data.List.Basic

/-!
# Permissions as bits

The `Permission` trait, the bitset `PermSet` and its untyped form `PermBits`. An index is any
number: one from 256 on has no bit, which the set operations ignore.
-/

namespace Moso.Authz

/-- `MAX_PERMISSIONS`. -/
def maxPermissions : ℕ := 256

/-- `PERM_WORDS`. -/
def permWords : ℕ := maxPermissions / 64

/-- What `permissions!` implements on the generated enum, and a program on one of its own. -/
class Permission (P : Type*) where
  all : List P
  fingerprint : BitVec 64
  index : P → ℕ
  asStr : P → String
  parse : String → Option P

/-- The word and mask that an index addresses. -/
def position (index : ℕ) : Option (Fin permWords × BitVec 64) :=
  if h : index < maxPermissions then
    some (⟨index / 64, Nat.div_lt_of_lt_mul h⟩, 1#64 <<< (index % 64))
  else none

/-- A `PermSet` with its type erased, and the registry that it came from. -/
structure PermBits where
  words : Fin permWords → BitVec 64
  fingerprint : BitVec 64

namespace PermBits

variable (b other : PermBits)

def hasIndex (index : ℕ) : Bool :=
  match position index with
  | some (word, bit) => b.words word &&& bit ≠ 0
  | none             => false

def isEmpty : Bool := (List.finRange permWords).all fun k => b.words k = 0

def hasAll : Bool := (List.finRange permWords).all fun k => other.words k &&& ~~~b.words k = 0

def hasAny : Bool := (List.finRange permWords).any fun k => b.words k &&& other.words k ≠ 0

end PermBits

/-- A compact set of permissions. -/
structure PermSet (P : Type*) where
  words : Fin permWords → BitVec 64

namespace PermSet

variable {P : Type*} [Permission P]

def empty : PermSet P := ⟨fun _ => 0⟩

/-- Add a permission; one without a bit is ignored. -/
def with_ (set : PermSet P) (permission : P) : PermSet P :=
  match position (Permission.index permission) with
  | some (word, bit) => ⟨PackedBits.setBit set.words word bit⟩
  | none             => set

/-- A set holding exactly the given permissions. -/
def of (permissions : List P) : PermSet P := permissions.foldl with_ empty

def has (set : PermSet P) (permission : P) : Bool :=
  match position (Permission.index permission) with
  | some (word, bit) => set.words word &&& bit ≠ 0
  | none             => false

def union (set other : PermSet P) : PermSet P := ⟨fun k => set.words k ||| other.words k⟩

def intersection (set other : PermSet P) : PermSet P := ⟨fun k => set.words k &&& other.words k⟩

def difference (set other : PermSet P) : PermSet P := ⟨fun k => set.words k &&& ~~~other.words k⟩

def isEmpty (set : PermSet P) : Bool := (List.finRange permWords).all fun k => set.words k = 0

/-- The wire names, in registry order. -/
def names (set : PermSet P) : List String :=
  ((Permission.all (P := P)).filter set.has).map Permission.asStr

def toBits (set : PermSet P) : PermBits := ⟨set.words, Permission.fingerprint P⟩

/-- Recover a typed set, when the bits come from its registry. -/
def fromBits (bits : PermBits) : Option (PermSet P) :=
  if bits.fingerprint ≠ Permission.fingerprint P then none else some ⟨bits.words⟩

end PermSet

/-! ### The bits of a set -/

section Bits

lemma position_of_lt {index : ℕ} (h : index < maxPermissions) :
    position index =
      some (⟨index / 64, Nat.div_lt_of_lt_mul h⟩, 1#64 <<< (index % 64)) := dif_pos h

lemma position_of_le {index : ℕ} (h : maxPermissions ≤ index) : position index = none :=
  dif_neg (not_lt.mpr h)

/-- Past the last word there are no bits. -/
lemma bit_of_le {words : Fin permWords → BitVec 64} {index : ℕ} (h : maxPermissions ≤ index) :
    PackedBits.bit words index = false := by
  have hlt : ¬index / 64 < permWords := fun hlt => by
    have := Nat.lt_mul_of_div_lt hlt (by decide)
    exact absurd this (not_lt.mpr h)
  rw [PackedBits.bit, dif_neg hlt]

@[simp] lemma PermBits.hasIndex_eq (b : PermBits) (index : ℕ) :
    b.hasIndex index = PackedBits.bit b.words index := by
  unfold PermBits.hasIndex
  by_cases h : index < maxPermissions
  · rw [position_of_lt h]
    have hmask := PackedBits.and_mask_ne_zero (x := b.words ⟨index / 64, Nat.div_lt_of_lt_mul h⟩)
      (Nat.mod_lt index (by decide : 0 < 64))
    rw [PackedBits.bit, dif_pos (Nat.div_lt_of_lt_mul h), Bool.eq_iff_iff, decide_eq_true_iff]
    exact hmask
  · rw [position_of_le (not_lt.mp h), bit_of_le (not_lt.mp h)]

lemma all_words_iff {p : Fin permWords → Prop} [DecidablePred p] :
    ((List.finRange permWords).all fun k => p k) = true ↔ ∀ k, p k := by
  simp

lemma PermBits.isEmpty_iff {b : PermBits} :
    b.isEmpty = true ↔ ∀ i, PackedBits.bit b.words i = false :=
  (all_words_iff).trans PackedBits.words_eq_zero_iff

lemma PermBits.hasAll_iff {b other : PermBits} : b.hasAll other = true ↔
    ∀ i, PackedBits.bit other.words i = true → PackedBits.bit b.words i = true :=
  (all_words_iff).trans PackedBits.forall_and_not_iff

lemma PermBits.hasAny_iff {b other : PermBits} : b.hasAny other = true ↔
    ∃ i, PackedBits.bit b.words i = true ∧ PackedBits.bit other.words i = true := by
  rw [← PackedBits.exists_and_iff, hasAny]
  simp

namespace PermSet

variable {P : Type*} [Permission P]

lemma bit_with (set : PermSet P) (p : P) (i : ℕ) :
    PackedBits.bit (set.with_ p).words i = true ↔
      PackedBits.bit set.words i = true ∨ i = Permission.index p ∧ i < maxPermissions := by
  unfold with_
  by_cases h : Permission.index p < maxPermissions
  · rw [position_of_lt h]
    dsimp only
    rw [PackedBits.bit_setBit (by decide) (Nat.div_lt_of_lt_mul h), Bool.or_eq_true,
      decide_eq_true_iff]
    exact or_congr_right ⟨fun hi => ⟨hi, hi ▸ h⟩, And.left⟩
  · rw [position_of_le (not_lt.mp h)]
    exact ⟨.inl, fun hi => hi.elim id fun hi => absurd (hi.1 ▸ hi.2) h⟩

lemma bit_foldl (ps : List P) (set : PermSet P) (i : ℕ) :
    PackedBits.bit (ps.foldl with_ set).words i = true ↔
      PackedBits.bit set.words i = true ∨
        ∃ p ∈ ps, i = Permission.index p ∧ i < maxPermissions := by
  induction ps generalizing set with
  | nil => simp
  | cons p ps ih => rw [List.foldl_cons, ih, bit_with, List.exists_mem_cons_iff, or_assoc]

/-- A set has the bits of its permissions below the limit. -/
lemma bit_of (ps : List P) (i : ℕ) : PackedBits.bit (of ps).words i = true ↔
    ∃ p ∈ ps, i = Permission.index p ∧ i < maxPermissions := by
  have hempty : PackedBits.bit (empty : PermSet P).words i = false :=
    PackedBits.words_eq_zero_iff.mp (fun _ => rfl) i
  rw [of, bit_foldl, hempty]
  simp

omit [Permission P] in
lemma bit_union (set other : PermSet P) (i : ℕ) : PackedBits.bit (set.union other).words i =
    (PackedBits.bit set.words i || PackedBits.bit other.words i) := PackedBits.bit_or _ _ _

omit [Permission P] in
lemma bit_intersection (set other : PermSet P) (i : ℕ) :
    PackedBits.bit (set.intersection other).words i =
      (PackedBits.bit set.words i && PackedBits.bit other.words i) := PackedBits.bit_and _ _ _

omit [Permission P] in
lemma ext_bit {set other : PermSet P}
    (h : ∀ i, PackedBits.bit set.words i = PackedBits.bit other.words i) : set = other :=
  congrArg mk (PackedBits.words_ext h)

lemma has_eq (set : PermSet P) (p : P) :
    set.has p = PackedBits.bit set.words (Permission.index p) :=
  PermBits.hasIndex_eq set.toBits _

/-! ### The algebra of sets -/

omit [Permission P] in
lemma union_comm (a b : PermSet P) : a.union b = b.union a :=
  ext_bit fun i => by rw [bit_union, bit_union, Bool.or_comm]

omit [Permission P] in
lemma union_assoc (a b c : PermSet P) : (a.union b).union c = a.union (b.union c) :=
  ext_bit fun i => by simp only [bit_union, Bool.or_assoc]

omit [Permission P] in
lemma intersection_comm (a b : PermSet P) : a.intersection b = b.intersection a :=
  ext_bit fun i => by rw [bit_intersection, bit_intersection, Bool.and_comm]

omit [Permission P] in
lemma intersection_assoc (a b c : PermSet P) :
    (a.intersection b).intersection c = a.intersection (b.intersection c) :=
  ext_bit fun i => by simp only [bit_intersection, Bool.and_assoc]

omit [Permission P] in
/-- What was cut off before a union is cut off after it. -/
lemma intersection_union_intersection (a b c : PermSet P) :
    ((a.intersection c).union b).intersection c = (a.union b).intersection c :=
  ext_bit fun i => by
    simp only [bit_union, bit_intersection, Bool.and_or_distrib_right, Bool.and_assoc,
      Bool.and_self]

omit [Permission P] in
lemma union_intersection (a b c : PermSet P) :
    (a.union b).intersection c = (a.intersection c).union (b.intersection c) :=
  ext_bit fun i => by simp only [bit_union, bit_intersection, Bool.and_or_distrib_right]

end PermSet

end Bits

end Moso.Authz
