import Mathlib.Data.Fin.Basic
import Mathlib.Logic.Function.Basic
import Mathlib.Tactic.Common

/-!
# Bits packed into words

A set of numbers below `n * w` as `n` words of `w` bits. What the bitwise operators make of the
words is what the set operations make of the numbers.
-/

namespace PackedBits

variable {n w : ℕ}

/-- Whether bit `i % w` of word `i / w` is set; there is no other bit. -/
def bit (words : Fin n → BitVec w) (i : ℕ) : Bool :=
  if h : i / w < n then (words ⟨i / w, h⟩).getLsbD (i % w) else false

lemma bit_word (words : Fin n → BitVec w) (k : Fin n) {j : ℕ} (hj : j < w) :
    bit words (w * k + j) = (words k).getLsbD j := by
  have hdiv : (w * k + j) / w = k := by
    rw [Nat.mul_add_div (Nat.zero_lt_of_lt hj), Nat.div_eq_of_lt hj, Nat.add_zero]
  have hmod : (w * k + j) % w = j := by rw [Nat.mul_add_mod, Nat.mod_eq_of_lt hj]
  have hlt : (w * k + j) / w < n := by rw [hdiv]; exact k.isLt
  rw [bit, dif_pos hlt, hmod]
  congr 2
  exact Fin.ext hdiv

lemma exists_bit {words : Fin n → BitVec w} {i : ℕ} (h : bit words i = true) :
    ∃ (k : Fin n) (j : ℕ), j < w ∧ i = w * k + j ∧ (words k).getLsbD j = true := by
  unfold bit at h
  split_ifs at h with hlt
  have hw : 0 < w := Nat.pos_of_ne_zero fun hzero => by
    subst hzero
    simp at h
  exact ⟨⟨i / w, hlt⟩, i % w, Nat.mod_lt _ hw, (Nat.div_add_mod i w).symm, h⟩

lemma eq_zero_iff {x : BitVec w} : x = 0 ↔ ∀ j < w, x.getLsbD j = false := by
  refine ⟨fun h j _ => by simp [h], fun h => BitVec.eq_of_getLsbD_eq fun j hj => ?_⟩
  rw [h j hj]
  simp

/-- All words are zero when no bit is set. -/
lemma words_eq_zero_iff {words : Fin n → BitVec w} :
    (∀ k, words k = 0) ↔ ∀ i, bit words i = false := by
  constructor
  · intro h i
    by_contra hbit
    obtain ⟨k, j, -, -, hj⟩ := exists_bit (Bool.eq_true_of_not_eq_false hbit)
    simp [h k] at hj
  · intro h k
    rw [eq_zero_iff]
    intro j hj
    rw [← bit_word words k hj]
    exact h _

lemma bit_and (a b : Fin n → BitVec w) (i : ℕ) :
    bit (fun k => a k &&& b k) i = (bit a i && bit b i) := by
  unfold bit
  split_ifs
  · exact BitVec.getLsbD_and
  · rfl

lemma bit_or (a b : Fin n → BitVec w) (i : ℕ) :
    bit (fun k => a k ||| b k) i = (bit a i || bit b i) := by
  unfold bit
  split_ifs
  · exact BitVec.getLsbD_or
  · rfl

/-- Words are equal when their bits are. -/
lemma words_ext {a b : Fin n → BitVec w} (h : ∀ i, bit a i = bit b i) : a = b := by
  funext k
  refine BitVec.eq_of_getLsbD_eq fun j hj => ?_
  rw [← bit_word a k hj, ← bit_word b k hj, h]

/-- Beyond the last word the complement has no bits either. -/
lemma bit_and_not (a b : Fin n → BitVec w) (i : ℕ) :
    bit (fun k => a k &&& ~~~b k) i = (bit a i && !bit b i) := by
  unfold bit
  split_ifs with hlt
  · rw [BitVec.getLsbD_and, BitVec.getLsbD_not]
    by_cases hmod : i % w < w
    · simp [hmod]
    · simp [BitVec.getLsbD_of_ge _ _ (not_lt.mp hmod)]
  · rfl

/-- No word has a bit outside the other's: the one set is part of the other. -/
lemma forall_and_not_iff {a b : Fin n → BitVec w} :
    (∀ k, a k &&& ~~~b k = 0) ↔ ∀ i, bit a i = true → bit b i = true := by
  rw [words_eq_zero_iff]
  refine forall_congr' fun i => ?_
  rw [bit_and_not]
  cases bit a i <;> cases bit b i <;> decide

/-- Some word shares a bit with the other's: the two sets meet. -/
lemma exists_and_iff {a b : Fin n → BitVec w} :
    (∃ k, a k &&& b k ≠ 0) ↔ ∃ i, bit a i = true ∧ bit b i = true := by
  rw [← not_iff_not]
  push Not
  rw [words_eq_zero_iff]
  refine forall_congr' fun i => ?_
  rw [bit_and]
  cases bit a i <;> cases bit b i <;> decide

/-- The mask of one bit. -/
lemma and_mask_ne_zero {x : BitVec w} {j : ℕ} (hj : j < w) :
    x &&& (1#w <<< j) ≠ 0 ↔ x.getLsbD j = true := by
  have hbit : ∀ i < w, (x &&& (1#w <<< j)).getLsbD i = (x.getLsbD i && decide (i = j)) := by
    intro i _
    rw [BitVec.getLsbD_and, ← BitVec.twoPow_eq, BitVec.getLsbD_twoPow]
    simp [hj, eq_comm]
  rw [Ne, eq_zero_iff]
  constructor
  · intro h
    by_contra hx
    refine h fun i hi => ?_
    rw [hbit i hi]
    by_cases hij : i = j
    · rw [hij, Bool.eq_false_of_not_eq_true hx, Bool.false_and]
    · rw [decide_eq_false hij, Bool.and_false]
  · intro hx h
    have := h j hj
    rw [hbit j hj, hx] at this
    simp at this

/-- Set one bit. -/
def setBit (words : Fin n → BitVec w) (k : Fin n) (mask : BitVec w) : Fin n → BitVec w :=
  Function.update words k (words k ||| mask)

/-- One more bit is set, and no other. -/
lemma bit_setBit {words : Fin n → BitVec w} {i j : ℕ} (hw : 0 < w) (hj : j / w < n) :
    bit (setBit words ⟨j / w, hj⟩ (1#w <<< (j % w))) i = (bit words i || decide (i = j)) := by
  have hmod : i % w < w := Nat.mod_lt _ hw
  have hj' : j % w < w := Nat.mod_lt _ hw
  have hi := Nat.div_add_mod i w
  have hjd := Nat.div_add_mod j w
  unfold bit
  split_ifs with hlt
  · by_cases hword : i / w = j / w
    · have hmods : i % w = j % w ↔ i = j :=
        ⟨fun h => by rw [← hi, ← hjd, hword, h], fun h => by rw [h]⟩
      have hfin : (⟨i / w, hlt⟩ : Fin n) = ⟨j / w, hj⟩ := Fin.ext hword
      rw [setBit, hfin, Function.update_self, BitVec.getLsbD_or, ← BitVec.twoPow_eq,
        BitVec.getLsbD_twoPow]
      simp [hj', hmods, eq_comm]
    · have hne : (⟨i / w, hlt⟩ : Fin n) ≠ ⟨j / w, hj⟩ := fun h => hword (Fin.mk.inj h)
      have hij : i ≠ j := fun h => hword (congrArg (· / w) h)
      rw [setBit, Function.update_of_ne hne]
      simp [hij]
  · have hij : i ≠ j := fun h => hlt (h ▸ hj)
    simp [hij]

end PackedBits
