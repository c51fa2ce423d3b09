import Mathlib.Algebra.Group.Nat.Defs
import Mathlib.Data.List.TakeDrop
import Mathlib.Data.Nat.Notation
import Mathlib.Tactic.Common

/-!
# Bit buffers

A word as a queue of bits: new bits are shifted in at the low end, and the oldest of those that are
still of use are read above the rest. The bits above these are of no use any more, and need not be
cleared.
-/

namespace BitBuffer

variable {w : ℕ}

/-- The low `n` bits of a word, from the highest. -/
def low : ℕ → BitVec w → List Bool
  | 0, _     => []
  | n + 1, x => x.getLsbD n :: low n x

lemma low_succ (n : ℕ) (x : BitVec w) : low (n + 1) x = x.getLsbD n :: low n x := rfl

@[simp] lemma length_low (n : ℕ) (x : BitVec w) : (low n x).length = n := by
  induction n with
  | zero => rfl
  | succ n ih => rw [low_succ, List.length_cons, ih]

/-- Words with the same low bits cannot be told apart by these. -/
lemma low_congr {v n : ℕ} {x : BitVec w} {y : BitVec v}
    (h : ∀ i < n, x.getLsbD i = y.getLsbD i) : low n x = low n y := by
  induction n with
  | zero => rfl
  | succ n ih =>
    rw [low_succ, low_succ, h n n.lt_succ_self, ih fun i hi => h i (Nat.lt_succ_of_lt hi)]

lemma low_inj {n : ℕ} {x y : BitVec w} (h : low n x = low n y) :
    ∀ i < n, x.getLsbD i = y.getLsbD i := by
  induction n with
  | zero => exact fun i hi => absurd hi (Nat.not_lt_zero i)
  | succ n ih =>
    rw [low_succ, low_succ, List.cons.injEq] at h
    intro i hi
    rcases Nat.lt_succ_iff_lt_or_eq.mp hi with hlt | rfl
    · exact ih h.2 i hlt
    · exact h.1

/-- The whole word is its bits. -/
lemma low_injective : Function.Injective (low w : BitVec w → List Bool) := fun _ _ h =>
  BitVec.eq_of_getLsbD_eq fun i hi => low_inj h i hi

/-- The oldest `m` bits of a buffer, and the rest. -/
lemma low_add (m n : ℕ) (x : BitVec w) : low (m + n) x = low m (x >>> n) ++ low n x := by
  induction m with
  | zero =>
    rw [Nat.zero_add]
    rfl
  | succ m ih =>
    rw [Nat.succ_add, low_succ, ih, low_succ, List.cons_append, BitVec.getLsbD_ushiftRight,
      Nat.add_comm n m]

/-- New bits go behind those that are in the buffer. -/
lemma low_push {k n : ℕ} {x y : BitVec w} (hfit : n + k ≤ w) (hy : y.toNat < 2 ^ k) :
    low (n + k) (x <<< k ||| y) = low n x ++ low k y := by
  rw [low_add]
  congr 1
  · refine low_congr fun i hi => ?_
    have hhigh : y.getLsbD (k + i) = false := by
      rw [BitVec.getLsbD]
      exact Nat.testBit_lt_two_pow
        (Nat.lt_of_lt_of_le hy (Nat.pow_le_pow_right Nat.zero_lt_two (Nat.le_add_right k i)))
    have hlt : k + i < w := by omega
    rw [BitVec.getLsbD_ushiftRight, BitVec.getLsbD_or, BitVec.getLsbD_shiftLeft, hhigh,
      Nat.add_sub_cancel_left]
    simp [hlt]
  · refine low_congr fun i hi => ?_
    rw [BitVec.getLsbD_or, BitVec.getLsbD_shiftLeft]
    simp [hi]

/-! ### Masks -/

/-- A word whose low `n` bits are set. -/
def mask (w n : ℕ) : BitVec w := (1#w <<< n) - 1#w

lemma toNat_mask {n : ℕ} (hn : n < w) : (mask w n).toNat = 2 ^ n - 1 := by
  have hpow : 2 ^ n < 2 ^ w := Nat.pow_lt_pow_right Nat.one_lt_two hn
  have hone : 1 < 2 ^ w := Nat.one_lt_two_pow (by omega)
  have hpos : 1 ≤ 2 ^ n := Nat.one_le_two_pow
  rw [mask, BitVec.toNat_sub, BitVec.toNat_shiftLeft]
  simp only [BitVec.toNat_ofNat, Nat.mod_eq_of_lt hone, Nat.shiftLeft_eq, Nat.one_mul,
    Nat.mod_eq_of_lt hpow]
  have hsum : 2 ^ w - 1 + 2 ^ n = 2 ^ n - 1 + 2 ^ w := by omega
  rw [hsum, Nat.add_mod_right, Nat.mod_eq_of_lt (by omega)]

lemma toNat_and_mask {n : ℕ} (hn : n < w) (x : BitVec w) :
    (x &&& mask w n).toNat = x.toNat % 2 ^ n := by
  rw [BitVec.toNat_and, toNat_mask hn, Nat.and_two_pow_sub_one_eq_mod]

/-- A mask keeps the low bits. -/
lemma low_and_mask {n : ℕ} (hn : n < w) (x : BitVec w) : low n (x &&& mask w n) = low n x := by
  refine low_congr fun i hi => ?_
  rw [BitVec.getLsbD, toNat_and_mask hn, Nat.testBit_mod_two_pow, decide_eq_true hi, Bool.true_and]
  rfl

/-- A mask leaves nothing when the low bits are zero. -/
lemma and_mask_eq_zero_iff {n : ℕ} (hn : n < w) (x : BitVec w) :
    x &&& mask w n = 0#w ↔ low n x = List.replicate n false := by
  have hzero : low n (0#w) = List.replicate n false := by
    clear hn
    induction n with
    | zero => rfl
    | succ n ih => rw [low_succ, ih, List.replicate_succ, BitVec.getLsbD_zero]
  refine ⟨fun h => by rw [← low_and_mask hn, h, hzero], fun h => ?_⟩
  refine BitVec.eq_of_getLsbD_eq fun i hi => ?_
  rw [BitVec.getLsbD_zero, BitVec.getLsbD, toNat_and_mask hn, Nat.testBit_mod_two_pow]
  by_cases hin : i < n
  · rw [decide_eq_true hin, Bool.true_and]
    exact (low_inj (h.trans hzero.symm) i hin).trans (BitVec.getLsbD_zero)
  · rw [decide_eq_false hin, Bool.false_and]

end BitBuffer
