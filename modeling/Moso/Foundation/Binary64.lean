import Mathlib.Algebra.Order.Field.Power
import Mathlib.Data.Int.Log
import Mathlib.Data.Int.Order.Basic
import Mathlib.Data.Prod.Lex
import Mathlib.Data.Rat.Floor
import Mathlib.Order.Compare
import Mathlib.Tactic.FieldSimp
import Mathlib.Tactic.Linarith
import Mathlib.Tactic.Ring

/-!
# Doubles

A double is a rational with a significand of at most 53 bits, and an operation rounds its exact
result to the nearest one, ties to even. Integers up to `2 ^ 53` are exact, and so is the floor of
a rounded quotient of two of them. Exponents are unbounded here: nothing overflows, and no value is
subnormal.
-/

/-- A rational with at most 53 significant bits. -/
structure Binary64 where
  val : ℚ
  representable : ∃ m e : ℤ, |m| ≤ 2 ^ 53 ∧ val = m * (2 : ℚ) ^ e

namespace Binary64

/-! ### Rounding -/

/-- The nearest integer, the even one of two. -/
def roundEven (x : ℚ) : ℤ :=
  if Int.fract x < 1 / 2 then ⌊x⌋
  else if 1 / 2 < Int.fract x then ⌊x⌋ + 1
  else if ⌊x⌋ % 2 = 0 then ⌊x⌋ else ⌊x⌋ + 1

/-- What the last of the 53 bits of `x` stands for. -/
def ulp (x : ℚ) : ℚ := (2 : ℚ) ^ (Int.log 2 |x| - 52)

/-- The nearest rational with at most 53 significant bits. -/
def round (x : ℚ) : ℚ := roundEven (x / ulp x) * ulp x

lemma roundEven_intCast (n : ℤ) : roundEven n = n := by
  simp [roundEven]

lemma abs_roundEven_sub_le (x : ℚ) : |(roundEven x : ℚ) - x| ≤ 1 / 2 := by
  have hx := Int.floor_add_fract x
  have hnonneg := Int.fract_nonneg x
  have hlt := Int.fract_lt_one x
  rw [abs_le]
  unfold roundEven
  split_ifs with hbelow habove
  · constructor <;> linarith
  · push_cast
    constructor <;> linarith
  · constructor <;> linarith
  · push_cast
    constructor <;> linarith

lemma ulp_pos (x : ℚ) : 0 < ulp x := zpow_pos two_pos _

/-- The leading one of the 53 bits does not exceed the value. -/
lemma ulp_mul_le {x : ℚ} (hx : x ≠ 0) : ulp x * 2 ^ 52 ≤ |x| := by
  have hlog := Int.zpow_log_le_self one_lt_two (abs_pos.mpr hx)
  rwa [ulp, ← zpow_natCast, ← zpow_add₀ two_ne_zero, Nat.cast_ofNat, sub_add_cancel]

lemma abs_div_ulp_lt (x : ℚ) : |x / ulp x| < 2 ^ 53 := by
  have hlog := Int.lt_zpow_succ_log_self one_lt_two |x|
  rw [abs_div, abs_of_pos (ulp_pos x), div_lt_iff₀ (ulp_pos x), ulp, ← zpow_natCast,
    ← zpow_add₀ two_ne_zero]
  have hexp : ((53 : ℕ) : ℤ) + (Int.log 2 |x| - 52) = Int.log 2 |x| + 1 := by omega
  rwa [hexp, ← Nat.cast_ofNat]

lemma abs_round_sub_le (x : ℚ) : |round x - x| ≤ ulp x / 2 := by
  have hulp := ulp_pos x
  have hx : x = x / ulp x * ulp x := (div_mul_cancel₀ x hulp.ne').symm
  calc |round x - x| = |(roundEven (x / ulp x) - x / ulp x) * ulp x| := by
        rw [sub_mul, ← hx, round]
    _ = |(roundEven (x / ulp x) : ℚ) - x / ulp x| * ulp x := by rw [abs_mul, abs_of_pos hulp]
    _ ≤ 1 / 2 * ulp x := mul_le_mul_of_nonneg_right (abs_roundEven_sub_le _) hulp.le
    _ = ulp x / 2 := by ring

lemma abs_roundEven_le {x : ℚ} {n : ℤ} (h : |x| < n) : |roundEven x| ≤ n := by
  have hround := abs_le.mp (abs_roundEven_sub_le x)
  have hx := abs_lt.mp h
  rw [abs_le]
  constructor
  · have : (-n - 1 : ℚ) < roundEven x := by linarith
    have : -n - 1 < roundEven x := by exact_mod_cast this
    omega
  · have : (roundEven x : ℚ) < n + 1 := by linarith
    have : roundEven x < n + 1 := by exact_mod_cast this
    omega

/-- The double nearest to a rational. -/
def ofRat (x : ℚ) : Binary64 where
  val := round x
  representable :=
    ⟨roundEven (x / ulp x), Int.log 2 |x| - 52,
      abs_roundEven_le (by exact_mod_cast abs_div_ulp_lt x), rfl⟩

/-! ### Integers -/

lemma round_of_div_ulp {x : ℚ} {k : ℤ} (h : x / ulp x = k) : round x = x := by
  rw [round, h, roundEven_intCast, ← h, div_mul_cancel₀ x (ulp_pos x).ne']

/-- An integer of at most 53 bits is its own rounding. -/
lemma round_intCast {n : ℤ} (h : |n| ≤ 2 ^ 53) : round n = n := by
  have habs : |(n : ℚ)| = n.natAbs := by rw [← Int.cast_abs, Int.abs_eq_natAbs, Int.cast_natCast]
  have hlog : Int.log 2 |(n : ℚ)| = Nat.log 2 n.natAbs := by rw [habs, Int.log_natCast]
  have hle : n.natAbs ≤ 2 ^ 53 := by
    rw [Int.abs_eq_natAbs] at h
    exact_mod_cast h
  rcases hle.lt_or_eq with hlt | heq
  · -- below 2 ^ 53 the last place is worth at most one
    have hlog_le : Nat.log 2 n.natAbs ≤ 52 :=
      Nat.lt_succ_iff.mp (Nat.log_lt_of_lt_pow' (by decide) hlt)
    obtain ⟨d, hd⟩ := Nat.exists_eq_add_of_le hlog_le
    have hulp : ulp n = ((2 : ℚ) ^ d)⁻¹ := by
      rw [ulp, hlog, ← zpow_natCast, ← zpow_neg]
      congr 1
      omega
    apply round_of_div_ulp (k := n * 2 ^ d)
    rw [hulp, div_inv_eq_mul]
    push_cast
    rfl
  · have hulp : ulp n = 2 := by
      rw [ulp, hlog, heq, Nat.log_pow (by decide)]
      norm_num
    rcases Int.natAbs_eq n with hn | hn
    · apply round_of_div_ulp (k := 2 ^ 52)
      rw [hulp, hn, heq]
      norm_num
    · apply round_of_div_ulp (k := -2 ^ 52)
      rw [hulp, hn, heq]
      norm_num

/-- Rounding a quotient of naturals does not move it across an integer: it is at least the
divisor's reciprocal away from the next one, and the error is smaller than that. -/
lemma floor_round_div {a b : ℕ} (ha : a < 2 ^ 53) (hb : 0 < b) :
    ⌊round ((a : ℚ) / b)⌋ = ((a / b : ℕ) : ℤ) := by
  have hbq : (0 : ℚ) < b := by exact_mod_cast hb
  have hdiv := Nat.div_add_mod a b
  have hmod : (a : ℚ) = b * (a / b : ℕ) + (a % b : ℕ) := by exact_mod_cast hdiv.symm
  have hmodlt := Nat.mod_lt a hb
  set k := a / b with hk
  by_cases hrem : a % b = 0
  · have hquot : (a : ℚ) / b = ((k : ℤ) : ℚ) := by
      rw [hmod, hrem]
      field_simp
      simp
    have hkle : |(k : ℤ)| ≤ 2 ^ 53 := by
      have := Nat.div_le_self a b
      rw [Nat.abs_cast]
      omega
    rw [hquot, round_intCast hkle, Int.floor_intCast]
  · have hpos : 0 < a := Nat.pos_of_ne_zero fun h => hrem (by rw [h, Nat.zero_mod])
    have hquot : (0 : ℚ) < (a : ℚ) / b := div_pos (by exact_mod_cast hpos) hbq
    have herr : |round ((a : ℚ) / b) - (a : ℚ) / b| < 1 / b := by
      have hulp := ulp_mul_le hquot.ne'
      have hround := abs_round_sub_le ((a : ℚ) / b)
      have haq : (a : ℚ) < 2 ^ 53 := by exact_mod_cast ha
      rw [abs_of_pos hquot] at hulp
      have hlt : (a : ℚ) / b < 2 ^ 53 * (1 / b) := by
        rw [mul_one_div]
        exact div_lt_div_of_pos_right haq hbq
      linarith
    have hlow : (k : ℚ) + 1 / b ≤ (a : ℚ) / b := by
      have : (b : ℚ) * k + 1 ≤ a := by exact_mod_cast (by omega : b * k + 1 ≤ a)
      rw [le_div_iff₀ hbq, add_mul, one_div_mul_cancel hbq.ne', mul_comm]
      exact this
    have hhigh : (a : ℚ) / b ≤ (k : ℚ) + 1 - 1 / b := by
      have : (a : ℚ) + 1 ≤ b * k + b := by exact_mod_cast (by omega : a + 1 ≤ b * k + b)
      rw [div_le_iff₀ hbq, sub_mul, add_mul, one_div_mul_cancel hbq.ne', mul_comm (k : ℚ), one_mul]
      linarith
    have habs := abs_lt.mp herr
    rw [Int.floor_eq_iff]
    push_cast
    constructor <;> linarith

/-! ### Operations -/

instance : Add Binary64 := ⟨fun a b => ofRat (a.val + b.val)⟩
instance : Sub Binary64 := ⟨fun a b => ofRat (a.val - b.val)⟩
instance : Div Binary64 := ⟨fun a b => ofRat (a.val / b.val)⟩
instance : LT Binary64 := ⟨fun a b => a.val < b.val⟩

instance (a b : Binary64) : Decidable (a < b) := inferInstanceAs (Decidable (a.val < b.val))

/-- The double is this integer. -/
def IsInt (a : Binary64) (n : ℤ) : Prop := a.val = n

lemma isInt_ofRat {n : ℤ} (h : |n| ≤ 2 ^ 53) : (ofRat n).IsInt n := round_intCast h

namespace IsInt

variable {a b : Binary64} {m n : ℤ}

lemma eq (ha : a.IsInt n) (hb : b.IsInt n) : a = b := by
  cases a
  cases b
  obtain rfl : _ = _ := ha.trans hb.symm
  rfl

lemma add (ha : a.IsInt m) (hb : b.IsInt n) (h : |m + n| ≤ 2 ^ 53) : (a + b).IsInt (m + n) := by
  change round (a.val + b.val) = _
  rw [ha, hb, ← Int.cast_add, round_intCast h]

lemma sub (ha : a.IsInt m) (hb : b.IsInt n) (h : |m - n| ≤ 2 ^ 53) : (a - b).IsInt (m - n) := by
  change round (a.val - b.val) = _
  rw [ha, hb, ← Int.cast_sub, round_intCast h]

lemma lt_iff (ha : a.IsInt m) (hb : b.IsInt n) : a < b ↔ m < n := by
  change a.val < b.val ↔ _
  rw [ha, hb, Int.cast_lt]

lemma ceil (ha : a.IsInt m) : ⌈a.val⌉ = m := by rw [ha, Int.ceil_intCast]

lemma roundEven (ha : a.IsInt m) : Binary64.roundEven a.val = m := by
  rw [ha, roundEven_intCast]

/-- The floor of a quotient of two exact naturals is the quotient in the naturals. -/
lemma floor_div {k l : ℕ} (ha : a.IsInt k) (hb : b.IsInt l) (hk : k < 2 ^ 53) (hl : 0 < l) :
    ⌊(a / b).val⌋ = ((k / l : ℕ) : ℤ) := by
  change ⌊round (a.val / b.val)⌋ = _
  rw [ha, hb, Int.cast_natCast, Int.cast_natCast, floor_round_div hk hl]

end IsInt

end Binary64

/-!
## The order of floating-point numbers

IEEE comparison is no order on all floats, because of `NaN`. On the others it is the order of a
rank: first the class from negative to positive infinity, then the exponent, then the mantissa.
-/

namespace FloatOrder

open Float.Model

/-- Where an unpacked float that is a number stands. -/
def unpackedRank : UnpackedFloat → ℤ ×ₗ ℤ ×ₗ ℤ
  | .infinity .negative     => toLex (-2, toLex (0, 0))
  | .finite .negative m e _ => toLex (-1, toLex (-e, -m))
  | .zero _ | .notANumber   => toLex (0, toLex (0, 0))
  | .finite .positive m e _ => toLex (1, toLex (e, m))
  | .infinity .positive     => toLex (2, toLex (0, 0))

lemma then_eq_lt {e f : ℤ} {m n : ℕ} :
    (compare e f).then (compare m n) = .lt ↔ e < f ∨ e = f ∧ m < n := by
  rw [Ordering.then_eq_lt, compare_lt_iff_lt, compare_eq_iff_eq, compare_lt_iff_lt]

lemma then_eq_gt {e f : ℤ} {m n : ℕ} :
    (compare e f).then (compare m n) = .gt ↔ f < e ∨ e = f ∧ n < m := by
  rw [Ordering.then_eq_gt, compare_gt_iff_gt, compare_eq_iff_eq, compare_gt_iff_gt]

/-- On numbers, comparing is comparing ranks. -/
lemma unpackedRank_lt {a b : UnpackedFloat} (ha : a.isNaN = false) (hb : b.isNaN = false) :
    unpackedRank a < unpackedRank b ↔ a.lt b = true := by
  cases a with
  | notANumber => cases ha
  | infinity s =>
    cases b with
    | notANumber => cases hb
    | infinity t => cases s <;> cases t <;> decide
    | zero t =>
      cases s <;> change toLex _ < toLex _ ↔ (some _ == some Ordering.lt) = true <;>
        simp [Prod.Lex.toLex_lt_toLex]
    | finite t n f _ =>
      cases s <;> cases t <;> change toLex _ < toLex _ ↔ (some _ == some Ordering.lt) = true <;>
        simp [Prod.Lex.toLex_lt_toLex]
  | zero s =>
    cases b with
    | notANumber => cases hb
    | zero t =>
      change toLex _ < toLex _ ↔ (some _ == some Ordering.lt) = true
      simp
    | infinity t | finite t n f _ =>
      cases t <;> change toLex _ < toLex _ ↔ (some _ == some Ordering.lt) = true <;>
        simp [Prod.Lex.toLex_lt_toLex]
  | finite s m e _ =>
    cases b with
    | notANumber => cases hb
    | zero t =>
      cases s <;> change toLex _ < toLex _ ↔ (some _ == some Ordering.lt) = true <;>
        simp [Prod.Lex.toLex_lt_toLex]
    | infinity t | finite t n f _ =>
      cases s <;> cases t <;> change toLex _ < toLex _ ↔ (some _ == some Ordering.lt) = true <;>
        simp [Prod.Lex.toLex_lt_toLex, then_eq_lt, then_eq_gt]

/-- Where a float that is a number stands. -/
def rank (x : Float) : ℤ ×ₗ ℤ ×ₗ ℤ := unpackedRank x.toModel.unpack

lemma rank_lt {x y : Float} (hx : x.isNaN = false) (hy : y.isNaN = false) :
    rank x < rank y ↔ x < y := by
  have h := unpackedRank_lt hx hy
  rw [rank, rank, h]
  change _ ↔ decide (Float.Model.lt _ _ = true) = true
  rw [decide_eq_true_iff]
  rfl

lemma isNaN_of_isFinite {x : Float} (h : x.isFinite = true) : x.isNaN = false := by
  have hmodel : x.toModel.unpack.isFinite = true := h
  change x.toModel.unpack.isNaN = false
  cases hx : x.toModel.unpack with
  | notANumber =>
    rw [hx] at hmodel
    cases hmodel
  | infinity s | zero s | finite s m e hm => rfl

end FloatOrder
