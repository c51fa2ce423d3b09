import Mathlib.Algebra.Order.Field.Power
import Mathlib.Data.Rat.Cast.Order
import Mathlib.Tactic.FieldSimp
import Mathlib.Tactic.Linarith
import Mathlib.Tactic.Ring

/-!
# Decimals and binary fractions of bounded precision

A decimal of precision `p` and scale `s` is an integer of at most `p` digits over `10 ^ s`. The
decimals of one precision and scale are among those of another exactly when neither the digits
behind the point nor those before it are fewer there.
-/

namespace FixedPoint

/-- A decimal of at most `p` digits, `s` of which are behind the point. -/
def Fits (p s : ℕ) (q : ℚ) : Prop := ∃ m : ℤ, |m| < 10 ^ p ∧ q = m / 10 ^ s

/-- A binary fraction of at most `bits` significant bits. -/
def Representable (bits : ℕ) (lowest highest : ℤ) (q : ℚ) : Prop :=
  ∃ m e : ℤ, |m| < 2 ^ bits ∧ lowest ≤ e ∧ e ≤ highest ∧ q = m * (2 : ℚ) ^ e

variable {p s p' s' : ℕ} {q : ℚ}

lemma Fits.mono (hs : s ≤ s') (hdigits : p + s' ≤ p' + s) (h : Fits p s q) : Fits p' s' q := by
  obtain ⟨m, hm, rfl⟩ := h
  refine ⟨m * 10 ^ (s' - s), ?_, ?_⟩
  · have hpos : (0 : ℤ) < 10 ^ (s' - s) := pow_pos (by norm_num) _
    calc |m * 10 ^ (s' - s)| = |m| * 10 ^ (s' - s) := by rw [abs_mul, abs_of_pos hpos]
      _ < 10 ^ p * 10 ^ (s' - s) := mul_lt_mul_of_pos_right hm hpos
      _ = 10 ^ (p + (s' - s)) := (pow_add _ _ _).symm
      _ ≤ 10 ^ p' := pow_le_pow_right₀ (by norm_num) (by omega)
  · have hpow : (10 : ℚ) ^ s' = 10 ^ (s' - s) * 10 ^ s := by rw [← pow_add, Nat.sub_add_cancel hs]
    push_cast
    rw [hpow]
    field_simp

/-- Without any digit there is zero only. -/
lemma Fits.of_zero (h : Fits 0 s q) : Fits p' s' q := by
  obtain ⟨m, hm, rfl⟩ := h
  obtain rfl : m = 0 := Int.abs_lt_one_iff.mp hm
  refine ⟨0, ?_, by simp⟩
  rw [abs_zero]
  exact pow_pos (by norm_num) _

/-- The largest decimal of a precision and a scale. -/
lemma fits_max (p s : ℕ) : Fits p s (((10 ^ p - 1 : ℤ) : ℚ) / 10 ^ s) := by
  refine ⟨10 ^ p - 1, ?_, rfl⟩
  have hpos : (0 : ℤ) < 10 ^ p := pow_pos (by norm_num) _
  rw [abs_of_nonneg (by linarith)]
  linarith

/-- The largest decimal needs its digits behind the point and those before it. -/
lemma le_of_fits_max (hp : 0 < p) (h : Fits p' s' (((10 ^ p - 1 : ℤ) : ℚ) / 10 ^ s)) :
    s ≤ s' ∧ p + s' ≤ p' + s := by
  obtain ⟨m, hm, heq⟩ := h
  obtain ⟨p, rfl⟩ := Nat.exists_eq_add_of_lt hp
  rw [Nat.zero_add] at heq ⊢
  have hcross : ((10 : ℤ) ^ (p + 1) - 1) * 10 ^ s' = m * 10 ^ s := by
    rw [div_eq_div_iff (by positivity) (by positivity)] at heq
    exact_mod_cast heq
  have hs : s ≤ s' := by
    by_contra hlt
    obtain ⟨k, rfl⟩ := Nat.exists_eq_add_of_lt (Nat.lt_of_not_le hlt)
    have hshift : (10 : ℤ) ^ (p + 1) - 1 = m * 10 ^ (k + 1) := by
      have hpos : (10 : ℤ) ^ s' ≠ 0 := pow_ne_zero _ (by norm_num)
      refine mul_right_cancel₀ hpos (hcross.trans ?_)
      ring
    have hone : (1 : ℤ) = 10 * (10 ^ p - m * 10 ^ k) := by
      rw [pow_succ, pow_succ] at hshift
      linarith
    omega
  refine ⟨hs, ?_⟩
  obtain ⟨k, rfl⟩ := Nat.exists_eq_add_of_le hs
  have hm' : m = (10 ^ (p + 1) - 1) * 10 ^ k := by
    have hpos : (10 : ℤ) ^ s ≠ 0 := pow_ne_zero _ (by norm_num)
    refine mul_right_cancel₀ hpos (hcross.symm.trans ?_)
    ring
  have hten : (1 : ℤ) ≤ 10 ^ p := one_le_pow₀ (by norm_num)
  have hlower : (10 : ℤ) ^ (p + k) ≤ m := by
    rw [hm', pow_add]
    refine mul_le_mul_of_nonneg_right ?_ (pow_nonneg (by norm_num) _)
    rw [pow_succ]
    linarith
  have hlt : (10 : ℤ) ^ (p + k) < 10 ^ p' := hlower.trans_lt ((le_abs_self m).trans_lt hm)
  have := (pow_lt_pow_iff_right₀ (by norm_num : (1 : ℤ) < 10)).mp hlt
  omega

/-- When the decimals of one precision and scale are among those of another. -/
theorem forall_fits_iff (hp : 0 < p) :
    (∀ q, Fits p s q → Fits p' s' q) ↔ s ≤ s' ∧ p + s' ≤ p' + s :=
  ⟨fun h => le_of_fits_max hp (h _ (fits_max p s)), fun ⟨hs, hdigits⟩ _ h => h.mono hs hdigits⟩

/-- A wider format has every number of a narrower one. -/
lemma Representable.mono {bits bits' : ℕ} {lowest lowest' highest highest' : ℤ}
    (hbits : bits ≤ bits') (hlowest : lowest' ≤ lowest) (hhighest : highest ≤ highest')
    (h : Representable bits lowest highest q) : Representable bits' lowest' highest' q := by
  obtain ⟨m, e, hm, hlow, hhigh, rfl⟩ := h
  exact ⟨m, e, hm.trans_le (pow_le_pow_right₀ (by norm_num) hbits), hlowest.trans hlow,
    hhigh.trans hhighest, rfl⟩

end FixedPoint
