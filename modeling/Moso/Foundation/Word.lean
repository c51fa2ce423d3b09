import Mathlib.Algebra.Group.Int.Defs
import Mathlib.Algebra.Group.Nat.Defs
import Mathlib.Data.Int.Order.Basic
import Mathlib.Data.Nat.Basic

/-!
# Machine words

Bounds of the fixed-width integers and the saturating operations on `u64`. A word is a natural
number (or an integer) that the operations keep below its bound.
-/

namespace Moso

/-- `u32::MAX`. -/
def u32Max : ℕ := 2 ^ 32 - 1

/-- `u64::MAX`. -/
def u64Max : ℕ := 2 ^ 64 - 1

/-- `i64::MAX`. -/
def i64Max : ℤ := 2 ^ 63 - 1

/-- `i64::MIN`. -/
def i64Min : ℤ := -2 ^ 63

/-- `u64::saturating_add`. -/
def saturatingAdd (a b : ℕ) : ℕ := min u64Max (a + b)

/-- `u64::saturating_mul`. -/
def saturatingMul (a b : ℕ) : ℕ := min u64Max (a * b)

lemma saturatingAdd_eq {a b : ℕ} (h : a + b ≤ u64Max) : saturatingAdd a b = a + b :=
  min_eq_right h

end Moso
