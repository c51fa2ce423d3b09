import Mathlib.Algebra.Order.Monoid.Defs
import Mathlib.Algebra.Order.Group.Nat
import Mathlib.Algebra.Order.Ring.Nat
import Mathlib.Tactic.Linarith
import Mathlib.Tactic.Abel

/-!
# The generic cell rate algorithm

The state is one theoretical arrival time. A request at time `t` is admitted when the arrival
time, brought up to `t` and pushed forward by the emission interval `e`, is no more than the
tolerance `τ` ahead of `t`; an admitted request moves the state there, a refused one leaves it.

`length_admitted_nsmul_le` bounds what any arrival sequence can get through a window, and
`admitted_greedy` shows that the bound is reached.
-/

namespace Gcra

section Bound

variable {α : Type*} [AddCommMonoid α] [LinearOrder α]

/-- The arrival time after one more request at `t`, were it admitted. -/
def bump (e tat t : α) : α := max tat t + e

/-- The times, out of the arrival sequence, at which a request is admitted. -/
def admitted (e τ : α) : α → List α → List α
  | _,   []      => []
  | tat, t :: ts =>
    if bump e tat t ≤ t + τ then t :: admitted e τ (bump e tat t) ts else admitted e τ tat ts

lemma admitted_cons_of_le {e τ tat t : α} {ts : List α} (h : bump e tat t ≤ t + τ) :
    admitted e τ tat (t :: ts) = t :: admitted e τ (bump e tat t) ts := if_pos h

lemma admitted_cons_of_not_le {e τ tat t : α} {ts : List α} (h : ¬ bump e tat t ≤ t + τ) :
    admitted e τ tat (t :: ts) = admitted e τ tat ts := if_neg h

/-- The times among `ts` that lie in the closed window from `s` to `u`. -/
def inWindow (s u : α) (ts : List α) : List α := ts.filter fun t => s ≤ t ∧ t ≤ u

variable [IsOrderedCancelAddMonoid α]

lemma le_bump {e tat t : α} (he : 0 ≤ e) : tat ≤ bump e tat t :=
  (le_max_left tat t).trans (le_add_of_nonneg_right he)

/-- Each admitted request in the window pushes the arrival time on by `e`, and the last of them
leaves it at most `τ` after the end of the window. -/
lemma nsmul_add_max_le {e τ : α} (he : 0 ≤ e) (s u : α) (ts : List α) (tat : α)
    (hne : (inWindow s u (admitted e τ tat ts)).length ≠ 0) :
    (inWindow s u (admitted e τ tat ts)).length • e + max tat s ≤ u + τ := by
  induction ts generalizing tat with
  | nil => exact absurd rfl hne
  | cons t ts ih =>
    by_cases hadm : bump e tat t ≤ t + τ
    · rw [admitted_cons_of_le hadm] at hne ⊢
      by_cases hin : s ≤ t ∧ t ≤ u
      · have hcons : inWindow s u (t :: admitted e τ (bump e tat t) ts) =
            t :: inWindow s u (admitted e τ (bump e tat t) ts) := by
          simp [inWindow, hin]
        have hmax : max tat s + e ≤ bump e tat t :=
          add_le_add_left (max_le_max_left tat hin.1) e
        rw [hcons, List.length_cons, succ_nsmul]
        by_cases hrest : (inWindow s u (admitted e τ (bump e tat t) ts)).length = 0
        · calc
            _ = max tat s + e := by rw [hrest, zero_nsmul, zero_add, add_comm]
            _ ≤ t + τ := hmax.trans hadm
            _ ≤ u + τ := add_le_add_left hin.2 τ
        · calc
            _ = (inWindow s u (admitted e τ (bump e tat t) ts)).length • e + (max tat s + e) := by
              abel
            _ ≤ (inWindow s u (admitted e τ (bump e tat t) ts)).length • e
                  + max (bump e tat t) s :=
              add_le_add_right (hmax.trans (le_max_left _ _)) _
            _ ≤ u + τ := ih _ hrest
      · have hskip : inWindow s u (t :: admitted e τ (bump e tat t) ts) =
            inWindow s u (admitted e τ (bump e tat t) ts) := by
          simp [inWindow, hin]
        rw [hskip] at hne ⊢
        refine le_trans (add_le_add_right ?_ _) (ih _ hne)
        exact max_le_max_right s (le_bump he)
    · rw [admitted_cons_of_not_le hadm] at hne ⊢
      exact ih tat hne

/-- No arrival sequence gets more than `(W + τ) / e` requests through a window of length `W`. -/
theorem length_admitted_nsmul_le {e τ : α} (he : 0 ≤ e)
    (s W : α) (hW : 0 ≤ W + τ) (ts : List α) (tat : α) :
    (inWindow s (s + W) (admitted e τ tat ts)).length • e ≤ W + τ := by
  by_cases hne : (inWindow s (s + W) (admitted e τ tat ts)).length = 0
  · rw [hne, zero_nsmul]
    exact hW
  · have h := nsmul_add_max_le he s (s + W) ts tat hne
    have hs : s + (inWindow s (s + W) (admitted e τ tat ts)).length • e ≤ s + (W + τ) := by
      calc
        _ ≤ max tat s + (inWindow s (s + W) (admitted e τ tat ts)).length • e :=
          add_le_add_left (le_max_right _ _) _
        _ ≤ s + (W + τ) := by rw [add_comm, ← add_assoc]; exact h
    exact le_of_add_le_add_left hs

end Bound

section Greedy

variable (e τ s : ℕ)

/-- The earliest time at which the `k`-th request of a client that starts at `s`, on an idle
bucket, is admitted. -/
def greedyTime (k : ℕ) : ℕ := s + ((k + 1) * e - τ)

/-- The first `n` requests of a client that sends each one as early as it is admitted. -/
def greedy (n : ℕ) : List ℕ := (List.range n).map (greedyTime e τ s)

variable {e τ s}

lemma greedyTime_mono {k l : ℕ} (h : k ≤ l) : greedyTime e τ s k ≤ greedyTime e τ s l :=
  Nat.add_le_add_left (Nat.sub_le_sub_right (Nat.mul_le_mul_right e (by omega)) τ) s

lemma bump_greedyTime (h : e ≤ τ) (k : ℕ) :
    bump e (s + k * e) (greedyTime e τ s k) = s + (k + 1) * e := by
  have hle : greedyTime e τ s k ≤ s + k * e := by
    unfold greedyTime
    rw [Nat.add_mul]
    omega
  rw [bump, max_eq_left hle, Nat.add_mul, Nat.one_mul, Nat.add_assoc]

lemma admitted_greedy_from (h : e ≤ τ) (n k : ℕ) :
    admitted e τ (s + k * e) ((List.range' k n).map (greedyTime e τ s)) =
      (List.range' k n).map (greedyTime e τ s) := by
  induction n generalizing k with
  | zero => rfl
  | succ n ih =>
    have hadm : bump e (s + k * e) (greedyTime e τ s k) ≤ greedyTime e τ s k + τ := by
      rw [bump_greedyTime h, greedyTime]
      omega
    rw [List.range'_succ, List.map_cons, admitted_cons_of_le hadm, bump_greedyTime h, ih]

/-- An idle bucket behaves as one whose arrival time is the present. -/
lemma admitted_of_le_head {tat t : ℕ} (h : tat ≤ t) (ts : List ℕ) :
    admitted e τ tat (t :: ts) = admitted e τ t (t :: ts) ∨ τ < e := by
  by_cases hadm : e ≤ τ
  · left
    have htat : bump e tat t = t + e := by rw [bump, max_eq_right h]
    have ht : bump e t t = t + e := by rw [bump, max_self]
    rw [admitted_cons_of_le (by rw [htat]; omega), admitted_cons_of_le (by rw [ht]; omega),
      htat, ht]
  · right
    omega

/-- Every request of the greedy client is admitted. -/
theorem admitted_greedy (h : e ≤ τ) (n : ℕ) :
    admitted e τ 0 (greedy e τ s n) = greedy e τ s n := by
  have hfrom := admitted_greedy_from (s := s) h n 0
  rw [Nat.zero_mul, Nat.add_zero, ← List.range_eq_range'] at hfrom
  cases n with
  | zero => rfl
  | succ n =>
    have hhead : greedy e τ s (n + 1) = s :: ((List.range' 1 n).map (greedyTime e τ s)) := by
      have h₀ : greedyTime e τ s 0 = s := by
        unfold greedyTime
        omega
      rw [greedy, List.range_eq_range', List.range'_succ, List.map_cons, h₀]
    rw [greedy] at hhead ⊢
    rcases admitted_of_le_head (Nat.zero_le s) ((List.range' 1 n).map (greedyTime e τ s))
      with heq | hlt
    · rw [hhead] at hfrom ⊢
      exact heq.trans hfrom
    · omega

lemma greedy_pairwise (n : ℕ) : (greedy e τ s n).Pairwise (· ≤ ·) := by
  rw [greedy, List.pairwise_map]
  exact List.pairwise_lt_range.imp fun h => greedyTime_mono h.le

lemma mem_greedy_bounds {n t W : ℕ} (hn : n * e ≤ W + τ) (ht : t ∈ greedy e τ s n) :
    s ≤ t ∧ t ≤ s + W := by
  obtain ⟨k, hk, rfl⟩ := List.mem_map.mp ht
  have : (k + 1) * e ≤ n * e := Nat.mul_le_mul_right e (List.mem_range.mp hk)
  unfold greedyTime
  omega

lemma inWindow_greedy {n W : ℕ} (hn : n * e ≤ W + τ) :
    inWindow s (s + W) (greedy e τ s n) = greedy e τ s n := by
  refine List.filter_eq_self.mpr fun t ht => ?_
  simpa using mem_greedy_bounds hn ht

@[simp] lemma length_greedy (n : ℕ) : (greedy e τ s n).length = n := by
  simp [greedy]

end Greedy

end Gcra
