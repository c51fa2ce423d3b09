import Mathlib.Data.Int.Order.Basic
import Mathlib.Data.List.Basic
import Mathlib.Data.List.Induction
import Mathlib.Tactic.Common

/-!
# Decimal numerals of bounded machine integers

`toString` writes a natural number in decimal; `Decimal.parse` reads one back the way a bounded
unsigned type does: an optional sign, at least one digit, nothing but digits, and no value above
the bound. Writing then reading gives the number back, whatever white space is trimmed.
-/

namespace Decimal

/-- The code points with the Unicode property `White_Space`. -/
def isWhitespace (c : Char) : Bool :=
  let n := c.toNat
  (9 ≤ n && n ≤ 13) || n = 0x20 || n = 0x85 || n = 0xA0 || n = 0x1680 ||
    (0x2000 ≤ n && n ≤ 0x200A) || n = 0x2028 || n = 0x2029 || n = 0x202F || n = 0x205F ||
    n = 0x3000

/-- Drop the white space at both ends. -/
def trim (cs : List Char) : List Char :=
  ((cs.dropWhile isWhitespace).reverse.dropWhile isWhitespace).reverse

/-- The digits of an unsigned number, none above `bound`. -/
def parseDigits (bound : ℕ) (cs : List Char) : Option ℕ :=
  if cs ≠ [] ∧ cs.all Char.isDigit ∧ Nat.ofDigitChars 10 cs 0 ≤ bound then
    some (Nat.ofDigitChars 10 cs 0)
  else
    none

/-- An unsigned number with an optional `+`. -/
def parse (bound : ℕ) : List Char → Option ℕ
  | '+' :: cs => parseDigits bound cs
  | cs        => parseDigits bound cs

/-- A signed number with an optional sign, between `-(bound + 1)` and `bound`. -/
def parseSigned (bound : ℕ) : List Char → Option ℤ
  | '-' :: cs => (parseDigits (bound + 1) cs).map fun n => -(n : ℤ)
  | cs        => (parse bound cs).map fun n => (n : ℤ)

lemma toNat_of_isDigit {c : Char} (h : c.isDigit = true) : 48 ≤ c.toNat ∧ c.toNat ≤ 57 := by
  simp only [Char.isDigit, Bool.and_eq_true, decide_eq_true_eq] at h
  exact ⟨by simpa using UInt32.le_iff_toNat_le.mp h.1, by simpa using UInt32.le_iff_toNat_le.mp h.2⟩

lemma isWhitespace_of_isDigit {c : Char} (h : c.isDigit = true) : isWhitespace c = false := by
  have hc := toNat_of_isDigit h
  simp only [isWhitespace, Bool.or_eq_false_iff, Bool.and_eq_false_iff, decide_eq_false_iff_not]
  omega

lemma dropWhile_of_isDigit {cs : List Char} (h : ∀ c ∈ cs, c.isDigit = true) :
    cs.dropWhile isWhitespace = cs := by
  cases cs with
  | nil => rfl
  | cons c cs =>
    have hc := isWhitespace_of_isDigit (h c List.mem_cons_self)
    simp [hc]

/-- Digits carry no white space to trim. -/
lemma trim_of_isDigit {cs : List Char} (h : ∀ c ∈ cs, c.isDigit = true) : trim cs = cs := by
  rw [trim, dropWhile_of_isDigit h,
    dropWhile_of_isDigit fun c hc => h c (List.mem_reverse.mp hc), List.reverse_reverse]

lemma isDigit_of_mem_toString {n : ℕ} {c : Char} (h : c ∈ (toString n).toList) :
    c.isDigit = true := by
  rw [Nat.toString_eq_repr, Nat.toList_repr] at h
  exact Nat.isDigit_of_mem_toDigits (by decide) (by decide) h

lemma parse_of_isDigit {bound : ℕ} {cs : List Char} (h : ∀ c ∈ cs, c.isDigit = true) :
    parse bound cs = parseDigits bound cs := by
  match cs with
  | [] => rfl
  | c :: cs =>
    have hc : c ≠ '+' := by
      rintro rfl
      exact absurd (h '+' List.mem_cons_self) (by decide)
    unfold parse
    split
    · rename_i heq
      exact absurd (List.cons.inj heq).1 hc
    · rfl

/-- A digit is the one that is written for its value. -/
lemma digitChar_toNat {c : Char} (h : c.isDigit = true) :
    (c.toNat - '0'.toNat) < 10 ∧ (c.toNat - '0'.toNat).digitChar = c := by
  have hc := toNat_of_isDigit h
  have hlt : c.toNat - '0'.toNat < 10 := by
    change c.toNat - 48 < 10
    omega
  refine ⟨hlt, ?_⟩
  obtain ⟨d, hd, hcd⟩ : ∃ d, d < 10 ∧ c.toNat = 48 + d := ⟨c.toNat - 48, hlt, by omega⟩
  have hof : c = Char.ofNat (48 + d) := by rw [← hcd, Char.ofNat_toNat]
  rw [hof]
  clear hof hcd hlt hc
  revert d
  decide

/-- A numeral without a zero in front is the one that is written for its value. -/
lemma toDigits_ofDigitChars {cs : List Char} (hdigit : ∀ c ∈ cs, c.isDigit = true) (hne : cs ≠ [])
    (hlead : cs.head? = some '0' → cs.length = 1) :
    Nat.toDigits 10 (Nat.ofDigitChars 10 cs 0) = cs := by
  induction cs using List.reverseRecOn with
  | nil => exact absurd rfl hne
  | append_singleton cs c ih =>
    obtain ⟨hd, hc⟩ := digitChar_toNat (hdigit c (by simp))
    rw [Nat.ofDigitChars_append, Nat.ofDigitChars_cons, Nat.ofDigitChars_nil]
    by_cases hcs : cs = []
    · subst hcs
      rw [Nat.ofDigitChars_nil, Nat.mul_zero, Nat.zero_add, Nat.toDigits_of_lt_base hd, hc]
      rfl
    · have hhead : cs.head? ≠ some '0' := by
        intro h
        have hlength := hlead (by rw [List.head?_append, h]; rfl)
        rw [List.length_append, List.length_singleton] at hlength
        exact hcs (List.eq_nil_of_length_eq_zero (by omega))
      have ih := ih (fun c hc => hdigit c (List.mem_append_left _ hc)) hcs fun h => absurd h hhead
      have hpos : 0 < Nat.ofDigitChars 10 cs 0 := by
        refine Nat.pos_of_ne_zero fun hzero => hhead ?_
        rw [← ih, hzero, Nat.toDigits_zero]
        rfl
      rw [← Nat.toDigits_append_toDigits (by decide) hpos hd, ih, Nat.toDigits_of_lt_base hd, hc]

lemma toString_ne_nil (n : ℕ) : (toString n).toList ≠ [] := by
  rw [Nat.toString_eq_repr, Nat.toList_repr]
  exact Nat.toDigits_ne_nil

lemma ofDigitChars_toString (n : ℕ) : Nat.ofDigitChars 10 (toString n).toList 0 = n := by
  rw [Nat.toString_eq_repr, Nat.toList_repr, Nat.ofDigitChars_ten_toDigits]

lemma toString_injective {m n : ℕ} (h : toString m = toString n) : m = n := by
  rw [← ofDigitChars_toString m, h, ofDigitChars_toString]

/-- What `toString` writes, trimming and parsing read back. -/
theorem parse_trim_toString {bound n : ℕ} (h : n ≤ bound) :
    parse bound (trim (toString n).toList) = some n := by
  have hdigit : ∀ c ∈ (toString n).toList, c.isDigit = true := fun c => isDigit_of_mem_toString
  rw [trim_of_isDigit hdigit, parse_of_isDigit hdigit, parseDigits]
  have hall : (toString n).toList.all Char.isDigit = true := List.all_eq_true.mpr hdigit
  rw [ofDigitChars_toString, if_pos ⟨toString_ne_nil n, hall, h⟩]

/-- Text without white space is left as it is. -/
lemma trim_of_forall {cs : List Char} (h : ∀ c ∈ cs, isWhitespace c = false) : trim cs = cs := by
  have hdrop : ∀ cs : List Char, (∀ c ∈ cs, isWhitespace c = false) →
      cs.dropWhile isWhitespace = cs := by
    intro cs h
    cases cs with
    | nil => rfl
    | cons c cs => rw [List.dropWhile_cons_of_neg (by simp [h c List.mem_cons_self])]
  rw [trim, hdrop cs h, hdrop _ fun c hc => h c (List.mem_reverse.mp hc), List.reverse_reverse]

end Decimal
