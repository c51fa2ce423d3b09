import Moso.Foundation.Text
import Mathlib.Algebra.Group.Nat.Defs

/-!
# Signed numerals with a fraction

A numeral is an optional sign, digits and an optional fraction. The sign applies to the whole of
it, and the fraction is part of it: it denotes an integer and the number of digits behind the
point. Numbers are written with a sign only if they are negative, and padded with zeros.
-/

namespace Numeral

/-- The digits of a number, with zeros in front up to a width. -/
def padded (width n : ℕ) : List Char := (Nat.toDigits 10 n).leftpad width '0'

/-- An integer: a sign only if it is negative. -/
def signed (n : ℤ) : List Char :=
  if n < 0 then '-' :: Nat.toDigits 10 n.natAbs else Nat.toDigits 10 n.natAbs

/-- The digits of an integer with zeros up to a width, in which the sign counts. -/
def signedPadded (width : ℕ) (n : ℤ) : List Char :=
  if n < 0 then '-' :: padded (width - 1) n.natAbs else padded width n.natAbs

/-- Digits and nothing else, at least one of them. -/
def readDigits (cs : List Char) : Option ℕ :=
  if cs ≠ [] ∧ cs.all Char.isDigit then some (Nat.ofDigitChars 10 cs 0) else none

/-- Digits with or without a fraction: the number that all of them are, and how many of them stand
behind the point. -/
def readUnsigned (cs : List Char) : Option (ℕ × ℕ) :=
  match Text.splitOnce '.' cs with
  | none => (readDigits cs).map fun n => (n, 0)
  | some (integer, fraction) =>
    if integer ≠ [] ∧ fraction ≠ [] then
      (readDigits (integer ++ fraction)).map fun n => (n, fraction.length)
    else none

/-- A numeral, to which its sign applies as a whole. -/
def readNumber : List Char → Option (ℤ × ℕ)
  | '-' :: cs => (readUnsigned cs).map fun n => (-(n.1 : ℤ), n.2)
  | '+' :: cs => (readUnsigned cs).map fun n => ((n.1 : ℤ), n.2)
  | cs        => (readUnsigned cs).map fun n => ((n.1 : ℤ), n.2)

variable {n width : ℕ} {m : ℤ} {cs integer fraction : List Char}

/-! ### Digits -/

lemma isDigit_toDigits {c : Char} (h : c ∈ Nat.toDigits 10 n) : c.isDigit = true :=
  Nat.isDigit_of_mem_toDigits (by decide) (by decide) h

lemma isDigit_padded {c : Char} (h : c ∈ padded width n) : c.isDigit = true := by
  unfold padded List.leftpad at h
  rcases List.mem_append.mp h with h | h
  · rw [(List.mem_replicate.mp h).2]
    rfl
  · exact isDigit_toDigits h

lemma padded_ne_nil : padded width n ≠ [] := by
  unfold padded List.leftpad
  simp [Nat.toDigits_ne_nil]

lemma length_padded : width ≤ (padded width n).length := by
  unfold padded
  rw [List.length_leftpad]
  exact Nat.le_max_left _ _

lemma length_padded_of_lt (h : n < 10 ^ width) (hpos : 0 < width) :
    (padded width n).length = width := by
  unfold padded
  rw [List.length_leftpad]
  exact Nat.max_eq_left ((Nat.length_toDigits_le_iff (by decide) hpos).mpr h)

@[simp] lemma ofDigitChars_padded : Nat.ofDigitChars 10 (padded width n) 0 = n := by
  unfold padded List.leftpad
  rw [Nat.ofDigitChars_append, Nat.ofDigitChars_replicate_zero, Nat.mul_zero,
    Nat.ofDigitChars_ten_toDigits]

/-- More digits make a number no smaller. -/
lemma le_ofDigitChars (cs : List Char) (n : ℕ) : n ≤ Nat.ofDigitChars 10 cs n := by
  induction cs generalizing n with
  | nil => rw [Nat.ofDigitChars_nil]
  | cons c cs ih =>
    rw [Nat.ofDigitChars_cons]
    refine le_trans ?_ (ih _)
    omega

lemma readDigits_eq (hne : cs ≠ []) (h : ∀ c ∈ cs, c.isDigit = true) :
    readDigits cs = some (Nat.ofDigitChars 10 cs 0) :=
  if_pos ⟨hne, List.all_eq_true.mpr h⟩

@[simp] lemma readDigits_padded : readDigits (padded width n) = some n := by
  rw [readDigits_eq padded_ne_nil fun c => isDigit_padded, ofDigitChars_padded]

lemma notMem_of_isDigit {c : Char} (hc : c.isDigit = false) (h : ∀ d ∈ cs, d.isDigit = true) :
    c ∉ cs := fun hmem => by
  rw [h c hmem] at hc
  cases hc

/-! ### Numerals -/

lemma readUnsigned_of_isDigit (hne : cs ≠ []) (h : ∀ c ∈ cs, c.isDigit = true) :
    readUnsigned cs = some (Nat.ofDigitChars 10 cs 0, 0) := by
  rw [readUnsigned, Text.splitOnce_eq_none (notMem_of_isDigit rfl h)]
  dsimp only
  rw [readDigits_eq hne h, Option.map_some]

lemma readUnsigned_append (hinteger : integer ≠ []) (hfraction : fraction ≠ [])
    (hi : ∀ c ∈ integer, c.isDigit = true) (hf : ∀ c ∈ fraction, c.isDigit = true) :
    readUnsigned (integer ++ '.' :: fraction) =
      some (Nat.ofDigitChars 10 (integer ++ fraction) 0, fraction.length) := by
  rw [readUnsigned, Text.splitOnce_append fraction (notMem_of_isDigit rfl hi)]
  dsimp only
  rw [if_pos ⟨hinteger, hfraction⟩, readDigits_eq (by simp [hinteger]), Option.map_some]
  intro c hc
  exact (List.mem_append.mp hc).elim (hi c) (hf c)

/-- Without a sign of its own a numeral is unsigned. -/
lemma readNumber_of_isDigit (hne : integer ≠ []) (hi : ∀ c ∈ integer, c.isDigit = true)
    (cs : List Char) : readNumber (integer ++ cs) =
      (readUnsigned (integer ++ cs)).map fun n => ((n.1 : ℤ), n.2) := by
  obtain ⟨c, integer, rfl⟩ := List.exists_cons_of_ne_nil hne
  have hc := hi c List.mem_cons_self
  rw [List.cons_append]
  unfold readNumber
  split
  · rename_i heq
    rw [(List.cons.inj heq).1] at hc
    cases hc
  · rename_i heq
    rw [(List.cons.inj heq).1] at hc
    cases hc
  · rfl

lemma readNumber_neg (cs : List Char) : readNumber ('-' :: cs) =
    (readUnsigned cs).map fun n => (-(n.1 : ℤ), n.2) := rfl

/-- An integer is read back. -/
lemma readNumber_signed (m : ℤ) : readNumber (signed m) = some (m, 0) := by
  have hdigit : ∀ c ∈ Nat.toDigits 10 m.natAbs, c.isDigit = true := fun c => isDigit_toDigits
  have hunsigned := readUnsigned_of_isDigit Nat.toDigits_ne_nil hdigit
  rw [Nat.ofDigitChars_ten_toDigits] at hunsigned
  unfold signed
  split_ifs with h
  · rw [readNumber_neg, hunsigned, Option.map_some, Option.some.injEq, Prod.mk.injEq]
    omega
  · rw [← List.append_nil (Nat.toDigits 10 m.natAbs),
      readNumber_of_isDigit Nat.toDigits_ne_nil hdigit, List.append_nil, hunsigned,
      Option.map_some, Option.some.injEq, Prod.mk.injEq]
    omega

/-- Digits with a fraction, which the sign in front of them applies to. -/
lemma readNumber_append (negative : Bool) (hinteger : integer ≠ []) (hfraction : fraction ≠ [])
    (hi : ∀ c ∈ integer, c.isDigit = true) (hf : ∀ c ∈ fraction, c.isDigit = true) :
    readNumber ((if negative then ['-'] else []) ++ (integer ++ '.' :: fraction)) =
      some (if negative then -(Nat.ofDigitChars 10 (integer ++ fraction) 0 : ℤ)
        else Nat.ofDigitChars 10 (integer ++ fraction) 0, fraction.length) := by
  have hunsigned := readUnsigned_append hinteger hfraction hi hf
  cases negative with
  | true =>
    rw [if_pos rfl, if_pos rfl, List.singleton_append, readNumber_neg, hunsigned]
    rfl
  | false =>
    rw [if_neg Bool.false_ne_true, if_neg Bool.false_ne_true, List.nil_append,
      readNumber_of_isDigit hinteger hi, hunsigned]
    rfl

lemma notMem_signed {c : Char} (hc : c.isDigit = false) (hminus : c ≠ '-') (m : ℤ) :
    c ∉ signed m := by
  have hdigits := notMem_of_isDigit hc fun d => isDigit_toDigits (n := m.natAbs) (c := d)
  unfold signed
  split_ifs <;> simp [hdigits, hminus]

lemma signed_eq (m : ℤ) :
    signed m = (if decide (m < 0) then ['-'] else []) ++ Nat.toDigits 10 m.natAbs := by
  unfold signed
  by_cases h : m < 0
  · rw [if_pos h, decide_eq_true h, if_pos rfl]
    rfl
  · rw [if_neg h, decide_eq_false h, if_neg Bool.false_ne_true]
    rfl

/-- The digits of an integer with those of a fraction behind them. -/
lemma ofDigitChars_append_padded (hn : n < 10 ^ width) (hpos : 0 < width) (k : ℕ) :
    Nat.ofDigitChars 10 (Nat.toDigits 10 k ++ padded width n) 0 = k * 10 ^ width + n := by
  rw [Nat.ofDigitChars_append, Nat.ofDigitChars_ten_toDigits, Nat.ofDigitChars_eq_ofDigitChars_zero,
    length_padded_of_lt hn hpos, ofDigitChars_padded, Nat.mul_comm]

/-- An integer with a fraction is read with the integer's sign. -/
lemma readNumber_signed_append (hn : n < 10 ^ width) (hpos : 0 < width) (m : ℤ) :
    readNumber (signed m ++ '.' :: padded width n) =
      some (if m < 0 then -((m.natAbs * 10 ^ width + n : ℕ) : ℤ)
        else (m.natAbs * 10 ^ width + n : ℕ), width) := by
  rw [signed_eq, List.append_assoc, readNumber_append _ Nat.toDigits_ne_nil padded_ne_nil
    (fun c => isDigit_toDigits) (fun c => isDigit_padded), ofDigitChars_append_padded hn hpos,
    length_padded_of_lt hn hpos]
  simp only [decide_eq_true_eq]

end Numeral
