import Moso.Foundation.FixedPoint
import Moso.Foundation.Json
import Moso.Sql.DataType
import Mathlib.Data.FinEnum

/-!
# Which type changes lose no data

The values of a type are those of PostgreSQL, whose names the types have. A value keeps its identity
when it is converted to a type that has it too; otherwise the conversion fails, or it cuts or rounds
the value. `NULL` is a value of every type and is left out.
-/

namespace Moso.Migrate

open FixedPoint (Fits Representable fits_max le_of_fits_max)
open Sql (DataType)

/-- The order of scales: a missing one is below every other. -/
def scaleLt : Option UInt8 → Option UInt8 → Bool
  | none, some _ => true
  | some a, some b => a < b
  | _, none => false

/-- The digits behind the point: without a scale there is none. -/
def digitsOf (scale : Option UInt8) : ℕ := (scale.map UInt8.toNat).getD 0

-- lengths are never enumerated
attribute [-instance] FinEnum.instUInt8 FinEnum.instUInt32

/-- Whether replacing `from_` with `to_` can lose data. -/
def isLossy (from_ to_ : DataType) : Bool :=
  if from_ = to_ then false
  else match from_, to_ with
  -- widening within a family
  | .smallInt, .integer | .smallInt, .bigInt | .integer, .bigInt | .real, .doublePrecision
  | .json, .jsonB | .char _, .text | .varChar _, .text => false
  | .varChar (some from_), .varChar (some to_) | .char (some from_), .char (some to_)
  | .varChar (some from_), .char (some to_) | .char (some from_), .varChar (some to_) => to_ < from_
  | .varChar none, .varChar (some _) | .char none, .varChar (some _) | .text, .varChar _
  | .text, .char _ => true
  | .numeric (some fromPrecision) fromScale, .numeric (some toPrecision) toScale =>
    toPrecision < fromPrecision || scaleLt toScale fromScale
  | .numeric none _, .numeric (some _) _ => true
  | .array from_, .array to_ => isLossy from_ to_
  -- a serial is its base integer
  | .smallSerial, .smallInt | .serial, .integer | .bigSerial, .bigInt | .smallInt, .smallSerial
  | .integer, .serial | .bigInt, .bigSerial => false
  | _, _ => true

/-! ### The values of a type -/

/-- A number that need not be finite. -/
inductive Number where
  | nan
  | infinity (negative : Bool)
  /-- The zero with a sign of the binary formats. -/
  | negativeZero
  | finite (q : ℚ)

/-- A number of the binary format with so many significant bits. -/
def Number.IsFloat (bits : ℕ) (lowest highest : ℤ) : Number → Prop
  | .finite q => Representable bits lowest highest q
  | _ => True

/-- A number with at most `s` digits behind the point and `p - s` before it. -/
def Number.IsDecimal (p s : ℕ) : Number → Prop
  | .nan => True
  | .finite q => Fits p s q
  | _ => False

mutual

/-- A document that is the same after it was taken apart: no text of it has a NUL, and no object has
one key twice. -/
def IsBinary : Json → Prop
  | .string text => Char.ofNat 0 ∉ text
  | .array items => AreBinary items
  | .object entries => (entries.map Prod.fst).Nodup ∧ EntriesBinary entries
  | _ => True

def AreBinary : List Json → Prop
  | [] => True
  | item :: items => IsBinary item ∧ AreBinary items

def EntriesBinary : List (List Char × Json) → Prop
  | [] => True
  | (key, value) :: entries => Char.ofNat 0 ∉ key ∧ IsBinary value ∧ EntriesBinary entries

end

inductive Value where
  | int (n : ℤ)
  | float (x : Number)
  | numeric (x : Number)
  | text (cs : List Char)
  | json (document : Json)
  | array (elements : List Value)
  /-- A value of a type without a conversion, as text. -/
  | other (cs : List Char)

/-- The values of a type. -/
def Holds : DataType → Value → Prop
  | .smallInt, v | .smallSerial, v => ∃ n : ℤ, (-2 ^ 15 ≤ n ∧ n < 2 ^ 15) ∧ v = .int n
  | .integer, v | .serial, v => ∃ n : ℤ, (-2 ^ 31 ≤ n ∧ n < 2 ^ 31) ∧ v = .int n
  | .bigInt, v | .bigSerial, v => ∃ n : ℤ, (-2 ^ 63 ≤ n ∧ n < 2 ^ 63) ∧ v = .int n
  | .real, v => ∃ x : Number, x.IsFloat 24 (-149) 104 ∧ v = .float x
  | .doublePrecision, v => ∃ x : Number, x.IsFloat 53 (-1074) 971 ∧ v = .float x
  | .numeric none _, v =>
    (∃ negative, v = .numeric (.infinity negative)) ∨
      ∃ x : Number, x.IsDecimal (131072 + 16383) 16383 ∧ v = .numeric x
  | .numeric (some precision) scale, v =>
    ∃ x : Number, x.IsDecimal precision.toNat (digitsOf scale) ∧ v = .numeric x
  | .text, v | .varChar none, v => ∃ cs, Char.ofNat 0 ∉ cs ∧ v = .text cs
  | .varChar (some length), v =>
    ∃ cs : List Char, Char.ofNat 0 ∉ cs ∧ cs.length ≤ length.toNat ∧ v = .text cs
  -- spaces at the end are padding and no part of the value; without a length it is one character
  | .char length, v =>
    ∃ cs : List Char, Char.ofNat 0 ∉ cs ∧ cs.length ≤ (length.map UInt32.toNat).getD 1 ∧
      cs.getLast? ≠ some ' ' ∧ v = .text cs
  | .json, v => ∃ document, v = .json document
  | .jsonB, v => ∃ document, IsBinary document ∧ v = .json document
  | .array element, v => ∃ elements, (∀ w ∈ elements, Holds element w) ∧ v = .array elements
  | _, v => ∃ cs, v = .other cs

/-- Every value of `from_` is one of `to_`. -/
def Preserves (from_ to_ : DataType) : Prop := ∀ v, Holds from_ v → Holds to_ v

/-! ### The changes that lose data unannounced -/

/-- A change that keeps the digits in all, or the characters, or the documents, but not all of their
values. -/
inductive Damages : DataType → DataType → Prop
  /-- The scale grows more than the precision does. -/
  | digits {precision toPrecision : UInt8} {scale toScale : Option UInt8} (hpos : 0 < precision)
      (hprecision : precision ≤ toPrecision) (hscale : scaleLt toScale scale = false)
      (hdigits : toPrecision.toNat + digitsOf scale < precision.toNat + digitsOf toScale) :
      Damages (.numeric (some precision) scale) (.numeric (some toPrecision) toScale)
  /-- Spaces at the end become padding. -/
  | blanks {length toLength : UInt32} (hpos : 0 < length) (hlength : length ≤ toLength) :
      Damages (.varChar (some length)) (.char (some toLength))
  | documents : Damages .json .jsonB
  | array {from_ to_ : DataType} (h : Damages from_ to_) : Damages (.array from_) (.array to_)


variable {from_ to_ : DataType}

lemma digitsOf_le {scale toScale : Option UInt8} (h : scaleLt toScale scale = false) :
    digitsOf scale ≤ digitsOf toScale := by
  rcases scale with _ | a <;> rcases toScale with _ | b
  · exact Nat.le_refl _
  · exact Nat.zero_le _
  · cases h
  · exact UInt8.le_iff_toNat_le.mp (UInt8.not_lt.mp (of_decide_eq_false h))

/-! ### What a change preserves -/

lemma preserves_refl (t : DataType) : Preserves t t := fun _ h => h

lemma preserves_array (h : Preserves from_ to_) : Preserves (.array from_) (.array to_) := by
  rintro _ ⟨elements, helements, rfl⟩
  exact ⟨elements, fun w hw => h w (helements w hw), rfl⟩

lemma preserves_char {length toLength : Option UInt32}
    (h : (length.map UInt32.toNat).getD 1 ≤ (toLength.map UInt32.toNat).getD 1) :
    Preserves (.char length) (.char toLength) := by
  rintro _ ⟨cs, hnul, hlength, hspace, rfl⟩
  exact ⟨cs, hnul, hlength.trans h, hspace, rfl⟩

lemma preserves_numeric {precision toPrecision : UInt8} {scale toScale : Option UInt8}
    (h : ∀ q, Fits precision.toNat (digitsOf scale) q → Fits toPrecision.toNat (digitsOf toScale) q) :
    Preserves (.numeric (some precision) scale) (.numeric (some toPrecision) toScale) := by
  rintro _ ⟨x, hx, rfl⟩
  refine ⟨x, ?_, rfl⟩
  cases x with
  | nan => exact trivial
  | infinity negative => exact hx
  | negativeZero => exact hx
  | finite q => exact h q hx

/-- A change that is neither lossy nor one of the damaging ones keeps every value. -/
lemma preserves_of_not_damages (h : isLossy from_ to_ = false) (hd : ¬Damages from_ to_) :
    Preserves from_ to_ := by
  fun_induction isLossy from_ to_ with
  | case1 => exact preserves_refl _
  -- integers
  | case2 | case3 | case4 =>
    rintro _ ⟨n, hn, rfl⟩
    exact ⟨n, by omega, rfl⟩
  | case5 =>
    rintro _ ⟨x, hx, rfl⟩
    refine ⟨x, ?_, rfl⟩
    cases x with
    | finite q => exact Representable.mono (by norm_num) (by norm_num) (by norm_num) hx
    | _ => exact trivial
  | case6 => exact absurd .documents hd
  -- text
  | case7 length =>
    rintro _ ⟨cs, hnul, -, -, rfl⟩
    exact ⟨cs, hnul, rfl⟩
  | case8 length =>
    cases length with
    | none => exact fun _ hv => hv
    | some length =>
      rintro _ ⟨cs, hnul, -, rfl⟩
      exact ⟨cs, hnul, rfl⟩
  | case9 from_ to_ =>
    rintro _ ⟨cs, hnul, hlength, rfl⟩
    have hle := UInt32.le_iff_toNat_le.mp (UInt32.not_lt.mp (of_decide_eq_false h))
    exact ⟨cs, hnul, hlength.trans hle, rfl⟩
  | case10 from_ to_ =>
    exact preserves_char (UInt32.le_iff_toNat_le.mp (UInt32.not_lt.mp (of_decide_eq_false h)))
  | case11 from_ to_ =>
    -- no character, so no space at the end
    have hle := UInt32.not_lt.mp (of_decide_eq_false h)
    have hzero : from_.toNat = 0 := by
      by_contra hpos
      exact hd (.blanks (UInt32.lt_iff_toNat_lt.mpr (Nat.pos_of_ne_zero hpos)) hle)
    rintro _ ⟨cs, hnul, hlength, rfl⟩
    rw [hzero, Nat.le_zero, List.length_eq_zero_iff] at hlength
    subst hlength
    exact ⟨[], hnul, Nat.zero_le _, by simp, rfl⟩
  | case12 from_ to_ =>
    rintro _ ⟨cs, hnul, hlength, -, rfl⟩
    have hle := UInt32.le_iff_toNat_le.mp (UInt32.not_lt.mp (of_decide_eq_false h))
    exact ⟨cs, hnul, hlength.trans hle, rfl⟩
  | case17 precision scale toPrecision toScale =>
    obtain ⟨hprecision, hscale⟩ := Bool.or_eq_false_iff.mp h
    have hle := UInt8.not_lt.mp (of_decide_eq_false hprecision)
    refine preserves_numeric fun q hq => ?_
    rcases Nat.eq_zero_or_pos precision.toNat with hzero | hpos
    · rw [hzero] at hq
      exact hq.of_zero
    · refine hq.mono (digitsOf_le hscale) ?_
      by_contra hlt
      exact hd (.digits (UInt8.lt_iff_toNat_lt.mpr hpos) hle hscale (Nat.lt_of_not_le hlt))
  | case19 from_ to_ _ ih => exact preserves_array (ih h fun hdamages => hd (.array hdamages))
  -- a serial has the values of its base integer
  | case20 | case21 | case22 | case23 | case24 | case25 => exact fun _ hv => hv
  | _ => cases h

/-! ### What a change damages -/

/-- A number of nines does not fit a type with fewer digits before the point. -/
lemma not_preserves_numeric {precision toPrecision : UInt8} {scale toScale : Option UInt8}
    (hpos : 0 < precision.toNat)
    (hdigits : toPrecision.toNat + digitsOf scale < precision.toNat + digitsOf toScale) :
    ¬Preserves (.numeric (some precision) scale) (.numeric (some toPrecision) toScale) := by
  intro h
  have hmax : (Number.finite _).IsDecimal precision.toNat (digitsOf scale) := fits_max _ _
  obtain ⟨x, hx, heq⟩ := h (.numeric (.finite _)) ⟨_, hmax, rfl⟩
  rw [Value.numeric.injEq] at heq
  subst heq
  exact absurd (le_of_fits_max hpos hx).2 (Nat.not_le_of_lt hdigits)

/-- A damaging change is not called lossy, and some value does not survive it. -/
lemma Damages.not_preserves (h : Damages from_ to_) :
    isLossy from_ to_ = false ∧ ¬Preserves from_ to_ := by
  induction h with
  | @digits precision toPrecision scale toScale hpos hprecision hscale hdigits =>
    refine ⟨?_, not_preserves_numeric (UInt8.lt_iff_toNat_lt.mp hpos) hdigits⟩
    unfold isLossy
    split_ifs with heq
    · rfl
    · simp [hscale, UInt8.not_lt.mpr hprecision]
  | @blanks length toLength hpos hlength =>
    constructor
    · simp [isLossy, UInt32.not_lt.mpr hlength]
    · intro h
      obtain ⟨cs, -, -, hspace, heq⟩ :=
        h (.text [' ']) ⟨[' '], by decide, UInt32.lt_iff_toNat_lt.mp hpos, rfl⟩
      rw [Value.text.injEq] at heq
      subst heq
      exact hspace rfl
  | documents =>
    refine ⟨rfl, fun h => ?_⟩
    obtain ⟨document, hdocument, heq⟩ := h (.json (.string [Char.ofNat 0])) ⟨_, rfl⟩
    rw [Value.json.injEq] at heq
    subst heq
    exact hdocument (List.mem_singleton_self _)
  | @array from_ to_ _ ih =>
    obtain ⟨hlossy, hpreserves⟩ := ih
    constructor
    · unfold isLossy
      split_ifs
      · rfl
      · exact hlossy
    · refine fun h => hpreserves fun v hv => ?_
      obtain ⟨elements, helements, heq⟩ := h (.array [v]) ⟨[v], by simpa using hv, rfl⟩
      rw [Value.array.injEq] at heq
      subst heq
      exact helements v (List.mem_singleton_self v)

/-- A change that is not called lossy keeps every value exactly when it is none of the damaging
ones. -/
theorem isLossy_sound_iff (from_ to_ : DataType) :
    (isLossy from_ to_ = false → Preserves from_ to_) ↔ ¬Damages from_ to_ :=
  ⟨fun h hdamages => hdamages.not_preserves.2 (h hdamages.not_preserves.1),
    fun hdamages h => preserves_of_not_damages h hdamages⟩

/-- `numeric(10)` becomes `numeric(10, 2)` without a warning, and ten digits before the point are
then too many. -/
theorem isLossy_sound_fails :
    isLossy (.numeric (some 10) none) (.numeric (some 10) (some 2)) = false ∧
      ¬Preserves (.numeric (some 10) none) (.numeric (some 10) (some 2)) :=
  ⟨rfl, not_preserves_numeric (by decide) (by decide)⟩

end Moso.Migrate
