import Moso.Foundation.Numeral
import Moso.Sql.Timestamp

/-!
# Values as text

How intervals, decimal numbers and instants are written, and what the text denotes to the server:
a sign applies to the number that it precedes, a fraction is part of that number, a leading sign
does not belong to a date, and there is no year zero.
-/

namespace Moso.Sql

open Numeral (padded signed signedPadded readDigits readNumber readUnsigned)

/-! ### Intervals -/

def unitMons : List Char := "mons".toList

def unitDays : List Char := "days".toList

def unitSeconds : List Char := "seconds".toList

/-- The seconds: the whole ones by a division that truncates, the others without their sign. -/
def Interval.secondsText (microseconds : ℤ) : List Char :=
  let seconds := microseconds.tdiv 1000000
  let remainder := (microseconds.tmod 1000000).natAbs
  if remainder = 0 then signed seconds else signed seconds ++ '.' :: padded 6 remainder

/-- The words of an interval: each component that is not zero, with its unit. -/
def Interval.words (interval : Interval) : List (List Char) :=
  let months := if interval.months.1 ≠ 0 then [signed interval.months.1, unitMons] else []
  let days := if interval.days.1 ≠ 0 then [signed interval.days.1, unitDays] else []
  let wrote := months ++ days
  if interval.microseconds.1 ≠ 0 ∨ wrote = [] then
    wrote ++ [secondsText interval.microseconds.1, unitSeconds]
  else wrote

/-- `Display` of an interval. -/
def Interval.display (interval : Interval) : List Char := [' '].intercalate interval.words

/-- A number and its unit, in months, days and microseconds. -/
def readField (number unit : List Char) : Option (ℤ × ℤ × ℤ) := do
  let (mantissa, scale) ← readNumber number
  if unit = unitMons ∧ scale = 0 then some (mantissa, 0, 0)
  else if unit = unitDays ∧ scale = 0 then some (0, mantissa, 0)
  else if unit = unitSeconds ∧ scale ≤ 6 then some (0, 0, mantissa * 10 ^ (6 - scale))
  else none

def readFields : List (List Char) → Option (ℤ × ℤ × ℤ)
  | [] => some (0, 0, 0)
  | [_] => none
  | number :: unit :: fields =>
    (readField number unit).bind fun field => (readFields fields).map (field + ·)

/-- What a text denotes as an interval. -/
def readInterval (text : List Char) : Option (ℤ × ℤ × ℤ) := readFields (text.splitOn ' ')

/-! ### Decimal numbers -/

/-- A signed 128-bit number. -/
abbrev I128 := {n : ℤ // -2 ^ 127 ≤ n ∧ n < 2 ^ 127}

def Decimal.maxScale : ℕ := 28

/-- An exact decimal number. -/
structure Decimal where
  mantissa : I128
  scale : ℕ
  scale_le : scale ≤ Decimal.maxScale

namespace Decimal

def new (mantissa : I128) (scale : ℕ) : Except ValueError Decimal :=
  if h : maxScale < scale then .error (.scale scale maxScale)
  else .ok ⟨mantissa, scale, Nat.le_of_not_lt h⟩

/-- A number that is not negative. -/
abbrev Magnitude := {n : ℕ // n < 2 ^ 127}

def Magnitude.signed (negative : Bool) (n : Magnitude) : I128 :=
  ⟨if negative then -(n.1 : ℤ) else n.1, by
    have h := n.2
    split_ifs <;> omega⟩

/-- One more digit: the product and the sum have to fit. -/
def pushDigit (text : List Char) (mantissa : Magnitude) (c : Char) : Except ValueError Magnitude :=
  if h : c.isDigit = true ∧ 10 * mantissa.1 + (c.toNat - '0'.toNat) < 2 ^ 127 then .ok ⟨_, h.2⟩
  else .error (.decimal text)

/-- What stands behind the sign, and whether it is a minus. -/
def splitSign : List Char → Bool × List Char
  | '-' :: cs => (true, cs)
  | '+' :: cs => (false, cs)
  | cs        => (false, cs)

def parse (text : List Char) : Except ValueError Decimal :=
  let (negative, digits) := splitSign (Decimal.trim text)
  let (integer, fraction) := (Text.splitOnce '.' digits).getD (digits, [])
  if integer = [] ∧ fraction = [] then .error (.decimal text)
  else do
    let mantissa ← (integer ++ fraction).foldlM (pushDigit text) ⟨0, by decide⟩
    if u32Max < fraction.length then .error (.decimal text)
    else new (mantissa.signed negative) fraction.length

/-- `Display` of a decimal number. -/
def display (d : Decimal) : List Char :=
  if d.scale = 0 then Numeral.signed d.mantissa.1
  else
    let sign := if d.mantissa.1 < 0 then ['-'] else []
    let digits := Nat.toDigits 10 d.mantissa.1.natAbs
    if d.scale < digits.length then
      let split := digits.length - d.scale
      sign ++ digits.take split ++ '.' :: digits.drop split
    else sign ++ '0' :: '.' :: digits.leftpad d.scale '0'

end Decimal

/-! ### Instants -/

/-- The digits of a sub-second remainder, if there is one. -/
def fractionText (nanoseconds : ℤ) : List Char :=
  if nanoseconds = 0 then [] else '.' :: padded 9 nanoseconds.toNat

def formatTimestamp (t : Timestamp) : Option (List Char) := do
  let date ← civilFromDays (t.unixSeconds.1 / 86400)
  let withinDay := t.unixSeconds.1 % 86400
  let hour := withinDay / 3600
  let minute := withinDay % 3600 / 60
  let second := withinDay % 60
  let fraction := fractionText t.nanoseconds
  return [' '].intercalate
    [['-'].intercalate
      [signedPadded 4 date.year, padded 2 date.month.toNat, padded 2 date.day.toNat],
    [':'].intercalate [padded 2 hour.toNat, padded 2 minute.toNat, padded 2 second.toNat] ++
      fraction ++ "+00".toList]

/-- A date: year, month and day, in the calendar, from year 1 on. -/
def readDate (text : List Char) : Option Gregorian.Date :=
  match text.splitOn '-' with
  | [year, month, day] => do
    let year ← if 4 ≤ year.length then readDigits year else none
    let month ← readDigits month
    let day ← readDigits day
    let date : Gregorian.Date := ⟨year, month, day⟩
    if 1 ≤ date.year ∧ 1 ≤ date.month ∧ date.month ≤ 12 ∧ 1 ≤ date.day ∧
      date.day ≤ Gregorian.daysInMonth date.year date.month then some date else none
  | _ => none

/-- A number of seconds below a minute, in nanoseconds. -/
def readSeconds (text : List Char) : Option ℤ := do
  let (mantissa, scale) ← readUnsigned text
  let nanoseconds := mantissa * 10 ^ (9 - scale)
  if scale ≤ 9 ∧ nanoseconds < 60000000000 then some (nanoseconds : ℤ) else none

/-- A time of day, in nanoseconds. -/
def readTime (text : List Char) : Option ℤ :=
  match text.splitOn ':' with
  | [hour, minute, second] => do
    let hour ← readDigits hour
    let minute ← readDigits minute
    let second ← readSeconds second
    if hour < 24 ∧ minute < 60 then some ((hour * 3600 + minute * 60) * 1000000000 + second)
    else none
  | _ => none

/-- A time of day in UTC. -/
def readClock (text : List Char) : Option ℤ :=
  if "+00".toList <:+ text then readTime (text.take (text.length - 3)) else none

/-- What a text denotes as an instant, in nanoseconds since the Unix epoch. -/
def readTimestamp (text : List Char) : Option ℤ :=
  match text.splitOn ' ' with
  | [date, clock] => do
    let date ← readDate date
    let time ← readClock clock
    some (date.toDay * 86400000000000 + time)
  | _ => none

/-! ### What intervals denote -/

/-- Seconds are read with the sign of their whole part. -/
lemma readNumber_secondsText (microseconds : ℤ) :
    ∃ mantissa scale, readNumber (Interval.secondsText microseconds) = some (mantissa, scale) ∧
      scale ≤ 6 ∧ mantissa * 10 ^ (6 - scale) =
        if -1000000 < microseconds ∧ microseconds < 0 then -microseconds else microseconds := by
  unfold Interval.secondsText
  dsimp only
  -- Both parts are taken of the amount, and have its sign.
  obtain ⟨q, r, hr, hq, hrest, heq⟩ : ∃ q r : ℕ, r < 1000000 ∧
      microseconds.tdiv 1000000 = (if microseconds < 0 then -(q : ℤ) else q) ∧
      (microseconds.tmod 1000000).natAbs = r ∧
      microseconds = if microseconds < 0 then -((q * 1000000 + r : ℕ) : ℤ)
        else (q * 1000000 + r : ℕ) := by
    refine ⟨microseconds.natAbs / 1000000, microseconds.natAbs % 1000000,
      Nat.mod_lt _ (by decide), ?_, Int.natAbs_tmod _ _, ?_⟩
    · split_ifs with h
      · rw [← Int.neg_neg microseconds, Int.neg_tdiv, Int.tdiv_eq_ediv_of_nonneg (by omega)]
        omega
      · rw [Int.tdiv_eq_ediv_of_nonneg (by omega)]
        omega
    · split_ifs <;> omega
  rw [hrest, hq]
  by_cases hzero : r = 0
  · rw [if_pos hzero]
    refine ⟨_, 0, Numeral.readNumber_signed _, by omega, ?_⟩
    split_ifs at * <;> omega
  · rw [if_neg hzero]
    refine ⟨_, 6, Numeral.readNumber_signed_append (by omega) (by decide) _, le_rfl, ?_⟩
    split_ifs at * <;> omega

lemma notMem_secondsText (microseconds : ℤ) : ' ' ∉ Interval.secondsText microseconds := by
  have hsigned := Numeral.notMem_signed (c := ' ') rfl (by decide) (microseconds.tdiv 1000000)
  have hpadded : ∀ n, ' ' ∉ padded 6 n := fun n =>
    Numeral.notMem_of_isDigit rfl fun c => Numeral.isDigit_padded
  unfold Interval.secondsText
  dsimp only
  split_ifs
  · exact hsigned
  · simp [hsigned, hpadded]

/-- The words of an interval are words, and there are some. -/
lemma Interval.words_spec (interval : Interval) :
    interval.words ≠ [] ∧ ∀ word ∈ interval.words, ' ' ∉ word := by
  have hmonths := Numeral.notMem_signed (c := ' ') rfl (by decide) interval.months.1
  have hdays := Numeral.notMem_signed (c := ' ') rfl (by decide) interval.days.1
  have hseconds := notMem_secondsText interval.microseconds.1
  have hunits : ' ' ∉ unitMons ∧ ' ' ∉ unitDays ∧ ' ' ∉ unitSeconds := by decide
  unfold Interval.words
  dsimp only
  constructor
  · split_ifs <;> simp_all
  · split_ifs <;> simp [hmonths, hdays, hseconds, hunits]

/-- A text is read as an interval word by word. -/
lemma readInterval_display (interval : Interval) :
    readInterval interval.display = readFields interval.words := by
  obtain ⟨hne, hwords⟩ := interval.words_spec
  rw [readInterval, Interval.display, List.splitOn_intercalate ' ' hwords hne]

lemma readField_mons (m : ℤ) : readField (signed m) unitMons = some (m, 0, 0) := by
  simp [readField, Numeral.readNumber_signed]

lemma readField_days (m : ℤ) : readField (signed m) unitDays = some (0, m, 0) := by
  have hne : unitDays ≠ unitMons := by decide
  simp [readField, Numeral.readNumber_signed, hne]

lemma readField_seconds (microseconds : ℤ) :
    readField (Interval.secondsText microseconds) unitSeconds = some (0, 0,
      if -1000000 < microseconds ∧ microseconds < 0 then -microseconds else microseconds) := by
  obtain ⟨mantissa, scale, hread, hscale, hmantissa⟩ := readNumber_secondsText microseconds
  have hne : unitSeconds ≠ unitMons ∧ unitSeconds ≠ unitDays := by decide
  simp [readField, hread, hscale, hmantissa, hne]

/-- What is written of an interval denotes its months and its days, and its microseconds but for
the sign of less than a second. -/
lemma readInterval_eq (interval : Interval) : readInterval interval.display =
    some (interval.months.1, interval.days.1,
      if -1000000 < interval.microseconds.1 ∧ interval.microseconds.1 < 0
        then -interval.microseconds.1 else interval.microseconds.1) := by
  rw [readInterval_display]
  unfold Interval.words
  dsimp only
  by_cases hmonths : interval.months.1 = 0 <;> by_cases hdays : interval.days.1 = 0 <;>
    by_cases hmicros : interval.microseconds.1 = 0 <;>
    simp [hmonths, hdays, hmicros, readFields, readField_mons, readField_days, readField_seconds]

lemma readInterval_display_iff (interval : Interval) :
    readInterval interval.display = some interval.numbers ↔
      ¬(-1000000 < interval.microseconds.1 ∧ interval.microseconds.1 < 0) := by
  rw [readInterval_eq, Interval.numbers, Option.some.injEq, Prod.mk.injEq, Prod.mk.injEq]
  split_ifs with h
  · simp only [true_and]
    omega
  · simp [h]

/-! ### What decimal numbers denote -/

namespace Decimal

/-- A decimal number is written as its sign, digits, and as many digits behind a point as its
scale says. -/
lemma display_spec (d : Decimal) : ∃ integer fraction, integer ≠ [] ∧
    (∀ c ∈ integer, c.isDigit = true) ∧ (∀ c ∈ fraction, c.isDigit = true) ∧
    fraction.length = d.scale ∧
    Nat.ofDigitChars 10 (integer ++ fraction) 0 = d.mantissa.1.natAbs ∧
    d.display = (if decide (d.mantissa.1 < 0) then ['-'] else []) ++
      (if fraction = [] then integer else integer ++ '.' :: fraction) := by
  obtain ⟨digits, hdigits⟩ : ∃ digits, Nat.toDigits 10 d.mantissa.1.natAbs = digits := ⟨_, rfl⟩
  have hdigit : ∀ c ∈ digits, c.isDigit = true :=
    fun c hc => Numeral.isDigit_toDigits (hdigits ▸ hc)
  have hvalue : Nat.ofDigitChars 10 digits 0 = d.mantissa.1.natAbs := by
    rw [← hdigits, Nat.ofDigitChars_ten_toDigits]
  have hdigitsne : digits ≠ [] := hdigits ▸ Nat.toDigits_ne_nil
  by_cases hscale : d.scale = 0
  · refine ⟨digits, [], hdigitsne, hdigit, by simp, hscale.symm, ?_, ?_⟩
    · rw [List.append_nil, hvalue]
    · rw [display, if_pos hscale, Numeral.signed_eq, if_pos rfl, hdigits]
  · have hne : ∀ fraction : List Char, fraction.length = d.scale → fraction ≠ [] := by
      rintro fraction hlen rfl
      exact hscale hlen.symm
    by_cases hlong : d.scale < digits.length
    · have hlen : (digits.drop (digits.length - d.scale)).length = d.scale := by
        rw [List.length_drop]
        omega
      refine ⟨digits.take (digits.length - d.scale), digits.drop (digits.length - d.scale), ?_,
        fun c hc => hdigit c (List.mem_of_mem_take hc),
        fun c hc => hdigit c (List.mem_of_mem_drop hc), hlen, ?_, ?_⟩
      · rw [ne_eq, List.take_eq_nil_iff, not_or]
        exact ⟨by omega, hdigitsne⟩
      · rw [List.take_append_drop, hvalue]
      · rw [display, if_neg hscale, if_neg (hne _ hlen), hdigits]
        simp [hlong]
    · have hlen : (digits.leftpad d.scale '0').length = d.scale := by
        rw [List.length_leftpad]
        omega
      have hpadded : digits.leftpad d.scale '0' = padded d.scale d.mantissa.1.natAbs := by
        rw [padded, hdigits]
      refine ⟨['0'], digits.leftpad d.scale '0', by simp, by simp, ?_, hlen, ?_, ?_⟩
      · rw [hpadded]
        exact fun c => Numeral.isDigit_padded
      · rw [Nat.ofDigitChars_append, hpadded]
        exact Numeral.ofDigitChars_padded
      · rw [display, if_neg hscale, if_neg (hne _ hlen), hdigits]
        simp [hlong]

/-- What is written of a decimal number denotes its mantissa and its scale. -/
lemma readNumber_display (d : Decimal) : readNumber d.display = some (d.mantissa.1, d.scale) := by
  obtain ⟨integer, fraction, hne, hi, hf, hlen, hvalue, heq⟩ := d.display_spec
  rw [heq]
  by_cases hfraction : fraction = []
  · subst hfraction
    have hscale : d.scale = 0 := hlen.symm
    rw [display, if_pos hscale] at heq
    rw [← heq, Numeral.readNumber_signed, hscale]
  · rw [if_neg hfraction, Numeral.readNumber_append _ hne hfraction hi hf, hvalue, hlen]
    simp only [decide_eq_true_eq]
    congr 2
    split_ifs <;> omega

/-- Digits are read one by one as long as the number fits. -/
lemma foldlM_pushDigit (text : List Char) {cs : List Char} (h : ∀ c ∈ cs, c.isDigit = true)
    (mantissa : Magnitude) : cs.foldlM (pushDigit text) mantissa =
      if hfits : Nat.ofDigitChars 10 cs mantissa.1 < 2 ^ 127 then .ok ⟨_, hfits⟩
      else .error (.decimal text) := by
  induction cs generalizing mantissa with
  | nil =>
    have hfits : Nat.ofDigitChars 10 [] mantissa.1 < 2 ^ 127 := by
      rw [Nat.ofDigitChars_nil]
      exact mantissa.2
    rw [dif_pos hfits]
    congr 1
  | cons c cs ih =>
    rw [List.foldlM_cons]
    have hc := h c List.mem_cons_self
    have hrest := fun mantissa => ih (fun d hd => h d (List.mem_cons_of_mem c hd)) mantissa
    by_cases hfits : 10 * mantissa.1 + (c.toNat - '0'.toNat) < 2 ^ 127
    · rw [pushDigit, dif_pos ⟨hc, hfits⟩]
      exact hrest ⟨_, hfits⟩
    · rw [pushDigit, dif_neg fun hand => hfits hand.2, dif_neg]
      · rfl
      · rw [Nat.ofDigitChars_cons]
        exact fun hlt => hfits ((Numeral.le_ofDigitChars _ _).trans_lt hlt)

lemma splitSign_append (negative : Bool) {integer : List Char} (hne : integer ≠ [])
    (hi : ∀ c ∈ integer, c.isDigit = true) (cs : List Char) :
    splitSign ((if negative then ['-'] else []) ++ (integer ++ cs)) =
      (negative, integer ++ cs) := by
  obtain ⟨c, integer, rfl⟩ := List.exists_cons_of_ne_nil hne
  have hc := hi c List.mem_cons_self
  cases negative with
  | true => rfl
  | false =>
    rw [if_neg Bool.false_ne_true, List.nil_append, List.cons_append]
    unfold splitSign
    split
    · rename_i heq
      rw [(List.cons.inj heq).1] at hc
      cases hc
    · rename_i heq
      rw [(List.cons.inj heq).1] at hc
      cases hc
    · rfl

/-- A decimal number is what `new` accepts. -/
lemma new_eq_ok_iff {mantissa : I128} {scale : ℕ} {d : Decimal} :
    new mantissa scale = .ok d ↔ d.mantissa = mantissa ∧ d.scale = scale := by
  obtain ⟨m, s, hscale⟩ := d
  unfold new
  split_ifs with h
  · simp only [false_iff, not_and]
    omega
  · simp [eq_comm]

/-- What is written of a decimal number is read back if its amount fits. -/
lemma parse_display (d : Decimal) : parse d.display =
    if d.mantissa.1.natAbs < 2 ^ 127 then .ok d else .error (.decimal d.display) := by
  obtain ⟨integer, fraction, hne, hi, hf, hlen, hvalue, heq⟩ := d.display_spec
  -- The body of the text, and what it is split into.
  obtain ⟨tail, htail, hsplit, htailchars⟩ : ∃ tail, (if fraction = [] then integer
      else integer ++ '.' :: fraction) = integer ++ tail ∧
      (Text.splitOnce '.' (integer ++ tail)).getD (integer ++ tail, []) = (integer, fraction) ∧
      ∀ c ∈ tail, c = '.' ∨ c.isDigit = true := by
    have hnodot : '.' ∉ integer := Numeral.notMem_of_isDigit rfl hi
    by_cases hfraction : fraction = []
    · refine ⟨[], by simp [hfraction], ?_, by simp⟩
      rw [List.append_nil, Text.splitOnce_eq_none hnodot, hfraction]
      rfl
    · refine ⟨'.' :: fraction, if_neg hfraction, ?_, ?_⟩
      · rw [Text.splitOnce_append fraction hnodot]
        rfl
      · exact List.forall_mem_cons.mpr ⟨.inl rfl, fun c hc => .inr (hf c hc)⟩
  rw [htail] at heq
  have htrim : Decimal.trim d.display = d.display := by
    refine Decimal.trim_of_forall fun c hc => ?_
    rw [heq] at hc
    rcases List.mem_append.mp hc with hc | hc
    · split_ifs at hc
      · obtain rfl := List.mem_singleton.mp hc
        rfl
      · cases hc
    · rcases List.mem_append.mp hc with hc | hc
      · exact Decimal.isWhitespace_of_isDigit (hi c hc)
      · rcases htailchars c hc with rfl | hdigit
        · rfl
        · exact Decimal.isWhitespace_of_isDigit hdigit
  have hdigits : ∀ c ∈ integer ++ fraction, c.isDigit = true := fun c hc =>
    (List.mem_append.mp hc).elim (hi c) (hf c)
  have hscale := d.scale_le
  have hlength : ¬ u32Max < fraction.length := by
    unfold maxScale at hscale
    unfold u32Max
    omega
  unfold parse
  rw [htrim, heq, splitSign_append _ hne hi, ← heq]
  dsimp only
  rw [hsplit]
  dsimp only
  rw [if_neg (fun hand => hne hand.1), foldlM_pushDigit _ hdigits]
  by_cases hfits : d.mantissa.1.natAbs < 2 ^ 127
  · rw [if_pos hfits, dif_pos (hvalue ▸ hfits)]
    change (if u32Max < fraction.length then _ else _) = _
    rw [if_neg hlength]
    refine new_eq_ok_iff.2 ⟨Subtype.ext ?_, hlen.symm⟩
    symm
    unfold Magnitude.signed
    dsimp only
    rw [hvalue]
    simp only [decide_eq_true_eq]
    split_ifs <;> omega
  · rw [if_neg hfits, dif_neg (hvalue ▸ hfits)]
    rfl

lemma parse_display_iff (d : Decimal) : parse d.display = .ok d ↔ d.mantissa.1 ≠ -2 ^ 127 := by
  have hfits := d.mantissa.2
  rw [parse_display]
  split_ifs with h
  · simp only [true_iff]
    omega
  · simp only [false_iff, not_not]
    omega

end Decimal

/-! ### What instants denote -/

variable {year month day : ℤ}

lemma notMem_padded {c : Char} (hc : c.isDigit = false) (width n : ℕ) : c ∉ padded width n :=
  Numeral.notMem_of_isDigit hc fun _ => Numeral.isDigit_padded

/-- A date of a year that has one is read. -/
lemma readDate_eq {date : Gregorian.Date} (hvalid : date.Valid) (hyear : 1 ≤ date.year) :
    readDate (['-'].intercalate [signedPadded 4 date.year, padded 2 date.month.toNat,
      padded 2 date.day.toNat]) = some date := by
  have hone := hvalid.one_le_month
  have hday := hvalid.one_le_day
  have hsigned : signedPadded 4 date.year = padded 4 date.year.toNat := by
    rw [signedPadded, if_neg (by omega)]
    congr 1
    omega
  have hsplit : (['-'].intercalate [padded 4 date.year.toNat, padded 2 date.month.toNat,
      padded 2 date.day.toNat]).splitOn '-' = [padded 4 date.year.toNat,
        padded 2 date.month.toNat, padded 2 date.day.toNat] :=
    List.splitOn_intercalate '-' (by simp [notMem_padded]) (by simp)
  unfold readDate
  rw [hsigned, hsplit]
  dsimp only
  rw [if_pos Numeral.length_padded]
  simp only [Numeral.readDigits_padded, Option.bind_eq_bind, Option.bind_some]
  have hnumbers : (date.year.toNat : ℤ) = date.year ∧ (date.month.toNat : ℤ) = date.month ∧
      (date.day.toNat : ℤ) = date.day := by omega
  simp only [hnumbers]
  rw [if_pos ⟨hyear, hone, hvalid.month_le, hday, hvalid.day_le⟩]

/-- There is no year before the first, neither with a sign nor without. -/
lemma readDate_eq_none {date : Gregorian.Date} (hyear : date.year < 1) :
    readDate (['-'].intercalate [signedPadded 4 date.year, padded 2 date.month.toNat,
      padded 2 date.day.toNat]) = none := by
  by_cases hneg : date.year < 0
  · have htext : ['-'].intercalate [signedPadded 4 date.year, padded 2 date.month.toNat,
        padded 2 date.day.toNat] = ['-'].intercalate [[], padded 3 date.year.natAbs,
          padded 2 date.month.toNat, padded 2 date.day.toNat] := by
      simp [signedPadded, hneg]
    have hsplit : (['-'].intercalate [[], padded 3 date.year.natAbs,
        padded 2 date.month.toNat, padded 2 date.day.toNat]).splitOn '-' =
          [[], padded 3 date.year.natAbs, padded 2 date.month.toNat, padded 2 date.day.toNat] :=
      List.splitOn_intercalate '-' (by simp [notMem_padded]) (by simp)
    unfold readDate
    rw [htext, hsplit]
  · have hzero : date.year = 0 := by omega
    have hsplit : (['-'].intercalate [padded 4 0, padded 2 date.month.toNat,
        padded 2 date.day.toNat]).splitOn '-' =
          [padded 4 0, padded 2 date.month.toNat, padded 2 date.day.toNat] :=
      List.splitOn_intercalate '-' (by simp [notMem_padded]) (by simp)
    have hsigned : signedPadded 4 date.year = padded 4 0 := by
      rw [hzero]
      rfl
    unfold readDate
    rw [hsigned, hsplit]
    dsimp only
    rw [if_pos Numeral.length_padded]
    simp only [Numeral.readDigits_padded, Option.bind_eq_bind, Option.bind_some]
    rw [if_neg]
    rintro ⟨h, -⟩
    omega

lemma readSeconds_of {text : List Char} {mantissa scale n : ℕ}
    (hread : readUnsigned text = some (mantissa, scale)) (hscale : scale ≤ 9)
    (hn : mantissa * 10 ^ (9 - scale) = n) (hlt : n < 60000000000) :
    readSeconds text = some (n : ℤ) := by
  unfold readSeconds
  rw [hread]
  simp only [Option.bind_eq_bind, Option.bind_some]
  rw [hn, if_pos ⟨hscale, hlt⟩]

lemma readSeconds_eq {second nanoseconds : ℤ} (hsecond : 0 ≤ second ∧ second < 60)
    (hnanos : 0 ≤ nanoseconds ∧ nanoseconds < 1000000000) :
    readSeconds (padded 2 second.toNat ++ fractionText nanoseconds) =
      some (second * 1000000000 + nanoseconds) := by
  unfold fractionText
  by_cases hzero : nanoseconds = 0
  · have hread : Numeral.readUnsigned (padded 2 second.toNat) = some (second.toNat, 0) := by
      rw [Numeral.readUnsigned_of_isDigit Numeral.padded_ne_nil fun _ => Numeral.isDigit_padded,
        Numeral.ofDigitChars_padded]
    have hlt : second.toNat * 1000000000 < 60000000000 := by omega
    rw [if_pos hzero, List.append_nil, readSeconds_of hread (by decide) rfl hlt]
    congr 1
    omega
  · have hlength : (padded 9 nanoseconds.toNat).length = 9 :=
      Numeral.length_padded_of_lt (by omega) (by decide)
    have hvalue : Nat.ofDigitChars 10 (padded 2 second.toNat ++ padded 9 nanoseconds.toNat) 0 =
        1000000000 * second.toNat + nanoseconds.toNat := by
      rw [Nat.ofDigitChars_append, Numeral.ofDigitChars_padded,
        Nat.ofDigitChars_eq_ofDigitChars_zero, Numeral.ofDigitChars_padded, hlength]
    have hread : Numeral.readUnsigned
        (padded 2 second.toNat ++ '.' :: padded 9 nanoseconds.toNat) =
          some (1000000000 * second.toNat + nanoseconds.toNat, 9) := by
      rw [Numeral.readUnsigned_append Numeral.padded_ne_nil Numeral.padded_ne_nil
        (fun _ => Numeral.isDigit_padded) (fun _ => Numeral.isDigit_padded), hvalue, hlength]
    have hlt : 1000000000 * second.toNat + nanoseconds.toNat < 60000000000 := by omega
    rw [if_neg hzero, readSeconds_of hread le_rfl (Nat.mul_one _) hlt]
    congr 1
    omega

lemma readTime_eq {hour minute second nanoseconds : ℤ} (hhour : 0 ≤ hour ∧ hour < 24)
    (hminute : 0 ≤ minute ∧ minute < 60) (hsecond : 0 ≤ second ∧ second < 60)
    (hnanos : 0 ≤ nanoseconds ∧ nanoseconds < 1000000000) :
    readTime ([':'].intercalate [padded 2 hour.toNat, padded 2 minute.toNat,
      padded 2 second.toNat] ++ fractionText nanoseconds) =
      some ((hour * 3600 + minute * 60 + second) * 1000000000 + nanoseconds) := by
  have hfraction : ':' ∉ fractionText nanoseconds := by
    unfold fractionText
    split_ifs <;> simp [notMem_padded]
  have htext : [':'].intercalate [padded 2 hour.toNat, padded 2 minute.toNat,
      padded 2 second.toNat] ++ fractionText nanoseconds =
        [':'].intercalate [padded 2 hour.toNat, padded 2 minute.toNat,
          padded 2 second.toNat ++ fractionText nanoseconds] := by
    simp
  have hsplit : ([':'].intercalate [padded 2 hour.toNat, padded 2 minute.toNat,
      padded 2 second.toNat ++ fractionText nanoseconds]).splitOn ':' =
        [padded 2 hour.toNat, padded 2 minute.toNat,
          padded 2 second.toNat ++ fractionText nanoseconds] :=
    List.splitOn_intercalate ':' (by simp [notMem_padded, hfraction]) (by simp)
  unfold readTime
  rw [htext, hsplit]
  dsimp only
  rw [readSeconds_eq hsecond hnanos]
  simp only [Numeral.readDigits_padded, Option.bind_eq_bind, Option.bind_some]
  rw [if_pos (by omega)]
  congr 1
  omega

/-- The time of day of a second of a day. -/
def clockText (withinDay nanoseconds : ℤ) : List Char :=
  [':'].intercalate [padded 2 (withinDay / 3600).toNat, padded 2 (withinDay % 3600 / 60).toNat,
    padded 2 (withinDay % 60).toNat] ++ fractionText nanoseconds

lemma readClock_eq {withinDay nanoseconds : ℤ} (hday : 0 ≤ withinDay ∧ withinDay < 86400)
    (hnanos : 0 ≤ nanoseconds ∧ nanoseconds < 1000000000) :
    readClock (clockText withinDay nanoseconds ++ "+00".toList) =
      some (withinDay * 1000000000 + nanoseconds) := by
  have htake : (clockText withinDay nanoseconds ++ "+00".toList).take
      ((clockText withinDay nanoseconds ++ "+00".toList).length - 3) =
        clockText withinDay nanoseconds := by
    rw [List.length_append]
    exact List.take_left' rfl
  rw [readClock, if_pos (List.suffix_append _ _), htake, clockText,
    readTime_eq (by omega) (by omega) (by omega) hnanos]
  congr 1
  omega

/-- What is written of an instant denotes what its date denotes, with its time of day. -/
lemma readTimestamp_eq (date : Gregorian.Date) {withinDay nanoseconds : ℤ}
    (hday : 0 ≤ withinDay ∧ withinDay < 86400)
    (hnanos : 0 ≤ nanoseconds ∧ nanoseconds < 1000000000) :
    readTimestamp ([' '].intercalate [['-'].intercalate [signedPadded 4 date.year,
      padded 2 date.month.toNat, padded 2 date.day.toNat],
      clockText withinDay nanoseconds ++ "+00".toList]) =
      (readDate (['-'].intercalate [signedPadded 4 date.year, padded 2 date.month.toNat,
        padded 2 date.day.toNat])).map fun date =>
          date.toDay * 86400000000000 + (withinDay * 1000000000 + nanoseconds) := by
  have hyear : ' ' ∉ signedPadded 4 date.year := by
    unfold signedPadded
    split_ifs <;> simp [notMem_padded]
  have hfraction : ' ' ∉ fractionText nanoseconds := by
    unfold fractionText
    split_ifs <;> simp [notMem_padded]
  have hsplit : ([' '].intercalate [['-'].intercalate [signedPadded 4 date.year,
      padded 2 date.month.toNat, padded 2 date.day.toNat],
      clockText withinDay nanoseconds ++ "+00".toList]).splitOn ' ' =
        [['-'].intercalate [signedPadded 4 date.year, padded 2 date.month.toNat,
          padded 2 date.day.toNat], clockText withinDay nanoseconds ++ "+00".toList] :=
    List.splitOn_intercalate ' ' (by simp [clockText, notMem_padded, hyear, hfraction]) (by simp)
  unfold readTimestamp
  rw [hsplit]
  dsimp only
  rw [readClock_eq hday hnanos]
  cases readDate (['-'].intercalate [signedPadded 4 date.year, padded 2 date.month.toNat,
    padded 2 date.day.toNat]) <;> rfl

/-- The first day of year 1. -/
lemma one_le_year_iff (n : ℤ) : 1 ≤ (Gregorian.ofDay n).year ↔ -719162 ≤ n := by
  have hyear := (Gregorian.valid_ofDay n).newYear_le
  rw [Gregorian.toDay_ofDay] at hyear
  have hone : Gregorian.newYear 1 = -719162 := by decide
  constructor
  · intro h
    have hmono := Gregorian.newYear_mono h
    omega
  · intro h
    by_contra hlt
    have hmono : Gregorian.newYear ((Gregorian.ofDay n).year + 1) ≤ Gregorian.newYear 1 :=
      Gregorian.newYear_mono (by omega)
    omega

lemma readTimestamp_formatTimestamp_iff (t : Timestamp) :
    (formatTimestamp t).bind readTimestamp = some t.nanos ↔ -62135596800 ≤ t.unixSeconds.1 := by
  have hnanos : 0 ≤ t.nanoseconds ∧ t.nanoseconds < 1000000000 := ⟨t.nonneg, t.lt⟩
  have hformat : formatTimestamp t = some ([' '].intercalate [['-'].intercalate
      [signedPadded 4 (Gregorian.ofDay (t.unixSeconds.1 / 86400)).year,
        padded 2 (Gregorian.ofDay (t.unixSeconds.1 / 86400)).month.toNat,
        padded 2 (Gregorian.ofDay (t.unixSeconds.1 / 86400)).day.toNat],
      clockText (t.unixSeconds.1 % 86400) t.nanoseconds ++ "+00".toList]) := by
    unfold formatTimestamp
    rw [civilFromDays_eq t.daysFit]
    rfl
  rw [hformat, Option.bind_some, readTimestamp_eq _ (by omega) hnanos]
  have hyear := one_le_year_iff (t.unixSeconds.1 / 86400)
  by_cases hone : 1 ≤ (Gregorian.ofDay (t.unixSeconds.1 / 86400)).year
  · rw [readDate_eq (Gregorian.valid_ofDay _) hone, Option.map_some, Gregorian.toDay_ofDay]
    unfold Timestamp.nanos
    have hday := hyear.mp hone
    rw [Option.some.injEq]
    omega
  · rw [readDate_eq_none (Int.not_le.mp hone), Option.map_none]
    simp only [reduceCtorEq, false_iff]
    omega

/-- What is written of a value denotes it: of an interval unless it has less than a second that is
negative, of an instant from year 1 on. A decimal number is read back unless its mantissa is the
least. -/
theorem text_denotes_iff (i : Interval) (d : Decimal) (t : Timestamp) :
    (readInterval i.display = some i.numbers ↔
      ¬(-1000000 < i.microseconds.1 ∧ i.microseconds.1 < 0)) ∧
    readNumber d.display = some (d.mantissa.1, d.scale) ∧
    ((formatTimestamp t).bind readTimestamp = some t.nanos ↔
      -62135596800 ≤ t.unixSeconds.1) ∧
    (Decimal.parse d.display = .ok d ↔ d.mantissa.1 ≠ -2 ^ 127) :=
  ⟨readInterval_display_iff i, Decimal.readNumber_display d, readTimestamp_formatTimestamp_iff t,
    Decimal.parse_display_iff d⟩

/-- Half a second less than nothing is written as half a second. -/
theorem text_loses_sign :
    ¬ ((∀ i : Interval, readInterval i.display = some i.numbers) ∧
      (∀ d : Decimal, readNumber d.display = some (d.mantissa.1, d.scale)) ∧
      (∀ t : Timestamp, (formatTimestamp t).bind readTimestamp = some t.nanos) ∧
      ∀ d : Decimal, Decimal.parse d.display = .ok d) := by
  rintro ⟨hinterval, -⟩
  have h := (readInterval_display_iff ⟨⟨0, by decide⟩, ⟨0, by decide⟩, ⟨-500000, by decide⟩⟩).mp
    (hinterval _)
  exact h ⟨by decide, by decide⟩

end Moso.Sql
