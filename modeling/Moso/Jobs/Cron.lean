import Moso.Foundation.Gregorian
import Moso.Foundation.Json
import Moso.Foundation.Fallible
import Mathlib.Data.Nat.Bitwise

/-!
# Cron expressions

The five fields of a cron expression, read into masks over the values of each, and the days and
minutes they match. Text is a list of characters.
-/

namespace Moso.Jobs.Cron

open Gregorian
open Decimal (isWhitespace trim)
open Text (splitOnce)

/-- One parsed expression. -/
structure Expression where
  /-- Which minutes, 0–59. -/
  minutes : ℕ
  /-- Which hours, 0–23. -/
  hours : ℕ
  /-- Which days of the month, 1–31. -/
  days : ℕ
  /-- Which months, 1–12. -/
  months : ℕ
  /-- Which days of the week, 0–6 with Sunday at 0. -/
  weekdays : ℕ
  daysRestricted : Bool
  weekdaysRestricted : Bool
  deriving DecidableEq, Repr

/-! ### One field -/

def months : List (String × ℕ) :=
  [("jan", 1), ("feb", 2), ("mar", 3), ("apr", 4), ("may", 5), ("jun", 6), ("jul", 7), ("aug", 8),
    ("sep", 9), ("oct", 10), ("nov", 11), ("dec", 12)]

def weekdays : List (String × ℕ) :=
  [("sun", 0), ("mon", 1), ("tue", 2), ("wed", 3), ("thu", 4), ("fri", 5), ("sat", 6)]

def toAsciiLowercase (cs : List Char) : List Char := cs.map Char.toLower

def splitWhitespace (cs : List Char) : List (List Char) :=
  (cs.splitOnP isWhitespace).filter (· ≠ [])

/-- A number, or one of the three-letter names. -/
def valueOf (text : List Char) (names : List (String × ℕ)) : Option ℕ :=
  match Decimal.parse 255 (trim text) with
  | some number => some number
  | none =>
    (names.find? fun entry => entry.1.toList = toAsciiLowercase (trim text)).map Prod.snd

/-- What a field is called, what it may hold, and the text it belongs to. -/
structure Field where
  expression : List Char
  name : String
  min : ℕ
  max : ℕ
  names : List (String × ℕ)

/-- The message for a field that does not parse. -/
def Field.badField (field : Field) (part : List Char) : String :=
  s!"the {field.name} field of `{String.ofList field.expression}` does not accept " ++
    s!"`{String.ofList part}`\nhelp: {field.name} is {field.min}–{field.max}, and each field is " ++
    s!"`*`, a number, `{field.min}-{field.max}`, a comma-separated list, or any of those with " ++
    "`/step`"

/-- What stands before the step, and the step. -/
def Field.stepOf (field : Field) (part : List Char) : Except String (List Char × ℕ) :=
  match splitOnce '/' part with
  | none => .ok (part, 1)
  | some (range, step) => match Decimal.parse 255 step with
    | none => .error (field.badField part)
    | some 0 => .error (s!"the {field.name} field of `{String.ofList field.expression}` has a " ++
        "step of zero\nhelp: `*/5` means every fifth value; a step must be at least 1")
    | some (n + 1) => .ok (range, n + 1)

def Field.value (field : Field) (part text : List Char) : Except String ℕ :=
  match valueOf text field.names with
  | some value => .ok value
  | none       => .error (field.badField part)

/-- The first value and the last. A bare start with a step goes on to the end of the range. -/
def Field.boundsOf (field : Field) (part range : List Char) (step : ℕ) : Except String (ℕ × ℕ) :=
  if range = ['*'] then .ok (field.min, field.max)
  else match splitOnce '-' range with
    | some (lo, hi) => do
      let lo ← field.value part lo
      let hi ← field.value part hi
      return (lo, hi)
    | none => do
      let single ← field.value part range
      return (single, if 1 < step then field.max else single)

/-- Set every `step`-th bit from `value` to `hi`. A value past 255 is past `hi`. -/
def mark (hi step : ℕ) : ℕ → ℕ → ℕ → ℕ
  | 0, _, mask => mask
  | fuel + 1, value, mask =>
    if value ≤ hi then mark hi step fuel (value + step) (mask ||| 1 <<< value) else mask

def Field.parsePart (field : Field) (mask : ℕ) (part : List Char) : Except String ℕ :=
  if trim part = [] then .error (field.badField (trim part))
  else do
    let (range, step) ← field.stepOf (trim part)
    let (lo, hi) ← field.boundsOf (trim part) range step
    if lo < field.min ∨ field.max < hi ∨ hi < lo then .error (field.badField (trim part))
    else return mark hi step (hi + 1 - lo) lo mask

/-- Parse one field into a mask over its range. -/
def Field.parseField (field : Field) (text : List Char) : Except String ℕ :=
  (Json.split ',' text).foldlM field.parsePart 0

/-! ### Five fields -/

def expand (expression : List Char) : List Char :=
  let lowered := toAsciiLowercase expression
  if lowered = "@yearly".toList ∨ lowered = "@annually".toList then "0 0 1 1 *".toList
  else if lowered = "@monthly".toList then "0 0 1 * *".toList
  else if lowered = "@weekly".toList then "0 0 * * 0".toList
  else if lowered = "@daily".toList ∨ lowered = "@midnight".toList then "0 0 * * *".toList
  else if lowered = "@hourly".toList then "0 * * * *".toList
  else expression

/-- Parse a five-field expression, or one of the shorthands. -/
def Expression.parse (text : List Char) : Except String Expression :=
  let expression := trim text
  match splitWhitespace (expand expression) with
  | [minute, hour, day, month, weekday] => do
    let minutes ← (Field.mk expression "minute" 0 59 []).parseField minute
    let hours ← (Field.mk expression "hour" 0 23 []).parseField hour
    let days ← (Field.mk expression "day-of-month" 1 31 []).parseField day
    let months ← (Field.mk expression "month" 1 12 Cron.months).parseField month
    -- 7 is Sunday as well as 0
    let weekdays ← (Field.mk expression "day-of-week" 0 7 Cron.weekdays).parseField weekday
    return {
      minutes, hours, days, months
      weekdays := (weekdays ||| weekdays >>> 7) &&& 0x7f
      daysRestricted := day ≠ ['*']
      weekdaysRestricted := weekday ≠ ['*'] }
  | fields => .error (s!"`{String.ofList expression}` has {fields.length} field(s); a cron " ++
      "expression has five\nhelp: minute hour day-of-month month day-of-week — `0 3 * * *` is " ++
      "03:00 daily\nhelp: `@hourly`, `@daily`, `@weekly`, `@monthly` and `@yearly` also work")

/-! ### What it matches -/

/-- Whether it fires at `hour:minute` on some day. -/
def Expression.matchesMinute (expr : Expression) (hour minute : ℕ) : Bool :=
  expr.hours.testBit hour && expr.minutes.testBit minute

/-- Whether it fires on a date. Day of the month and day of the week are *or*-ed when both are
restricted. -/
def Expression.matchesDate (expr : Expression) (date : Date) : Bool :=
  if expr.months.testBit date.month.toNat = false then false
  else
    let dayOk := expr.days.testBit date.day.toNat
    let weekday := (numDaysFromMonday date.toDay + 1) % 7
    let weekdayOk := expr.weekdays.testBit weekday.toNat
    match expr.daysRestricted, expr.weekdaysRestricted with
    | true, true   => dayOk || weekdayOk
    | true, false  => dayOk
    | false, true  => weekdayOk
    | false, false => true

/-! ### What a parsed expression holds -/

section Parsed

variable {hi step fuel value mask mask' i : ℕ} {field : Field} {text part : List Char}
  {expr : Expression}

lemma testBit_mark (h : mask.testBit i) : (mark hi step fuel value mask).testBit i := by
  induction fuel generalizing value mask with
  | zero => exact h
  | succ fuel ih =>
    rw [mark]
    split_ifs
    · exact ih (by simp [h])
    · exact h

lemma testBit_mark_value (h : value ≤ hi) :
    (mark hi step (hi + 1 - value) value mask).testBit value := by
  obtain ⟨fuel, hfuel⟩ : ∃ fuel, hi + 1 - value = fuel + 1 := ⟨hi - value, by omega⟩
  rw [hfuel, mark, if_pos h]
  exact testBit_mark (by simp)

/-- A part keeps the bits before it and adds one in the range of the field. -/
lemma Field.testBit_parsePart (h : field.parsePart mask part = .ok mask') :
    (∀ i, mask.testBit i → mask'.testBit i) ∧
      ∃ i, field.min ≤ i ∧ i ≤ field.max ∧ mask'.testBit i := by
  unfold Field.parsePart at h
  split_ifs at h with hpart
  obtain ⟨⟨range, step⟩, -, h⟩ := Fallible.bind_eq_ok.mp h
  obtain ⟨⟨lo, hi⟩, -, h⟩ := Fallible.bind_eq_ok.mp h
  dsimp only at h
  split_ifs at h with hrange
  obtain rfl := Except.ok.inj h
  push Not at hrange
  exact ⟨fun i hi => testBit_mark hi, lo, hrange.1, hrange.2.2.trans hrange.2.1,
    testBit_mark_value hrange.2.2⟩

/-- A field that is accepted holds a value of its range. -/
lemma Field.exists_testBit (h : field.parseField text = .ok mask) :
    ∃ i, field.min ≤ i ∧ i ≤ field.max ∧ mask.testBit i := by
  have hkept : ∀ (parts : List (List Char)) (mask mask' : ℕ),
      parts.foldlM field.parsePart mask = .ok mask' → ∀ i, mask.testBit i → mask'.testBit i := by
    intro parts
    induction parts with
    | nil =>
      intro mask mask' h i hi
      exact Except.ok.inj h ▸ hi
    | cons part parts ih =>
      intro mask mask' h i hi
      rw [List.foldlM_cons] at h
      obtain ⟨next, hnext, h⟩ := Fallible.bind_eq_ok.mp h
      exact ih next mask' h i ((testBit_parsePart hnext).1 i hi)
  unfold Field.parseField at h
  have hne : Json.split ',' text ≠ [] := Json.split_ne_nil
  obtain ⟨part, parts, hparts⟩ := List.exists_cons_of_ne_nil hne
  rw [hparts, List.foldlM_cons] at h
  obtain ⟨next, hnext, h⟩ := Fallible.bind_eq_ok.mp h
  obtain ⟨i, hmin, hmax, hi⟩ := (testBit_parsePart hnext).2
  exact ⟨i, hmin, hmax, hkept parts next mask h i hi⟩

/-- An expression has a minute, an hour and a day of the week to fire at. -/
structure Expression.Parsed (expr : Expression) : Prop where
  exists_minute : ∃ i < 60, expr.minutes.testBit i
  exists_hour : ∃ i < 24, expr.hours.testBit i
  exists_weekday : ∃ i < 7, expr.weekdays.testBit i

lemma Expression.parsed_of_parse (h : Expression.parse text = .ok expr) : expr.Parsed := by
  unfold Expression.parse at h
  dsimp only at h
  split at h
  · obtain ⟨minutes, hminutes, h⟩ := Fallible.bind_eq_ok.mp h
    obtain ⟨hours, hhours, h⟩ := Fallible.bind_eq_ok.mp h
    obtain ⟨days, hdays, h⟩ := Fallible.bind_eq_ok.mp h
    obtain ⟨months, hmonths, h⟩ := Fallible.bind_eq_ok.mp h
    obtain ⟨weekdays, hweekdays, h⟩ := Fallible.bind_eq_ok.mp h
    obtain rfl := Except.ok.inj h
    obtain ⟨minute, -, hminute, hbit⟩ := Field.exists_testBit hminutes
    obtain ⟨hour, -, hhour, hbit'⟩ := Field.exists_testBit hhours
    obtain ⟨weekday, -, hweekday, hbit''⟩ := Field.exists_testBit hweekdays
    refine ⟨⟨minute, Nat.lt_succ_of_le hminute, hbit⟩, ⟨hour, Nat.lt_succ_of_le hhour, hbit'⟩, ?_⟩
    dsimp only at hweekday
    rcases hweekday.lt_or_eq with hlt | rfl
    · refine ⟨weekday, hlt, ?_⟩
      rw [Nat.testBit_and, Nat.testBit_or, hbit'', show 0x7f = 2 ^ 7 - 1 from rfl,
        Nat.testBit_two_pow_sub_one, Bool.true_or, Bool.true_and]
      exact decide_eq_true hlt
    · -- the bit of the other Sunday
      refine ⟨0, by decide, ?_⟩
      rw [Nat.testBit_and, Nat.testBit_or, Nat.testBit_shiftRight, hbit'', Bool.or_true]
      rfl
  · cases h

end Parsed

end Moso.Jobs.Cron
