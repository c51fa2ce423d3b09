import Moso.Foundation.Gregorian
import Moso.Foundation.Word
import Mathlib.Data.Nat.Notation
import Mathlib.Tactic.Common

/-!
# Instants, dates, intervals and their conversions

An instant is a count of seconds since the Unix epoch with a sub-second remainder. The conversions
between units and to the calendar are machine arithmetic: `none` is a result, of the whole or of a
step, that does not fit its type. The constructors of dates and times of day check them against the
calendar and the clock.
-/

namespace Moso.Sql

/-- A signed 64-bit number. -/
abbrev I64 := {n : ℤ // i64Min ≤ n ∧ n ≤ i64Max}

/-- A signed 32-bit number. -/
abbrev I32 := {n : ℤ // -2 ^ 31 ≤ n ∧ n < 2 ^ 31}

def toI64 (n : ℤ) : Option I64 := if h : i64Min ≤ n ∧ n ≤ i64Max then some ⟨n, h⟩ else none

/-- A result that has to fit an `i64`. -/
def i64 (n : ℤ) : Option ℤ := (toI64 n).map (·.1)

def add (a b : ℤ) : Option ℤ := i64 (a + b)

def sub (a b : ℤ) : Option ℤ := i64 (a - b)

def mul (a b : ℤ) : Option ℤ := i64 (a * b)

/-- Why a value could not be built. -/
inductive ValueError where
  | scale (scale max : ℕ)
  | decimal (text : List Char)
  | nanoseconds (nanoseconds : ℕ)
  | month (month : ℕ)
  | day (year : ℤ) (month day : ℕ)
  | hour (hour : ℕ)
  | minute (minute : ℕ)
  | second (second : ℕ)
  deriving DecidableEq

/-- An instant, as `timestamptz` stores one. -/
structure Timestamp where
  unixSeconds : I64
  nanoseconds : ℤ
  nonneg : 0 ≤ nanoseconds
  lt : nanoseconds < 1000000000

/-- The months, days and microseconds of an interval. -/
structure Interval where
  months : I32
  days : I32
  microseconds : I64

namespace Timestamp

/-- `Timestamp::new`. -/
def new (unixSeconds : I64) (nanoseconds : ℕ) : Except ValueError Timestamp :=
  if h : 1000000000 ≤ nanoseconds then .error (.nanoseconds nanoseconds)
  else .ok ⟨unixSeconds, nanoseconds, by omega, by omega⟩

/-- `from_unix_millis`; the fields say that no step leaves its type. -/
def fromUnixMillis (millis : I64) : Timestamp where
  unixSeconds := ⟨millis / 1000, by
    have h := millis.2
    unfold i64Min i64Max at *
    omega⟩
  nanoseconds := millis % 1000 * 1000000
  nonneg := by omega
  lt := by omega

variable (t : Timestamp)

def toUnixMillis : Option ℤ := do
  add (← mul t.unixSeconds 1000) (t.nanoseconds / 1000000)

def postgresEpochUnixSeconds : ℤ := 946684800

def toPostgresMicros : Option ℤ := do
  add (← mul (← sub t.unixSeconds postgresEpochUnixSeconds) 1000000) (t.nanoseconds / 1000)

/-- The instant in nanoseconds since the Unix epoch. -/
def nanos : ℤ := t.unixSeconds * 1000000000 + t.nanoseconds

/-- The milliseconds fit, with the product that they are computed from. -/
def MillisFit : Prop :=
  -9223372036854775 ≤ t.unixSeconds.1 ∧ (t.unixSeconds.1 < 9223372036854775 ∨
    t.unixSeconds.1 = 9223372036854775 ∧ t.nanoseconds < 808000000)

/-- The microseconds since the PostgreSQL epoch fit, with the product that they are computed
from. -/
def MicrosFit : Prop :=
  -9223372036854 ≤ t.unixSeconds.1 - postgresEpochUnixSeconds ∧
    (t.unixSeconds.1 - postgresEpochUnixSeconds < 9223372036854 ∨
      t.unixSeconds.1 - postgresEpochUnixSeconds = 9223372036854 ∧ t.nanoseconds < 775808000)

end Timestamp

/-- `Interval::from_seconds`. -/
def Interval.fromSeconds (seconds : I64) : Option Interval := do
  return ⟨⟨0, by decide⟩, ⟨0, by decide⟩, ← toI64 (seconds.1 * 1000000)⟩

/-- The months, days and microseconds, as numbers. -/
def Interval.numbers (interval : Interval) : ℤ × ℤ × ℤ :=
  (interval.months, interval.days, interval.microseconds)

/-- The narrowing to `u32`, or the number to go on with. -/
def u32Or (default n : ℤ) : ℤ := if 0 ≤ n ∧ n ≤ u32Max then n else default

/-- The era of a day counted from 1 March of year 0: a floor, by a division that truncates. -/
def eraOf (shifted : ℤ) : Option ℤ :=
  (if 0 ≤ shifted then some shifted else sub shifted 146096).map (·.tdiv 146097)

def yearOfEra (dayOfEra : ℤ) : Option ℤ := do
  let years ← sub (← add (← sub dayOfEra (dayOfEra.tdiv 1460)) (dayOfEra.tdiv 36524))
    (dayOfEra.tdiv 146096)
  return years.tdiv 365

def dayOfYear (dayOfEra yearOfEra : ℤ) : Option ℤ := do
  sub dayOfEra (← sub (← add (← mul 365 yearOfEra) (yearOfEra.tdiv 4)) (yearOfEra.tdiv 100))

def monthIndex (dayOfYear : ℤ) : Option ℤ := do
  return (← add (← mul 5 dayOfYear) 2).tdiv 153

def dayOfMonth (dayOfYear monthIndex : ℤ) : Option ℤ := do
  add (← sub dayOfYear ((← add (← mul 153 monthIndex) 2).tdiv 5)) 1

def monthNumber (monthIndex : ℤ) : Option ℤ :=
  if monthIndex < 10 then add monthIndex 3 else sub monthIndex 9

/-- Days since 1970-01-01 to a proleptic Gregorian date. -/
def civilFromDays (days : ℤ) : Option Gregorian.Date := do
  let shifted ← add days 719468
  let era ← eraOf shifted
  let dayOfEra ← sub shifted (← mul era 146097)
  let yearOfEra ← yearOfEra dayOfEra
  let year ← add yearOfEra (← mul era 400)
  let dayOfYear ← dayOfYear dayOfEra yearOfEra
  let monthIndex ← monthIndex dayOfYear
  let day := u32Or 1 (← dayOfMonth dayOfYear monthIndex)
  let month := u32Or 1 (← monthNumber monthIndex)
  return ⟨← add year (if month ≤ 2 then 1 else 0), month, day⟩

/-- The day counts whose shift fits. -/
def DaysFit (days : ℤ) : Prop := -9223372036854775808 + 146096 - 719468 ≤ days ∧
  days ≤ 9223372036854775807 - 719468

/-- An instant is what `new` accepts. -/
lemma Timestamp.new_eq_ok_iff {seconds : I64} {nanoseconds : ℕ} {t : Timestamp} :
    new seconds nanoseconds = .ok t ↔ t.unixSeconds = seconds ∧ t.nanoseconds = nanoseconds := by
  obtain ⟨s, n, hnonneg, hlt⟩ := t
  unfold new
  split_ifs with h
  · simp only [reduceCtorEq, false_iff, not_and]
    omega
  · simp [eq_comm]

/-! ### Steps that fit -/

variable {n a b : ℤ}

lemma i64_eq_some_iff : i64 n = some a ↔
    a = n ∧ -9223372036854775808 ≤ n ∧ n ≤ 9223372036854775807 := by
  have hmin : i64Min = -9223372036854775808 := rfl
  have hmax : i64Max = 9223372036854775807 := rfl
  unfold i64 toI64
  split_ifs with h
  · simp only [Option.map_some, Option.some.injEq]
    omega
  · simp only [Option.map_none, reduceCtorEq, false_iff]
    omega

lemma i64_eq (hmin : -9223372036854775808 ≤ n) (hmax : n ≤ 9223372036854775807) :
    i64 n = some n := i64_eq_some_iff.2 ⟨rfl, hmin, hmax⟩

lemma add_eq (h : a + b = n) (hmin : -9223372036854775808 ≤ n) (hmax : n ≤ 9223372036854775807) :
    add a b = some n := by
  rw [add, h, i64_eq hmin hmax]

lemma sub_eq (h : a - b = n) (hmin : -9223372036854775808 ≤ n) (hmax : n ≤ 9223372036854775807) :
    sub a b = some n := by
  rw [sub, h, i64_eq hmin hmax]

lemma mul_eq (h : a * b = n) (hmin : -9223372036854775808 ≤ n) (hmax : n ≤ 9223372036854775807) :
    mul a b = some n := by
  rw [mul, h, i64_eq hmin hmax]

lemma bind_i64_eq_some_iff {f : ℤ → Option ℤ} {c : ℤ} : (i64 n >>= f) = some c ↔
    (-9223372036854775808 ≤ n ∧ n ≤ 9223372036854775807) ∧ f n = some c := by
  rw [Option.bind_eq_bind, Option.bind_eq_some_iff]
  constructor
  · rintro ⟨a, ha, hf⟩
    obtain ⟨rfl, h⟩ := i64_eq_some_iff.1 ha
    exact ⟨h, hf⟩
  · rintro ⟨h, hf⟩
    exact ⟨n, i64_eq h.1 h.2, hf⟩

/-- Milliseconds are exact where they fit. -/
lemma Timestamp.toUnixMillis_eq_iff (t : Timestamp) :
    t.toUnixMillis = some (t.nanos / 1000000) ↔ t.MillisFit := by
  have hnonneg := t.nonneg
  have hlt := t.lt
  rw [toUnixMillis, mul, bind_i64_eq_some_iff, add, i64_eq_some_iff]
  unfold nanos MillisFit
  omega

lemma Timestamp.toPostgresMicros_eq_iff (t : Timestamp) :
    t.toPostgresMicros = some ((t.nanos - postgresEpochUnixSeconds * 1000000000) / 1000) ↔
      t.MicrosFit := by
  have hnonneg := t.nonneg
  have hlt := t.lt
  simp only [toPostgresMicros, mul, sub, bind_i64_eq_some_iff, add, i64_eq_some_iff]
  unfold nanos MicrosFit postgresEpochUnixSeconds
  omega

lemma Interval.fromSeconds_eq_iff (seconds : I64) :
    (fromSeconds seconds).map numbers = some (0, 0, seconds.1 * 1000000) ↔
      -9223372036854 ≤ seconds.1 ∧ seconds.1 ≤ 9223372036854 := by
  have hi64 : (fromSeconds seconds).map numbers =
      (i64 (seconds.1 * 1000000)).map fun micros => (0, 0, micros) := by
    unfold fromSeconds i64
    cases toI64 (seconds.1 * 1000000) <;> rfl
  rw [hi64, Option.map_eq_some_iff]
  constructor
  · rintro ⟨micros, hmicros, -⟩
    have h := i64_eq_some_iff.1 hmicros
    omega
  · rintro ⟨hmin, hmax⟩
    exact ⟨_, i64_eq (by omega) (by omega), rfl⟩

/-- Milliseconds come back where their whole seconds do. -/
lemma Timestamp.toUnixMillis_fromUnixMillis_iff (millis : I64) :
    (fromUnixMillis millis).toUnixMillis = some millis.1 ↔ -9223372036854775000 ≤ millis.1 := by
  have h := millis.2
  unfold i64Min i64Max at h
  rw [toUnixMillis, mul, bind_i64_eq_some_iff, add, i64_eq_some_iff]
  unfold fromUnixMillis
  dsimp only
  omega

/-! ### The calendar -/

lemma eraOf_eq (hmin : -9223372036854775808 + 146096 ≤ n) :
    eraOf n = some (n / 146097) := by
  unfold eraOf
  split_ifs with h
  · rw [Option.map_some, Int.tdiv_eq_ediv_of_nonneg h]
  · rw [sub_eq rfl (by omega) (by omega), Option.map_some, ← Int.neg_neg (n - 146096),
      Int.neg_tdiv, Int.tdiv_eq_ediv_of_nonneg (by omega)]
    congr 1
    omega

/-- A step that fits goes on with its result. -/
lemma bind_eq_of {α : Type} {x : Option ℤ} {f : ℤ → Option α} (h : x = some n) :
    (x >>= f) = f n := by
  rw [h]
  rfl

lemma yearOfEra_eq (hmin : 0 ≤ n) (hmax : n ≤ 146096) :
    yearOfEra n = some ((n - n / 1460 + n / 36524 - n / 146096) / 365) := by
  unfold yearOfEra
  simp only [Int.tdiv_eq_ediv_of_nonneg hmin]
  rw [bind_eq_of (sub_eq rfl (by omega) (by omega)), bind_eq_of (add_eq rfl (by omega) (by omega)),
    bind_eq_of (sub_eq rfl (by omega) (by omega)), Int.tdiv_eq_ediv_of_nonneg (by omega)]
  rfl

lemma dayOfYear_eq {dayOfEra : ℤ} (hday : 0 ≤ dayOfEra ∧ dayOfEra ≤ 146096)
    (hyear : 0 ≤ n ∧ n ≤ 399) :
    dayOfYear dayOfEra n = some (dayOfEra - (365 * n + n / 4 - n / 100)) := by
  unfold dayOfYear
  simp only [Int.tdiv_eq_ediv_of_nonneg hyear.1]
  rw [bind_eq_of (mul_eq rfl (by omega) (by omega)), bind_eq_of (add_eq rfl (by omega) (by omega)),
    bind_eq_of (sub_eq rfl (by omega) (by omega)), sub_eq rfl (by omega) (by omega)]

lemma monthIndex_eq (hday : 0 ≤ n ∧ n ≤ 365) : monthIndex n = some (Gregorian.marchMonth n) := by
  unfold monthIndex
  rw [bind_eq_of (mul_eq rfl (by omega) (by omega)), bind_eq_of (add_eq rfl (by omega) (by omega)),
    Int.tdiv_eq_ediv_of_nonneg (by omega)]
  rfl

lemma dayOfMonth_eq (hday : 0 ≤ n ∧ n ≤ 365) (ha : 0 ≤ a ∧ a ≤ 11) :
    dayOfMonth n a = some (n - Gregorian.monthStart a + 1) := by
  unfold dayOfMonth Gregorian.monthStart
  rw [bind_eq_of (mul_eq rfl (by omega) (by omega)), bind_eq_of (add_eq rfl (by omega) (by omega)),
    Int.tdiv_eq_ediv_of_nonneg (by omega), bind_eq_of (sub_eq rfl (by omega) (by omega)),
    add_eq rfl (by omega) (by omega)]

lemma monthNumber_eq (ha : 0 ≤ a ∧ a ≤ 11) :
    monthNumber a = some (if a < 10 then a + 3 else a - 9) := by
  unfold monthNumber
  split_ifs
  · exact add_eq rfl (by omega) (by omega)
  · exact sub_eq rfl (by omega) (by omega)

lemma u32Or_eq (h : 0 ≤ n ∧ n ≤ 366) : u32Or a n = n :=
  if_pos ⟨h.1, h.2.trans (by decide)⟩

/-- Where the shift of the epoch fits all steps do, and their result is the date of the day. -/
lemma civilFromDays_eq {days : ℤ} (h : DaysFit days) :
    civilFromDays days = some (Gregorian.ofDay days) := by
  obtain ⟨hmin, hmax⟩ := h
  unfold Gregorian.ofDay
  obtain ⟨z, hz⟩ : ∃ z, days + 719468 = z := ⟨_, rfl⟩
  have hyear := Gregorian.marchYear_eq_closed z
  have hbounds := Gregorian.dayOfYear_bounds z
  rw [hz]
  obtain ⟨era, hera⟩ : ∃ era, z / 146097 = era := ⟨_, rfl⟩
  obtain ⟨doe, hdoe⟩ : ∃ doe, z % 146097 = doe := ⟨_, rfl⟩
  obtain ⟨yoe, hyoe⟩ : ∃ yoe, (doe - doe / 1460 + doe / 36524 - doe / 146096) / 365 = yoe :=
    ⟨_, rfl⟩
  have hyoe' : 0 ≤ yoe ∧ yoe ≤ 399 := by omega
  rw [hera, hdoe, hyoe] at hyear
  obtain ⟨doy, hdoy⟩ : ∃ doy, z - Gregorian.marchStart (Gregorian.marchYear z) = doy := ⟨_, rfl⟩
  have hdoy' : doe - (365 * yoe + yoe / 4 - yoe / 100) = doy := by
    rw [hyear, Gregorian.marchStart_era hyoe'] at hdoy
    have hz : z = 146097 * era + doe := by omega
    clear hyoe
    omega
  rw [hdoy] at hbounds
  have hdoy366 : 0 ≤ doy ∧ doy ≤ 365 := by
    split_ifs at hbounds <;> omega
  have hmonth : 0 ≤ Gregorian.marchMonth doy ∧ Gregorian.marchMonth doy ≤ 11 := by
    unfold Gregorian.marchMonth
    omega
  have hday : 0 ≤ doy - Gregorian.monthStart (Gregorian.marchMonth doy) + 1 ∧
      doy - Gregorian.monthStart (Gregorian.marchMonth doy) + 1 ≤ 366 := by
    unfold Gregorian.monthStart Gregorian.marchMonth
    omega
  unfold civilFromDays Gregorian.ofMarch
  rw [bind_eq_of (add_eq hz (by omega) (by omega)), bind_eq_of (eraOf_eq (by omega)), hera,
    bind_eq_of (mul_eq rfl (by omega) (by omega)),
    bind_eq_of (sub_eq (n := doe) (by omega) (by omega) (by omega)),
    bind_eq_of (yearOfEra_eq (by omega) (by omega)), hyoe,
    bind_eq_of (mul_eq rfl (by omega) (by omega)), bind_eq_of (add_eq rfl (by omega) (by omega)),
    bind_eq_of (dayOfYear_eq (by omega) hyoe'), hdoy', bind_eq_of (monthIndex_eq hdoy366),
    bind_eq_of (dayOfMonth_eq hdoy366 hmonth), bind_eq_of (monthNumber_eq hmonth), u32Or_eq hday]
  dsimp only
  rw [hdoy, hyear]
  generalize Gregorian.marchMonth doy = month at hmonth
  have hnumber : 1 ≤ (if month < 10 then month + 3 else month - 9) ∧
      (if month < 10 then month + 3 else month - 9) ≤ 12 := by
    split_ifs <;> omega
  rw [u32Or_eq (by omega)]
  by_cases hlate : month < 10
  · simp only [if_pos hlate]
    rw [if_neg (by omega), bind_eq_of (add_eq rfl (by omega) (by omega))]
    simp [add_comm, mul_comm]
  · simp only [if_neg hlate]
    rw [if_pos (by omega), bind_eq_of (add_eq rfl (by omega) (by omega))]
    simp [add_comm, mul_comm]

lemma daysFit_of_civilFromDays {days : I64} {date : Gregorian.Date}
    (h : civilFromDays days = some date) : DaysFit days := by
  unfold civilFromDays at h
  simp only [Option.bind_eq_bind, Option.bind_eq_some_iff] at h
  obtain ⟨z, hz, era, hera, -⟩ := h
  obtain ⟨rfl, -, hmax⟩ := i64_eq_some_iff.1 hz
  have hmin := days.2
  unfold i64Min i64Max at hmin
  refine ⟨?_, by omega⟩
  unfold eraOf at hera
  split_ifs at hera with hneg
  · omega
  · obtain ⟨a, ha, -⟩ := Option.map_eq_some_iff.mp hera
    obtain ⟨rfl, hle, -⟩ := i64_eq_some_iff.1 ha
    omega

/-- The day counts of instants fit. -/
lemma Timestamp.daysFit (t : Timestamp) : DaysFit (t.unixSeconds / 86400) := by
  have h := t.unixSeconds.2
  unfold i64Min i64Max at h
  unfold DaysFit
  omega

/-- A date with the number of a day. -/
def IsCivil (days : ℤ) (date : Option Gregorian.Date) : Prop :=
  ∃ d, date = some d ∧ d.Valid ∧ d.toDay = days

lemma isCivil_of_daysFit {days : ℤ} (h : DaysFit days) : IsCivil days (civilFromDays days) :=
  ⟨_, civilFromDays_eq h, Gregorian.valid_ofDay days, Gregorian.toDay_ofDay days⟩

/-- When the conversions are exact. -/
theorem conversions_exact_iff (t : Timestamp) (n : I64) :
    (t.toUnixMillis = some (t.nanos / 1000000) ↔ t.MillisFit) ∧
    (t.toPostgresMicros =
      some ((t.nanos - Timestamp.postgresEpochUnixSeconds * 1000000000) / 1000) ↔ t.MicrosFit) ∧
    ((Interval.fromSeconds n).map Interval.numbers = some (0, 0, n.1 * 1000000) ↔
      -9223372036854 ≤ n.1 ∧ n.1 ≤ 9223372036854) ∧
    (Timestamp.fromUnixMillis n).nanos = n.1 * 1000000 ∧
    ((Timestamp.fromUnixMillis n).toUnixMillis = some n.1 ↔ -9223372036854775000 ≤ n.1) ∧
    IsCivil (t.unixSeconds / 86400) (civilFromDays (t.unixSeconds / 86400)) ∧
    (IsCivil n (civilFromDays n) ↔ DaysFit n) := by
  refine ⟨Timestamp.toUnixMillis_eq_iff t, Timestamp.toPostgresMicros_eq_iff t,
    Interval.fromSeconds_eq_iff n, ?_, Timestamp.toUnixMillis_fromUnixMillis_iff n,
    isCivil_of_daysFit t.daysFit, ⟨?_, isCivil_of_daysFit⟩⟩
  · unfold Timestamp.nanos Timestamp.fromUnixMillis
    dsimp only
    omega
  · rintro ⟨date, hdate, -⟩
    exact daysFit_of_civilFromDays hdate

/-- Not every instant from milliseconds has its milliseconds. -/
theorem conversions_overflow :
    ¬ ((∀ t : Timestamp, t.toUnixMillis = some (t.nanos / 1000000)) ∧
      (∀ t : Timestamp, t.toPostgresMicros =
        some ((t.nanos - Timestamp.postgresEpochUnixSeconds * 1000000000) / 1000)) ∧
      (∀ seconds : I64, (Interval.fromSeconds seconds).map Interval.numbers =
        some (0, 0, seconds.1 * 1000000)) ∧
      (∀ millis : I64, (Timestamp.fromUnixMillis millis).toUnixMillis = some millis.1) ∧
      ∀ days : I64, IsCivil days (civilFromDays days)) := by
  rintro ⟨-, -, -, hmillis, -⟩
  have h := (Timestamp.toUnixMillis_fromUnixMillis_iff ⟨i64Min, by decide⟩).mp (hmillis _)
  exact absurd h (by decide)

/-! ### Dates and times of day -/

/-- Whether a year is a leap year, with remainders that have the sign of the year. -/
def isLeapYear (year : ℤ) : Bool :=
  (year.tmod 4 = 0 && year.tmod 100 ≠ 0) || year.tmod 400 = 0

def daysInMonth (year : ℤ) (month : ℕ) : ℕ :=
  if month ∈ [1, 3, 5, 7, 8, 10, 12] then 31
  else if month ∈ [4, 6, 9, 11] then 30
  else if month = 2 ∧ isLeapYear year then 29
  else 28

/-- A calendar date. -/
structure Date where
  year : I32
  month : ℕ
  day : ℕ
  month_bounds : ¬ (month = 0 ∨ 12 < month)
  day_bounds : ¬ (day = 0 ∨ daysInMonth year.1 month < day)

def Date.new (year : I32) (month day : ℕ) : Except ValueError Date :=
  if hmonth : month = 0 ∨ 12 < month then .error (.month month)
  else if hday : day = 0 ∨ daysInMonth year.1 month < day then .error (.day year.1 month day)
  else .ok ⟨year, month, day, hmonth, hday⟩

/-- A wall-clock time. -/
structure Time where
  hour : ℕ
  minute : ℕ
  second : ℕ
  nanosecond : ℕ
  hour_le : hour ≤ 23
  minute_le : minute ≤ 59
  second_le : second ≤ 59
  nanosecond_lt : nanosecond < 1000000000

def Time.new (hour minute second nanosecond : ℕ) : Except ValueError Time :=
  if hhour : 23 < hour then .error (.hour hour)
  else if hminute : 59 < minute then .error (.minute minute)
  else if hsecond : 59 < second then .error (.second second)
  else if hnanosecond : 1000000000 ≤ nanosecond then .error (.nanoseconds nanosecond)
  else .ok ⟨hour, minute, second, nanosecond, Nat.le_of_not_lt hhour, Nat.le_of_not_lt hminute,
    Nat.le_of_not_lt hsecond, Nat.lt_of_not_le hnanosecond⟩

/-! ### What the constructors accept -/

variable {d : Date} {t : Time} {year : I32} {month day hour minute second nanosecond : ℕ}

lemma Date.new_eq_ok_iff : Date.new year month day = .ok d ↔
    d.year = year ∧ d.month = month ∧ d.day = day := by
  obtain ⟨y, m, k, hmonth, hday⟩ := d
  unfold Date.new
  split_ifs with h h'
  · simp only [false_iff]
    rintro ⟨rfl, rfl, rfl⟩
    exact hmonth h
  · simp only [false_iff]
    rintro ⟨rfl, rfl, rfl⟩
    exact hday h'
  · simp [eq_comm]

lemma Time.new_eq_ok_iff : Time.new hour minute second nanosecond = .ok t ↔
    t.hour = hour ∧ t.minute = minute ∧ t.second = second ∧ t.nanosecond = nanosecond := by
  obtain ⟨h, m, s, n, hhour, hminute, hsecond, hnanosecond⟩ := t
  unfold Time.new
  split_ifs <;> simp only [false_iff, Except.ok.injEq, Time.mk.injEq] <;> omega

end Moso.Sql
