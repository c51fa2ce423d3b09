import Mathlib.Data.Int.Order.Basic
import Mathlib.Data.List.Dedup
import Mathlib.Tactic.Common
import Mathlib.Tactic.IntervalCases
import Mathlib.Tactic.NormNum

/-!
# The proleptic Gregorian calendar

Days are numbered from 1 January 1970. Counted with years that begin in March, the leap day is the
last of its year, the calendar repeats every 400 years, and the days before a month are linear up
to rounding.
-/

namespace Gregorian

/-- A date, by its numbers. -/
structure Date where
  year : ℤ
  month : ℤ
  day : ℤ
  deriving DecidableEq, Repr

def IsLeap (year : ℤ) : Prop := year % 4 = 0 ∧ (year % 100 ≠ 0 ∨ year % 400 = 0)

instance (year : ℤ) : Decidable (IsLeap year) := inferInstanceAs (Decidable (_ ∧ _))

def daysInMonth (year month : ℤ) : ℤ :=
  if month = 2 then if IsLeap year then 29 else 28
  else if month = 4 ∨ month = 6 ∨ month = 9 ∨ month = 11 then 30
  else 31

structure Date.Valid (date : Date) : Prop where
  one_le_month : 1 ≤ date.month
  month_le : date.month ≤ 12
  one_le_day : 1 ≤ date.day
  day_le : date.day ≤ daysInMonth date.year date.month

/-- The day of the week, Monday 0; 1 January 1970 was a Thursday. -/
def numDaysFromMonday (n : ℤ) : ℤ := (n + 3) % 7

/-! ### Years that begin in March -/

/-- The days before 1 March of a year, from 1 March of year 0. -/
def marchStart (year : ℤ) : ℤ := 365 * year + year / 4 - year / 100 + year / 400

/-- The year, begun in March, of a day counted from 1 March of year 0. -/
def marchYear (z : ℤ) : ℤ :=
  let dayOfEra := z % 146097
  let century := min (dayOfEra / 36524) 3
  let dayOfCentury := dayOfEra - 36524 * century
  let quad := dayOfCentury / 1461
  let yearOfQuad := min ((dayOfCentury - 1461 * quad) / 365) 3
  400 * (z / 146097) + 100 * century + 4 * quad + yearOfQuad

/-- The days before a month of such a year; March is month 0. -/
def monthStart (month : ℤ) : ℤ := (153 * month + 2) / 5

/-- The month of a day of such a year. -/
def marchMonth (dayOfYear : ℤ) : ℤ := (5 * dayOfYear + 2) / 153

lemma marchStart_succ (year : ℤ) : marchStart (year + 1) =
    marchStart year + if IsLeap (year + 1) then 366 else 365 := by
  unfold marchStart IsLeap
  split_ifs <;> omega

/-- The year of a day is the one that it falls into. -/
lemma marchStart_marchYear (z : ℤ) :
    marchStart (marchYear z) ≤ z ∧ z < marchStart (marchYear z + 1) := by
  unfold marchStart marchYear
  dsimp only
  generalize hera : z / 146097 = era
  generalize hday : z % 146097 = dayOfEra
  generalize hcentury : min (dayOfEra / 36524) 3 = century
  generalize hquad : (dayOfEra - 36524 * century) / 1461 = quad
  generalize hyear : min ((dayOfEra - 36524 * century - 1461 * quad) / 365) 3 = yearOfQuad
  have hcentury' : 0 ≤ century ∧ century ≤ 3 := by omega
  have hquad' : 0 ≤ quad ∧ quad ≤ 24 := by omega
  have hyear' : 0 ≤ yearOfQuad ∧ yearOfQuad ≤ 3 := by omega
  have h4 : (400 * era + 100 * century + 4 * quad + yearOfQuad) / 4 =
      100 * era + 25 * century + quad := by omega
  have h100 : (400 * era + 100 * century + 4 * quad + yearOfQuad) / 100 = 4 * era + century := by
    omega
  have h400 : (400 * era + 100 * century + 4 * quad + yearOfQuad) / 400 = era := by omega
  rw [h4, h100, h400]
  refine ⟨by omega, ?_⟩
  have h4' : 100 * era + 25 * century + quad + (if yearOfQuad = 3 then 1 else 0) ≤
      (400 * era + 100 * century + 4 * quad + yearOfQuad + 1) / 4 := by
    split_ifs <;> omega
  have h100' : (400 * era + 100 * century + 4 * quad + yearOfQuad + 1) / 100 =
      4 * era + century + if quad = 24 ∧ yearOfQuad = 3 then 1 else 0 := by
    split_ifs <;> omega
  have h400' : (400 * era + 100 * century + 4 * quad + yearOfQuad + 1) / 400 =
      era + if century = 3 ∧ quad = 24 ∧ yearOfQuad = 3 then 1 else 0 := by
    split_ifs <;> omega
  rw [h100', h400']
  split_ifs at * <;> omega

/-- The year within 400, in closed form, from its century, its four years and its place in them. -/
lemma yearOfEra_eq {century quad yearOfQuad dayOfYear dayOfEra : ℤ}
    (hcentury : 0 ≤ century ∧ century ≤ 3) (hquad : 0 ≤ quad ∧ quad ≤ 24)
    (hyear : 0 ≤ yearOfQuad ∧ yearOfQuad ≤ 3) (hday : 0 ≤ dayOfYear ∧ dayOfYear ≤ 365)
    (hleap : dayOfYear = 365 → yearOfQuad = 3 ∧ (quad = 24 → century = 3))
    (h : dayOfEra = 36524 * century + 1461 * quad + 365 * yearOfQuad + dayOfYear) :
    (dayOfEra - dayOfEra / 1460 + dayOfEra / 36524 - dayOfEra / 146096) / 365 =
      100 * century + 4 * quad + yearOfQuad := by
  have h1460 : dayOfEra / 1460 = 25 * century + quad +
      if 1460 ≤ 24 * century + quad + 365 * yearOfQuad + dayOfYear then 1 else 0 := by
    split_ifs <;> omega
  have h36524 : dayOfEra / 36524 = century + if dayOfEra = 146096 then 1 else 0 := by
    split_ifs <;> omega
  have h146096 : dayOfEra / 146096 = if dayOfEra = 146096 then 1 else 0 := by
    split_ifs <;> omega
  rw [h1460, h36524, h146096]
  split_ifs <;> omega

/-- The days of the years before one, from those of the eras before. -/
lemma marchStart_era {era year : ℤ} (hyear : 0 ≤ year ∧ year ≤ 399) :
    marchStart (400 * era + year) = 146097 * era + (365 * year + year / 4 - year / 100) := by
  unfold marchStart
  omega

/-- The year of a day, in closed form. -/
lemma marchYear_eq_closed (z : ℤ) : marchYear z = 400 * (z / 146097) +
    (z % 146097 - z % 146097 / 1460 + z % 146097 / 36524 - z % 146097 / 146096) / 365 := by
  unfold marchYear
  dsimp only
  generalize hday : z % 146097 = dayOfEra
  have hday' : 0 ≤ dayOfEra ∧ dayOfEra ≤ 146096 := by omega
  clear hday
  generalize hcentury : min (dayOfEra / 36524) 3 = century
  generalize hquad : (dayOfEra - 36524 * century) / 1461 = quad
  generalize hyear : min ((dayOfEra - 36524 * century - 1461 * quad) / 365) 3 = yearOfQuad
  have hcentury' : 0 ≤ century ∧ century ≤ 3 := by omega
  have hquad' : 0 ≤ quad ∧ quad ≤ 24 := by omega
  have hyear' : 0 ≤ yearOfQuad ∧ yearOfQuad ≤ 3 := by omega
  obtain ⟨dayOfYear, hrest⟩ : ∃ dayOfYear,
      dayOfEra = 36524 * century + 1461 * quad + 365 * yearOfQuad + dayOfYear :=
    ⟨dayOfEra - 36524 * century - 1461 * quad - 365 * yearOfQuad, by omega⟩
  rw [yearOfEra_eq hcentury' hquad' hyear' (by omega) (by omega) hrest]
  omega

lemma marchStart_mono {year year' : ℤ} (h : year ≤ year') : marchStart year ≤ marchStart year' := by
  unfold marchStart
  omega

/-- A day falls into one year. -/
lemma marchYear_eq {z year : ℤ} (hle : marchStart year ≤ z) (hlt : z < marchStart (year + 1)) :
    marchYear z = year := by
  obtain ⟨hle', hlt'⟩ := marchStart_marchYear z
  rcases lt_trichotomy (marchYear z) year with h | h | h
  · have := marchStart_mono (Int.add_one_le_of_lt h)
    omega
  · exact h
  · have := marchStart_mono (Int.add_one_le_of_lt h)
    omega

/-! ### Dates and days -/

/-- The year, begun in March, and the month in it. -/
def Date.march (date : Date) : ℤ × ℤ :=
  if date.month ≤ 2 then (date.year - 1, date.month + 9) else (date.year, date.month - 3)

/-- The number of a date, from 1 January 1970. -/
def Date.toDay (date : Date) : ℤ :=
  marchStart date.march.1 + monthStart date.march.2 + date.day - 719469

/-- The date of a day of a year, begun in March. -/
def ofMarch (year dayOfYear : ℤ) : Date :=
  let month := marchMonth dayOfYear
  { year := if month < 10 then year else year + 1
    month := if month < 10 then month + 3 else month - 9
    day := dayOfYear - monthStart month + 1 }

/-- The date of a day. -/
def ofDay (n : ℤ) : Date :=
  let year := marchYear (n + 719468)
  ofMarch year (n + 719468 - marchStart year)

example : ofDay 20513 = ⟨2026, 3, 1⟩ ∧ numDaysFromMonday 20513 = 6 := by decide

/-- A valid date falls into its year and month. -/
lemma Date.Valid.march {date : Date} (h : date.Valid) :
    0 ≤ monthStart date.march.2 + date.day - 1 ∧
      marchMonth (monthStart date.march.2 + date.day - 1) = date.march.2 ∧
      marchStart date.march.1 + (monthStart date.march.2 + date.day - 1) <
        marchStart (date.march.1 + 1) := by
  obtain ⟨year, month, day⟩ := date
  obtain ⟨hone, htwelve, hday, hlast⟩ := h
  dsimp only at *
  rw [marchStart_succ]
  interval_cases month
  all_goals
    simp only [daysInMonth, Date.march, monthStart, marchMonth] at *
    norm_num at *
    split_ifs at * <;> omega

lemma ofDay_toDay {date : Date} (h : date.Valid) : ofDay date.toDay = date := by
  obtain ⟨hnonneg, hmonth, hlt⟩ := h.march
  have hz : date.toDay + 719468 =
      marchStart date.march.1 + (monthStart date.march.2 + date.day - 1) := by
    unfold Date.toDay
    omega
  have hyear : marchYear (date.toDay + 719468) = date.march.1 :=
    marchYear_eq (by omega) (by omega)
  have hdays : date.toDay + 719468 - marchStart date.march.1 =
      monthStart date.march.2 + date.day - 1 := by omega
  have hone := h.one_le_month
  have htwelve := h.month_le
  unfold ofDay ofMarch
  simp only [hyear, hdays, hmonth]
  cases date
  unfold Date.march at *
  split_ifs at * <;> simp_all <;> omega

/-- The days of a year, begun in March, are valid dates. -/
lemma valid_ofMarch {year dayOfYear : ℤ} (hnonneg : 0 ≤ dayOfYear)
    (hlt : dayOfYear < if IsLeap (year + 1) then 366 else 365) :
    (ofMarch year dayOfYear).Valid ∧
      (ofMarch year dayOfYear).toDay = marchStart year + dayOfYear - 719468 := by
  unfold ofMarch
  dsimp only
  generalize hmonth : marchMonth dayOfYear = month
  unfold marchMonth at hmonth
  have hzero : 0 ≤ month := by omega
  have heleven : month ≤ 11 := by
    split_ifs at hlt <;> omega
  interval_cases month
  all_goals
    refine ⟨⟨by norm_num, by norm_num, ?_, ?_⟩, ?_⟩
    all_goals
      simp only [daysInMonth, monthStart, Date.toDay, Date.march]
      norm_num
      split_ifs at * <;> omega

/-- Where a day falls within its year. -/
lemma dayOfYear_bounds (z : ℤ) : 0 ≤ z - marchStart (marchYear z) ∧
    z - marchStart (marchYear z) < if IsLeap (marchYear z + 1) then 366 else 365 := by
  obtain ⟨hle, hlt⟩ := marchStart_marchYear z
  rw [marchStart_succ] at hlt
  omega

lemma valid_ofDay (n : ℤ) : (ofDay n).Valid :=
  (valid_ofMarch (dayOfYear_bounds _).1 (dayOfYear_bounds _).2).1

lemma toDay_ofDay (n : ℤ) : (ofDay n).toDay = n := by
  rw [ofDay, (valid_ofMarch (dayOfYear_bounds _).1 (dayOfYear_bounds _).2).2]
  omega

/-! ### Years -/

/-- The first day of a year. -/
def newYear (year : ℤ) : ℤ := marchStart (year - 1) + 306 - 719468

lemma newYear_succ_le (year : ℤ) : newYear (year + 1) ≤ newYear year + 366 := by
  unfold newYear marchStart
  omega

lemma newYear_mono {year year' : ℤ} (h : year ≤ year') : newYear year ≤ newYear year' := by
  have := marchStart_mono (sub_le_sub_right h 1)
  unfold newYear
  omega

lemma newYear_add_le (year : ℤ) (k : ℕ) : newYear (year + k) ≤ newYear year + 366 * k := by
  induction k with
  | zero => simp
  | succ k ih =>
    have hsucc := newYear_succ_le (year + k)
    push_cast
    rw [← add_assoc]
    omega

/-- A date falls into its year. -/
lemma Date.Valid.newYear_le {date : Date} (h : date.Valid) :
    newYear date.year ≤ date.toDay ∧ date.toDay < newYear (date.year + 1) := by
  obtain ⟨year, month, day⟩ := date
  obtain ⟨hone, htwelve, hday, hlast⟩ := h
  dsimp only at *
  have hsucc := marchStart_succ (year - 1)
  rw [sub_add_cancel] at hsucc
  interval_cases month
  all_goals
    simp only [newYear, daysInMonth, Date.toDay, Date.march, monthStart] at *
    norm_num at *
    split_ifs at * <;> omega

/-- A date of a later year is not much more than so many years away. -/
lemma toDay_of_later_year {n : ℤ} {date : Date} {k : ℕ} (h : date.Valid)
    (hlt : (ofDay n).year < date.year) (hle : date.year ≤ (ofDay n).year + k) :
    n < date.toDay ∧ date.toDay < n + 366 * (k + 1) := by
  have hn := (valid_ofDay n).newYear_le
  rw [toDay_ofDay] at hn
  have hdate := h.newYear_le
  have hstart := newYear_mono (Int.add_one_le_of_lt hlt)
  have hend : newYear (date.year + 1) ≤ newYear ((ofDay n).year + (k + 1 : ℕ)) :=
    newYear_mono (by omega)
  have hadd := newYear_add_le (ofDay n).year (k + 1)
  push_cast at hend hadd
  omega

end Gregorian

/-!
## Clocks that change

A zone is a table of transitions: the instant of each and the offset from it on. Instants are
seconds, and so is what a clock in the zone reads. A reading that a change repeats belongs to
several instants, and one that a change leaves out to none.
-/

namespace LocalTime

structure Zone where
  initial : ℤ
  /-- The instant of each transition, and the offset from it on. -/
  transitions : List (ℤ × ℤ)
  sorted : (transitions.map Prod.fst).Pairwise (· < ·)

namespace Zone

variable (zone : Zone) {l t : ℤ}

def offset (t : ℤ) : ℤ :=
  zone.transitions.foldl (fun offset entry => if entry.1 ≤ t then entry.2 else offset) zone.initial

/-- What the clock reads at an instant. -/
def toLocal (t : ℤ) : ℤ := t + zone.offset t

def offsets : List ℤ := zone.initial :: zone.transitions.map Prod.snd

/-- The instants of a reading. -/
def readings (l : ℤ) : List ℤ :=
  (zone.offsets.map (l - ·)).filter fun t => zone.toLocal t = l

lemma offset_mem (t : ℤ) : zone.offset t ∈ zone.offsets := by
  unfold offset offsets
  generalize zone.initial = initial
  induction zone.transitions generalizing initial with
  | nil => simp
  | cons entry transitions ih =>
    rw [List.foldl_cons, List.map_cons]
    have h := ih (if entry.1 ≤ t then entry.2 else initial)
    rcases List.mem_cons.mp h with h | h
    · rw [h]
      split_ifs <;> simp
    · simp [h]

@[simp] lemma mem_readings : t ∈ zone.readings l ↔ zone.toLocal t = l := by
  unfold readings
  rw [List.mem_filter, decide_eq_true_eq, and_iff_right_iff_imp]
  rintro rfl
  refine List.mem_map.mpr ⟨zone.offset t, zone.offset_mem t, ?_⟩
  simp [toLocal]

/-- A clock that reads the instant itself. -/
def utc : Zone := ⟨0, [], .nil⟩

@[simp] lemma toLocal_utc (t : ℤ) : utc.toLocal t = t := by
  simp [utc, toLocal, offset]

lemma readings_utc (l : ℤ) : utc.readings l = [l] := by
  simp [utc, readings, offsets, toLocal, offset]

end Zone

/-- The first of the instants. -/
def earliest (ts : List ℤ) : Option ℤ := ts.min?

/-- The instant, when there is only one. -/
def single (ts : List ℤ) : Option ℤ :=
  match ts.dedup with
  | [t] => some t
  | _   => none

lemma mem_of_earliest {ts : List ℤ} {t : ℤ} (h : earliest ts = some t) : t ∈ ts :=
  List.min?_mem h

lemma mem_of_single {ts : List ℤ} {t : ℤ} (h : single ts = some t) : t ∈ ts := by
  unfold single at h
  split at h
  · next heq =>
    cases h
    rw [← List.mem_dedup, heq]
    exact List.mem_singleton_self _
  · cases h

end LocalTime
