import Moso.Jobs.Cron.Utc

/-!
# Leap days in the search for the next occurrence

An expression that matches a day of every year has an occurrence within two years of any instant.
Only one for nothing but the 29th of February may be further away than the search looks: where a
year like 2100 is no leap year, eight years lie between two of them.
-/

namespace Moso.Jobs.Cron

open Gregorian LocalTime

variable {expr : Expression} {t : ℤ} {after : DateTime} {date : Date}

/-! ### The dates of an expression -/

def IsLeapDay (date : Date) : Prop := date.month = 2 ∧ date.day = 29

/-- Every date that matches is a 29th of February. -/
def LeapDaysOnly (expr : Expression) : Prop :=
  ∀ date : Date, date.Valid → expr.matchesDate date = true → IsLeapDay date

/-- A day of the week comes within the first week of a month. -/
lemma exists_weekday (expr : Expression) (h : expr.Parsed) (year month : ℤ) :
    ∃ day, 1 ≤ day ∧ day ≤ 7 ∧ expr.weekdays.testBit
      ((numDaysFromMonday (Date.toDay ⟨year, month, day⟩) + 1) % 7).toNat := by
  obtain ⟨weekday, hweekday, hbit⟩ := h.exists_weekday
  have htoDay : ∀ day, Date.toDay ⟨year, month, day⟩ = Date.toDay ⟨year, month, 0⟩ + day := by
    intro day
    simp only [Date.toDay, Date.march]
    omega
  generalize Date.toDay ⟨year, month, 0⟩ = first at htoDay
  refine ⟨(weekday - first - 5) % 7 + 1, by omega, by omega, ?_⟩
  rw [htoDay]
  unfold numDaysFromMonday
  have : ((first + ((weekday - first - 5) % 7 + 1) + 3) % 7 + 1) % 7 = weekday := by omega
  rw [this]
  exact hbit

/-- The first four weeks of a month are in every year. -/
lemma valid_of_le (hvalid : date.Valid) {day : ℤ} (hone : 1 ≤ day) (hle : day ≤ 28) (year : ℤ) :
    (Date.mk year date.month day).Valid := by
  refine ⟨hvalid.one_le_month, hvalid.month_le, hone, ?_⟩
  unfold daysInMonth
  split_ifs <;> dsimp only <;> omega

/-- Only the leap day is not in every year. -/
lemma valid_of_not_leapDay (hvalid : date.Valid) (h : ¬IsLeapDay date) (year : ℤ) :
    (Date.mk year date.month date.day).Valid := by
  refine ⟨hvalid.one_le_month, hvalid.month_le, hvalid.one_le_day, ?_⟩
  have hle := hvalid.day_le
  unfold daysInMonth IsLeapDay at *
  dsimp only
  split_ifs at * <;> omega

/-- An expression that matches a date matches a day of every year, none of them a leap day, or
the leap days of all years. -/
lemma every_year_or_leap (h : expr.Parsed) (hvalid : date.Valid)
    (hmatch : expr.matchesDate date = true) :
    (∀ year, ∃ date' : Date, date'.Valid ∧ date'.year = year ∧ ¬IsLeapDay date' ∧
      expr.matchesDate date' = true) ∨
    (IsLeapDay date ∧ ∀ date', IsLeapDay date' → expr.matchesDate date' = true) := by
  have hmonth : expr.months.testBit date.month.toNat = true := by
    by_contra hmonth
    rw [Bool.not_eq_true] at hmonth
    rw [Expression.matchesDate, if_pos hmonth] at hmatch
    cases hmatch
  have hmatches : ∀ year day, expr.matchesDate ⟨year, date.month, day⟩ =
      if expr.daysRestricted then
        if expr.weekdaysRestricted then expr.days.testBit day.toNat || expr.weekdays.testBit
          ((numDaysFromMonday (Date.toDay ⟨year, date.month, day⟩) + 1) % 7).toNat
        else expr.days.testBit day.toNat
      else if expr.weekdaysRestricted then expr.weekdays.testBit
        ((numDaysFromMonday (Date.toDay ⟨year, date.month, day⟩) + 1) % 7).toNat
      else true := by
    intro year day
    unfold Expression.matchesDate
    dsimp only
    rw [if_neg (by simp [hmonth])]
    cases expr.daysRestricted <;> cases expr.weekdaysRestricted <;> simp
  cases hdays : expr.daysRestricted <;> cases hweekdays : expr.weekdaysRestricted <;>
    simp only [hdays, hweekdays, Bool.false_eq_true, if_true, if_false] at hmatches
  case true.false =>
    by_cases hleap : IsLeapDay date
    · refine .inr ⟨hleap, fun date' hleap' => ?_⟩
      have := (hmatches date.year date.day).symm.trans hmatch
      rw [← hleap'.1.trans hleap.1.symm] at hmatches
      rw [hmatches date'.year date'.day, hleap'.2, ← hleap.2, this]
    · refine .inl fun year => ⟨⟨year, date.month, date.day⟩, valid_of_not_leapDay hvalid hleap year,
        rfl, hleap, ?_⟩
      rw [hmatches, ← hmatches date.year]
      exact hmatch
  case false.false =>
    refine .inl fun year => ⟨⟨year, date.month, 1⟩, valid_of_le hvalid le_rfl (by decide) year,
      rfl, fun h => absurd (show (1 : ℤ) = 29 from h.2) (by decide), hmatches year 1⟩
  all_goals
    -- the day of the week
    refine .inl fun year => ?_
    obtain ⟨day, hone, hle, hbit⟩ := exists_weekday expr h year date.month
    refine ⟨⟨year, date.month, day⟩, valid_of_le hvalid hone (by omega) year, rfl,
      fun h => ?_, ?_⟩
    · have := h.2
      dsimp only at this
      omega
    · simp only [hmatches, hbit, Bool.or_true]

/-! ### Occurrences -/

lemma parts_of_minute (day : ℤ) {h m : ℕ} (hh : h < 24) (hm : m < 60) :
    (day * 86400 + h * 3600 + m * 60) / 86400 = day ∧
      hour (day * 86400 + h * 3600 + m * 60) = h ∧ minute (day * 86400 + h * 3600 + m * 60) = m ∧
      (day * 86400 + h * 3600 + m * 60) % 60 = 0 := by
  unfold hour minute
  omega

/-- A date that matches has an occurrence. -/
lemma exists_fires (h : expr.Parsed) (hvalid : date.Valid) (hmatch : expr.matchesDate date = true)
    (hle : date.toDay ≤ lastDay) :
    ∃ t, Fires expr .utc t ∧ date.toDay * 86400 ≤ t ∧ t < (date.toDay + 1) * 86400 := by
  obtain ⟨hr, hhr, hhour⟩ := h.exists_hour
  obtain ⟨mn, hmn, hminute⟩ := h.exists_minute
  obtain ⟨hday, hpart, hpart', hwhole⟩ := parts_of_minute date.toDay hhr hmn
  refine ⟨date.toDay * 86400 + hr * 3600 + mn * 60, ⟨?_, ?_, ?_, ?_⟩, by omega, by omega⟩
  · unfold lastSecond
    omega
  · rw [Zone.toLocal_utc, hwhole]
  · rw [Zone.toLocal_utc, hday, ofDay_toDay hvalid, hmatch]
  · rw [Zone.toLocal_utc, hpart, hpart', Expression.matchesMinute, hhour, hminute]
    rfl

/-- An occurrence falls on a date that matches. -/
lemma Fires.matchesDate (h : Fires expr .utc t) : expr.matchesDate (ofDay (t / 86400)) = true := by
  have := h.hits.1
  rwa [Zone.toLocal_utc] at this

variable (after) in
/-- A date after the day of an instant has an occurrence after the instant. -/
lemma exists_occurrence (h : expr.Parsed) (hvalid : date.Valid)
    (hmatch : expr.matchesDate date = true) (hlt : after.seconds / 86400 < date.toDay)
    (hle : date.toDay ≤ lastDay) :
    ∃ t ∈ occurrences expr .utc after, t < (date.toDay + 1) * 86400 := by
  obtain ⟨t, hfires, hday, ht⟩ := exists_fires h hvalid hmatch hle
  exact ⟨t, ⟨before_iff.2 (by omega), hfires⟩, ht⟩

/-- Of eight years one is a leap year. -/
lemma exists_isLeap (year : ℤ) : ∃ leap, IsLeap leap ∧ year < leap ∧ leap ≤ year + 8 := by
  unfold IsLeap
  by_cases hcentury : (year / 4 * 4 + 4) % 100 ≠ 0
  · exact ⟨year / 4 * 4 + 4, ⟨by omega, .inl hcentury⟩, by omega, by omega⟩
  · exact ⟨year / 4 * 4 + 8, ⟨by omega, by omega⟩, by omega, by omega⟩

/-- There is a leap day within nine years. -/
lemma exists_leapDay (n : ℤ) :
    ∃ date : Date, date.Valid ∧ IsLeapDay date ∧ n < date.toDay ∧ date.toDay < n + 9 * 366 := by
  obtain ⟨year, hleap, hlt, hle⟩ := exists_isLeap (ofDay n).year
  have hvalid : (Date.mk year 2 29).Valid := by
    refine ⟨?_, ?_, ?_, ?_⟩ <;> simp [daysInMonth, hleap]
  obtain ⟨hafter, hsoon⟩ := toDay_of_later_year (n := n) (k := 8) hvalid hlt hle
  exact ⟨⟨year, 2, 29⟩, hvalid, ⟨rfl, rfl⟩, hafter, by omega⟩

/-- An expression that does not only match leap days has an occurrence before the search gives up,
if it has one at all. -/
lemma soon_of_not_leapDaysOnly (h : expr.Parsed) (honly : ¬LeapDaysOnly expr)
    (ht : t ∈ occurrences expr .utc after) :
    ∃ u ∈ occurrences expr .utc after, u < firstMinute after + maxMinutes * 60 := by
  unfold LeapDaysOnly at honly
  push Not at honly
  obtain ⟨date, hvalid, hmatch, hleap⟩ := honly
  rcases every_year_or_leap h hvalid hmatch with hyears | ⟨hleap', -⟩
  swap
  · exact absurd hleap' hleap
  obtain ⟨date', hvalid', hyear, -, hmatch'⟩ :=
    hyears ((ofDay (after.seconds / 86400)).year + 1)
  obtain ⟨hlt, hsoon⟩ := toDay_of_later_year (n := after.seconds / 86400) (k := 1) hvalid'
    (by omega) (by omega)
  have hmax : maxMinutes * 60 = 1464 * 86400 := rfl
  have hfirst : after.seconds < firstMinute after := by
    unfold firstMinute
    omega
  rw [hmax]
  by_cases hlast : date'.toDay ≤ lastDay
  · obtain ⟨u, hu, hult⟩ := exists_occurrence after h hvalid' hmatch' hlt hlast
    exact ⟨u, hu, by omega⟩
  · -- the calendar ends before
    have hle := ht.2.le_lastSecond
    unfold lastSecond at hle
    exact ⟨t, ht, by omega⟩

lemma nonempty_of_leapDay (h : expr.Parsed) (hvalid : date.Valid)
    (hmatch : expr.matchesDate date = true)
    (hroom : after.seconds + 9 * 366 * 86400 ≤ lastSecond) :
    (occurrences expr .utc after).Nonempty := by
  unfold lastSecond at hroom
  rcases every_year_or_leap h hvalid hmatch with hyears | ⟨-, hleaps⟩
  · obtain ⟨date', hvalid', hyear, -, hmatch'⟩ :=
      hyears ((ofDay (after.seconds / 86400)).year + 1)
    obtain ⟨hlt, hsoon⟩ := toDay_of_later_year (n := after.seconds / 86400) (k := 1) hvalid'
      (by omega) (by omega)
    obtain ⟨t, ht, -⟩ := exists_occurrence after h hvalid' hmatch' hlt (by omega)
    exact ⟨t, ht⟩
  · obtain ⟨date', hvalid', hleap', hlt, hsoon⟩ := exists_leapDay (after.seconds / 86400)
    obtain ⟨t, ht, -⟩ :=
      exists_occurrence after h hvalid' (hleaps date' hleap') hlt (by omega)
    exact ⟨t, ht⟩

/-! ### Exactness -/

/-- The first later occurrence is returned, and nothing only when there is none; and an expression
that matches a leap day fires again as long as the calendar has nine more years. -/
structure Exact (expr : Expression) (after : DateTime) : Prop where
  answer : match nextAfter expr .utc after with
    | some t => IsLeast (occurrences expr .utc after) t
    | none   => occurrences expr .utc after = ∅
  leapDay : ∀ date : Date, date.Valid → IsLeapDay date → expr.matchesDate date = true →
    after.seconds + 9 * 366 * 86400 ≤ lastSecond → nextAfter expr .utc after ≠ none

/-- If only leap days match and one comes later, one comes before the search gives up. -/
theorem exact_iff (text : List Char) (hparse : Expression.parse text = .ok expr)
    (after : DateTime) : Exact expr after ↔
      (LeapDaysOnly expr → (occurrences expr .utc after).Nonempty →
        ∃ t ∈ occurrences expr .utc after, t < firstMinute after + maxMinutes * 60) := by
  have hparsed := Expression.parsed_of_parse hparse
  obtain ⟨hsome, hnone⟩ := nextAfter_spec expr after
  refine ⟨fun ⟨hanswer, _⟩ _ hlater => ?_, fun h => ?_⟩
  · cases hnext : nextAfter expr .utc after with
    | none =>
      rw [hnext] at hanswer
      rw [hanswer] at hlater
      exact absurd hlater Set.not_nonempty_empty
    | some t => exact ⟨t, (hsome t hnext).1.1, (hsome t hnext).2⟩
  · have hanswer : match nextAfter expr .utc after with
        | some t => IsLeast (occurrences expr .utc after) t
        | none   => occurrences expr .utc after = ∅ := by
      cases hnext : nextAfter expr .utc after with
      | some t => exact (hsome t hnext).1
      | none =>
        refine Set.eq_empty_iff_forall_notMem.mpr fun t ht => ?_
        obtain ⟨u, hu, hsoon⟩ : ∃ u ∈ occurrences expr .utc after,
            u < firstMinute after + maxMinutes * 60 := by
          by_cases honly : LeapDaysOnly expr
          · exact h honly ⟨t, ht⟩
          · exact soon_of_not_leapDaysOnly hparsed honly ht
        exact absurd (hnone hnext u hu) (not_le.mpr hsoon)
    refine ⟨hanswer, fun date hvalid hleap hmatch hroom hnext => ?_⟩
    rw [hnext] at hanswer
    obtain ⟨t, ht⟩ := nonempty_of_leapDay hparsed hvalid hmatch hroom
    rw [hanswer] at ht
    exact ht

/-- `0 0 29 2 *` -/
def leapDays : Expression := ⟨1, 1, 2 ^ 29, 2 ^ 2, 127, true, false⟩

lemma isLeapDay_of_leapDays (hvalid : date.Valid) (h : leapDays.matchesDate date = true) :
    IsLeapDay date := by
  have hone := hvalid.one_le_month
  have hday := hvalid.one_le_day
  simp only [Expression.matchesDate, leapDays, Nat.testBit_two_pow] at h
  split_ifs at h with hmonth
  simp only [decide_eq_false_iff_not, decide_eq_true_eq, not_not] at hmonth h
  exact ⟨by omega, by omega⟩

/-- There is no leap day from 1 March 2096 to the end of February 2100. -/
lemma not_isLeapDay (hvalid : date.Valid) (hle : 46081 ≤ date.toDay) (hlt : date.toDay < 47600) :
    ¬IsLeapDay date := by
  obtain ⟨year, month, day⟩ := date
  rintro ⟨hmonth, hday⟩
  dsimp only at hmonth hday
  subst hmonth hday
  have hleap : IsLeap year := by
    by_contra hleap
    have := hvalid.day_le
    simp [daysInMonth, hleap] at this
  simp only [Date.toDay, Date.march, marchStart, monthStart] at hle hlt
  norm_num at hle hlt
  unfold IsLeap at hleap
  have hge : 2095 ≤ year := by omega
  have hle : year ≤ 2101 := by omega
  interval_cases year <;> omega

/-- The leap day after that of 2024 is found. -/
theorem exact_iff_2026 : Exact leapDays ⟨1772323200, 5⟩ := by
  refine (exact_iff "0 0 29 2 *".toList rfl _).mpr fun _ _ => ?_
  refine ⟨1835395200, ⟨.inl (by decide), ⟨by decide, by decide, by decide, by decide⟩⟩, by decide⟩

/-- The leap day after that of 2096 is in 2104. -/
theorem exact_fails : ¬∀ text expr, Expression.parse text = .ok expr →
    ∀ after, Exact expr after := by
  intro h
  obtain ⟨hanswer, _⟩ := h "0 0 29 2 *".toList leapDays rfl
    ⟨3981398400, 0⟩
  generalize hnext : nextAfter _ _ _ = answer at hanswer
  cases answer with
  | none =>
    have hfires : Fires leapDays .utc 4233686400 :=
      ⟨by decide, by decide, by decide, by decide⟩
    exact Set.eq_empty_iff_forall_notMem.mp hanswer 4233686400 ⟨.inl (by decide), hfires⟩
  | some t =>
    obtain ⟨⟨⟨hafter, hfires⟩, -⟩, hsoon⟩ := (nextAfter_spec _ _).1 t hnext
    have hlt := before_iff.mp hafter
    have hvalid := valid_ofDay (t / 86400)
    have htoDay := toDay_ofDay (t / 86400)
    have hmax : firstMinute ⟨3981398400, 0⟩ + maxMinutes * 60 = 3981398460 + 1464 * 86400 := rfl
    rw [hmax] at hsoon
    dsimp only at hlt
    exact not_isLeapDay hvalid (by omega) (by omega)
      (isLeapDay_of_leapDays hvalid hfires.matchesDate)

end Moso.Jobs.Cron
