import Moso.Foundation.Gregorian
import Moso.Jobs.Cron
import Mathlib.Logic.Relation
import Mathlib.Order.Bounds.Defs

/-!
# The next occurrence of a cron expression

The search walks a cursor from the minute after an instant, a day at a time over the dates that do
not match and a minute at a time through those that do, and gives up once it has counted four
years of minutes. It finds the first occurrence when every move of the cursor is steady: at least
a minute forward, and past no occurrence.
-/

namespace Moso.Jobs.Cron

open Gregorian LocalTime Relation

/-- The last day of the calendar, 31 December 262142. -/
def lastDay : ℤ := 95026236

def lastSecond : ℤ := lastDay * 86400 + 86399

/-- An instant: seconds, and nanoseconds in the second. -/
structure DateTime where
  seconds : ℤ
  nanos : ℕ

def DateTime.Before (t u : DateTime) : Prop :=
  t.seconds < u.seconds ∨ t.seconds = u.seconds ∧ t.nanos < u.nanos

/-- How many minutes the search may count. -/
def maxMinutes : ℤ := 4 * 366 * 24 * 60

def hour (reading : ℤ) : ℕ := (reading % 86400 / 3600).toNat

def minute (reading : ℤ) : ℕ := (reading % 3600 / 60).toNat

section Search

variable (expr : Expression) (zone : Zone)

/-- The instants of a reading that the calendar has. -/
def fromLocal (reading : ℤ) : List ℤ :=
  (zone.readings reading).filter (· ≤ lastSecond)

/-- The same minute with no seconds, if only one instant reads so. -/
def withSecondZero (t : DateTime) : Option DateTime :=
  let reading := zone.toLocal t.seconds
  (single (fromLocal zone (reading - reading % 60))).map fun s => ⟨s, t.nanos⟩

def withNanosecondZero (t : DateTime) : Option DateTime :=
  (single (fromLocal zone (zone.toLocal t.seconds))).map fun s => ⟨s, 0⟩

def checkedAddMinute (cursor : ℤ) : Option ℤ :=
  if cursor + 60 ≤ lastSecond then some (cursor + 60) else none

/-- The start of the next day. -/
def nextMidnight (cursor : ℤ) : Option ℤ :=
  let nextDay := zone.toLocal cursor / 86400 + 1
  if lastDay < nextDay then none
  else
    -- a day whose midnight does not exist starts an hour later
    match earliest (fromLocal zone (nextDay * 86400)) with
    | some midnight => some midnight
    | none          => earliest (fromLocal zone (nextDay * 86400 + 3600))

/-- Days first, then minutes inside a matching day. -/
def search (cursor scanned : ℤ) : Option ℤ :=
  if _h : scanned < maxMinutes then
    if expr.matchesDate (ofDay (zone.toLocal cursor / 86400)) = false then
      match nextMidnight zone cursor with
      | none => none
      | some midnight => search midnight (scanned + max ((midnight - cursor).tdiv 60) 1)
    else if expr.matchesMinute (hour (zone.toLocal cursor)) (minute (zone.toLocal cursor)) then
      some cursor
    else
      match checkedAddMinute cursor with
      | none => none
      | some next => search next (scanned + 1)
  else none
termination_by (maxMinutes - scanned).toNat
decreasing_by all_goals omega

/-- The first occurrence strictly after an instant; what it returns has no nanoseconds. -/
def nextAfter (after : DateTime) : Option ℤ := do
  let start ← withSecondZero zone after
  let start ← withNanosecondZero zone start
  let cursor ← checkedAddMinute start.seconds
  search expr zone cursor 0

/-! ### Occurrences -/

/-- The date and the minute that the clock shows match. -/
def Hits (t : ℤ) : Prop :=
  expr.matchesDate (ofDay (zone.toLocal t / 86400)) = true ∧
    expr.matchesMinute (hour (zone.toLocal t)) (minute (zone.toLocal t)) = true

/-- A whole minute that matches. -/
structure Fires (t : ℤ) : Prop where
  le_lastSecond : t ≤ lastSecond
  whole : zone.toLocal t % 60 = 0
  hits : Hits expr zone t

def occurrences (after : DateTime) : Set ℤ := {t | after.Before ⟨t, 0⟩ ∧ Fires expr zone t}

end Search

lemma before_iff {after : DateTime} {t : ℤ} : after.Before ⟨t, 0⟩ ↔ after.seconds < t := by
  simp [DateTime.Before]

/-! ### One move of the cursor -/

section Moves

variable {expr : Expression} {zone : Zone} {cursor next t scanned : ℤ} {after : DateTime}

variable (expr zone) in
/-- Where the cursor goes from where it does not stop. -/
def advance (cursor : ℤ) : Option ℤ :=
  if expr.matchesDate (ofDay (zone.toLocal cursor / 86400)) = false then nextMidnight zone cursor
  else checkedAddMinute cursor

variable (expr zone) in
def Advances (cursor next : ℤ) : Prop :=
  ¬Hits expr zone cursor ∧ advance expr zone cursor = some next

variable (expr zone) in
/-- What the search counts for a move. -/
def charge (cursor next : ℤ) : ℤ :=
  if expr.matchesDate (ofDay (zone.toLocal cursor / 86400)) = false then
    max ((next - cursor).tdiv 60) 1
  else 1

variable (expr zone) in
/-- Where the clock shows a whole minute, and from where the cursor goes at least a minute forward
and past no occurrence. -/
structure Steady (cursor : ℤ) : Prop where
  whole : zone.toLocal cursor % 60 = 0
  add_le : ∀ next, Advances expr zone cursor next → cursor + 60 ≤ next
  quiet : ∀ t, ¬Hits expr zone cursor → cursor < t → Fires expr zone t →
    ∃ next, advance expr zone cursor = some next ∧ next ≤ t

lemma le_lastSecond_of_fromLocal {reading : ℤ} (h : t ∈ fromLocal zone reading) :
    t ≤ lastSecond ∧ zone.toLocal t = reading := by
  obtain ⟨hreading, hle⟩ := List.mem_filter.mp h
  exact ⟨of_decide_eq_true hle, (Zone.mem_readings zone).mp hreading⟩

lemma checkedAddMinute_eq_some :
    checkedAddMinute cursor = some next ↔ next = cursor + 60 ∧ cursor + 60 ≤ lastSecond := by
  unfold checkedAddMinute
  split_ifs with h <;> simp [h, eq_comm]

/-- The cursor stays within the calendar. -/
lemma Advances.le_lastSecond (h : Advances expr zone cursor next) : next ≤ lastSecond := by
  obtain ⟨-, h⟩ := h
  unfold advance at h
  split_ifs at h with hdate
  · unfold nextMidnight at h
    dsimp only at h
    split_ifs at h
    split at h
    · next hmidnight =>
      cases h
      exact (le_lastSecond_of_fromLocal (mem_of_earliest hmidnight)).1
    · exact (le_lastSecond_of_fromLocal (mem_of_earliest h)).1
  · obtain ⟨rfl, hle⟩ := checkedAddMinute_eq_some.1 h
    exact hle

variable (expr zone cursor next) in
lemma charge_pos : 0 < charge expr zone cursor next := by
  unfold charge
  split_ifs <;> omega

variable (expr zone) in
/-- What a move is charged is no more than the minutes it goes. -/
lemma charge_le (h : cursor + 60 ≤ next) : charge expr zone cursor next ≤ (next - cursor) / 60 := by
  unfold charge
  rw [Int.tdiv_eq_ediv_of_nonneg (by omega)]
  split_ifs <;> omega

/-! ### The search -/

/-- One round of the search. -/
lemma search_of_hits (hscanned : scanned < maxMinutes) (h : Hits expr zone cursor) :
    search expr zone cursor scanned = some cursor := by
  rw [search, dif_pos hscanned, if_neg (by simp [h.1]), if_pos h.2]

lemma search_of_not_hits (hscanned : scanned < maxMinutes) (h : ¬Hits expr zone cursor) :
    search expr zone cursor scanned = (advance expr zone cursor).bind fun next =>
      search expr zone next (scanned + charge expr zone cursor next) := by
  rw [search, dif_pos hscanned]
  unfold advance charge
  by_cases hdate : expr.matchesDate (ofDay (zone.toLocal cursor / 86400)) = false
  · simp only [if_pos hdate]
    cases nextMidnight zone cursor <;> rfl
  · simp only [if_neg hdate]
    rw [if_neg fun hminute => h ⟨by simpa using hdate, hminute⟩]
    cases checkedAddMinute cursor <;> rfl

lemma search_of_le (h : maxMinutes ≤ scanned) : search expr zone cursor scanned = none := by
  rw [search, dif_neg (by omega)]

variable (scanned) in
/-- Over steady moves the search returns the first occurrence, and gives up only on those that are
as many minutes away as it may still count. -/
lemma search_first (hle : cursor ≤ lastSecond)
    (hsteady : ∀ c, ReflTransGen (Advances expr zone) cursor c → Steady expr zone c) :
    (∀ t, search expr zone cursor scanned = some t →
      IsLeast {t | cursor ≤ t ∧ Fires expr zone t} t) ∧
    (search expr zone cursor scanned = none →
      ∀ t, cursor ≤ t → Fires expr zone t → maxMinutes ≤ scanned + (t - cursor) / 60) := by
  -- by induction on what is left to count
  obtain ⟨left, hleft⟩ : ∃ left, (maxMinutes - scanned).toNat ≤ left := ⟨_, le_rfl⟩
  induction left generalizing cursor scanned with
  | zero =>
    rw [search_of_le (by omega)]
    refine ⟨fun t h => (Option.some_ne_none t h.symm).elim, fun _ t ht _ => by omega⟩
  | succ left ih =>
    have hcursor := hsteady cursor .refl
    by_cases hscanned : scanned < maxMinutes
    swap
    · rw [search_of_le (by omega)]
      exact ⟨fun t h => (Option.some_ne_none t h.symm).elim, fun _ t ht _ => by omega⟩
    by_cases hhits : Hits expr zone cursor
    · rw [search_of_hits hscanned hhits]
      refine ⟨fun t h => ?_, fun h => (Option.some_ne_none _ h).elim⟩
      obtain rfl := Option.some.inj h
      exact ⟨⟨le_rfl, hle, hcursor.whole, hhits⟩, fun u hu => hu.1⟩
    rw [search_of_not_hits hscanned hhits]
    -- an occurrence from the cursor on is not at it
    have hahead : ∀ t, cursor ≤ t → Fires expr zone t →
        ∃ next, advance expr zone cursor = some next ∧ next ≤ t := by
      intro t ht hfires
      refine hcursor.quiet t hhits (lt_of_le_of_ne ht ?_) hfires
      rintro rfl
      exact hhits hfires.hits
    cases hnext : advance expr zone cursor with
    | none =>
      refine ⟨fun t h => (Option.some_ne_none t h.symm).elim, fun _ t ht hfires => ?_⟩
      obtain ⟨next, h, -⟩ := hahead t ht hfires
      rw [hnext] at h
      cases h
    | some next =>
      rw [Option.bind_some]
      have hmove : Advances expr zone cursor next := ⟨hhits, hnext⟩
      have hadd := hcursor.add_le next hmove
      have hcharge := charge_le expr zone hadd
      have hpos := charge_pos expr zone cursor next
      obtain ⟨hsome, hnone⟩ := ih (scanned + charge expr zone cursor next)
        hmove.le_lastSecond (fun c hc => hsteady c (.head hmove hc)) (by omega)
      have hahead' : ∀ t, cursor ≤ t → Fires expr zone t → next ≤ t := by
        intro t ht hfires
        obtain ⟨next', h, hle'⟩ := hahead t ht hfires
        exact Option.some.inj (hnext.symm.trans h) ▸ hle'
      refine ⟨fun t h => ?_, fun h t ht hfires => ?_⟩
      · obtain ⟨⟨hnextle, hfires⟩, hleast⟩ := hsome t h
        exact ⟨⟨by omega, hfires⟩, fun u hu => hleast ⟨hahead' u hu.1 hu.2, hu.2⟩⟩
      · have := hnone h t (hahead' t ht hfires) hfires
        omega

/-! ### The start -/

/-- The search starts from the minute after the one that a single instant starts. -/
lemma nextAfter_eq {start : ℤ} (h : single (fromLocal zone
      (zone.toLocal after.seconds - zone.toLocal after.seconds % 60)) = some start) :
    nextAfter expr zone after =
      (checkedAddMinute start).bind fun cursor => search expr zone cursor 0 := by
  have hreading := (le_lastSecond_of_fromLocal (mem_of_single h)).2
  unfold nextAfter withSecondZero withNanosecondZero
  simp only [h, Option.map_some, Option.bind_eq_bind, Option.bind_some, hreading]

lemma nextAfter_eq_none (h : single (fromLocal zone
      (zone.toLocal after.seconds - zone.toLocal after.seconds % 60)) = none) :
    nextAfter expr zone after = none := by
  unfold nextAfter withSecondZero
  simp only [h, Option.map_none, Option.bind_eq_bind, Option.bind_none]

end Moves

end Moso.Jobs.Cron

/-!
## The next occurrence where the clocks change

In any zone the search finds the first occurrence of the next four years from where the minute it
starts from is read once and every move of its cursor is steady. A change of the clocks can break
both: a repeated minute starts no search, and the start of the next day may not be found, or lie
behind the cursor when the change takes the clock back over midnight.
-/

namespace Moso.Jobs.Cron

open LocalTime Relation

/-- If there is an occurrence within four years, the first one is returned. -/
def Survives (expr : Expression) (zone : Zone) (after : DateTime) : Prop :=
  (∃ t ∈ occurrences expr zone after, t ≤ after.seconds + maxMinutes * 60) →
    ∃ t, nextAfter expr zone after = some t ∧ IsLeast (occurrences expr zone after) t

/-- The minute of an instant is read once, and from the minute after it every move of the cursor is
steady. -/
structure Undisturbed (expr : Expression) (zone : Zone) (after : DateTime) (start : ℤ) : Prop where
  single : single (fromLocal zone
    (zone.toLocal after.seconds - zone.toLocal after.seconds % 60)) = some start
  lt : after.seconds < start + 60
  quiet : ∀ t ∈ occurrences expr zone after, start + 60 ≤ t
  steady : ∀ cursor, ReflTransGen (Advances expr zone) (start + 60) cursor →
    Steady expr zone cursor

/-- A minute that is not read just once starts no search. -/
lemma not_survives {expr : Expression} {zone : Zone} (after : DateTime) {t : ℤ}
    (h : single (fromLocal zone
      (zone.toLocal after.seconds - zone.toLocal after.seconds % 60)) = none)
    (ht : t ∈ occurrences expr zone after) (hsoon : t ≤ after.seconds + maxMinutes * 60) :
    ¬Survives expr zone after := by
  intro hsurvives
  obtain ⟨u, hu, -⟩ := hsurvives ⟨t, ht, hsoon⟩
  rw [nextAfter_eq_none h] at hu
  cases hu

/-- Two hours ahead, and one from 25 October 2026, 01:00, on. -/
def rome : Zone := ⟨7200, [(1792890000, 3600)], by simp⟩

def everyMinute : Expression :=
  ⟨2 ^ 60 - 1, 2 ^ 24 - 1, 2 ^ 32 - 2, 2 ^ 13 - 2, 127, false, false⟩

end Moso.Jobs.Cron
