import Moso.Jobs.Cron.Next

/-!
# The next occurrence in UTC

Where the clock does not change every move of the search is steady, and what it counts are the
minutes that it passes: it returns the first occurrence and gives up on what is 4 · 366 days away.
-/

namespace Moso.Jobs.Cron

open Gregorian LocalTime Relation

variable {expr : Expression} {cursor next scanned t : ℤ} {after : DateTime}

/-! ### Moves -/

lemma fromLocal_utc (h : t ≤ lastSecond) : fromLocal .utc t = [t] := by
  simp [fromLocal, Zone.readings_utc, h]

lemma nextMidnight_utc : nextMidnight .utc cursor =
    if lastDay < cursor / 86400 + 1 then none else some ((cursor / 86400 + 1) * 86400) := by
  unfold nextMidnight
  simp only [Zone.toLocal_utc]
  split_ifs with h
  · rfl
  · have hle : (cursor / 86400 + 1) * 86400 ≤ lastSecond := by
      unfold lastSecond
      omega
    rw [fromLocal_utc hle]
    rfl

lemma advance_utc : advance expr .utc cursor =
    if expr.matchesDate (ofDay (cursor / 86400)) = false then
      if lastDay < cursor / 86400 + 1 then none else some ((cursor / 86400 + 1) * 86400)
    else if cursor + 60 ≤ lastSecond then some (cursor + 60) else none := by
  unfold advance checkedAddMinute
  rw [nextMidnight_utc, Zone.toLocal_utc]

/-- A move takes the cursor from one whole minute to another. -/
lemma whole_of_advances (hmove : Advances expr .utc cursor next) (h : cursor % 60 = 0) :
    next % 60 = 0 ∧ cursor + 60 ≤ next := by
  have hnext := hmove.2
  rw [advance_utc] at hnext
  split_ifs at hnext <;> cases hnext <;> omega

lemma whole_of_reaches (h : cursor % 60 = 0)
    (hreaches : ReflTransGen (Advances expr .utc) cursor next) : next % 60 = 0 := by
  induction hreaches with
  | refl => exact h
  | tail _ hmove ih => exact (whole_of_advances hmove ih).1

variable (expr) in
lemma steady_utc (h : cursor % 60 = 0) : Steady expr .utc cursor := by
  refine ⟨by rw [Zone.toLocal_utc, h], fun next hmove => (whole_of_advances hmove h).2, ?_⟩
  intro t _ hlt hfires
  have hwhole := hfires.whole
  have hle := hfires.le_lastSecond
  have hdate := hfires.hits.1
  rw [Zone.toLocal_utc] at hwhole hdate
  rw [advance_utc]
  unfold lastSecond at *
  split_ifs with hskip hlast hlast
  · -- no day is left, and this one does not match
    rw [show t / 86400 = cursor / 86400 by omega, hskip] at hdate
    cases hdate
  · refine ⟨_, rfl, ?_⟩
    by_contra hbefore
    rw [show t / 86400 = cursor / 86400 by omega, hskip] at hdate
    cases hdate
  · exact ⟨_, rfl, by omega⟩
  · omega

/-- The search returns nothing that is further away than it may count. -/
lemma search_lt (h : cursor % 60 = 0) (hsearch : search expr .utc cursor scanned = some t) :
    scanned + (t - cursor) / 60 < maxMinutes := by
  -- by induction on what is left to count
  obtain ⟨left, hleft⟩ : ∃ left, (maxMinutes - scanned).toNat ≤ left := ⟨_, le_rfl⟩
  induction left generalizing cursor scanned with
  | zero =>
    rw [search_of_le (by omega)] at hsearch
    cases hsearch
  | succ left ih =>
    by_cases hscanned : scanned < maxMinutes
    swap
    · rw [search_of_le (by omega)] at hsearch
      cases hsearch
    by_cases hhits : Hits expr .utc cursor
    · rw [search_of_hits hscanned hhits] at hsearch
      cases hsearch
      omega
    · rw [search_of_not_hits hscanned hhits] at hsearch
      obtain ⟨next, hnext, hsearch⟩ := Option.bind_eq_some_iff.mp hsearch
      obtain ⟨hwhole, hadd⟩ := whole_of_advances ⟨hhits, hnext⟩ h
      have hcharge : charge expr .utc cursor next = (next - cursor) / 60 := by
        unfold charge
        rw [Int.tdiv_eq_ediv_of_nonneg (by omega)]
        rw [advance_utc] at hnext
        rw [Zone.toLocal_utc]
        split_ifs at hnext ⊢ <;> cases hnext <;> omega
      have hpos := charge_pos expr .utc cursor next
      have := ih hwhole hsearch (by omega)
      omega

/-! ### What the search returns -/

/-- The first whole minute after an instant. -/
def firstMinute (after : DateTime) : ℤ := after.seconds - after.seconds % 60 + 60

lemma firstMinute_le (h : t ∈ occurrences expr .utc after) : firstMinute after ≤ t := by
  have hlt := before_iff.1 h.1
  have hwhole := h.2.whole
  rw [Zone.toLocal_utc] at hwhole
  unfold firstMinute
  omega

lemma nextAfter_utc : nextAfter expr .utc after =
    if firstMinute after ≤ lastSecond then search expr .utc (firstMinute after) 0 else none := by
  unfold firstMinute
  by_cases hle : after.seconds - after.seconds % 60 ≤ lastSecond
  · have hsingle : single (fromLocal .utc
        (Zone.utc.toLocal after.seconds - Zone.utc.toLocal after.seconds % 60)) =
          some (after.seconds - after.seconds % 60) := by
      rw [Zone.toLocal_utc, fromLocal_utc hle]
      rfl
    rw [nextAfter_eq hsingle]
    unfold checkedAddMinute
    split_ifs <;> rfl
  · rw [if_neg (by omega)]
    refine nextAfter_eq_none ?_
    simp [fromLocal, Zone.readings_utc, hle, single]

variable (expr after) in
lemma nextAfter_spec :
    (∀ t, nextAfter expr .utc after = some t → IsLeast (occurrences expr .utc after) t ∧
      t < firstMinute after + maxMinutes * 60) ∧
    (nextAfter expr .utc after = none →
      ∀ t ∈ occurrences expr .utc after, firstMinute after + maxMinutes * 60 ≤ t) := by
  have hfirst : firstMinute after % 60 = 0 ∧ after.seconds < firstMinute after := by
    unfold firstMinute
    omega
  rw [nextAfter_utc]
  split_ifs with hle
  · obtain ⟨hsome, hnone⟩ := search_first 0 hle fun c hc =>
      steady_utc expr (whole_of_reaches hfirst.1 hc)
    refine ⟨fun t ht => ?_, fun h t ht => ?_⟩
    · obtain ⟨⟨hfirstle, hfires⟩, hleast⟩ := hsome t ht
      refine ⟨⟨⟨before_iff.2 (by omega), hfires⟩, fun u hu => ?_⟩, ?_⟩
      · exact hleast ⟨firstMinute_le hu, hu.2⟩
      · have := search_lt hfirst.1 ht
        omega
    · have := hnone h t (firstMinute_le ht) ht.2
      omega
  · refine ⟨fun t ht => ht.elim, fun _ t ht => ?_⟩
    have := firstMinute_le ht
    have := ht.2.le_lastSecond
    omega

end Moso.Jobs.Cron
