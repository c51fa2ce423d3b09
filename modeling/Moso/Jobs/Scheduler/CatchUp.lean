import Moso.Jobs.Scheduler.Dropped
import Mathlib.Data.List.Pairwise
import Mathlib.Order.Bounds.Defs

/-!
# Catching up

With catch-up on, a pass scans the occurrences from the one that came due up to the present, and
stops after 10,000 of them. What it replays is the end of what it scanned, which is the end of the
backlog only when the scan reached it.
-/

namespace Moso.Jobs.Schedule

variable {sched : Schedule} {tick due now : ℕ}

/-- The occurrences from `due` up to `now`, oldest first. -/
def occurrences (sched : Schedule) (due now : ℕ) : List ℕ := due :: sched.scan now (now - due) due

/-! ### The scan -/

/-- A scan with less fuel finds the first part of one with more. -/
lemma scan_eq_take {m n cursor : ℕ} (h : m ≤ n) :
    sched.scan now m cursor = (sched.scan now n cursor).take m := by
  induction m generalizing n cursor with
  | zero => rw [List.take_zero, scan]
  | succ m ih =>
    obtain ⟨n, rfl⟩ : ∃ k, n = k + 1 := ⟨n - 1, by omega⟩
    rw [scan, scan]
    split
    · split
      · rfl
      · rw [List.take_succ_cons, ih (Nat.le_of_succ_le_succ h)]
    · rfl

/-- Between the cursor and the present there is room for as many occurrences as instants. -/
lemma length_scan_le {fuel cursor : ℕ} : (sched.scan now fuel cursor).length ≤ now - cursor := by
  induction fuel generalizing cursor with
  | zero => exact Nat.zero_le _
  | succ fuel ih =>
    rw [scan]
    split
    · next t ht =>
      have hlt := sched.lt_of_nextAfter ht
      split
      · exact Nat.zero_le _
      · have hle : (sched.scan now fuel t).length ≤ now - t := ih
        rw [List.length_cons]
        omega
    · exact Nat.zero_le _

/-- What a bounded scan finds of the occurrences. -/
lemma scan_eq (fuel : ℕ) :
    sched.scan now fuel due = (sched.scan now (now - due) due).take fuel := by
  rcases Nat.le_total fuel (now - due) with h | h
  · exact scan_eq_take h
  · have hlength : (sched.scan now fuel due).length ≤ now - due := length_scan_le
    rw [scan_eq_take h, List.take_of_length_le hlength, List.take_of_length_le (hlength.trans h)]

lemma Occurs.le {t : ℕ} (h : sched.Occurs due t) : due ≤ t := by
  induction h with
  | first => exact le_rfl
  | next ht hu ih => exact ih.trans (sched.lt_of_nextAfter hu).le

lemma Occurs.of_next {t u : ℕ} (hu : sched.nextAfter due = some u) (h : sched.Occurs u t) :
    sched.Occurs due t := by
  induction h with
  | first => exact .next .first hu
  | next _ hv ih => exact .next ih hv

lemma Occurs.eq_or_of_next {t : ℕ} (h : sched.Occurs due t) :
    t = due ∨ ∃ u, sched.nextAfter due = some u ∧ sched.Occurs u t := by
  induction h with
  | first => exact .inl rfl
  | next ht hv ih =>
    rcases ih with rfl | ⟨u, hu, hoccurs⟩
    · exact .inr ⟨_, hv, .first⟩
    · exact .inr ⟨u, hu, .next hoccurs hv⟩

/-- A scan with enough fuel finds every occurrence up to the present. -/
lemma mem_scan {fuel cursor t : ℕ} (hfuel : now - cursor ≤ fuel) (hcursor : cursor ≤ now) :
    t ∈ cursor :: sched.scan now fuel cursor ↔ sched.Occurs cursor t ∧ t ≤ now := by
  induction fuel generalizing cursor with
  | zero =>
    obtain rfl : now = cursor := by omega
    rw [scan, List.mem_singleton]
    constructor
    · intro h
      exact ⟨h ▸ .first, h.le⟩
    · intro h
      exact Nat.le_antisymm h.2 h.1.le
  | succ fuel ih =>
    rw [List.mem_cons, scan]
    constructor
    · rintro (rfl | ht)
      · exact ⟨.first, hcursor⟩
      · split at ht
        · next u hu =>
          have hlt := sched.lt_of_nextAfter hu
          split at ht
          · cases ht
          · obtain ⟨hoccurs, hbound⟩ := (@ih u (by omega) (by omega)).mp ht
            exact ⟨hoccurs.of_next hu, hbound⟩
        · cases ht
    · rintro ⟨hoccurs, hbound⟩
      rcases hoccurs.eq_or_of_next with rfl | ⟨u, hu, hoccurs⟩
      · exact .inl rfl
      · have hlt := sched.lt_of_nextAfter hu
        have hle := hoccurs.le
        have hnow : ¬now < u := by omega
        rw [hu]
        simp only [hnow, if_false]
        exact .inr ((@ih u (by omega) (by omega)).mpr ⟨hoccurs, hbound⟩)

/-- The occurrences are those that the schedule has from `due` up to the present. -/
lemma mem_occurrences {t : ℕ} (h : due ≤ now) :
    t ∈ sched.occurrences due now ↔ sched.Occurs due t ∧ t ≤ now :=
  mem_scan le_rfl h

lemma sorted_occurrences : (sched.occurrences due now).Pairwise (· < ·) :=
  (sched.scan_spec now (now - due) due).1

/-! ### The plan -/

/-- The newest `limit` of some occurrences, oldest first. -/
def newest (limit : ℕ) (occurrences : List ℕ) : List ℕ :=
  occurrences.drop (occurrences.length - limit)

/-- A pass enqueues the newest of what came due, as many as the limit allows, counts what it drops,
and goes on with the first occurrence after the present. -/
structure Exact (sched : Schedule) (first now : ℕ) (plan : Plan) : Prop where
  due : plan.due = newest sched.catchUpLimit (sched.occurrences first now)
  dropped : plan.droppedIsAFloor = false →
    plan.dropped = (sched.occurrences first now).length - plan.due.length
  floor : plan.dropped ≤ (sched.occurrences first now).length - plan.due.length
  next : plan.next = sched.nextAfter now

variable (tick) in
/-- What a pass with catch-up on has scanned. -/
lemma plan_eq (hcatch : sched.catchUp = true) (h : due ≤ now) :
    (sched.plan tick due now).due =
        newest sched.catchUpLimit ((sched.occurrences due now).take (maxCatchUpScan + 1)) ∧
      (sched.plan tick due now).dropped =
        ((sched.occurrences due now).take (maxCatchUpScan + 1)).length - sched.catchUpLimit ∧
      (sched.plan tick due now).droppedIsAFloor =
        decide (maxCatchUpScan + 1 ≤ (sched.occurrences due now).length) ∧
      (sched.plan tick due now).next = sched.nextAfter now := by
  have hscanned : due :: sched.scan now maxCatchUpScan due =
      (sched.occurrences due now).take (maxCatchUpScan + 1) := by
    rw [occurrences, List.take_succ_cons, scan_eq maxCatchUpScan]
  have hlength : (sched.scan now maxCatchUpScan due).length =
      min maxCatchUpScan (sched.scan now (now - due) due).length := by
    rw [scan_eq maxCatchUpScan, List.length_take]
  have hlast : (due :: sched.scan now maxCatchUpScan due).getLast (List.cons_ne_nil _ _) ≤ now := by
    rcases List.mem_cons.mp (List.getLast_mem (List.cons_ne_nil due
      (sched.scan now maxCatchUpScan due))) with heq | hmem
    · exact heq.le.trans h
    · exact (sched.scan_spec now maxCatchUpScan due).2 _ hmem
  simp only [plan, hcatch, Bool.not_true, Bool.false_eq_true, if_false]
  refine ⟨?_, ?_, ?_, ?_⟩
  · rw [hscanned, newest]
  · rw [hscanned]
  · rw [hlength, occurrences, List.length_cons]
    exact decide_eq_decide.mpr (by omega)
  · rw [max_eq_right hlast]

/-- A backlog that the scan gets to the end of is caught up with exactly. -/
lemma exact_of_le (hcatch : sched.catchUp = true) (h : due ≤ now)
    (hlength : (sched.occurrences due now).length ≤ maxCatchUpScan + 1) :
    sched.Exact due now (sched.plan tick due now) := by
  obtain ⟨hdue, hdropped, -, hnext⟩ := sched.plan_eq tick hcatch h
  rw [List.take_of_length_le hlength] at hdue hdropped
  have hcount : (sched.plan tick due now).dropped =
      (sched.occurrences due now).length - (sched.plan tick due now).due.length := by
    rw [hdue, hdropped, newest, List.length_drop]
    omega
  exact ⟨hdue, fun _ => hcount, hcount.le, hnext⟩

/-- Of a longer backlog, the newest occurrence is not replayed. -/
lemma not_exact_of_lt (hcatch : sched.catchUp = true) (h : due ≤ now)
    (hlength : maxCatchUpScan + 1 < (sched.occurrences due now).length) :
    ¬sched.Exact due now (sched.plan tick due now) := by
  intro hexact
  obtain ⟨hdue, -, -, -⟩ := sched.plan_eq tick hcatch h
  have hlimit := sched.limit_pos
  have hne : sched.occurrences due now ≠ [] := List.cons_ne_nil _ _
  have hsplit := List.take_append_drop (maxCatchUpScan + 1) (sched.occurrences due now)
  -- the newest occurrence is among those after the scan, and all that is replayed before them
  have hlast : (sched.occurrences due now).getLast hne ∈
      (sched.occurrences due now).drop (maxCatchUpScan + 1) := by
    have hpos : (sched.occurrences due now).drop (maxCatchUpScan + 1) ≠ [] := by
      rw [Ne, List.drop_eq_nil_iff]
      omega
    rw [← List.getLast_drop hpos]
    exact List.getLast_mem _
  have hnewest : (sched.occurrences due now).getLast hne ∈
      newest sched.catchUpLimit (sched.occurrences due now) := by
    have hpos : (sched.occurrences due now).drop
        ((sched.occurrences due now).length - sched.catchUpLimit) ≠ [] := by
      rw [Ne, List.drop_eq_nil_iff]
      omega
    rw [newest, ← List.getLast_drop hpos]
    exact List.getLast_mem _
  rw [← hexact.due, hdue] at hnewest
  have hsorted : (sched.occurrences due now).Pairwise (· < ·) := sched.sorted_occurrences
  rw [← hsplit] at hsorted
  exact Nat.lt_irrefl _ ((List.pairwise_append.mp hsorted).2.2 _ (List.mem_of_mem_drop hnewest)
    _ hlast)

/-! ### Pass after pass -/

/-- What one leader enqueues in passes at the given times, from the occurrence `due` on. -/
def passes (sched : Schedule) (tick : ℕ) : ℕ → List ℕ → List ℕ
  | _, [] => []
  | due, now :: rest =>
    if now < due then passes sched tick due rest
    else
      (sched.plan tick due now).due ++
        match (sched.plan tick due now).next with
        | some due => passes sched tick due rest
        | none => []

/-- Later passes enqueue later occurrences. -/
lemma sorted_passes (times : List ℕ) :
    (sched.passes tick due times).Pairwise (· < ·) ∧
      ∀ t ∈ sched.passes tick due times, due ≤ t := by
  induction times generalizing due with
  | nil => exact ⟨.nil, fun t ht => absurd ht List.not_mem_nil⟩
  | cons now rest ih =>
    rw [passes]
    split_ifs with hnow
    · exact ih
    · obtain ⟨hsorted, hbounds⟩ := @plan_due sched tick due now (Nat.not_lt.mp hnow)
      cases hnext : (sched.plan tick due now).next with
      | none =>
        simp only [List.append_nil]
        exact ⟨hsorted, fun t ht => (hbounds t ht).1⟩
      | some next =>
        have hlt := lt_of_plan_next hnext
        obtain ⟨hrest, hlater⟩ := @ih next
        refine ⟨List.pairwise_append.mpr ⟨hsorted, hrest, fun t ht u hu => ?_⟩, fun t ht => ?_⟩
        · have hle := (hbounds t ht).2
          have hge := hlater u hu
          omega
        · rcases List.mem_append.mp ht with ht | ht
          · exact (hbounds t ht).1
          · have hge := hlater t ht
            omega

/-- A schedule finds the same next occurrence from everywhere before it. -/
def Coherent (sched : Schedule) : Prop :=
  ∀ a b, a ≤ b → (∀ t, sched.nextAfter a = some t → b < t) → sched.nextAfter b = sched.nextAfter a

/-- The next occurrence of a coherent schedule is the first one from `due` on that is in the
future. -/
lemma Coherent.isLeast (hcoherent : sched.Coherent) (h : due ≤ now) {t : ℕ}
    (ht : sched.nextAfter now = some t) : IsLeast {u | sched.Occurs due u ∧ now < u} t := by
  have hlater : ∀ u, sched.Occurs due u → now < u → t ≤ u := by
    intro u hu
    induction hu with
    | first => intro hlt; omega
    | @next s u hs hu ih =>
      intro hlt
      rcases Nat.lt_or_ge now s with hs' | hs'
      · exact (ih hs').trans (sched.lt_of_nextAfter hu).le
      · have heq := hcoherent s now hs' fun v hv => by
          obtain rfl := Option.some.inj (hu.symm.trans hv)
          exact hlt
        exact (Option.some.inj (ht.symm.trans (heq.trans hu))).le
  refine ⟨⟨?_, sched.lt_of_nextAfter ht⟩, fun u hu => hlater u hu.1 hu.2⟩
  -- the last occurrence up to the present leads to it
  have hne : sched.occurrences due now ≠ [] := List.cons_ne_nil _ _
  obtain ⟨hlast, hle⟩ := (mem_occurrences h).mp (List.getLast_mem hne)
  have hnone : ∀ u, sched.nextAfter ((sched.occurrences due now).getLast hne) = some u →
      now < u := by
    intro u hu
    by_contra hge
    have hmem := (mem_occurrences h).mpr ⟨hlast.next hu, Nat.not_lt.mp hge⟩
    have hlt := sched.lt_of_nextAfter hu
    have hsorted : (sched.occurrences due now).Pairwise (· ≤ ·) :=
      sched.sorted_occurrences.imp fun h => Nat.le_of_lt h
    have hmax := hsorted.rel_getLast hmem
    omega
  have heq := hcoherent _ now hle hnone
  exact hlast.next (heq.symm.trans ht)

/-- With catch-up on, a pass is exact precisely when the scan reaches the end of the backlog, which
it does up to 10,001 occurrences; and however long the backlogs are, the passes of one leader
enqueue no occurrence twice. -/
theorem exact_iff_le (sched : Schedule) (tick : ℕ) (hcatch : sched.catchUp = true) :
    (∀ due now, due ≤ now → (sched.Exact due now (sched.plan tick due now) ↔
        (sched.occurrences due now).length ≤ maxCatchUpScan + 1)) ∧
      (∀ due times, (sched.passes tick due times).Nodup) ∧
      (sched.Coherent → ∀ due now t, due ≤ now → (sched.plan tick due now).next = some t →
        IsLeast {u | sched.Occurs due u ∧ now < u} t) := by
  refine ⟨fun due now h => ⟨fun hexact => ?_, exact_of_le hcatch h⟩, fun due times => ?_,
    fun hcoherent due now t h ht => ?_⟩
  · by_contra hlength
    exact not_exact_of_lt hcatch h (Nat.not_le.mp hlength) hexact
  · exact (sorted_passes times).1.imp fun hlt => hlt.ne
  · rw [(sched.plan_eq tick hcatch h).2.2.2] at ht
    exact hcoherent.isLeast h ht

/-- A schedule that fires at every whole minute and catches up. -/
def catchingUp : Schedule := { everyMinute .allow with catchUp := true }

/-- Three minutes of downtime. -/
theorem exact_iff_le_catchingUp :
    catchingUp.Exact 60000000000 200000000000
        (catchingUp.plan 1000000000 60000000000 200000000000) ∧
      (catchingUp.passes 1000000000 60000000000 [200000000000, 250000000000]).Nodup := by
  obtain ⟨hexact, hnodup, -⟩ := exact_iff_le catchingUp 1000000000 rfl
  exact ⟨(hexact _ _ (by decide)).mpr (by decide), hnodup _ _⟩

/-- The minutes from one to another. -/
lemma length_scan_catchingUp {n k fuel : ℕ} (h : n ≤ fuel) :
    (catchingUp.scan ((k + n) * 60000000000) fuel (k * 60000000000)).length = n := by
  induction n generalizing k fuel with
  | zero =>
    cases fuel with
    | zero => rfl
    | succ fuel =>
      have hnext : catchingUp.nextAfter (k * 60000000000) = some ((k + 1) * 60000000000) := by
        simp [nextAfter, catchingUp, everyMinute]
      have hlater : k * 60000000000 < (k + 1) * 60000000000 := by omega
      rw [scan, hnext]
      simp [hlater]
  | succ n ih =>
    obtain ⟨fuel, rfl⟩ : ∃ f, fuel = f + 1 := ⟨fuel - 1, by omega⟩
    have hnext : catchingUp.nextAfter (k * 60000000000) = some ((k + 1) * 60000000000) := by
      simp [nextAfter, catchingUp, everyMinute]
    have hnow : ¬(k + (n + 1)) * 60000000000 < (k + 1) * 60000000000 := by omega
    rw [scan, hnext]
    simp only [hnow, if_false, List.length_cons]
    rw [show k + (n + 1) = k + 1 + n by omega, ih (by omega)]

/-- After a week of downtime, what is replayed stops short of the present. -/
theorem not_exact_after_a_week :
    ¬∀ (sched : Schedule) (tick due now : ℕ), sched.catchUp = true → due ≤ now →
      sched.Exact due now (sched.plan tick due now) := by
  intro h
  have hweek := h catchingUp 1000000000 (0 * 60000000000) ((0 + 10080) * 60000000000) rfl (by omega)
  refine not_exact_of_lt rfl (by omega) ?_ hweek
  rw [occurrences, List.length_cons, length_scan_catchingUp (by omega)]
  decide

end Moso.Jobs.Schedule
