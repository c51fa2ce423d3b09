import Moso.Foundation.Gcra
import Moso.Kv.Rate
import Mathlib.Tactic.Ring

/-!
# How much a rate limit admits

A bucket refines the abstract cell rate algorithm at the truncated interval `emissionUs` and the
truncated tolerance `toleranceUs`. What it admits is therefore bounded, tightly, by
`(W + toleranceUs) / emissionUs` in a window of `W` microseconds, and the two truncations decide
whether that is within `burst + W / T` for the exact interval `T = period / limit`.
-/

namespace Moso.Kv

namespace RateQuota

variable (q : RateQuota)

/-- The time is far enough below `2 ^ 64` that no operation of a charge saturates. -/
def InRange (t : ℕ) : Prop := t + q.toleranceUs + q.emissionUs ≤ u64Max

/-- How many charges of a fresh bucket are admitted in the closed window from `s` to `u`. -/
def admittedIn (ts : List ℕ) (s u : ℕ) : ℕ :=
  (Gcra.inWindow s u (admittedTimes (charges q none ts))).length

/-- `⌊W / T⌋` for `W` microseconds and the exact interval `T = period / limit` in nanoseconds. -/
def wholeIntervals (W : ℕ) : ℕ := W * 1000 * q.limit / q.period

/-- The documented bound: at most `burst` at one instant, and at most `burst + ⌊W / T⌋` in any
closed window of `W` microseconds, whatever the arrivals. -/
def AdmissionBound : Prop :=
  ∀ ts : List ℕ, ts.Pairwise (· ≤ ·) → (∀ t ∈ ts, q.InRange t) →
    (∀ s, q.admittedIn ts s s ≤ q.burst) ∧
    ∀ s W, q.admittedIn ts s (s + W) ≤ q.burst + q.wholeIntervals W

/-- Over `W` microseconds the truncations do not add up to one request. -/
def NoDrift (W : ℕ) : Prop :=
  (W + q.toleranceUs) / q.emissionUs ≤ q.burst + q.wholeIntervals W

lemma emissionUs_pos : 0 < q.emissionUs := by
  unfold emissionUs
  omega

end RateQuota

lemma parseU64_toString {n : ℕ} (h : n ≤ u64Max) : parseU64 (toString n) = some n :=
  Decimal.parse_trim_toString h

/-- A timestamp ahead of the clock is the arrival time while it lives. -/
lemma Bucket.tat_live {now tat expiresAt : ℕ} (htat : tat ≤ u64Max) (hnow : now ≤ tat)
    (hlive : now * 1000 < expiresAt) : Bucket.tat now (some (toString tat, expiresAt)) = tat := by
  rw [Bucket.tat, Bucket.get, if_neg (not_le.mpr hlive), Option.bind_some,
    parseU64_toString htat, Option.getD_some, max_eq_left hnow]

/-! ### A bucket refines the abstract algorithm -/

/-- The bucket stands for the arrival time `tat`: either it is absent, or it holds `tat` and does
not expire before `tat` has passed. -/
def Bucket.Represents (q : RateQuota) (b : Bucket) (tat : ℕ) : Prop :=
  tat + q.emissionUs ≤ u64Max ∧
    (b = none ∧ tat = 0 ∨ ∃ d, b = some (toString tat, d) ∧ tat * 1000 ≤ d)

namespace Bucket.Represents

variable {q : RateQuota} {b : Bucket} {tat now : ℕ}

/-- Expiry loses nothing: what the charge reads, brought up to `now`, is `tat` brought up to
`now`. -/
lemma max_stored (h : b.Represents q tat) :
    max (((b.get now).bind parseU64).getD now) now = max tat now := by
  obtain ⟨hle, ⟨rfl, rfl⟩ | ⟨d, rfl, hd⟩⟩ := h
  · simp [Bucket.get]
  · by_cases hexp : d ≤ now * 1000
    · have htat : tat ≤ now := by omega
      simp [Bucket.get, hexp, htat]
    · have hparse : parseU64 (toString tat) = some tat := parseU64_toString (by omega)
      simp only [Bucket.get, if_neg hexp, Option.bind_some, hparse, Option.getD_some]

end Bucket.Represents

section Charge

variable {q : RateQuota} {b : Bucket} {tat now : ℕ}

/-- In range, the new arrival time of a charge is that of the abstract algorithm. -/
lemma saturatingAdd_stored (h : b.Represents q tat) (hr : q.InRange now) :
    saturatingAdd (max (((b.get now).bind parseU64).getD now) now) q.emissionUs =
      Gcra.bump q.emissionUs tat now := by
  rw [h.max_stored]
  refine saturatingAdd_eq ?_
  have hnow : now + q.toleranceUs + q.emissionUs ≤ u64Max := hr
  have htat := h.1
  rcases max_choice tat now with hm | hm <;> rw [hm] <;> omega

/-- A charge within the tolerance is admitted at the first attempt and moves the arrival time. -/
lemma rateLimitCas_of_le (h : b.Represents q tat) (hr : q.InRange now)
    (hadm : Gcra.bump q.emissionUs tat now ≤ now + q.toleranceUs) :
    (rateLimitCas q now b).1.allowed = true ∧
      (rateLimitCas q now b).2.Represents q (Gcra.bump q.emissionUs tat now) := by
  have hsat := saturatingAdd_stored h hr
  have hle : ¬ Gcra.bump q.emissionUs tat now - q.toleranceUs > now := by omega
  have hrun : rateLimitCas q now b =
      ({ allowed := true, limit := q.limit,
         remaining := min u32Max ((now + q.toleranceUs - Gcra.bump q.emissionUs tat now)
           / q.emissionUs),
         retryAfter := 0, reset := (Gcra.bump q.emissionUs tat now - now) * 1000 },
        some (toString (Gcra.bump q.emissionUs tat now), now * 1000 + q.stateTtl)) := by
    simp only [rateLimitCas, maxCasAttempts, rateLimitCasLoop, hsat, if_neg hle,
      Bucket.compareAndSwap, if_true]
  rw [hrun]
  have hnow : now + q.toleranceUs + q.emissionUs ≤ u64Max := hr
  have hin : Gcra.bump q.emissionUs tat now + q.emissionUs ≤ u64Max := by omega
  -- the TTL covers the whole tolerance, so the state outlives its arrival time
  have httl : q.toleranceUs * 1000 ≤ q.stateTtl := by
    have : q.toleranceUs ≤ q.tolerance / 1000 := min_le_right _ _
    unfold RateQuota.stateTtl
    omega
  have hexp : Gcra.bump q.emissionUs tat now * 1000 ≤ now * 1000 + q.stateTtl := by
    calc
      _ ≤ (now + q.toleranceUs) * 1000 := Nat.mul_le_mul_right 1000 hadm
      _ = now * 1000 + q.toleranceUs * 1000 := Nat.add_mul _ _ _
      _ ≤ now * 1000 + q.stateTtl := Nat.add_le_add_left httl _
  exact ⟨rfl, hin, Or.inr ⟨_, rfl, hexp⟩⟩

/-- A charge beyond the tolerance is refused and leaves the bucket alone. -/
lemma rateLimitCas_of_not_le (h : b.Represents q tat) (hr : q.InRange now)
    (hadm : ¬ Gcra.bump q.emissionUs tat now ≤ now + q.toleranceUs) :
    (rateLimitCas q now b).1.allowed = false ∧ (rateLimitCas q now b).2 = b := by
  have hsat := saturatingAdd_stored h hr
  have hgt : Gcra.bump q.emissionUs tat now - q.toleranceUs > now := by omega
  simp only [rateLimitCas, maxCasAttempts, rateLimitCasLoop, hsat, if_pos hgt, and_self]

/-- The charges of a bucket admit exactly what the abstract algorithm admits. -/
theorem admittedTimes_charges {ts : List ℕ} (h : b.Represents q tat)
    (hr : ∀ t ∈ ts, q.InRange t) :
    admittedTimes (charges q b ts) = Gcra.admitted q.emissionUs q.toleranceUs tat ts := by
  induction ts generalizing b tat with
  | nil => rfl
  | cons t ts ih =>
    have hrt : q.InRange t := hr t List.mem_cons_self
    have hrts : ∀ t' ∈ ts, q.InRange t' := fun t' ht' => hr t' (List.mem_cons_of_mem _ ht')
    by_cases hadm : Gcra.bump q.emissionUs tat t ≤ t + q.toleranceUs
    · obtain ⟨hallowed, hnext⟩ := rateLimitCas_of_le h hrt hadm
      rw [Gcra.admitted_cons_of_le hadm, ← ih hnext hrts]
      simp [admittedTimes, charges, hallowed]
    · obtain ⟨hallowed, hsame⟩ := rateLimitCas_of_not_le h hrt hadm
      rw [Gcra.admitted_cons_of_not_le hadm, ← ih h hrts, charges, hsame]
      simp [admittedTimes, hallowed]

end Charge

/-! ### The exact bound -/

namespace RateQuota

variable {q : RateQuota} {ts : List ℕ}

lemma represents_none {t : ℕ} (hr : q.InRange t) : Bucket.Represents q none 0 := by
  have ht : t + q.toleranceUs + q.emissionUs ≤ u64Max := hr
  exact ⟨by omega, Or.inl ⟨rfl, rfl⟩⟩

lemma admittedIn_eq (hr : ∀ t ∈ ts, q.InRange t) (s u : ℕ) :
    q.admittedIn ts s u =
      (Gcra.inWindow s u (Gcra.admitted q.emissionUs q.toleranceUs 0 ts)).length := by
  cases ts with
  | nil => rfl
  | cons t ts =>
    rw [admittedIn, admittedTimes_charges (represents_none (hr t List.mem_cons_self)) hr]

lemma mem_of_mem_admitted {e τ tat t : ℕ} (h : t ∈ Gcra.admitted e τ tat ts) : t ∈ ts := by
  induction ts generalizing tat with
  | nil => exact h
  | cons t' ts ih =>
    by_cases hadm : Gcra.bump e tat t' ≤ t' + τ
    · rw [Gcra.admitted_cons_of_le hadm, List.mem_cons] at h
      exact List.mem_cons.mpr (h.imp_right ih)
    · rw [Gcra.admitted_cons_of_not_le hadm] at h
      exact List.mem_cons_of_mem _ (ih h)

/-- At most `(W + toleranceUs) / emissionUs` charges are admitted in `W` microseconds. -/
lemma admittedIn_le (hr : ∀ t ∈ ts, q.InRange t) (s W : ℕ) :
    q.admittedIn ts s (s + W) ≤ (W + q.toleranceUs) / q.emissionUs := by
  rw [admittedIn_eq hr, Nat.le_div_iff_mul_le q.emissionUs_pos]
  have h := Gcra.length_admitted_nsmul_le (Nat.zero_le q.emissionUs) s W
    (Nat.zero_le (W + q.toleranceUs)) ts 0
  rwa [nsmul_eq_mul, Nat.cast_id] at h

lemma wholeIntervals_mono {W W' : ℕ} (h : W ≤ W') : q.wholeIntervals W ≤ q.wholeIntervals W' :=
  Nat.div_le_div_right (Nat.mul_le_mul_right _ (Nat.mul_le_mul_right _ h))

/-- A window that reaches past the representable times holds no more than its part in range. -/
lemma admittedIn_clip (hr : ∀ t ∈ ts, q.InRange t) (s W : ℕ) :
    q.admittedIn ts s (s + W) = 0 ∨
      ∃ V, V ≤ W ∧ q.InRange V ∧ q.admittedIn ts s (s + W) = q.admittedIn ts s (s + V) := by
  by_cases hempty : q.admittedIn ts s (s + W) = 0
  · exact Or.inl hempty
  right
  rw [admittedIn_eq hr] at hempty
  obtain ⟨t, ht⟩ := List.exists_mem_of_length_pos (Nat.pos_of_ne_zero hempty)
  have hmem := List.mem_filter.mp ht
  have hrt : t + q.toleranceUs + q.emissionUs ≤ u64Max := hr t (mem_of_mem_admitted hmem.1)
  have hst : s ≤ t ∧ t ≤ s + W := by simpa using hmem.2
  refine ⟨min W (u64Max - q.toleranceUs - q.emissionUs - s), min_le_left _ _, ?_, ?_⟩
  · unfold InRange
    have := min_le_right W (u64Max - q.toleranceUs - q.emissionUs - s)
    omega
  · rw [admittedIn_eq hr, admittedIn_eq hr]
    congr 1
    refine List.filter_congr fun t' ht' => ?_
    have hrt' : t' + q.toleranceUs + q.emissionUs ≤ u64Max := hr t' (mem_of_mem_admitted ht')
    simp only [decide_eq_decide]
    rcases min_choice W (u64Max - q.toleranceUs - q.emissionUs - s) with hm | hm
    · rw [hm]
    · rw [hm]
      omega

/-- No charge is refused a tolerance of at least one interval. -/
lemma emissionUs_le_toleranceUs (hE : 1000 * q.limit ≤ q.period) :
    q.emissionUs ≤ q.toleranceUs := by
  have hone : 1000 ≤ q.emissionInterval :=
    (Nat.le_div_iff_mul_le q.limit_pos).mpr hE
  have htol : q.emissionInterval ≤ q.tolerance := Nat.le_mul_of_pos_right _ q.burst_pos
  have hdiv : q.emissionInterval / 1000 ≤ q.tolerance / 1000 := Nat.div_le_div_right htol
  have : 0 < u64Max := by decide
  unfold emissionUs toleranceUs
  omega

/-- The greedy client gets `(W + toleranceUs) / emissionUs` charges through, so the bound of
`admittedIn_le` is reached from any start `s`. -/
lemma admittedIn_greedy (hE : 1000 * q.limit ≤ q.period) {s W : ℕ} (hr : q.InRange (s + W)) :
    ∃ ts : List ℕ, ts.Pairwise (· ≤ ·) ∧ (∀ t ∈ ts, q.InRange t) ∧
      q.admittedIn ts s (s + W) = (W + q.toleranceUs) / q.emissionUs := by
  have hn : (W + q.toleranceUs) / q.emissionUs * q.emissionUs ≤ W + q.toleranceUs :=
    Nat.div_mul_le_self _ _
  have hin : ∀ t ∈ Gcra.greedy q.emissionUs q.toleranceUs s
      ((W + q.toleranceUs) / q.emissionUs), q.InRange t := by
    intro t ht
    have hle := (Gcra.mem_greedy_bounds hn ht).2
    have : s + W + q.toleranceUs + q.emissionUs ≤ u64Max := hr
    unfold InRange
    omega
  refine ⟨_, Gcra.greedy_pairwise _, hin, ?_⟩
  rw [admittedIn_eq hin, Gcra.admitted_greedy (emissionUs_le_toleranceUs hE),
    Gcra.inWindow_greedy hn, Gcra.length_greedy]

/-- The documented bound holds exactly when no representable window drifts by a request. -/
lemma admissionBound_iff_noDrift (hE : 1000 * q.limit ≤ q.period) :
    q.AdmissionBound ↔ ∀ W, q.InRange W → q.NoDrift W := by
  constructor
  · intro h W hW
    have hr : q.InRange (0 + W) := by rwa [Nat.zero_add]
    obtain ⟨ts, hsorted, hts, hcount⟩ := admittedIn_greedy hE hr
    rw [NoDrift, ← hcount]
    exact (h ts hsorted hts).2 0 W
  · intro h ts _ hts
    have hwindow : ∀ s W, q.admittedIn ts s (s + W) ≤ q.burst + q.wholeIntervals W := by
      intro s W
      rcases admittedIn_clip hts s W with hzero | ⟨V, hVW, hV, heq⟩
      · rw [hzero]
        exact Nat.zero_le _
      · calc
          q.admittedIn ts s (s + W) = q.admittedIn ts s (s + V) := heq
          _ ≤ (V + q.toleranceUs) / q.emissionUs := admittedIn_le hts s V
          _ ≤ q.burst + q.wholeIntervals V := h V hV
          _ ≤ q.burst + q.wholeIntervals W := Nat.add_le_add_left (wholeIntervals_mono hVW) _
    refine ⟨fun s => ?_, hwindow⟩
    have h₀ := hwindow s 0
    simpa [wholeIntervals] using h₀

/-! ### When the truncations drift -/

lemma emissionUs_eq (hE : 1000 * q.limit ≤ q.period) (hP : q.period / 1000 ≤ u64Max) :
    q.emissionUs = q.period / (q.limit * 1000) := by
  have hle : q.emissionInterval / 1000 ≤ u64Max :=
    (Nat.div_le_div_right (Nat.div_le_self _ _)).trans hP
  have hone : 1 ≤ q.emissionInterval / 1000 := by
    have : 1000 ≤ q.emissionInterval := (Nat.le_div_iff_mul_le q.limit_pos).mpr hE
    omega
  rw [emissionUs, min_eq_right hle, max_eq_left hone, emissionInterval, Nat.div_div_eq_div_mul]

lemma toleranceUs_eq (hP : q.period / 1000 ≤ u64Max) : q.toleranceUs = q.tolerance / 1000 := by
  have hle : q.tolerance ≤ q.period :=
    (Nat.mul_le_mul_left _ q.burst_le_limit).trans (Nat.div_mul_le_self _ _)
  exact min_eq_right ((Nat.div_le_div_right hle).trans hP)

/-- With a whole number of microseconds per request nothing is truncated. -/
lemma noDrift_of_dvd (hE : 1000 * q.limit ≤ q.period) (hP : q.period / 1000 ≤ u64Max)
    (hdvd : 1000 * q.limit ∣ q.period) (W : ℕ) : q.NoDrift W := by
  obtain ⟨m, hm⟩ := hdvd
  have hlim := q.limit_pos
  have hmpos : 0 < m := by
    rcases Nat.eq_zero_or_pos m with rfl | h
    · omega
    · exact h
  have he : q.emissionUs = m := by
    rw [emissionUs_eq hE hP, hm, Nat.mul_comm q.limit 1000, Nat.mul_div_cancel_left m (by omega)]
  have hτ : q.toleranceUs = m * q.burst := by
    have hint : q.emissionInterval = 1000 * m := by
      rw [emissionInterval, hm, Nat.mul_right_comm, Nat.mul_div_cancel _ hlim]
    rw [toleranceUs_eq hP, tolerance, hint, Nat.mul_assoc, Nat.mul_div_cancel_left _ (by omega)]
  have hw : q.wholeIntervals W = W / m := by
    have hcomm : W * 1000 * q.limit = 1000 * q.limit * W := by ring
    rw [wholeIntervals, hm, hcomm, Nat.mul_div_mul_left W m (by omega)]
  rw [NoDrift, he, hτ, hw, Nat.add_mul_div_left W q.burst hmpos, Nat.add_comm]

/-- Otherwise the truncated interval is shorter than the exact one, and a long enough window
collects a whole extra request. -/
lemma dvd_of_noDrift (hE : 1000 * q.limit ≤ q.period) (hP : q.period / 1000 ≤ u64Max)
    (h : ∀ W, q.NoDrift W) : 1000 * q.limit ∣ q.period := by
  by_contra hdvd
  have hlim := q.limit_pos
  have hpos : 0 < q.period := by omega
  have hlt : q.emissionUs * (1000 * q.limit) < q.period := by
    rw [emissionUs_eq hE hP, Nat.mul_comm q.limit 1000]
    refine lt_of_le_of_ne (Nat.div_mul_le_self _ _) fun heq => hdvd ?_
    exact Dvd.intro_left _ heq
  have hW := h (q.emissionUs * (q.period * (q.burst + 1)))
  have hlow : q.period * (q.burst + 1) ≤
      (q.emissionUs * (q.period * (q.burst + 1)) + q.toleranceUs) / q.emissionUs := by
    rw [Nat.le_div_iff_mul_le q.emissionUs_pos, Nat.mul_comm]
    exact Nat.le_add_right _ _
  have hexact : q.wholeIntervals (q.emissionUs * (q.period * (q.burst + 1))) =
      q.emissionUs * (1000 * q.limit) * (q.burst + 1) := by
    have hcomm : q.emissionUs * (q.period * (q.burst + 1)) * 1000 * q.limit =
        q.period * (q.emissionUs * (1000 * q.limit) * (q.burst + 1)) := by ring
    rw [wholeIntervals, hcomm, Nat.mul_div_cancel_left _ hpos]
  have hstep : q.emissionUs * (1000 * q.limit) * (q.burst + 1) + (q.burst + 1) ≤
      q.period * (q.burst + 1) := by
    calc
      _ = (q.emissionUs * (1000 * q.limit) + 1) * (q.burst + 1) := by ring
      _ ≤ q.period * (q.burst + 1) := Nat.mul_le_mul_right _ hlt
  rw [NoDrift, hexact] at hW
  omega

/-- The documented bound holds exactly when no representable window drifts by a request, and no
window at all drifts exactly when the emission interval is a whole number of microseconds. -/
theorem admissionBound_iff (hE : 1000 * q.limit ≤ q.period) (hP : q.period / 1000 ≤ u64Max) :
    (q.AdmissionBound ↔ ∀ W, q.InRange W → q.NoDrift W) ∧
      ((∀ W, q.NoDrift W) ↔ 1000 * q.limit ∣ q.period) :=
  ⟨admissionBound_iff_noDrift hE, dvd_of_noDrift hE hP, noDrift_of_dvd hE hP⟩

/-- Ten a minute: the interval is six seconds exactly. -/
theorem admissionBound_iff_ten_a_minute :
    ((RateQuota.new 10 60000000000).AdmissionBound ↔
      ∀ W, (RateQuota.new 10 60000000000).InRange W → (RateQuota.new 10 60000000000).NoDrift W) ∧
    ((∀ W, (RateQuota.new 10 60000000000).NoDrift W) ↔ 1000 * 10 ∣ 60000000000) :=
  admissionBound_iff (q := RateQuota.new 10 60000000000) (by decide) (by decide)

/-- 300000 a second is an interval of 3333 ns: the state counts it as 3 µs against a tolerance of
999900 µs, and one instant lets 333300 requests through a burst of 300000. -/
theorem admissionBound_fails_at_300000_a_second :
    (RateQuota.new 300000 1000000000).admittedIn
        (List.replicate 333300 1700000000000000) 1700000000000000 1700000000000000 = 333300 ∧
      (RateQuota.new 300000 1000000000).burst = 300000 ∧
      ¬ (RateQuota.new 300000 1000000000).AdmissionBound := by
  have he : (RateQuota.new 300000 1000000000).emissionUs = 3 := by decide
  have hτ : (RateQuota.new 300000 1000000000).toleranceUs = 999900 := by decide
  have hts : ∀ t ∈ List.replicate 333300 1700000000000000,
      (RateQuota.new 300000 1000000000).InRange t := by
    intro t ht
    rw [List.eq_of_mem_replicate ht]
    unfold InRange
    rw [he, hτ]
    decide
  have hgreedy : List.replicate 333300 1700000000000000 =
      Gcra.greedy 3 999900 1700000000000000 333300 := by
    refine (List.eq_replicate_iff.mpr ⟨Gcra.length_greedy _, fun t ht => ?_⟩).symm
    have := Gcra.mem_greedy_bounds (W := 0) (by decide) ht
    omega
  have hcount : (RateQuota.new 300000 1000000000).admittedIn
      (List.replicate 333300 1700000000000000) 1700000000000000 1700000000000000 = 333300 := by
    rw [admittedIn_eq hts, he, hτ, hgreedy, Gcra.admitted_greedy (by decide)]
    exact (congrArg List.length (Gcra.inWindow_greedy (W := 0) (by decide))).trans
      (Gcra.length_greedy _)
  refine ⟨hcount, rfl, fun h => ?_⟩
  have hburst := (h _ (List.pairwise_replicate.mpr (Or.inr le_rfl)) hts).1 1700000000000000
  rw [hcount] at hburst
  exact absurd hburst (by decide)

end RateQuota

end Moso.Kv
