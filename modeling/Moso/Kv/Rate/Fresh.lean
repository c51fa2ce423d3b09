import Moso.Kv.Rate.Admission

/-!
# A fresh bucket

The emission interval is clamped up to a microsecond and the tolerance is truncated down, so a
quota whose exact interval is shorter than a microsecond has less tolerance than its burst costs.
The additions that do not saturate stay in their types as long as the clock and the tolerance do.
-/

namespace Moso.Kv

/-- `Instant` on a 64-bit Unix system: whole seconds in an `i64`, and nanoseconds. -/
def instantMax : ℕ := (2 ^ 63 - 1) * 1000000000 + 999999999

/-- `Duration::MAX`. -/
def durationMax : ℕ := u64Max * 1000000000 + 999999999

namespace RateQuota

variable (q : RateQuota)

/-- A request on a bucket without a stored state is admitted. -/
def FreshAdmitted (now : ℕ) : Prop := (rateLimitCas q now none).1.allowed = true

/-- So are `burst` simultaneous requests. -/
def BurstAdmitted (now : ℕ) : Prop :=
  ∀ d ∈ charges q none (List.replicate q.burst now), d.2.allowed = true

/-- No step of `state_ttl`, of the head room and of the stored expiry leaves its type, when the
monotonic clock reads `instant`. -/
structure NoOverflow (now instant : ℕ) : Prop where
  /-- `Duration * u32` and the two additions of `state_ttl`. -/
  tolerance : q.emissionInterval * q.burst ≤ durationMax
  drain : q.tolerance + q.emissionInterval ≤ durationMax
  ttl : q.tolerance + q.emissionInterval + 1000000000 ≤ durationMax
  /-- `now + tolerance`. -/
  headRoom : now + q.toleranceUs ≤ u64Max
  /-- `Instant::now() + ttl`. -/
  expiry : instant + q.stateTtl ≤ instantMax

end RateQuota

section Charges

variable {q : RateQuota} {now tat n : ℕ}

/-- What a bucket holds that was charged at the same time. -/
lemma tat_charged (htat : tat ≤ u64Max) (hnow : now ≤ tat) :
    Bucket.tat now (some (toString tat, now * 1000 + q.stateTtl)) = tat := by
  have hlive : now * 1000 < now * 1000 + q.stateTtl := by
    rw [RateQuota.stateTtl]
    omega
  exact Bucket.tat_live htat hnow hlive

/-- Simultaneous requests are all admitted when the last of them is. -/
lemma admitted_replicate {b : Bucket} (hb : b.tat now = tat) (hnow : now ≤ u64Max) :
    (∀ d ∈ charges q b (List.replicate (n + 1) now), d.2.allowed = true) ↔
      min u64Max (tat + (n + 1) * q.emissionUs) ≤ now + q.toleranceUs := by
  have hmax : now ≤ tat := hb ▸ le_max_right _ _
  induction n generalizing b tat with
  | zero =>
    rw [List.replicate_one, charges, charges, List.forall_mem_singleton, rateLimitCas_eq, hb,
      saturatingAdd, Nat.zero_add, Nat.one_mul]
    split_ifs with h
    · simpa using by omega
    · simpa using by omega
  | succ n ih =>
    have hstored : now ≤ saturatingAdd tat q.emissionUs := by
      rw [saturatingAdd]
      omega
    have htat := tat_charged (q := q) (min_le_left u64Max (tat + q.emissionUs)) hstored
    rw [List.replicate_succ, charges, List.forall_mem_cons, rateLimitCas_eq, hb]
    split_ifs with h
    · have hlast : ¬min u64Max (tat + (n + 1 + 1) * q.emissionUs) ≤ now + q.toleranceUs := by
        rw [saturatingAdd] at h
        have hle : tat + q.emissionUs ≤ tat + (n + 1 + 1) * q.emissionUs := by
          rw [Nat.succ_mul]
          omega
        omega
      simp [hlast]
    · simp only [true_and]
      rw [Nat.succ_mul (n + 1)]
      refine (ih htat hstored).trans ?_
      omega

/-- The burst fits into the tolerance unless a request costs less than the clamped microsecond. -/
lemma burst_le_iff :
    u64Max ≤ now + q.toleranceUs ∨ q.burst * q.emissionUs ≤ q.toleranceUs ↔
      1000 * q.limit ≤ q.period ∨ u64Max ≤ now + q.toleranceUs := by
  have hlimit : 1000 * q.limit ≤ q.period ↔ 1000 ≤ q.emissionInterval :=
    (Nat.le_div_iff_mul_le q.limit_pos).symm
  have hburst := q.burst_pos
  rw [hlimit, or_comm]
  refine or_congr_left' fun hsat => ?_
  have htol : q.toleranceUs = q.emissionInterval * q.burst / 1000 := by
    rw [RateQuota.toleranceUs, RateQuota.tolerance] at hsat ⊢
    omega
  rw [htol, Nat.le_div_iff_mul_le (by decide), mul_assoc, mul_comm q.burst,
    Nat.mul_le_mul_right_iff hburst, RateQuota.emissionUs]
  have hle : q.emissionInterval ≤ q.emissionInterval * q.burst := Nat.le_mul_of_pos_right _ hburst
  rw [htol] at hsat
  omega

end Charges

namespace RateQuota

variable {q : RateQuota} {now instant : ℕ}

lemma freshAdmitted_iff (hnow : now ≤ u64Max) :
    q.FreshAdmitted now ↔ min u64Max (now + q.emissionUs) ≤ now + q.toleranceUs := by
  have htat : Bucket.tat now none = now := max_self now
  have h := admitted_replicate (q := q) (n := 0) htat hnow
  simpa [charges, FreshAdmitted] using h

lemma burstAdmitted_iff (hnow : now ≤ u64Max) :
    q.BurstAdmitted now ↔ min u64Max (now + q.burst * q.emissionUs) ≤ now + q.toleranceUs := by
  have htat : Bucket.tat now none = now := max_self now
  obtain ⟨n, hn⟩ := Nat.exists_eq_add_of_le' q.burst_pos
  rw [BurstAdmitted, hn]
  exact admitted_replicate htat hnow

/-- A burst is at least one request. -/
lemma BurstAdmitted.fresh (hnow : now ≤ u64Max) (h : q.BurstAdmitted now) :
    q.FreshAdmitted now := by
  rw [burstAdmitted_iff hnow] at h
  rw [freshAdmitted_iff hnow]
  have hle : q.emissionUs ≤ q.burst * q.emissionUs := Nat.le_mul_of_pos_left _ q.burst_pos
  omega

/-- The clock of the store leaves less room than the durations of the quota. -/
lemma noOverflow_iff :
    q.NoOverflow now instant ↔
      now + q.toleranceUs ≤ u64Max ∧ instant + q.stateTtl ≤ instantMax := by
  refine ⟨fun h => ⟨h.headRoom, h.expiry⟩, fun ⟨hroom, hexpiry⟩ => ?_⟩
  have hmax : instantMax ≤ durationMax := by
    unfold instantMax durationMax u64Max
    omega
  have httl : q.stateTtl ≤ durationMax := (Nat.le_add_left _ _).trans (hexpiry.trans hmax)
  have hdrain : q.tolerance + q.emissionInterval ≤ durationMax := (Nat.le_add_right _ _).trans httl
  exact {
    tolerance := (Nat.le_add_right _ _).trans hdrain
    drain := hdrain
    ttl := httl
    headRoom := hroom
    expiry := hexpiry }

end RateQuota

/-- A fresh bucket passes its burst, and nothing overflows, for exactly the quotas that take at
least a microsecond a request, at the times from which the tolerance and the lifetime stay in
range. -/
theorem RateQuota.fresh_iff (q : RateQuota) (now instant : ℕ) :
    q.FreshAdmitted now ∧ q.BurstAdmitted now ∧ q.NoOverflow now instant ↔
      (now = 0 ∨ now + q.period / q.limit * q.burst / 1000 ≤ u64Max) ∧
      (1000 * q.limit ≤ q.period ∨ u64Max ≤ now + q.period / q.limit * q.burst / 1000) ∧
      instant + q.period / q.limit * (q.burst + 1) + 1000000000 ≤ instantMax := by
  by_cases hnow : now ≤ u64Max
  · have hfresh : q.FreshAdmitted now ∧ q.BurstAdmitted now ↔ q.BurstAdmitted now :=
      ⟨And.right, fun h => ⟨h.fresh hnow, h⟩⟩
    rw [← and_assoc, hfresh, burstAdmitted_iff hnow, noOverflow_iff, min_le_iff,
      add_le_add_iff_left, burst_le_iff, stateTtl, Nat.mul_succ]
    simp only [toleranceUs, tolerance, emissionInterval]
    omega
  · have hroom : ¬now + q.toleranceUs ≤ u64Max := by omega
    simp only [noOverflow_iff, hroom, false_and, and_false, false_iff]
    omega

/-- A quota with no period refuses its first request, one of under a microsecond a request refuses
its burst, and the longest period leaves no room for the lifetime. -/
theorem RateQuota.fresh_fails :
    ¬(RateQuota.new 10 0).FreshAdmitted 1700000000000000 ∧
      ¬(RateQuota.new 3 2500).BurstAdmitted 1700000000000000 ∧
      ¬(RateQuota.new 1 durationMax).NoOverflow 1700000000000000 0 := by
  refine ⟨?_, ?_, ?_⟩
  · rw [freshAdmitted_iff (by decide)]
    decide
  · rw [burstAdmitted_iff (by decide)]
    decide
  · rw [noOverflow_iff]
    decide

end Moso.Kv
