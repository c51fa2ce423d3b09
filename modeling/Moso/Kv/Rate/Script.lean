import Moso.Foundation.Binary64
import Moso.Kv.Rate.Admission

/-!
# The scripted limiter

`GCRA_SCRIPT` computes in Lua's doubles, on decimal texts, with signed differences and a lifetime
in milliseconds; `rate_limit_cas` computes in saturating `u64`. While every quantity is below
`2 ^ 53` the two decide alike and store the same text, and the expiry of what they stored cannot
be observed.
-/

namespace Moso.Kv

/-! ### The script -/

/-- Lua's `tonumber` on a text of digits. -/
def tonumber (text : String) : Option Binary64 :=
  if text.toList ≠ [] ∧ text.toList.all Char.isDigit then
    some (.ofRat (Nat.ofDigitChars 10 text.toList 0))
  else
    none

/-- `string.format('%.0f', x)`. -/
def formatInteger (x : Binary64) : String := toString (Binary64.roundEven x.val)

/-- `if tat == nil or tat < now then tat = now end`. -/
def arrival (now : Binary64) : Option Binary64 → Binary64
  | none     => now
  | some tat => if tat < now then now else tat

/-- `GCRA_SCRIPT` on its arguments, with the server's clock in microseconds. Arithmetic on a
`nil` ends the script. -/
def gcraScript (argv : List String) (clock : ℕ) (b : Bucket) : Option (List ℤ × Bucket) := do
  let stored := (b.get clock).bind tonumber
  let now ← argv[0]?.bind tonumber
  let emission ← argv[1]?.bind tonumber
  let tolerance ← argv[2]?.bind tonumber
  let tat := arrival now stored
  let newTat := tat + emission
  let allowAt := newTat - tolerance
  if now < allowAt then
    let reset := ⌈(tat - now).val⌉
    some ([0, 0, ⌈(allowAt - now).val⌉, if reset < 0 then 0 else reset], b)
  else
    let ttl ← argv[3]?.bind tonumber
    let remaining := ⌊((now + tolerance - newTat) / emission).val⌋
    some ([1, if remaining < 0 then 0 else remaining, 0, ⌈(newTat - now).val⌉],
      some (formatInteger newTat, clock * 1000 + ⌊ttl.val⌋.toNat * 1000000))

/-- The arguments that `rate_limit_scripted` passes. -/
def scriptArgs (q : RateQuota) (now : ℕ) : List String :=
  [toString now, toString q.emissionUs, toString q.toleranceUs,
    toString (min u64Max (q.stateTtl / 1000000))]

/-- `Kv::rate_limit_scripted` at `now` microseconds; a failed script and a reply of another length
are errors. -/
def rateLimitScripted (q : RateQuota) (now : ℕ) (b : Bucket) : Option (RateDecision × Bucket) :=
  match gcraScript (scriptArgs q now) now b with
  | some ([allowed, remaining, retryAfterUs, resetUs], b') =>
    some ({ allowed := decide (allowed ≠ 0), limit := q.limit,
            remaining := min u32Max remaining.toNat,
            retryAfter := retryAfterUs.toNat * 1000, reset := resetUs.toNat * 1000 }, b')
  | _ => none

/-! ### Both paths -/

/-- A bucket holds nothing, or a timestamp that the limiter wrote. -/
def Bucket.Written (now : ℕ) (b : Bucket) : Prop :=
  ∀ text, b.get now = some text → ∃ tat < 2 ^ 53, text = toString tat

/-- The quantities of a charge, all below `2 ^ 53`. -/
structure RateQuota.Exact (q : RateQuota) (now : ℕ) (b : Bucket) : Prop where
  newTat : b.tat now + q.emissionUs < 2 ^ 53
  headRoom : now + q.toleranceUs < 2 ^ 53
  ttl : q.stateTtl / 1000000 < 2 ^ 53

/-- What an admitted charge stored decides, at any time from its expiry on, like the absent
entry. -/
def ExpiryUnobservable (charge : ℕ → Bucket → Option (RateDecision × Bucket)) (now : ℕ)
    (b : Bucket) : Prop :=
  ∀ decision text expiresAt, charge now b = some (decision, some (text, expiresAt)) →
    decision.allowed = true → ∀ later < 2 ^ 53, expiresAt ≤ later * 1000 →
      ∀ retainedTo, later * 1000 < retainedTo →
        (charge later none).map Prod.fst = (charge later (some (text, retainedTo))).map Prod.fst

section Exact

variable {q : RateQuota} {now n : ℕ} {b : Bucket}

lemma le_u64Max (h : n < 2 ^ 53) : n ≤ u64Max := by
  unfold u64Max
  omega

lemma tonumber_toString (n : ℕ) : tonumber (toString n) = some (.ofRat n) := by
  have hall : (toString n).toList.all Char.isDigit = true :=
    List.all_eq_true.mpr fun _ => Decimal.isDigit_of_mem_toString
  rw [tonumber, if_pos ⟨Decimal.toString_ne_nil n, hall⟩, Decimal.ofDigitChars_toString]

lemma tonumber_isInt (h : n ≤ 2 ^ 53) : ∃ x, tonumber (toString n) = some x ∧ x.IsInt n := by
  refine ⟨_, tonumber_toString n, ?_⟩
  have habs : |(n : ℤ)| ≤ 2 ^ 53 := by
    rw [Nat.abs_cast]
    exact_mod_cast h
  exact_mod_cast Binary64.isInt_ofRat habs

/-- The arrival time that the script reads is that of the other path. -/
lemma isInt_tat {x : Binary64} (hb : b.Written now) (hx : x.IsInt now) :
    (arrival x ((b.get now).bind tonumber)).IsInt (b.tat now) := by
  unfold Bucket.tat
  cases hget : b.get now with
  | none => simpa [arrival] using hx
  | some text =>
    obtain ⟨n, hn, rfl⟩ := hb text hget
    obtain ⟨y, hparse, hy⟩ := tonumber_isInt hn.le
    simp only [Option.bind_some, hparse, parseU64_toString (le_u64Max hn), Option.getD_some,
      arrival]
    by_cases hlt : n < now
    · have hyx : y < x := (hy.lt_iff hx).mpr (by exact_mod_cast hlt)
      rw [if_pos hyx, max_eq_right hlt.le]
      exact hx
    · have hyx : ¬y < x := fun h => hlt (by exact_mod_cast (hy.lt_iff hx).mp h)
      rw [if_neg hyx, max_eq_left (not_lt.mp hlt)]
      exact hy

lemma formatInteger_eq {x : Binary64} (hx : x.IsInt n) : formatInteger x = toString n := by
  rw [formatInteger, hx.roundEven]
  rfl

/-- The script on numerals. -/
lemma gcraScript_eq {clock : ℕ} {a₁ a₂ a₃ a₄ : String} {x e τ l tat : Binary64}
    (hx : tonumber a₁ = some x) (he : tonumber a₂ = some e) (hτ : tonumber a₃ = some τ)
    (hl : tonumber a₄ = some l) (htat : arrival x ((b.get clock).bind tonumber) = tat) :
    gcraScript [a₁, a₂, a₃, a₄] clock b = some (
      if x < tat + e - τ then
        ([0, 0, ⌈(tat + e - τ - x).val⌉, if ⌈(tat - x).val⌉ < 0 then 0 else ⌈(tat - x).val⌉], b)
      else
        ([1, if ⌊((x + τ - (tat + e)) / e).val⌋ < 0 then 0 else ⌊((x + τ - (tat + e)) / e).val⌋,
            0, ⌈(tat + e - x).val⌉],
          some (formatInteger (tat + e), clock * 1000 + ⌊l.val⌋.toNat * 1000000))) := by
  by_cases hlt : x < tat + e - τ
  · simp [gcraScript, hx, he, hτ, htat, hlt]
  · simp [gcraScript, hx, he, hτ, hl, htat, hlt]

/-- The script decides in integers. -/
lemma rateLimitScripted_eq (hb : b.Written now) (h : q.Exact now b) :
    rateLimitScripted q now b = some ((rateLimitCas q now b).1,
      if now + q.toleranceUs < b.tat now + q.emissionUs then b
      else some (toString (b.tat now + q.emissionUs),
        now * 1000 + q.stateTtl / 1000000 * 1000000)) := by
  have hnewTat := h.newTat
  have hroom := h.headRoom
  have httl := h.ttl
  have hpos := q.emissionUs_pos
  have hmax : now ≤ b.tat now := le_max_right _ _
  obtain ⟨x, hxread, hx⟩ := tonumber_isInt (n := now) (by omega)
  obtain ⟨e, heread, he⟩ := tonumber_isInt (n := q.emissionUs) (by omega)
  obtain ⟨τ, hτread, hτ⟩ := tonumber_isInt (n := q.toleranceUs) (by omega)
  obtain ⟨l, hlread, hl⟩ := tonumber_isInt (n := q.stateTtl / 1000000) (by omega)
  have hclamp : min u64Max (q.stateTtl / 1000000) = q.stateTtl / 1000000 :=
    min_eq_right (le_u64Max httl)
  obtain ⟨tat, htateq⟩ : ∃ tat, arrival x ((b.get now).bind tonumber) = tat := ⟨_, rfl⟩
  have htat := htateq ▸ isInt_tat hb hx
  have hnew := htat.add he (by rw [abs_le]; omega)
  have hallow := hnew.sub hτ (by rw [abs_le]; omega)
  have hsat : saturatingAdd (b.tat now) q.emissionUs = b.tat now + q.emissionUs :=
    saturatingAdd_eq (le_u64Max hnewTat)
  rw [rateLimitCas_eq, hsat]
  rw [rateLimitScripted, scriptArgs, hclamp, gcraScript_eq hxread heread hτread hlread htateq]
  by_cases hdeny : now + q.toleranceUs < b.tat now + q.emissionUs
  · have hlt := (hx.lt_iff hallow).mpr (by omega)
    have hdenied : now < b.tat now + q.emissionUs - q.toleranceUs := by omega
    have hretry : ⌈(tat + e - τ - x).val⌉ =
        (b.tat now + q.emissionUs - q.toleranceUs - now : ℕ) := by
      rw [(hallow.sub hx (by rw [abs_le]; omega)).ceil]
      omega
    have hreset : ⌈(tat - x).val⌉ = (b.tat now - now : ℕ) := by
      rw [(htat.sub hx (by rw [abs_le]; omega)).ceil]
      omega
    rw [if_pos hlt, if_pos hdeny, if_pos hdenied, hretry, hreset,
      if_neg (Int.natCast_nonneg _).not_gt]
    simp only [Int.toNat_natCast, Int.toNat_zero, Nat.min_zero, ne_eq, not_true, decide_false]
  · have hlt := mt (hx.lt_iff hallow).mp (by omega)
    have hadmitted : ¬now < b.tat now + q.emissionUs - q.toleranceUs := by omega
    have hreset : ⌈(tat + e - x).val⌉ = (b.tat now + q.emissionUs - now : ℕ) := by
      rw [(hnew.sub hx (by rw [abs_le]; omega)).ceil]
      omega
    have hleft : (x + τ - (tat + e)).IsInt
        (now + q.toleranceUs - (b.tat now + q.emissionUs) : ℕ) := by
      have hdiff := (hx.add hτ (by rw [abs_le]; omega)).sub hnew (by rw [abs_le]; omega)
      convert hdiff using 1
      omega
    have hremaining := hleft.floor_div he (by omega) hpos
    rw [if_neg hlt, if_neg hdeny, if_neg hadmitted, hreset, hremaining,
      if_neg (Int.natCast_nonneg _).not_gt, formatInteger_eq (by exact_mod_cast hnew), hl,
      Int.floor_intCast, Int.toNat_natCast]
    simp only [Int.toNat_natCast]
    rfl

/-- A timestamp that has passed decides like an absent one. -/
lemma map_fst_rateLimitCas {tat later retainedTo : ℕ} (htat : tat < 2 ^ 53) (hpast : tat ≤ later)
    (hlive : later * 1000 < retainedTo) :
    (rateLimitCas q later none).1 =
      (rateLimitCas q later (some (toString tat, retainedTo))).1 := by
  have hread : Bucket.tat later (some (toString tat, retainedTo)) = Bucket.tat later none := by
    rw [Bucket.tat, Bucket.get, if_neg (not_le.mpr hlive), Option.bind_some,
      parseU64_toString (le_u64Max htat), Option.getD_some, max_eq_right hpast]
    exact (max_self later).symm
  simp only [rateLimitCas_eq, hread, apply_ite Prod.fst]

lemma map_fst_rateLimitScripted {tat later retainedTo : ℕ} (htat : tat < 2 ^ 53)
    (hpast : tat ≤ later) (hlater : later < 2 ^ 53) (hlive : later * 1000 < retainedTo) :
    (rateLimitScripted q later none).map Prod.fst =
      (rateLimitScripted q later (some (toString tat, retainedTo))).map Prod.fst := by
  obtain ⟨x, hxread, hx⟩ := tonumber_isInt hlater.le
  obtain ⟨y, hyread, hy⟩ := tonumber_isInt htat.le
  have hfresh : arrival x ((Bucket.get later none).bind tonumber) = x := rfl
  have hretained :
      arrival x ((Bucket.get later (some (toString tat, retainedTo))).bind tonumber) = x := by
    rw [Bucket.get, if_neg (not_le.mpr hlive), Option.bind_some, hyread, arrival]
    by_cases hlt : y < x
    · rw [if_pos hlt]
    · have hge := mt (hy.lt_iff hx).mpr hlt
      obtain rfl : tat = later := by omega
      rw [if_neg hlt, hy.eq hx]
  simp only [rateLimitScripted, scriptArgs,
    gcraScript_eq hxread (tonumber_toString _) (tonumber_toString _) (tonumber_toString _) hfresh,
    gcraScript_eq hxread (tonumber_toString _) (tonumber_toString _) (tonumber_toString _)
      hretained]
  split_ifs <;> rfl

/-- The lifetime outlasts the arrival time, in whole milliseconds too. -/
lemma le_of_expired {tat later : ℕ} (htat : tat ≤ now + q.toleranceUs)
    (hexpired : now * 1000 + q.stateTtl / 1000000 * 1000000 ≤ later * 1000) : tat ≤ later := by
  have htolerance : q.toleranceUs * 1000 ≤ q.tolerance :=
    (Nat.mul_le_mul_right 1000 (min_le_right _ _)).trans (Nat.div_mul_le_self _ _)
  have hlifetime : q.tolerance + 1000000000 ≤ q.stateTtl := by
    rw [RateQuota.stateTtl]
    omega
  omega

lemma allowed_iff (h : q.Exact now b) : (rateLimitCas q now b).1.allowed = true ↔
    b.tat now + q.emissionUs ≤ now + q.toleranceUs := by
  rw [rateLimitCas_eq, saturatingAdd_eq (le_u64Max h.newTat)]
  by_cases hlt : now < b.tat now + q.emissionUs - q.toleranceUs
  · rw [if_pos hlt]
    exact iff_of_false Bool.false_ne_true (by omega)
  · rw [if_neg hlt]
    exact iff_of_true (Eq.refl true) (by omega)

/-- What an admitted charge stores. -/
lemma rateLimitCas_stored (h : q.Exact now b)
    (hroom : b.tat now + q.emissionUs ≤ now + q.toleranceUs) :
    (rateLimitCas q now b).2 =
      some (toString (b.tat now + q.emissionUs), now * 1000 + q.stateTtl) := by
  rw [rateLimitCas_eq, saturatingAdd_eq (le_u64Max h.newTat), if_neg (by omega)]

lemma rateLimitCas_untouched (h : q.Exact now b)
    (hroom : ¬b.tat now + q.emissionUs ≤ now + q.toleranceUs) : (rateLimitCas q now b).2 = b := by
  rw [rateLimitCas_eq, saturatingAdd_eq (le_u64Max h.newTat), if_pos (by omega)]

lemma expiryUnobservable_scripted (hb : b.Written now) (h : q.Exact now b) :
    ExpiryUnobservable (rateLimitScripted q) now b := by
  intro decision text expiresAt hcharge hallowed later hlater hexpired retainedTo hlive
  rw [rateLimitScripted_eq hb h, Option.some.injEq, Prod.mk.injEq] at hcharge
  obtain ⟨rfl, hstored⟩ := hcharge
  have hroom := (allowed_iff h).mp hallowed
  rw [if_neg (by omega), Option.some.injEq, Prod.mk.injEq] at hstored
  obtain ⟨rfl, rfl⟩ := hstored
  exact map_fst_rateLimitScripted h.newTat (le_of_expired hroom hexpired) hlater hlive

lemma expiryUnobservable_cas (h : q.Exact now b) :
    ExpiryUnobservable (fun now b => some (rateLimitCas q now b)) now b := by
  intro decision text expiresAt hcharge hallowed later _ hexpired retainedTo hlive
  rw [Option.some.injEq, Prod.ext_iff] at hcharge
  obtain ⟨rfl, hstored⟩ := hcharge
  have hroom := (allowed_iff h).mp hallowed
  rw [rateLimitCas_stored h hroom, Option.some.injEq, Prod.mk.injEq] at hstored
  obtain ⟨rfl, rfl⟩ := hstored
  have hpast : b.tat now + q.emissionUs ≤ later := le_of_expired hroom (by omega)
  exact congrArg some (map_fst_rateLimitCas h.newTat hpast hlive)

end Exact

/-- Both paths decide alike and store the same text, nothing on a denial, and neither can tell
whether what it stored has expired. -/
theorem scripted_agrees {q : RateQuota} {now : ℕ} {b : Bucket} (hb : b.Written now)
    (h : q.Exact now b) :
    (∃ b', rateLimitScripted q now b = some ((rateLimitCas q now b).1, b') ∧
      b'.map Prod.fst = (rateLimitCas q now b).2.map Prod.fst ∧
      ((rateLimitCas q now b).1.allowed = false → b' = b ∧ (rateLimitCas q now b).2 = b)) ∧
    ExpiryUnobservable (rateLimitScripted q) now b ∧
    ExpiryUnobservable (fun now b => some (rateLimitCas q now b)) now b := by
  refine ⟨⟨_, rateLimitScripted_eq hb h, ?_⟩, expiryUnobservable_scripted hb h,
    expiryUnobservable_cas h⟩
  by_cases hroom : b.tat now + q.emissionUs ≤ now + q.toleranceUs
  · rw [if_neg (by omega), rateLimitCas_stored h hroom, (allowed_iff h).mpr hroom,
      Option.map_some, Option.map_some]
    exact ⟨rfl, fun hfalse => absurd hfalse (by decide)⟩
  · rw [if_pos (by omega), rateLimitCas_untouched h hroom]
    exact ⟨rfl, fun _ => ⟨rfl, rfl⟩⟩

/-- Ten a minute, three of them taken a moment ago. -/
theorem scripted_agrees_running :
    Bucket.Written 1000000 (some (toString 19000000, 87000000000)) ∧
      (RateQuota.new 10 60000000000).Exact 1000000 (some (toString 19000000, 87000000000)) ∧
      ∃ b', rateLimitScripted (.new 10 60000000000) 1000000
          (some (toString 19000000, 87000000000)) =
        some ((rateLimitCas (.new 10 60000000000) 1000000
          (some (toString 19000000, 87000000000))).1, b') := by
  have hb : Bucket.Written 1000000 (some (toString 19000000, 87000000000)) :=
    fun _ hget => ⟨19000000, by decide, (Option.some.inj hget).symm⟩
  have htat : Bucket.tat 1000000 (some (toString 19000000, 87000000000)) = 19000000 :=
    Bucket.tat_live (by decide) (by decide) (by decide)
  have h : (RateQuota.new 10 60000000000).Exact 1000000
      (some (toString 19000000, 87000000000)) := by
    refine ⟨?_, by decide, by decide⟩
    rw [htat]
    decide
  exact ⟨hb, h, (scripted_agrees hb h).1.imp fun _ => And.left⟩

end Moso.Kv
