import Moso.Kv.Guarded

/-!
# One probe at a time

`record_failure` takes whoever reports a failure to a half-open breaker for the probe, and stores
`Open` whatever the state has become. As long as only the probe does either, each opening of the
breaker has one probe in flight at a time; the first other call to do so breaks the promise.
-/

namespace Moso.Kv.GuardedState

variable {ι : Type*} [DecidableEq ι]

/-- The documented guarantee: of the probes since the breaker was last closed at most one is in
flight, and no failure of a call admitted before the breaker opened was taken for the probe's or
opened it again while the probe was in flight. -/
structure OneProbe (s : GuardedState ι) : Prop where
  unique : ∀ c d a, s.inFlight c = true → s.inFlight d = true →
    s.history.admission c = some a → s.history.admission d = some a → a.asProbe = true → c = d
  judged : s.history.misjudged = false
  opened : s.history.reopened = false

/-- The step is not a failure report, by a call other than the probe, that finds the breaker half
open, nor the opening of the breaker by a call from before the opening that the probe in flight is
about. -/
def OnlyProbeJudges (s : GuardedState ι) : GuardedEvent ι → Prop
  | .run c => (s.judgesProbe c = true → s.history.probe = some c) ∧ s.reopens c = false
  | _ => True

/-- Unless the breaker is closed, the only call in flight that was admitted since it opened is the
probe of a half-open breaker. -/
structure Periods (s : GuardedState ι) : Prop where
  known : ∀ c, s.inFlight c = true →
    ∃ a, s.history.admission c = some a ∧ a.period ≤ s.history.period
  current : ∀ c a, s.inFlight c = true → s.history.admission c = some a →
    a.period = s.history.period → s.breaker.state ≠ .closed →
    s.breaker.state = .halfOpen ∧ s.history.probe = some c
  probe : s.breaker.state = .halfOpen → ∃ p a, s.history.probe = some p ∧
    s.history.admission p = some a ∧ a.period = s.history.period
  unique : ∀ c d a, s.inFlight c = true → s.inFlight d = true →
    s.history.admission c = some a → s.history.admission d = some a → a.asProbe = true → c = d

variable {s s' : GuardedState ι} {c : ι}

omit [DecidableEq ι] in
lemma periods_init (config : BreakerConfig) (seed : UInt64) :
    (init config seed : GuardedState ι).Periods where
  known c h := by cases h
  current c a h := by cases h
  probe h := by cases h
  unique c d a h := by cases h

omit [DecidableEq ι] in
/-- A call in flight other than the probe was admitted before the half-open breaker opened. -/
lemma Periods.admittedBefore (hs : s.Periods) (hc : s.inFlight c = true)
    (hhalf : s.breaker.state = .halfOpen) (hne : s.history.probe ≠ some c) :
    s.admittedBefore c s.history.period = true := by
  obtain ⟨a, ha, hle⟩ := hs.known c hc
  have hlt : a.period ≠ s.history.period := fun heq =>
    hne (hs.current c a hc ha heq (by simp [hhalf])).2
  simp only [GuardedState.admittedBefore, ha, Option.any_some, decide_eq_true_eq]
  omega

/-- What `OnlyProbeJudges` says of a call about to open a half-open breaker: it is the probe, or
the probe is gone. -/
lemma Periods.probe_of_not_reopens (hs : s.Periods) (hstore : s.call c = .storeOpen)
    (hhalf : s.breaker.state = .halfOpen) (hG : s.reopens c = false) {p : ι}
    (hp : s.history.probe = some p) (hflight : s.inFlight p = true) : p = c := by
  by_contra hne
  obtain ⟨q, a, hq, ha, hperiod⟩ := hs.probe hhalf
  obtain rfl : q = p := Option.some.inj (hq.symm.trans hp)
  have hc : s.inFlight c = true := by simp [inFlight, hstore, GuardedCall.admitted]
  have hbefore := hs.admittedBefore hc hhalf (by rw [hp]; exact fun h => hne (Option.some.inj h))
  simp [reopens, hstore, hhalf, hp, hflight, ha, hperiod, hbefore] at hG

/-! ### What one step can do to the periods -/

/-- The step admits nobody, keeps the periods and, unless it closes the breaker, its state. -/
structure Keeps (s s' : GuardedState ι) : Prop where
  state : s'.breaker.state = .closed ∨ s'.breaker.state = s.breaker.state
  inFlight : ∀ d, s'.inFlight d = true → s.inFlight d = true
  admission : s'.history.admission = s.history.admission
  period : s'.history.period = s.history.period
  probe : s'.history.probe = s.history.probe

/-- The step admits `c`, which found the breaker closed or became the probe. -/
structure Admits (s s' : GuardedState ι) (c : ι) (asProbe : Bool) : Prop where
  state : if asProbe then s.breaker.state = .open ∧ s'.breaker.state = .halfOpen
    else s'.breaker.state = .closed
  inFlight : ∀ d, d ≠ c → s'.inFlight d = true → s.inFlight d = true
  admission : s'.history.admission =
    Function.update s.history.admission c (some ⟨s.history.period, asProbe⟩)
  period : s'.history.period = s.history.period
  probe : s'.history.probe = if asProbe then some c else s.history.probe

/-- The call `c` stores `Open` and returns; from `Closed` this starts a period. -/
structure Opens (s s' : GuardedState ι) (c : ι) : Prop where
  storing : s.call c = .storeOpen
  state : s'.breaker.state = .open
  inFlight : ∀ d, s'.inFlight d = true → d ≠ c ∧ s.inFlight d = true
  admission : s'.history.admission = s.history.admission
  period : s'.history.period =
    if s.breaker.state = .closed then s.history.period + 1 else s.history.period

lemma run_cases (h : s.step (.run c) = some s') :
    Keeps s s' ∨ (∃ asProbe, Admits s s' c asProbe) ∨ Opens s s' c := by
  obtain ⟨b, pc, hadv, hs'⟩ := step_run.1 h
  have hflight : ∀ d, s'.inFlight d = if d = c then pc.admitted else s.inFlight d := by
    intro d
    rw [hs']
    simp only [inFlight, Function.update_apply]
    split_ifs <;> rfl
  have hother : ∀ d, d ≠ c → s'.inFlight d = true → s.inFlight d = true := by
    intro d hd hflight'
    rwa [hflight, if_neg hd] at hflight'
  subst hs'
  by_cases hclosed : s.call c = .idle ∧ s.breaker.state = .closed
  · refine .inr (.inl ⟨false, ?_, hother, ?_, ?_, ?_⟩)
    · rw [hclosed.1] at hadv
      simp only [GuardedCall.advance, hclosed.2, Option.some.injEq, Prod.mk.injEq] at hadv
      simp [← hadv.1, hclosed.2]
    · rw [observe_admission, if_pos hclosed]
    · rw [observe_period, if_neg (by simp [hclosed.1])]
    · rw [observe_probe, if_neg (by simp [hclosed.1])]
      rfl
  by_cases hexch : s.call c = .exchange ∧ s.breaker.state = .open
  · refine .inr (.inl ⟨true, ?_, hother, ?_, ?_, ?_⟩)
    · rw [hexch.1, GuardedCall.advance, if_pos hexch.2] at hadv
      obtain ⟨rfl, -⟩ := Prod.mk.inj (Option.some.inj hadv)
      exact ⟨hexch.2, rfl⟩
    · rw [observe_admission, if_neg hclosed, if_pos hexch]
    · rw [observe_period, if_neg (by simp [hexch.1])]
    · rw [observe_probe, if_pos hexch]
      rfl
  have hadm : (s.observe c).admission = s.history.admission := by
    rw [observe_admission, if_neg hclosed, if_neg hexch]
  have hprobe : (s.observe c).probe = s.history.probe := by rw [observe_probe, if_neg hexch]
  by_cases hstore : s.call c = .storeOpen
  · refine .inr (.inr ⟨hstore, ?_, fun d hd => ?_, hadm, ?_⟩)
    · rw [hstore] at hadv
      obtain ⟨rfl, -⟩ := Prod.mk.inj (Option.some.inj hadv)
      rfl
    · by_cases hdc : d = c
      · rw [hstore] at hadv
        obtain ⟨-, rfl⟩ := Prod.mk.inj (Option.some.inj hadv)
        rw [hflight, if_pos hdc] at hd
        cases hd
      · exact ⟨hdc, hother d hdc hd⟩
    · rw [observe_period]
      simp only [hstore, true_and]
  · refine .inl ⟨?_, fun d hd => ?_, hadm, ?_, hprobe⟩
    · obtain hsame | ⟨-, hstate⟩ | ⟨hpc, hopen, -⟩ | ⟨hpc, -⟩ := GuardedCall.advance_state hadv
      · exact .inr hsame
      · exact .inl hstate
      · exact absurd ⟨hpc, hopen⟩ hexch
      · exact absurd hpc hstore
    · by_cases hdc : d = c
      · subst hdc
        rw [hflight, if_pos rfl] at hd
        obtain hadm | ⟨hpc, hstate, -⟩ | hpc := GuardedCall.admitted_of_advance hadv hd
        · exact hadm
        · exact absurd ⟨hpc, hstate⟩ hclosed
        · exact absurd hpc hexch
      · exact hother d hdc hd
    · rw [observe_period, if_neg fun h => hstore h.1]

/-! ### The periods are kept -/

omit [DecidableEq ι] in
lemma Periods.keep (hs : s.Periods) (h : Keeps s s') : s'.Periods := by
  refine ⟨fun c hc => ?_, fun c a hc ha hper hopen => ?_, fun hhalf => ?_,
    fun c d a hc hd ha hd' => ?_⟩
  · rw [h.admission, h.period]
    exact hs.known c (h.inFlight c hc)
  · obtain hclosed | hsame := h.state
    · exact absurd hclosed hopen
    · rw [hsame, h.probe]
      exact hs.current c a (h.inFlight c hc) (h.admission ▸ ha) (h.period ▸ hper) (hsame ▸ hopen)
  · obtain hclosed | hsame := h.state
    · rw [hclosed] at hhalf
      cases hhalf
    · rw [h.probe, h.admission, h.period]
      exact hs.probe (hsame ▸ hhalf)
  · rw [h.admission] at ha hd'
    exact hs.unique c d a (h.inFlight c hc) (h.inFlight d hd) ha hd'

/-- The only call in flight that an admission can add to the period is the admitted one. -/
lemma Periods.admit {asProbe : Bool} (hs : s.Periods) (h : Admits s s' c asProbe) :
    s'.Periods := by
  have hself : s'.history.admission c = some ⟨s.history.period, asProbe⟩ := by
    rw [h.admission, Function.update_self]
  have hother : ∀ d, d ≠ c → s'.history.admission d = s.history.admission d := fun d hd => by
    rw [h.admission, Function.update_of_ne hd]
  -- Before a probe is admitted nobody in flight belongs to the period.
  have hnew : asProbe = true → ∀ d a, s.inFlight d = true → s.history.admission d = some a →
      a.period ≠ s.history.period := by
    rintro rfl d a hd ha hper
    have hopen := h.state.1
    rw [(hs.current d a hd ha hper (by simp [hopen])).1] at hopen
    cases hopen
  refine ⟨fun d hd => ?_, fun d a hd ha hper hne => ?_, fun hhalf => ?_,
    fun d e a hd he ha ha' hprobe => ?_⟩
  · by_cases hdc : d = c
    · subst hdc
      exact ⟨_, hself, h.period.ge⟩
    · rw [hother d hdc, h.period]
      exact hs.known d (h.inFlight d hdc hd)
  · cases asProbe with
    | false => exact absurd h.state hne
    | true =>
      by_cases hdc : d = c
      · subst hdc
        exact ⟨h.state.2, h.probe⟩
      · rw [hother d hdc] at ha
        exact absurd (hper.trans h.period) (hnew rfl d a (h.inFlight d hdc hd) ha)
  · cases asProbe with
    | false =>
      have hclosed : s'.breaker.state = .closed := h.state
      rw [hclosed] at hhalf
      cases hhalf
    | true => exact ⟨c, _, h.probe, hself, h.period.symm⟩
  · by_cases hdc : d = c <;> by_cases hec : e = c
    · rw [hdc, hec]
    · subst hdc
      obtain rfl := Option.some.inj (hself.symm.trans ha)
      rw [hother e hec] at ha'
      exact absurd rfl (hnew hprobe e _ (h.inFlight e hec he) ha')
    · subst hec
      obtain rfl := Option.some.inj (hself.symm.trans ha')
      rw [hother d hdc] at ha
      exact absurd rfl (hnew hprobe d _ (h.inFlight d hdc hd) ha)
    · rw [hother d hdc] at ha
      rw [hother e hec] at ha'
      exact hs.unique d e a (h.inFlight d hdc hd) (h.inFlight e hec he) ha ha' hprobe

/-- An opening leaves nobody of the period in flight: from `Closed` the period is new, and from
`HalfOpen` it is the probe that returns. -/
lemma Periods.open (hs : s.Periods) (h : Opens s s' c) (hG : s.reopens c = false) :
    s'.Periods := by
  refine ⟨fun d hd => ?_, fun d a hd ha hper _ => ?_, fun hhalf => ?_,
    fun d e a hd he ha ha' => ?_⟩
  · obtain ⟨a, ha, hle⟩ := hs.known d (h.inFlight d hd).2
    refine ⟨a, h.admission ▸ ha, ?_⟩
    rw [h.period]
    split_ifs <;> omega
  · obtain ⟨hdc, hd⟩ := h.inFlight d hd
    rw [h.admission] at ha
    rw [h.period] at hper
    by_cases hclosed : s.breaker.state = .closed
    · obtain ⟨a', ha', hle⟩ := hs.known d hd
      obtain rfl := Option.some.inj (ha.symm.trans ha')
      rw [if_pos hclosed] at hper
      omega
    · rw [if_neg hclosed] at hper
      obtain ⟨hhalf, hprobe⟩ := hs.current d a hd ha hper hclosed
      exact absurd (hs.probe_of_not_reopens h.storing hhalf hG hprobe hd) hdc
  · rw [h.state] at hhalf
    cases hhalf
  · rw [h.admission] at ha ha'
    exact hs.unique d e a (h.inFlight d hd).2 (h.inFlight e he).2 ha ha'

lemma Periods.step {e : GuardedEvent ι} (hs : s.Periods) (hG : s.OnlyProbeJudges e)
    (h : s.step e = some s') : s'.Periods := by
  cases e with
  | run c =>
    obtain hkeep | ⟨asProbe, hadm⟩ | hopen := run_cases h
    · exact hs.keep hkeep
    · exact hs.admit hadm
    · exact hs.open hopen hG.2
  | settle c outcome =>
    obtain ⟨hwait, rfl⟩ := step_settle.1 h
    refine hs.keep ⟨.inr rfl, fun d hd => ?_, rfl, rfl, rfl⟩
    by_cases hdc : d = c
    · rw [hdc, inFlight, hwait]
      rfl
    · simp only [inFlight, Function.update_of_ne hdc] at hd
      exact hd
  | tick d =>
    obtain rfl := step_tick.1 h
    exact hs.keep ⟨.inr rfl, fun _ => id, rfl, rfl, rfl⟩

/-! ### The exact condition -/

lemma history_run (h : s.step (.run c) = some s') : s'.history = s.observe c := by
  obtain ⟨b, pc, -, rfl⟩ := step_run.1 h
  rfl

omit [DecidableEq ι] in
lemma Periods.oneProbe_iff (hs : s.Periods) :
    s.OneProbe ↔ s.history.misjudged = false ∧ s.history.reopened = false :=
  ⟨fun h => ⟨h.judged, h.opened⟩, fun h => ⟨hs.unique, h.1, h.2⟩⟩

/-- The history notes a misjudged or reopening call exactly when the condition fails. -/
lemma Periods.observe_iff (hs : s.Periods) (hone : s.OneProbe)
    (h : s.step (.run c) = some s') :
    s'.history.misjudged = false ∧ s'.history.reopened = false ↔ s.OnlyProbeJudges (.run c) := by
  rw [history_run h, observe_misjudged, observe_reopened, hone.judged, hone.opened]
  simp only [Bool.false_or, Bool.and_eq_false_iff, OnlyProbeJudges]
  refine and_congr_left fun _ => ?_
  by_cases hjudge : s.judgesProbe c = true
  · obtain ⟨hfailed, -, hhalf⟩ := of_decide_eq_true hjudge
    have hc : s.inFlight c = true := by simp [inFlight, hfailed, GuardedCall.admitted]
    simp only [hjudge, Bool.true_eq_false, false_or, true_imp_iff]
    constructor
    · intro hbefore
      by_contra hne
      rw [hs.admittedBefore hc hhalf hne] at hbefore
      cases hbefore
    · intro hprobe
      obtain ⟨p, a, hp, ha, hper⟩ := hs.probe hhalf
      obtain rfl : c = p := Option.some.inj (hprobe.symm.trans hp)
      simp [GuardedState.admittedBefore, ha, hper]
  · simp [hjudge]

/-- Over every interleaving of any number of calls, each opening has at most one probe in flight
and stragglers neither pass for it nor reopen the breaker over it, exactly when only the probe
reports to a half-open breaker and no straggler opens the breaker over a probe in flight. -/
theorem oneProbe_iff_onlyProbeJudges (config : BreakerConfig) (seed : UInt64)
    (es : List (GuardedEvent ι)) :
    Machine.Always step OneProbe (init config seed) es ↔
      Machine.Meets step OnlyProbeJudges (init config seed : GuardedState ι) es := by
  refine Machine.always_iff_meets (I := fun s : GuardedState ι => s.Periods ∧ s.OneProbe)
    ?_ (fun _ hs => hs.2) ?_
    ⟨periods_init config seed, (periods_init config seed).oneProbe_iff.mpr ⟨rfl, rfl⟩⟩ es
  · rintro s e s' ⟨hs, hone⟩ hG h
    have hs' := hs.step hG h
    refine ⟨hs', hs'.oneProbe_iff.mpr ?_⟩
    cases e with
    | run c => exact (hs.observe_iff hone h).mpr hG
    | settle c outcome =>
      obtain ⟨-, rfl⟩ := step_settle.mp h
      exact ⟨hone.judged, hone.opened⟩
    | tick d =>
      obtain rfl := step_tick.mp h
      exact ⟨hone.judged, hone.opened⟩
  · rintro s e s' ⟨hs, hone⟩ hG h hone'
    cases e with
    | run c => exact hG ((hs.observe_iff hone h).mp ⟨hone'.judged, hone'.opened⟩)
    | settle c outcome => exact hG trivial
    | tick d => exact hG trivial

/-- Calls 0 and 1 are admitted while the breaker, with a threshold of one, is closed, and 0 fails.
After the cooldown call 2 becomes the probe; then 1 fails as well. Once the doubled cooldown is
over, call 3 becomes a probe next to 2. -/
def stragglerRun : List (GuardedEvent (Fin 4)) :=
  [.run 0, .run 1, .settle 0 .retryable, .run 0, .run 0, .run 0, .run 0, .run 0, .run 0,
    .tick 1000, .run 2, .run 2, .run 2, .run 2, .settle 1 .retryable, .run 1, .run 1, .run 1,
    .run 1, .run 1, .run 1, .run 1, .tick 2000, .run 3, .run 3, .run 3, .run 3]

/-- At the end of that run two probes of one opening are in flight, and the cooldown has doubled
on the failure of a call that was never a probe. -/
theorem oneProbe_fails_for_a_straggler :
    ∃ s, Machine.exec step
        (init { BreakerConfig.default with failureThreshold := 1, jitterPercent := 0 } 1)
        stragglerRun = some s ∧
      s.inFlight 2 = true ∧ s.inFlight 3 = true ∧
      s.history.admission 2 = some ⟨1, true⟩ ∧ s.history.admission 3 = some ⟨1, true⟩ ∧
      s.breaker.cooldownMs = 2000 ∧ s.history.misjudged = true ∧ ¬ s.OneProbe := by
  obtain ⟨s, hrun, hs⟩ := (Option.any_eq_true _ _).mp
    (show (Machine.exec step
        (init { BreakerConfig.default with failureThreshold := 1, jitterPercent := 0 } 1)
        stragglerRun).any
      (fun s => s.inFlight 2 ∧ s.inFlight 3 ∧ s.history.admission 2 = some ⟨1, true⟩ ∧
        s.history.admission 3 = some ⟨1, true⟩ ∧ s.breaker.cooldownMs = 2000 ∧
        s.history.misjudged) = true by decide)
  obtain ⟨h2, h3, ha2, ha3, hcooldown, hjudged⟩ := of_decide_eq_true hs
  refine ⟨s, hrun, h2, h3, ha2, ha3, hcooldown, hjudged, fun hone => ?_⟩
  exact absurd (hone.unique 2 3 _ h2 h3 ha2 ha3 rfl) (by decide)

end Moso.Kv.GuardedState
