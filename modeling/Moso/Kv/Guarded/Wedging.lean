import Moso.Kv.Guarded

/-!
# When the breaker wedges

`HalfOpen` is left only through the two `record_` methods. A probe whose store call ends in a
programmer's error, or whose caller drops the future, calls neither, and the breaker refuses
everybody from then on. No other step can do that.
-/

namespace Moso.Kv

namespace GuardedCall

/-- The call is in flight and, if it finds the breaker half open, on its way to leaving that
state. -/
def settling : GuardedCall → Bool
  | count => false
  | pc    => pc.admitted

/-- The call has found, or is about to find, that its failure opens the breaker. -/
def opens : GuardedCall → Bool
  | probeFailed | storeBackOff _ | count | opening | loadSeed _ | storeSeed _ _ | openClock _
  | storeUntil _ | storeOpen => true
  | _ => false

variable {pc pc' : GuardedCall} {b b' : Breaker} {now : ℕ}

lemma admitted_of_settling (h : pc.settling = true) : pc.admitted = true := by
  cases pc <;> first | exact h | rfl

/-- In a half-open breaker that can open, a settling call stays on its way. -/
lemma advance_settling (hpc : pc.settling = true) (hhalf : b.state = .halfOpen)
    (hopens : b.config.failureThreshold ≠ u32Max) (h : pc.advance b now = some (b', pc'))
    (hhalf' : b'.state = .halfOpen) : pc'.settling = true := by
  cases pc <;> grind [advance, settling, admitted]

/-- A breaker that never opens stays closed, and no call gets to open it. -/
lemma advance_never (hnever : b.config.failureThreshold = u32Max) (hclosed : b.state = .closed)
    (hpc : pc.opens = false) (h : pc.advance b now = some (b', pc')) :
    b'.state = .closed ∧ pc'.opens = false := by
  cases pc <;> grind [advance, opens]

end GuardedCall

namespace GuardedState

variable {ι : Type*} [DecidableEq ι]

/-- The documented guarantee: a half-open breaker waits for a probe that is in flight, and with no
call in flight and the cooldown over, the next `allow` admits its caller. -/
structure NeverWedged (s : GuardedState ι) : Prop where
  probing : s.breaker.state = .halfOpen → ∃ p, s.history.probe = some p ∧ s.inFlight p = true
  admits : (∀ c, s.inFlight c = false) → s.breaker.remaining s.now = 0 →
    (s.breaker.allow s.now).1 = .ok ()

/-- The step does not end the probe of a half-open breaker with a programmer's error or by
dropping it. -/
def ProbeReports (s : GuardedState ι) : GuardedEvent ι → Prop
  | .settle c .nonRetryable | .settle c .cancelled =>
    ¬ (s.breaker.state = .halfOpen ∧ s.history.probe = some c)
  | _ => True

/-- The probe of a half-open breaker is on its way to reporting, and a breaker that never opens
is closed. -/
structure Probing (s : GuardedState ι) : Prop where
  probe : s.breaker.state = .halfOpen →
    ∃ p, s.history.probe = some p ∧ (s.call p).settling = true
  never : s.breaker.config.failureThreshold = u32Max →
    s.breaker.state = .closed ∧ ∀ c, (s.call c).opens = false

variable {s s' : GuardedState ι}

omit [DecidableEq ι] in
lemma Probing.neverWedged (hs : s.Probing) : s.NeverWedged where
  probing h := by
    obtain ⟨p, hp, hset⟩ := hs.probe h
    exact ⟨p, hp, GuardedCall.admitted_of_settling hset⟩
  admits hquiet helapsed := by
    cases hstate : s.breaker.state with
    | closed => simp [Breaker.allow, hstate]
    | «open» => simp [Breaker.allow, hstate, helapsed]
    | halfOpen =>
      obtain ⟨p, -, hset⟩ := hs.probe hstate
      have := hquiet p
      rw [inFlight, GuardedCall.admitted_of_settling hset] at this
      cases this

omit [DecidableEq ι] in
lemma probing_init (config : BreakerConfig) (seed : UInt64) :
    (init config seed : GuardedState ι).Probing where
  probe h := by cases h
  never _ := ⟨rfl, fun _ => rfl⟩

/-- An operation of any call keeps the probe on its way. -/
lemma Probing.run {c : ι} (hs : s.Probing) (h : s.step (.run c) = some s') : s'.Probing := by
  obtain ⟨b, pc, hadv, rfl⟩ := step_run.1 h
  have hconfig := GuardedCall.advance_config hadv
  refine ⟨fun hhalf => ?_, fun hnever => ?_⟩
  · change b.state = .halfOpen at hhalf
    obtain hsame | ⟨-, hstate⟩ | ⟨hexch, hopen, -, rfl⟩ | ⟨-, hstate⟩ :=
      GuardedCall.advance_state hadv
    · have hhalf₀ : s.breaker.state = .halfOpen := hsame ▸ hhalf
      obtain ⟨p, hp, hset⟩ := hs.probe hhalf₀
      refine ⟨p, ?_, ?_⟩
      · rw [observe_probe, if_neg (by simp [hhalf₀])]
        exact hp
      · dsimp only
        rw [Function.update_apply]
        split_ifs with hpc
        · subst hpc
          refine GuardedCall.advance_settling hset hhalf₀ (fun hnever => ?_) hadv hhalf
          rw [(hs.never hnever).1] at hhalf₀
          cases hhalf₀
        · exact hset
    · rw [hstate] at hhalf
      cases hhalf
    · -- The winner of the exchange is the new probe.
      refine ⟨c, ?_, ?_⟩
      · rw [observe_probe, if_pos ⟨hexch, hopen⟩]
      · simp [GuardedCall.settling, GuardedCall.admitted]
    · rw [hstate] at hhalf
      cases hhalf
  · have hnever₀ : s.breaker.config.failureThreshold = u32Max := hconfig ▸ hnever
    obtain ⟨hclosed, hopens⟩ := hs.never hnever₀
    obtain ⟨hclosed', hpc⟩ := GuardedCall.advance_never hnever₀ hclosed (hopens c) hadv
    refine ⟨hclosed', fun d => ?_⟩
    dsimp only
    rw [Function.update_apply]
    split_ifs
    · exact hpc
    · exact hopens d

/-- So does the end of a store call, unless it is the probe's and goes unreported. -/
lemma Probing.settle {c : ι} {outcome : Outcome} (hs : s.Probing)
    (hG : s.ProbeReports (.settle c outcome)) (h : s.step (.settle c outcome) = some s') :
    s'.Probing := by
  obtain ⟨-, rfl⟩ := step_settle.1 h
  refine ⟨fun hhalf => ?_, fun hnever => ?_⟩
  · obtain ⟨p, hp, hset⟩ := hs.probe hhalf
    refine ⟨p, hp, ?_⟩
    dsimp only
    rw [Function.update_apply]
    split_ifs with hpc
    · subst hpc
      cases outcome with
      | success | retryable => rfl
      | nonRetryable | cancelled => exact absurd ⟨hhalf, hp⟩ hG
    · exact hset
  · obtain ⟨hclosed, hopens⟩ := hs.never hnever
    refine ⟨hclosed, fun d => ?_⟩
    dsimp only
    rw [Function.update_apply]
    split_ifs
    · cases outcome <;> rfl
    · exact hopens d

lemma Probing.step {e : GuardedEvent ι} (hs : s.Probing) (hG : s.ProbeReports e)
    (h : s.step e = some s') : s'.Probing := by
  cases e with
  | run c => exact hs.run h
  | settle c outcome => exact hs.settle hG h
  | tick d =>
    obtain rfl := step_tick.1 h
    exact ⟨hs.probe, hs.never⟩

/-- A probe that ends without reporting leaves the breaker half open with no probe in flight. -/
lemma not_neverWedged_of_not_probeReports {e : GuardedEvent ι} (hG : ¬ s.ProbeReports e)
    (h : s.step e = some s') : ¬ s'.NeverWedged := by
  have key : ∀ c outcome, outcome = .nonRetryable ∨ outcome = .cancelled →
      s.breaker.state = .halfOpen ∧ s.history.probe = some c →
      s.step (.settle c outcome) = some s' → ¬ s'.NeverWedged := by
    rintro c outcome hout ⟨hhalf, hprobe⟩ h hs'
    obtain ⟨-, rfl⟩ := step_settle.1 h
    obtain ⟨p, hp, hflight⟩ := hs'.probing hhalf
    obtain rfl : c = p := Option.some.inj (hprobe.symm.trans hp)
    rcases hout with rfl | rfl <;> simp [inFlight, GuardedCall.settle, GuardedCall.admitted]
      at hflight
  cases e with
  | settle c outcome =>
    cases outcome with
    | nonRetryable => exact key c _ (.inl rfl) (not_not.mp hG) h
    | cancelled => exact key c _ (.inr rfl) (not_not.mp hG) h
    | success => exact absurd trivial hG
    | retryable => exact absurd trivial hG
  | run c => exact absurd trivial hG
  | tick d => exact absurd trivial hG

/-- Over every interleaving of any number of calls, the breaker never wedges exactly when no
probe of a half-open breaker ends with a programmer's error or is dropped. -/
theorem neverWedged_iff_probeReports (config : BreakerConfig) (seed : UInt64)
    (es : List (GuardedEvent ι)) :
    Machine.Always step NeverWedged (init config seed) es ↔
      Machine.Meets step ProbeReports (init config seed : GuardedState ι) es :=
  Machine.always_iff_meets (I := Probing) (fun _ _ _ hs hG h => hs.step hG h)
    (fun _ hs => hs.neverWedged) (fun _ _ _ _ hG h => not_neverWedged_of_not_probeReports hG h)
    (probing_init config seed) es

/-- One backend failure opens a breaker with a threshold of one. After the cooldown the second
call becomes the probe and ends with a programmer's error, and an hour goes by. -/
def wedgingRun : List (GuardedEvent ℕ) :=
  [.run 0, .settle 0 .retryable, .run 0, .run 0, .run 0, .run 0, .run 0, .run 0,
    .tick 1000, .run 1, .run 1, .run 1, .run 1, .settle 1 .nonRetryable, .tick 3600000]

/-- At the end of that run the breaker is half open, neither call is in flight, and `allow`
refuses. -/
theorem neverWedged_fails_at_a_programmers_error :
    ∃ s, Machine.exec step
        (init { BreakerConfig.default with failureThreshold := 1, jitterPercent := 0 } 1)
        wedgingRun = some s ∧
      s.breaker.state = .halfOpen ∧ s.inFlight 0 = false ∧ s.inFlight 1 = false ∧
      s.breaker.allow s.now = (.error 0, s.breaker) ∧ ¬ s.NeverWedged := by
  obtain ⟨s, hrun, hs⟩ := Option.map_eq_some_iff.mp
    (show (Machine.exec step
        (init { BreakerConfig.default with failureThreshold := 1, jitterPercent := 0 } 1)
        wedgingRun).map
      (fun s => (s.breaker.state, s.history.probe, s.inFlight 0, s.inFlight 1,
        s.breaker.remaining s.now)) =
      some (.halfOpen, some 1, false, false, 0) by decide)
  simp only [Prod.mk.injEq] at hs
  obtain ⟨hstate, hprobe, h0, h1, hremaining⟩ := hs
  refine ⟨s, hrun, hstate, h0, h1, by simp [Breaker.allow, hstate, hremaining], fun hnever => ?_⟩
  obtain ⟨p, hp, hflight⟩ := hnever.probing hstate
  obtain rfl : 1 = p := Option.some.inj (hprobe.symm.trans hp)
  exact Bool.false_ne_true (h1.symm.trans hflight)

end GuardedState

end Moso.Kv
