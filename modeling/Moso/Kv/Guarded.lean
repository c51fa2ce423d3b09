import Moso.Kv.Breaker

/-!
# Calls through the breaker

Any number of `Kv::guarded` calls against one breaker. A call asks the breaker, runs its store
call if it was admitted, and reports how that ended: a success through `record_success`, a backend
failure through `record_failure`, and neither of them for a programmer's error or a dropped
future. The failure mode of a namespace decides what the caller is given and never touches the
breaker, so it is left out.

`History` records what the statements about probes are about; no step reads it.
-/

namespace Moso.Kv

/-- How a call was admitted: after how many openings of a closed breaker, and whether by winning
the exchange of `Open` for `HalfOpen`. -/
structure Admission where
  period : ℕ
  asProbe : Bool
  deriving DecidableEq, Repr

structure History (ι : Type*) where
  /-- The call that last became the probe. -/
  probe : Option ι
  /-- How often the breaker has left `Closed`. -/
  period : ℕ
  admission : ι → Option Admission
  /-- A call admitted before the breaker opened was taken for the failed probe. -/
  misjudged : Bool
  /-- A call admitted before the breaker opened has opened it again, with the probe in flight. -/
  reopened : Bool

structure GuardedState (ι : Type*) where
  now : ℕ
  breaker : Breaker
  call : ι → GuardedCall
  history : History ι

inductive GuardedEvent (ι : Type*) where
  /-- The next atomic operation of a call on the breaker. -/
  | run (c : ι)
  /-- The store call of an admitted call ends. -/
  | settle (c : ι) (outcome : Outcome)
  | tick (d : ℕ)

namespace GuardedState

variable {ι : Type*} [DecidableEq ι]

def init (config : BreakerConfig) (seed : UInt64) : GuardedState ι :=
  { now := 0
    breaker := .new config seed
    call := fun _ => .idle
    history :=
      { probe := none, period := 0, admission := fun _ => none, misjudged := false,
        reopened := false } }

variable (s : GuardedState ι)

def inFlight (c : ι) : Bool := (s.call c).admitted

/-- The call was admitted before the breaker left `Closed` for the `period`-th time. -/
def admittedBefore (c : ι) (period : ℕ) : Bool :=
  (s.history.admission c).any fun a => a.period < period

/-- The call is about to take the branch of `record_failure` for a failed probe. -/
def judgesProbe (c : ι) : Bool :=
  s.call c = .failed ∧ s.breaker.config.failureThreshold ≠ u32Max ∧ s.breaker.state = .halfOpen

/-- The call is about to open the breaker, although it was admitted before the opening that the
current probe is about, and that probe is still in flight. -/
def reopens (c : ι) : Bool :=
  decide (s.call c = .storeOpen ∧ s.breaker.state ≠ .open) &&
    s.history.probe.any fun p =>
      s.inFlight p && (s.history.admission p).any fun a => s.admittedBefore c a.period

/-- What the next operation of `c` adds to the history. -/
def observe (c : ι) : History ι :=
  let h := s.history
  match s.call c with
  | .idle =>
    if s.breaker.state = .closed then
      { h with admission := Function.update h.admission c (some ⟨h.period, false⟩) }
    else h
  | .exchange =>
    if s.breaker.state = .open then
      { h with
        probe := some c
        admission := Function.update h.admission c (some ⟨h.period, true⟩) }
    else h
  | .failed =>
    { h with misjudged := h.misjudged || s.judgesProbe c && s.admittedBefore c h.period }
  | .storeOpen =>
    { h with
      period := if s.breaker.state = .closed then h.period + 1 else h.period
      reopened := h.reopened || s.reopens c }
  | _ => h

def step : GuardedEvent ι → Option (GuardedState ι)
  | .run c =>
    ((s.call c).advance s.breaker s.now).map fun (b, pc) =>
      { s with breaker := b, call := Function.update s.call c pc, history := s.observe c }
  | .settle c outcome =>
    match s.call c with
    | .inFlight => some { s with call := Function.update s.call c (.settle outcome) }
    | _         => none
  | .tick d => some { s with now := s.now + d }

variable {s} {s' : GuardedState ι} {c : ι}

lemma step_run :
    s.step (.run c) = some s' ↔ ∃ b pc, (s.call c).advance s.breaker s.now = some (b, pc) ∧
      s' = { s with
        breaker := b, call := Function.update s.call c pc, history := s.observe c } := by
  simp [step, eq_comm]

lemma step_settle {outcome : Outcome} :
    s.step (.settle c outcome) = some s' ↔ s.call c = .inFlight ∧
      s' = { s with call := Function.update s.call c (.settle outcome) } := by
  simp only [step]
  split <;> simp_all [eq_comm]

lemma step_tick {d : ℕ} : s.step (.tick d) = some s' ↔ s' = { s with now := s.now + d } := by
  simp [step, eq_comm]

/-- Only a winning exchange changes who the probe is. -/
lemma observe_probe :
    (s.observe c).probe =
      if s.call c = .exchange ∧ s.breaker.state = .open then some c else s.history.probe := by
  grind [observe]

/-- The history notes how a call is admitted, and nothing else about admissions. -/
lemma observe_admission :
    (s.observe c).admission =
      if s.call c = .idle ∧ s.breaker.state = .closed then
        Function.update s.history.admission c (some ⟨s.history.period, false⟩)
      else if s.call c = .exchange ∧ s.breaker.state = .open then
        Function.update s.history.admission c (some ⟨s.history.period, true⟩)
      else s.history.admission := by
  grind [observe]

lemma observe_period :
    (s.observe c).period =
      if s.call c = .storeOpen ∧ s.breaker.state = .closed then s.history.period + 1
      else s.history.period := by
  grind [observe]

lemma observe_misjudged :
    (s.observe c).misjudged =
      (s.history.misjudged || s.judgesProbe c && s.admittedBefore c s.history.period) := by
  grind [observe, judgesProbe]

lemma observe_reopened : (s.observe c).reopened = (s.history.reopened || s.reopens c) := by
  grind [observe, reopens]

end GuardedState

end Moso.Kv
