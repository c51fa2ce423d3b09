import Moso.Jobs.Once
import Mathlib.Data.List.Basic

/-!
# The safety of the once ledger

The claims on a key follow one another, each an hour or more after the one it takes over. That
keeps the bodies apart only as far as a body starts while its own claim stands and close enough to
it, and it keeps the outcome only as far as a body that lost its claim does not record.
-/

namespace Moso.Jobs.OnceState

variable {ι V : Type*} [DecidableEq ι] [DecidableEq V]

/-- How a call that began when the ledger held `outcome` may stand: it has not got past reading
the ledger, and if it returned an outcome, it is that one. -/
def Defers (outcome : V) : OnceCall V → Prop
  | .claiming _ | .reading _ | .failed | .gone => True
  | .returned v => v = outcome
  | .idle | .swapping _ _ | .mine | .running | .recording _ _ => False

/-- What `once` owes its callers. -/
structure OnceSafe (s : OnceState ι V) : Prop where
  /-- Bodies start an hour apart, unless the earlier attempt ended in an error or a crash. -/
  spaced : s.starts.Pairwise fun earlier later =>
    earlier.2 + onceOrphanAfter ≤ later.2 ∨ (s.call earlier.1).isLost
  /-- A recorded outcome stays. -/
  stays : ∀ v ∈ s.outcomes, s.outcome = some v
  /-- A later call returns it without running its body. -/
  defers : ∀ c v, s.begun c = some v → Defers v (s.call c)

/-- The swap of this call would succeed. -/
def takesOver (s : OnceState ι V) (c : ι) : Bool :=
  match s.call c with
  | .swapping _ raw => s.entry = some raw
  | _               => false

/-- A claim is taken over only when the body of the call that made it, if it started and is not
known to have failed, started an hour or more ago; and a body starts, and its outcome is recorded,
only while the claim of its call stands. -/
def ClaimsKept (s : OnceState ι V) : OnceEvent ι V → Prop
  | .swap c =>
    s.takesOver c → ∀ p ∈ s.starts, s.holder = some p.1 →
      (s.call p.1).isLost ∨ p.2 + onceOrphanAfter ≤ s.now
  | .start c | .record c => s.holder = some c
  | _ => True

instance (s : OnceState ι V) (e : OnceEvent ι V) : Decidable (s.ClaimsKept e) := by
  cases e <;> unfold ClaimsKept <;> infer_instance

section

omit [DecidableEq V]

/-- The body of the call may have started. -/
def mayHaveStarted : OnceCall V → Bool
  | .running | .recording _ _ | .returned _ | .failed | .gone => true
  | .idle | .claiming _ | .reading _ | .swapping _ _ | .mine => false

/-- What holds between the steps of a run that keeps its claims. -/
structure Kept (s : OnceState ι V) : Prop where
  safe : s.OnceSafe
  unclaimed : s.entry = none → s.starts = [] ∧ s.holder = none
  started : ∀ p ∈ s.starts, mayHaveStarted (s.call p.1)
  /-- Whoever started and does not hold the claim did so an hour ago. -/
  past : ∀ p ∈ s.starts, s.holder ≠ some p.1 →
    (s.call p.1).isLost ∨ p.2 + onceOrphanAfter ≤ s.now
  /-- There is no outcome while the call that holds the claim is under way. -/
  pending : ∀ c, s.holder = some c → (s.call c).isOpen → s.outcome = none
  orphaned : ∀ c now raw, s.call c = .swapping now raw → raw.outcome = none
  begun : ∀ c v, s.begun c = some v → s.outcome = some v
  unbegun : ∀ c, s.call c = .idle → s.begun c = none

variable {s : OnceState ι V} {c : ι} {v : OnceCall V}

omit [DecidableEq ι] in
lemma kept_init (now : ℕ) : (init now : OnceState ι V).Kept where
  safe := ⟨.nil, by simp [init], by simp [init]⟩
  unclaimed _ := ⟨rfl, rfl⟩
  started := by simp [init]
  past := by simp [init]
  pending := by simp [init]
  orphaned := by simp [init]
  begun := by simp [init]
  unbegun := by simp [init]

lemma setCall_call (s : OnceState ι V) (c : ι) (v : OnceCall V) (d : ι) :
    (s.setCall c v).call d = if d = c then v else s.call d :=
  Function.update_apply s.call c v d

omit [DecidableEq ι] in
lemma isLost_of_isOpen {v : OnceCall V} (h : v.isOpen) : v.isLost = false := by
  cases v <;> first | rfl | cases h

/-- A call is lost for good: only open calls move. -/
lemma isLost_setCall (hopen : (s.call c).isOpen) {d : ι} (h : (s.call d).isLost) :
    ((s.setCall c v).call d).isLost := by
  have hd : d ≠ c := by
    rintro rfl
    rw [isLost_of_isOpen hopen] at h
    cases h
  rw [setCall_call, if_neg hd]
  exact h

/-- One call moves on, and nothing else happens. -/
lemma Kept.setCall (h : s.Kept) (hopen : (s.call c).isOpen) (hidle : v ≠ .idle)
    (hstarted : mayHaveStarted (s.call c) → mayHaveStarted v)
    (horphaned : ∀ now raw, v = .swapping now raw → raw.outcome = none)
    (hdefers : ∀ w, s.begun c = some w → Defers w v) : (s.setCall c v).Kept := by
  refine ⟨⟨?_, h.safe.stays, ?_⟩, h.unclaimed, ?_, ?_, ?_, ?_, h.begun, ?_⟩
  · exact h.safe.spaced.imp fun hp => hp.imp_right (isLost_setCall hopen)
  · intro d w hd
    rw [setCall_call]
    split
    next heq => exact hdefers w (heq ▸ hd)
    next => exact h.safe.defers d w hd
  · intro p hp
    rw [setCall_call]
    split
    next heq => exact hstarted (heq ▸ h.started p hp)
    next => exact h.started p hp
  · intro p hp hne
    exact (h.past p hp hne).imp_left (isLost_setCall hopen)
  · intro d hholder hd
    rw [setCall_call] at hd
    split at hd
    next heq =>
      subst heq
      exact h.pending d hholder hopen
    next => exact h.pending d hholder hd
  · intro d now raw hd
    rw [setCall_call] at hd
    split at hd
    · exact horphaned now raw hd
    · exact h.orphaned d now raw hd
  · intro d hd
    rw [setCall_call] at hd
    split at hd
    · exact absurd hd hidle
    · exact h.unbegun d hd

/-- A call that gets the claim: the one that had it, if its body started, lost or did so an hour
ago. -/
lemma Kept.won (h : s.Kept) (hcall : mayHaveStarted (s.call c) = false)
    (hopen : (s.call c).isOpen) (hfree : s.outcome = none)
    (hspent : ∀ p ∈ s.starts, s.holder = some p.1 →
      (s.call p.1).isLost ∨ p.2 + onceOrphanAfter ≤ s.now) (now : ℕ) :
    Kept { s.setCall c .mine with entry := some ⟨now, none⟩, holder := some c } := by
  have hmoved := h.setCall (v := .mine) hopen (by simp) (by simp [hcall]) (by simp)
    fun w hw => by
      rw [h.begun c w hw] at hfree
      cases hfree
  refine ⟨⟨hmoved.safe.spaced, ?_, hmoved.safe.defers⟩, nofun, hmoved.started, ?_,
    fun _ _ _ => rfl, hmoved.orphaned, ?_, hmoved.unbegun⟩
  · intro w hw
    rw [h.safe.stays w hw] at hfree
    cases hfree
  · intro p hp _
    by_cases hholder : s.holder = some p.1
    · exact (hspent p hp hholder).imp_left (isLost_setCall hopen)
    · exact (h.past p hp hholder).imp_left (isLost_setCall hopen)
  · intro d w hd
    rw [h.begun d w hd] at hfree
    cases hfree

/-- A call that begins takes note of what the ledger holds. -/
lemma Kept.began (h : s.Kept) (hcall : s.call c = .idle) :
    Kept { s.setCall c (.claiming s.now) with begun := Function.update s.begun c s.outcome } := by
  have hmoved := h.setCall (c := c) (v := .claiming s.now) (by rw [hcall]; rfl) (by simp)
    (by simp [hcall, mayHaveStarted]) (by simp) (fun _ _ => trivial)
  refine ⟨⟨hmoved.safe.spaced, h.safe.stays, ?_⟩, h.unclaimed, hmoved.started, hmoved.past,
    hmoved.pending, hmoved.orphaned, ?_, ?_⟩
  · intro d w hd
    change Defers w ((s.setCall c (.claiming s.now)).call d)
    by_cases heq : d = c
    · rw [setCall_call, if_pos heq]
      trivial
    · exact hmoved.safe.defers d w (by simpa [heq, OnceState.setCall] using hd)
  · intro d w hd
    change s.outcome = some w
    by_cases heq : d = c
    · simpa [heq] using hd
    · exact h.begun d w (by simpa [heq] using hd)
  · intro d hd
    change (s.setCall c (.claiming s.now)).call d = .idle at hd
    by_cases heq : d = c
    · rw [setCall_call, if_pos heq] at hd
      cases hd
    · simpa [heq, OnceState.setCall] using hmoved.unbegun d hd

/-- A body that starts while the claim of its call stands. -/
lemma Kept.bodyStarted (h : s.Kept) (hcall : s.call c = .mine) (hholder : s.holder = some c) :
    Kept { s.setCall c .running with starts := s.starts ++ [(c, s.now)] } := by
  have hopen : (s.call c).isOpen := by rw [hcall]; rfl
  have hmoved := h.setCall (c := c) (v := .running) hopen (by simp) (by simp [mayHaveStarted])
    (by simp) fun w hw => by
      have hdefers := h.safe.defers c w hw
      rw [hcall] at hdefers
      exact hdefers
  have hother : ∀ p ∈ s.starts, s.holder ≠ some p.1 := by
    intro p hp heq
    obtain rfl : c = p.1 := Option.some.inj (hholder.symm.trans heq)
    have hstarted := h.started p hp
    rw [hcall] at hstarted
    cases hstarted
  refine ⟨⟨?_, h.safe.stays, hmoved.safe.defers⟩, ?_, ?_, ?_, hmoved.pending, hmoved.orphaned,
    h.begun, hmoved.unbegun⟩
  · refine List.pairwise_append.mpr ⟨hmoved.safe.spaced, List.pairwise_singleton _ _, ?_⟩
    intro p hp q hq
    rw [List.mem_singleton] at hq
    subst hq
    exact ((h.past p hp (hother p hp)).imp_left (isLost_setCall hopen)).symm
  · intro hentry
    rw [(h.unclaimed hentry).2] at hholder
    cases hholder
  · intro p hp
    rcases List.mem_append.mp hp with hp | hp
    · exact hmoved.started p hp
    · rw [List.mem_singleton] at hp
      subst hp
      change mayHaveStarted ((s.setCall c .running).call c)
      rw [setCall_call, if_pos rfl]
      rfl
  · intro p hp hne
    rcases List.mem_append.mp hp with hp | hp
    · exact hmoved.past p hp hne
    · rw [List.mem_singleton] at hp
      subst hp
      exact absurd hholder hne

/-- An outcome recorded while the claim stands. -/
lemma Kept.recorded (h : s.Kept) {at' : ℕ} {outcome : V} (hcall : s.call c = .recording at' outcome)
    (hholder : s.holder = some c) :
    Kept { s.setCall c (.returned outcome) with
      entry := some ⟨at', some outcome⟩, outcomes := s.outcomes ++ [outcome] } := by
  have hopen : (s.call c).isOpen := by rw [hcall]; rfl
  have hnew := h.pending c hholder hopen
  have hmoved := h.setCall (c := c) (v := .returned outcome) hopen (by simp)
    (by simp [mayHaveStarted]) (by simp) fun w hw => by
      have hdefers := h.safe.defers c w hw
      rw [hcall] at hdefers
      exact hdefers.elim
  refine ⟨⟨hmoved.safe.spaced, ?_, hmoved.safe.defers⟩, nofun, hmoved.started, hmoved.past, ?_,
    hmoved.orphaned, ?_, hmoved.unbegun⟩
  · intro w hw
    rcases List.mem_append.mp hw with hw | hw
    · rw [h.safe.stays w hw] at hnew
      cases hnew
    · rw [List.mem_singleton.mp hw]
      rfl
  · intro d hd hdopen
    -- the holder is the call that has just returned
    obtain rfl : c = d := Option.some.inj (hholder.symm.trans hd)
    change ((s.setCall c (.returned outcome)).call c).isOpen at hdopen
    rw [setCall_call, if_pos rfl] at hdopen
    cases hdopen
  · intro d w hd
    rw [h.begun d w hd] at hnew
    cases hnew

/-- What a call makes of the entry it read. -/
lemma Kept.afterRead (h : s.Kept) {now : ℕ} (hcall : s.call c = .reading now) :
    (s.setCall c (afterRead now s.entry)).Kept := by
  have hopen : (s.call c).isOpen := by rw [hcall]; rfl
  have hstarted : ∀ v : OnceCall V, mayHaveStarted (s.call c) → mayHaveStarted v := by
    intro v hv
    rw [hcall] at hv
    cases hv
  cases hentry : s.entry with
  | none =>
    rw [OnceState.afterRead]
    exact h.setCall hopen (by simp) (hstarted _) (by simp) (fun _ _ => trivial)
  | some entry =>
    rw [OnceState.afterRead]
    cases hout : entry.outcome with
    | some outcome =>
      refine h.setCall hopen (by simp) (hstarted _) (by simp) ?_
      intro w hw
      have hread := h.begun c w hw
      rw [OnceState.outcome, hentry, Option.bind_some, hout] at hread
      exact Option.some.inj hread
    | none =>
      -- the ledger held no outcome when this call began
      have hbegun : ∀ w, s.begun c = some w → False := by
        intro w hw
        have hread := h.begun c w hw
        rw [OnceState.outcome, hentry, Option.bind_some, hout] at hread
        cases hread
      simp only
      split
      · refine h.setCall hopen (by simp) (hstarted _) ?_ fun w hw => (hbegun w hw).elim
        rintro _ _ ⟨⟩
        exact hout
      · exact h.setCall hopen (by simp) (hstarted _) (by simp) (fun _ _ => trivial)

end

/-- A step that keeps the claims keeps the invariant. -/
lemma Kept.step {s s' : OnceState ι V} (h : s.Kept) {e : OnceEvent ι V} (hG : s.ClaimsKept e)
    (hstep : s.step e = some s') : s'.Kept := by
  cases e with
  | begin c =>
    simp only [OnceState.step] at hstep
    split at hstep
    next hcall =>
      obtain rfl := Option.some.inj hstep
      exact h.began hcall
    next => cases hstep
  | claim c =>
    simp only [OnceState.step] at hstep
    split at hstep
    next now hcall =>
      split at hstep <;> rename_i hentry <;> obtain rfl := Option.some.inj hstep
      · refine h.won (by rw [hcall]; rfl) (by rw [hcall]; rfl) (by simp [outcome, hentry]) ?_ now
        intro p hp
        rw [(h.unclaimed hentry).1] at hp
        cases hp
      · exact h.setCall (by rw [hcall]; rfl) (by simp) (by simp [hcall, mayHaveStarted]) (by simp)
          (fun _ _ => trivial)
    next => cases hstep
  | read c =>
    simp only [OnceState.step] at hstep
    split at hstep
    next now hcall =>
      obtain rfl := Option.some.inj hstep
      exact h.afterRead hcall
    next => cases hstep
  | swap c =>
    simp only [OnceState.step] at hstep
    split at hstep
    next now raw hcall =>
      split at hstep <;> rename_i hentry <;> obtain rfl := Option.some.inj hstep
      · refine h.won (by rw [hcall]; rfl) (by rw [hcall]; rfl) ?_
          (hG (by simp [takesOver, hcall, hentry])) now
        simp [outcome, hentry, h.orphaned c now raw hcall]
      · exact h.setCall (by rw [hcall]; rfl) (by simp) (by simp [mayHaveStarted]) (by simp)
          (fun _ _ => trivial)
    next => cases hstep
  | start c =>
    simp only [OnceState.step] at hstep
    split at hstep
    next hcall =>
      obtain rfl := Option.some.inj hstep
      exact h.bodyStarted hcall hG
    next => cases hstep
  | finish c outcome =>
    simp only [OnceState.step] at hstep
    split at hstep
    next hcall =>
      obtain rfl := Option.some.inj hstep
      refine h.setCall (by rw [hcall]; rfl) (by simp) (by simp [mayHaveStarted]) (by simp) ?_
      intro w hw
      have hdefers := h.safe.defers c w hw
      rw [hcall] at hdefers
      exact hdefers
    next => cases hstep
  | record c =>
    simp only [OnceState.step] at hstep
    split at hstep
    next at' outcome hcall =>
      obtain rfl := Option.some.inj hstep
      exact h.recorded hcall hG
    next => cases hstep
  | fail c =>
    simp only [OnceState.step] at hstep
    split at hstep
    next hopen =>
      obtain rfl := Option.some.inj hstep
      exact h.setCall hopen (by simp) (by simp [mayHaveStarted]) (by simp) (fun _ _ => trivial)
    next => cases hstep
  | crash c =>
    simp only [OnceState.step] at hstep
    split at hstep
    next hopen =>
      obtain rfl := Option.some.inj hstep
      exact h.setCall hopen (by simp) (by simp [mayHaveStarted]) (by simp) (fun _ _ => trivial)
    next => cases hstep
  | tick d =>
    obtain rfl := Option.some.inj hstep
    refine ⟨⟨h.safe.spaced, h.safe.stays, h.safe.defers⟩, h.unclaimed, h.started, ?_, h.pending,
      h.orphaned, h.begun, h.unbegun⟩
    intro p hp hne
    exact (h.past p hp hne).imp_right fun hle => hle.trans (Nat.le_add_right _ _)

/-- In every run whose steps keep the claims, for any number of calls on the key, bodies that take
any time, errors and crashes, the ledger is safe in every state. -/
theorem onceSafe_of_claimsKept (now : ℕ) (es : List (OnceEvent ι V))
    (hkept : Machine.Meets step ClaimsKept (init now) es) :
    Machine.Always step OnceSafe (init now : OnceState ι V) es := by
  have hinv : Machine.Always step Kept (init now : OnceState ι V) es := by
    apply Machine.always_of_meets _ (kept_init now) hkept
    intro s e s' h hG hstep
    exact h.step hG hstep
  apply hinv.mono
  intro s h
  exact h.safe

/-- A worker dies in its body; an hour later a second one takes the claim over and records its
outcome, which a third call then returns. -/
theorem onceSafe_of_claimsKept_takeover :
    Machine.Always step OnceSafe (init 0 : OnceState ℕ String)
      [.begin 0, .claim 0, .start 0, .crash 0, .tick 3600000000000, .begin 1, .claim 1, .read 1,
        .swap 1, .start 1, .finish 1 "receipt-2", .record 1, .begin 2, .claim 2, .read 2] :=
  onceSafe_of_claimsKept 0 _ (by decide)

/-- The first worker is slow instead of dead, and records its own outcome after the second one. -/
theorem onceSafe_fails_after_late_record :
    ∃ s, Machine.exec step (init 0 : OnceState ℕ String)
        [.begin 0, .claim 0, .start 0, .tick 3600000000000, .begin 1, .claim 1, .read 1, .swap 1,
          .start 1, .finish 1 "receipt-2", .record 1, .finish 0 "receipt-1", .record 0] = some s ∧
      s.outcomes = ["receipt-2", "receipt-1"] ∧ s.outcome = some "receipt-1" ∧ ¬ s.OnceSafe := by
  refine ⟨_, rfl, rfl, rfl, ?_⟩
  intro h
  exact absurd (h.stays "receipt-2" List.mem_cons_self) (by decide)

end Moso.Jobs.OnceState
