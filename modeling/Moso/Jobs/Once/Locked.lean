import Moso.Jobs.Once.Attempts

/-!
# The claim that a failed body leaves

A body that returns an error leaves its claim in the ledger, where it looks like the claim of a
process that is still at work. The next attempt runs its body only when the claim has lapsed.
-/

namespace Moso.Jobs

/-- What a ledger says about the key. -/
inductive OnceView (V : Type*) where
  | absent
  | claimed (claimedAt : ℕ)
  | done (outcome : V)
  deriving DecidableEq, Repr

namespace OnceStore

variable {V : Type*} {self : OnceStore} {ledger : self.Ledger V} {key : String} {now t : ℕ}
  {v : V}

def view : (self : OnceStore) → self.Ledger V → OnceView V
  | .database, (none : Option (OnceRow V)) => .absent
  | .database, (some row : Option (OnceRow V)) =>
    match row.outcome with
    | some outcome => .done outcome
    | none => .claimed row.claimedAt
  | .kv, (none : Option (OnceEntry V)) => .absent
  | .kv, (some entry : Option (OnceEntry V)) =>
    match entry.outcome with
    | some outcome => .done outcome
    | none => .claimed entry.claimedAt

@[simp] lemma view_empty : self.view (self.empty : self.Ledger V) = .absent := by
  cases self <;> rfl

/-- Whether a call at `now` gets the key. -/
def opens (now : ℕ) : OnceView V → OnceStore → Bool
  | .absent, _ => true
  | .claimed t, self => self.lapsed t now
  | .done _, _ => false

variable (key) in
/-- A key that is open is claimed. -/
lemma claim_of_opens (h : opens now (self.view ledger) self = true) :
    ∃ ledger', self.claim key now ledger = (.ok .mine, ledger') ∧
      self.view ledger' = .claimed now := by
  cases self with
  | database =>
    match ledger with
    | (none : Option (OnceRow V)) => exact ⟨_, rfl, rfl⟩
    | (some row : Option (OnceRow V)) =>
      obtain ⟨claimedAt, completedAt, outcome, together⟩ := row
      cases outcome with
      | some outcome => cases h
      | none =>
        cases completedAt with
        | some completedAt => cases together
        | none =>
          have hlapsed : database.lapsed claimedAt now = true := h
          exact ⟨_, by simp only [claim, claimInDatabase, hlapsed]; rfl, rfl⟩
  | kv =>
    match ledger with
    | (none : Option (OnceEntry V)) => exact ⟨_, rfl, rfl⟩
    | (some entry : Option (OnceEntry V)) =>
      obtain ⟨claimedAt, outcome⟩ := entry
      cases outcome with
      | some outcome => cases h
      | none =>
        have hlapsed : kv.lapsed claimedAt now = true := h
        exact ⟨_, by simp only [claim, claimInKv, hlapsed]; rfl, rfl⟩

/-- A claim that stands is not taken over. -/
lemma claim_of_claimed (hview : self.view ledger = .claimed t)
    (h : self.lapsed t now = false) :
    self.claim key now ledger = (.error (alreadyRunning key), ledger) := by
  cases self with
  | database =>
    match ledger with
    | (none : Option (OnceRow V)) => cases hview
    | (some row : Option (OnceRow V)) =>
      obtain ⟨claimedAt, completedAt, outcome, together⟩ := row
      cases outcome with
      | some outcome => cases hview
      | none =>
        obtain rfl := OnceView.claimed.inj hview
        have hlapsed : database.lapsed claimedAt now = false := h
        simp only [claim, claimInDatabase, hlapsed, Bool.false_eq_true, and_false, if_false]
        rfl
  | kv =>
    match ledger with
    | (none : Option (OnceEntry V)) => cases hview
    | (some entry : Option (OnceEntry V)) =>
      obtain ⟨claimedAt, outcome⟩ := entry
      cases outcome with
      | some outcome => cases hview
      | none =>
        obtain rfl := OnceView.claimed.inj hview
        have hlapsed : kv.lapsed claimedAt now = false := h
        simp only [claim, claimInKv, hlapsed, Bool.false_eq_true, if_false]
        rfl

/-- A recorded outcome is handed back. -/
lemma claim_of_done (hview : self.view ledger = .done v) :
    self.claim key now ledger = (.ok (.recorded v), ledger) := by
  cases self with
  | database =>
    match ledger with
    | (none : Option (OnceRow V)) => cases hview
    | (some row : Option (OnceRow V)) =>
      obtain ⟨claimedAt, completedAt, outcome, together⟩ := row
      cases outcome with
      | none => cases hview
      | some outcome =>
        obtain rfl := OnceView.done.inj hview
        cases completedAt with
        | none => cases together
        | some completedAt => rfl
  | kv =>
    match ledger with
    | (none : Option (OnceEntry V)) => cases hview
    | (some entry : Option (OnceEntry V)) =>
      obtain ⟨claimedAt, outcome⟩ := entry
      cases outcome with
      | none => cases hview
      | some outcome =>
        obtain rfl := OnceView.done.inj hview
        rfl

end OnceStore

section Once

variable {V : Type*} {self : OnceStore} {ledger : self.Ledger V} {key : String} {now t : ℕ}
  {attempt : OnceAttempt V} {v : V}

open OnceStore

variable (key) in
/-- A call that gets the key runs its body, which leaves the claim when it fails. -/
lemma once_of_opens (h : opens attempt.now (self.view ledger) self = true) :
    (once self key attempt ledger).1.started = true ∧
      ∀ error, (once self key attempt ledger).1 = .ran (.error error) →
        self.view (once self key attempt ledger).2 = .claimed attempt.now := by
  obtain ⟨ledger', hclaim, hview⟩ := claim_of_opens key h
  rw [once, hclaim]
  cases hbody : attempt.body with
  | returns now outcome => exact ⟨rfl, fun error herror => by cases herror⟩
  | fails error => exact ⟨rfl, fun _ _ => hview⟩
  | dies => exact ⟨rfl, fun error herror => by cases herror⟩

variable (key attempt) in
lemma once_of_claimed (hview : self.view ledger = .claimed t)
    (h : self.lapsed t attempt.now = false) :
    once self key attempt ledger = (.refused (alreadyRunning key), ledger) := by
  rw [once, claim_of_claimed hview h]

lemma once_of_done (hview : self.view ledger = .done v) :
    once self key attempt ledger = (.recorded v, ledger) := by
  rw [once, claim_of_done hview]

end Once

namespace OnceLife

variable {V : Type*} {store : OnceStore} {key : String} {s s' : OnceLife store V}
  {attempt : OnceAttempt V}

/-- After a body that failed, the next attempt comes when the claim has lapsed. -/
def Lapses (s : OnceLife store V) (attempt : OnceAttempt V) : Prop :=
  ∀ t ∈ s.failed, store.lapsed t attempt.now = true

instance (s : OnceLife store V) (attempt : OnceAttempt V) : Decidable (s.Lapses attempt) :=
  inferInstanceAs (Decidable (∀ t ∈ s.failed, _))

/-- No attempt has been kept from running its body, and a body that failed has left its claim. -/
structure Sound (s : OnceLife store V) : Prop where
  unlocked : s.locked = false
  claimed : ∀ t ∈ s.failed, store.view s.ledger = .claimed t

lemma sound_start : (start store V).Sound where
  unlocked := rfl
  claimed t ht := by cases ht

lemma step_eq_some (h : step key s attempt = some s') :
    s'.locked = (s.locked || (s.failed.isSome && !(once store key attempt s.ledger).1.started)) ∧
      s'.ledger = (once store key attempt s.ledger).2 ∧
      ∀ t ∈ s'.failed, t = attempt.now ∧
        ∃ error, (once store key attempt s.ledger).1 = .ran (.error error) := by
  rw [step] at h
  split_ifs at h
  obtain rfl := Option.some.inj h
  refine ⟨rfl, rfl, fun t ht => ?_⟩
  simp only at ht
  split at ht
  next error hran => exact ⟨(Option.some.inj ht).symm, error, hran⟩
  next => cases ht

lemma Sound.step (h : s.Sound) (hlapses : s.Lapses attempt)
    (hstep : OnceLife.step key s attempt = some s') : s'.Sound := by
  obtain ⟨hlocked, hledger, hfailed⟩ := step_eq_some hstep
  rw [h.unlocked, Bool.false_or] at hlocked
  by_cases hopens : OnceStore.opens attempt.now (store.view s.ledger) store = true
  · obtain ⟨hstarted, hleft⟩ := once_of_opens key hopens
    refine ⟨by rw [hlocked, hstarted, Bool.not_true, Bool.and_false], fun t ht => ?_⟩
    obtain ⟨rfl, error, hran⟩ := hfailed t ht
    rw [hledger]
    exact hleft error hran
  · -- the call does not get the key, so no body has failed just before
    have hnone : s.failed = none := by
      by_contra hne
      obtain ⟨t, ht⟩ := Option.ne_none_iff_exists'.mp hne
      rw [h.claimed t ht] at hopens
      exact hopens (hlapses t ht)
    refine ⟨by rw [hlocked, hnone]; rfl, fun t ht => ?_⟩
    obtain ⟨-, error, hran⟩ := hfailed t ht
    cases hview : store.view s.ledger with
    | absent => exact absurd (by rw [hview]; rfl) hopens
    | claimed t' =>
      rw [hview] at hopens
      rw [once_of_claimed _ _ hview (Bool.eq_false_of_not_eq_true hopens)] at hran
      cases hran
    | done v =>
      rw [once_of_done hview] at hran
      cases hran

lemma Sound.locked (h : s.Sound) (hlapses : ¬s.Lapses attempt)
    (hstep : OnceLife.step key s attempt = some s') : ¬s'.locked = false := by
  intro hunlocked
  refine hlapses fun t ht => ?_
  by_contra hlapsed
  have hrefused := once_of_claimed key attempt (h.claimed t ht)
    (Bool.eq_false_of_not_eq_true hlapsed)
  rw [(step_eq_some hstep).1, hrefused, Option.mem_def.mp ht] at hunlocked
  simp [OnceEnd.started] at hunlocked

end OnceLife

/-! ### With a budget -/

section Work

variable {V : Type*} {self : OnceStore} {ledger : self.Ledger V} {key : String} {t : ℕ}
  {retry : RetryPolicy} {draw : ℕ}

/-- While a claim stands, the attempts that are left succeed when one of them comes after it has
lapsed. -/
lemma work_of_claimed (hview : self.view ledger = .claimed t) {n : ℕ}
    {attempts : List (ℕ × ℕ × V)} (hn : n + attempts.length = retry.maxAttempts + 1) :
    work self key retry draw n (attempts.map fun a => (a.1, a.2.1, .ok a.2.2)) ledger = .done ↔
      ∃ a ∈ attempts, self.lapsed t a.1 = true := by
  induction attempts generalizing n with
  | nil => simp [work]
  | cons a attempts ih =>
    rw [List.map_cons, work]
    rw [List.length_cons] at hn
    cases hlapsed : self.lapsed t a.1 with
    | true =>
      have hopens : OnceStore.opens a.1 (self.view ledger) self = true := by
        rw [hview]
        exact hlapsed
      obtain ⟨ledger', hclaim, -⟩ := OnceStore.claim_of_opens key hopens
      simp [once, hclaim, hlapsed]
    | false =>
      simp only [once_of_claimed key ⟨a.1, .returns a.2.1 a.2.2⟩ hview hlapsed,
        List.exists_mem_cons_iff, hlapsed, Bool.false_eq_true, false_or]
      have hbudget : (retry.delayAfter draw n (OnceStore.alreadyRunning key)).isSome = true ↔
          n < retry.maxAttempts := RetryPolicy.isSome_delayAfter rfl
      split_ifs with hleft
      · exact ih (by omega)
      · have hlast : attempts = [] := by
          rw [hbudget] at hleft
          exact List.length_eq_zero_iff.mp (by omega)
        simp [hlast]

/-- A job whose body fails once and would then succeed does succeed when one of the other attempts
that its budget allows comes after the claim has lapsed. -/
lemma work_done_iff {now finished : ℕ} {error : JobError} (herror : error.isBudgeted = true)
    {later : List (ℕ × ℕ × V)} (hlater : later.length + 1 = retry.maxAttempts) :
    work self key retry draw 1
        ((now, finished, .error error) :: later.map fun a => (a.1, a.2.1, .ok a.2.2))
        self.empty = .done ↔
      ∃ a ∈ later, self.lapsed now a.1 = true := by
  have hopens : OnceStore.opens now (self.view (self.empty : self.Ledger V)) self = true := by
    rw [OnceStore.view_empty]
    rfl
  obtain ⟨ledger', hclaim, hview⟩ := OnceStore.claim_of_opens key hopens
  have hbudget : (retry.delayAfter draw 1 error).isSome = true ↔ 1 < retry.maxAttempts :=
    RetryPolicy.isSome_delayAfter herror
  simp only [work, once, hclaim]
  split_ifs with hleft
  · exact work_of_claimed hview (by omega)
  · have hnone : later = [] := by
      rw [hbudget] at hleft
      exact List.length_eq_zero_iff.mp (by omega)
    simp [hnone]

end Work

namespace OnceLife

variable {V : Type*}

/-- Over either store: whatever the attempts are and whenever they come, an attempt that follows a
failed body runs its own exactly when the claim has lapsed by then; and a body that fails once and
would then succeed gets to succeed exactly when the budget allows an attempt after that. -/
theorem unlocked_iff_lapses (store : OnceStore) (key : String) :
    (∀ attempts : List (OnceAttempt V),
      Machine.Always (step key) (fun s => s.locked = false) (start store V) attempts ↔
        Machine.Meets (step key) Lapses (start store V) attempts) ∧
      ∀ (retry : RetryPolicy) (draw now finished : ℕ) (error : JobError)
        (later : List (ℕ × ℕ × V)), error.isBudgeted = true →
        later.length + 1 = retry.maxAttempts →
        (work store key retry draw 1
            ((now, finished, .error error) :: later.map fun a => (a.1, a.2.1, .ok a.2.2))
            store.empty = .done ↔
          ∃ a ∈ later, store.lapsed now a.1 = true) :=
  ⟨fun attempts => Machine.always_iff_meets (fun _ _ _ h hG hstep => h.step hG hstep)
      (fun _ h => h.unlocked) (fun _ _ _ h hG hstep => h.locked hG hstep) sound_start attempts,
    fun _ _ _ _ _ _ herror hlater => work_done_iff herror hlater⟩

/-- Over the table, a second attempt a second after the hour succeeds. -/
theorem unlocked_iff_lapses_late :
    Machine.Always (step "charge") (fun s => s.locked = false) (start .database String)
        [⟨0, .fails (.retry "declined")⟩, ⟨3601000000000, .returns 3602000000000 "receipt"⟩] ∧
      work .database "charge" ⟨2, .immediate⟩ 0 1
        [(0, 1, .error (.retry "declined")), (3601000000000, 3602000000000, .ok "receipt")]
        (OnceStore.empty .database) = .done := by
  obtain ⟨hattempts, hwork⟩ := unlocked_iff_lapses (V := String) .database "charge"
  refine ⟨(hattempts _).mpr (by decide), ?_⟩
  exact (hwork ⟨2, .immediate⟩ 0 0 1 (.retry "declined") [(3601000000000, 3602000000000, "receipt")]
    rfl rfl).mpr ⟨_, List.mem_cons_self, by decide⟩

/-- A second attempt a minute later finds the claim of the first one, and the job is dead with a
budget of two. -/
theorem unlocked_fails_within_the_hour :
    ¬Machine.Always (step "charge") (fun s => s.locked = false) (start .kv String)
        [⟨0, .fails (.retry "declined")⟩, ⟨60000000000, .returns 61000000000 "receipt"⟩] ∧
      work .kv "charge" ⟨2, .immediate⟩ 0 1
        [(0, 1, .error (.retry "declined")), (60000000000, 61000000000, .ok "receipt")]
        (OnceStore.empty .kv) = .dead := by
  refine ⟨fun h => ?_, by decide⟩
  have hlocked := h.of_exec rfl
  cases hlocked

end OnceLife

end Moso.Jobs
