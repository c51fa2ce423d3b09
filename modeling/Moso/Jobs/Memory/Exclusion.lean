import Moso.Jobs.Memory.Calls

/-!
# Unique keys in the in-memory queue

A push is refused while an active row has its unique key, and every other call but one only moves
rows that are active already. The exception is the retry of dead letters, which does not look at
the keys: the rows of a chain stay exclusive exactly as long as no retry revives a letter whose
key another row has by then.
-/

namespace Moso.Jobs.MemoryQueue

/-- At most one active row has a given unique key, and in particular at most one running row. -/
structure UniqueKeys (q : MemoryQueue) : Prop where
  active : ∀ a ∈ q.jobs, ∀ b ∈ q.jobs, a.job.uniqueKey.isSome →
    a.job.uniqueKey = b.job.uniqueKey → a.job.state.isActive → b.job.state.isActive →
    a.job.id = b.job.id
  running : ∀ a ∈ q.jobs, ∀ b ∈ q.jobs, a.job.uniqueKey.isSome →
    a.job.uniqueKey = b.job.uniqueKey → a.job.state = .running → b.job.state = .running →
    a.job.id = b.job.id

/-- When the call is a retry of dead letters, no row has the unique key of a letter it revives
unless that row is the letter itself, or neither active nor revived. -/
def RevivesFree (q : MemoryQueue) (e : ℤ × QueueCall) : Prop :=
  match e.2 with
  | .retry filter limit =>
    ∀ a ∈ q.jobs, a.job.id ∈ q.letters filter limit → a.job.uniqueKey.isSome →
      ∀ b ∈ q.jobs, a.job.uniqueKey = b.job.uniqueKey →
        b.job.state.isActive ∨ b.job.id ∈ q.letters filter limit → a.job.id = b.job.id
  | _ => True

variable {q q' : MemoryQueue} {e : ℤ × QueueCall} {now : ℤ} {c : QueueCall}

/-- Running rows are active, so the second half follows from the first. -/
lemma UniqueKeys.of_active (h : ∀ a ∈ q.jobs, ∀ b ∈ q.jobs, a.job.uniqueKey.isSome →
    a.job.uniqueKey = b.job.uniqueKey → a.job.state.isActive → b.job.state.isActive →
    a.job.id = b.job.id) : q.UniqueKeys := by
  refine ⟨h, ?_⟩
  intro a ha b hb hkey hsame hrun hrun'
  exact h a ha b hb hkey hsame (by rw [hrun]; rfl) (by rw [hrun']; rfl)

/-! ### Where an active row comes from -/

/-- An active row was active before, or it was pushed, or revived. -/
lemma Changes.active_cases {deed : Option Deed} {before : Option Held} {held : Held}
    (h : Changes now c deed before (some held)) (htidy : ∀ old, before = some old → Tidy old)
    (hactive : held.job.state.isActive) :
    (∃ old, before = some old ∧ old.job.uniqueKey = held.job.uniqueKey ∧
      old.job.state.isActive) ∨
    (∃ job, c = .push job ∧ held = Held.new job ∧ deed = some .pushed) ∨
    (∃ old filter limit, c = .retry filter limit ∧ before = some old ∧
      old.job.uniqueKey = held.job.uniqueKey ∧ deed = some .revived) := by
  cases h with
  | kept => exact .inl ⟨held, rfl, rfl, hactive⟩
  | pushed hnew => exact .inr (.inl ⟨_, rfl, rfl, rfl⟩)
  | leased old token hwait =>
    refine .inl ⟨old, rfl, rfl, ?_⟩
    cases hs : old.job.state <;> rw [hs] at hwait <;> first | rfl | cases hwait
  | acked | buried | cancelled => cases hactive
  | retried old at' hid htoken =>
    have hrun := (htidy old rfl).running_of_token htoken
    exact .inl ⟨old, rfl, rfl, by rw [hrun]; rfl⟩
  | extended old => exact .inl ⟨old, rfl, rfl, hactive⟩
  | reclaimed old hexpired =>
    rw [isExpired, decide_eq_true_eq] at hexpired
    exact .inl ⟨old, rfl, rfl, by rw [hexpired.1]; rfl⟩
  | revived old hdead => exact .inr (.inr ⟨old, _, _, rfl, rfl, rfl, rfl⟩)

/-- An active row after a step, as a row that was active before, as the pushed one, or as one of
the revived letters. -/
lemma Sound.active_cases (hq : q.Sound) (hadm : q.Admits c) {held : Held}
    (hheld : held ∈ (q.call now c).jobs) (hactive : held.job.state.isActive) :
    (∃ old ∈ q.jobs, old.job.id = held.job.id ∧ old.job.uniqueKey = held.job.uniqueKey ∧
      old.job.state.isActive) ∨
    (∃ job, c = .push job ∧ held = Held.new job ∧ (q.call now c).row job.id ≠ q.row job.id) ∨
    (∃ old ∈ q.jobs, old.job.id = held.job.id ∧ old.job.uniqueKey = held.job.uniqueKey ∧
      ∃ filter limit, c = .retry filter limit ∧ held.job.id ∈ q.letters filter limit) := by
  have hchange := row_call hq.keyed now hadm held.job.id
  have hrow := (hq.keyed.call now hadm).row_eq hheld
  rw [hrow] at hchange
  rcases hchange.active_cases (fun old hold => hq.tidy old (mem_of_row hold)) hactive with
    ⟨old, hold, hkey, hact⟩ | ⟨job, rfl, rfl, hdeed⟩ | ⟨old, filter, limit, rfl, hold, hkey, hdeed⟩
  · exact .inl ⟨old, mem_of_row hold, row_id hold, hkey, hact⟩
  · refine .inr (.inl ⟨job, rfl, rfl, ?_⟩)
    have hnone : q.row job.id = none := row_eq_none.2 hadm.2
    rw [show (Held.new job).job.id = job.id from rfl] at hrow
    rw [hrow, hnone]
    exact Option.some_ne_none _
  · refine .inr (.inr ⟨old, mem_of_row hold, row_id hold, hkey, filter, limit, rfl, ?_⟩)
    rw [deed] at hdeed
    split at hdeed
    next hmem => exact hmem
    next => cases hdeed

/-- A push that adds its row found no active row with its key. -/
lemma free_of_pushed {job : QueuedJob} (h : (q.call now (.push job)).row job.id ≠ q.row job.id)
    {held : Held} (hheld : held ∈ q.jobs) (hactive : held.job.state.isActive)
    (hkey : job.uniqueKey.isSome) : held.job.uniqueKey ≠ job.uniqueKey := by
  rcases call_push q now job with hsame | ⟨-, hfree⟩
  · rw [hsame] at h
    exact absurd rfl h
  · obtain ⟨key, hk⟩ := Option.isSome_iff_exists.mp hkey
    rw [hk]
    exact hfree key hk held hheld hactive

/-! ### The exact condition -/

/-- A call that revives only letters whose keys are free keeps the keys unique. -/
lemma UniqueKeys.step (hq : q.Sound) (hkeys : q.UniqueKeys) (hG : q.RevivesFree e)
    (h : q.step e = some q') : q'.UniqueKeys := by
  obtain ⟨hadm, rfl⟩ := step_eq h
  obtain ⟨now, c⟩ := e
  apply UniqueKeys.of_active
  intro a ha b hb hkey hsame hactive hactive'
  rcases hq.active_cases hadm ha hactive with ⟨a₀, ha₀, hid, hk, hact⟩ |
    ⟨job, rfl, rfl, hnew⟩ | ⟨a₀, ha₀, hid, hk, filter, limit, rfl, hmem⟩
  · rcases hq.active_cases hadm hb hactive' with ⟨b₀, hb₀, hid', hk', hact'⟩ |
      ⟨job, rfl, rfl, hnew⟩ | ⟨b₀, hb₀, hid', hk', filter, limit, rfl, hmem⟩
    · rw [← hid, ← hid']
      exact hkeys.active a₀ ha₀ b₀ hb₀ (hk ▸ hkey) (by rw [hk, hk', hsame]) hact hact'
    · exact absurd (hk.trans hsame) (free_of_pushed hnew ha₀ hact (hsame ▸ hkey))
    · rw [← hid, ← hid']
      refine (hG b₀ hb₀ (hid' ▸ hmem) (by rw [hk', ← hsame]; exact hkey) a₀ ha₀ ?_
        (.inl hact)).symm
      rw [hk, hk', hsame]
  · rcases hq.active_cases hadm hb hactive' with ⟨b₀, hb₀, hid', hk', hact'⟩ |
      ⟨job', hjob, rfl, -⟩ | ⟨b₀, hb₀, hid', hk', filter, limit, hc, hmem⟩
    · exact absurd (hk'.trans hsame.symm) (free_of_pushed hnew hb₀ hact' hkey)
    · obtain rfl : job = job' := by injection hjob
      rfl
    · cases hc
  · rcases hq.active_cases hadm hb hactive' with ⟨b₀, hb₀, hid', hk', hact'⟩ |
      ⟨job', hjob, rfl, -⟩ | ⟨b₀, hb₀, hid', hk', filter', limit', hc, hmem'⟩
    · rw [← hid, ← hid']
      exact hG a₀ ha₀ (hid ▸ hmem) (hk ▸ hkey) b₀ hb₀ (by rw [hk, hk', hsame]) (.inl hact')
    · cases hjob
    · obtain ⟨rfl, rfl⟩ : filter = filter' ∧ limit = limit' := by
        injection hc with hf hl
        exact ⟨hf, hl⟩
      rw [← hid, ← hid']
      exact hG a₀ ha₀ (hid ▸ hmem) (hk ▸ hkey) b₀ hb₀ (by rw [hk, hk', hsame])
        (.inr (hid' ▸ hmem'))

/-- A retry that revives a letter whose key is not free leaves two active rows with it. -/
lemma not_uniqueKeys_of_not_revivesFree (hq : q.Sound) (hG : ¬ q.RevivesFree e)
    (h : q.step e = some q') : ¬ q'.UniqueKeys := by
  obtain ⟨hadm, rfl⟩ := step_eq h
  obtain ⟨now, c⟩ := e
  cases c with
  | retry filter limit =>
    intro hkeys
    apply hG
    intro a ha hmem hkey b hb hsame hb'
    have ha' : (q.call now (.retry filter limit)).row a.job.id = some (revived now a) := by
      rw [row_retry hq.keyed, if_pos hmem, hq.keyed.row_eq ha]
      rfl
    by_cases hbmem : b.job.id ∈ q.letters filter limit
    · have hrow : (q.call now (.retry filter limit)).row b.job.id = some (revived now b) := by
        rw [row_retry hq.keyed, if_pos hbmem, hq.keyed.row_eq hb]
        rfl
      exact hkeys.active (revived now a) (mem_of_row ha') (revived now b) (mem_of_row hrow) hkey
        hsame rfl rfl
    · have hrow : (q.call now (.retry filter limit)).row b.job.id = some b := by
        rw [row_retry hq.keyed, if_neg hbmem, hq.keyed.row_eq hb]
      exact hkeys.active _ (mem_of_row ha') _ (mem_of_row hrow) hkey hsame rfl
        (hb'.resolve_right hbmem)
  | push | pull | ack | nack | heartbeat | reclaim | cancel | discard => exact absurd trivial hG

/-- Over every run of calls at any instants, the active rows have distinct unique keys exactly
when no retry of dead letters revives one whose key is held by an active row or by another letter
that it revives. -/
theorem uniqueKeys_iff_revivesFree (maxJobs : ℕ) (serial : List String)
    (es : List (ℤ × QueueCall)) :
    Machine.Always step UniqueKeys (init maxJobs serial) es ↔
      Machine.Meets step RevivesFree (init maxJobs serial) es := by
  apply Machine.always_iff_meets (I := fun q : MemoryQueue => q.Sound ∧ q.UniqueKeys)
  · rintro q e q' ⟨hq, hkeys⟩ hG h
    exact ⟨hq.step h, hkeys.step hq hG h⟩
  · intro q h
    exact h.2
  · rintro q e q' ⟨hq, -⟩ hG h
    exact not_uniqueKeys_of_not_revivesFree hq hG h
  · refine ⟨sound_init maxJobs serial, UniqueKeys.of_active ?_⟩
    intro a ha
    exact absurd ha List.not_mem_nil

/-! ### Two rows of one chain -/

/-- A reminder to one user. -/
def reminder : QueuedJob :=
  { id := 1, name := "send_reminder", queue := "mail", payload := "7", state := .ready,
    priority := .normal, attempt := 1, runAt := 0, enqueuedAt := 0, uniqueKey := some "user-7",
    lastError := none, lockedBy := none, lockedUntil := none }

/-- A reminder is buried, a second one of the same key is pushed, the first is retried, and one
pull leases both. -/
theorem uniqueKeys_fails_after_retry :
    ∃ q, Machine.exec step (init 100000 [])
        [(0, .push reminder), (0, .pull ["mail"] 1 1000000000 "worker-1"),
          (1, .nack ⟨1, 0, 1000000000⟩ "connection refused" none),
          (2, .push { reminder with id := 2 }), (3, .retry .new 10),
          (3, .pull ["mail"] 2 1000000000 "worker-1")] = some q ∧
      (q.jobs.map fun held => (held.job.id, held.job.state)) = [(1, .running), (2, .running)] ∧
      ¬ q.UniqueKeys := by
  refine ⟨_, rfl, rfl, ?_⟩
  intro h
  have hsame := h.running _ List.mem_cons_self _ (List.mem_cons_of_mem _ List.mem_cons_self) rfl
    rfl rfl rfl
  cases hsame

end Moso.Jobs.MemoryQueue
