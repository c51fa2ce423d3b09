import Moso.Jobs.Memory.Calls

/-!
# Serial jobs in the in-memory queue

A pull leases at most one row of a serial name, and none while another row of that name is under
a lease that has not run out. A heartbeat asks only for the token, which outlives the lease until
a reclaim comes by: it can bring a lease back to life beside the one that took its place.
-/

namespace Moso.Jobs

/-- The queue, and the instant of the latest call. -/
structure MemoryClock where
  queue : MemoryQueue
  now : ℤ

namespace MemoryQueue

/-- Running, under a lease that has not run out. -/
def Leased (now : ℤ) (held : Held) : Prop :=
  held.job.state = .running ∧ held.job.lockedUntil.any fun until' => now < until'

instance (now : ℤ) (held : Held) : Decidable (Leased now held) :=
  inferInstanceAs (Decidable (_ ∧ _))

variable {q : MemoryQueue} {now : ℤ}

/-- A lease that has not run out had not run out before. -/
lemma Leased.earlier {now' : ℤ} {held : Held} (h : Leased now' held) (hle : now ≤ now') :
    Leased now held := by
  refine ⟨h.1, ?_⟩
  have hlate := h.2
  cases hlocked : held.job.lockedUntil with
  | none =>
    rw [hlocked] at hlate
    cases hlate
  | some until' =>
    rw [hlocked] at hlate
    rw [Option.any_some, decide_eq_true_eq] at hlate ⊢
    exact hle.trans_lt hlate

/-! ### What a pull leases of a serial name -/

lemma not_mem_busy_of_retained {serial busy : List String} {jobs : List QueuedJob}
    {job : QueuedJob} (h : job ∈ retainSerial serial busy jobs) (hserial : job.name ∈ serial) :
    job.name ∉ busy := by
  induction jobs generalizing busy with
  | nil => cases h
  | cons first rest ih =>
    rw [retainSerial] at h
    split at h
    next hnot =>
      rcases List.mem_cons.mp h with rfl | h
      · exact absurd hserial hnot
      · exact ih h
    next =>
      split at h
      next => exact ih h
      next hfree =>
        rcases List.mem_cons.mp h with rfl | h
        · exact hfree
        · intro hbusy
          exact ih h (List.mem_cons_of_mem _ hbusy)

/-- Of a serial name, one row at most is retained. -/
lemma retained_unique {serial busy : List String} {jobs : List QueuedJob} {a b : QueuedJob}
    (ha : a ∈ retainSerial serial busy jobs) (hb : b ∈ retainSerial serial busy jobs)
    (hserial : a.name ∈ serial) (hname : a.name = b.name) : a = b := by
  induction jobs generalizing busy with
  | nil => cases ha
  | cons first rest ih =>
    rw [retainSerial] at ha hb
    split at ha
    next hnot =>
      rw [if_pos hnot] at hb
      rcases List.mem_cons.mp ha with rfl | ha
      · exact absurd hserial hnot
      · rcases List.mem_cons.mp hb with rfl | hb
        · exact absurd (hname ▸ hserial) hnot
        · exact ih ha hb
    next hnot =>
      rw [if_neg hnot] at hb
      split at ha
      next hbusy =>
        rw [if_pos hbusy] at hb
        exact ih ha hb
      next hbusy =>
        rw [if_neg hbusy] at hb
        -- the first row of the name takes its place, and the others find it busy
        rcases List.mem_cons.mp ha with rfl | ha <;> rcases List.mem_cons.mp hb with rfl | hb
        · rfl
        · exact absurd (hname ▸ List.mem_cons_self)
            (not_mem_busy_of_retained hb (hname ▸ hserial))
        · exact absurd (hname ▸ List.mem_cons_self) (not_mem_busy_of_retained ha hserial)
        · exact ih ha hb

lemma mem_busySerial {held : Held} (hheld : held ∈ q.jobs) (hleased : Leased now held)
    (hserial : held.job.name ∈ q.serial) : held.job.name ∈ q.busySerial now := by
  refine List.mem_map_of_mem (f := fun held : Held => held.job.name) ?_
  exact List.mem_filter.mpr ⟨hheld, decide_eq_true ⟨hleased.1, hleased.2, hserial⟩⟩

/-! ### Where a lease comes from -/

/-- A lease that has not run out after a call was there before, or it was made by a pull, or
extended by a heartbeat. -/
lemma Sound.leased_cases (hq : q.Sound) {c : QueueCall} (hadm : q.Admits c) {held : Held}
    (hheld : held ∈ (q.call now c).jobs) (hleased : Leased now held) :
    ∃ old ∈ q.jobs, old.job.id = held.job.id ∧ old.job.name = held.job.name ∧
      (Leased now old ∨
        (∃ queues limit lease worker, c = .pull queues limit lease worker ∧
          old.job ∈ q.leasable queues now) ∨
        ∃ lease extend, c = .heartbeat lease extend ∧ old.job.id = lease.jobId ∧
          old.token = some lease.token ∧ 0 < fromStd extend) := by
  have hchange := row_call hq.keyed now hadm held.job.id
  rw [(hq.keyed.call now hadm).row_eq hheld] at hchange
  generalize hbefore : q.row held.job.id = before at hchange
  generalize hdeed : q.deed now held.job.id c = deed at hchange
  cases hchange with
  | kept => exact ⟨held, mem_of_row hbefore, rfl, rfl, .inl hleased⟩
  | pushed hnew =>
    have hrun : JobState.ready = .running := hnew.1.symm.trans hleased.1
    cases hrun
  | leased old token hwait =>
    rw [deed, Option.map_eq_some_iff] at hdeed
    obtain ⟨got, hfind, -⟩ := hdeed
    obtain ⟨other, hother, hid, hleasable⟩ := row_of_leased hfind
    have hsame : other = old := by
      rw [← hid, hq.keyed.row_eq hother] at hbefore
      exact Option.some.inj hbefore
    subst hsame
    exact ⟨other, hother, rfl, rfl, .inr (.inl ⟨_, _, _, _, rfl, hleasable⟩)⟩
  | extended old hid htoken =>
    refine ⟨old, mem_of_row hbefore, rfl, rfl, .inr (.inr ⟨_, _, rfl, hid, htoken, ?_⟩)⟩
    have hlater := hleased.2
    simp only [extended, Option.any_some, decide_eq_true_eq] at hlater
    omega
  | acked | retried | buried | reclaimed | cancelled | revived => cases hleased.1

end MemoryQueue

namespace MemoryClock

open MemoryQueue

def init (now : ℤ) (maxJobs : ℕ) (serial : List String) : MemoryClock :=
  { queue := MemoryQueue.init maxJobs serial, now := now }

/-- One call, no earlier than the one before. -/
def step (s : MemoryClock) (e : ℤ × QueueCall) : Option MemoryClock :=
  if s.now ≤ e.1 then (s.queue.step e).map fun queue => { queue := queue, now := e.1 } else none

/-- No two rows of a serial name are under leases that have not run out. -/
def SerialExclusive (s : MemoryClock) : Prop :=
  ∀ a ∈ s.queue.jobs, ∀ b ∈ s.queue.jobs, a.job.name ∈ s.queue.serial →
    a.job.name = b.job.name → Leased s.now a → Leased s.now b → a.job.id = b.job.id

/-- When the call is a heartbeat that extends the lease of a serial job, no other row of that name
is under a lease that has not run out. -/
def ExtendsAlone (s : MemoryClock) (e : ℤ × QueueCall) : Prop :=
  match e.2 with
  | .heartbeat lease extend =>
    0 < fromStd extend → ∀ a ∈ s.queue.jobs, a.job.id = lease.jobId →
      a.token = some lease.token → a.job.name ∈ s.queue.serial →
      ∀ b ∈ s.queue.jobs, a.job.name = b.job.name → Leased e.1 b → a.job.id = b.job.id
  | _ => True

variable {s s' : MemoryClock} {e : ℤ × QueueCall}

lemma step_eq (h : s.step e = some s') :
    s.now ≤ e.1 ∧ s.queue.step e = some s'.queue ∧ s'.now = e.1 := by
  rw [step] at h
  split at h
  next hle =>
    obtain ⟨queue, hqueue, rfl⟩ := Option.map_eq_some_iff.mp h
    exact ⟨hle, hqueue, rfl⟩
  next => cases h

/-- A call that extends no lease beside another keeps the serial jobs apart. -/
lemma SerialExclusive.step (hq : s.queue.Sound) (hs : s.SerialExclusive) (hG : s.ExtendsAlone e)
    (h : s.step e = some s') : s'.SerialExclusive := by
  obtain ⟨hle, hqueue, hnow⟩ := step_eq h
  obtain ⟨hadm, hcall⟩ := MemoryQueue.step_eq hqueue
  obtain ⟨now, c⟩ := e
  intro a ha b hb hserial hname hleased hleased'
  rw [hcall] at ha hb hserial
  rw [call_serial] at hserial
  rw [hnow] at hleased hleased'
  obtain ⟨a₀, ha₀, hid, hn, hcase⟩ := hq.leased_cases hadm ha hleased
  obtain ⟨b₀, hb₀, hid', hn', hcase'⟩ := hq.leased_cases hadm hb hleased'
  have hserial₀ : a₀.job.name ∈ s.queue.serial := hn ▸ hserial
  have hname₀ : a₀.job.name = b₀.job.name := by rw [hn, hn', hname]
  rw [← hid, ← hid']
  rcases hcase with hold | ⟨queues, limit, lease, worker, rfl, hmem⟩ |
    ⟨lease, extend, rfl, hlease, htoken, hpos⟩
  · rcases hcase' with hold' | ⟨queues, limit, lease, worker, rfl, hmem⟩ |
      ⟨lease, extend, rfl, hlease, htoken, hpos⟩
    · exact hs a₀ ha₀ b₀ hb₀ hserial₀ hname₀ (Leased.earlier hold hle) (Leased.earlier hold' hle)
    · -- the pull found the name busy
      have hbusy := mem_busySerial ha₀ hold hserial₀
      exact absurd (hname₀ ▸ hbusy) (not_mem_busy_of_retained hmem (hname₀ ▸ hserial₀))
    · exact (hG hpos b₀ hb₀ hlease htoken (hname₀ ▸ hserial₀) a₀ ha₀ hname₀.symm hold).symm
  · rcases hcase' with hold' | ⟨_, _, _, _, hc, hmem'⟩ | ⟨_, _, hc, -⟩
    · have hbusy := mem_busySerial hb₀ hold' (hname₀ ▸ hserial₀)
      exact absurd (hname₀ ▸ hbusy) (not_mem_busy_of_retained hmem hserial₀)
    · obtain ⟨rfl, -⟩ := QueueCall.pull.inj hc
      rw [retained_unique hmem hmem' hserial₀ hname₀]
    · cases hc
  · rcases hcase' with hold' | ⟨_, _, _, _, hc, -⟩ | ⟨lease', _, hc, hlease', -⟩
    · exact hG hpos a₀ ha₀ hlease htoken hserial₀ b₀ hb₀ hname₀ hold'
    · cases hc
    · obtain ⟨rfl, -⟩ := QueueCall.heartbeat.inj hc
      exact hlease.trans hlease'.symm

/-- A heartbeat that extends a lease beside another one leaves two. -/
lemma not_serialExclusive_of_not_extendsAlone (hq : s.queue.Sound) (hG : ¬ s.ExtendsAlone e)
    (h : s.step e = some s') : ¬ s'.SerialExclusive := by
  obtain ⟨-, hqueue, hnow⟩ := step_eq h
  obtain ⟨-, hcall⟩ := MemoryQueue.step_eq hqueue
  obtain ⟨now, c⟩ := e
  cases c with
  | heartbeat lease extend =>
    intro hs
    apply hG
    intro hpos a ha hid htoken hserial b hb hname hleased
    by_contra hne
    have haccepts : s.queue.accepts lease :=
      accepts_iff.2 ⟨a, hid ▸ hq.keyed.row_eq ha, htoken⟩
    have hrow : ∀ id, s'.queue.row id = if lease.jobId = id then
        (s.queue.row id).map (extended (now + fromStd extend)) else s.queue.row id := by
      intro id
      rw [hcall, call_heartbeat, if_pos haccepts, row_modify (f := extended _) fun _ => rfl]
    have ha' : s'.queue.row a.job.id = some (extended (now + fromStd extend) a) := by
      rw [hrow, if_pos hid.symm, hq.keyed.row_eq ha]
      rfl
    have hb' : s'.queue.row b.job.id = some b := by
      rw [hrow, if_neg (by rw [← hid]; exact hne), hq.keyed.row_eq hb]
    have hserial' : a.job.name ∈ s'.queue.serial := by
      rw [hcall, call_serial]
      exact hserial
    refine hne (hs _ (mem_of_row ha') b (mem_of_row hb') hserial' hname ?_ (hnow ▸ hleased))
    refine ⟨(hq.tidy a ha).running_of_token htoken, ?_⟩
    have hlater : now < now + fromStd extend := by omega
    simpa [extended, hnow] using hlater
  | push | pull | ack | nack | reclaim | cancel | retry | discard => exact absurd trivial hG

/-- Over every run of calls at instants that do not go back, and for every registry of serial
names, no two rows of a serial name are under leases that have not run out exactly when no
heartbeat extends the lease of a serial job while another row of its name is under one. -/
theorem serialExclusive_iff_extendsAlone (now : ℤ) (maxJobs : ℕ) (serial : List String)
    (es : List (ℤ × QueueCall)) :
    Machine.Always step SerialExclusive (init now maxJobs serial) es ↔
      Machine.Meets step ExtendsAlone (init now maxJobs serial) es := by
  apply Machine.always_iff_meets (I := fun s : MemoryClock => s.queue.Sound ∧ s.SerialExclusive)
  · rintro s e s' ⟨hq, hs⟩ hG h
    obtain ⟨-, hqueue, -⟩ := step_eq h
    exact ⟨hq.step hqueue, hs.step hq hG h⟩
  · intro s h
    exact h.2
  · rintro s e s' ⟨hq, -⟩ hG h
    exact not_serialExclusive_of_not_extendsAlone hq hG h
  · refine ⟨sound_init maxJobs serial, ?_⟩
    intro a ha
    exact absurd ha List.not_mem_nil

/-- An export, of which two must not run at once. -/
def nightlyExport : QueuedJob :=
  { id := 1, name := "export", queue := "default", payload := "1", state := .ready,
    priority := .normal, attempt := 1, runAt := 0, enqueuedAt := 0, uniqueKey := none,
    lastError := none, lockedBy := none, lockedUntil := none }

/-- One export's lease runs out, a second one is leased before any reclaim, and then the first
worker's heartbeat succeeds. -/
theorem serialExclusive_fails_after_late_heartbeat :
    ∃ s, Machine.exec step (init 0 100000 ["export"])
        [(0, .push nightlyExport), (0, .push { nightlyExport with id := 2 }),
          (0, .pull ["default"] 1 1000000000 "worker-1"),
          (2000000000, .pull ["default"] 1 60000000000 "worker-2"),
          (3000000000, .heartbeat ⟨1, 0, 1000000000⟩ 30000000000)] = some s ∧
      s.now = 3000000000 ∧
      (s.queue.jobs.map fun held => (held.job.state, held.job.lockedUntil)) =
        [(.running, some 33000000000), (.running, some 62000000000)] ∧
      ¬ s.SerialExclusive := by
  refine ⟨_, rfl, rfl, rfl, ?_⟩
  intro h
  have hsame := h _ List.mem_cons_self _ (List.mem_cons_of_mem _ List.mem_cons_self) (by decide)
    rfl (by decide) (by decide)
  cases hsame

end MemoryClock

end Moso.Jobs
