import Moso.Jobs.Memory.Calls

/-!
# The lease protocol of the in-memory queue

A desk is the queue beside the life of every job: what has been done to it, newest first. The
token and the attempt that a row holds are functions of that life, whatever calls are made in
whatever order, and a call under a lease succeeds exactly when the lease carries that token.
-/

namespace Moso.Jobs

/-- The token of the latest pull that leased the job, unless it has been acked, nacked, reclaimed
or cancelled since. -/
def liveToken : List Deed → Option Token
  | []                 => none
  | .leased token :: _ => some token
  | .revived :: life   => liveToken life
  | .pushed :: _ | .acked :: _ | .retried :: _ | .buried :: _ | .reclaimed :: _
  | .cancelled :: _    => none

/-- One, and one more for every nack with an instant since the job was pushed or revived. -/
def attempts : List Deed → ℕ
  | []                          => 1
  | .retried :: life            => attempts life + 1
  | .pushed :: _ | .revived :: _ => 1
  | .leased _ :: life | .acked :: life | .buried :: life | .reclaimed :: life
  | .cancelled :: life          => attempts life

/-- The queue, and the life of each job. -/
structure Desk where
  queue : MemoryQueue
  life : JobId → List Deed

/-- A later pull can lease the job: it waits, or the lease it is under can run out. -/
def QueuedJob.Deliverable (job : QueuedJob) : Prop :=
  job.state.isWaiting ∨ job.state = .running ∧ job.lockedUntil.isSome

namespace Desk

open MemoryQueue

def init (maxJobs : ℕ) (serial : List String) : Desk :=
  { queue := MemoryQueue.init maxJobs serial, life := fun _ => [] }

/-- One call, at any instant. -/
def step (d : Desk) (e : ℤ × QueueCall) : Option Desk :=
  (d.queue.step e).map fun queue =>
    { queue := queue, life := fun id => (d.queue.deed e.1 id e.2).toList ++ d.life id }

/-- The job is held under the token. -/
def Live (d : Desk) (id : JobId) (token : Token) : Prop :=
  ∃ held ∈ d.queue.jobs, held.job.id = id ∧ held.token = some token

/-- What a call can do to an active job: it is acked or cancelled, or its row stays with its
payload, deliverable unless it was nacked without an instant, which leaves it dead. -/
def Keeps (held : Held) (c : QueueCall) (d' : Desk) : Prop :=
  (∃ lease, c = .ack lease ∧ lease.jobId = held.job.id) ∨ c = .cancel held.job.id ∨
    ∃ held' ∈ d'.queue.jobs, held'.job.id = held.job.id ∧
      held'.job.payload = held.job.payload ∧
      (held'.job.Deliverable ∨ held'.job.state = .dead ∧
        ∃ lease error, c = .nack lease error none ∧ lease.jobId = held.job.id)

/-- The law of tokens, leases, delivery and attempts. -/
structure LeaseProtocol (d : Desk) : Prop where
  live_unique : ∀ id token token', d.Live id token → d.Live id token' → token = token'
  live_iff : ∀ id token, d.Live id token ↔ liveToken (d.life id) = some token
  ack_iff : ∀ lease, (d.queue.row lease.jobId).isSome →
    ((d.queue.ack lease).isOk ↔ d.Live lease.jobId lease.token)
  nack_iff : ∀ now lease error runAt, (d.queue.row lease.jobId).isSome →
    ((d.queue.nack now lease error runAt).isOk ↔ d.Live lease.jobId lease.token)
  heartbeat_iff : ∀ now lease extend, (d.queue.row lease.jobId).isSome →
    ((d.queue.heartbeat now lease extend).isOk ↔ d.Live lease.jobId lease.token)
  refused : ∀ lease, ¬ d.Live lease.jobId lease.token → ∀ now error runAt extend,
    d.queue.call now (.ack lease) = d.queue ∧
      d.queue.call now (.nack lease error runAt) = d.queue ∧
      d.queue.call now (.heartbeat lease extend) = d.queue
  kept : ∀ e d', d.step e = some d' → ∀ held ∈ d.queue.jobs, held.job.state.isActive →
    Keeps held e.2 d'
  attempt : ∀ held ∈ d.queue.jobs, held.job.attempt = attempts (d.life held.job.id)

/-! ### The invariant -/

/-- What a row owes to the life of its job. -/
structure RowLaw (life : List Deed) (held : Held) : Prop where
  token : held.token = liveToken life
  attempt : held.job.attempt = attempts life

/-- Every row agrees with the life of its job, and a job without a row has no live token. -/
structure Lawful (d : Desk) : Prop where
  sound : d.queue.Sound
  row : ∀ id held, d.queue.row id = some held → RowLaw (d.life id) held
  gone : ∀ id, d.queue.row id = none → liveToken (d.life id) = none

variable {d d' : Desk} {e : ℤ × QueueCall}

lemma step_eq (h : d.step e = some d') : d.queue.step e = some d'.queue ∧
    ∀ id, d'.life id = (d.queue.deed e.1 id e.2).toList ++ d.life id := by
  obtain ⟨queue, hqueue, rfl⟩ := Option.map_eq_some_iff.mp h
  exact ⟨hqueue, fun id => rfl⟩

lemma row_init (maxJobs : ℕ) (serial : List String) (id : JobId) :
    (MemoryQueue.init maxJobs serial).row id = none := rfl

lemma lawful_init (maxJobs : ℕ) (serial : List String) : (init maxJobs serial).Lawful where
  sound := sound_init maxJobs serial
  row id held h := by
    rw [init, row_init] at h
    cases h
  gone id h := by rw [init, liveToken]

/-- A row that changes keeps its law. -/
lemma RowLaw.changes {now : ℤ} {c : QueueCall} {deed : Option Deed} {life : List Deed}
    {before after : Option Held} (h : Changes now c deed before after)
    (htidy : ∀ held, before = some held → Tidy held)
    (hbefore : ∀ held, before = some held → RowLaw life held)
    (hgone : before = none → liveToken life = none) :
    (∀ held, after = some held → RowLaw (deed.toList ++ life) held) ∧
      (after = none → liveToken (deed.toList ++ life) = none) := by
  cases h with
  | kept => exact ⟨hbefore, hgone⟩
  | pushed hnew =>
    refine ⟨?_, fun _ => rfl⟩
    rintro _ ⟨⟩
    exact ⟨rfl, hnew.2.1⟩
  | leased old token hwait =>
    refine ⟨?_, nofun⟩
    rintro _ ⟨⟩
    exact ⟨rfl, (hbefore old rfl).attempt⟩
  | acked old | buried old | reclaimed old | cancelled old =>
    refine ⟨?_, fun _ => rfl⟩
    rintro _ ⟨⟩
    exact ⟨rfl, (hbefore old rfl).attempt⟩
  | retried old at' hid htoken =>
    refine ⟨?_, fun _ => rfl⟩
    rintro _ ⟨⟩
    exact ⟨rfl, congrArg (· + 1) (hbefore old rfl).attempt⟩
  | extended old hid htoken =>
    refine ⟨?_, nofun⟩
    rintro _ ⟨⟩
    exact ⟨(hbefore old rfl).token, (hbefore old rfl).attempt⟩
  | revived old hdead =>
    refine ⟨?_, nofun⟩
    intro held hheld
    obtain rfl := Option.some.inj hheld
    have htoken : (MemoryQueue.revived now old).token = liveToken (.revived :: life) :=
      (hbefore old rfl).token
    exact ⟨htoken, rfl⟩
  | discarded old hdead =>
    constructor
    · intro _ h
      cases h
    intro _
    rw [Option.toList_none, List.nil_append, ← (hbefore old rfl).token]
    exact (htidy old rfl).token_of_dead hdead

/-- Every call keeps the law of every row. -/
lemma Lawful.step (h : d.Lawful) (hstep : d.step e = some d') : d'.Lawful := by
  obtain ⟨hqueue, hlife⟩ := step_eq hstep
  obtain ⟨hadm, hq⟩ := MemoryQueue.step_eq hqueue
  have hrow := fun id => RowLaw.changes (row_call h.sound.keyed e.1 hadm id)
    (fun held hheld => h.sound.tidy held (mem_of_row hheld)) (h.row id) (h.gone id)
  refine ⟨h.sound.step hqueue, ?_, ?_⟩
  · intro id held hheld
    rw [hq] at hheld
    rw [hlife]
    exact (hrow id).1 held hheld
  · intro id hnone
    rw [hq] at hnone
    rw [hlife]
    exact (hrow id).2 hnone

/-! ### The law -/

lemma live_iff_row (h : d.Lawful) {id : JobId} {token : Token} :
    d.Live id token ↔ ∃ held, d.queue.row id = some held ∧ held.token = some token := by
  constructor
  · rintro ⟨held, hheld, rfl, htoken⟩
    exact ⟨held, h.sound.keyed.row_eq hheld, htoken⟩
  · rintro ⟨held, hrow, htoken⟩
    exact ⟨held, mem_of_row hrow, row_id hrow, htoken⟩

lemma Lawful.accepts_iff_live (h : d.Lawful) (lease : Lease) :
    d.queue.accepts lease ↔ d.Live lease.jobId lease.token := by
  rw [accepts_iff, live_iff_row h]

lemma Lawful.live_iff (h : d.Lawful) (id : JobId) (token : Token) :
    d.Live id token ↔ liveToken (d.life id) = some token := by
  rw [live_iff_row h]
  cases hrow : d.queue.row id with
  | none => simp [h.gone id hrow]
  | some held => simp [(h.row id held hrow).token]

/-- A call that checks the token of a row that is there succeeds exactly when it is accepted. -/
lemma isOk_iff_accepts {q : MemoryQueue} {lease : Lease} {f : Held → Held}
    {missing : Except Error MemoryQueue} (hrow : (q.row lease.jobId).isSome) :
    (match q.jobs.find? fun held => held.job.id = lease.jobId with
      | none => missing
      | some held =>
        if held.token ≠ some lease.token then .error (Jobs.reclaimed lease.jobId)
        else .ok { q with jobs := modify lease.jobId f q.jobs } : Except _ _).isOk ↔
      q.accepts lease := by
  obtain ⟨held, hheld⟩ := Option.isSome_iff_exists.mp hrow
  rw [accepts, hheld]
  rw [row] at hheld
  rw [hheld]
  by_cases h : held.token = some lease.token <;> simp [h, Except.isOk, Except.toBool]

/-- An active job is acked, cancelled, buried, or stays deliverable. -/
lemma Lawful.kept (h : d.Lawful) (hstep : d.step e = some d') {held : Held}
    (hheld : held ∈ d.queue.jobs) (hactive : held.job.state.isActive) : Keeps held e.2 d' := by
  obtain ⟨hqueue, -⟩ := step_eq hstep
  obtain ⟨hadm, hq⟩ := MemoryQueue.step_eq hqueue
  have hchange := row_call h.sound.keyed e.1 hadm held.job.id
  have hrow := h.sound.keyed.row_eq hheld
  have htidy := (h.sound.step hqueue).tidy
  rw [hq] at htidy
  -- what stays is in the queue, and deliverable as long as it is active
  have hstay : ∀ held', (d.queue.call e.1 e.2).row held.job.id = some held' →
      held'.job.payload = held.job.payload → held'.job.state.isActive → Keeps held e.2 d' := by
    intro held' hrow' hpayload hact
    refine .inr (.inr ⟨held', hq ▸ mem_of_row hrow', row_id hrow', hpayload, .inl ?_⟩)
    cases hs : held'.job.state with
    | running => exact .inr ⟨hs, (htidy held' (mem_of_row hrow')).leased hs⟩
    | ready | retrying => exact .inl (by rw [hs]; rfl)
    | done | dead | cancelled =>
      rw [hs] at hact
      cases hact
  obtain ⟨now, c⟩ := e
  rw [hrow] at hchange
  generalize hafter : (d.queue.call now c).row held.job.id = after at hchange hstay
  generalize d.queue.deed now held.job.id c = deed at hchange
  cases hchange with
  | kept => exact hstay held rfl rfl hactive
  | leased => exact hstay _ rfl rfl rfl
  | acked _ hid => exact .inl ⟨_, rfl, hid.symm⟩
  | retried => exact hstay _ rfl rfl rfl
  | buried _ hid =>
    refine .inr (.inr ⟨_, hq ▸ mem_of_row hafter, ?_, ?_, .inr ⟨?_, _, _, rfl, hid.symm⟩⟩)
    · rfl
    · rfl
    · rfl
  | extended => exact hstay _ rfl rfl hactive
  | reclaimed => exact hstay _ rfl rfl rfl
  | cancelled _ hid => exact .inr (.inl (hid ▸ rfl))
  | revived _ hdead | discarded _ hdead =>
    rw [hdead] at hactive
    cases hactive

end Desk

end Moso.Jobs
