import Moso.Jobs.Memory.Pull
import Moso.Foundation.Machine

/-!
# What one call of the in-memory queue does to a row

A call does at most one thing to each job, its deed on that job. `Changes` lists what a row can
look like before and after, by deed; every property of the queue's runs is read off it.
-/

namespace Moso.Jobs

/-- What a call did to a job. -/
inductive Deed where
  | pushed
  | leased (token : Token)
  | acked
  /-- Nacked with an instant for the next attempt. -/
  | retried
  /-- Nacked without one. -/
  | buried
  | reclaimed
  | cancelled
  | revived
  deriving DecidableEq, Repr

namespace MemoryQueue

/-- `BTreeMap::get`. -/
def row (q : MemoryQueue) (id : JobId) : Option Held := q.jobs.find? fun held => held.job.id = id

/-- A call that fails leaves the queue as it was. -/
def orKeep (q : MemoryQueue) : Except Error MemoryQueue → MemoryQueue
  | .ok q'   => q'
  | .error _ => q

/-- The queue after a call at the instant `now`. -/
def call (q : MemoryQueue) (now : ℤ) : QueueCall → MemoryQueue
  | .push job                         => q.orKeep (q.push job)
  | .pull queues limit lease worker => (q.pull now queues limit lease worker).1
  | .ack lease                        => q.orKeep (q.ack lease)
  | .nack lease error runAt           => q.orKeep (q.nack now lease error runAt)
  | .heartbeat lease extend           => q.orKeep (q.heartbeat now lease extend)
  | .reclaim queues                   => (q.reclaim now queues).1
  | .cancel id                        => (q.cancel id).1
  | .retry filter limit               => (q.retry now filter limit).1
  | .discard filter limit             => (q.discard filter limit).1

/-- Only new rows are pushed, under identifiers the queue does not hold. -/
def Admits (q : MemoryQueue) : QueueCall → Prop
  | .push job => job.IsNew ∧ ∀ held ∈ q.jobs, held.job.id ≠ job.id
  | _         => True

instance (q : MemoryQueue) (c : QueueCall) : Decidable (q.Admits c) := by
  cases c <;> unfold Admits <;> infer_instance

/-- One call, at any instant. -/
def step (q : MemoryQueue) (e : ℤ × QueueCall) : Option MemoryQueue :=
  if q.Admits e.2 then some (q.call e.1 e.2) else none

/-- An empty queue with a cap of its own and a registry of serial names. -/
def init (maxJobs : ℕ) (serial : List String) : MemoryQueue :=
  { new with maxJobs := maxJobs, serial := serial }

/-- The lease's token is the one its row holds. -/
def accepts (q : MemoryQueue) (lease : Lease) : Bool :=
  (q.row lease.jobId).any fun held => held.token = some lease.token

/-- What the call does to the job `id`. -/
def deed (q : MemoryQueue) (now : ℤ) (id : JobId) : QueueCall → Option Deed
  | .push job =>
    if job.id = id ∧ (q.row id).isNone ∧ ((q.call now (.push job)).row id).isSome then some .pushed
    else none
  | .pull queues limit lease worker =>
    ((q.pull now queues limit lease worker).2.find? fun got => got.2.jobId = id).map fun got =>
      .leased got.2.token
  | .ack lease => if lease.jobId = id ∧ q.accepts lease then some .acked else none
  | .nack lease _ runAt =>
    if lease.jobId = id ∧ q.accepts lease then
      some (if runAt.isSome then .retried else .buried)
    else none
  | .heartbeat _ _ => none
  | .reclaim queues => if (q.row id).any (isExpired queues now) then some .reclaimed else none
  | .cancel id' => if id' = id ∧ (q.cancel id').2 then some .cancelled else none
  | .retry filter limit => if id ∈ q.letters filter limit then some .revived else none
  | .discard _ _ => none

/-- The row after a nack with `error` at the instant `now`. -/
def nacked (now : ℤ) (error : String) : Option ℤ → Held → Held
  | some at', held => { held with token := none, job := held.job.retried error at' }
  | none, held =>
    { held with
      token := none
      failedAt := some now
      job := { held.job with state := .dead, lastError := some error, lockedUntil := none } }

/-- A row before and after a call at `now` whose deed on it is given. -/
inductive Changes (now : ℤ) : QueueCall → Option Deed → Option Held → Option Held → Prop where
  | kept {c : QueueCall} (r : Option Held) : Changes now c none r r
  | pushed {job : QueuedJob} (hnew : job.IsNew) :
      Changes now (.push job) (some .pushed) none (some (Held.new job))
  | leased {queues : List String} {limit lease : ℕ} {worker : WorkerId} (held : Held)
      (token : Token) (hwait : held.job.state.isWaiting) :
      Changes now (.pull queues limit lease worker) (some (.leased token)) (some held)
        (some (held.lease worker (now + fromStd lease) token))
  | acked {lease : Lease} (held : Held) (hid : held.job.id = lease.jobId)
      (htoken : held.token = some lease.token) :
      Changes now (.ack lease) (some .acked) (some held) (some (acked held))
  | retried {lease : Lease} {error : String} (held : Held) (at' : ℤ)
      (hid : held.job.id = lease.jobId) (htoken : held.token = some lease.token) :
      Changes now (.nack lease error (some at')) (some .retried) (some held)
        (some (nacked now error (some at') held))
  | buried {lease : Lease} {error : String} (held : Held)
      (hid : held.job.id = lease.jobId) (htoken : held.token = some lease.token) :
      Changes now (.nack lease error none) (some .buried) (some held)
        (some (nacked now error none held))
  | extended {lease : Lease} {extend : ℕ} (held : Held) (hid : held.job.id = lease.jobId)
      (htoken : held.token = some lease.token) :
      Changes now (.heartbeat lease extend) none (some held)
        (some (extended (now + fromStd extend) held))
  | reclaimed {queues : List String} (held : Held) (hexpired : isExpired queues now held) :
      Changes now (.reclaim queues) (some .reclaimed) (some held) (some (released now held))
  | cancelled {id : JobId} (held : Held) (hid : held.job.id = id)
      (hactive : held.job.state.isActive) :
      Changes now (.cancel id) (some .cancelled) (some held) (some (cancelled held))
  | revived {filter : DlqFilter} {limit : ℕ} (held : Held) (hdead : held.job.state = .dead) :
      Changes now (.retry filter limit) (some .revived) (some held) (some (revived now held))
  | discarded {filter : DlqFilter} {limit : ℕ} (held : Held) (hdead : held.job.state = .dead) :
      Changes now (.discard filter limit) none (some held) none

/-! ### Looking rows up -/

/-- The identifiers of the rows are distinct. -/
def Keyed (q : MemoryQueue) : Prop := (q.jobs.map fun held => held.job.id).Nodup

variable {q : MemoryQueue} {id : JobId} {held : Held}

lemma row_id (h : q.row id = some held) : held.job.id = id := by
  simpa using List.find?_some h

lemma mem_of_row (h : q.row id = some held) : held ∈ q.jobs := List.mem_of_find?_eq_some h

lemma Keyed.row_eq (hq : q.Keyed) (hheld : held ∈ q.jobs) : q.row held.job.id = some held := by
  cases hf : q.row held.job.id with
  | none => exact absurd (decide_eq_true rfl) (List.find?_eq_none.mp hf held hheld)
  | some found => rw [List.inj_on_of_nodup_map hq (mem_of_row hf) hheld (row_id hf)]

lemma row_eq_none : q.row id = none ↔ ∀ held ∈ q.jobs, held.job.id ≠ id := by
  simp [row]

/-- Rows changed without touching their identifiers are found where they were. -/
lemma find?_map {f : Held → Held} (hf : ∀ held, (f held).job.id = held.job.id)
    (jobs : List Held) (id : JobId) :
    (jobs.map f).find? (fun held => held.job.id = id) =
      (jobs.find? fun held => held.job.id = id).map f := by
  rw [List.find?_map]
  congr 2
  funext held
  rw [Function.comp_apply, hf]

lemma map_ids {f : Held → Held} (hf : ∀ held, (f held).job.id = held.job.id)
    (jobs : List Held) :
    (jobs.map f).map (fun held => held.job.id) = jobs.map fun held => held.job.id := by
  rw [List.map_map]
  exact List.map_congr_left fun held _ => hf held

lemma modify_id {f : Held → Held} (hf : ∀ held, (f held).job.id = held.job.id) (held : Held) :
    (if held.job.id = id then f held else held).job.id = held.job.id := by
  split
  · exact hf held
  · rfl

/-- An assignment through one row changes that row alone. -/
lemma find?_modify {f : Held → Held} (hf : ∀ held, (f held).job.id = held.job.id)
    (jobs : List Held) (id id' : JobId) :
    (modify id f jobs).find? (fun held => held.job.id = id') =
      if id = id' then (jobs.find? fun held => held.job.id = id').map f
      else jobs.find? fun held => held.job.id = id' := by
  rw [modify, find?_map (modify_id hf)]
  cases hfind : jobs.find? fun held => held.job.id = id' with
  | none => simp
  | some held =>
    have hid : held.job.id = id' := by simpa using List.find?_some hfind
    by_cases h : id = id' <;> simp [hid, h, eq_comm]

lemma find?_insert (entry : Held) {jobs : List Held}
    (h : ∀ held ∈ jobs, held.job.id ≠ entry.job.id) (id : JobId) :
    (insert entry jobs).find? (fun held => held.job.id = id) =
      if entry.job.id = id then some entry else jobs.find? fun held => held.job.id = id := by
  induction jobs with
  | nil => by_cases hid : entry.job.id = id <;> simp [insert, hid]
  | cons held rest ih =>
    have hne : entry.job.id ≠ held.job.id := (h held List.mem_cons_self).symm
    have ih' := ih fun other hother => h other (List.mem_cons_of_mem _ hother)
    rw [insert, if_neg hne]
    split
    next => by_cases hid : entry.job.id = id <;> simp [List.find?_cons, hid]
    next =>
      by_cases hid : held.job.id = id
      · rw [← hid, if_neg hne]
        simp
      · simp [hid, ih']

/-! ### What a pull leases -/

lemma retainSerial_sublist (serial busy : List String) (jobs : List QueuedJob) :
    (retainSerial serial busy jobs).Sublist jobs := by
  induction jobs generalizing busy with
  | nil => exact .slnil
  | cons job rest ih =>
    rw [retainSerial]
    split
    · exact (ih busy).cons_cons job
    · split
      · exact (ih busy).cons job
      · exact (ih _).cons_cons job

/-- What is leasable is a waiting row of the queue that is due. -/
lemma mem_leasable {queues : List String} {now : ℤ} {job : QueuedJob}
    (h : job ∈ q.leasable queues now) :
    q.isReady queues now job ∧ ∃ held ∈ q.jobs, held.job = job := by
  have hready := (retainSerial_sublist _ _ _).subset h
  rw [List.mem_insertionSort, List.mem_filter, List.mem_map] at hready
  exact ⟨hready.2, hready.1⟩

lemma Keyed.leasable_nodup (hq : q.Keyed) (queues : List String) (now : ℤ) :
    ((q.leasable queues now).map QueuedJob.id).Nodup := by
  refine List.Nodup.sublist ((retainSerial_sublist _ _ _).map _) ?_
  rw [((List.perm_insertionSort _ _).map _).nodup_iff]
  refine List.Nodup.sublist (List.filter_sublist.map _) ?_
  rw [List.map_map]
  exact hq

lemma leaseAll_serial (worker : WorkerId) (until' : ℤ) (jobs : List QueuedJob)
    (q : MemoryQueue) : (leaseAll worker until' jobs q).1.serial = q.serial := by
  induction jobs generalizing q with
  | nil => rfl
  | cons job rest ih => rw [leaseAll, ih]

lemma leaseAll_map_ids (worker : WorkerId) (until' : ℤ) (jobs : List QueuedJob)
    (q : MemoryQueue) :
    (leaseAll worker until' jobs q).1.jobs.map (fun held => held.job.id) =
      q.jobs.map fun held => held.job.id := by
  induction jobs generalizing q with
  | nil => rfl
  | cons job rest ih =>
    rw [leaseAll]
    simp only [ih, modify]
    exact map_ids (modify_id (f := fun held => held.lease worker until' q.tokens) fun _ => rfl)
      q.jobs

/-- Each leased row holds the token its lease was given, and no other row changes. -/
lemma row_leaseAll (worker : WorkerId) (until' : ℤ) {jobs : List QueuedJob}
    (hjobs : (jobs.map QueuedJob.id).Nodup) (q : MemoryQueue) (id : JobId) :
    (leaseAll worker until' jobs q).1.row id =
      match (leaseAll worker until' jobs q).2.find? fun got => got.2.jobId = id with
      | none     => q.row id
      | some got => (q.row id).map fun held => held.lease worker until' got.2.token := by
  induction jobs generalizing q with
  | nil => rfl
  | cons job rest ih =>
    obtain ⟨hjob, hrest⟩ := List.nodup_cons.mp hjobs
    let q' : MemoryQueue := { q with
      jobs := modify job.id (fun held => held.lease worker until' q.tokens) q.jobs
      tokens := q.tokens + 1 }
    have hq' : q'.row id = if job.id = id then
        (q.row id).map fun held => held.lease worker until' q.tokens else q.row id :=
      find?_modify (f := fun held => held.lease worker until' q.tokens) (fun _ => rfl) q.jobs
        job.id id
    have hrun : (leaseAll worker until' (job :: rest) q).1 = (leaseAll worker until' rest q').1 :=
      rfl
    have hgot : (leaseAll worker until' (job :: rest) q).2 =
        (job.lease worker until', ⟨job.id, q.tokens, until'⟩) ::
          (leaseAll worker until' rest q').2 := rfl
    rw [hrun, hgot, ih hrest q', hq', List.find?_cons]
    by_cases hid : job.id = id
    · -- the other leases are for other jobs
      have hnone : (leaseAll worker until' rest q').2.find? (fun got => got.2.jobId = id) =
          none := by
        rw [List.find?_eq_none]
        intro got hgot hsame
        have hmem : got.2.jobId ∈ rest.map QueuedJob.id := by
          rw [← leaseAll_ids worker until' rest q']
          exact List.mem_map_of_mem (f := fun got : QueuedJob × Lease => got.2.jobId) hgot
        rw [of_decide_eq_true hsame, ← hid] at hmem
        exact hjob hmem
      simp [hid, hnone]
    · simp [hid]

/-- What a pull leased is the job of a row that was leasable. -/
lemma row_of_leased {now : ℤ} {queues : List String} {limit lease : ℕ} {worker : WorkerId}
    {got : QueuedJob × Lease} (h : (q.pull now queues limit lease worker).2.find?
      (fun got => got.2.jobId = id) = some got) :
    ∃ held ∈ q.jobs, held.job.id = id ∧ held.job ∈ q.leasable queues now := by
  have hid : got.2.jobId = id := by simpa using List.find?_some h
  have hmem : id ∈ ((q.leasable queues now).take limit).map QueuedJob.id := by
    rw [← leaseAll_ids worker (now + fromStd lease), ← hid]
    exact List.mem_map_of_mem (f := fun got : QueuedJob × Lease => got.2.jobId)
      (List.mem_of_find?_eq_some h)
  obtain ⟨job, hjob, rfl⟩ := List.mem_map.mp hmem
  have hleasable := List.mem_of_mem_take hjob
  obtain ⟨-, held, hheld, rfl⟩ := mem_leasable hleasable
  exact ⟨held, hheld, rfl, hleasable⟩

/-! ### What a retry revives -/

lemma retryFrom_map_ids (now : ℤ) (filter : DlqFilter) (limit retried : ℕ) (jobs : List Held) :
    (retryFrom now filter limit retried jobs).1.map (fun held => held.job.id) =
      jobs.map fun held => held.job.id := by
  induction jobs generalizing retried with
  | nil => rfl
  | cons held rest ih =>
    rw [retryFrom]
    split
    · rfl
    · split
      · simp [revived, ih]
      · simp [ih]

/-- The loop revives the letters it has room for, and they are the first ones. -/
lemma find?_retryFrom {now : ℤ} {filter : DlqFilter} {limit : ℕ} {jobs : List Held}
    (hjobs : (jobs.map fun held => held.job.id).Nodup) (retried : ℕ) (id : JobId) :
    (retryFrom now filter limit retried jobs).1.find? (fun held => held.job.id = id) =
      if id ∈ ((jobs.filter (isLetter filter)).take (limit - retried)).map (fun held => held.job.id)
      then (jobs.find? fun held => held.job.id = id).map (revived now)
      else jobs.find? fun held => held.job.id = id := by
  induction jobs generalizing retried with
  | nil => simp [retryFrom]
  | cons held rest ih =>
    obtain ⟨hheld, hrest⟩ := List.nodup_cons.mp hjobs
    rw [retryFrom]
    split
    next hfull => simp [Nat.sub_eq_zero_of_le hfull]
    next hroom =>
      split
      next hletter =>
        have htake : limit - retried = limit - (retried + 1) + 1 := by omega
        rw [List.filter_cons_of_pos hletter, htake, List.take_succ_cons, List.map_cons]
        by_cases hid : held.job.id = id
        · simp [hid, revived]
        · have hne : id ≠ held.job.id := Ne.symm hid
          simp [hid, hne, revived, ih hrest]
      next hletter =>
        rw [List.filter_cons_of_neg hletter]
        by_cases hid : held.job.id = id
        · have hnot : id ∉ ((rest.filter (isLetter filter)).take (limit - retried)).map
              fun held => held.job.id := by
            intro hmem
            rw [← hid] at hmem
            exact hheld (((List.take_sublist _ _).trans List.filter_sublist).map _ |>.subset hmem)
          rw [if_neg hnot]
          simp [hid]
        · simp [hid, ih hrest]

/-! ### Each call -/

variable {now : ℤ}

lemma accepts_iff {lease : Lease} : q.accepts lease ↔
    ∃ held, q.row lease.jobId = some held ∧ held.token = some lease.token := by
  rw [accepts, Option.any_eq_true]
  simp

/-- A push either adds its row or leaves the queue as it was. -/
lemma call_push (q : MemoryQueue) (now : ℤ) (job : QueuedJob) : q.call now (.push job) = q ∨
    (q.call now (.push job) = { q with jobs := insert (Held.new job) q.jobs } ∧
      ∀ key ∈ job.uniqueKey, ∀ held ∈ q.jobs, held.job.state.isActive →
        held.job.uniqueKey ≠ some key) := by
  rw [call, push]
  split
  · exact .inl rfl
  · split
    · exact .inl rfl
    next hfree =>
      refine .inr ⟨rfl, ?_⟩
      intro key hkey held hheld hactive hsame
      have hk : job.uniqueKey = some key := hkey
      refine hfree ⟨by rw [hk]; rfl, List.any_eq_true.mpr ⟨held, hheld, ?_⟩⟩
      simp [hactive, hsame, hk]

/-- The shape of the calls that check the token of the row they change. -/
lemma guarded_eq {lease : Lease} {f : Held → Held} {missing : Except Error MemoryQueue}
    (hmissing : q.orKeep missing = q) :
    q.orKeep (match q.jobs.find? fun held => held.job.id = lease.jobId with
      | none => missing
      | some held =>
        if held.token ≠ some lease.token then .error (Jobs.reclaimed lease.jobId)
        else .ok { q with jobs := modify lease.jobId f q.jobs }) =
      if q.accepts lease then { q with jobs := modify lease.jobId f q.jobs } else q := by
  rw [accepts, row]
  cases q.jobs.find? fun held => held.job.id = lease.jobId with
  | none => exact hmissing
  | some held => by_cases h : held.token = some lease.token <;> simp [h, orKeep]

lemma call_ack (lease : Lease) : q.call now (.ack lease) =
    if q.accepts lease then { q with jobs := modify lease.jobId acked q.jobs } else q :=
  guarded_eq rfl

lemma call_nack (lease : Lease) (error : String) (runAt : Option ℤ) :
    q.call now (.nack lease error runAt) =
      if q.accepts lease then { q with jobs := modify lease.jobId (nacked now error runAt) q.jobs }
      else q := by
  cases runAt <;> exact guarded_eq rfl

lemma call_heartbeat (lease : Lease) (extend : ℕ) : q.call now (.heartbeat lease extend) =
    if q.accepts lease then
      { q with jobs := modify lease.jobId (extended (now + fromStd extend)) q.jobs }
    else q :=
  guarded_eq rfl

lemma call_cancel (id : JobId) : q.call now (.cancel id) =
    if (q.cancel id).2 then { q with jobs := modify id cancelled q.jobs } else q := by
  rw [call, cancel]
  cases q.jobs.find? fun held => held.job.id = id with
  | none => rfl
  | some held => by_cases h : held.job.state.isActive <;> simp [h]

lemma cancel_iff : (q.cancel id).2 ↔ ∃ held, q.row id = some held ∧ held.job.state.isActive := by
  rw [cancel, row]
  cases q.jobs.find? fun held => held.job.id = id with
  | none => simp
  | some held => by_cases h : held.job.state.isActive <;> simp [h]

/-- No call changes the registry of serial names. -/
lemma call_serial (q : MemoryQueue) (now : ℤ) (c : QueueCall) :
    (q.call now c).serial = q.serial := by
  cases c with
  | push job => rcases call_push q now job with h | ⟨h, -⟩ <;> rw [h]
  | pull => exact leaseAll_serial _ _ _ q
  | ack lease =>
    rw [call_ack]
    split <;> rfl
  | nack lease error runAt =>
    rw [call_nack]
    split <;> rfl
  | heartbeat lease extend =>
    rw [call_heartbeat]
    split <;> rfl
  | cancel id =>
    rw [call_cancel]
    split <;> rfl
  | reclaim | retry | discard => rfl

/-- The rows stay distinct. -/
lemma Keyed.call (hq : q.Keyed) (now : ℤ) {c : QueueCall} (hc : q.Admits c) :
    (q.call now c).Keyed := by
  have hmodify : ∀ (id : JobId) (f : Held → Held), (∀ held, (f held).job.id = held.job.id) →
      Keyed { q with jobs := modify id f q.jobs } := by
    intro id f hf
    rw [Keyed, modify, map_ids (modify_id hf)]
    exact hq
  cases c with
  | push job =>
    rcases call_push q now job with h | ⟨h, -⟩ <;> rw [h]
    · exact hq
    · have hperm : (insert (Held.new job) q.jobs).Perm (Held.new job :: q.jobs) :=
        insert_perm hc.2
      rw [Keyed, (hperm.map _).nodup_iff, List.map_cons, List.nodup_cons]
      refine ⟨?_, hq⟩
      intro hmem
      obtain ⟨held, hheld, hid⟩ := List.mem_map.mp hmem
      exact hc.2 held hheld hid
  | pull queues limit lease worker =>
    rw [Keyed, MemoryQueue.call, pull, leaseAll_map_ids]
    exact hq
  | ack lease =>
    rw [call_ack]
    split
    · exact hmodify _ _ fun _ => rfl
    · exact hq
  | nack lease error runAt =>
    rw [call_nack]
    split
    · apply hmodify
      intro held
      cases runAt <;> rfl
    · exact hq
  | heartbeat lease extend =>
    rw [call_heartbeat]
    split
    · exact hmodify _ _ fun _ => rfl
    · exact hq
  | reclaim queues =>
    rw [Keyed, MemoryQueue.call, reclaim, map_ids]
    · exact hq
    · intro held
      split <;> rfl
  | cancel id =>
    rw [call_cancel]
    split
    · exact hmodify _ _ fun _ => rfl
    · exact hq
  | retry filter limit =>
    rw [Keyed, MemoryQueue.call, retry, retryFrom_map_ids]
    exact hq
  | discard filter limit => exact List.Nodup.sublist (List.filter_sublist.map _) hq

lemma row_modify {f : Held → Held} (hf : ∀ held, (f held).job.id = held.job.id)
    (id id' : JobId) : ({ q with jobs := modify id f q.jobs } : MemoryQueue).row id' =
      if id = id' then (q.row id').map f else q.row id' :=
  find?_modify hf q.jobs id id'

/-- A row whose lease is accepted is changed, and nothing else. -/
lemma row_guarded {lease : Lease} {f : Held → Held}
    (hf : ∀ held, (f held).job.id = held.job.id) (id : JobId) :
    (if q.accepts lease then { q with jobs := modify lease.jobId f q.jobs } else q).row id =
      if lease.jobId = id ∧ q.accepts lease then (q.row id).map f else q.row id := by
  by_cases h : q.accepts lease
  · rw [if_pos h, row_modify hf]
    simp [h]
  · simp [h]

/-- A dead letter among the first `limit` has a row, which is dead. -/
lemma row_of_mem_letters (hq : q.Keyed) {filter : DlqFilter} {limit : ℕ}
    (h : id ∈ q.letters filter limit) :
    ∃ held, q.row id = some held ∧ held.job.state = .dead ∧ isLetter filter held := by
  obtain ⟨held, hheld, rfl⟩ := List.mem_map.mp h
  obtain ⟨hmem, hletter⟩ := List.mem_filter.mp (List.mem_of_mem_take hheld)
  have hdead := hletter
  rw [isLetter, decide_eq_true_eq] at hdead
  exact ⟨held, hq.row_eq hmem, hdead.1, hletter⟩

lemma row_retry (hq : q.Keyed) (now : ℤ) (filter : DlqFilter) (limit : ℕ) (id : JobId) :
    (q.call now (.retry filter limit)).row id =
      if id ∈ q.letters filter limit then (q.row id).map (revived now) else q.row id :=
  find?_retryFrom hq 0 id

/-- Every call changes every row as `Changes` says. -/
theorem row_call (hq : q.Keyed) (now : ℤ) {c : QueueCall} (hc : q.Admits c) (id : JobId) :
    Changes now c (q.deed now id c) (q.row id) ((q.call now c).row id) := by
  cases c with
  | push job =>
    rcases call_push q now job with h | ⟨h, -⟩ <;> rw [deed, h]
    · by_cases hsome : (q.row id).isSome
      · rw [if_neg (by simp [← Option.not_isSome, hsome])]
        exact .kept _
      · rw [if_neg (by simp [hsome])]
        exact .kept _
    · have hrow : ({ q with jobs := insert (Held.new job) q.jobs } : MemoryQueue).row id =
          if job.id = id then some (Held.new job) else q.row id :=
        find?_insert (Held.new job) hc.2 id
      rw [hrow]
      by_cases hid : job.id = id
      · have hnone : q.row id = none := row_eq_none.2 (hid ▸ hc.2)
        rw [hnone, if_pos hid, if_pos ⟨hid, rfl, rfl⟩]
        exact .pushed hc.1
      · rw [if_neg hid, if_neg fun h => hid h.1]
        exact .kept _
  | pull queues limit lease worker =>
    have hnodup : (((q.leasable queues now).take limit).map QueuedJob.id).Nodup :=
      (hq.leasable_nodup queues now).sublist ((List.take_sublist _ _).map _)
    rw [deed, call, pull, row_leaseAll worker _ hnodup]
    cases hfind : (leaseAll worker (now + fromStd lease) ((q.leasable queues now).take limit)
        q).2.find? fun got => got.2.jobId = id with
    | none => exact .kept _
    | some got =>
      -- what was leased is a waiting row
      obtain ⟨held, hheld, rfl, hleasable⟩ := row_of_leased hfind
      obtain ⟨hready, -⟩ := mem_leasable hleasable
      rw [hq.row_eq hheld]
      rw [isReady, decide_eq_true_eq] at hready
      exact .leased held got.2.token hready.1
  | ack lease =>
    rw [deed, call_ack, row_guarded (f := acked) fun _ => rfl]
    by_cases h : lease.jobId = id ∧ q.accepts lease
    · obtain ⟨held, hrow, htoken⟩ := accepts_iff.1 h.2
      rw [if_pos h, if_pos h, ← h.1, hrow]
      exact .acked held (row_id hrow) htoken
    · rw [if_neg h, if_neg h]
      exact .kept _
  | nack lease error runAt =>
    rw [deed, call_nack, row_guarded (by intro held; cases runAt <;> rfl)]
    by_cases h : lease.jobId = id ∧ q.accepts lease
    · obtain ⟨held, hrow, htoken⟩ := accepts_iff.1 h.2
      rw [if_pos h, if_pos h, ← h.1, hrow]
      cases runAt with
      | none => exact .buried held (row_id hrow) htoken
      | some at' => exact .retried held at' (row_id hrow) htoken
    · rw [if_neg h, if_neg h]
      exact .kept _
  | heartbeat lease extend =>
    rw [deed, call_heartbeat, row_guarded (f := extended _) fun _ => rfl]
    by_cases h : lease.jobId = id ∧ q.accepts lease
    · obtain ⟨held, hrow, htoken⟩ := accepts_iff.1 h.2
      rw [if_pos h, ← h.1, hrow]
      exact .extended held (row_id hrow) htoken
    · rw [if_neg h]
      exact .kept _
  | reclaim queues =>
    have hrow : (q.call now (.reclaim queues)).row id = (q.row id).map fun held =>
        if isExpired queues now held then released now held else held :=
      find?_map (by intro held; split <;> rfl) q.jobs id
    rw [deed, hrow]
    cases q.row id with
    | none => exact .kept none
    | some held =>
      by_cases h : isExpired queues now held
      · simp only [Option.any_some, h, if_true, Option.map_some]
        exact .reclaimed held h
      · simp only [Option.any_some, h, Option.map_some]
        exact .kept _
  | cancel id' =>
    rw [deed, call_cancel]
    by_cases h : id' = id ∧ (q.cancel id').2
    · obtain ⟨rfl, hyes⟩ := h
      obtain ⟨held, hrow, hactive⟩ := cancel_iff.1 hyes
      rw [if_pos ⟨rfl, hyes⟩, if_pos hyes, row_modify (f := cancelled) fun _ => rfl, if_pos rfl,
        hrow]
      exact .cancelled held (row_id hrow) hactive
    · rw [if_neg h]
      by_cases hyes : (q.cancel id').2
      · rw [if_pos hyes, row_modify (f := cancelled) fun _ => rfl, if_neg fun hid => h ⟨hid, hyes⟩]
        exact .kept _
      · rw [if_neg hyes]
        exact .kept _
  | retry filter limit =>
    rw [deed, row_retry hq]
    by_cases h : id ∈ q.letters filter limit
    · obtain ⟨held, hheld, hdead, -⟩ := row_of_mem_letters hq h
      rw [if_pos h, if_pos h, hheld]
      exact .revived held hdead
    · rw [if_neg h, if_neg h]
      exact .kept _
  | discard filter limit =>
    by_cases h : id ∈ q.letters filter limit
    · obtain ⟨held, hheld, hdead, -⟩ := row_of_mem_letters hq h
      have hnone : (q.call now (.discard filter limit)).row id = none := by
        rw [row_eq_none]
        intro other hother hid
        have hnot := (List.mem_filter.mp hother).2
        rw [decide_eq_true_eq, hid] at hnot
        exact hnot h
      rw [hnone, hheld]
      exact .discarded held hdead
    · have hrow : (q.call now (.discard filter limit)).row id = q.row id := by
        rw [row, call, discard, List.find?_filter, row]
        congr 1
        funext held
        by_cases hid : held.job.id = id <;> simp [hid, h]
      rw [hrow]
      exact .kept _

/-! ### What every row is like -/

/-- A row holds a token exactly while it is running, and then its lease can run out. -/
structure Tidy (held : Held) : Prop where
  running : held.job.state = .running ↔ held.token.isSome
  leased : held.job.state = .running → held.job.lockedUntil.isSome

/-- The rows are distinct and tidy. -/
structure Sound (q : MemoryQueue) : Prop where
  keyed : q.Keyed
  tidy : ∀ held ∈ q.jobs, Tidy held

lemma sound_init (maxJobs : ℕ) (serial : List String) : (init maxJobs serial).Sound :=
  ⟨List.nodup_nil, fun _ h => absurd h List.not_mem_nil⟩

/-- A row that holds a token is running. -/
lemma Tidy.running_of_token (h : Tidy held) {token : Token} (htoken : held.token = some token) :
    held.job.state = .running :=
  h.running.mpr (by rw [htoken]; rfl)

/-- A dead row holds no token. -/
lemma Tidy.token_of_dead (h : Tidy held) (hdead : held.job.state = .dead) : held.token = none := by
  cases htoken : held.token with
  | none => rfl
  | some token =>
    rw [h.running_of_token htoken] at hdead
    cases hdead

/-- A call leaves a tidy row tidy. -/
lemma Tidy.changes {c : QueueCall} {deed : Option Deed} {before : Option Held}
    (h : Changes now c deed before (some held)) (hbefore : ∀ old, before = some old → Tidy old) :
    Tidy held := by
  cases h with
  | kept => exact hbefore held rfl
  | pushed hnew => exact ⟨by simp [Held.new, hnew.1], by simp [Held.new, hnew.1]⟩
  | leased => exact ⟨by simp [Held.lease, QueuedJob.lease], fun _ => rfl⟩
  | acked => exact ⟨by simp [acked], by simp [acked]⟩
  | retried => exact ⟨by simp [nacked, QueuedJob.retried], by simp [nacked, QueuedJob.retried]⟩
  | buried => exact ⟨by simp [nacked], by simp [nacked]⟩
  | extended old => exact ⟨(hbefore old rfl).running, fun _ => rfl⟩
  | reclaimed => exact ⟨by simp [released], by simp [released]⟩
  | cancelled => exact ⟨by simp [cancelled], by simp [cancelled]⟩
  | revived old hdead =>
    have hnone := (hbefore old rfl).token_of_dead hdead
    exact ⟨by simp [revived, hnone], by simp [revived]⟩

lemma step_eq {q' : MemoryQueue} {e : ℤ × QueueCall} (h : q.step e = some q') :
    q.Admits e.2 ∧ q' = q.call e.1 e.2 := by
  rw [step] at h
  split at h
  next hadm => exact ⟨hadm, (Option.some.inj h).symm⟩
  next => cases h

/-- The queue stays sound. -/
lemma Sound.step (hq : q.Sound) {q' : MemoryQueue} {e : ℤ × QueueCall}
    (h : q.step e = some q') : q'.Sound := by
  obtain ⟨hadm, rfl⟩ := step_eq h
  have hkeyed := hq.keyed.call e.1 hadm
  refine ⟨hkeyed, ?_⟩
  intro held hheld
  have hchange := row_call hq.keyed e.1 hadm held.job.id
  rw [hkeyed.row_eq hheld] at hchange
  exact Tidy.changes hchange fun old hold => hq.tidy old (mem_of_row hold)

end MemoryQueue

end Moso.Jobs
