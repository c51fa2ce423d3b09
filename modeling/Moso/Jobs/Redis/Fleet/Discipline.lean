import Moso.Jobs.Redis.Fleet

/-!
# What each call keeps to

The calls of the Redis queue keep to a discipline, whatever the store answers: a call writes a job
only when it pushes it or has read its blob, and with a lease only when the blob held the lease's
token; it moves a job only between the sets of its own queue and the dead letters; and it never
takes up a second job, or returns, with one still in hand.
-/

namespace Moso.Jobs

open Program (Obeys Discipline obeys_command)

/-- A set the job can be in: one of its own queue, or the dead letters. -/
def SetKey.Fits (queueOf : JobId → String) (id : JobId) : SetKey → Prop
  | ready queue | leased queue => queue = queueOf id
  | dead => True

namespace Hand

/-- No job but this one is in hand. -/
def Only (h : Hand) (id : JobId) : Prop := ∀ other, h.holding = some other → other = id

/-- What entitles a call to write a job. -/
def Entitles (h : Hand) (call : QueueCall) (id : JobId) : Prop :=
  match call with
  | .push job => id = job.id
  | .ack lease | .nack lease _ _ | .heartbeat lease _ =>
    id = lease.jobId ∧ h.seen = some (id, some lease.token)
  | _ => ∃ token, h.seen = some (id, token)

lemma only_of_holding_none {h : Hand} (hnone : h.holding = none) (id : JobId) : h.Only id := by
  intro other hother
  rw [hnone] at hother
  cases hother

lemma only_of_holding {h : Hand} {id : JobId} (hid : h.holding = some id) : h.Only id := by
  intro other hother
  rw [hid] at hother
  exact (Option.some.inj hother).symm

/-- Taking a member out of its set changes only what is held. -/
lemma after_zrem {h : Hand} {id : JobId} (honly : h.Only id) (call : QueueCall) (key : SetKey)
    (n : ℕ) :
    (h.after call (.zrem key id) n).seen = h.seen ∧ (h.after call (.zrem key id) n).Only id := by
  by_cases hone : n = 1
  · have hafter : h.after call (.zrem key id) n = { h with holding := some id } := if_pos hone
    rw [hafter]
    exact ⟨rfl, only_of_holding rfl⟩
  · have hafter : h.after call (.zrem key id) n = h := if_neg hone
    rw [hafter]
    exact ⟨rfl, honly⟩

end Hand

namespace QueueCall

/-- The tokens a call may leave in a blob. -/
def Leaves : QueueCall → Option Token → Prop
  | pull .., _ => True
  | heartbeat lease _, token => token = some lease.token
  | _, token => token = none

variable (queueOf : JobId → String) (call : QueueCall)

/-- What a call with this in hand may ask. -/
def Allowed (h : Hand) : StoreCmd → Prop
  | .zrem key id => key ≠ .dead ∧ h.Only id ∧ (call.lease?.isSome → h.Entitles call id)
  | .get id => h.Only id
  | .set held => held.job.queue = queueOf held.job.id ∧ h.Only held.job.id ∧
      h.Entitles call held.job.id ∧ call.Leaves held.token
  | .deleteBlob id => (∃ lease, call = .ack lease) ∧ h.Only id ∧ h.Entitles call id
  | .zadd key _ id => key.Fits queueOf id ∧ h.Only id ∧ h.Entitles call id
  | _ => True

/-- What the store can answer. -/
def Expected : (c : StoreCmd) → c.Answer → Prop
  | .zrem key id, n => n = 1 → key.Fits queueOf id
  | .get id, some held => held.job.id = id ∧ held.job.queue = queueOf id
  | _, _ => True

def discipline : Discipline StoreCmd StoreCmd.Answer Hand where
  allowed := call.Allowed queueOf
  expected _ := Expected queueOf
  next h c r := h.after call c r

/-- From here on the call keeps to its discipline and ends with empty hands. -/
abbrev Keeps {α : Type} (h : Hand) (p : StoreProgram α) : Prop :=
  Obeys (discipline queueOf call) (fun h' _ => h'.holding = none) h p

end QueueCall

namespace RedisQueue

open QueueCall

variable {queueOf : JobId → String} {call : QueueCall} {h : Hand} {serial : List String}

lemma push_keeps_to {job : QueuedJob} (hqueue : job.queue = queueOf job.id) :
    Keeps queueOf (.push job) .empty (push job : StoreProgram Unit) := by
  have hstore : Keeps queueOf (.push job) .empty (do
      JobStore.set (Held.new job)
      let _ ← JobStore.zadd (.ready job.queue) (readyScore job) job.id : StoreProgram Unit) := by
    refine obeys_command.2 ⟨⟨hqueue, Hand.only_of_holding_none rfl _, rfl, rfl⟩, ?_⟩
    intro _ _
    refine obeys_command.2 ⟨⟨hqueue, Hand.only_of_holding_none rfl _, rfl⟩, ?_⟩
    intro _ _
    rfl
  rw [push]
  cases job.uniqueKey with
  | none => exact hstore
  | some key =>
    refine obeys_command.2 ⟨trivial, fun won _ => ?_⟩
    cases won with
    | false => rfl
    | true => exact hstore

/-! ### Pulls -/

/-- A job that was read is leased, or put back: it is in the sets of its own queue. -/
lemma pullOne_keeps_to {queues : List String} {limit lease : ℕ} {worker : WorkerId}
    (hnone : h.holding = none) (until' : ℤ) (queue : String) (id : JobId) :
    Keeps queueOf (.pull queues limit lease worker) h
      (pullOne serial lease worker until' queue id : StoreProgram _) := by
  refine obeys_command.2 ⟨⟨nofun, Hand.only_of_holding_none hnone id, nofun⟩, fun n hn => ?_⟩
  by_cases hone : n = 1
  · have hfits : queue = queueOf id := hn hone
    have hnext : (discipline queueOf (.pull queues limit lease worker)).next h
        (.zrem (.ready queue) id) n = { h with holding := some id } := if_pos hone
    rw [hnext, if_neg (not_not.mpr hone)]
    refine obeys_command.2 ⟨Hand.only_of_holding rfl, fun got hgot => ?_⟩
    cases got with
    | none => rfl
    | some held =>
      obtain ⟨hid, hqueue⟩ := hgot
      have honly : Hand.Only ⟨some id, some (id, held.token)⟩ id := Hand.only_of_holding rfl
      have hlease : Keeps queueOf (.pull queues limit lease worker)
          ⟨some id, some (id, held.token)⟩ (do
            let token ← JobStore.newV4
            let held := held.lease worker until' token
            JobStore.set held
            let _ ← JobStore.zadd (.leased queue) (timestampMillis until') id
            return some (held.job, ({ jobId := id, token := token, expiresAt := until' } : Lease)) :
            StoreProgram _) := by
        refine obeys_command.2 ⟨trivial, fun token _ => ?_⟩
        subst hid
        refine obeys_command.2 ⟨⟨hqueue, honly, ⟨_, rfl⟩, trivial⟩, fun _ _ => ?_⟩
        refine obeys_command.2 ⟨⟨hfits, honly, ⟨_, rfl⟩⟩, fun _ _ => ?_⟩
        rfl
      by_cases hserial : held.job.name ∈ serial
      · simp only [hserial, if_true]
        refine obeys_command.2 ⟨trivial, fun won _ => ?_⟩
        cases won with
        | false =>
          refine obeys_command.2 ⟨⟨hfits, honly, ⟨_, rfl⟩⟩, fun _ _ => ?_⟩
          rfl
        | true => exact hlease
      · simp only [hserial, if_false]
        exact hlease
  · have hnext : (discipline queueOf (.pull queues limit lease worker)).next h
        (.zrem (.ready queue) id) n = h := if_neg hone
    rw [hnext, if_pos hone]
    exact hnone

section Pull

variable {queues : List String} {limit lease : ℕ} {worker : WorkerId}

lemma pullCandidates_keeps_to (hnone : h.holding = none) (until' : ℤ) (queue : String)
    (ids : List JobId) (leased : List (QueuedJob × Lease)) :
    Keeps queueOf (.pull queues limit lease worker) h
      (pullCandidates serial lease worker until' queue ids leased : StoreProgram _) := by
  induction ids generalizing h leased with
  | nil => exact hnone
  | cons id ids ih =>
    rw [pullCandidates]
    apply (pullOne_keeps_to hnone until' queue id).bind
    intro h' got hnone'
    exact ih hnone' _

lemma pullQueues_keeps_to (hnone : h.holding = none) (until' ceiling : ℤ) (names : List String)
    (leased : List (QueuedJob × Lease)) :
    Keeps queueOf (.pull queues limit lease worker) h
      (pullQueues serial limit lease worker until' ceiling names leased : StoreProgram _) := by
  induction names generalizing h leased with
  | nil => exact hnone
  | cons name names ih =>
    rw [pullQueues]
    split
    · exact hnone
    · refine obeys_command.2 ⟨trivial, fun candidates _ => ?_⟩
      apply (pullCandidates_keeps_to hnone until' name candidates leased).bind
      intro h' leased' hnone'
      exact ih hnone' _

lemma pull_keeps_to : Keeps queueOf (.pull queues limit lease worker) .empty
    (pull serial queues limit lease worker : StoreProgram _) := by
  refine obeys_command.2 ⟨trivial, fun now _ => ?_⟩
  apply pullQueues_keeps_to
  rfl

end Pull

/-! ### Reclaims -/

lemma releaseSerial_keeps_to (held : Held) :
    Obeys (discipline queueOf call) (fun h' _ => h' = h) h
      (releaseSerial serial held : StoreProgram Unit) := by
  rw [releaseSerial]
  split
  · exact obeys_command.2 ⟨trivial, fun _ _ => rfl⟩
  · rfl

lemma reclaimOne_keeps_to {queues : List String} (hnone : h.holding = none) (now : ℤ)
    (queue : String) (id : JobId) :
    Keeps queueOf (.reclaim queues) h (reclaimOne serial now queue id : StoreProgram _) := by
  refine obeys_command.2 ⟨⟨nofun, Hand.only_of_holding_none hnone id, nofun⟩, fun n hn => ?_⟩
  by_cases hone : n = 1
  · have hfits : queue = queueOf id := hn hone
    have hnext : (discipline queueOf (.reclaim queues)).next h (.zrem (.leased queue) id) n =
        { h with holding := some id } := if_pos hone
    rw [hnext, if_neg (not_not.mpr hone)]
    refine obeys_command.2 ⟨Hand.only_of_holding rfl, fun got hgot => ?_⟩
    cases got with
    | none => rfl
    | some held =>
      obtain ⟨hid, hqueue⟩ := hgot
      subst hid
      apply (releaseSerial_keeps_to _).bind
      rintro _ _ rfl
      have honly : Hand.Only ⟨some held.job.id, some (held.job.id, held.token)⟩ held.job.id :=
        Hand.only_of_holding rfl
      refine obeys_command.2 ⟨⟨hqueue, honly, ⟨_, rfl⟩, rfl⟩, fun _ _ => ?_⟩
      refine obeys_command.2 ⟨⟨hfits, honly, ⟨_, rfl⟩⟩, fun _ _ => ?_⟩
      rfl
  · have hnext : (discipline queueOf (.reclaim queues)).next h (.zrem (.leased queue) id) n = h :=
      if_neg hone
    rw [hnext, if_pos hone]
    exact hnone

lemma reclaim_keeps_to {queues : List String} : Keeps queueOf (.reclaim queues) .empty
    (reclaim serial queues : StoreProgram _) := by
  have hmembers : ∀ (now : ℤ) (queue : String) (ids : List JobId) (count : ℕ) (h : Hand),
      h.holding = none → Keeps queueOf (.reclaim queues) h
        (reclaimMembers serial now queue ids count : StoreProgram _) := by
    intro now queue ids
    induction ids with
    | nil =>
      intro _ _ hnone
      exact hnone
    | cons id ids ih =>
      intro count h hnone
      rw [reclaimMembers]
      apply (reclaimOne_keeps_to hnone now queue id).bind
      intro h' got hnone'
      exact ih _ _ hnone'
  have hqueues : ∀ (now : ℤ) (names : List String) (count : ℕ) (h : Hand),
      h.holding = none → Keeps queueOf (.reclaim queues) h
        (reclaimQueues serial now names count : StoreProgram _) := by
    intro now names
    induction names with
    | nil =>
      intro _ _ hnone
      exact hnone
    | cons name names ih =>
      intro count h hnone
      rw [reclaimQueues]
      refine obeys_command.2 ⟨trivial, fun members _ => ?_⟩
      apply (hmembers now name members count h hnone).bind
      intro h' count' hnone'
      exact ih _ _ hnone'
  refine obeys_command.2 ⟨trivial, fun now _ => ?_⟩
  exact hqueues now queues 0 _ rfl

/-! ### Leases -/

section Lease

variable {lease : Lease}

/-- The call read a blob that holds the token of the lease, and has no other job in hand. -/
structure Presents (h : Hand) (lease : Lease) : Prop where
  seen : h.seen = some (lease.jobId, some lease.token)
  only : h.Only lease.jobId

lemma presents_of_token {held : Held} (htoken : held.token = some lease.token) :
    Presents ⟨none, some (lease.jobId, held.token)⟩ lease where
  seen := by rw [htoken]
  only := Hand.only_of_holding_none rfl _

lemma Presents.zrem (hlease : Presents h lease) (call : QueueCall) (key : SetKey) (n : ℕ) :
    Presents (h.after call (.zrem key lease.jobId) n) lease := by
  obtain ⟨hseen, honly⟩ := Hand.after_zrem hlease.only call key n
  exact ⟨hseen.trans hlease.seen, honly⟩

lemma ack_keeps_to : Keeps queueOf (.ack lease) .empty
    (RedisQueue.ack serial lease : StoreProgram _) := by
  refine obeys_command.2 ⟨Hand.only_of_holding_none rfl _, fun got hgot => ?_⟩
  cases got with
  | none => rfl
  | some held =>
    obtain ⟨hid, hqueue⟩ := hgot
    simp only
    by_cases htoken : held.token = some lease.token
    · rw [if_neg (not_not.mpr htoken)]
      have hlease := presents_of_token htoken
      refine obeys_command.2 ⟨⟨nofun, hlease.only, fun _ => ⟨rfl, hlease.seen⟩⟩, fun n _ => ?_⟩
      have hend : ∀ {h' : Hand}, Presents h' lease → Keeps queueOf (.ack lease) h' (do
          releaseSerial serial held
          JobStore.set { held with
            token := none
            job := { held.job with state := .done, lockedUntil := none } }
          JobStore.deleteBlob lease.jobId
          return .ok () : StoreProgram (Except Error Unit)) := by
        intro h' hlease
        apply (releaseSerial_keeps_to held).bind
        rintro _ _ rfl
        refine obeys_command.2 ⟨⟨?_, ?_, ⟨hid, ?_⟩, rfl⟩, fun _ _ => ?_⟩
        · exact hqueue.trans (congrArg queueOf hid.symm)
        · exact hid ▸ hlease.only
        · exact hlease.seen.trans (by rw [← hid])
        refine obeys_command.2 ⟨⟨⟨lease, rfl⟩, hlease.only, rfl, hlease.seen⟩, fun _ _ => ?_⟩
        rfl
      have hlease' := hlease.zrem (.ack lease) (.leased held.job.queue) n
      split
      · exact obeys_command.2 ⟨trivial, fun _ _ => hend hlease'⟩
      · exact hend hlease'
    · rw [if_pos htoken]
      rfl

lemma nack_keeps_to {error : String} {runAt : Option ℤ} :
    Keeps queueOf (.nack lease error runAt) .empty
      (nack serial lease error runAt : StoreProgram _) := by
  refine obeys_command.2 ⟨Hand.only_of_holding_none rfl _, fun got hgot => ?_⟩
  cases got with
  | none => rfl
  | some held =>
    obtain ⟨hid, hqueue⟩ := hgot
    simp only
    by_cases htoken : held.token = some lease.token
    · rw [if_neg (not_not.mpr htoken)]
      have hlease := presents_of_token htoken
      refine obeys_command.2 ⟨⟨nofun, hlease.only, fun _ => ⟨rfl, hlease.seen⟩⟩, fun n _ => ?_⟩
      have hlease' := hlease.zrem (.nack lease error runAt) (.leased held.job.queue) n
      -- the row goes back under its own name, and then into one of its own sets
      have hend : ∀ {h' : Hand} {held' : Held} {key : SetKey} (score : ℤ), Presents h' lease →
          held'.job.id = held.job.id → held'.job.queue = held.job.queue → held'.token = none →
          key.Fits queueOf lease.jobId → Keeps queueOf (.nack lease error runAt) h' (do
            JobStore.set held'
            let _ ← JobStore.zadd key score lease.jobId
            return .ok () : StoreProgram (Except Error Unit)) := by
        intro h' held' key score hlease hid' hqueue' htoken' hfits
        have hname := hid'.trans hid
        refine obeys_command.2 ⟨⟨?_, ?_, ⟨hname, ?_⟩, htoken'⟩, fun _ _ => ?_⟩
        · rw [hqueue', hqueue, hname]
        · rw [hname]
          exact hlease.only
        · rw [hname]
          exact hlease.seen
        refine obeys_command.2 ⟨⟨hfits, hlease.only, rfl, hlease.seen⟩, fun _ _ => ?_⟩
        rfl
      apply (releaseSerial_keeps_to _).bind
      rintro _ _ rfl
      cases runAt with
      | some at' => exact hend _ hlease' rfl rfl rfl hqueue
      | none =>
        refine obeys_command.2 ⟨trivial, fun now _ => ?_⟩
        split
        · exact obeys_command.2 ⟨trivial, fun _ _ => hend _ hlease' rfl rfl rfl trivial⟩
        · exact hend _ hlease' rfl rfl rfl trivial
    · rw [if_pos htoken]
      rfl

lemma heartbeat_keeps_to {extend : ℕ} : Keeps queueOf (.heartbeat lease extend) .empty
    (heartbeat serial lease extend : StoreProgram _) := by
  refine obeys_command.2 ⟨Hand.only_of_holding_none rfl _, fun got hgot => ?_⟩
  cases got with
  | none => rfl
  | some held =>
    obtain ⟨hid, hqueue⟩ := hgot
    simp only
    by_cases htoken : held.token = some lease.token
    · rw [if_neg (not_not.mpr htoken)]
      have hlease := presents_of_token htoken
      refine obeys_command.2 ⟨trivial, fun now _ => ?_⟩
      have hend : Keeps queueOf (.heartbeat lease extend)
          ⟨none, some (lease.jobId, held.token)⟩ (do
            JobStore.set { held with
              job := { held.job with lockedUntil := some (now + fromStd extend) } }
            let _ ← JobStore.zadd (.leased held.job.queue)
              (timestampMillis (now + fromStd extend)) lease.jobId
            return .ok () : StoreProgram (Except Error Unit)) := by
        refine obeys_command.2 ⟨⟨?_, ?_, ⟨hid, ?_⟩, htoken⟩, fun _ _ => ?_⟩
        · exact hqueue.trans (congrArg queueOf hid.symm)
        · exact Hand.only_of_holding_none rfl _
        · exact hlease.seen.trans (by rw [← hid])
        refine obeys_command.2 ⟨⟨hqueue, hlease.only, rfl, hlease.seen⟩, fun _ _ => ?_⟩
        rfl
      split
      · exact obeys_command.2 ⟨trivial, fun _ _ => hend⟩
      · exact hend
    · rw [if_pos htoken]
      rfl

end Lease

/-! ### Cancels -/

lemma cancel_keeps_to {id : JobId} : Keeps queueOf (.cancel id) .empty
    (cancel serial id : StoreProgram _) := by
  refine obeys_command.2 ⟨Hand.only_of_holding_none rfl _, fun got hgot => ?_⟩
  cases got with
  | none => rfl
  | some held =>
    obtain ⟨hid, hqueue⟩ := hgot
    subst hid
    simp only
    split
    · rfl
    · have honly : Hand.Only ⟨none, some (held.job.id, held.token)⟩ held.job.id :=
        Hand.only_of_holding_none rfl _
      refine obeys_command.2 ⟨⟨nofun, honly, nofun⟩, fun n _ => ?_⟩
      have honly' := Hand.after_zrem honly (.cancel held.job.id) (.ready held.job.queue) n
      refine obeys_command.2 ⟨⟨nofun, honly'.2, nofun⟩, fun m _ => ?_⟩
      have honly'' := Hand.after_zrem honly'.2 (.cancel held.job.id) (.leased held.job.queue) m
      apply (releaseSerial_keeps_to _).bind
      rintro _ _ rfl
      refine obeys_command.2 ⟨⟨hqueue, honly''.2, ⟨held.token, ?_⟩, rfl⟩, fun _ _ => ?_⟩
      · exact honly''.1.trans honly'.1
      rfl

end RedisQueue

/-- Every call keeps to its discipline. -/
theorem QueueCall.program_keeps_to (serial : List String) {queueOf : JobId → String}
    {call : QueueCall} (hcall : RedisFleet.Admits queueOf call) :
    call.Keeps queueOf .empty (call.program serial) := by
  cases call with
  | push job => exact RedisQueue.push_keeps_to hcall.2
  | pull => exact RedisQueue.pull_keeps_to.bind fun _ _ h => h
  | ack => exact RedisQueue.ack_keeps_to.bind fun _ _ h => h
  | nack => exact RedisQueue.nack_keeps_to.bind fun _ _ h => h
  | heartbeat => exact RedisQueue.heartbeat_keeps_to.bind fun _ _ h => h
  | reclaim => exact RedisQueue.reclaim_keeps_to.bind fun _ _ h => h
  | cancel => exact RedisQueue.cancel_keeps_to.bind fun _ _ h => h
  | retry => cases hcall
  | discard => cases hcall

namespace RedisFleet

variable {ι : Type} [DecidableEq ι] {s s' : RedisFleet ι} {serial : List String}
  {queueOf : JobId → String} {e : RedisFleetEvent ι}

lemma put_running (s : RedisFleet ι) (i j : ι) (w : Option Worker) :
    (s.put i w).running j = if j = i then w else s.running j :=
  Function.update_apply s.running i w j

section

variable (s : RedisFleet ι) (i : ι) (w : Worker) (c : StoreCmd)
  (next : c.Answer → StoreProgram Unit)

lemma ran_running (j : ι) : (s.ran i w c next).running j =
    if j = i then goOn w.call (w.hand.after w.call c (s.store.run c.exec).1)
      (next (s.store.run c.exec).1)
    else s.running j :=
  Function.update_apply s.running i _ j

lemma ran_store : (s.ran i w c next).store = (s.store.run c.exec).2 := rfl

lemma ran_record : (s.ran i w c next).record = s.record.note w.call c := rfl

end

/-- What a step can be. -/
lemma step_cases (hstep : s.step serial queueOf e = some s') :
    (∃ i call, e = .start i call ∧ s.running i = none ∧ Admits queueOf call ∧
      s' = s.put i (goOn call .empty (call.program serial))) ∨
    (∃ i w c next, e = .run i ∧ s.running i = some w ∧ w.rest = .ask c next ∧
      s' = s.ran i w c next) ∨
    (∃ i, e = .stop i ∧ s' = s.put i none) ∨
    ∃ d, e = .tick d ∧ s' = { s with store := { s.store with now := s.store.now + d } } := by
  cases e with
  | start i call =>
    rw [step] at hstep
    split at hstep
    next hadm => exact .inl ⟨i, call, rfl, hadm.1, hadm.2, (Option.some.inj hstep).symm⟩
    next => cases hstep
  | run i =>
    rw [step] at hstep
    cases hw : s.running i with
    | none =>
      rw [hw] at hstep
      cases hstep
    | some w =>
      rw [hw] at hstep
      obtain ⟨call, hand, rest⟩ := w
      cases rest with
      | done _ => cases hstep
      | ask c next => exact .inr (.inl ⟨i, _, c, next, rfl, hw, rfl, (Option.some.inj hstep).symm⟩)
  | stop i =>
    rw [step] at hstep
    split at hstep
    next => cases hstep
    next => exact .inr (.inr (.inl ⟨i, rfl, (Option.some.inj hstep).symm⟩))
  | tick d => exact .inr (.inr (.inr ⟨d, rfl, (Option.some.inj hstep).symm⟩))

lemma goOn_some {call : QueueCall} {hand : Hand} {rest : StoreProgram Unit} {w : Worker}
    (h : goOn call hand rest = some w) : w = ⟨call, hand, rest⟩ := by
  cases rest with
  | done _ => cases h
  | ask c next => exact (Option.some.inj h).symm

end RedisFleet

end Moso.Jobs
