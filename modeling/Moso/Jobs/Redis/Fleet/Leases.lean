import Moso.Jobs.Redis.Fleet.Delivery
import Mathlib.Data.Fintype.Defs

/-!
# Leases in the fleet

An ack, a nack or a heartbeat reads the blob, compares tokens, and then writes, one command after
the other. What it writes belongs to its own lease as long as the job is not leased to somebody
else after the comparison; and a completed job stays away as long as no other call that read its
blob is under way when an ack deletes it.
-/

namespace Moso.Jobs

namespace QueueCall

/-- The call makes leases. -/
def isPull : QueueCall → Bool
  | pull .. => true
  | _ => false

def isPush : QueueCall → Bool
  | push _ => true
  | _ => false

end QueueCall

namespace RedisFleet

variable {ι : Type} (s : RedisFleet ι)

/-- The call `i` has read the job's blob, and is not through with it. -/
def hasRead (i : ι) (id : JobId) : Bool :=
  (s.running i).any fun w => w.hand.seen.any fun seen => decide (seen.1 = id)

/-- The call `i` presents a lease of the job and is past the comparison of the tokens. -/
def pastCheck (i : ι) (id : JobId) : Bool :=
  (s.running i).any fun w => w.call.lease?.any fun lease =>
    decide (lease.jobId = id ∧ w.hand.seen = some (id, some lease.token))

def pulls (i : ι) : Bool := (s.running i).any fun w => w.call.isPull

/-- No call wrote to a job that was leased once more since the lease it presents, and none but a
push put a completed job on a ready set. -/
def LeasesRespected : Prop := s.record.trespassed = false ∧ s.record.revived = false

/-- A pull leases a job only while no call with an earlier lease of it is past its comparison, and
a blob is deleted only while no other call has read it and is under way. -/
def LeavesAlone (i : ι) : StoreCmd → Prop
  | .set held => s.pulls i → ∀ j, ¬ s.pastCheck j held.job.id
  | .deleteBlob id => ∀ j, j ≠ i → ¬ s.hasRead j id
  | _ => True

/-- The command that is run, if the event runs one, leaves the other calls alone. -/
def Undisturbed : RedisFleetEvent ι → Prop
  | .run i => ∀ c, s.asked i = some c → s.LeavesAlone i c
  | _ => True

section

variable [Fintype ι] [DecidableEq ι]

instance decidableLeavesAlone (i : ι) : ∀ c, Decidable (s.LeavesAlone i c)
  | .set held =>
    inferInstanceAs (Decidable (s.pulls i → ∀ j, ¬ s.pastCheck j held.job.id))
  | .deleteBlob id => inferInstanceAs (Decidable (∀ j, j ≠ i → ¬ s.hasRead j id))
  | .utcNow | .newV4 | .get _ | .zadd .. | .zrangeByScore .. | .members .. | .zrem ..
  | .setIfAbsent .. | .deleteMarker _ | .expire .. | .compareAndDelete .. => isTrue trivial

instance decidableUndisturbed : ∀ e, Decidable (s.Undisturbed e)
  | .run i =>
    match h : s.asked i with
    | none => isTrue fun c hc => by rw [h] at hc; cases hc
    | some c => decidable_of_iff (s.LeavesAlone i c) (by simp [Undisturbed, h])
  | .start .. | .stop _ | .tick _ => isTrue trivial

end

/-- What leases and completions leave behind between two steps. -/
structure Leased (queueOf : JobId → String) : Prop where
  ordered : s.Ordered queueOf
  /-- A token in a blob is that of the last lease. -/
  token : ∀ id held t, s.store.blobs id = some held → held.token = some t →
    s.record.newest id = some t
  /-- So is the token of a call that is past its comparison. -/
  past : ∀ i w lease, s.running i = some w → w.call.lease? = some lease →
    w.hand.seen = some (lease.jobId, some lease.token) →
    s.record.newest lease.jobId = some lease.token
  /-- A completed job has no blob, and no call has one in hand. -/
  completed : ∀ id, s.record.completed id →
    s.store.blobs id = none ∧
      ∀ i w t, s.running i = some w → w.hand.seen ≠ some (id, t)
  respected : s.LeasesRespected

variable {s} {queueOf : JobId → String}

lemma leased_init (now : ℤ) : (init now : RedisFleet ι).Leased queueOf where
  ordered := ordered_init now
  token _ _ _ h := by cases h
  past _ _ _ h := by cases h
  completed _ h := by cases h
  respected := ⟨rfl, rfl⟩

end RedisFleet

/-! ### Entitled calls -/

namespace QueueCall

variable {call : QueueCall} {h : Hand} {id : JobId} {lease : Lease} {queueOf : JobId → String}
  {c : StoreCmd}

lemma lease?_of_isPull (hpull : call.isPull) : call.lease? = none := by
  cases call <;> first | rfl | cases hpull

lemma seen_of_entitles (hid : h.Entitles call id) (hpush : call.isPush = false) :
    ∃ t, h.seen = some (id, t) := by
  cases call with
  | push job => cases hpush
  | ack lease => exact ⟨_, hid.2⟩
  | nack lease error runAt => exact ⟨_, hid.2⟩
  | heartbeat lease extend => exact ⟨_, hid.2⟩
  | _ => exact hid

lemma lease_of_entitles (hid : h.Entitles call id) (hlease : call.lease? = some lease) :
    id = lease.jobId ∧ h.seen = some (id, some lease.token) := by
  cases call <;> cases hlease <;> exact hid

/-- A call with a lease writes only what the lease entitles it to. -/
lemma entitles_of_touches (hc : call.Allowed queueOf h c) (hlease : call.lease? = some lease)
    (hid : c.touches id) : h.Entitles call id := by
  cases c with
  | set held => exact of_decide_eq_true hid ▸ hc.2.2.1
  | deleteBlob other => exact of_decide_eq_true hid ▸ hc.2.2
  | zadd key score other => exact of_decide_eq_true hid ▸ hc.2.2
  | zrem key other =>
    have hentitles := hc.2.2 (by rw [hlease]; rfl)
    exact of_decide_eq_true hid ▸ hentitles
  | _ => cases hid

end QueueCall

namespace RedisFleet

variable {ι : Type} [DecidableEq ι] {queueOf : JobId → String} {s : RedisFleet ι}

section Command

variable {i : ι} {w : Worker} {c : StoreCmd} {next : c.Answer → StoreProgram Unit}

omit [DecidableEq ι] in
/-- What a call has seen after a command, it had seen before or has just read. -/
lemma seen_after {id : JobId} {t : Option Token}
    (hseen : (w.hand.after w.call c (s.store.run c.exec).1).seen = some (id, t)) :
    w.hand.seen = some (id, t) ∨ ∃ held, s.store.blobs id = some held ∧ held.token = t := by
  cases c with
  | get other =>
    have hafter : (w.hand.after w.call (.get other) (s.store.blobs other)).seen = some (id, t) :=
      hseen
    cases hblob : s.store.blobs other with
    | none =>
      rw [hblob] at hafter
      cases hafter
    | some held =>
      rw [hblob] at hafter
      cases hafter
      exact .inr ⟨held, hblob, rfl⟩
  | zrem key other =>
    have hafter : (if (s.store.run (StoreCmd.exec (.zrem key other))).1 = 1 then
        { w.hand with holding := some other } else w.hand).seen = some (id, t) := hseen
    split at hafter <;> exact .inl hafter
  | set held =>
    obtain ⟨call, hand, rest⟩ := w
    cases call with
    | cancel _ => cases hseen
    | _ => exact .inl hseen
  | deleteBlob other => cases hseen
  | zadd key score other => cases hseen
  | _ => exact .inl hseen

/-- Who leased a job last changes when a pull stores its lease, and only then. -/
lemma newest_note (call : QueueCall) (c : StoreCmd) (r : Record) (id : JobId) :
    (r.note call c).newest id = r.newest id ∨
      ∃ held, call.isPull ∧ c = .set held ∧ held.job.id = id ∧
        (r.note call c).newest id = held.token := by
  cases c with
  | set held =>
    cases call with
    | pull queues limit lease worker =>
      by_cases hid : id = held.job.id
      · subst hid
        exact .inr ⟨held, rfl, rfl, rfl, Function.update_self _ _ _⟩
      · exact .inl (Function.update_of_ne hid _ _)
    | _ => exact .inl rfl
  | zadd key score other =>
    cases key with
    | ready queue => cases call <;> exact .inl rfl
    | _ => exact .inl rfl
  | _ => exact .inl rfl

lemma completed_note {call : QueueCall} {r : Record} {id : JobId}
    (hid : (r.note call c).completed id) :
    c = .deleteBlob id ∨
      r.completed id ∧ ∀ held, c = .set held → held.job.id = id → call.isPush = false := by
  cases c with
  | deleteBlob other =>
    by_cases heq : id = other
    · exact .inl (congrArg _ heq.symm)
    · have hold : (r.note call (.deleteBlob other)).completed id = r.completed id :=
        Function.update_of_ne heq _ _
      rw [hold] at hid
      exact .inr ⟨hid, fun _ hset => (by cases hset)⟩
  | set held =>
    cases call with
    | push job =>
      by_cases heq : id = held.job.id
      · subst heq
        have hnew : (r.note (.push job) (.set held)).completed held.job.id = false :=
          Function.update_self _ _ _
        rw [hnew] at hid
        cases hid
      · have hold : (r.note (.push job) (.set held)).completed id = r.completed id :=
          Function.update_of_ne heq _ _
        rw [hold] at hid
        refine .inr ⟨hid, ?_⟩
        rintro _ ⟨⟩ hname
        exact absurd hname.symm heq
    | _ => exact .inr ⟨hid, fun _ _ _ => rfl⟩
  | zadd key score other =>
    cases key with
    | ready queue => cases call <;> exact .inr ⟨hid, fun _ hset => (by cases hset)⟩
    | _ => exact .inr ⟨hid, fun _ hset => (by cases hset)⟩
  | _ => exact .inr ⟨hid, fun _ hset => (by cases hset)⟩

lemma trespassed_note (r : Record) (call : QueueCall) (c : StoreCmd) :
    (r.note call c).trespassed = (r.trespassed || r.oversteps call c) := by
  cases c with
  | set held => cases call <;> rfl
  | zadd key score id =>
    cases key with
    | ready queue => cases call <;> rfl
    | _ => rfl
  | _ => rfl

lemma revived_note {call : QueueCall} {r : Record} (hrevived : (r.note call c).revived) :
    r.revived ∨ ∃ queue score id, c = .zadd (.ready queue) score id ∧ call.isPush = false ∧
      r.completed id := by
  cases c with
  | zadd key score id =>
    cases key with
    | ready queue =>
      cases call with
      | push job => exact .inl hrevived
      | _ =>
        exact ((Bool.or_eq_true _ _).mp hrevived).imp_right fun hid => ⟨_, _, _, rfl, rfl, hid⟩
    | _ => exact .inl hrevived
  | set held => cases call <;> exact .inl hrevived
  | _ => exact .inl hrevived

omit [DecidableEq ι] in
/-- A blob after a command was there before, or was just stored. -/
lemma blobs_exec {id : JobId} {held : Held}
    (hblob : (s.store.run c.exec).2.blobs id = some held) :
    s.store.blobs id = some held ∧ c ≠ .deleteBlob id ∨ c = .set held ∧ held.job.id = id := by
  cases c with
  | set held' =>
    have hput : (s.store.putBlob held').blobs id = some held := hblob
    rw [RedisStore.putBlob_blobs, Function.update_apply] at hput
    split at hput
    next hid =>
      obtain rfl := Option.some.inj hput
      exact .inr ⟨rfl, hid.symm⟩
    next => exact .inl ⟨hput, nofun⟩
  | deleteBlob other =>
    have hdrop : (s.store.dropBlob other).blobs id = some held := hblob
    rw [RedisStore.dropBlob_blobs, Function.update_apply] at hdrop
    split at hdrop
    · cases hdrop
    next hid =>
      refine .inl ⟨hdrop, ?_⟩
      rintro ⟨⟩
      exact hid rfl
  | zadd key score other => exact .inl ⟨hblob, nofun⟩
  | zrem key other => exact .inl ⟨hblob, nofun⟩
  | _ =>
    rw [(s.store.exec_frame _ fun _ => rfl).2] at hblob
    exact .inl ⟨hblob, nofun⟩

end Command

/-! ### One command -/

section Ran

variable {i : ι} {w : Worker} {c : StoreCmd} {next : c.Answer → StoreProgram Unit}

omit [DecidableEq ι] in
lemma Leased.allowed (h : s.Leased queueOf) (hw : s.running i = some w)
    (hrest : w.rest = .ask c next) : w.call.Allowed queueOf w.hand c := by
  have hkeeps := h.ordered.keeps i w hw
  rw [hrest] at hkeeps
  exact hkeeps.1

/-- A token that is left in a blob is that of the last lease. -/
lemma Leased.token_ran (h : s.Leased queueOf) (hw : s.running i = some w)
    (hrest : w.rest = .ask c next) (id : JobId) (held : Held) (t : Token)
    (hblob : (s.ran i w c next).store.blobs id = some held) (htoken : held.token = some t) :
    (s.ran i w c next).record.newest id = some t := by
  have hallowed := h.allowed hw hrest
  rw [ran_record]
  rw [ran_store] at hblob
  rcases newest_note w.call c s.record id with hsame | ⟨held', -, rfl, rfl, hnew⟩
  · rcases blobs_exec hblob with ⟨hold, -⟩ | ⟨rfl, rfl⟩
    · rw [hsame]
      exact h.token id held t hold htoken
    · obtain ⟨-, -, hentitles, hleaves⟩ := hallowed
      obtain ⟨call, hand, rest⟩ := w
      cases call with
      | pull => exact (Function.update_self _ _ _).trans htoken
      | heartbeat lease extend =>
        obtain ⟨hid, hseen⟩ := hentitles
        have hlast := h.past i _ lease hw rfl (hid ▸ hseen)
        rw [hsame, hid, hlast, ← htoken]
        exact hleaves.symm
      | _ =>
        have hnone : held.token = none := hleaves
        rw [hnone] at htoken
        cases htoken
  · have hput : (s.store.putBlob held').blobs held'.job.id = some held := hblob
    rw [RedisStore.putBlob_blobs, Function.update_self] at hput
    obtain rfl := Option.some.inj hput
    exact hnew.trans htoken

/-- A call that is past its comparison still has the last lease of its job. -/
lemma Leased.past_ran (h : s.Leased queueOf) (hw : s.running i = some w)
    (hrest : w.rest = .ask c next) (halone : s.LeavesAlone i c) (j : ι) (v : Worker)
    (lease : Lease) (hv : (s.ran i w c next).running j = some v)
    (hlease : v.call.lease? = some lease)
    (hseen : v.hand.seen = some (lease.jobId, some lease.token)) :
    (s.ran i w c next).record.newest lease.jobId = some lease.token := by
  have hlast : s.record.newest lease.jobId = some lease.token := by
    rw [ran_running] at hv
    split at hv
    · obtain rfl := goOn_some hv
      rcases seen_after hseen with hold | ⟨held, hblob, htoken⟩
      · exact h.past i w lease hw hlease hold
      · exact h.token _ held _ hblob htoken
    · exact h.past j v lease hv hlease hseen
  rw [ran_record]
  rcases newest_note w.call c s.record lease.jobId with
    hsame | ⟨held, hpull, rfl, hid, -⟩
  · exact hsame.trans hlast
  · -- a new lease is made while nobody is past the comparison
    have hpulls : s.pulls i := by
      rw [pulls, hw]
      exact hpull
    apply absurd _ (halone hpulls j)
    rw [ran_running] at hv
    split at hv
    · obtain rfl := goOn_some hv
      rw [QueueCall.lease?_of_isPull hpull] at hlease
      cases hlease
    · rw [pastCheck, hv]
      simp [hlease, hid, hseen]

/-- A completed job has no blob, and nobody has one in hand. -/
lemma Leased.completed_ran (h : s.Leased queueOf) (hw : s.running i = some w)
    (hrest : w.rest = .ask c next) (halone : s.LeavesAlone i c) (id : JobId)
    (hid : (s.ran i w c next).record.completed id) :
    (s.ran i w c next).store.blobs id = none ∧
      ∀ j v t, (s.ran i w c next).running j = some v → v.hand.seen ≠ some (id, t) := by
  have hallowed := h.allowed hw hrest
  rw [ran_record] at hid
  rw [ran_store]
  rcases completed_note hid with rfl | ⟨hold, hpush⟩
  · refine ⟨Function.update_self _ _ _, ?_⟩
    intro j v t hv hseen
    rw [ran_running] at hv
    split at hv
    · obtain rfl := goOn_some hv
      cases hseen
    next hj =>
      apply halone j hj
      rw [hasRead, hv]
      simp [hseen]
  · obtain ⟨hnone, hnobody⟩ := h.completed id hold
    constructor
    · rw [Option.eq_none_iff_forall_not_mem]
      intro held hheld
      rcases blobs_exec hheld with ⟨hblob, -⟩ | ⟨rfl, rfl⟩
      · rw [hnone] at hblob
        cases hblob
      · obtain ⟨t, hseen⟩ := QueueCall.seen_of_entitles hallowed.2.2.1 (hpush held rfl rfl)
        exact hnobody i w t hw hseen
    · intro j v t hv hseen
      rw [ran_running] at hv
      split at hv
      · obtain rfl := goOn_some hv
        rcases seen_after hseen with hbefore | ⟨held, hblob, -⟩
        · exact hnobody i w t hw hbefore
        · rw [hnone] at hblob
          cases hblob
      · exact hnobody j v t hv hseen

/-- The command is within the lease of its call, and puts no completed job back. -/
lemma Leased.respected_ran (h : s.Leased queueOf) (hw : s.running i = some w)
    (hrest : w.rest = .ask c next) : (s.ran i w c next).LeasesRespected := by
  have hallowed := h.allowed hw hrest
  constructor
  · rw [ran_record, trespassed_note, h.respected.1, Bool.false_or, Record.oversteps]
    cases hlease : w.call.lease? with
    | none => rfl
    | some lease =>
      rw [Option.any_some, Bool.and_eq_false_imp]
      intro htouches
      have hentitles := QueueCall.entitles_of_touches hallowed hlease htouches
      obtain ⟨-, hseen⟩ := QueueCall.lease_of_entitles hentitles hlease
      rw [h.past i w lease hw hlease hseen]
      simp
  · rw [ran_record, Bool.eq_false_iff]
    intro hrevived
    rcases revived_note hrevived with hbefore | ⟨queue, score, id, rfl, hpush, hid⟩
    · rw [h.respected.2] at hbefore
      cases hbefore
    · obtain ⟨t, hseen⟩ := QueueCall.seen_of_entitles hallowed.2.2 hpush
      exact (h.completed id hid).2 i w t hw hseen

end Ran

/-! ### Runs -/

/-- A step that leaves the other calls alone keeps the leases in order. -/
lemma Leased.step {serial : List String} {s' : RedisFleet ι} {e : RedisFleetEvent ι}
    (h : s.Leased queueOf) (hcalm : s.Undisturbed e)
    (hstep : s.step serial queueOf e = some s') : s'.Leased queueOf := by
  have hordered := h.ordered.step hstep
  rcases step_cases hstep with ⟨i, call, -, -, -, rfl⟩ | ⟨i, w, c, next, rfl, hw, hrest, rfl⟩ |
    ⟨i, -, rfl⟩ | ⟨d, -, rfl⟩
  · refine ⟨hordered, h.token, ?_, ?_, h.respected⟩
    · intro j v lease hv hlease hseen
      rw [put_running] at hv
      split at hv
      · obtain rfl := goOn_some hv
        cases hseen
      · exact h.past j v lease hv hlease hseen
    · intro id hid
      refine ⟨(h.completed id hid).1, ?_⟩
      intro j v t hv
      rw [put_running] at hv
      split at hv
      · obtain rfl := goOn_some hv
        intro hseen
        cases hseen
      · exact (h.completed id hid).2 j v t hv
  · have halone : s.LeavesAlone i c := by
      apply hcalm c
      rw [asked, hw, Option.bind_some, hrest]
      rfl
    exact ⟨hordered, h.token_ran hw hrest, h.past_ran hw hrest halone,
      h.completed_ran hw hrest halone, h.respected_ran hw hrest⟩
  · refine ⟨hordered, h.token, ?_, ?_, h.respected⟩
    · intro j v lease hv hlease hseen
      rw [put_running] at hv
      split at hv
      · cases hv
      · exact h.past j v lease hv hlease hseen
    · intro id hid
      refine ⟨(h.completed id hid).1, ?_⟩
      intro j v t hv
      rw [put_running] at hv
      split at hv
      · cases hv
      · exact (h.completed id hid).2 j v t hv
  · exact ⟨hordered, h.token, h.past, h.completed, h.respected⟩

/-- **A reclaimed lease cannot touch the job.** In every run in which jobs are leased and blobs
deleted only while no other call is in the way, no call whose lease was superseded ever writes to
its job, and no completed job is put back. -/
theorem leasesRespected_of_undisturbed (serial : List String) (queueOf : JobId → String) (now : ℤ)
    (es : List (RedisFleetEvent ι))
    (hcalm : Machine.Meets (RedisFleet.step serial queueOf) Undisturbed (init now) es) :
    Machine.Always (RedisFleet.step serial queueOf) LeasesRespected (init now) es := by
  have hinv : Machine.Always (RedisFleet.step serial queueOf) (fun s => s.Leased queueOf)
      (init now) es := by
    apply Machine.always_of_meets (I := fun s => s.Leased queueOf) _ (leased_init now) hcalm
    intro s e s' h hcalm hstep
    exact h.step hcalm hstep
  apply hinv.mono
  intro s h
  exact h.respected

/-- The first worker pulls the job with a lease of a second. -/
def pulled : List (RedisFleetEvent Bool) :=
  [.start false (.push newsletter), .run false, .run false,
    .start false (.pull ["default"] 1 1000000000 "worker-1"), .run false, .run false, .run false,
    .run false, .run false, .run false, .run false, .tick 2000000000]

/-- The job is reclaimed, and a second worker pulls it. -/
def pulledAgain : List (RedisFleetEvent Bool) :=
  [.start true (.reclaim ["default"]), .run true, .run true, .run true, .run true, .run true,
    .run true, .start true (.pull ["default"] 1 60000000000 "worker-2"), .run true, .run true,
    .run true, .run true, .run true, .run true, .run true]

def firstLease : Lease := { jobId := 1, token := 0, expiresAt := 1000000000 }

/-- The first worker acks after all this: its token is not in the blob any more. -/
theorem leasesRespected_of_undisturbed_late_ack :
    Machine.Always (RedisFleet.step [] fun _ => "default") LeasesRespected (init 0)
      (pulled ++ pulledAgain ++ [.start false (.ack firstLease), .run false]) :=
  leasesRespected_of_undisturbed _ _ _ _ (by decide)

/-- The first worker's ack compares the tokens before the job is reclaimed and goes on after it was
leased once more: it takes the job out of the leased set and deletes the blob, while the second
worker runs it. -/
theorem leasesRespected_fails_after_slow_ack :
    ∃ s s', Machine.exec (RedisFleet.step [] fun _ => "default") (init 0)
        (pulled ++ [.start false (.ack firstLease), .run false] ++ pulledAgain) = some s ∧
      (s.store.blobs 1).map (fun held => held.token) = some (some 1) ∧
      (s.store.sets (.leased "default")).items = [(62000, 1)] ∧
      Machine.exec (RedisFleet.step [] fun _ => "default") s [.run false, .run false, .run false] =
        some s' ∧
      s'.store.blobs 1 = none ∧ (s'.store.sets (.leased "default")).items = [] ∧
      ¬ s'.LeasesRespected := by
  refine ⟨_, _, rfl, rfl, rfl, rfl, rfl, rfl, ?_⟩
  intro h
  cases h.1

end RedisFleet

end Moso.Jobs
