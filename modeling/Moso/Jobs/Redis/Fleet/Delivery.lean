import Moso.Jobs.Redis.Fleet.Discipline
import Moso.Jobs.Redis.Index

/-!
# What the fleet still owes

A job that a push stored is in the ready or the leased set of its queue, or in the hands of a call
that took it out of one of them. So it is lost only when such a call ends without putting it back:
because it stops, or because it does not find the blob.
-/

namespace Moso.Jobs

open Program (Obeys)

/-! ### What commands do to the sets and the blobs -/

namespace RedisStore

variable (s : RedisStore)

/-- A command of the markers, the clock or the tokens leaves the sets and the blobs alone; so does
one that reads. -/
lemma exec_frame (c : StoreCmd) (hc : ∀ id, c.touches id = false) :
    (s.run c.exec).2.sets = s.sets ∧ (s.run c.exec).2.blobs = s.blobs := by
  cases c with
  | set held => simp [StoreCmd.touches] at hc
  | deleteBlob id => simp [StoreCmd.touches] at hc
  | zadd key score id => simp [StoreCmd.touches] at hc
  | zrem key id => simp [StoreCmd.touches] at hc
  | setIfAbsent key id ttl =>
    cases hm : s.marker key with
    | none =>
      rw [StoreCmd.exec, run_setIfAbsent_of_none s hm]
      exact ⟨rfl, rfl⟩
    | some holder =>
      rw [StoreCmd.exec, run_setIfAbsent_of_some hm]
      exact ⟨rfl, rfl⟩
  | expire key ttl =>
    cases hm : s.marker key with
    | none =>
      have hrun : s.run (StoreCmd.exec (.expire key ttl)) = (false, s) := by
        simp only [StoreCmd.exec, run, JobStore.expire, hm]
      rw [hrun]
      exact ⟨rfl, rfl⟩
    | some holder =>
      have hrun : s.run (StoreCmd.exec (.expire key ttl)) =
          (true, s.putMarker key (some (holder, s.now + ttl))) := by
        simp only [StoreCmd.exec, run, JobStore.expire, hm]
      rw [hrun]
      exact ⟨rfl, rfl⟩
  | compareAndDelete key id =>
    by_cases hm : s.marker key = some id
    · have hrun : s.run (StoreCmd.exec (.compareAndDelete key id)) =
          (true, s.putMarker key none) := by
        simp only [StoreCmd.exec, run, JobStore.compareAndDelete, if_pos hm]
      rw [hrun]
      exact ⟨rfl, rfl⟩
    · have hrun : s.run (StoreCmd.exec (.compareAndDelete key id)) = (false, s) := by
        simp only [StoreCmd.exec, run, JobStore.compareAndDelete, if_neg hm]
      rw [hrun]
      exact ⟨rfl, rfl⟩
  | _ => exact ⟨rfl, rfl⟩

/-- A command that does not touch a job leaves its blob and its memberships as they were. -/
lemma exec_untouched (c : StoreCmd) {id : JobId} (hid : c.touches id = false) :
    (s.run c.exec).2.blobs id = s.blobs id ∧
      ∀ key, (s.run c.exec).2.Has key id ↔ s.Has key id := by
  have hframe (hc : ∀ other, c.touches other = false) :
      (s.run c.exec).2.blobs id = s.blobs id ∧
        ∀ key, (s.run c.exec).2.Has key id ↔ s.Has key id := by
    obtain ⟨hsets, hblobs⟩ := s.exec_frame c hc
    exact ⟨congrFun hblobs id, fun key => by rw [Has, hsets, Has]⟩
  cases c with
  | set held =>
    have hne : id ≠ held.job.id := fun heq => of_decide_eq_false hid heq.symm
    exact ⟨Function.update_of_ne hne _ _, fun _ => Iff.rfl⟩
  | deleteBlob other =>
    have hne : id ≠ other := fun heq => of_decide_eq_false hid heq.symm
    exact ⟨Function.update_of_ne hne _ _, fun _ => Iff.rfl⟩
  | zadd key score other =>
    have hne : id ≠ other := fun heq => of_decide_eq_false hid heq.symm
    refine ⟨rfl, fun key' => ?_⟩
    change (s.added key score other).Has key' id ↔ s.Has key' id
    simp [hne]
  | zrem key other =>
    have hne : id ≠ other := fun heq => of_decide_eq_false hid heq.symm
    refine ⟨rfl, fun key' => ?_⟩
    change (s.removed key other).Has key' id ↔ s.Has key' id
    simp [hne]
  | _ => exact hframe fun _ => rfl

end RedisStore

namespace RedisFleet

variable {ι : Type} [DecidableEq ι] (queueOf : JobId → String) (s : RedisFleet ι)

/-- The call that runs as `i` holds the job. -/
def Holds (i : ι) (id : JobId) : Prop := ∃ w, s.running i = some w ∧ w.hand.holding = some id

/-- The job is in the ready or the leased set of its queue. -/
def Placed (id : JobId) : Prop :=
  s.store.Has (.ready (queueOf id)) id ∨ s.store.Has (.leased (queueOf id)) id

/-- Every job that was pushed, and was not acked, buried or cancelled since, is in a set of its
queue, unless a running call holds it. -/
def NothingLost : Prop :=
  ∀ id, s.record.live id → (∀ i, ¬ s.Holds i id) → s.Placed queueOf id

/-- The command that the call `i` asks next. -/
def asked (i : ι) : Option StoreCmd := (s.running i).bind fun w => w.rest.asked

/-- The call `i` holds the job and, with this event, lets go of it: it stops, or it asks for a
blob that is not there. -/
def Drops (i : ι) (id : JobId) : RedisFleetEvent ι → Prop
  | .stop j => j = i ∧ s.Holds i id
  | .run j => j = i ∧ s.Holds i id ∧ s.asked i = some (.get id) ∧ s.store.blobs id = none
  | _ => False

/-- A job that is let go of is no longer owed, or it is in a set of its queue or in other hands as
well. -/
def DropsNone (e : RedisFleetEvent ι) : Prop :=
  ∀ i id, s.Drops i id e → s.record.live id →
    s.Placed queueOf id ∨ ∃ j, j ≠ i ∧ s.Holds j id

/-! ### The invariant -/

/-- Calls keep to their discipline, members are in sets they fit in, and blobs are filed under
their own names. -/
structure Ordered : Prop where
  keeps : ∀ i w, s.running i = some w → w.call.Keeps queueOf w.hand w.rest
  fits : ∀ key id, s.store.Has key id → key.Fits queueOf id
  filed : ∀ id held, s.store.blobs id = some held →
    held.job.id = id ∧ held.job.queue = queueOf id

variable {queueOf s}

omit [DecidableEq ι] in
lemma ordered_init (now : ℤ) : (init now : RedisFleet ι).Ordered queueOf where
  keeps _ _ h := by cases h
  fits key id h := by
    obtain ⟨score, hmem⟩ := h
    exact absurd hmem (Kv.ZSet.not_mem_empty _)
  filed _ _ h := by cases h

omit [DecidableEq ι] in
/-- What the store answers is what a call may count on. -/
lemma Ordered.expected (h : s.Ordered queueOf) (c : StoreCmd) :
    QueueCall.Expected queueOf c (s.store.run c.exec).1 := by
  cases c with
  | zrem key id =>
    intro hone
    exact h.fits key id (Kv.ZSet.exists_mem_of_zrem hone)
  | get id =>
    change QueueCall.Expected queueOf (.get id) (s.store.blobs id)
    cases hblob : s.store.blobs id with
    | none => trivial
    | some held => exact h.filed id held hblob
  | _ => trivial

section Exec

variable {call : QueueCall} {hand : Hand} {c : StoreCmd}

omit [DecidableEq ι] in
lemma Ordered.fits_exec (h : s.Ordered queueOf) (hc : call.Allowed queueOf hand c)
    (key : SetKey) (id : JobId) (hhas : (s.store.run c.exec).2.Has key id) :
    key.Fits queueOf id := by
  cases c with
  | zadd key' score other =>
    have hadded : (s.store.added key' score other).Has key id := hhas
    rw [RedisStore.has_added] at hadded
    rcases hadded with ⟨rfl, rfl⟩ | hadded
    · exact hc.1
    · exact h.fits key id hadded
  | zrem key' other =>
    have hremoved : (s.store.removed key' other).Has key id := hhas
    exact h.fits key id (RedisStore.has_removed.mp hremoved).1
  | set held => exact h.fits key id hhas
  | deleteBlob other => exact h.fits key id hhas
  | _ =>
    rw [RedisStore.Has, (s.store.exec_frame _ fun _ => rfl).1] at hhas
    exact h.fits key id hhas

omit [DecidableEq ι] in
lemma Ordered.filed_exec (h : s.Ordered queueOf) (hc : call.Allowed queueOf hand c)
    (id : JobId) (held : Held) (hblob : (s.store.run c.exec).2.blobs id = some held) :
    held.job.id = id ∧ held.job.queue = queueOf id := by
  cases c with
  | set held' =>
    have hput : (s.store.putBlob held').blobs id = some held := hblob
    rw [RedisStore.putBlob_blobs, Function.update_apply] at hput
    split at hput
    next hid =>
      obtain rfl := Option.some.inj hput
      subst hid
      exact ⟨rfl, hc.1⟩
    next => exact h.filed id held hput
  | deleteBlob other =>
    have hdrop : (s.store.dropBlob other).blobs id = some held := hblob
    rw [RedisStore.dropBlob_blobs, Function.update_apply] at hdrop
    split at hdrop
    · cases hdrop
    · exact h.filed id held hdrop
  | zadd key score other => exact h.filed id held hblob
  | zrem key other => exact h.filed id held hblob
  | _ =>
    rw [(s.store.exec_frame _ fun _ => rfl).2] at hblob
    exact h.filed id held hblob

end Exec

/-- A step leaves all in order. -/
lemma Ordered.step {serial : List String} {s' : RedisFleet ι} {e : RedisFleetEvent ι}
    (h : s.Ordered queueOf) (hstep : s.step serial queueOf e = some s') : s'.Ordered queueOf := by
  rcases step_cases hstep with ⟨i, call, -, -, hadm, rfl⟩ | ⟨i, w, c, next, -, hw, hrest, rfl⟩ |
    ⟨i, -, rfl⟩ | ⟨d, -, rfl⟩
  · refine ⟨?_, h.fits, h.filed⟩
    intro j v hv
    rw [put_running] at hv
    split at hv
    · obtain rfl := goOn_some hv
      exact QueueCall.program_keeps_to serial hadm
    · exact h.keeps j v hv
  · have hkeeps := h.keeps i w hw
    rw [hrest] at hkeeps
    obtain ⟨hallowed, hnext⟩ := hkeeps
    refine ⟨?_, ?_, ?_⟩
    · intro j v hv
      rw [ran_running] at hv
      split at hv
      · obtain rfl := goOn_some hv
        exact hnext _ (h.expected c)
      · exact h.keeps j v hv
    · exact h.fits_exec hallowed
    · exact h.filed_exec hallowed
  · refine ⟨?_, h.fits, h.filed⟩
    intro j v hv
    rw [put_running] at hv
    split at hv
    · cases hv
    · exact h.keeps j v hv
  · exact ⟨h.keeps, h.fits, h.filed⟩

/-! ### One command -/

section Command

variable {i : ι} {w : Worker} {c : StoreCmd} {next : c.Answer → StoreProgram Unit}

/-- Who holds a job after a command: a call that returned holds nothing. -/
lemma Ordered.holds_ran (h : s.Ordered queueOf) (hw : s.running i = some w)
    (hrest : w.rest = .ask c next) (j : ι) (id : JobId) :
    (s.ran i w c next).Holds j id ↔
      if j = i then (w.hand.after w.call c (s.store.run c.exec).1).holding = some id
      else s.Holds j id := by
  have hkeeps := h.keeps i w hw
  rw [hrest] at hkeeps
  have hnext := hkeeps.2 _ (h.expected c)
  rw [Holds, ran_running]
  split
  · constructor
    · rintro ⟨v, hv, hholding⟩
      obtain rfl := goOn_some hv
      exact hholding
    · intro hholding
      cases hgo : next (s.store.run c.exec).1 with
      | done u =>
        rw [hgo] at hnext
        rw [show (w.hand.after w.call c (s.store.run c.exec).1).holding = none from hnext]
          at hholding
        cases hholding
      | ask c' next' => exact ⟨_, rfl, hholding⟩
  · rfl

/-- A command about one job leaves the others with whoever had them. -/
lemma Ordered.not_holds (h : s.Ordered queueOf) (hw : s.running i = some w)
    (hrest : w.rest = .ask c next) {id other : JobId} (honly : w.hand.Only other)
    (hne : id ≠ other) (hfree : ∀ j, ¬ (s.ran i w c next).Holds j id) (j : ι) :
    ¬ s.Holds j id := by
  intro hholds
  by_cases hj : j = i
  · subst hj
    obtain ⟨v, hv, hholding⟩ := hholds
    obtain rfl := Option.some.inj (hw.symm.trans hv)
    exact hne (honly id hholding)
  · apply hfree j
    rw [h.holds_ran hw hrest, if_neg hj]
    exact hholds

/-- A command that leaves the hand, the sets and what is owed alone loses nothing. -/
lemma Ordered.nothingLost_of_same (h : s.Ordered queueOf) (hlost : s.NothingLost queueOf)
    (hw : s.running i = some w) (hrest : w.rest = .ask c next)
    (hhand : (w.hand.after w.call c (s.store.run c.exec).1).holding = w.hand.holding)
    (hsets : (s.store.run c.exec).2.sets = s.store.sets)
    (hlive : (s.record.note w.call c).live = s.record.live) :
    (s.ran i w c next).NothingLost queueOf := by
  intro id hid hfree
  rw [ran_record, hlive] at hid
  have hplaced : s.Placed queueOf id := by
    apply hlost id hid
    intro j hholds
    apply hfree j
    rw [h.holds_ran hw hrest]
    split
    next hj =>
      subst hj
      obtain ⟨v, hv, hholding⟩ := hholds
      obtain rfl := Option.some.inj (hw.symm.trans hv)
      exact hhand.trans hholding
    next => exact hholds
  rw [Placed, ran_store, RedisStore.Has, RedisStore.Has, hsets]
  exact hplaced

/-- What a command about one job must do: have it settled in a set of its queue, or in hand, or no
longer owed. About the others it changes nothing. -/
lemma Ordered.nothingLost_of_one (h : s.Ordered queueOf) (hlost : s.NothingLost queueOf)
    (hw : s.running i = some w) (hrest : w.rest = .ask c next) {other : JobId}
    (honly : w.hand.Only other)
    (hothers : ∀ id, id ≠ other → c.touches id = false)
    (hlive : ∀ id, id ≠ other → (s.record.note w.call c).live id = s.record.live id)
    (hone : (s.record.note w.call c).live other →
      (∀ j, ¬ (s.ran i w c next).Holds j other) → (s.ran i w c next).Placed queueOf other) :
    (s.ran i w c next).NothingLost queueOf := by
  intro id hid hfree
  by_cases heq : id = other
  · subst heq
    exact hone hid hfree
  · rw [ran_record, hlive id heq] at hid
    have hplaced := hlost id hid (h.not_holds hw hrest honly heq hfree)
    have hkept := (s.store.exec_untouched c (hothers id heq)).2
    exact hplaced.imp (hkept _).mpr (hkept _).mpr

/-- A command loses nothing, unless the call drops what it has. -/
lemma Ordered.nothingLost_ran (h : s.Ordered queueOf) (hlost : s.NothingLost queueOf)
    (hw : s.running i = some w) (hrest : w.rest = .ask c next)
    (hdrops : s.DropsNone queueOf (.run i)) : (s.ran i w c next).NothingLost queueOf := by
  have hkeeps := h.keeps i w hw
  rw [hrest] at hkeeps
  have hallowed : w.call.Allowed queueOf w.hand c := hkeeps.1
  cases c with
  | get other =>
    by_cases hblob : s.store.blobs other = none
    · apply h.nothingLost_of_one hlost hw hrest hallowed (fun _ _ => rfl) fun _ _ => rfl
      intro hlive hfree
      have hothers : ∀ j, j ≠ i → ¬ s.Holds j other := by
        intro j hj hholds
        apply hfree j
        rw [h.holds_ran hw hrest, if_neg hj]
        exact hholds
      by_cases hholds : s.Holds i other
      · have hasked : s.asked i = some (.get other) := by
          rw [asked, hw, Option.bind_some, hrest]
          rfl
        rcases hdrops i other ⟨rfl, hholds, hasked, hblob⟩ hlive with hplaced | ⟨j, hj, hholds'⟩
        · exact hplaced
        · exact absurd hholds' (hothers j hj)
      · apply hlost other hlive
        intro j
        by_cases hj : j = i
        · exact hj ▸ hholds
        · exact hothers j hj
    · obtain ⟨held, hheld⟩ := Option.ne_none_iff_exists'.mp hblob
      have hanswer : (s.store.run (StoreCmd.exec (.get other))).1 = some held := hheld
      apply h.nothingLost_of_same hlost hw hrest _ rfl rfl
      rw [hanswer]
      rfl
  | set held =>
    obtain ⟨call, hand, rest⟩ := w
    cases call with
    | cancel id =>
      -- a cancelled job is no longer owed
      apply h.nothingLost_of_one hlost hw hrest hallowed.2.1
      · intro other hne
        exact decide_eq_false hne.symm
      · intro other hne
        exact Function.update_of_ne hne _ _
      · intro hlive
        have hgone : (s.record.note (.cancel id) (.set held)).live held.job.id = false :=
          Function.update_self _ _ _
        rw [hgone] at hlive
        cases hlive
    | _ => exact h.nothingLost_of_same hlost hw hrest rfl rfl rfl
  | deleteBlob other =>
    apply h.nothingLost_of_one hlost hw hrest hallowed.2.1
    · intro id hne
      exact decide_eq_false hne.symm
    · intro id hne
      exact Function.update_of_ne hne _ _
    · intro hlive
      have hgone : (s.record.note w.call (.deleteBlob other)).live other = false :=
        Function.update_self _ _ _
      rw [hgone] at hlive
      cases hlive
  | zadd key score other =>
    obtain ⟨hfits, honly, -⟩ := hallowed
    have hstore : (s.ran i w (.zadd key score other) next).store = s.store.added key score other :=
      rfl
    apply h.nothingLost_of_one hlost hw hrest honly
    · intro id hne
      exact decide_eq_false hne.symm
    · intro id hne
      obtain ⟨call, hand, rest⟩ := w
      cases key with
      | ready queue => cases call <;> first | rfl | exact Function.update_of_ne hne _ _
      | leased queue => rfl
      | dead => exact Function.update_of_ne hne _ _
    · intro hlive _
      rw [Placed, hstore, RedisStore.has_added, RedisStore.has_added]
      cases key with
      | ready queue => exact .inl (.inl ⟨congrArg _ hfits.symm, rfl⟩)
      | leased queue => exact .inr (.inl ⟨congrArg _ hfits.symm, rfl⟩)
      | dead =>
        have hgone : (s.record.note w.call (.zadd .dead score other)).live other = false :=
          Function.update_self _ _ _
        rw [hgone] at hlive
        cases hlive
  | zrem key other =>
    obtain ⟨hdead, honly, -⟩ := hallowed
    have hstore : (s.ran i w (.zrem key other) next).store = s.store.removed key other := rfl
    apply h.nothingLost_of_one hlost hw hrest honly
    · intro id hne
      exact decide_eq_false hne.symm
    · intro _ _
      rfl
    intro hlive hfree
    by_cases hhas : s.store.Has key other
    · -- the member that was removed is in hand
      apply absurd _ (hfree i)
      have hafter : w.hand.after w.call (.zrem key other)
          (s.store.run (StoreCmd.exec (.zrem key other))).1 =
            { w.hand with holding := some other } := if_pos (RedisQueue.zrem_eq_one hhas)
      rw [h.holds_ran hw hrest, if_pos rfl, hafter]
    · have hafter : w.hand.after w.call (.zrem key other)
          (s.store.run (StoreCmd.exec (.zrem key other))).1 = w.hand :=
        if_neg (RedisQueue.zrem_ne_one hhas)
      have hplaced : s.Placed queueOf other := by
        apply hlost other hlive
        intro j hholds
        apply hfree j
        rw [h.holds_ran hw hrest, hafter]
        split
        next hj =>
          subst hj
          obtain ⟨v, hv, hholding⟩ := hholds
          obtain rfl := Option.some.inj (hw.symm.trans hv)
          exact hholding
        next => exact hholds
      have hkept : ∀ key', s.store.Has key' other → (s.store.removed key other).Has key' other := by
        intro key' hhas'
        refine RedisStore.has_removed.mpr ⟨hhas', ?_⟩
        rintro ⟨rfl, -⟩
        exact hhas hhas'
      exact hplaced.imp (hkept _) (hkept _)
  | _ =>
    refine h.nothingLost_of_same hlost hw hrest rfl ?_ rfl
    exact (s.store.exec_frame _ fun _ => rfl).1

end Command

/-! ### Runs -/

lemma holds_put_none (i j : ι) (id : JobId) :
    (s.put i none).Holds j id ↔ j ≠ i ∧ s.Holds j id := by
  rw [Holds, put_running]
  split
  next hj =>
    refine ⟨?_, fun h => absurd hj h.1⟩
    rintro ⟨w, hw, -⟩
    cases hw
  next hj => exact ⟨fun h => ⟨hj, h⟩, fun h => h.2⟩

/-- A step loses nothing, unless a call drops what it holds. -/
lemma NothingLost.step {serial : List String} {s' : RedisFleet ι} {e : RedisFleetEvent ι}
    (h : s.Ordered queueOf) (hlost : s.NothingLost queueOf) (hdrops : s.DropsNone queueOf e)
    (hstep : s.step serial queueOf e = some s') : s'.NothingLost queueOf := by
  rcases step_cases hstep with ⟨i, call, -, hidle, -, rfl⟩ | ⟨i, w, c, next, rfl, hw, hrest, rfl⟩ |
    ⟨i, rfl, rfl⟩ | ⟨d, -, rfl⟩
  · intro id hlive hfree
    apply hlost id hlive
    rintro j ⟨w, hw, hholding⟩
    apply hfree j
    refine ⟨w, ?_, hholding⟩
    rw [put_running, if_neg, hw]
    rintro rfl
    rw [hidle] at hw
    cases hw
  · exact h.nothingLost_ran hlost hw hrest hdrops
  · intro id hlive hfree
    have hothers : ∀ j, j ≠ i → ¬ s.Holds j id :=
      fun j hj hholds => hfree j ((holds_put_none i j id).mpr ⟨hj, hholds⟩)
    by_cases hholds : s.Holds i id
    · rcases hdrops i id ⟨rfl, hholds⟩ hlive with hplaced | ⟨j, hj, hholds'⟩
      · exact hplaced
      · exact absurd hholds' (hothers j hj)
    · apply hlost id hlive
      intro j
      by_cases hj : j = i
      · exact hj ▸ hholds
      · exact hothers j hj
  · exact hlost

/-- A call that drops a job which is still owed, and which nobody else has, loses it. -/
lemma not_nothingLost_of_drops {serial : List String} {s' : RedisFleet ι} {e : RedisFleetEvent ι}
    (h : s.Ordered queueOf) (hdrops : ¬ s.DropsNone queueOf e)
    (hstep : s.step serial queueOf e = some s') : ¬ s'.NothingLost queueOf := by
  intro hlost
  apply hdrops
  intro i id hdrop hlive
  by_contra hnot
  obtain ⟨hplaced, hothers⟩ := not_or.mp hnot
  have hothers : ∀ j, j ≠ i → ¬ s.Holds j id := fun j hj hholds => hothers ⟨j, hj, hholds⟩
  rcases step_cases hstep with ⟨_, _, rfl, -⟩ | ⟨k, w, c, next, rfl, hw, hrest, rfl⟩ |
    ⟨k, rfl, rfl⟩ | ⟨d, rfl, -⟩
  · exact hdrop
  · obtain ⟨rfl, hholds, hasked, hblob⟩ := hdrop
    rw [asked, hw, Option.bind_some, hrest] at hasked
    obtain rfl : c = .get id := Option.some.inj hasked
    refine hplaced (hlost id hlive fun j => ?_)
    rw [h.holds_ran hw hrest]
    split
    · have hanswer : (s.store.run (StoreCmd.exec (.get id))).1 = none := hblob
      rw [hanswer]
      exact fun hnone => by cases hnone
    next hj => exact hothers j hj
  · obtain ⟨rfl, hholds⟩ := hdrop
    refine hplaced (hlost id hlive fun j => ?_)
    rw [holds_put_none]
    exact fun h => hothers j h.1 h.2
  · exact hdrop

/-- **At-least-once delivery.** For any number of calls that run side by side and may stop after
any command: in every state of a run, each job that is owed is in a set of its queue or in the hands
of a running call, exactly when no call ever lets go of an owed job that it alone has. -/
theorem nothingLost_iff_dropsNone (serial : List String) (queueOf : JobId → String) (now : ℤ)
    (es : List (RedisFleetEvent ι)) :
    Machine.Always (step serial queueOf) (NothingLost queueOf) (init now) es ↔
      Machine.Meets (step serial queueOf) (DropsNone queueOf) (init now) es := by
  apply Machine.always_iff_meets (I := fun s => s.Ordered queueOf ∧ s.NothingLost queueOf)
  · intro s e s' ⟨h, hlost⟩ hdrops hstep
    exact ⟨h.step hstep, hlost.step h hdrops hstep⟩
  · intro s ⟨_, hlost⟩
    exact hlost
  · intro s e s' ⟨h, _⟩ hdrops hstep
    exact not_nothingLost_of_drops h hdrops hstep
  · refine ⟨ordered_init now, fun id hlive => ?_⟩
    cases hlive

/-- A job without a unique key, to be done at once. -/
def newsletter : QueuedJob where
  id := 1
  name := "send_newsletter"
  queue := "default"
  payload := "\x7b\x7d"
  state := .ready
  priority := .normal
  attempt := 1
  runAt := 0
  enqueuedAt := 0
  uniqueKey := none
  lastError := none
  lockedBy := none
  lockedUntil := none

/-- A job is pushed, and a worker takes it out of the ready set and dies. The push had succeeded, no
call is running, and neither a pull nor a reclaim can find the job. -/
theorem nothingLost_fails_after_death :
    ∃ s, Machine.exec (step [] fun _ => "default") (init 0 : RedisFleet Bool)
        [.start false (.push newsletter), .run false, .run false,
          .start true (.pull ["default"] 1 60000000000 "worker-1"), .run true, .run true, .run true,
          .stop true] = some s ∧
      (∀ i, s.running i = none) ∧ (s.store.sets (.ready "default")).items = [] ∧
      (s.store.sets (.leased "default")).items = [] ∧ ¬ s.NothingLost fun _ => "default" := by
  refine ⟨_, rfl, ?_, rfl, rfl, ?_⟩
  · intro i
    cases i <;> rfl
  · intro hlost
    rcases hlost 1 rfl (by rintro (_ | _) ⟨w, hw, -⟩ <;> cases hw) with ⟨score, h⟩ | ⟨score, h⟩ <;>
      exact absurd h List.not_mem_nil

end RedisFleet

end Moso.Jobs
