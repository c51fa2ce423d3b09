import Moso.Jobs.Scheduler.Cursor

/-!
# No occurrence lost

A process that takes over knows only its own cursor: of the occurrences that came due since the
last pass of the leader before it, its first pass pushes at most that one, and only if it is at
most four ticks late. A push that fails is behind the cursor already. Nothing is lost exactly when
each leader's pass ends with nothing owed but what its last step pushes.
-/

namespace Moso.Jobs

/-- The occurrences of a schedule from `first` on. -/
inductive Schedule.Occurs (sched : Schedule) (first : ℕ) : ℕ → Prop where
  | first : Occurs sched first first
  | next {t u : ℕ} (ht : Occurs sched first t) (hu : sched.nextAfter t = some u) :
      Occurs sched first u

namespace FleetState

variable {ι : Type*} [DecidableEq ι] {sched : Schedule} {tick ttl : ℕ}
  {s s' : FleetState ι} {e : FleetEvent ι} {pass : Pass}

/-! ### The property -/

/-- The occurrence `t` came due between the last pass of the previous leader and this one, in
which the process was elected. -/
def Owed (sched : Schedule) (pass : Pass) (t : ℕ) : Prop :=
  ∃ first, pass.owes = some first ∧ sched.Occurs first t ∧ t ≤ pass.now

/-- The queue has accepted a push of `t`. -/
def Accepted (pushes : List (Push ι)) (t : ℕ) : Prop :=
  ∃ a ∈ pushes, a.occurrence = t ∧ a.ok = true

/-- A push of `t` failed before the pass, and no push of `t` came after it. -/
def Unretried (pushes : List (Push ι)) (pass : Pass) (t : ℕ) : Prop :=
  ∃ i < pass.seen, (∃ a ∈ pushes[i]?, a.occurrence = t ∧ a.ok = false) ∧
    ∀ b ∈ pushes.drop (i + 1), b.occurrence ≠ t

/-- The documented guarantee, for the passes that processes have led to the end: what came due
during a hand-over has been enqueued, and what had failed has been tried again. -/
def NeverDropped (sched : Schedule) (s : FleetState ι) : Prop :=
  ∀ p pass, (s.process p).phase = .finished pass →
    (∀ t, Owed sched pass t → Accepted s.pushes t) ∧ ∀ t, ¬ Unretried s.pushes pass t

/-! ### Its condition -/

/-- The pass of a leader that the step ends. -/
def completes (sched : Schedule) (tick : ℕ) (s : FleetState ι) :
    FleetEvent ι → Option (ι × Pass)
  | .plan p =>
    match (s.process p).phase with
    | .planning pass =>
      if ∃ due ∈ (s.process p).next, sched.OnTime tick due pass.now then none else some (p, pass)
    | _ => none
  | .ask p answers =>
    match (s.process p).phase with
    | .asking pass _ previous =>
      if answers ∧ unfinished s.rows previous ∧ sched.overlap = .skip then some (p, pass) else none
    | _ => none
  | .push p ok =>
    match (s.process p).phase with
    | .pushing pass (_ :: rest) => if ok → rest = [] then some (p, pass) else none
    | _ => none
  | _ => none

/-- What the step pushes. -/
def pushed (s : FleetState ι) : FleetEvent ι → List (Push ι)
  | .push p ok =>
    match (s.process p).phase with
    | .pushing _ (t :: _) => [{ leader := p, occurrence := t, ok := ok }]
    | _ => []
  | _ => []

/-- If the step ends the pass of a leader, all that is left to enqueue after a hand-over is what
it pushes, successfully, and all that is left to retry is what it pushes. -/
def OwesOnlyPushed (sched : Schedule) (tick : ℕ) (s : FleetState ι) (e : FleetEvent ι) : Prop :=
  ∀ p pass, completes sched tick s e = some (p, pass) →
    (∀ t, Owed sched pass t → ¬ Accepted s.pushes t → Accepted (s.pushed e) t) ∧
      ∀ t, Unretried s.pushes pass t → ∃ a ∈ s.pushed e, a.occurrence = t

/-! ### The record of pushes -/

omit [DecidableEq ι] in
lemma accepted_append {pushes pushes' : List (Push ι)} {t : ℕ} :
    Accepted (pushes ++ pushes') t ↔ Accepted pushes t ∨ Accepted pushes' t := by
  simp only [Accepted, List.mem_append, or_and_right, exists_or]

omit [DecidableEq ι] in
/-- Later pushes can only retry what had failed before the pass. -/
lemma unretried_append {pushes pushes' : List (Push ι)} {t : ℕ}
    (hseen : pass.seen ≤ pushes.length) :
    Unretried (pushes ++ pushes') pass t ↔
      Unretried pushes pass t ∧ ∀ a ∈ pushes', a.occurrence ≠ t := by
  have hget : ∀ i < pass.seen, (pushes ++ pushes')[i]? = pushes[i]? := fun i hi =>
    List.getElem?_append_left (by omega)
  have hdrop : ∀ i < pass.seen,
      (pushes ++ pushes').drop (i + 1) = pushes.drop (i + 1) ++ pushes' := fun i hi =>
    List.drop_append_of_le_length (by omega)
  constructor
  · rintro ⟨i, hi, hfail, hlater⟩
    rw [hget i hi] at hfail
    rw [hdrop i hi] at hlater
    exact ⟨⟨i, hi, hfail, fun b hb => hlater b (List.mem_append_left _ hb)⟩,
      fun a ha => hlater a (List.mem_append_right _ ha)⟩
  · rintro ⟨⟨i, hi, hfail, hlater⟩, hnew⟩
    refine ⟨i, hi, by rwa [hget i hi], fun b hb => ?_⟩
    rw [hdrop i hi] at hb
    rcases List.mem_append.mp hb with hb | hb
    · exact hlater b hb
    · exact hnew b hb

/-! ### What one step can do -/

lemma pushes_step (h : s.step sched tick ttl e = some s') :
    s'.pushes = s.pushes ++ s.pushed e := by
  cases e with
  | push p ok =>
    simp only [step] at h
    split at h
    case h_2 => cases h
    next pass t rest hphase =>
    simp only [pushed, hphase]
    repeat' split at h
    all_goals cases h; rfl
  | _ =>
    change s'.pushes = s.pushes ++ []
    rw [List.append_nil]
    simp only [step] at h
    repeat' split at h
    all_goals cases h <;> rfl

/-- The number of pushes before the pass that a process is in, or has just ended. -/
def seen : Phase → ℕ
  | .electing pass | .planning pass | .asking pass _ _ | .pushing pass _ | .finished pass =>
    pass.seen
  | .absent | .sleeping | .gone => 0

/-- A step leaves a process where it is, ends the pass it leads, or moves it on without ending
one. -/
inductive Progress (sched : Schedule) (tick : ℕ) (s s' : FleetState ι) (e : FleetEvent ι) (p : ι) :
    Prop where
  | stays (h : (s'.process p).phase = (s.process p).phase)
      (hc : ∀ pass, completes sched tick s e ≠ some (p, pass))
  | ends (pass : Pass) (h : (s'.process p).phase = .finished pass)
      (hc : completes sched tick s e = some (p, pass))
      (hseen : pass.seen = seen (s.process p).phase)
  | moves (h : ∀ pass, (s'.process p).phase ≠ .finished pass)
      (hc : ∀ pass, completes sched tick s e ≠ some (p, pass))
      (hseen : seen (s'.process p).phase ≤ max (seen (s.process p).phase) s.pushes.length)

/-- The steps other than a plan, an answer and a push end no pass of a leader. -/
lemma progress_of_phase {q : ι} {v : Process} (hc : completes sched tick s e = none)
    (hprocess : s'.process = Function.update s.process q v)
    (hfin : ∀ pass, v.phase ≠ .finished pass)
    (hseen : seen v.phase ≤ max (seen (s.process q).phase) s.pushes.length) (p : ι) :
    Progress sched tick s s' e p := by
  by_cases hp : p = q
  · subst hp
    have hv : s'.process p = v := by rw [hprocess, Function.update_self]
    exact .moves (hv ▸ hfin) (by simp [hc]) (hv ▸ hseen)
  · exact .stays (by rw [hprocess, Function.update_of_ne hp]) (by simp [hc])

lemma progress_of_finish {q : ι} {v : Process} (hc : completes sched tick s e = some (q, pass))
    (hprocess : s'.process = Function.update s.process q v) (hfin : v.phase = .finished pass)
    (hseen : pass.seen = seen (s.process q).phase) (p : ι) : Progress sched tick s s' e p := by
  by_cases hp : p = q
  · subst hp
    exact .ends pass (by rw [hprocess, Function.update_self, hfin]) hc hseen
  · refine .stays (by rw [hprocess, Function.update_of_ne hp]) fun pass' hpass => hp ?_
    rw [hc, Option.some.injEq, Prod.mk.injEq] at hpass
    exact hpass.1.symm

lemma progress (h : s.step sched tick ttl e = some s') (p : ι) : Progress sched tick s s' e p := by
  cases e with
  | start q =>
    simp only [step] at h
    split at h <;> cases h
    exact progress_of_phase rfl rfl (by simp) (by simp [seen]) p
  | pass q =>
    simp only [step] at h
    split at h <;> cases h <;> exact progress_of_phase rfl rfl (by simp) (by simp [seen]) p
  | elect q reachable =>
    simp only [step] at h
    split at h
    case h_2 => cases h
    next pass hphase =>
    repeat' split at h
    all_goals cases h; exact progress_of_phase rfl rfl (by simp) (by simp [seen, hphase]) p
  | plan q =>
    simp only [step] at h
    split at h
    case h_2 => cases h
    next pass hphase =>
    split at h
    next hnext =>
      cases h
      exact progress_of_finish (by simp [completes, hphase, hnext]) rfl rfl
        (by simp [seen, hphase]) p
    next due hnext =>
    split at h
    next hdue =>
      cases h
      exact progress_of_finish (by simp [completes, hphase, hnext, Schedule.OnTime, hdue]) rfl rfl
        (by simp [seen, hphase]) p
    next hdue =>
    split at h
    next hnone =>
      cases h
      have hlate := (Schedule.plan_due_eq_nil (not_lt.mp hdue)).mp hnone
      exact progress_of_finish (by simp [completes, hphase, hnext, hlate])
        (Function.update_idem _ _ _) rfl (by simp [seen, hphase]) p
    next hsome =>
      have hc : completes sched tick s (.plan q) = none := by
        have hin := (Schedule.plan_due_eq_nil (not_lt.mp hdue)).not_left.mp hsome
        simp [completes, hphase, hnext, hin]
      split at h <;> cases h <;>
        exact progress_of_phase hc (Function.update_idem _ _ _) (by simp)
          (by simp [seen, hphase]) p
  | ask q answers =>
    simp only [step] at h
    split at h
    case h_2 => cases h
    next pass due previous hphase =>
    split at h
    next hskip =>
      cases h
      exact progress_of_finish (by simp [completes, hphase, hskip]) rfl rfl
        (by simp [seen, hphase]) p
    next hskip =>
      cases h
      exact progress_of_phase (by simpa [completes, hphase] using hskip) rfl (by simp)
        (by simp [seen, hphase]) p
  | push q ok =>
    simp only [step] at h
    split at h
    case h_2 => cases h
    next pass t rest hphase =>
    split at h
    next hok =>
      split at h
      next hrest =>
        cases h
        exact progress_of_finish (by simp [completes, hphase, hrest]) (Function.update_idem _ _ _)
          rfl (by simp [seen, hphase]) p
      next hrest =>
        cases h
        exact progress_of_phase (by simp [completes, hphase, hrest, hok])
          (Function.update_idem _ _ _) (by simp) (by simp [seen, hphase]) p
    next hok =>
      cases h
      exact progress_of_finish (by simp [completes, hphase, hok]) rfl rfl
        (by simp [seen, hphase]) p
  | renew q =>
    simp only [step] at h
    split at h <;> cases h
    exact .stays rfl (by simp [completes])
  | settle q =>
    simp only [step] at h
    split at h <;> cases h
    refine .stays ?_ (by simp [completes])
    simp only [setProcess, Function.update_apply]
    split
    next hp => rw [hp]
    next => rfl
  | stop q =>
    simp only [step] at h
    split at h <;> cases h <;> exact progress_of_phase rfl rfl (by simp) (by simp [seen]) p
  | crash q =>
    simp only [step] at h
    split at h <;> cases h
    exact progress_of_phase rfl rfl (by simp) (by simp [seen]) p
  | work id state =>
    cases h
    exact .stays rfl (by simp [completes])
  | tick d =>
    cases h
    exact .stays rfl (by simp [completes])

/-! ### Along a run -/

/-- Nothing has been dropped, and a pass has seen no more pushes than were made. -/
structure Caught (sched : Schedule) (s : FleetState ι) : Prop where
  dropped : NeverDropped sched s
  seen : ∀ p, seen (s.process p).phase ≤ s.pushes.length

omit [DecidableEq ι] in
lemma caught_init (now : ℕ) : Caught sched (init now : FleetState ι) :=
  ⟨by simp [NeverDropped, init], by simp [init, seen]⟩

omit [DecidableEq ι] in
lemma Caught.seen_finished {p : ι} (hs : Caught sched s)
    (h : (s.process p).phase = .finished pass) : pass.seen ≤ s.pushes.length := by
  have hseen := hs.seen p
  rw [h] at hseen
  exact hseen

/-- As long as a leader's pass ends with nothing owed but what it pushes, nothing is dropped. -/
lemma caught_step (hs : Caught sched s) (hG : OwesOnlyPushed sched tick s e)
    (h : s.step sched tick ttl e = some s') : Caught sched s' := by
  have hpushes := pushes_step h
  constructor
  · intro p pass hphase
    rw [hpushes]
    cases progress h p with
    | stays hsame hc =>
      rw [hsame] at hphase
      obtain ⟨howed, hretried⟩ := hs.dropped p pass hphase
      refine ⟨fun t ht => accepted_append.2 (.inl (howed t ht)), fun t ht => ?_⟩
      exact hretried t ((unretried_append (hs.seen_finished hphase)).mp ht).1
    | ends pass' hfin hc hseen =>
      obtain rfl : pass' = pass := by injection hfin.symm.trans hphase
      obtain ⟨howed, hretried⟩ := hG p pass' hc
      constructor
      · intro t ht
        by_cases hold : Accepted s.pushes t
        · exact accepted_append.2 (.inl hold)
        · exact accepted_append.2 (.inr (howed t ht hold))
      · intro t ht
        obtain ⟨hold, hnew⟩ := (unretried_append (hseen ▸ hs.seen p)).mp ht
        obtain ⟨a, ha, hocc⟩ := hretried t hold
        exact hnew a ha hocc
    | moves hmoved => exact absurd hphase (hmoved pass)
  · intro p
    have hold := hs.seen p
    have hlength : s.pushes.length ≤ s'.pushes.length := by
      rw [hpushes, List.length_append]
      omega
    cases progress h p with
    | stays hsame => exact hsame ▸ hold.trans hlength
    | ends pass hfin hc hseen =>
      rw [hfin]
      exact (hseen.le.trans hold).trans hlength
    | moves _ _ hseen => exact (hseen.trans (max_le hold le_rfl)).trans hlength

/-- The first pass of a leader that ends with more owed drops it. -/
lemma dropped_step (hs : Caught sched s) (hG : ¬ OwesOnlyPushed sched tick s e)
    (h : s.step sched tick ttl e = some s') : ¬ NeverDropped sched s' := by
  intro hnever
  refine hG fun p pass hc => ?_
  cases progress h p with
  | stays _ hnot => exact absurd hc (hnot pass)
  | moves _ hnot => exact absurd hc (hnot pass)
  | ends pass' hfin hc' hseen =>
    obtain rfl : pass' = pass := congrArg Prod.snd (Option.some.inj (hc'.symm.trans hc))
    obtain ⟨howed, hretried⟩ := hnever p pass' hfin
    rw [pushes_step h] at howed hretried
    constructor
    · exact fun t ht hold => (accepted_append.1 (howed t ht)).resolve_left hold
    · intro t ht
      by_contra hnone
      push Not at hnone
      exact hretried t ((unretried_append (hseen ▸ hs.seen p)).mpr ⟨ht, hnone⟩)

/-- With the default tick and lease, process 0 leads a per-minute schedule and dies when it has
enqueued minute one; process 1 ticks on, and is elected when the lease is over, at minute two. -/
def deadLeaderRun : List (FleetEvent ℕ) :=
  [.start 0, .start 1, .tick 5000000000, .pass 0, .elect 0 true, .plan 0, .push 0 true,
      .pass 1, .elect 1 true, .crash 0] ++
    (List.replicate 11 [.tick 5000000000, .pass 1, .elect 1 true]).flatten ++
    [.tick 5000000000, .pass 1, .elect 1 true, .plan 1]

/-- A lone process, whose push of minute one the queue refuses, and its next pass. -/
def refusedPushRun : List (FleetEvent ℕ) :=
  [.start 0, .tick 5000000000, .pass 0, .elect 0 true, .plan 0, .push 0 false,
    .tick 5000000000, .pass 0, .elect 0 true, .plan 0]

end FleetState

end Moso.Jobs
