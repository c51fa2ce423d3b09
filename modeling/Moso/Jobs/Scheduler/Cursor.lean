import Moso.Jobs.Scheduler

/-!
# The cursor of a process

A process moves its cursor past the clock before it pushes what came due, so what it pushes
increases: no process pushes an occurrence twice, whether the queue accepted it or not.
-/

namespace Moso.Jobs

/-- What the process has planned and not yet pushed. -/
def Process.pending (v : Process) : List ℕ :=
  match v.phase with
  | .asking _ due _ | .pushing _ due => due
  | _ => []

namespace FleetState

variable {ι : Type*} [DecidableEq ι] {sched : Schedule} {tick ttl : ℕ}
  {s s' : FleetState ι} {e : FleetEvent ι}

/-! ### What one step can do -/

/-- The step pushes nothing; no process plans, and none moves its cursor. -/
structure Quiet (s s' : FleetState ι) : Prop where
  pushes : s'.pushes = s.pushes
  pending : ∀ p, (s'.process p).pending.Sublist (s.process p).pending
  next : ∀ p, (s'.process p).next = (s.process p).next
  absent : ∀ p, (s'.process p).phase = .absent → (s.process p).phase = .absent

/-- The process `p`, not started before, sets its cursor. -/
structure Starts (s s' : FleetState ι) (p : ι) : Prop where
  absent : (s.process p).phase = .absent
  pushes : s'.pushes = s.pushes
  pending : (s'.process p).pending = []
  other : ∀ q, q ≠ p → s'.process q = s.process q

/-- The process `p` plans for its cursor, which came due, and moves it. -/
structure Plans (sched : Schedule) (tick : ℕ) (s s' : FleetState ι) (p : ι) : Prop where
  pushes : s'.pushes = s.pushes
  started : (s.process p).phase ≠ .absent ∧ (s'.process p).phase ≠ .absent
  due : ∃ due now, (s.process p).next = some due ∧ due ≤ now ∧
    (s'.process p).next = (sched.plan tick due now).next ∧
    (s'.process p).pending.Sublist (sched.plan tick due now).due
  other : ∀ q, q ≠ p → s'.process q = s.process q

/-- The process `p` pushes the first occurrence of those it planned. -/
structure Pushes (s s' : FleetState ι) (p : ι) (t : ℕ) (ok : Bool) : Prop where
  pushes : s'.pushes = s.pushes ++ [{ leader := p, occurrence := t, ok := ok }]
  started : (s.process p).phase ≠ .absent ∧ (s'.process p).phase ≠ .absent
  pending : ∃ rest, (s.process p).pending = t :: rest ∧ (s'.process p).pending.Sublist rest
  next : (s'.process p).next = (s.process p).next
  other : ∀ q, q ≠ p → s'.process q = s.process q

/-- What a step does to cursors and plans. -/
inductive Move (sched : Schedule) (tick : ℕ) (s s' : FleetState ι) : Prop where
  | starts (p : ι) (h : Starts s s' p)
  | plans (p : ι) (h : Plans sched tick s s' p)
  | pushes (p : ι) (t : ℕ) (ok : Bool) (h : Pushes s s' p t ok)
  | quiet (h : Quiet s s')

/-- A change to one process that neither plans nor moves its cursor is quiet. -/
lemma Quiet.setProcess {p : ι} {v : Process}
    (hprocess : s'.process = Function.update s.process p v) (hpushes : s'.pushes = s.pushes)
    (hnext : v.next = (s.process p).next)
    (habsent : v.phase = .absent → (s.process p).phase = .absent)
    (hpending : v.pending.Sublist (s.process p).pending) : Quiet s s' := by
  refine ⟨hpushes, fun q => ?_, fun q => ?_, fun q => ?_⟩ <;>
    rw [hprocess, Function.update_apply] <;> split
  case isTrue h => exact h ▸ hpending
  case isFalse => exact List.Sublist.refl _
  case isTrue h => exact h ▸ hnext
  case isFalse => rfl
  case isTrue h => exact h ▸ habsent
  case isFalse => exact id

/-- One that leaves the process with nothing planned is a quiet move. -/
lemma Move.idle {p : ι} {v : Process} (hprocess : s'.process = Function.update s.process p v)
    (hpushes : s'.pushes = s.pushes) (hnext : v.next = (s.process p).next)
    (habsent : v.phase ≠ .absent) (hpending : v.pending = []) : Move sched tick s s' :=
  .quiet (.setProcess hprocess hpushes hnext (fun h => absurd h habsent)
    (hpending ▸ List.nil_sublist _))

omit [DecidableEq ι] in
/-- So is one to the clock, the lease or the rows. -/
lemma Move.of_process_eq (hprocess : s'.process = s.process) (hpushes : s'.pushes = s.pushes) :
    Move sched tick s s' :=
  .quiet ⟨hpushes, fun p => by rw [hprocess], fun p => by rw [hprocess],
    fun p => by rw [hprocess]; exact id⟩

lemma elect_move {p : ι} {reachable : Bool}
    (h : s.step sched tick ttl (.elect p reachable) = some s') : Move sched tick s s' := by
  simp only [step] at h
  split at h
  case h_2 => cases h
  split at h
  · split at h
    · obtain rfl := Option.some.inj h
      exact .idle rfl rfl rfl (by simp) rfl
    · split at h <;> obtain rfl := Option.some.inj h <;> exact .idle rfl rfl rfl (by simp) rfl
  · split at h
    · split at h <;> obtain rfl := Option.some.inj h <;> exact .idle rfl rfl rfl (by simp) rfl
    · obtain rfl := Option.some.inj h
      exact .idle rfl rfl rfl (by simp) rfl

lemma plan_move {p : ι} (h : s.step sched tick ttl (.plan p) = some s') :
    Move sched tick s s' := by
  simp only [step] at h
  split at h
  case h_2 => cases h
  next pass hphase =>
  split at h
  next =>
    obtain rfl := Option.some.inj h
    exact .idle rfl rfl rfl (by simp) rfl
  next due hnext =>
  split at h
  next =>
    obtain rfl := Option.some.inj h
    exact .idle rfl rfl rfl (by simp) rfl
  next hdue =>
    have hplans : s'.pushes = s.pushes ∧ (∀ q, q ≠ p → s'.process q = s.process q) ∧
        (s'.process p).phase ≠ .absent ∧
        (s'.process p).next = (sched.plan tick due pass.now).next ∧
        (s'.process p).pending.Sublist (sched.plan tick due pass.now).due := by
      split at h
      · obtain rfl := Option.some.inj h
        refine ⟨rfl, fun q hq => ?_, ?_, ?_, ?_⟩ <;>
          simp [finish, setPhase, FleetState.setProcess, Process.pending, *]
      · split at h <;> obtain rfl := Option.some.inj h <;>
          refine ⟨rfl, fun q hq => ?_, ?_, ?_, ?_⟩ <;>
          simp [setPhase, FleetState.setProcess, Process.pending, *]
    obtain ⟨hpushes, hother, habsent, hcursor, hpending⟩ := hplans
    exact .plans p ⟨hpushes, ⟨by simp [hphase], habsent⟩,
      ⟨due, pass.now, hnext, not_lt.mp hdue, hcursor, hpending⟩, hother⟩

lemma push_move {p : ι} {ok : Bool} (h : s.step sched tick ttl (.push p ok) = some s') :
    Move sched tick s s' := by
  simp only [step] at h
  split at h
  case h_2 => cases h
  next pass t rest hphase =>
  have hpending : (s.process p).pending = t :: rest := by simp [Process.pending, hphase]
  refine .pushes p t ok ⟨?_, ⟨by simp [hphase], ?_⟩, ⟨rest, hpending, ?_⟩, ?_, fun q hq => ?_⟩ <;>
    split at h <;> obtain rfl := Option.some.inj h <;> try split
  all_goals simp [finish, setPhase, FleetState.setProcess, Process.pending, *]

/-- A step starts a process, plans, pushes, or is quiet. -/
theorem step_move (h : s.step sched tick ttl e = some s') : Move sched tick s s' := by
  cases e with
  | start p =>
    simp only [step] at h
    split at h
    next hp =>
      obtain rfl := Option.some.inj h
      refine .starts p ⟨hp, rfl, by simp [FleetState.setProcess, Process.pending], fun q hq => ?_⟩
      simp [FleetState.setProcess, hq]
    next => cases h
  | plan p => exact plan_move h
  | push p ok => exact push_move h
  | elect p reachable => exact elect_move h
  | pass p =>
    simp only [step] at h
    split at h <;> cases h <;> exact .idle rfl rfl rfl (by simp) rfl
  | ask p answers =>
    simp only [step] at h
    split at h
    next pass due previous hphase =>
      split at h <;> obtain rfl := Option.some.inj h
      · exact .idle rfl rfl rfl (by simp) rfl
      · refine .quiet (.setProcess rfl rfl rfl (by simp) ?_)
        simp [Process.pending, hphase]
    next => cases h
  | renew p =>
    simp only [step] at h
    split at h <;> cases h
    exact .of_process_eq rfl rfl
  | settle p =>
    simp only [step] at h
    split at h <;> cases h
    exact .quiet (.setProcess rfl rfl rfl id (List.Sublist.refl _))
  | stop p =>
    simp only [step] at h
    split at h <;> cases h <;> exact .idle rfl rfl rfl (by simp) rfl
  | crash p =>
    simp only [step] at h
    split at h <;> cases h
    exact .idle rfl rfl rfl (by simp) rfl
  | work id state =>
    cases h
    exact .of_process_eq rfl rfl
  | tick d =>
    cases h
    exact .of_process_eq rfl rfl

/-! ### What a process pushes increases -/

/-- What a process has pushed lies before what it has planned, and both before its cursor. -/
structure Advancing (s : FleetState ι) : Prop where
  sorted : ∀ p, (s.process p).pending.Pairwise (· < ·)
  ahead : ∀ p, ∀ t ∈ (s.process p).pending, ∀ c, (s.process p).next = some c → t < c
  past : ∀ a ∈ s.pushes, ∀ t ∈ (s.process a.leader).pending, a.occurrence < t
  behind : ∀ a ∈ s.pushes, ∀ c, (s.process a.leader).next = some c → a.occurrence < c
  started : ∀ a ∈ s.pushes, (s.process a.leader).phase ≠ .absent
  increasing : s.pushes.Pairwise fun a b => a.leader = b.leader → a.occurrence < b.occurrence

omit [DecidableEq ι] in
lemma advancing_init (now : ℕ) : (init now : FleetState ι).Advancing :=
  ⟨fun _ => .nil, by simp [init, Process.pending], by simp [init], by simp [init],
    by simp [init], .nil⟩

omit [DecidableEq ι] in
lemma Advancing.quiet (hs : s.Advancing) (h : Quiet s s') : s'.Advancing := by
  obtain ⟨hpushes, hpending, hnext, habsent⟩ := h
  constructor
  · exact fun p => (hs.sorted p).sublist (hpending p)
  · intro p t ht c hc
    exact hs.ahead p t ((hpending p).subset ht) c (hnext p ▸ hc)
  · intro a ha t ht
    exact hs.past a (hpushes ▸ ha) t ((hpending a.leader).subset ht)
  · intro a ha c hc
    exact hs.behind a (hpushes ▸ ha) c (hnext a.leader ▸ hc)
  · exact fun a ha habs => hs.started a (hpushes ▸ ha) (habsent a.leader habs)
  · exact hpushes ▸ hs.increasing

omit [DecidableEq ι] in
lemma Advancing.starts {p : ι} (hs : s.Advancing) (h : Starts s s' p) : s'.Advancing := by
  obtain ⟨habsent, hpushes, hpending, hother⟩ := h
  -- a process that has not started has pushed nothing
  have hne : ∀ a ∈ s.pushes, a.leader ≠ p := by
    rintro a ha rfl
    exact hs.started a ha habsent
  constructor
  · intro q
    by_cases hq : q = p
    · rw [hq, hpending]
      exact .nil
    · exact hother q hq ▸ hs.sorted q
  · intro q
    by_cases hq : q = p
    · simp [hq, hpending]
    · exact hother q hq ▸ hs.ahead q
  · intro a ha
    rw [hpushes] at ha
    exact hother _ (hne a ha) ▸ hs.past a ha
  · intro a ha
    rw [hpushes] at ha
    exact hother _ (hne a ha) ▸ hs.behind a ha
  · intro a ha
    rw [hpushes] at ha
    exact hother _ (hne a ha) ▸ hs.started a ha
  · exact hpushes ▸ hs.increasing

omit [DecidableEq ι] in
lemma Advancing.plans {p : ι} (hs : s.Advancing) (h : Plans sched tick s s' p) :
    s'.Advancing := by
  obtain ⟨hpushes, ⟨-, habsent⟩, ⟨due, now, hdue, hle, hnext, hpending⟩, hother⟩ := h
  obtain ⟨hsorted, hbound⟩ : (sched.plan tick due now).due.Pairwise (· < ·) ∧
      ∀ t ∈ (sched.plan tick due now).due, due ≤ t ∧ t ≤ now := Schedule.plan_due hle
  have hlater : ∀ c, (s'.process p).next = some c → now < c := fun c hc =>
    Schedule.lt_of_plan_next (hnext ▸ hc)
  constructor
  · intro q
    by_cases hq : q = p
    · exact hq ▸ hsorted.sublist hpending
    · exact hother q hq ▸ hs.sorted q
  · intro q
    by_cases hq : q = p
    · subst hq
      intro t ht c hc
      exact (hbound t (hpending.subset ht)).2.trans_lt (hlater c hc)
    · exact hother q hq ▸ hs.ahead q
  · intro a ha
    rw [hpushes] at ha
    by_cases hq : a.leader = p
    · subst hq
      intro t ht
      exact (hs.behind a ha due hdue).trans_le (hbound t (hpending.subset ht)).1
    · exact hother _ hq ▸ hs.past a ha
  · intro a ha
    rw [hpushes] at ha
    by_cases hq : a.leader = p
    · subst hq
      intro c hc
      exact (hs.behind a ha due hdue).trans (hle.trans_lt (hlater c hc))
    · exact hother _ hq ▸ hs.behind a ha
  · intro a ha
    rw [hpushes] at ha
    by_cases hq : a.leader = p
    · exact hq ▸ habsent
    · exact hother _ hq ▸ hs.started a ha
  · exact hpushes ▸ hs.increasing

omit [DecidableEq ι] in
lemma Advancing.pushes {p : ι} {t : ℕ} {ok : Bool} (hs : s.Advancing)
    (h : Pushes s s' p t ok) : s'.Advancing := by
  obtain ⟨hpushes, ⟨-, habsent⟩, ⟨rest, hpending, hrest⟩, hnext, hother⟩ := h
  have hsorted := hs.sorted p
  rw [hpending] at hsorted
  obtain ⟨hfirst, hsorted⟩ := List.pairwise_cons.mp hsorted
  have hmem : ∀ u ∈ (s'.process p).pending, u ∈ (s.process p).pending := fun u hu =>
    hpending ▸ List.mem_cons_of_mem t (hrest.subset hu)
  have hlt : t ∈ (s.process p).pending := hpending ▸ List.mem_cons_self
  constructor
  · intro q
    by_cases hq : q = p
    · exact hq ▸ hsorted.sublist hrest
    · exact hother q hq ▸ hs.sorted q
  · intro q
    by_cases hq : q = p
    · subst hq
      intro u hu c hc
      exact hs.ahead q u (hmem u hu) c (hnext ▸ hc)
    · exact hother q hq ▸ hs.ahead q
  · intro a ha
    rw [hpushes] at ha
    by_cases hq : a.leader = p
    · intro u hu
      rw [hq] at hu
      rcases List.mem_append.mp ha with ha | ha
      · exact hs.past a ha u (hq ▸ hmem u hu)
      · obtain rfl := List.mem_singleton.mp ha
        exact hfirst u (hrest.subset hu)
    · rw [hother _ hq]
      rcases List.mem_append.mp ha with ha | ha
      · exact hs.past a ha
      · exact absurd (List.mem_singleton.mp ha ▸ rfl) hq
  · intro a ha c hc
    rw [hpushes] at ha
    have hc' : (s.process a.leader).next = some c := by
      by_cases hq : a.leader = p
      · rw [hq] at hc ⊢
        rw [← hnext, hc]
      · rw [← hother _ hq, hc]
    rcases List.mem_append.mp ha with ha | ha
    · exact hs.behind a ha c hc'
    · obtain rfl := List.mem_singleton.mp ha
      exact hs.ahead p t hlt c hc'
  · intro a ha
    rw [hpushes] at ha
    by_cases hq : a.leader = p
    · exact hq ▸ habsent
    · rcases List.mem_append.mp ha with ha | ha
      · exact hother _ hq ▸ hs.started a ha
      · exact absurd (List.mem_singleton.mp ha ▸ rfl) hq
  · rw [hpushes]
    refine List.pairwise_append.mpr ⟨hs.increasing, List.pairwise_singleton _ _, ?_⟩
    intro a ha b hb hab
    obtain rfl := List.mem_singleton.mp hb
    exact hs.past a ha t (hab ▸ hlt)

/-- Every step keeps cursors ahead of pushes. -/
theorem advancing_step (hs : s.Advancing) (h : s.step sched tick ttl e = some s') :
    s'.Advancing := by
  cases step_move h with
  | starts p h => exact hs.starts h
  | plans p h => exact hs.plans h
  | pushes p t ok h => exact hs.pushes h
  | quiet h => exact hs.quiet h

/-- In any run, the occurrences a process pushes increase: it never goes back to one. -/
theorem pushes_increasing {now : ℕ} {es : List (FleetEvent ι)}
    (h : Machine.exec (step sched tick ttl) (init now) es = some s) :
    s.pushes.Pairwise fun a b => a.leader = b.leader → a.occurrence < b.occurrence :=
  (Machine.invariant_exec (I := Advancing) (fun _ _ _ => advancing_step) (advancing_init now)
    h).increasing

end FleetState

end Moso.Jobs
