import Moso.Jobs.Scheduler.Dropped

/-!
# Hand-overs in time

A schedule that does not catch up pushes one occurrence a pass, the one its leader's cursor
stands at. So a fleet drops nothing if whatever comes due during a hand-over is what the elected
process is waiting for itself, if that process is at most four ticks late, and if the queue
refuses nothing.
-/

namespace Moso.Jobs

namespace FleetState

variable {ι : Type*} [DecidableEq ι] {sched : Schedule} {tick ttl : ℕ}
  {s s' : FleetState ι} {e : FleetEvent ι} {pass : Pass}

/-- An election leaves the process nothing but its own cursor to make up for, on time; a push
succeeds. -/
def InTime (sched : Schedule) (tick : ℕ) (s : FleetState ι) : FleetEvent ι → Prop
  | .elect p _ => ∀ pass, (s.process p).phase = .electing pass → (s.process p).guard = none →
      ∀ first ∈ s.frontier, ∀ t, sched.Occurs first t → t ≤ pass.now →
        (s.process p).next = some t ∧ sched.OnTime tick t pass.now
  | .push _ ok => ok = true
  | _ => True

/-- What a process owes is its cursor, then what it has planned, then enqueued. -/
def Covers (sched : Schedule) (tick : ℕ) (pushes : List (Push ι)) (v : Process) : Prop :=
  match v.phase with
  | .electing pass => pass.owes = none
  | .planning pass => ∀ t, Owed sched pass t → v.next = some t ∧ sched.OnTime tick t pass.now
  | .asking _ _ _ => False
  | .pushing pass due => ∀ t, Owed sched pass t → due = [t]
  | .finished pass => ∀ t, Owed sched pass t → Accepted pushes t
  | .absent | .sleeping | .gone => True

/-- Every process covers what it owes, and no push has failed. -/
structure Covered (sched : Schedule) (tick : ℕ) (s : FleetState ι) : Prop where
  covers : ∀ p, Covers sched tick s.pushes (s.process p)
  accepted : ∀ a ∈ s.pushes, a.ok = true

omit [DecidableEq ι] in
lemma covered_init (now : ℕ) : Covered sched tick (init now : FleetState ι) :=
  ⟨fun _ => trivial, by simp [init]⟩

omit [DecidableEq ι] in
lemma Covered.neverDropped (hs : Covered sched tick s) : NeverDropped sched s := by
  intro p pass hphase
  have hcovers := hs.covers p
  simp only [Covers, hphase] at hcovers
  refine ⟨hcovers, ?_⟩
  rintro t ⟨i, -, ⟨a, ha, -, hfail⟩, -⟩
  rw [hs.accepted a (List.mem_of_getElem? ha)] at hfail
  cases hfail

omit [DecidableEq ι] in
lemma Covers.append {pushes pushes' : List (Push ι)} {v : Process}
    (h : Covers sched tick pushes v) : Covers sched tick (pushes ++ pushes') v := by
  unfold Covers at h ⊢
  split at h <;> first
    | exact h
    | exact fun t ht => accepted_append.2 (.inl (h t ht))

/-- A step of one process keeps the invariant if that process still covers what it owes. -/
lemma Covered.update {p : ι} {v : Process} {pushes : List (Push ι)} (hs : Covered sched tick s)
    (hprocess : s'.process = Function.update s.process p v)
    (hpushes : s'.pushes = s.pushes ++ pushes) (hok : ∀ a ∈ pushes, a.ok = true)
    (hv : Covers sched tick s'.pushes v) : Covered sched tick s' := by
  constructor
  · intro q
    by_cases hq : q = p
    · rw [hprocess, hq, Function.update_self]
      exact hv
    · rw [hprocess, Function.update_of_ne hq, hpushes]
      exact (hs.covers q).append
  · intro a ha
    rw [hpushes] at ha
    exact (List.mem_append.mp ha).elim (hs.accepted a) (hok a)

/-- The same for a step that pushes nothing. -/
lemma Covered.quiet {p : ι} {v : Process} (hs : Covered sched tick s)
    (hprocess : s'.process = Function.update s.process p v) (hpushes : s'.pushes = s.pushes)
    (hv : Covers sched tick s.pushes v) : Covered sched tick s' :=
  hs.update hprocess (hpushes.trans (List.append_nil _).symm) (by simp) (hpushes ▸ hv)

lemma covered_elect {p : ι} {reachable : Bool} (hs : Covered sched tick s)
    (hG : InTime sched tick s (.elect p reachable))
    (h : s.step sched tick ttl (.elect p reachable) = some s') : Covered sched tick s' := by
  have hcovers := hs.covers p
  simp only [step] at h
  split at h
  case h_2 => cases h
  next pass hphase =>
  simp only [Covers, hphase] at hcovers
  split at h
  next token hguard =>
    have hnone : ∀ t, ¬ Owed sched pass t := by
      rintro t ⟨first, hfirst, -⟩
      rw [hcovers] at hfirst
      cases hfirst
    split at h
    · cases h
      exact hs.quiet rfl rfl trivial
    · split at h <;> cases h
      · exact hs.quiet rfl rfl fun t ht => absurd ht (hnone t)
      · exact hs.quiet rfl rfl trivial
  next hguard =>
    split at h
    · split at h <;> cases h
      · refine hs.quiet rfl rfl ?_
        rintro t ⟨first, hfirst, hoccurs, hle⟩
        exact hG pass hphase hguard first hfirst t hoccurs hle
      · exact hs.quiet rfl rfl trivial
    · cases h
      exact hs.quiet rfl rfl trivial

lemma covered_plan {p : ι} (hcatch : sched.catchUp = false) (hoverlap : sched.overlap = .allow)
    (hs : Covered sched tick s) (h : s.step sched tick ttl (.plan p) = some s') :
    Covered sched tick s' := by
  have hcovers := hs.covers p
  simp only [step] at h
  split at h
  case h_2 => cases h
  next pass hphase =>
  simp only [Covers, hphase] at hcovers
  split at h
  next hnext =>
    cases h
    refine hs.quiet rfl rfl fun t ht => ?_
    have hcursor := (hcovers t ht).1
    rw [hnext] at hcursor
    cases hcursor
  next due hnext =>
  have howed : ∀ t, Owed sched pass t → due = t ∧ sched.OnTime tick due pass.now := by
    intro t ht
    obtain ⟨hcursor, hon⟩ := hcovers t ht
    obtain rfl : due = t := Option.some.inj (hnext.symm.trans hcursor)
    exact ⟨rfl, hon⟩
  split at h
  next hdue =>
    cases h
    refine hs.quiet rfl rfl fun t ht => ?_
    exact absurd (howed t ht).2.1 (not_le.mpr hdue)
  next hdue =>
  split at h
  next hnone =>
    cases h
    refine hs.quiet (Function.update_idem _ _ _) rfl fun t ht => ?_
    exact absurd (howed t ht).2 ((Schedule.plan_due_eq_nil (not_lt.mp hdue)).mp hnone)
  next hsome =>
    rw [hoverlap] at h
    cases h
    refine hs.quiet (Function.update_idem _ _ _) rfl fun t ht => ?_
    obtain ⟨rfl, -, hlate⟩ := howed t ht
    simp [Schedule.plan, hcatch, not_lt.mpr (hlate hcatch)]

lemma covered_push {p : ι} {ok : Bool} (hs : Covered sched tick s) (hok : ok = true)
    (h : s.step sched tick ttl (.push p ok) = some s') : Covered sched tick s' := by
  have hcovers := hs.covers p
  simp only [step] at h
  split at h
  case h_2 => cases h
  next pass t rest hphase =>
  simp only [Covers, hphase] at hcovers
  rw [if_pos hok] at h
  split at h
  next hrest =>
    cases h
    refine hs.update (Function.update_idem _ _ _) rfl (by simp [hok]) fun u hu => ?_
    obtain rfl : t = u := (List.cons_eq_cons.mp (hcovers u hu)).1
    exact accepted_append.2 (.inr ⟨_, List.mem_singleton_self _, rfl, hok⟩)
  next hrest =>
    cases h
    refine hs.update (Function.update_idem _ _ _) rfl (by simp [hok]) fun u hu => ?_
    exact absurd (List.cons_eq_cons.mp (hcovers u hu)).2 hrest

lemma covered_step (hcatch : sched.catchUp = false) (hoverlap : sched.overlap = .allow)
    (hs : Covered sched tick s) (hG : InTime sched tick s e)
    (h : s.step sched tick ttl e = some s') : Covered sched tick s' := by
  cases e with
  | elect p reachable => exact covered_elect hs hG h
  | plan p => exact covered_plan hcatch hoverlap hs h
  | push p ok => exact covered_push hs hG h
  | ask p answers =>
    have hcovers := hs.covers p
    simp only [step] at h
    split at h
    next hphase =>
      rw [Covers, hphase] at hcovers
      exact hcovers.elim
    next => cases h
  | settle p =>
    have hcovers := hs.covers p
    simp only [step] at h
    split at h <;> cases h
    exact hs.quiet rfl rfl hcovers
  | renew p =>
    simp only [step] at h
    split at h <;> cases h
    exact ⟨hs.covers, hs.accepted⟩
  | work id state =>
    cases h
    exact ⟨hs.covers, hs.accepted⟩
  | tick d =>
    cases h
    exact ⟨hs.covers, hs.accepted⟩
  | pass p =>
    simp only [step] at h
    split at h <;> cases h <;> exact hs.quiet rfl rfl rfl
  | start p =>
    simp only [step] at h
    split at h <;> cases h
    exact hs.quiet rfl rfl trivial
  | stop p =>
    simp only [step] at h
    split at h <;> cases h <;> exact hs.quiet rfl rfl trivial
  | crash p =>
    simp only [step] at h
    split at h <;> cases h
    exact hs.quiet rfl rfl trivial

/-- A fleet that hands over in time drops nothing. -/
theorem neverDropped_of_inTime (hcatch : sched.catchUp = false) (hoverlap : sched.overlap = .allow)
    {now : ℕ} {es : List (FleetEvent ι)}
    (h : Machine.Meets (step sched tick ttl) (InTime sched tick) (init now) es) :
    Machine.Always (step sched tick ttl) (NeverDropped sched) (init now) es :=
  (Machine.always_of_meets (I := Covered sched tick)
    (fun _ _ _ hs hG h => covered_step hcatch hoverlap hs hG h)
    (covered_init now) h).mono fun _ hs => hs.neverDropped

end FleetState

end Moso.Jobs
