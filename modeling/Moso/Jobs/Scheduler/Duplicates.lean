import Moso.Jobs.Scheduler.Cursor
import Moso.Jobs.Memory.Pull

/-!
# No occurrence twice

The unique key of an occurrence protects it only while its row is active, and a process that
takes over replays from its own cursor, which stood still while others led. An occurrence becomes
two rows exactly when a process pushes one that another process enqueued and that is over.
-/

namespace Moso.Jobs

/-! ### The queue's side -/

/-- Pushing the key `k` adds it to the active keys, unless it is one of them. -/
def Dedup {κ : Type*} [DecidableEq κ] (active : List κ) (k : κ) (active' : List κ) : Prop :=
  active'.Perm (if k ∈ active then active else k :: active)

/-- The unique keys of the active rows. -/
def MemoryQueue.activeKeys (q : MemoryQueue) : List String :=
  (q.jobs.filter fun held => held.job.state.isActive).filterMap fun held => held.job.uniqueKey

/-- The in-memory queue deduplicates a keyed job. -/
theorem MemoryQueue.push_dedup {q q' : MemoryQueue} {job : QueuedJob} {key : String}
    (hkey : job.uniqueKey = some key) (hactive : job.state.isActive)
    (hid : ∀ held ∈ q.jobs, held.job.id ≠ job.id) (h : q.push job = .ok q') :
    Dedup q.activeKeys key q'.activeKeys := by
  have hany : (q.jobs.any fun held =>
      held.job.state.isActive ∧ held.job.uniqueKey = job.uniqueKey) = true ↔
        key ∈ q.activeKeys := by
    simp [activeKeys, hkey, and_assoc]
  unfold push at h
  split at h
  next => cases h
  next =>
    split at h <;> obtain rfl := Except.ok.inj h
    next hdup => rw [Dedup, if_pos (hany.mp hdup.2)]
    next hdup =>
      rw [Dedup, if_neg fun hmem => hdup ⟨by rw [hkey]; rfl, hany.mpr hmem⟩]
      have hperm : (insert (Held.new job) q.jobs).Perm (Held.new job :: q.jobs) :=
        insert_perm hid
      refine ((hperm.filter _).filterMap _).trans ?_
      simp [activeKeys, Held.new, hactive, hkey]

namespace FleetState

variable {ι : Type*} [DecidableEq ι] {sched : Schedule} {tick ttl : ℕ}
  {s s' : FleetState ι} {e : FleetEvent ι}

/-- The keys of the active rows. -/
def activeKeys (rows : List (Row ι)) : List ℕ :=
  (rows.filter fun row => row.state.isActive).map fun row => uniqueKey row.occurrence

omit [DecidableEq ι] in
lemma any_active {rows : List (Row ι)} {t : ℕ} :
    (rows.any fun held =>
      held.state.isActive ∧ uniqueKey held.occurrence = uniqueKey t) = true ↔
        uniqueKey t ∈ activeKeys rows := by
  simp [activeKeys, and_assoc]

omit [DecidableEq ι] in
/-- So does the queue of the fleet. -/
theorem enqueue_dedup {rows : List (Row ι)} {row : Row ι} (hactive : row.state.isActive) :
    Dedup (activeKeys rows) (uniqueKey row.occurrence) (activeKeys (enqueue rows row)) := by
  unfold enqueue
  split
  next h => rw [Dedup, if_pos (any_active.1 h)]
  next h =>
    rw [Dedup, if_neg fun hmem => h (any_active.2 hmem)]
    simp only [activeKeys, List.filter_append, List.map_append]
    simp [hactive]

/-! ### The property and its condition -/

/-- The documented guarantee: no occurrence has become two rows. -/
def NeverDuplicated (s : FleetState ι) : Prop := (s.rows.map Row.occurrence).Nodup

instance (s : FleetState ι) : Decidable s.NeverDuplicated :=
  inferInstanceAs (Decidable (List.Nodup _))

/-- When the step pushes an occurrence that another process enqueued, a row with its key is still
active. -/
def OnlyActiveRepeated (s : FleetState ι) : FleetEvent ι → Prop
  | .push p true => ∀ t ∈ (s.process p).pending.head?, ∀ row ∈ s.rows, row.occurrence = t →
      row.leader ≠ p → uniqueKey t ∈ activeKeys s.rows
  | _ => True

/-- The rows are distinct, and each was pushed by its leader. -/
structure Distinct (s : FleetState ι) : Prop where
  advancing : s.Advancing
  nodup : s.NeverDuplicated
  pushed : ∀ row ∈ s.rows, ∃ a ∈ s.pushes, a.leader = row.leader ∧ a.occurrence = row.occurrence

omit [DecidableEq ι] in
lemma distinct_init (now : ℕ) : (init now : FleetState ι).Distinct :=
  ⟨advancing_init now, .nil, by simp [init]⟩

/-- Who enqueued which occurrence. -/
def labels (rows : List (Row ι)) : List (ι × ℕ) := rows.map fun row => (row.leader, row.occurrence)

/-- Only a push and a worker touch the rows. -/
lemma rows_eq (h : s.step sched tick ttl e = some s') (hpush : ∀ p ok, e ≠ .push p ok)
    (hwork : ∀ id state, e ≠ .work id state) : s'.rows = s.rows := by
  cases e with
  | push p ok => exact absurd rfl (hpush p ok)
  | work id state => exact absurd rfl (hwork id state)
  | _ =>
    simp only [step] at h
    repeat' split at h
    all_goals cases h <;> rfl

lemma pushes_subset (h : s.step sched tick ttl e = some s') : s.pushes ⊆ s'.pushes := by
  cases step_move h with
  | starts p h => exact h.pushes ▸ List.Subset.refl _
  | plans p h => exact h.pushes ▸ List.Subset.refl _
  | pushes p t ok h => exact h.pushes ▸ List.subset_append_left _ _
  | quiet h => exact h.pushes ▸ List.Subset.refl _

/-- A step pushes an occurrence that the queue accepts, or adds no row. -/
lemma rows_step (h : s.step sched tick ttl e = some s') :
    (∃ p t, e = .push p true ∧ t ∈ (s.process p).pending.head? ∧
      s'.rows = enqueue s.rows { id := s.ids, occurrence := t, leader := p, state := .ready } ∧
      s'.pushes = s.pushes ++ [{ leader := p, occurrence := t, ok := true }]) ∨
    (labels s'.rows = labels s.rows ∧ s.pushes ⊆ s'.pushes ∧ ∀ p, e ≠ .push p true) := by
  cases e with
  | push p ok =>
    simp only [step] at h
    split at h
    case h_2 => cases h
    next pass t rest hphase =>
    split at h
    next hok =>
      refine .inl ⟨p, t, by rw [hok], by simp [Process.pending, hphase], ?_⟩
      split at h <;> obtain rfl := Option.some.inj h <;> exact ⟨rfl, by rw [← hok]; rfl⟩
    next hok =>
      obtain rfl := Option.some.inj h
      exact .inr ⟨rfl, List.subset_append_left _ _, fun q hq => hok (by injection hq)⟩
  | work id state =>
    cases h
    refine .inr ⟨?_, List.Subset.refl _, by simp⟩
    simp only [labels, List.map_map]
    refine List.map_congr_left fun row _ => ?_
    by_cases hid : row.id = id <;> simp [hid]
  | _ => exact .inr ⟨by rw [rows_eq h (by simp) (by simp)], pushes_subset h, by simp⟩

/-- As long as only active occurrences are repeated, the rows stay distinct. -/
lemma distinct_step (hs : s.Distinct) (hG : s.OnlyActiveRepeated e)
    (h : s.step sched tick ttl e = some s') : s'.Distinct := by
  refine ⟨advancing_step hs.advancing h, ?_, ?_⟩ <;>
    rcases rows_step h with ⟨p, t, rfl, ht, hrows, hpushes⟩ | ⟨hlabels, hpushes, -⟩
  · rw [NeverDuplicated, hrows, enqueue]
    split
    next => exact hs.nodup
    next hfree =>
      rw [List.map_append, List.map_singleton]
      refine List.nodup_append'.mpr ⟨hs.nodup, List.nodup_singleton _, ?_⟩
      simp only [List.disjoint_singleton]
      intro hmem
      obtain ⟨row, hrow, hocc⟩ := List.mem_map.mp hmem
      by_cases hown : row.leader = p
      · -- the process itself never comes back to an occurrence
        obtain ⟨a, ha, hleader, hocc'⟩ := hs.pushed row hrow
        have hlt := hs.advancing.past a ha t
          (by rw [hleader, hown]; exact List.mem_of_mem_head? ht)
        omega
      · exact hfree (any_active.2 (hG t ht row hrow hocc hown))
  · have hocc : ∀ rows : List (Row ι), rows.map Row.occurrence = (labels rows).map Prod.snd := by
      simp [labels]
    rw [NeverDuplicated, hocc, hlabels, ← hocc]
    exact hs.nodup
  · intro row hrow
    rw [hrows, enqueue] at hrow
    rw [hpushes]
    have hold : row ∈ s.rows → ∃ a ∈ s.pushes ++ [{ leader := p, occurrence := t, ok := true }],
        a.leader = row.leader ∧ a.occurrence = row.occurrence := fun hrow => by
      obtain ⟨a, ha, h⟩ := hs.pushed row hrow
      exact ⟨a, List.mem_append_left _ ha, h⟩
    split at hrow
    next => exact hold hrow
    next =>
      rcases List.mem_append.mp hrow with hrow | hrow
      · exact hold hrow
      · obtain rfl := List.mem_singleton.mp hrow
        exact ⟨_, List.mem_append_right _ (List.mem_singleton_self _), rfl, rfl⟩
  · intro row hrow
    have hmem : (row.leader, row.occurrence) ∈ labels s.rows :=
      hlabels ▸ List.mem_map_of_mem hrow
    obtain ⟨old, hold, heq⟩ := List.mem_map.mp hmem
    obtain ⟨a, ha, hleader, hocc⟩ := hs.pushed old hold
    obtain ⟨h₁, h₂⟩ := Prod.mk.inj heq
    exact ⟨a, hpushes ha, hleader.trans h₁, hocc.trans h₂⟩

/-- The first time one that is over is repeated, it becomes a second row. -/
lemma duplicated_step (hG : ¬ s.OnlyActiveRepeated e)
    (h : s.step sched tick ttl e = some s') : ¬ s'.NeverDuplicated := by
  rcases rows_step h with ⟨p, t, rfl, ht, hrows, -⟩ | ⟨-, -, hne⟩
  · simp only [OnlyActiveRepeated, not_forall] at hG
    obtain ⟨u, hu, row, hrow, hocc, -, hover⟩ := hG
    obtain rfl : t = u := Option.some.inj (ht.symm.trans hu)
    rw [NeverDuplicated, hrows, enqueue, if_neg fun hany => hover (any_active.1 hany),
      List.map_append, List.map_singleton]
    intro hnodup
    exact (List.nodup_append'.mp hnodup).2.2 (List.mem_map.mpr ⟨row, hrow, hocc⟩)
      (List.mem_singleton_self t)
  · refine absurd ?_ hG
    cases e with
    | push p ok =>
      cases ok with
      | true => exact absurd rfl (hne p)
      | false => trivial
    | _ => trivial

/-- No occurrence is enqueued twice along a run exactly when no process, at any step of it,
pushes an occurrence that another process enqueued and of which no row is active any more. -/
theorem neverDuplicated_iff_onlyActiveRepeated (sched : Schedule) (tick ttl now : ℕ)
    (es : List (FleetEvent ι)) :
    Machine.Always (step sched tick ttl) NeverDuplicated (init now) es ↔
      Machine.Meets (step sched tick ttl) OnlyActiveRepeated (init now) es :=
  Machine.always_iff_meets (I := Distinct) (fun _ _ _ hs hG h => distinct_step hs hG h)
    (fun _ hs => hs.nodup) (fun _ _ _ _ hG h => duplicated_step hG h) (distinct_init now) es

/-- Two processes share a per-minute schedule. The first enqueues the occurrence of minute one,
a worker acknowledges its row, and the process shuts down and gives its lease back. Five seconds
later the second one is elected, with the cursor it has had since it started. -/
def handedOverRun : List (FleetEvent ℕ) :=
  [.start 0, .start 1, .tick 60000000000,
    .pass 0, .elect 0 true, .plan 0, .push 0 true, .work 0 .running, .work 0 .done, .stop 0,
    .tick 5000000000, .pass 1, .elect 1 true, .plan 1, .push 1 true]

/-- The second process enqueues the same occurrence again. -/
theorem neverDuplicated_fails_after_a_hand_over :
    ∃ s, Machine.exec (step (Schedule.everyMinute .skip) 5000000000 60000000000)
        (init 0 : FleetState ℕ) handedOverRun = some s ∧
      s.rows.map (fun row => (row.leader, row.occurrence)) =
        [(0, 60000000000), (1, 60000000000)] ∧ ¬ s.NeverDuplicated :=
  ⟨_, rfl, rfl, by decide⟩

end FleetState

end Moso.Jobs
