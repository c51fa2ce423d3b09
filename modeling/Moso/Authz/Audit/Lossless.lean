import Moso.Authz.Audit

/-!
# Audit entries that are not lost

An entry that is recorded is kept by the inner sink, by the buffer or by the task that has it in
its batch, and an entry that the inner sink was handed is written or is being written for a task.
-/

namespace Moso.Authz

open Parties (update_eq_some update_none_eq_some)

/-- Who keeps an entry that is recorded. -/
inductive AuditPlace where
  | inner
  | buffer
  | hand (i : ℕ)
  deriving DecidableEq

namespace AuditRun

variable {s s' : AuditRun} {i : ℕ} {task : AuditTask} {batchSize : ℕ}

/-- The entries that each of them keeps. -/
def keeper (s : AuditRun) : AuditPlace → List ℕ
  | .inner => s.handed
  | .buffer => s.buffer
  | .hand i => ((s.tasks i).map fun task => task.phase.rest).getD []

/-- The entries that are written, and those that are being written for a task. -/
def writer (s : AuditRun) : Option ℕ → List ℕ
  | none => s.written
  | some i => ((s.tasks i).bind fun task => task.phase.current).toList

lemma keeper_put : (s.put i task).keeper =
    Function.update s.keeper (.hand i) task.phase.rest := by
  funext p
  cases p with
  | inner => rfl
  | buffer => rfl
  | hand j =>
    by_cases hj : j = i
    · subst hj
      simp [keeper, put]
    · rw [Function.update_of_ne (fun heq => hj (AuditPlace.hand.inj heq))]
      simp [keeper, put, hj]

lemma writer_put : (s.put i task).writer =
    Function.update s.writer (some i) task.phase.current.toList := by
  funext p
  cases p with
  | none => rfl
  | some j =>
    by_cases hj : j = i
    · subst hj
      simp [writer, put]
    · rw [Function.update_of_ne (fun heq => hj (Option.some.inj heq))]
      simp [writer, put, hj]

lemma keeper_leave : (s.leave i).keeper = Function.update s.keeper (.hand i) [] := by
  funext p
  cases p with
  | inner => rfl
  | buffer => rfl
  | hand j =>
    by_cases hj : j = i
    · subst hj
      simp [keeper, leave]
    · rw [Function.update_of_ne (fun heq => hj (AuditPlace.hand.inj heq))]
      simp [keeper, leave, hj]

lemma writer_leave : (s.leave i).writer = Function.update s.writer (some i) [] := by
  funext p
  cases p with
  | none => rfl
  | some j =>
    by_cases hj : j = i
    · subst hj
      simp [writer, leave]
    · rw [Function.update_of_ne (fun heq => hj (Option.some.inj heq))]
      simp [writer, leave, hj]

/-- What every run keeps in which no batch is dropped. -/
structure Sound (s : AuditRun) : Prop where
  begun : ∀ j task, s.tasks j = some task → j ∈ s.begun
  recorded : ∀ entry ∈ s.recorded, entry ∈ s.begun
  unpushed : ∀ j task, s.tasks j = some task → task.role = .record → task.phase = .begun →
    j ∉ s.recorded
  kept : Custody.Exact s.recorded s.keeper
  writes : Custody.Exact s.handed s.writer
  before : ∀ j task, s.tasks j = some task → ∀ entry ∈ task.before,
    entry ∈ s.recorded ∧ (task.phase ≠ .begun → entry ∉ s.buffer)
  missed : ∀ missed ∈ s.missed, missed = false

lemma Sound.lossless (h : s.Sound) (hlength : s.buffer.length < max batchSize 1) :
    s.Lossless batchSize := by
  refine ⟨⟨List.nodup_append.mpr ⟨h.kept.nodup .inner, h.kept.nodup .buffer, ?_⟩,
    fun entry hentry => ?_⟩, le_of_lt hlength, h.missed⟩
  · rintro a ha _ hb rfl
    exact h.kept.apart .inner .buffer a (by decide) ha hb
  · obtain ⟨p, hp⟩ := (h.kept.mem_iff entry).mp hentry
    cases p with
    | inner => exact .inl hp
    | buffer => exact .inr (.inl hp)
    | hand j =>
      refine .inr (.inr ?_)
      cases hj : s.tasks j with
      | none =>
        simp only [keeper, hj] at hp
        cases hp
      | some task =>
        simp only [keeper, hj] at hp
        exact ⟨j, task, hj, hp⟩

/-! ### Tasks that keep what they have -/

lemma Sound.put_begun (h : s.Sound) (hi : i ∈ s.begun) :
    ∀ j other, (s.put i task).tasks j = some other → j ∈ s.begun := by
  intro j other hj
  rcases update_eq_some.1 hj with ⟨rfl, -⟩ | ⟨-, hj⟩
  · exact hi
  · exact h.begun j other hj

/-- A task goes on with what it has. -/
lemma Sound.put (h : s.Sound) (hi : i ∈ s.begun) (hrest : s.keeper (.hand i) = task.phase.rest)
    (hcurrent : s.writer (some i) = task.phase.current.toList)
    (hunpushed : task.role = .record → task.phase = .begun → i ∉ s.recorded)
    (hbefore : ∀ entry ∈ task.before,
      entry ∈ s.recorded ∧ (task.phase ≠ .begun → entry ∉ s.buffer)) : (s.put i task).Sound where
  begun := h.put_begun hi
  recorded := h.recorded
  unpushed j other hj hrole hphase := by
    rcases update_eq_some.1 hj with ⟨rfl, heq⟩ | ⟨-, hj⟩
    · obtain rfl := Option.some.inj heq
      exact hunpushed hrole hphase
    · exact h.unpushed j other hj hrole hphase
  kept := by
    rw [keeper_put, ← hrest, Function.update_eq_self]
    exact h.kept
  writes := by
    rw [writer_put, ← hcurrent, Function.update_eq_self]
    exact h.writes
  before j other hj := by
    rcases update_eq_some.1 hj with ⟨-, heq⟩ | ⟨-, hj⟩
    · obtain rfl := Option.some.inj heq
      exact hbefore
    · exact h.before j other hj
  missed := h.missed

/-- A task that has nothing may leave. -/
lemma Sound.leave (h : s.Sound) (hrest : s.keeper (.hand i) = [])
    (hcurrent : s.writer (some i) = []) : (s.leave i).Sound where
  begun j other hj := h.begun j other (update_none_eq_some.1 hj).2
  recorded := h.recorded
  unpushed j other hj := h.unpushed j other (update_none_eq_some.1 hj).2
  kept := by
    rw [keeper_leave, ← hrest, Function.update_eq_self]
    exact h.kept
  writes := by
    rw [writer_leave, ← hcurrent, Function.update_eq_self]
    exact h.writes
  before j other hj := h.before j other (update_none_eq_some.1 hj).2
  missed := h.missed

lemma keeper_of_task (hi : s.tasks i = some task) :
    s.keeper (.hand i) = task.phase.rest := by
  simp [keeper, hi]

lemma writer_of_task (hi : s.tasks i = some task) :
    s.writer (some i) = task.phase.current.toList := by
  simp [writer, hi]

/-! ### Entries that go from hand to hand -/

/-- A task that has nothing takes the buffer. -/
lemma Sound.take (h : s.Sound) (hi : i ∈ s.begun) (hrest : s.keeper (.hand i) = [])
    (hcurrent : s.writer (some i) = []) (hbefore : ∀ entry ∈ task.before, entry ∈ s.recorded) :
    (s.take i task).Sound := by
  cases hbuffer : s.buffer with
  | nil =>
    simp only [AuditRun.take, hbuffer]
    refine h.put hi hrest hcurrent (fun _ heq => by cases heq)
      fun entry hentry => ⟨hbefore entry hentry, fun _ hmem => ?_⟩
    rw [hbuffer] at hmem
    cases hmem
  | cons entry rest =>
    simp only [AuditRun.take, hbuffer]
    have hbuffer' : s.keeper .buffer = [entry] ++ rest := hbuffer
    have hnew : entry ∉ s.handed := fun hmem => by
      refine h.kept.apart .inner .buffer entry (by decide) hmem ?_
      rw [hbuffer']
      exact List.mem_cons_self
    have hkept := h.kept.transfer (q := .inner) (by decide) hbuffer'
    have hrest' : Function.update (Function.update s.keeper .buffer rest) .inner
        ([entry] ++ s.keeper .inner) .buffer = rest ++ [] := by
      rw [Function.update_of_ne (by decide), Function.update_self, List.append_nil]
    have hkept' := hkept.transfer (q := .hand i) (by rintro ⟨⟩) hrest'
    exact {
      begun := (h.put_begun hi)
      recorded := h.recorded
      unpushed := fun j other hj hrole hphase => by
        rcases update_eq_some.1 hj with ⟨-, heq⟩ | ⟨-, hj⟩
        · obtain rfl := Option.some.inj heq
          cases hphase
        · exact h.unpushed j other hj hrole hphase
      kept := by
        refine hkept'.perm fun p => List.Perm.of_eq ?_
        cases p with
        | inner => rfl
        | buffer => rfl
        | hand j =>
          show (s.put i { task with phase := .writing entry rest }).keeper (.hand j) = _
          rw [keeper_put]
          by_cases hj : j = i
          · subst hj
            simp [hrest, AuditPhase.rest]
          · simp [hj]
      writes := by
        refine (h.writes.add hnew (some i)).perm fun p => List.Perm.of_eq ?_
        cases p with
        | none => rfl
        | some j =>
          show (s.put i { task with phase := .writing entry rest }).writer (some j) = _
          rw [writer_put, hcurrent]
          rfl
      before := fun j other hj entry' hentry => by
        rcases update_eq_some.1 hj with ⟨-, heq⟩ | ⟨-, hj⟩
        · obtain rfl := Option.some.inj heq
          exact ⟨hbefore entry' hentry, fun _ => List.not_mem_nil⟩
        · exact ⟨(h.before j other hj entry' hentry).1, fun _ => List.not_mem_nil⟩
      missed := h.missed }

/-- The inner sink has written an entry, and is handed the next one of the batch. -/
lemma Sound.advance (h : s.Sound) (hi : s.tasks i = some task) {entry next : ℕ} {rest : List ℕ}
    (hphase : task.phase = .writing entry (next :: rest)) :
    ({ s.put i { task with phase := .writing next rest } with
      written := entry :: s.written, handed := next :: s.handed } : AuditRun).Sound := by
  have hrest : s.keeper (.hand i) = [next] ++ rest := by
    rw [keeper_of_task hi, hphase]
    rfl
  have hcurrent : s.writer (some i) = [entry] ++ [] := by
    rw [writer_of_task hi, hphase]
    rfl
  have hnew : next ∉ s.handed := fun hmem => by
    refine h.kept.apart .inner (.hand i) next (by rintro ⟨⟩) hmem ?_
    rw [hrest]
    exact List.mem_cons_self
  have hkept := h.kept.transfer (q := .inner) (by rintro ⟨⟩) hrest
  have hwrites := (h.writes.transfer (q := none) (by rintro ⟨⟩) hcurrent).add hnew (some i)
  exact {
    begun := h.put_begun (h.begun i task hi)
    recorded := h.recorded
    unpushed := fun j other hj hrole hphase' => by
      rcases update_eq_some.1 hj with ⟨-, heq⟩ | ⟨-, hj⟩
      · obtain rfl := Option.some.inj heq
        cases hphase'
      · exact h.unpushed j other hj hrole hphase'
    kept := by
      refine hkept.perm fun p => List.Perm.of_eq ?_
      cases p with
      | inner => rfl
      | buffer => rfl
      | hand j =>
        show (s.put i { task with phase := .writing next rest }).keeper (.hand j) = _
        rw [keeper_put]
        exact (Function.update_of_ne (by rintro ⟨⟩) _ _).symm
    writes := by
      refine hwrites.perm fun p => List.Perm.of_eq ?_
      cases p with
      | none => rfl
      | some j =>
        show (s.put i { task with phase := .writing next rest }).writer (some j) = _
        rw [writer_put]
        by_cases hj : j = i
        · subst hj
          simp [AuditPhase.current]
        · simp [hj]
    before := fun j other hj entry' hentry => by
      rcases update_eq_some.1 hj with ⟨-, heq⟩ | ⟨-, hj⟩
      · obtain rfl := Option.some.inj heq
        have hbefore := h.before i task hi entry' hentry
        exact ⟨hbefore.1, fun _ => hbefore.2 (by rw [hphase]; rintro ⟨⟩)⟩
      · exact h.before j other hj entry' hentry
    missed := h.missed }

/-- The inner sink has written the last entry of a batch. -/
lemma Sound.settle (h : s.Sound) (hi : s.tasks i = some task) {entry : ℕ}
    (hphase : task.phase = .writing entry []) :
    ({ s.leave i with written := entry :: s.written } : AuditRun).Sound := by
  have hrest : s.keeper (.hand i) = [] := by
    rw [keeper_of_task hi, hphase]
    rfl
  have hcurrent : s.writer (some i) = [entry] ++ [] := by
    rw [writer_of_task hi, hphase]
    rfl
  have hwrites := h.writes.transfer (q := none) (by rintro ⟨⟩) hcurrent
  exact {
    begun := fun j other hj => h.begun j other (update_none_eq_some.1 hj).2
    recorded := h.recorded
    unpushed := fun j other hj => h.unpushed j other (update_none_eq_some.1 hj).2
    kept := by
      refine h.kept.perm fun p => List.Perm.of_eq ?_
      cases p with
      | inner => rfl
      | buffer => rfl
      | hand j =>
        show (s.leave i).keeper (.hand j) = _
        rw [keeper_leave, ← hrest, Function.update_eq_self]
    writes := by
      refine hwrites.perm fun p => List.Perm.of_eq ?_
      cases p with
      | none => rfl
      | some j =>
        show (s.leave i).writer (some j) = _
        rw [writer_leave]
        exact (Function.update_of_ne (by rintro ⟨⟩) _ _).symm
    before := fun j other hj => h.before j other (update_none_eq_some.1 hj).2
    missed := h.missed }

/-- A task that has nothing is out of the way. -/
lemma put_leave : (s.leave i).put i task = s.put i task := by
  simp only [AuditRun.put, AuditRun.leave, Function.update_idem]

lemma take_leave : (s.leave i).take i task = s.take i task := by
  have hbuffer : (s.leave i).buffer = s.buffer := rfl
  cases h : s.buffer with
  | nil =>
    simp only [AuditRun.take, hbuffer, h]
    exact put_leave
  | cons entry rest =>
    simp only [AuditRun.take, hbuffer, h, put_leave]
    rfl

/-- A new entry is buffered. -/
lemma Sound.buffer (h : s.Sound) (hi : i ∈ s.begun) (hnew : i ∉ s.recorded)
    (htask : s.tasks i = none) :
    ({ s with buffer := s.buffer ++ [i], recorded := i :: s.recorded } : AuditRun).Sound where
  begun := h.begun
  recorded entry hentry := by
    rcases List.mem_cons.mp hentry with rfl | hentry
    · exact hi
    · exact h.recorded entry hentry
  unpushed j other hj hrole hphase hmem := by
    rcases List.mem_cons.mp hmem with rfl | hmem
    · rw [htask] at hj
      cases hj
    · exact h.unpushed j other hj hrole hphase hmem
  kept := by
    refine (h.kept.add hnew .buffer).perm fun p => ?_
    cases p with
    | inner => exact .rfl
    | buffer => exact List.perm_append_singleton i s.buffer
    | hand j => exact .rfl
  writes := h.writes
  before j other hj entry hentry := by
    obtain ⟨hmem, hbuffer⟩ := h.before j other hj entry hentry
    refine ⟨List.mem_cons_of_mem _ hmem, fun hphase hmem' => ?_⟩
    rcases List.mem_append.mp hmem' with hmem' | hmem'
    · exact hbuffer hphase hmem'
    · obtain rfl := List.mem_singleton.mp hmem'
      exact hnew hmem
  missed := h.missed

/-! ### What the steps keep -/

lemma Sound.begin_ (h : s.Sound) {role : AuditRole} {before : List ℕ}
    (hstep : s.begin_ i role before = some s') (hbefore : ∀ entry ∈ before, entry ∈ s.recorded) :
    s'.Sound := by
  rw [AuditRun.begin_] at hstep
  split at hstep
  · cases hstep
  next hnew =>
    obtain rfl := Option.some.inj hstep
    have hnone : s.tasks i = none := by
      cases hi : s.tasks i with
      | none => rfl
      | some task => exact absurd (h.begun i task hi) hnew
    have hbegun : ({ s with begun := i :: s.begun } : AuditRun).Sound :=
      { h with
        begun := fun j task hj => List.mem_cons_of_mem _ (h.begun j task hj)
        recorded := fun entry hentry => List.mem_cons_of_mem _ (h.recorded entry hentry) }
    refine hbegun.put List.mem_cons_self ?_ ?_ (fun _ _ hmem => hnew (h.recorded i hmem))
      fun entry hentry => ⟨hbefore entry hentry, fun hphase => absurd rfl hphase⟩
    · simp [keeper, hnone, AuditPhase.rest]
    · simp [writer, hnone, AuditPhase.current]

/-- No other task has the property. -/
lemma Sound.of_anyOther (h : s.Sound) {p : AuditTask → Bool} (hnone : s.anyOther i p = false)
    {j : ℕ} {other : AuditTask} (hne : j ≠ i) (hj : s.tasks j = some other) : p other = false := by
  cases hp : p other with
  | false => rfl
  | true =>
    have hany : s.anyOther i p = true := by
      refine List.any_eq_true.mpr ⟨j, h.begun j other hj, ?_⟩
      rw [hj, Option.any_some, hp, Bool.and_true]
      exact decide_eq_true hne
    rw [hnone] at hany
    cases hany

/-- The guard returns: what was recorded before is written, unless somebody records. -/
lemma Sound.finish (h : s.Sound) (hi : s.tasks i = some task) (hrest : task.phase.rest = [])
    (hcurrent : task.phase.current = none) (hbuffer : ∀ entry ∈ task.before, entry ∉ s.buffer)
    (hkeeps : s.anyOther i (fun other => other.role ≠ .record &&
      task.before.any fun entry => other.phase.current = some entry ∨ entry ∈ other.phase.rest) =
        false) : (s.finish i task).Sound := by
  have hleave : (s.leave i).Sound := by
    refine h.leave ?_ ?_
    · rw [keeper_of_task hi, hrest]
    · rw [writer_of_task hi, hcurrent]
      rfl
  refine { hleave with missed := fun missed hmissed => ?_ }
  rcases List.mem_cons.mp hmissed with rfl | hmissed
  · refine Bool.eq_false_iff.mpr fun htrue => ?_
    obtain ⟨hrecord, hany⟩ := Bool.and_eq_true_iff.mp htrue
    have hrecord := (Bool.not_eq_true' _).mp hrecord
    obtain ⟨entry, hentry, hnot⟩ := List.any_eq_true.mp hany
    have hnot := of_decide_eq_true hnot
    -- Nobody else has the entry.
    have hfree : ∀ j other, s.tasks j = some other →
        other.phase.current ≠ some entry ∧ entry ∉ other.phase.rest := by
      intro j other hj
      by_cases hji : j = i
      · subst hji
        obtain rfl := Option.some.inj (hi.symm.trans hj)
        rw [hrest, hcurrent]
        exact ⟨by rintro ⟨⟩, List.not_mem_nil⟩
      · have hrole := of_decide_eq_false (h.of_anyOther hrecord hji hj)
        have hkept := h.of_anyOther hkeeps hji hj
        rw [decide_eq_true hrole, Bool.true_and] at hkept
        refine not_or.mp fun hor => ?_
        rw [List.any_eq_true.mpr ⟨entry, hentry, decide_eq_true hor⟩] at hkept
        cases hkept
    obtain ⟨p, hp⟩ := (h.kept.mem_iff entry).mp (h.before i task hi entry hentry).1
    cases p with
    | buffer => exact hbuffer entry hentry hp
    | hand j =>
      cases hj : s.tasks j with
      | none =>
        simp only [keeper, hj] at hp
        cases hp
      | some other =>
        rw [keeper_of_task hj] at hp
        exact (hfree j other hj).2 hp
    | inner =>
      obtain ⟨q, hq⟩ := (h.writes.mem_iff entry).mp hp
      cases q with
      | none => exact hnot hq
      | some j =>
        cases hj : s.tasks j with
        | none =>
          simp only [writer, hj] at hq
          cases hq
        | some other =>
          rw [writer_of_task hj] at hq
          exact (hfree j other hj).1 (Option.mem_toList.mp hq)
  · exact h.missed missed hmissed

lemma Sound.push (h : s.Sound) (hi : s.tasks i = some task) (hphase : task.phase = .begun)
    (hrole : task.role = .record) : (s.push batchSize i task).Sound := by
  have hleave : (s.leave i).Sound := by
    refine h.leave ?_ ?_
    · rw [keeper_of_task hi, hphase]
      rfl
    · rw [writer_of_task hi, hphase]
      rfl
  have hnone : (s.leave i).tasks i = none := by simp [AuditRun.leave]
  have hbuffer := hleave.buffer (h.begun i task hi) (h.unpushed i task hi hrole hphase) hnone
  rw [AuditRun.push]
  split
  · rw [← take_leave]
    refine hbuffer.take (h.begun i task hi) ?_ ?_ fun entry hentry =>
      List.mem_cons_of_mem _ (h.before i task hi entry hentry).1
    · simp [keeper, hnone]
    · simp [writer, hnone]
  · exact hbuffer

/-- What a task has to go on with a step of its own. -/
lemma Sound.goOn (h : s.Sound) (hi : s.tasks i = some task) {role : AuditRole} {phase : AuditPhase}
    (hrest : task.phase.rest = phase.rest) (hcurrent : task.phase.current = phase.current)
    (hrole : role ≠ .record) (hphase : phase ≠ .begun → task.phase ≠ .begun) :
    (s.put i { task with role := role, phase := phase }).Sound := by
  refine h.put (h.begun i task hi) ?_ ?_ (fun hrecord => absurd hrecord hrole)
    fun entry hentry => ?_
  · rw [keeper_of_task hi, hrest]
  · rw [writer_of_task hi, hcurrent]
  · obtain ⟨hmem, hbuffer⟩ := h.before i task hi entry hentry
    exact ⟨hmem, fun hne => hbuffer (hphase hne)⟩

/-- A task that is polled for the first time, or at a tick, takes the buffer. -/
lemma Sound.takes (h : s.Sound) (hi : s.tasks i = some task) (hphase : task.phase = .begun) :
    (s.take i task).Sound := by
  refine h.take (h.begun i task hi) ?_ ?_ fun entry hentry => (h.before i task hi entry hentry).1
  · rw [keeper_of_task hi, hphase]
    rfl
  · rw [writer_of_task hi, hphase]
    rfl

/-- The inner sink has written the last entry of a batch, and is flushed. -/
lemma Sound.flushes (h : s.Sound) (hi : s.tasks i = some task) {entry : ℕ}
    (hphase : task.phase = .writing entry []) :
    ({ s.put i { task with phase := .flushing } with
      written := entry :: s.written } : AuditRun).Sound := by
  have hsettle := h.settle hi hphase
  rw [← put_leave]
  refine hsettle.put (h.begun i task hi) ?_ ?_ (fun _ heq => by cases heq) fun entry' hentry => ?_
  · show (s.leave i).keeper (.hand i) = _
    rw [keeper_leave, Function.update_self]
    rfl
  · show (s.leave i).writer (some i) = _
    rw [writer_leave, Function.update_self]
    rfl
  · obtain ⟨hmem, hbuffer⟩ := h.before i task hi entry' hentry
    exact ⟨hmem, fun _ => hbuffer (by rw [hphase]; rintro ⟨⟩)⟩

lemma Sound.go (h : s.Sound) (hi : s.tasks i = some task)
    (hkeeps : s.keepsBatches (.go i) = true) : (s.go batchSize i task).Sound := by
  have haborted : ({ s with aborted := true } : AuditRun).Sound := { h with }
  have hreturn : s.returns task = true → s.anyOther i (fun other => other.role ≠ .record &&
      task.before.any fun entry =>
        other.phase.current = some entry ∨ entry ∈ other.phase.rest) = false := by
    intro hreturns
    rw [keepsBatches, hi, Option.all_some, hreturns, Bool.not_true, Bool.false_or] at hkeeps
    exact (Bool.not_eq_true' _).mp hkeeps
  have hbefore := h.before i task hi
  obtain ⟨role, phase, before⟩ := task
  cases phase with
  | begun =>
    cases role with
    | record => exact h.push hi rfl rfl
    | flush => exact h.takes hi rfl
    | flusher => exact h.takes hi rfl
    | shutdown => exact haborted.takes hi rfl
    | release =>
      simp only [AuditRun.go]
      split
      next hempty =>
        refine haborted.finish hi rfl rfl (fun entry _ hmem => ?_) (hreturn (decide_eq_true hempty))
        have hmem : entry ∈ s.buffer := hmem
        rw [hempty] at hmem
        cases hmem
      next => exact haborted.takes hi rfl
  | writing entry rest =>
    cases rest with
    | cons next rest => exact h.advance hi rfl
    | nil =>
      cases role with
      | record => exact h.settle hi rfl
      | flush => exact h.flushes hi rfl
      | flusher => exact h.flushes hi rfl
      | shutdown => exact h.flushes hi rfl
      | release => exact h.flushes hi rfl
  | flushing =>
    cases role with
    | record =>
      exact h.leave (keeper_of_task hi) (writer_of_task hi)
    | flush => exact h.leave (keeper_of_task hi) (writer_of_task hi)
    | flusher => exact h.goOn hi rfl rfl (by rintro ⟨⟩) fun hne => absurd rfl hne
    | shutdown => exact h.goOn hi rfl rfl (by rintro ⟨⟩) fun hne => absurd rfl hne
    | release =>
      exact h.finish hi rfl rfl (fun entry hentry => (hbefore entry hentry).2 (by rintro ⟨⟩))
        (hreturn rfl)

lemma Sound.step {event : AuditEvent} (h : s.Sound) (hkeeps : s.keepsBatches event = true)
    (hstep : s.step batchSize event = some s') : s'.Sound := by
  have hnothing : ∀ entry ∈ ([] : List ℕ), entry ∈ s.recorded := fun _ hmem => by cases hmem
  cases event with
  | record i => exact h.begin_ hstep hnothing
  | flush i => exact h.begin_ hstep hnothing
  | spawn i =>
    simp only [AuditRun.step] at hstep
    split at hstep
    · have hguard : ({ s with guard := .held } : AuditRun).Sound := { h with }
      exact hguard.begin_ hstep hnothing
    · cases hstep
  | shutdown i =>
    simp only [AuditRun.step] at hstep
    split at hstep
    · have hguard : ({ s with guard := .released } : AuditRun).Sound := { h with }
      exact hguard.begin_ hstep fun _ => id
    · cases hstep
  | release i =>
    simp only [AuditRun.step] at hstep
    split at hstep
    · have hguard : ({ s with guard := .released } : AuditRun).Sound := { h with }
      exact hguard.begin_ hstep fun _ => id
    · cases hstep
  | go i =>
    obtain ⟨task, hi, rfl⟩ := Option.map_eq_some_iff.mp hstep
    exact h.go hi hkeeps
  | drop i =>
    cases hi : s.tasks i with
    | none =>
      simp only [AuditRun.step, hi] at hstep
      cases hstep
    | some task =>
      simp only [AuditRun.step, hi] at hstep
      split at hstep
      · obtain rfl := Option.some.inj hstep
        rw [keepsBatches, hi, Option.all_some] at hkeeps
        have hcurrent := of_decide_eq_true hkeeps
        refine h.leave ?_ ?_
        · rw [keeper_of_task hi]
          cases hphase : task.phase with
          | writing entry rest =>
            rw [hphase] at hcurrent
            cases hcurrent
          | begun => rfl
          | flushing => rfl
        · rw [writer_of_task hi, hcurrent]
          rfl
      · cases hstep

lemma buffer_take : (s.take i task).buffer = [] := by
  rw [AuditRun.take]
  split
  next h => exact h
  next => rfl

/-- The buffer is taken as soon as it holds a batch. -/
lemma length_go (h : s.buffer.length < max batchSize 1) :
    (s.go batchSize i task).buffer.length < max batchSize 1 := by
  have hzero : ([] : List ℕ).length < max batchSize 1 := Nat.lt_of_le_of_lt (Nat.zero_le _) h
  obtain ⟨role, phase, before⟩ := task
  cases phase with
  | begun =>
    cases role with
    | record =>
      simp only [AuditRun.go, push]
      split
      · rwa [buffer_take]
      next hlt => exact Nat.lt_of_not_le hlt
    | release =>
      simp only [AuditRun.go]
      split
      · exact h
      · rwa [buffer_take]
    | flush => simpa only [AuditRun.go, buffer_take] using hzero
    | flusher => simpa only [AuditRun.go, buffer_take] using hzero
    | shutdown => simpa only [AuditRun.go, buffer_take] using hzero
  | writing entry rest =>
    cases rest with
    | cons next rest => exact h
    | nil => cases role <;> exact h
  | flushing => cases role <;> exact h

lemma length_begin {role : AuditRole} {before : List ℕ} (hstep : s.begin_ i role before = some s') :
    s'.buffer = s.buffer := by
  rw [begin_] at hstep
  split at hstep
  · cases hstep
  · obtain rfl := Option.some.inj hstep
    rfl

lemma length_step {event : AuditEvent} (h : s.buffer.length < max batchSize 1)
    (hstep : s.step batchSize event = some s') : s'.buffer.length < max batchSize 1 := by
  cases event with
  | record i => rwa [length_begin hstep]
  | flush i => rwa [length_begin hstep]
  | spawn i =>
    simp only [AuditRun.step] at hstep
    split at hstep
    · rwa [length_begin hstep]
    · cases hstep
  | shutdown i =>
    simp only [AuditRun.step] at hstep
    split at hstep
    · rwa [length_begin hstep]
    · cases hstep
  | release i =>
    simp only [AuditRun.step] at hstep
    split at hstep
    · rwa [length_begin hstep]
    · cases hstep
  | go i =>
    obtain ⟨task, -, rfl⟩ := Option.map_eq_some_iff.mp hstep
    exact length_go h
  | drop i =>
    simp only [AuditRun.step] at hstep
    split at hstep
    · cases hstep
    · split at hstep
      · obtain rfl := Option.some.inj hstep
        exact h
      · cases hstep

/-- No run makes the buffer hold more than a batch. -/
theorem always_bounded (batchSize : ℕ) (events : List AuditEvent) :
    Machine.Always (AuditRun.step batchSize) (fun s => s.buffer.length < max batchSize 1) start
      events :=
  Machine.always_of_step (fun _ _ _ h hstep => length_step h hstep)
    (Nat.lt_of_lt_of_le Nat.zero_lt_one (Nat.le_max_right _ _)) events

lemma sound_start : start.Sound where
  begun j task hj := by cases hj
  recorded entry hentry := by cases hentry
  unpushed j task hj := by cases hj
  kept := Custody.exact_empty.perm fun p => by cases p <;> exact .rfl
  writes := Custody.exact_empty.perm fun p => by cases p <;> exact .rfl
  before j task hj := by cases hj
  missed missed hmissed := by cases hmissed

/-- A request that fills the batch is cut off while the first entry is being written. -/
def cutOff : List AuditEvent := [.record 0, .go 0, .record 1, .go 1, .drop 1]

/-- The flusher is aborted while the first of two entries is being written. -/
def aborts : List AuditEvent :=
  [.spawn 0, .record 1, .go 1, .record 2, .go 2, .go 0, .shutdown 3, .go 3, .drop 0]

/-- Where nothing is lost, somebody has every entry. -/
lemma Lossless.exists_keeper (h : s.Lossless batchSize) {entry : ℕ} (hentry : entry ∈ s.recorded) :
    ∃ p, entry ∈ s.keeper p := by
  rcases h.1.2 entry hentry with hmem | hmem | ⟨j, task, hj, hmem⟩
  · exact ⟨.inner, hmem⟩
  · exact ⟨.buffer, hmem⟩
  · refine ⟨.hand j, ?_⟩
    rwa [keeper_of_task hj]

/-- A run at whose end nobody has an entry. -/
lemma not_always_of_keeper {events : List AuditEvent} (entry : ℕ)
    (hrecorded : (Machine.exec (AuditRun.step batchSize) start events).map
      (fun s => decide (entry ∈ s.recorded)) = some true)
    (hnobody : ∀ p, (Machine.exec (AuditRun.step batchSize) start events).map
      (fun s => decide (entry ∈ s.keeper p)) = some false) :
    ¬ Machine.Always (AuditRun.step batchSize) (Lossless batchSize) start events := by
  intro h
  obtain ⟨s, hs, hentry⟩ := Option.map_eq_some_iff.mp hrecorded
  obtain ⟨p, hp⟩ := (h.of_exec hs).exists_keeper (of_decide_eq_true hentry)
  have hnot := hnobody p
  rw [hs, Option.map_some, decide_eq_true hp] at hnot
  cases hnot

end AuditRun

end Moso.Authz
