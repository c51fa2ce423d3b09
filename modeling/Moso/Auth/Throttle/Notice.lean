import Moso.Auth.Throttle
import Moso.Foundation.Machine

/-!
# One notice per window

The failures of one identity are counted in a window that starts with the first of them, and the
owner is told when there are enough. A marker that lasts as long as a window says that the owner
has been told. Whoever asks first reads the count and then claims the marker, with anything in
between.
-/

namespace Moso.Auth

/-! ### The store -/

structure NoticeConfig extends ThrottleConfig where
  /-- How many failures in the window before the account's owner is emailed. -/
  notifyAfter : ℕ := 5
  pos : 0 < notifyAfter := by decide

/-- What the store has of an identity. -/
structure NoticeStore where
  backoff : Backoff
  /-- How many failures fell inside the current notification window. -/
  window : Option Entry
  /-- Present when the owner has already been told about this window. -/
  notified : Option Entry
  deriving DecidableEq

/-- Count one more; the time to live is applied when the number is created. -/
def incr (now ttl : ℕ) (entry : Option Entry) : Entry :=
  match entry.filter fun entry => now < entry.expiresAt with
  | some entry => { entry with value := entry.value + 1 }
  | none       => { value := 1, expiresAt := now + ttl }

namespace NoticeConfig

variable (config : NoticeConfig)

/-- Record the outcome of an attempt. The window is not refreshed, and a success leaves it alone. -/
def record (store : NoticeStore) (now : ℕ) (succeeded : Bool) : NoticeStore :=
  { store with
    backoff := config.toThrottleConfig.record store.backoff now succeeded
    window :=
      if succeeded then store.window else some (incr now config.notifyWindow store.window) }

/-- Whether the failures in the window have crossed the threshold. -/
def crossed (store : NoticeStore) (now : ℕ) : Bool :=
  config.notifyAfter ≤ (live now store.window).getD 0

/-- Set the marker if it is absent; whether it was. -/
def claim (store : NoticeStore) (now : ℕ) : Bool × NoticeStore :=
  if (live now store.notified).isSome then (false, store)
  else (true, { store with
    notified := some { value := 1, expiresAt := now + config.notifyWindow } })

end NoticeConfig

/-! ### Attempts and askers -/

/-- A notification window: it starts with the first failure after the one before it ended. -/
structure Window where
  start : ℕ
  failures : ℕ
  /-- How many of those who asked after enough failures have had their answer. -/
  asked : ℕ
  /-- How many of them were told to notify. -/
  notices : ℕ
  deriving DecidableEq

def Window.blank : Window := { start := 0, failures := 0, asked := 0, notices := 0 }

structure NoticeRun (ι : Type) where
  store : NoticeStore
  now : ℕ
  /-- How many windows there were. -/
  opened : ℕ
  windows : ℕ → Window
  /-- When the last notice was. -/
  last : Option ℕ
  /-- The window for which an asker has read enough failures, and is about to claim the marker. -/
  running : ι → Option ℕ

inductive NoticeEvent (ι : Type) where
  | attempt (at_ : ℕ) (succeeded : Bool)
  /-- `should_notify` reads the failures in the window. -/
  | ask (i : ι) (at_ : ℕ)
  /-- `should_notify` claims the marker. -/
  | claim (i : ι) (at_ : ℕ)

namespace NoticeRun

variable {ι : Type}

def init : NoticeRun ι where
  store := { backoff := .clear, window := none, notified := none }
  now := 0
  opened := 0
  windows _ := .blank
  last := none
  running _ := none

variable (config : NoticeConfig) (s : NoticeRun ι)

/-- The window of the latest failure. -/
def newest : Option Window := if s.opened = 0 then none else some (s.windows (s.opened - 1))

/-- A window that is still open counts the failure, and else it starts another one. -/
def fail (at_ : ℕ) : NoticeRun ι :=
  if ∃ w ∈ s.newest, at_ < w.start + config.notifyWindow then
    let w := s.windows (s.opened - 1)
    { s with
      windows := Function.update s.windows (s.opened - 1) { w with failures := w.failures + 1 } }
  else
    { s with
      opened := s.opened + 1
      windows :=
        Function.update s.windows s.opened { Window.blank with start := at_, failures := 1 } }

/-- Someone who asked about a window has had the answer. -/
def answer (k : ℕ) (told : Bool) : NoticeRun ι :=
  let w := s.windows k
  { s with
    windows := Function.update s.windows k
      { w with asked := w.asked + 1, notices := w.notices + told.toNat } }

/-- What an attempt does. -/
def attempted (at_ : ℕ) (succeeded : Bool) : NoticeRun ι :=
  { if succeeded then s else s.fail config at_ with
    store := config.record s.store at_ succeeded, now := at_ }

variable [DecidableEq ι]

/-- What an asker does first: with too few failures there is nothing to be told. -/
def askedBy (i : ι) (at_ : ℕ) : NoticeRun ι :=
  if config.crossed s.store at_ then
    { s with running := Function.update s.running i (some (s.opened - 1)), now := at_ }
  else if ∃ w ∈ s.newest, config.notifyAfter ≤ w.failures then
    { s.answer (s.opened - 1) false with now := at_ }
  else { s with now := at_ }

/-- What an asker does then, who has read enough failures in this window. -/
def claimedBy (i : ι) (at_ : ℕ) (k : ℕ) : NoticeRun ι :=
  let (told, store) := config.claim s.store at_
  { s.answer k told with
    store := store
    now := at_
    last := if told then some at_ else s.last
    running := Function.update s.running i none }

def step : NoticeEvent ι → Option (NoticeRun ι)
  | .attempt at_ succeeded => if s.now ≤ at_ then some (s.attempted config at_ succeeded) else none
  | .ask i at_ =>
    if s.now ≤ at_ ∧ s.running i = none then some (s.askedBy config i at_) else none
  | .claim i at_ =>
    if s.now ≤ at_ then (s.running i).map (s.claimedBy config i at_) else none

end NoticeRun

/-! ### What is asked of the notices -/

/-- A window with enough failures has one notice once someone has asked after them, and another
one has none. -/
def Window.Right (config : NoticeConfig) (w : Window) : Prop :=
  (w.asked = 0 ∧ w.notices = 0) ∨ (config.notifyAfter ≤ w.failures ∧ w.notices = 1)

instance (config : NoticeConfig) (w : Window) : Decidable (w.Right config) :=
  inferInstanceAs (Decidable (_ ∨ _))

namespace NoticeRun

variable {ι : Type} (config : NoticeConfig)

def OneNotice (s : NoticeRun ι) : Prop := ∀ k, (s.windows k).Right config

/-- The marker is claimed for a window without a notice when the last notice is as long ago as a
window lasts, and for a window with one before that; and nobody asks about a window only after it
has ended. -/
def Timely (s : NoticeRun ι) : NoticeEvent ι → Prop
  | .attempt _ _ => True
  | .ask _ at_ => ∀ w ∈ s.newest, config.notifyAfter ≤ w.failures → w.notices = 0 →
      at_ < w.start + config.notifyWindow
  | .claim i at_ => ∀ k ∈ s.running i, ((s.windows k).notices = 0 ↔
      ∀ t ∈ s.last, t + config.notifyWindow ≤ at_)

/-- What is in the store goes with the windows. -/
structure Aligned (s : NoticeRun ι) : Prop where
  right : s.OneNotice config
  blank : ∀ k, s.opened ≤ k → s.windows k = .blank
  counted : s.store.window = s.newest.map fun w => ⟨w.failures, w.start + config.notifyWindow⟩
  marked : s.store.notified = s.last.map fun t => ⟨1, t + config.notifyWindow⟩
  reading : ∀ i, ∀ k ∈ s.running i, k < s.opened ∧ config.notifyAfter ≤ (s.windows k).failures

variable {config} {s s' : NoticeRun ι} {e : NoticeEvent ι} {w : Window} {at_ k : ℕ}

/-! ### What the steps do -/

lemma newest_eq_some : s.newest = some w ↔ 0 < s.opened ∧ s.windows (s.opened - 1) = w := by
  rw [newest]
  split_ifs with h
  · simp [h]
  · simp [Nat.pos_of_ne_zero h]

lemma live_window (hs : s.Aligned config) : live at_ s.store.window =
    (s.newest.filter fun w => at_ < w.start + config.notifyWindow).map (·.failures) := by
  rw [live, hs.counted]
  cases s.newest with
  | none => rfl
  | some w => by_cases h : at_ < w.start + config.notifyWindow <;> simp [Option.filter, h]

/-- Enough failures are read in a window that is still open. -/
lemma crossed_iff (hs : s.Aligned config) : config.crossed s.store at_ = true ↔
    ∃ w ∈ s.newest, at_ < w.start + config.notifyWindow ∧ config.notifyAfter ≤ w.failures := by
  have hpos := config.pos.ne'
  rw [NoticeConfig.crossed, live_window hs, decide_eq_true_eq]
  cases s.newest with
  | none => simpa using hpos
  | some w =>
    by_cases h : at_ < w.start + config.notifyWindow
    · simp [Option.filter, h]
    · simpa [Option.filter, h] using hpos

/-- The marker lasts as long as a window. -/
lemma live_notified (at_ : ℕ) (hs : s.Aligned config) : (live at_ s.store.notified).isSome = false ↔
    ∀ t ∈ s.last, t + config.notifyWindow ≤ at_ := by
  rw [live, hs.marked]
  cases s.last with
  | none => simp
  | some t =>
    by_cases h : at_ < t + config.notifyWindow <;> simp [Option.filter, h, Nat.le_of_not_lt]

/-- Enough failures stay enough. -/
lemma right_fail (h : w.Right config) :
    Window.Right config { w with failures := w.failures + 1 } :=
  h.imp id fun h => ⟨h.1.trans (Nat.le_succ _), h.2⟩

/-- A failure is counted in the store as it is in the windows. -/
lemma incr_window (at_ : ℕ) (hs : s.Aligned config) :
    (s.fail config at_).newest.map
        (fun w => (⟨w.failures, w.start + config.notifyWindow⟩ : Entry)) =
      some (incr at_ config.notifyWindow s.store.window) := by
  rw [hs.counted, fail]
  split_ifs with hopen
  · obtain ⟨w, hw, hlt⟩ := hopen
    obtain ⟨hpos, rfl⟩ := newest_eq_some.1 hw
    have hne : s.opened ≠ 0 := hpos.ne'
    simp [newest, hne, incr, hlt, Option.filter]
  · have hnone : (s.newest.map fun w =>
        (⟨w.failures, w.start + config.notifyWindow⟩ : Entry)).filter
          (fun entry => at_ < entry.expiresAt) = none := by
      cases hw : s.newest with
      | none => rfl
      | some w =>
        have hlt : ¬ at_ < w.start + config.notifyWindow := fun hlt => hopen ⟨w, hw, hlt⟩
        simp [Option.filter, hlt]
    rw [incr, hnone]
    simp [newest]

/-- A failure leaves what is in the store aligned. -/
lemma aligned_fail (hs : s.Aligned config) : Aligned config (s.attempted config at_ false) := by
  have hcounted := incr_window at_ hs
  rw [attempted, if_neg Bool.false_ne_true]
  rw [fail] at hcounted ⊢
  split_ifs at hcounted ⊢ with hopen
  · obtain ⟨w, hw, -⟩ := hopen
    have hpos := (newest_eq_some.1 hw).1
    refine ⟨fun k => ?_, fun k hk => ?_, hcounted.symm, hs.marked, fun i k hk => ?_⟩
    · by_cases hk : k = s.opened - 1
      · simpa [hk] using right_fail (hs.right (s.opened - 1))
      · simpa [hk] using hs.right k
    · have hne : k ≠ s.opened - 1 := (Nat.lt_of_lt_of_le (Nat.sub_lt hpos Nat.one_pos) hk).ne'
      simpa [hne] using hs.blank k hk
    · obtain ⟨hlt, hle⟩ := hs.reading i k hk
      refine ⟨hlt, ?_⟩
      by_cases hk : k = s.opened - 1
      · simpa [hk] using (hk ▸ hle).trans (Nat.le_succ _)
      · simpa [hk] using hle
  · refine ⟨fun k => ?_, fun k hk => ?_, hcounted.symm, hs.marked, fun i k hk => ?_⟩
    · by_cases hk : k = s.opened
      · exact .inl (by simp [hk, Window.blank])
      · simpa [hk] using hs.right k
    · have hne : k ≠ s.opened := (Nat.lt_of_succ_le hk).ne'
      simpa [hne] using hs.blank k (Nat.le_of_succ_le hk)
    · obtain ⟨hlt, hle⟩ := hs.reading i k hk
      exact ⟨hlt.trans (Nat.lt_succ_self _), by simpa [hlt.ne] using hle⟩

lemma aligned_attempted (hs : s.Aligned config) (succeeded : Bool) :
    Aligned config (s.attempted config at_ succeeded) := by
  cases succeeded with
  | true => exact ⟨hs.right, hs.blank, hs.counted, hs.marked, hs.reading⟩
  | false => exact aligned_fail hs

/-- An answer changes no window but its own, and of that only who has asked. -/
lemma aligned_answer (hs : s.Aligned config) (told : Bool) (hk : k < s.opened)
    (hright : ((s.answer k told).windows k).Right config) :
    Aligned config (s.answer k told) := by
  have hother : ∀ j, j ≠ k → (s.answer k told).windows j = s.windows j := fun j hj => by
    simp [answer, hj]
  have hfailures : ∀ j, ((s.answer k told).windows j).failures = (s.windows j).failures ∧
      ((s.answer k told).windows j).start = (s.windows j).start := by
    intro j
    by_cases hj : j = k <;> simp [answer, hj]
  refine ⟨fun j => ?_, fun j hj => ?_, ?_, hs.marked, fun i j hj => ?_⟩
  · by_cases hj : j = k
    · exact hj ▸ hright
    · exact hother j hj ▸ hs.right j
  · rw [hother j (Nat.lt_of_lt_of_le hk hj).ne']
    exact hs.blank j hj
  · have hnewest : (s.answer k told).newest.map (fun w =>
        (⟨w.failures, w.start + config.notifyWindow⟩ : Entry)) =
        s.newest.map fun w => ⟨w.failures, w.start + config.notifyWindow⟩ := by
      have hopened : (s.answer k told).opened = s.opened := rfl
      rw [newest, newest, hopened]
      split_ifs
      · rfl
      · simp [hfailures]
    exact hs.counted.trans hnewest.symm
  · exact (hfailures j).1 ▸ hs.reading i j hj

/-- The window that an answer was for. -/
lemma answer_windows (told : Bool) : (s.answer k told).windows k =
    { s.windows k with
      asked := (s.windows k).asked + 1, notices := (s.windows k).notices + told.toNat } := by
  simp [answer]

variable [DecidableEq ι] {i : ι}

lemma askedBy_of_crossed (h : config.crossed s.store at_ = true) : s.askedBy config i at_ =
    { s with running := Function.update s.running i (some (s.opened - 1)), now := at_ } :=
  if_pos h

lemma askedBy_of_late (h : config.crossed s.store at_ = false)
    (hw : ∃ w ∈ s.newest, config.notifyAfter ≤ w.failures) :
    s.askedBy config i at_ = { s.answer (s.opened - 1) false with now := at_ } := by
  rw [askedBy, if_neg (by simp [h]), if_pos hw]

lemma askedBy_of_few (h : config.crossed s.store at_ = false)
    (hw : ¬ ∃ w ∈ s.newest, config.notifyAfter ≤ w.failures) :
    s.askedBy config i at_ = { s with now := at_ } := by
  rw [askedBy, if_neg (by simp [h]), if_neg hw]

/-- Someone who asks in time leaves what is in the store aligned. -/
lemma aligned_askedBy (hs : s.Aligned config) (h : s.Timely config (.ask i at_)) :
    Aligned config (s.askedBy config i at_) := by
  cases hcrossed : config.crossed s.store at_ with
  | true =>
    rw [askedBy_of_crossed hcrossed]
    obtain ⟨w, hw, -, hle⟩ := (crossed_iff hs).mp hcrossed
    obtain ⟨hpos, rfl⟩ := newest_eq_some.1 hw
    refine ⟨hs.right, hs.blank, hs.counted, hs.marked, fun j k hk => ?_⟩
    by_cases hj : j = i
    · obtain rfl : s.opened - 1 = k := by simpa [hj] using hk
      exact ⟨Nat.sub_lt hpos Nat.one_pos, hle⟩
    · exact hs.reading j k (by simpa [hj] using hk)
  | false =>
    by_cases hw : ∃ w ∈ s.newest, config.notifyAfter ≤ w.failures
    · rw [askedBy_of_late hcrossed hw]
      obtain ⟨w, hw, hle⟩ := hw
      obtain ⟨hpos, hlast⟩ := newest_eq_some.1 hw
      have hnotice : w.notices = 1 := by
        have hright := hlast ▸ hs.right (s.opened - 1)
        refine hright.elim (fun hnone => ?_) And.right
        have htrue := (crossed_iff hs).mpr ⟨w, hw, h w hw hle hnone.2, hle⟩
        rw [hcrossed] at htrue
        cases htrue
      have hanswer := aligned_answer hs false (Nat.sub_lt hpos Nat.one_pos) <| by
        rw [answer_windows, hlast]
        exact .inr ⟨hle, by simp [hnotice]⟩
      exact ⟨hanswer.right, hanswer.blank, hanswer.counted, hanswer.marked, hanswer.reading⟩
    · rw [askedBy_of_few hcrossed hw]
      exact ⟨hs.right, hs.blank, hs.counted, hs.marked, hs.reading⟩

/-- Someone who asks only after the window ended is not told, and nobody was. -/
lemma not_oneNotice_askedBy (hs : s.Aligned config) (h : ¬ s.Timely config (.ask i at_)) :
    ¬ OneNotice config (s.askedBy config i at_) := by
  simp only [Timely, not_forall] at h
  obtain ⟨w, hw, hle, hnone, hlate⟩ := h
  obtain ⟨hpos, hlast⟩ := newest_eq_some.1 hw
  have hcrossed : config.crossed s.store at_ = false := by
    rw [← Bool.not_eq_true, crossed_iff hs]
    rintro ⟨w', hw', hlt, -⟩
    exact hlate (Option.mem_unique hw' hw ▸ hlt)
  rw [askedBy_of_late hcrossed ⟨w, hw, hle⟩]
  intro hright
  have hwindow : Window.Right config ((s.answer (s.opened - 1) false).windows (s.opened - 1)) :=
    hright (s.opened - 1)
  rw [answer_windows, hlast] at hwindow
  rcases hwindow with ⟨hasked, -⟩ | ⟨-, hnotice⟩
  · cases hasked
  · simp [hnone] at hnotice

/-- Whether a claim succeeds, and what it does. -/
lemma claimedBy_eq (hs : s.Aligned config) (i : ι) (k at_ : ℕ) : ∃ told : Bool,
    (told = true ↔ ∀ t ∈ s.last, t + config.notifyWindow ≤ at_) ∧
    ∃ store : NoticeStore, store.window = s.store.window ∧
      store.notified = (if told then some at_ else s.last).map
        (fun t => ⟨1, t + config.notifyWindow⟩) ∧
      s.claimedBy config i at_ k =
        { s.answer k told with
          store := store, now := at_, last := if told then some at_ else s.last
          running := Function.update s.running i none } := by
  have hlive := live_notified at_ hs
  rw [claimedBy, NoticeConfig.claim]
  cases h : (live at_ s.store.notified).isSome with
  | true =>
    rw [h] at hlive
    exact ⟨false, by simpa using hlive, s.store, rfl, hs.marked, rfl⟩
  | false =>
    rw [h] at hlive
    exact ⟨true, by simpa using hlive,
      { s.store with notified := some ⟨1, at_ + config.notifyWindow⟩ }, rfl, rfl, rfl⟩

/-- A claim at the right time leaves what is in the store aligned, and no other one has one notice
for each window. -/
lemma aligned_claimedBy (hs : s.Aligned config) (hk : k ∈ s.running i)
    (h : (s.windows k).notices = 0 ↔ ∀ t ∈ s.last, t + config.notifyWindow ≤ at_) :
    Aligned config (s.claimedBy config i at_ k) := by
  obtain ⟨hlt, hle⟩ := hs.reading i k hk
  obtain ⟨told, htold, store, hwindow, hnotified, heq⟩ := claimedBy_eq hs i k at_
  have hanswer := aligned_answer hs told hlt <| by
    rw [answer_windows]
    refine .inr ⟨hle, ?_⟩
    cases told with
    | true => simp [h.mpr (htold.mp rfl)]
    | false =>
      have hne : (s.windows k).notices ≠ 0 := fun hzero => by simpa using htold.mpr (h.mp hzero)
      rcases hs.right k with ⟨-, hzero⟩ | ⟨-, hone⟩
      · exact absurd hzero hne
      · simpa using hone
  rw [heq]
  refine ⟨hanswer.right, hanswer.blank, hwindow.trans hanswer.counted, hnotified, fun j l hl => ?_⟩
  by_cases hj : j = i
  · simp [hj] at hl
  · exact hanswer.reading j l (by simpa [hj, answer] using hl)

lemma not_oneNotice_claimedBy (hs : s.Aligned config)
    (h : ¬ ((s.windows k).notices = 0 ↔ ∀ t ∈ s.last, t + config.notifyWindow ≤ at_)) :
    ¬ OneNotice config (s.claimedBy config i at_ k) := by
  obtain ⟨told, htold, store, -, -, heq⟩ := claimedBy_eq hs i k at_
  rw [heq]
  intro hright
  have hwindow : Window.Right config ((s.answer k told).windows k) := hright k
  rw [answer_windows] at hwindow
  rcases hwindow with ⟨hasked, -⟩ | ⟨-, hnotice⟩
  · cases hasked
  · refine h ?_
    rw [← htold]
    cases told with
    | true => simpa using hnotice
    | false =>
      have hone : (s.windows k).notices = 1 := by simpa using hnotice
      simp [hone]

/-! ### Results -/

/-- A timely step leaves what is in the store aligned. -/
lemma aligned_step (hs : s.Aligned config) (h : s.Timely config e)
    (hstep : s.step config e = some s') : Aligned config s' := by
  cases e with
  | attempt at_ succeeded =>
    obtain ⟨-, heq⟩ := Option.ite_none_right_eq_some.mp hstep
    exact Option.some.inj heq ▸ aligned_attempted hs succeeded
  | ask i at_ =>
    obtain ⟨-, heq⟩ := Option.ite_none_right_eq_some.mp hstep
    exact Option.some.inj heq ▸ aligned_askedBy hs h
  | claim i at_ =>
    obtain ⟨-, heq⟩ := Option.ite_none_right_eq_some.mp hstep
    obtain ⟨k, hk, rfl⟩ := Option.map_eq_some_iff.mp heq
    exact aligned_claimedBy hs hk (h k hk)

/-- Any other step leaves a window with enough failures without a notice, or with two. -/
lemma not_oneNotice_step (hs : s.Aligned config) (h : ¬ s.Timely config e)
    (hstep : s.step config e = some s') : ¬ s'.OneNotice config := by
  cases e with
  | attempt at_ succeeded => exact absurd trivial h
  | ask i at_ =>
    obtain ⟨-, heq⟩ := Option.ite_none_right_eq_some.mp hstep
    exact Option.some.inj heq ▸ not_oneNotice_askedBy hs h
  | claim i at_ =>
    obtain ⟨-, heq⟩ := Option.ite_none_right_eq_some.mp hstep
    obtain ⟨k, hk, rfl⟩ := Option.map_eq_some_iff.mp heq
    refine not_oneNotice_claimedBy hs fun hiff => h fun j hj => ?_
    exact Option.mem_unique hj hk ▸ hiff

/-- **Every window has its one notice, and no more, exactly as long as the askers come in time: the
last notice is as long ago as a window lasts when the first one claims the marker for a window, and
not yet when another one does.** -/
theorem oneNotice_iff (config : NoticeConfig) (events : List (NoticeEvent ι)) :
    Machine.Always (fun s e => step config s e) (OneNotice config) (init : NoticeRun ι) events ↔
      Machine.Meets (fun s e => step config s e) (Timely config) (init : NoticeRun ι) events := by
  have hstart : Aligned config (init : NoticeRun ι) :=
    ⟨fun _ => .inl ⟨rfl, rfl⟩, fun _ _ => rfl, rfl, rfl, fun _ _ => nofun⟩
  exact Machine.always_iff_meets (fun _ _ _ => aligned_step) (fun _ hs => hs.right)
    (fun _ _ _ => not_oneNotice_step) hstart events

/-- A failure, and someone who asks at once; and then claims the marker. -/
def quiet (at_ : ℕ) : List (NoticeEvent Unit) := [.attempt at_ false, .ask () at_]
def loud (at_ : ℕ) : List (NoticeEvent Unit) := quiet at_ ++ [.claim () at_]

/-- With two failures to a notice and a window of fifteen minutes, two failures at the end of the
first window hide the two at the beginning of the second one. -/
theorem not_oneNotice : ¬ Machine.Always (fun s e => step { notifyAfter := 2 } s e)
    (OneNotice { notifyAfter := 2 }) (init : NoticeRun Unit)
    (quiet 0 ++ loud 899000000000 ++ quiet 900000000000 ++ loud 901000000000) :=
  fun h => absurd (h.of_exec rfl 1) (by decide)

end NoticeRun

end Moso.Auth
