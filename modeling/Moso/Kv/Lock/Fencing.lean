import Moso.Kv.Lock
import Mathlib.Data.List.Basic

/-!
# Fencing tokens and acquisition order

Tokens follow the order in which they are drawn. A guard carries the token its call drew before
it started to wait, so the tokens of successive guards increase exactly as long as no call
acquires the lock after a call that drew later than it did.
-/

namespace Moso.Kv

/-- The token a call carries from its draw to the end of its guard. -/
def LockCall.token? : LockCall → Option ℤ
  | .attempting token _ _ | .denied token _ _ | .sleeping token _ _ _ | .holding token _ =>
    some token
  | .idle | .refused _ | .failed | .released _ | .gone => none

namespace LockState

variable {ι : Type*} [DecidableEq ι]

@[simp] lemma setCall_fence (s : LockState ι) (c : ι) (v : LockCall) :
    (s.setCall c v).fence = s.fence := rfl

@[simp] lemma setCall_drawn (s : LockState ι) (c : ι) (v : LockCall) :
    (s.setCall c v).drawn = s.drawn := rfl

@[simp] lemma setCall_acquired (s : LockState ι) (c : ι) (v : LockCall) :
    (s.setCall c v).acquired = s.acquired := rfl

@[simp] lemma setCall_call (s : LockState ι) (c : ι) (v : LockCall) :
    (s.setCall c v).call = Function.update s.call c v := rfl

/-- The documented guarantee: every guard's token is above those of all guards before it. -/
def TokensIncrease (s : LockState ι) : Prop := (s.acquired.map Prod.snd).Pairwise (· < ·)

instance (s : LockState ι) : Decidable s.TokensIncrease :=
  inferInstanceAs (Decidable (List.Pairwise _ _))

/-- The step hands the lock to nobody, or to a call that drew its token after every call that
has acquired the lock so far. -/
def NotOvertaken (s : LockState ι) : LockEvent ι → Prop
  | .attempt c =>
    s.lock.live s.now = none → ∀ p ∈ s.acquired, s.drawn.idxOf p.1 < s.drawn.idxOf c
  | _ => True

/-! ### What one step can do -/

/-- The step leaves the counter and both records alone; a call keeps its token or ends. -/
structure Quiet (s s' : LockState ι) : Prop where
  fence : s'.fence = s.fence
  drawn : s'.drawn = s.drawn
  acquired : s'.acquired = s.acquired
  token : ∀ c token, (s'.call c).token? = some token → (s.call c).token? = some token
  idle : ∀ c, s'.call c = .idle → s.call c = .idle

/-- Moving one call on to a state with the same token, or with none, is quiet. -/
lemma Quiet.setCall {s s' : LockState ι} {c : ι} {v : LockCall}
    (hf : s'.fence = s.fence) (hd : s'.drawn = s.drawn) (ha : s'.acquired = s.acquired)
    (hc : s'.call = Function.update s.call c v) (hv : v ≠ .idle)
    (ht : ∀ token, v.token? = some token → (s.call c).token? = some token) : Quiet s s' := by
  refine ⟨hf, hd, ha, fun d token hd => ?_, fun d hd => ?_⟩ <;>
    rw [hc, Function.update_apply] at hd <;> split at hd
  case isTrue h => exact h ▸ ht token hd
  case isFalse => exact hd
  case isTrue => exact absurd hd hv
  case isFalse => exact hd

lemma setIfAbsent_eq_true {now ttl : ℕ} {token : ℤ} {e e' : LockEntry} :
    e.setIfAbsent now token ttl = (true, e') ↔
      e.live now = none ∧ e' = some (token, now + ttl) := by
  unfold LockEntry.setIfAbsent
  split
  next hlive => simp [hlive, eq_comm]
  next hlive => simp [hlive]

/-- A step draws a token, hands out a guard, or is quiet. -/
lemma step_cases {s s' : LockState ι} {e : LockEvent ι} (h : s.step e = some s') :
    (∃ c o v, e = .draw c o ∧ v.token? = some (s.fence + 1) ∧ s.call c = .idle ∧ v ≠ .idle ∧
      s'.fence = s.fence + 1 ∧ s'.drawn = s.drawn ++ [c] ∧ s'.acquired = s.acquired ∧
      s'.call = Function.update s.call c v) ∨
    (∃ c token o, e = .attempt c ∧ s.lock.live s.now = none ∧
      (s.call c).token? = some token ∧ s'.fence = s.fence ∧ s'.drawn = s.drawn ∧
      s'.acquired = s.acquired ++ [(c, token)] ∧
      s'.call = Function.update s.call c (.holding token o)) ∨
    (Quiet s s' ∧ ∀ c, e = .attempt c → s.lock.live s.now ≠ none) := by
  cases e with
  | draw c o =>
    simp only [step] at h
    split at h
    next hc =>
      split at h <;> obtain rfl := Option.some.inj h
      · exact .inl ⟨c, o, _, rfl, rfl, hc, by simp, rfl, rfl, rfl, rfl⟩
      · exact .inr (.inr ⟨.setCall rfl rfl rfl rfl (by simp) (by simp [LockCall.token?]),
          by simp⟩)
    next => cases h
  | attempt c =>
    simp only [step] at h
    split at h
    next token deadline o hc =>
      have ht : (s.call c).token? = some token := by rw [hc]; rfl
      split at h <;> rename_i lock hset <;> obtain rfl := Option.some.inj h
      · obtain ⟨hfree, rfl⟩ := setIfAbsent_eq_true.1 hset
        exact .inr (.inl ⟨c, token, o, rfl, hfree, ht, rfl, rfl, rfl, rfl⟩)
      · refine .inr (.inr ⟨.setCall rfl rfl rfl rfl (by simp) ?_, fun d hd hfree => ?_⟩)
        · rintro t ⟨⟩
          exact ht
        · rw [LockEntry.setIfAbsent, hfree] at hset
          cases hset
    next => cases h
  | check c =>
    simp only [step] at h
    split at h
    next token deadline o hc =>
      have ht : (s.call c).token? = some token := by rw [hc]; rfl
      refine .inr (.inr ⟨?_, by simp⟩)
      split at h <;> obtain rfl := Option.some.inj h <;>
        refine .setCall rfl rfl rfl rfl (by simp) ?_ <;> rintro t ⟨⟩
      exact ht
    next => cases h
  | wake c =>
    simp only [step] at h
    split at h
    next token deadline o wakeAt hc =>
      have ht : (s.call c).token? = some token := by rw [hc]; rfl
      split at h
      · obtain rfl := Option.some.inj h
        refine .inr (.inr ⟨.setCall rfl rfl rfl rfl (by simp) ?_, by simp⟩)
        rintro t ⟨⟩
        exact ht
      · cases h
    next => cases h
  | renew c =>
    simp only [step] at h
    split at h
    · obtain rfl := Option.some.inj h
      exact .inr (.inr ⟨⟨rfl, rfl, rfl, fun _ _ => id, fun _ => id⟩, by simp⟩)
    · cases h
  | release c =>
    simp only [step] at h
    split at h
    · obtain rfl := Option.some.inj h
      exact .inr (.inr ⟨.setCall rfl rfl rfl rfl (by simp) (by simp [LockCall.token?]), by simp⟩)
    · cases h
  | crash c =>
    obtain rfl := Option.some.inj h
    exact .inr (.inr ⟨.setCall rfl rfl rfl rfl (by simp) (by simp [LockCall.token?]), by simp⟩)
  | tick d =>
    obtain rfl := Option.some.inj h
    exact .inr (.inr ⟨⟨rfl, rfl, rfl, fun _ _ => id, fun _ => id⟩, by simp⟩)

/-! ### Tokens are draw positions -/

/-- The call drew the token, and the token is its position in the order of draws, counted from
the counter's first value. -/
def Drew (f₀ : ℤ) (s : LockState ι) (c : ι) (token : ℤ) : Prop :=
  c ∈ s.drawn ∧ token = f₀ + s.drawn.idxOf c + 1

/-- Every token in circulation is the draw position of the call that carries it. -/
structure Positions (f₀ : ℤ) (s : LockState ι) : Prop where
  fence : s.fence = f₀ + s.drawn.length
  idle : ∀ c, s.call c = .idle → c ∉ s.drawn
  carried : ∀ c token, (s.call c).token? = some token → s.Drew f₀ c token
  acquired : ∀ p ∈ s.acquired, s.Drew f₀ p.1 p.2

variable {f₀ : ℤ} {s s' : LockState ι} {c : ι} {token : ℤ}

lemma Drew.append (h : s.Drew f₀ c token) {d : ι} (hs : s'.drawn = s.drawn ++ [d]) :
    s'.Drew f₀ c token := by
  refine ⟨hs ▸ List.mem_append_left _ h.1, ?_⟩
  rw [hs, List.idxOf_append_of_mem h.1]
  exact h.2

lemma Drew.congr (h : s.Drew f₀ c token) (hs : s'.drawn = s.drawn) : s'.Drew f₀ c token := by
  rw [Drew, hs]
  exact h

/-- The step is enabled from a state with the invariant, and keeps it. -/
lemma Positions.step {e : LockEvent ι} (hs : s.Positions f₀) (h : s.step e = some s') :
    s'.Positions f₀ := by
  obtain ⟨c, o, v, -, hv, hidle, hne, hf, hd, ha, hc⟩ |
    ⟨c, token, o, -, -, ht, hf, hd, ha, hc⟩ | ⟨hq, -⟩ := step_cases h
  · have hnew : c ∉ s.drawn := hs.idle c hidle
    refine ⟨?_, fun d hd' => ?_, fun d t ht => ?_, fun p hp => ?_⟩
    · rw [hf, hd, hs.fence, List.length_append]
      push_cast
      rw [List.length_singleton]
      omega
    · rw [hc, Function.update_apply] at hd'
      split at hd'
      · exact absurd hd' hne
      · rw [hd, List.mem_append, List.mem_singleton]
        rintro (hmem | rfl)
        · exact hs.idle d hd' hmem
        · contradiction
    · rw [hc, Function.update_apply] at ht
      split at ht
      next heq =>
        -- The new token is the counter's next value, and the new call stands last.
        obtain rfl := Option.some.inj (hv.symm.trans ht)
        subst heq
        refine ⟨hd ▸ List.mem_append_right _ (List.mem_singleton_self d), ?_⟩
        rw [hd, List.idxOf_append_of_notMem hnew, List.idxOf_cons_self, hs.fence]
        rfl
      next => exact (hs.carried d t ht).append hd
    · exact (hs.acquired p (ha ▸ hp)).append hd
  · refine ⟨by rw [hf, hd, hs.fence], fun d hd' => ?_, fun d t ht' => ?_, fun p hp => ?_⟩
    · rw [hc, Function.update_apply] at hd'
      split at hd'
      · cases hd'
      · exact hd ▸ hs.idle d hd'
    · rw [hc, Function.update_apply] at ht'
      split at ht'
      next heq =>
        obtain rfl := Option.some.inj ht'
        exact (hs.carried d token (heq ▸ ht)).congr hd
      next => exact (hs.carried d t ht').congr hd
    · rw [ha, List.mem_append, List.mem_singleton] at hp
      rcases hp with hp | rfl
      · exact (hs.acquired p hp).congr hd
      · exact (hs.carried c token ht).congr hd
  · exact ⟨by rw [hq.fence, hq.drawn, hs.fence], fun d hd => hq.drawn ▸ hs.idle d (hq.idle d hd),
      fun d t ht => (hs.carried d t (hq.token d t ht)).congr hq.drawn,
      fun p hp => (hs.acquired p (hq.acquired ▸ hp)).congr hq.drawn⟩

lemma positions_init (now : ℕ) (f₀ : ℤ) (lock : LockEntry) :
    (init now f₀ lock : LockState ι).Positions f₀ where
  fence := by simp [init]
  idle := by simp [init]
  carried := by simp [init, LockCall.token?]
  acquired := by simp [init]

/-! ### The exact condition -/

omit [DecidableEq ι] in
lemma tokensIncrease_append (ha : s'.acquired = s.acquired ++ [(c, token)]) :
    s'.TokensIncrease ↔ s.TokensIncrease ∧ ∀ p ∈ s.acquired, p.2 < token := by
  simp only [TokensIncrease, ha, List.map_append, List.pairwise_append, List.map_singleton,
    List.pairwise_singleton, true_and, List.mem_singleton, forall_eq, List.forall_mem_map]

/-- For a call that carries a token, being above all earlier guards' tokens is the same as
having drawn after all of their calls. -/
lemma Positions.forall_lt_iff (hs : s.Positions f₀) (ht : (s.call c).token? = some token) :
    (∀ p ∈ s.acquired, p.2 < token) ↔
      ∀ p ∈ s.acquired, s.drawn.idxOf p.1 < s.drawn.idxOf c := by
  refine forall₂_congr fun p hp => ?_
  rw [(hs.acquired p hp).2, (hs.carried c token ht).2]
  omega

/-- Over every interleaving of any number of callers, releases, renewals, crashes and lease
expiries, successive guards' tokens increase exactly when no call acquires the lock after a call
that drew its token later. -/
theorem tokensIncrease_iff_notOvertaken (now : ℕ) (f₀ : ℤ) (lock : LockEntry)
    (es : List (LockEvent ι)) :
    Machine.Always step TokensIncrease (init now f₀ lock) es ↔
      Machine.Meets step NotOvertaken (init now f₀ lock : LockState ι) es := by
  refine Machine.always_iff_meets (I := fun s : LockState ι => s.Positions f₀ ∧ s.TokensIncrease)
    ?_ (fun _ h => h.2) ?_ ⟨positions_init now f₀ lock, List.Pairwise.nil⟩ es
  · rintro s e s' ⟨hpos, hinc⟩ hG h
    refine ⟨hpos.step h, ?_⟩
    obtain ⟨_, _, _, _, _, _, _, _, _, ha, _⟩ | ⟨c, token, o, rfl, hfree, ht, _, _, ha, _⟩ |
      ⟨hq, -⟩ := step_cases h
    · rw [TokensIncrease, ha]
      exact hinc
    · exact (tokensIncrease_append ha).mpr ⟨hinc, (hpos.forall_lt_iff ht).mpr (hG hfree)⟩
    · rw [TokensIncrease, hq.acquired]
      exact hinc
  · rintro s e s' ⟨hpos, -⟩ hG h hinc
    match e, hG with
    | .attempt c, hG =>
      obtain ⟨hfree, hlate⟩ := Classical.not_imp.mp hG
      obtain ⟨_, _, _, hd, _⟩ | ⟨d, token, o, hd, _, ht, _, _, ha, _⟩ | ⟨-, hheld⟩ :=
        step_cases h
      · cases hd
      · obtain rfl : c = d := by simpa using hd
        exact hlate ((hpos.forall_lt_iff ht).mp ((tokensIncrease_append ha).mp hinc).2)
      · exact hheld c rfl hfree
    | .draw .., hG | .check _, hG | .wake _, hG | .renew _, hG | .release _, hG | .crash _, hG
    | .tick _, hG => exact hG trivial

/-- Two callers wait for a free lock; the one that drew second gets it first, releases it, and
the first one then acquires it with the lower token. -/
theorem tokensIncrease_fails_when_overtaken :
    ∃ s, Machine.exec step (init 0 0 none : LockState ℕ)
        [.draw 0 (.new 30000000000), .draw 1 (.new 30000000000), .attempt 1, .release 1,
          .attempt 0] = some s ∧
      s.acquired = [(1, 2), (0, 1)] ∧ ¬ s.TokensIncrease := by
  refine ⟨_, rfl, rfl, by decide⟩

end LockState

end Moso.Kv
