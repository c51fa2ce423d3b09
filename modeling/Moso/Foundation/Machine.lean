import Mathlib.Data.List.Infix
import Mathlib.Data.Option.Basic

/-!
# Event-driven machines

A machine is a guarded step function `step : σ → ε → Option σ`: the event `e` is enabled in the
state `s` when `step s e` is `some s'`. A run is a list of events. The same function is replayed
on concrete event lists and reasoned about on arbitrary ones.

`Always` says that a property holds in every state a run visits, `Meets` that every step of a run
satisfies a condition on the state before the step. The invariant rules below relate the two.
-/

namespace Machine

variable {σ ε : Type*} (step : σ → ε → Option σ)

/-- Replay a list of events; `none` as soon as one of them is not enabled. -/
def exec : σ → List ε → Option σ
  | s, []      => some s
  | s, e :: es => (step s e).bind fun s' => exec s' es

/-- Every state visited by the run of `es` from `s` satisfies `P`. -/
def Always (P : σ → Prop) : σ → List ε → Prop
  | s, []      => P s
  | s, e :: es => P s ∧ ∀ s', step s e = some s' → Always P s' es

/-- Every step taken by the run of `es` from `s` satisfies the condition `G`. -/
def Meets (G : σ → ε → Prop) : σ → List ε → Prop
  | _, []      => True
  | s, e :: es => ∀ s', step s e = some s' → G s e ∧ Meets G s' es

variable {step} {P I : σ → Prop} {G : σ → ε → Prop}

/-- Whether a concrete run meets a decidable condition is decided by replaying it. -/
instance decidableMeets [∀ s e, Decidable (G s e)] :
    ∀ s es, Decidable (Meets step G s es)
  | _, []      => isTrue trivial
  | s, e :: es =>
    match h : step s e with
    | none => isTrue fun s' hs' => by rw [h] at hs'; cases hs'
    | some s' =>
      have := decidableMeets s' es
      decidable_of_iff (G s e ∧ Meets step G s' es) (by simp [Meets, h])

@[simp] lemma exec_nil (s : σ) : exec step s [] = some s := rfl

@[simp] lemma exec_cons (s : σ) (e : ε) (es : List ε) :
    exec step s (e :: es) = (step s e).bind fun s' => exec step s' es := rfl

lemma exec_cons_eq_some {s s' : σ} {e : ε} {es : List ε} :
    exec step s (e :: es) = some s' ↔ ∃ m, step s e = some m ∧ exec step m es = some s' := by
  rw [exec_cons, Option.bind_eq_some_iff]

lemma exec_append (s : σ) (es es' : List ε) :
    exec step s (es ++ es') = (exec step s es).bind fun m => exec step m es' := by
  induction es generalizing s with
  | nil => rfl
  | cons e es ih =>
    rw [List.cons_append, exec_cons, exec_cons, Option.bind_assoc]
    exact congrArg _ (funext ih)

lemma exec_append_eq_some {s s' : σ} {es es' : List ε} :
    exec step s (es ++ es') = some s' ↔
      ∃ m, exec step s es = some m ∧ exec step m es' = some s' := by
  rw [exec_append, Option.bind_eq_some_iff]

/-- A run that ends in `s'` visits, among others, `s'`. -/
lemma Always.of_exec {s s' : σ} {es : List ε} (h : Always step P s es)
    (hrun : exec step s es = some s') : P s' := by
  induction es generalizing s with
  | nil =>
    obtain rfl : s = s' := Option.some.inj hrun
    exact h
  | cons e es ih =>
    obtain ⟨m, hm, hrest⟩ := exec_cons_eq_some.1 hrun
    exact ih (h.2 m hm) hrest

/-- The property holds in every state visited exactly when it holds at the end of every prefix
of the run. -/
lemma always_iff_prefix {s : σ} {es : List ε} :
    Always step P s es ↔ ∀ es' s', es' <+: es → exec step s es' = some s' → P s' := by
  induction es generalizing s with
  | nil =>
    refine ⟨fun h es' s' hpre hrun => ?_, fun h => h [] s List.prefix_rfl rfl⟩
    obtain rfl := List.prefix_nil.mp hpre
    exact h.of_exec hrun
  | cons e es ih =>
    constructor
    · intro h es' s' hpre hrun
      match es', List.prefix_cons_iff.mp hpre with
      | _, Or.inl rfl =>
        obtain rfl : s = s' := Option.some.inj hrun
        exact h.1
      | _, Or.inr ⟨t, rfl, ht⟩ =>
        obtain ⟨m, hm, hrest⟩ := exec_cons_eq_some.1 hrun
        exact ih.mp (h.2 m hm) t s' ht hrest
    · intro h
      refine ⟨h [] s List.nil_prefix rfl, fun m hm => ih.mpr fun t s' ht hrun => ?_⟩
      exact h (e :: t) s' (List.prefix_cons_iff.mpr (Or.inr ⟨t, rfl, ht⟩))
        (exec_cons_eq_some.2 ⟨m, hm, hrun⟩)

lemma Always.mono {Q : σ → Prop} (hPQ : ∀ s, P s → Q s) {s : σ} {es : List ε}
    (h : Always step P s es) : Always step Q s es := by
  induction es generalizing s with
  | nil => exact hPQ s h
  | cons e es ih => exact ⟨hPQ s h.1, fun m hm => ih (h.2 m hm)⟩

/-- A condition on steps may be weakened, in view of the events that occur. -/
lemma Meets.mono {G' : σ → ε → Prop} {s : σ} {es : List ε}
    (hGG' : ∀ s, ∀ e ∈ es, G s e → G' s e) (h : Meets step G s es) : Meets step G' s es := by
  induction es generalizing s with
  | nil => trivial
  | cons e es ih =>
    intro m hm
    obtain ⟨hge, hrest⟩ := h m hm
    exact ⟨hGG' s e List.mem_cons_self hge,
      ih (fun s e' he' => hGG' s e' (List.mem_cons_of_mem _ he')) hrest⟩

/-- Invariant rule: a property kept by every step holds in every state of every run. -/
theorem always_of_step (hstep : ∀ s e s', I s → step s e = some s' → I s')
    {s : σ} (h₀ : I s) (es : List ε) : Always step I s es := by
  induction es generalizing s with
  | nil => exact h₀
  | cons e es ih => exact ⟨h₀, fun m hm => ih (hstep s e m h₀ hm)⟩

/-- The invariant rule, at the last state of a run. -/
theorem invariant_exec (hstep : ∀ s e s', I s → step s e = some s' → I s')
    {s s' : σ} {es : List ε} (h₀ : I s) (hrun : exec step s es = some s') : I s' :=
  (always_of_step hstep h₀ es).of_exec hrun

/-- Guarded invariant rule: it is enough that the steps meeting `G` keep the property. -/
theorem always_of_meets (hstep : ∀ s e s', I s → G s e → step s e = some s' → I s')
    {s : σ} {es : List ε} (h₀ : I s) (hG : Meets step G s es) : Always step I s es := by
  induction es generalizing s with
  | nil => exact h₀
  | cons e es ih =>
    refine ⟨h₀, fun m hm => ?_⟩
    obtain ⟨hge, hrest⟩ := hG m hm
    exact ih (hstep s e m h₀ hge hm) hrest

/-- When in addition a step that breaks `G` breaks `P` at once, `G` is the exact condition under
which `P` holds along a run. -/
theorem always_iff_meets (hstep : ∀ s e s', I s → G s e → step s e = some s' → I s')
    (hI : ∀ s, I s → P s)
    (hbad : ∀ s e s', I s → ¬ G s e → step s e = some s' → ¬ P s')
    {s : σ} (h₀ : I s) (es : List ε) : Always step P s es ↔ Meets step G s es := by
  refine ⟨fun h => ?_, fun h => (always_of_meets hstep h₀ h).mono hI⟩
  induction es generalizing s with
  | nil => trivial
  | cons e es ih =>
    intro m hm
    have hPm : P m := by
      cases es with
      | nil => exact h.2 m hm
      | cons _ _ => exact (h.2 m hm).1
    have hge : G s e := by_contra fun hng => hbad s e m h₀ hng hm hPm
    exact ⟨hge, ih (hstep s e m h₀ hge hm) (h.2 m hm)⟩

/-- A measure that every step decreases bounds the length of every run. -/
theorem length_le_of_decreasing {μ : σ → ℕ}
    (hμ : ∀ s e s', I s → step s e = some s' → I s' ∧ μ s' < μ s)
    {s s' : σ} {es : List ε} (h₀ : I s) (hrun : exec step s es = some s') :
    es.length + μ s' ≤ μ s := by
  induction es generalizing s with
  | nil =>
    obtain rfl : s = s' := Option.some.inj hrun
    simp
  | cons e es ih =>
    obtain ⟨m, hm, hrest⟩ := exec_cons_eq_some.1 hrun
    obtain ⟨hIm, hlt⟩ := hμ s e m h₀ hm
    have := ih hIm hrest
    rw [List.length_cons]
    omega

end Machine
