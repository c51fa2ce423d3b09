import Mathlib.Data.Option.Basic

/-!
# Programs that fail and keep their state

A program that may fail with an error, and changes a state as it goes: what it did before it
failed stays done. `Yields` says with what such a program succeeds, and in which state.
-/

/-- A program with errors in `ε` over a state in `σ`. -/
abbrev Stateful (ε σ : Type) := ExceptT ε (StateM σ)

namespace Stateful

variable {ε σ α β : Type}

/-- Fail, or go on, as has been found out already. -/
def settle (result : Except ε α) : Stateful ε σ α := ExceptT.mk (pure result)

/-- The program succeeds with `a`, and leaves the state `s'`. -/
def Yields (p : Stateful ε σ α) (s : σ) (a : α) (s' : σ) : Prop := p.run s = (.ok a, s')

variable {p : Stateful ε σ α} {f : α → Stateful ε σ β} {s s' : σ} {a a' : α} {b : β}

/-- A sequence, one step at a time. -/
lemma run_bind : (p >>= f).run s = match p.run s with
    | (.ok a, s')        => (f a).run s'
    | (.error error, s') => (.error error, s') := by
  have hcont : (p >>= f).run s = (ExceptT.bindCont f (p.run s).1 : StateM σ _).run (p.run s).2 :=
    rfl
  rw [hcont]
  cases hrun : p.run s with
  | mk result s' => cases result <;> rfl

@[simp] lemma run_pure : (pure a : Stateful ε σ α).run s = (.ok a, s) := rfl

@[simp] lemma run_throw {error : ε} : (throw error : Stateful ε σ α).run s = (.error error, s) :=
  rfl

@[simp] lemma run_settle {result : Except ε α} :
    (settle result : Stateful ε σ α).run s = (result, s) := rfl

@[simp] lemma run_get : (get : Stateful ε σ σ).run s = (.ok s, s) := rfl

@[simp] lemma run_modify {g : σ → σ} : (modify g : Stateful ε σ PUnit).run s = (.ok ⟨⟩, g s) := rfl

lemma yields_bind {s'' : σ} :
    Yields (p >>= f) s b s'' ↔ ∃ a s', Yields p s a s' ∧ Yields (f a) s' b s'' := by
  rw [Yields, run_bind]
  constructor
  · intro h
    cases hrun : p.run s with
    | mk result s' =>
      rw [hrun] at h
      cases result with
      | ok a => exact ⟨a, s', hrun, h⟩
      | error error => cases congrArg Prod.fst h
  · rintro ⟨a, s', hp, hf⟩
    rw [show p.run s = (.ok a, s') from hp]
    exact hf

/-- Go on after a program that succeeds. -/
lemma Yields.run_bind (h : Yields p s a s') : (p >>= f).run s = (f a).run s' := by
  rw [Stateful.run_bind, show p.run s = (.ok a, s') from h]

lemma yields_pure : Yields (pure a : Stateful ε σ α) s a' s' ↔ a = a' ∧ s = s' := by
  rw [Yields, run_pure, Prod.mk.injEq, Except.ok.injEq]

lemma not_yields_throw {error : ε} : ¬ Yields (throw error : Stateful ε σ α) s a s' := by
  rw [Yields, run_throw, Prod.mk.injEq]
  rintro ⟨⟨⟩, -⟩

lemma yields_settle {result : Except ε α} :
    Yields (settle result : Stateful ε σ α) s a s' ↔ result = .ok a ∧ s = s' := by
  rw [Yields, run_settle, Prod.mk.injEq]

/-! What comes after a step that leaves the state alone, or that only changes it. -/

lemma run_settle_bind {result : Except ε α} : (settle result >>= f).run s = match result with
    | .ok a        => (f a).run s
    | .error error => (.error error, s) := by
  cases result <;> rw [run_bind, run_settle]

lemma run_get_bind {f : σ → Stateful ε σ β} : (get >>= f).run s = (f s).run s := by
  rw [run_bind, run_get]

lemma run_modify_bind {g : σ → σ} {f : PUnit → Stateful ε σ β} :
    (modify g >>= f).run s = (f ⟨⟩).run (g s) := by
  rw [run_bind, run_modify]

lemma yields_settle_bind {result : Except ε α} :
    Yields (settle result >>= f) s b s' ↔ ∃ a, result = .ok a ∧ Yields (f a) s b s' := by
  rw [yields_bind]
  constructor
  · rintro ⟨a, _, hsettle, h⟩
    obtain ⟨ha, rfl⟩ := yields_settle.1 hsettle
    exact ⟨a, ha, h⟩
  · rintro ⟨a, ha, h⟩
    exact ⟨a, s, yields_settle.2 ⟨ha, rfl⟩, h⟩

lemma yields_get_bind {f : σ → Stateful ε σ β} :
    Yields (get >>= f) s b s' ↔ Yields (f s) s b s' := by
  rw [Yields, run_get_bind]
  rfl

lemma yields_modify_bind {g : σ → σ} {f : PUnit → Stateful ε σ β} :
    Yields (modify g >>= f) s b s' ↔ Yields (f ⟨⟩) (g s) b s' := by
  rw [Yields, run_modify_bind]
  rfl

/-! The state that a program leaves, whether it succeeds or fails. -/

/-- Whatever comes of the program, the state that it leaves has the property. -/
def Leaves (p : Stateful ε σ α) (s : σ) (Q : σ → Prop) : Prop := Q (p.run s).2

variable {Q : σ → Prop}

lemma leaves_bind (hfail : ∀ error s', p.run s = (.error error, s') → Q s')
    (hgo : ∀ a s', p.run s = (.ok a, s') → Leaves (f a) s' Q) : Leaves (p >>= f) s Q := by
  rw [Leaves, run_bind]
  cases hrun : p.run s with
  | mk result s' =>
    cases result with
    | ok a => exact hgo a s' hrun
    | error error => exact hfail error s' hrun

lemma Leaves.of_run {result : Except ε α} (h : Leaves p s Q) (hrun : p.run s = (result, s')) :
    Q s' := by
  rw [Leaves, hrun] at h
  exact h

lemma Leaves.of_yields (h : Leaves p s Q) (hrun : Yields p s a s') : Q s' := h.of_run hrun

/-- What both parts of a sequence leave. -/
lemma Leaves.bind (h : Leaves p s Q) (hgo : ∀ a s', Yields p s a s' → Q s' → Leaves (f a) s' Q) :
    Leaves (p >>= f) s Q :=
  leaves_bind (fun _ _ hrun => h.of_run hrun) fun a s' hrun => hgo a s' hrun (h.of_run hrun)

lemma leaves_settle_bind {result : Except ε α} (hfail : Q s)
    (hgo : ∀ a, result = .ok a → Leaves (f a) s Q) : Leaves (settle result >>= f) s Q := by
  rw [Leaves, run_settle_bind]
  cases result with
  | ok a => exact hgo a rfl
  | error error => exact hfail

end Stateful
