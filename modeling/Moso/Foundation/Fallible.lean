import Mathlib.Data.List.Forall2

/-!
# Results that may be errors

What it says that a sequence of steps, each of which may fail, succeeds.
-/

namespace Fallible

variable {ε α β : Type}

/-- A sequence succeeds when its first step does, and the rest does with what that returned. -/
lemma bind_eq_ok {x : Except ε α} {f : α → Except ε β} {b : β} :
    (x >>= f) = .ok b ↔ ∃ a, x = .ok a ∧ f a = .ok b := by
  cases x with
  | error e =>
    refine ⟨fun h => ?_, ?_⟩
    · cases h
    · rintro ⟨_, ⟨⟩, _⟩
  | ok a =>
    refine ⟨fun h => ⟨a, rfl, h⟩, ?_⟩
    rintro ⟨_, ⟨⟩, h⟩
    exact h

lemma map_eq_ok {x : Except ε α} {f : α → β} {b : β} :
    x.map f = .ok b ↔ ∃ a, x = .ok a ∧ f a = b := by
  cases x with
  | error e =>
    refine ⟨fun h => ?_, ?_⟩
    · cases h
    · rintro ⟨_, ⟨⟩, _⟩
  | ok a =>
    refine ⟨fun h => ⟨a, rfl, Except.ok.inj h⟩, ?_⟩
    rintro ⟨_, ⟨⟩, rfl⟩
    rfl

@[simp] lemma pure_eq_ok {a b : α} : (pure a : Except ε α) = .ok b ↔ a = b :=
  ⟨Except.ok.inj, congrArg Except.ok⟩

@[simp] lemma throw_eq_ok {e : ε} {b : β} : (throw e : Except ε β) = .ok b ↔ False :=
  iff_of_false (by rintro ⟨⟩) not_false

/-- A check that has to pass. -/
lemma check_bind_eq_ok {p : Prop} [Decidable p] {e : ε} {f : PUnit → Except ε β} {b : β} :
    ((if p then throw e else pure ⟨⟩ : Except ε PUnit) >>= f) = .ok b ↔ ¬p ∧ f ⟨⟩ = .ok b := by
  split
  · next hp => exact iff_of_false (by rintro ⟨⟩) fun h => h.1 hp
  · next hp => exact (and_iff_right hp).symm

/-- Every step of a traversal has to succeed. -/
lemma forall₂_of_mapM {f : α → Except ε β} {as : List α} {bs : List β} (h : as.mapM f = .ok bs) :
    List.Forall₂ (fun a b => f a = .ok b) as bs := by
  induction as generalizing bs with
  | nil =>
    obtain rfl := Except.ok.inj h
    exact .nil
  | cons a as ih =>
    rw [List.mapM_cons] at h
    obtain ⟨b, hb, h⟩ := bind_eq_ok.1 h
    obtain ⟨bs, hbs, h⟩ := bind_eq_ok.1 h
    obtain rfl := Except.ok.inj h
    exact .cons hb (ih hbs)

/-- A traversal succeeds when every step does. -/
lemma mapM_eq_ok_iff {f : α → Except ε β} {as : List α} {bs : List β} :
    as.mapM f = .ok bs ↔ List.Forall₂ (fun a b => f a = .ok b) as bs := by
  refine ⟨forall₂_of_mapM, fun hall => ?_⟩
  induction hall with
  | nil => rfl
  | cons hab _ ih =>
    rw [List.mapM_cons]
    exact bind_eq_ok.2 ⟨_, hab, bind_eq_ok.2 ⟨_, ih, rfl⟩⟩

/-- What a traversal returns comes from its steps. -/
lemma exists_of_mem_mapM {f : α → Except ε β} {as : List α} {bs : List β} {b : β}
    (h : as.mapM f = .ok bs) (hb : b ∈ bs) : ∃ a ∈ as, f a = .ok b := by
  have hall := forall₂_of_mapM h
  clear h
  induction hall with
  | nil => cases hb
  | @cons a b' _ _ hab _ ih =>
    rcases List.mem_cons.mp hb with rfl | hb
    · exact ⟨a, List.mem_cons_self, hab⟩
    · obtain ⟨a, ha, hab⟩ := ih hb
      exact ⟨a, List.mem_cons_of_mem _ ha, hab⟩

end Fallible
