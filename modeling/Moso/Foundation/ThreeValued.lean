import Mathlib.Data.List.Basic

/-!
# Three-valued logic

Kleene's strong logic over `true`, `false` and unknown, as SQL evaluates a condition, and the
comparisons of values that may be missing. A row is kept by a condition that *holds*: one that is
true, and neither false nor unknown.
-/

namespace ThreeValued

/-- A truth value; `none` is unknown. -/
abbrev Truth := Option Bool

namespace Truth

def and : Truth → Truth → Truth
  | some false, _          => some false
  | _, some false          => some false
  | some true, some true   => some true
  | _, _                   => none

def or : Truth → Truth → Truth
  | some true, _           => some true
  | _, some true           => some true
  | some false, some false => some false
  | _, _                   => none

def not (t : Truth) : Truth := t.map (!·)

/-- The conjunction of a list; that of no condition is true. -/
def all (ts : List Truth) : Truth := ts.foldr and (some true)

/-- The disjunction of a list; that of no condition is false. -/
def any (ts : List Truth) : Truth := ts.foldr or (some false)

/-- A condition that keeps the row. -/
def Holds (t : Truth) : Prop := t = some true

instance (t : Truth) : Decidable t.Holds := inferInstanceAs (Decidable (t = some true))

@[simp] lemma holds_some {b : Bool} : Holds (some b) ↔ b = true := by simp [Holds]

@[simp] lemma not_holds_none : ¬Holds none := by simp [Holds]

@[simp] lemma holds_and {s t : Truth} : (and s t).Holds ↔ s.Holds ∧ t.Holds := by
  rcases s with _ | _ | _ <;> rcases t with _ | _ | _ <;> simp [and]

@[simp] lemma holds_or {s t : Truth} : (or s t).Holds ↔ s.Holds ∨ t.Holds := by
  rcases s with _ | _ | _ <;> rcases t with _ | _ | _ <;> simp [or]

@[simp] lemma holds_all {ts : List Truth} : (all ts).Holds ↔ ∀ t ∈ ts, t.Holds := by
  induction ts with
  | nil => simp [all]
  | cons t ts ih =>
    rw [List.forall_mem_cons, ← ih]
    exact holds_and

@[simp] lemma holds_any {ts : List Truth} : (any ts).Holds ↔ ∃ t ∈ ts, t.Holds := by
  induction ts with
  | nil => simp [any]
  | cons t ts ih =>
    rw [List.exists_mem_cons_iff, ← ih]
    exact holds_or

/-- A disjunction is refuted when each part of it is. -/
@[simp] lemma holds_not_or {s t : Truth} : (or s t).not.Holds ↔ s.not.Holds ∧ t.not.Holds := by
  rcases s with _ | _ | _ <;> rcases t with _ | _ | _ <;> simp [or, not]

@[simp] lemma holds_not_any {ts : List Truth} : (any ts).not.Holds ↔ ∀ t ∈ ts, t.not.Holds := by
  induction ts with
  | nil => simp [any, not]
  | cons t ts ih =>
    rw [List.forall_mem_cons, ← ih]
    exact holds_not_or

end Truth

variable {α : Type*}

/-- A comparison that is unknown as soon as one of the two is missing. -/
def compare (r : α → α → Bool) (x y : Option α) : Truth :=
  x.bind fun a => y.map fun b => r a b

/-- `x IS NULL`, which is never unknown. -/
def isNull (x : Option α) : Truth := some x.isNone

lemma holds_compare {r : α → α → Bool} {x y : Option α} :
    (compare r x y).Holds ↔ ∃ a b, x = some a ∧ y = some b ∧ r a b = true := by
  cases x <;> cases y <;> simp [compare]

@[simp] lemma holds_isNull {x : Option α} : (isNull x).Holds ↔ x = none := by
  simp [isNull]

@[simp] lemma holds_not_isNull {x : Option α} : (isNull x).not.Holds ↔ x ≠ none := by
  cases x <;> simp [isNull, Truth.not]

/-- `x = y`. -/
def equal [DecidableEq α] (x y : Option α) : Truth := compare (fun a b => decide (a = b)) x y

/-- Two values are equal when both are there and the same. -/
@[simp] lemma holds_equal_some [DecidableEq α] {x : Option α} {b : α} :
    (equal x (some b)).Holds ↔ x = some b := by
  rw [equal, holds_compare]
  constructor
  · rintro ⟨a, b', rfl, hb, hab⟩
    rw [Option.some.inj hb, of_decide_eq_true hab]
  · rintro rfl
    exact ⟨b, b, rfl, rfl, decide_eq_true rfl⟩

@[simp] lemma holds_not_equal_some [DecidableEq α] {x : Option α} {b : α} :
    (equal x (some b)).not.Holds ↔ ∃ a, x = some a ∧ a ≠ b := by
  cases x <;> simp [equal, compare, Truth.not]

@[simp] lemma not_holds_equal_none [DecidableEq α] {x : Option α} : ¬(equal x none).Holds := by
  rw [equal, holds_compare]
  rintro ⟨_, _, _, h, _⟩
  cases h

end ThreeValued
