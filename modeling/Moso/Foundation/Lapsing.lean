import Mathlib.Data.Option.Basic
import Mathlib.Order.Lattice

/-!
# Tables whose entries lapse

A table that holds each value for as long as the value's own end says: until an instant, or for
good. A table is read at an instant and never has to be swept.
-/

/-- The value under each key, and the instant from which it is gone, if there is one. -/
def Lapsing (κ V : Type*) := κ → Option (V × Option ℕ)

namespace Lapsing

variable {κ V : Type*} {m : Lapsing κ V} {now t t' : ℕ} {k k' : κ} {v : V} {e : Option ℕ}

/-- What ends so is still there at an instant. -/
def Lasts (e : Option ℕ) (t : ℕ) : Prop := ∀ x ∈ e, t < x

instance : Decidable (Lasts e t) := inferInstanceAs (Decidable (∀ x ∈ e, t < x))

@[simp] lemma lasts_none : Lasts none t := by simp [Lasts]

@[simp] lemma lasts_some {x : ℕ} : Lasts (some x) t ↔ t < x := by simp [Lasts]

lemma Lasts.mono (h : Lasts e t') (hle : t ≤ t') : Lasts e t :=
  fun x hx => lt_of_le_of_lt hle (h x hx)

def empty : Lapsing κ V := fun _ => none

/-- The entry under a key at an instant: its value and its end. -/
def live (m : Lapsing κ V) (now : ℕ) (k : κ) : Option (V × Option ℕ) :=
  (m k).filter fun entry => Lasts entry.2 now

/-- The value under a key at an instant. -/
def get (m : Lapsing κ V) (now : ℕ) (k : κ) : Option V := (m.live now k).map Prod.fst

/-- Put a value with its end under a key, over whatever was there. -/
def set [DecidableEq κ] (m : Lapsing κ V) (k : κ) (v : V) (e : Option ℕ) : Lapsing κ V :=
  fun k' => if k' = k then some (v, e) else m k'

def delete [DecidableEq κ] (m : Lapsing κ V) (k : κ) : Lapsing κ V :=
  fun k' => if k' = k then none else m k'

lemma live_eq_some : m.live now k = some (v, e) ↔ m k = some (v, e) ∧ Lasts e now := by
  simp [live, Option.filter_eq_some_iff]

@[simp] lemma live_empty : (empty : Lapsing κ V).live now k = none := rfl

@[simp] lemma get_empty : (empty : Lapsing κ V).get now k = none := rfl

lemma get_eq_some : m.get now k = some v ↔ ∃ e, m.live now k = some (v, e) := by
  simp [get]

lemma get_eq_none : m.get now k = none ↔ m.live now k = none := by
  simp [get]

lemma get_of_live (h : m.live now k = some (v, e)) : m.get now k = some v :=
  get_eq_some.2 ⟨e, h⟩

/-- What is there later was there before. -/
lemma live_mono (hle : t ≤ t') (h : m.live t' k = some (v, e)) : m.live t k = some (v, e) := by
  obtain ⟨hk, hlasts⟩ := live_eq_some.1 h
  exact live_eq_some.2 ⟨hk, hlasts.mono hle⟩

lemma get_mono (hle : t ≤ t') (h : m.get t' k = some v) : m.get t k = some v := by
  obtain ⟨e, he⟩ := get_eq_some.1 h
  exact get_of_live (live_mono hle he)

/-- What is not there does not come back by itself. -/
lemma get_eq_none_of_le (hle : t ≤ t') (h : m.get t k = none) : m.get t' k = none := by
  cases h' : m.get t' k with
  | none => rfl
  | some v => rw [get_mono hle h'] at h; cases h

/-- What becomes of an entry in time. -/
lemma get_eq_ite_of_live (h : m.live t k = some (v, e)) :
    m.get t' k = if Lasts e t' then some v else none := by
  rw [get, live, (live_eq_some.1 h).1, Option.filter_some]
  by_cases hlasts : Lasts e t' <;> simp [hlasts]

section Update

variable [DecidableEq κ]

/-- Only the last of two writes to a key counts. -/
@[simp] lemma set_set {w : V} {e' : Option ℕ} : (m.set k v e).set k w e' = m.set k w e' := by
  funext k'
  by_cases h : k' = k <;> simp [set, h]

@[simp] lemma live_set_self :
    (m.set k v e).live t k = if Lasts e t then some (v, e) else none := by
  simp [live, set, Option.filter_some]

@[simp] lemma live_set_of_ne (h : k' ≠ k) : (m.set k v e).live t k' = m.live t k' := by
  simp [live, set, h]

@[simp] lemma live_delete_self : (m.delete k).live t k = none := by
  simp [live, delete]

@[simp] lemma live_delete_of_ne (h : k' ≠ k) : (m.delete k).live t k' = m.live t k' := by
  simp [live, delete, h]

@[simp] lemma get_set_self : (m.set k v e).get t k = if Lasts e t then some v else none := by
  rw [get, live_set_self]
  split <;> rfl

@[simp] lemma get_set_of_ne (h : k' ≠ k) : (m.set k v e).get t k' = m.get t k' := by
  rw [get, live_set_of_ne h, get]

@[simp] lemma get_delete_self : (m.delete k).get t k = none := by
  rw [get, live_delete_self, Option.map_none]

@[simp] lemma get_delete_of_ne (h : k' ≠ k) : (m.delete k).get t k' = m.get t k' := by
  rw [get, live_delete_of_ne h, get]

/-- What is there after a write is what was written, or was there under another key. -/
lemma get_set_eq_some {w : V} : (m.set k v e).get t k' = some w ↔
    (k' = k ∧ Lasts e t ∧ v = w) ∨ (k' ≠ k ∧ m.get t k' = some w) := by
  by_cases hk : k' = k
  · subst hk
    simp
  · simp [hk]

lemma get_delete_eq_some {w : V} : (m.delete k).get t k' = some w ↔
    k' ≠ k ∧ m.get t k' = some w := by
  by_cases hk : k' = k
  · subst hk
    simp
  · simp [hk]

end Update

end Lapsing
