import Mathlib.Data.Option.Basic
import Mathlib.Data.Nat.Notation
import Mathlib.Logic.Function.Basic

/-!
# Parties that take turns

A table of parties by number, each of them at some point of what it does. What a party has for
itself (a lock, a value of its own) is a partial function of the point it is at; two parties are
apart when they never have the same.
-/

namespace Parties

variable {α β : Type*} {parties : ℕ → Option α} {f : α → Option β} {i j : ℕ} {a b : α}

lemma update_eq_some {o : Option α} : Function.update parties i o j = some b ↔
    (j = i ∧ o = some b) ∨ (j ≠ i ∧ parties j = some b) := by
  by_cases hj : j = i
  · subst hj
    simp
  · simp [hj]

lemma update_none_eq_some : Function.update parties i none j = some b ↔
    j ≠ i ∧ parties j = some b := by
  rw [update_eq_some]
  simp

/-- No two parties have the same. -/
def Apart (f : α → Option β) (parties : ℕ → Option α) : Prop :=
  ∀ i j a b x, i ≠ j → parties i = some a → parties j = some b → f a = some x → f b ≠ some x

lemma apart_none : Apart f fun _ => none := by
  intro i j a b x _ hi
  cases hi

/-- A party may leave. -/
lemma Apart.leave (h : Apart f parties) : Apart f (Function.update parties i none) := by
  intro j k a b x hjk hj hk
  exact h j k a b x hjk (update_none_eq_some.1 hj).2 (update_none_eq_some.1 hk).2

/-- A party may come to have what no other party has. -/
lemma Apart.enter (h : Apart f parties)
    (ha : ∀ x, f a = some x → ∀ j b, parties j = some b → f b ≠ some x) :
    Apart f (Function.update parties i (some a)) := by
  intro j k b c x hjk hj hk hb
  rcases update_eq_some.1 hj with ⟨rfl, heq⟩ | ⟨-, hj⟩
  · obtain rfl := Option.some.inj heq
    rcases update_eq_some.1 hk with ⟨rfl, -⟩ | ⟨-, hk⟩
    · exact absurd rfl hjk
    · exact ha x hb k c hk
  · rcases update_eq_some.1 hk with ⟨rfl, heq⟩ | ⟨-, hk⟩
    · obtain rfl := Option.some.inj heq
      intro hc
      rcases update_eq_some.1 hj with ⟨rfl, -⟩ | ⟨-, hj⟩
      · exact hjk rfl
      · exact ha x hc j b hj hb
    · exact h j k b c x hjk hj hk hb

/-- No two parties have the same, where a party may have many. -/
def Separate (has : α → β → Prop) (parties : ℕ → Option α) : Prop :=
  ∀ i j a b x, i ≠ j → parties i = some a → parties j = some b → has a x → ¬ has b x

variable {has : α → β → Prop}

lemma separate_none : Separate has fun _ => none := by
  intro i j a b x _ hi
  cases hi

lemma Separate.leave (h : Separate has parties) :
    Separate has (Function.update parties i none) := by
  intro j k a b x hjk hj hk
  exact h j k a b x hjk (update_none_eq_some.1 hj).2 (update_none_eq_some.1 hk).2

/-- A party may come to have what no other party has. -/
lemma Separate.put (h : Separate has parties)
    (ha : ∀ x, has a x → ∀ j b, j ≠ i → parties j = some b → ¬ has b x) :
    Separate has (Function.update parties i (some a)) := by
  intro j k b c x hjk hj hk hb hc
  rw [update_eq_some] at hj hk
  rcases hj with ⟨rfl, heq⟩ | ⟨hj, hj'⟩
  · obtain rfl := Option.some.inj heq
    rcases hk with ⟨rfl, -⟩ | ⟨hk, hk'⟩
    · exact hjk rfl
    · exact ha x hb k c hk hk' hc
  · rcases hk with ⟨rfl, heq⟩ | ⟨-, hk'⟩
    · obtain rfl := Option.some.inj heq
      exact ha x hc j b hj hj' hb
    · exact h j k b c x hjk hj' hk' hb hc

end Parties
