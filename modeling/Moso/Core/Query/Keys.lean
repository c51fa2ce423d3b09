import Moso.Core.Query
import Mathlib.Data.List.TakeWhile
import Mathlib.Tactic.Common

/-!
# Bracketed keys

A key is split when it is a base and then names in brackets. Everything else is a literal name.
-/

namespace Moso.Core

/-- A name in brackets. -/
def bracket (name : Text) : Text := '[' :: (name ++ [']'])

/-- The key is a base and then names in brackets. -/
structure Bracketed (key base : Text) (names : List Text) : Prop where
  key_eq : key = base ++ names.flatMap bracket
  base_open : '[' ∉ base
  names_ne_nil : names ≠ []
  names_close : ∀ name ∈ names, ']' ∉ name

/-- Every bracket has its counterpart, with so many open ones before. -/
def Balanced : ℕ → Text → Prop
  | depth, [] => depth = 0
  | depth, c :: rest =>
    if c = '[' then Balanced (depth + 1) rest
    else if c = ']' then 0 < depth ∧ Balanced (depth - 1) rest
    else Balanced depth rest

/-- Text goes on after a bracket that was closed. -/
def Trails (key : Text) : Prop :=
  ∃ front c back, key = front ++ ']' :: c :: back ∧ '[' ∈ front ∧ c ≠ '['

variable {key base name rest : Text} {names : List Text} {segments : List Segment} {depth : ℕ}

/-! ### Splitting -/

lemma splitLoop_name {name' : Text} (h : ']' ∉ name') :
    splitLoop (some name) (name' ++ ']' :: rest) =
      (splitLoop none rest).map fun segments => .of (name ++ name') :: segments := by
  induction name' generalizing name with
  | nil => simp [splitLoop]
  | cons c name' ih =>
    rw [List.mem_cons, not_or] at h
    rw [List.cons_append, splitLoop, if_neg (Ne.symm h.1), ih h.2]
    simp

lemma splitLoop_brackets (h : ∀ name ∈ names, ']' ∉ name) :
    splitLoop none (names.flatMap bracket) = some (names.map .of) := by
  induction names with
  | nil => rfl
  | cons name names ih =>
    rw [List.forall_mem_cons] at h
    rw [List.flatMap_cons, bracket, List.cons_append, splitLoop, if_pos rfl, List.append_assoc,
      List.singleton_append, splitLoop_name h.1, ih h.2]
    rfl

/-- What the loop accepts. -/
lemma splitLoop_eq_some (text : Text) :
    (splitLoop none text = some segments → ∃ names : List Text, text = names.flatMap bracket ∧
      (∀ name ∈ names, ']' ∉ name) ∧ segments = names.map .of) ∧
    (∀ name, splitLoop (some name) text = some segments → ∃ (name' : Text) (names : List Text),
      text = name' ++ ']' :: names.flatMap bracket ∧ ']' ∉ name' ∧
        (∀ name ∈ names, ']' ∉ name) ∧ segments = .of (name ++ name') :: names.map .of) := by
  induction text generalizing segments with
  | nil =>
    refine ⟨fun h => ⟨[], rfl, by simp, ?_⟩, fun name h => ?_⟩
    · exact (Option.some.inj h).symm
    · cases h
  | cons c text ih =>
    refine ⟨fun h => ?_, fun name h => ?_⟩
    · rw [splitLoop, Option.ite_none_right_eq_some] at h
      obtain ⟨rfl, h⟩ := h
      obtain ⟨name', names, rfl, hname, hnames, rfl⟩ := ih.2 [] h
      exact ⟨name' :: names, by simp [bracket], List.forall_mem_cons.mpr ⟨hname, hnames⟩, rfl⟩
    · rw [splitLoop] at h
      split_ifs at h with hc
      · subst hc
        obtain ⟨segments', hrest, rfl⟩ := Option.map_eq_some_iff.mp h
        obtain ⟨names, rfl, hnames, rfl⟩ := ih.1 hrest
        exact ⟨[], names, rfl, by simp, hnames, by simp⟩
      · obtain ⟨name', names, rfl, hname, hnames, rfl⟩ := ih.2 _ h
        refine ⟨c :: name', names, rfl, ?_, hnames, by simp⟩
        simpa [Ne.symm hc] using hname

lemma splitKey_of_bracketed (h : Bracketed key base names) :
    splitKey key = (base, names.map .of) := by
  obtain ⟨rfl, hopen, hne, hclose⟩ := h
  obtain ⟨name, names, rfl⟩ := List.exists_cons_of_ne_nil hne
  have hbase : ∀ c ∈ base, decide (c ≠ '[') = true := fun c hc =>
    decide_eq_true fun heq => hopen (heq ▸ hc)
  have hdrop : (base ++ (name :: names).flatMap bracket).dropWhile (· ≠ '[') =
      '[' :: (name ++ [']'] ++ names.flatMap bracket) := by
    rw [List.dropWhile_append_of_pos hbase]
    rfl
  have htake : (base ++ (name :: names).flatMap bracket).takeWhile (· ≠ '[') = base := by
    rw [List.takeWhile_append_of_pos hbase]
    simp [bracket]
  have hloop : splitLoop none ('[' :: (name ++ [']'] ++ names.flatMap bracket)) =
      some ((name :: names).map .of) := splitLoop_brackets hclose
  rw [splitKey, hdrop, htake]
  simp only [hloop]

/-- A key is split, or a literal name. -/
lemma splitKey_cases (key : Text) :
    splitKey key = (key, []) ∨ ∃ base names, Bracketed key base names := by
  have hkey : key.takeWhile (· ≠ '[') ++ key.dropWhile (· ≠ '[') = key :=
    List.takeWhile_append_dropWhile
  rw [splitKey]
  split
  · exact .inl rfl
  · next brackets hne =>
    split
    · next segments hsegments =>
      obtain ⟨names, hnames, hclose, rfl⟩ := (splitLoop_eq_some _).1 hsegments
      refine .inr ⟨_, names, (hnames ▸ hkey).symm, ?_, ?_, hclose⟩
      · intro hmem
        have hchar := List.mem_takeWhile_imp hmem
        exact of_decide_eq_true hchar rfl
      · rintro rfl
        exact hne hnames
    · exact .inl rfl

/-! ### Literal names -/

lemma splitLoop_of_trails {c : Char} {back : Text} (hc : c ≠ '[') (state : Option Text)
    (front : Text) : splitLoop state (front ++ ']' :: c :: back) = none := by
  induction front generalizing state with
  | nil => cases state <;> simp [splitLoop, hc]
  | cons d front ih =>
    cases state with
    | none =>
      rw [List.cons_append, splitLoop, ih]
      simp
    | some name =>
      rw [List.cons_append, splitLoop, ih, ih]
      simp

lemma splitKey_of_trails (h : Trails key) : splitKey key = (key, []) := by
  obtain ⟨front, c, back, rfl, hopen, hc⟩ := h
  rw [splitKey]
  split
  · rfl
  · next brackets hne =>
    have hdrop : (front ++ ']' :: c :: back).dropWhile (· ≠ '[') =
        front.dropWhile (· ≠ '[') ++ ']' :: c :: back := by
      rw [List.dropWhile_append, if_neg]
      rw [List.isEmpty_iff, List.dropWhile_eq_nil_iff]
      exact fun hall => of_decide_eq_true (hall _ hopen) rfl
    rw [hdrop, splitLoop_of_trails hc]

/-! ### Balance -/

lemma balanced_append (h : ']' ∉ name) :
    Balanced depth (name ++ rest) ↔ Balanced (depth + name.count '[') rest := by
  induction name generalizing depth with
  | nil => rfl
  | cons c name ih =>
    rw [List.mem_cons, not_or] at h
    rw [List.cons_append, Balanced, if_neg (Ne.symm h.1)]
    split_ifs with hc
    · rw [ih h.2, hc, List.count_cons_self, Nat.add_assoc, Nat.add_comm 1]
    · rw [ih h.2, List.count_cons_of_ne hc]

lemma balanced_brackets (h : ∀ name ∈ names, ']' ∉ name) :
    Balanced depth (names.flatMap bracket) ↔ depth = 0 ∧ ∀ name ∈ names, '[' ∉ name := by
  induction names generalizing depth with
  | nil => simp [Balanced]
  | cons name names ih =>
    rw [List.forall_mem_cons] at h
    rw [List.flatMap_cons, bracket, List.cons_append, Balanced, if_pos rfl, List.append_assoc,
      List.singleton_append, balanced_append h.1, Balanced, if_neg (by decide), if_pos rfl, ih h.2,
      List.forall_mem_cons, ← List.count_eq_zero]
    constructor
    · rintro ⟨-, hdepth, hnames⟩
      exact ⟨by omega, by omega, hnames⟩
    · rintro ⟨rfl, hname, hnames⟩
      exact ⟨by omega, by omega, hnames⟩

/-- A key that is split is balanced when no bracket is part of a name. -/
lemma balanced_iff (h : Bracketed key base names) :
    Balanced 0 key ↔ ']' ∉ base ∧ ∀ name ∈ names, '[' ∉ name := by
  obtain ⟨rfl, hopen, hne, hclose⟩ := h
  by_cases hbase : ']' ∈ base
  · simp only [hbase, not_true_eq_false, false_and, iff_false]
    clear hne
    induction base with
    | nil => cases hbase
    | cons c base ih =>
      rw [List.mem_cons, not_or] at hopen
      rw [List.cons_append, Balanced, if_neg (Ne.symm hopen.1)]
      split_ifs with hc
      · simp
      · exact ih hopen.2 ((List.mem_cons.mp hbase).resolve_left (Ne.symm hc))
  · rw [balanced_append hbase, List.count_eq_zero.mpr hopen, balanced_brackets hclose]
    simp [hbase]

/-- Unbalanced keys and those with trailing text are literal names, if no bracket is part of a
name of the key. -/
theorem literal_iff (key : Text) :
    (¬ Balanced 0 key ∨ Trails key → splitKey key = (key, [])) ↔
      ∀ base names, Bracketed key base names → ']' ∉ base ∧ ∀ name ∈ names, '[' ∉ name := by
  constructor
  · intro h base names hkey
    rw [← balanced_iff hkey]
    by_contra hunbalanced
    have hsplit := (splitKey_of_bracketed hkey).symm.trans (h (.inl hunbalanced))
    exact hkey.names_ne_nil (List.map_eq_nil_iff.mp (Prod.ext_iff.mp hsplit).2)
  · rintro h (hunbalanced | htrails)
    · refine (splitKey_cases key).resolve_right ?_
      rintro ⟨base, names, hkey⟩
      exact hunbalanced ((balanced_iff hkey).mpr (h base names hkey))
    · exact splitKey_of_trails htrails

end Moso.Core
