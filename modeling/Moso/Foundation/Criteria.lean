import Mathlib.Data.List.Sort

/-!
# Sorting by several criteria

A criterion is a strict order that may leave elements tied. A list of criteria compares by the
first of them that tells two elements apart, which is a criterion again, and a list may be sorted
by it.
-/

namespace Criteria

variable {α : Type*}

/-- A strict order in which being tied is transitive. -/
structure StrictWeak (before : α → α → Bool) : Prop where
  asymm : ∀ {a b}, before a b = true → before b a = false
  cotrans : ∀ {a b}, before a b = true → ∀ c, before a c = true ∨ before c b = true

/-- By the first criterion that tells `a` and `b` apart. -/
def lex : List (α → α → Bool) → α → α → Bool
  | [], _, _      => false
  | p :: ps, a, b => p a b || (!p b a && lex ps a b)

/-- No element comes after one that it is before. -/
def Sorted (before : α → α → Bool) (l : List α) : Prop := l.Pairwise fun a b => before b a = false

instance (before : α → α → Bool) (l : List α) : Decidable (Sorted before l) :=
  inferInstanceAs (Decidable (l.Pairwise fun a b => before b a = false))

variable {before : α → α → Bool} {a b c : α}

namespace StrictWeak

lemma irrefl (h : StrictWeak before) (a : α) : before a a = false := by
  by_contra hne
  have haa : before a a = true := Bool.not_eq_false _ ▸ hne
  exact hne (h.asymm haa)

lemma trans (h : StrictWeak before) (hab : before a b = true) (hbc : before b c = true) :
    before a c = true :=
  (h.cotrans hab c).resolve_right fun hcb => Bool.false_ne_true ((h.asymm hbc).symm.trans hcb)

/-- Not being before is transitive. -/
lemma trans_not (h : StrictWeak before) (hba : before b a = false) (hcb : before c b = false) :
    before c a = false := by
  by_contra hne
  rcases h.cotrans (Bool.not_eq_false _ ▸ hne) b with hcb' | hba'
  · exact Bool.false_ne_true (hcb.symm.trans hcb')
  · exact Bool.false_ne_true (hba.symm.trans hba')

lemma total (h : StrictWeak before) : Std.Total fun a b => before b a = false := ⟨fun a b => by
  cases hba : before b a with
  | false => exact .inl rfl
  | true => exact .inr (h.asymm hba)⟩

lemma isTrans (h : StrictWeak before) : IsTrans α fun a b => before b a = false :=
  ⟨fun _ _ _ hba hcb => h.trans_not hba hcb⟩

lemma flip (h : StrictWeak before) : StrictWeak fun a b => before b a where
  asymm hab := h.asymm hab
  cotrans hab c := (h.cotrans hab c).symm

lemma comap {β : Type*} (h : StrictWeak before) (f : β → α) :
    StrictWeak fun a b => before (f a) (f b) where
  asymm hab := h.asymm hab
  cotrans hab c := h.cotrans hab (f c)

end StrictWeak

lemma strictWeak_lt [LinearOrder α] : StrictWeak fun a b : α => decide (a < b) where
  asymm h := decide_eq_false (lt_asymm (of_decide_eq_true h))
  cotrans h c := by
    rcases lt_or_ge (_ : α) c with hac | hca
    · exact .inl (decide_eq_true hac)
    · exact .inr (decide_eq_true (hca.trans_lt (of_decide_eq_true h)))

@[simp] lemma lex_nil : lex [] a b = false := rfl

lemma lex_cons {p : α → α → Bool} {ps : List (α → α → Bool)} :
    lex (p :: ps) a b = true ↔ p a b = true ∨ p b a = false ∧ lex ps a b = true := by
  rw [lex, Bool.or_eq_true, Bool.and_eq_true, Bool.not_eq_true']

/-- What earlier criteria tell apart, later ones do not change. -/
lemma lex_append {ps qs : List (α → α → Bool)} (h : lex ps a b = true) :
    lex (ps ++ qs) a b = true := by
  induction ps with
  | nil => cases h
  | cons p ps ih => exact lex_cons.2 ((lex_cons.1 h).imp_right fun h => ⟨h.1, ih h.2⟩)

/-- Comparing by criteria is a criterion. -/
theorem strictWeak_lex {ps : List (α → α → Bool)} (h : ∀ p ∈ ps, StrictWeak p) :
    StrictWeak (lex ps) := by
  induction ps with
  | nil =>
    constructor
    · intro a b hab
      cases hab
    · intro a b hab
      cases hab
  | cons p ps ih =>
    have hp : StrictWeak p := h p List.mem_cons_self
    have hps : StrictWeak (lex ps) := ih fun q hq => h q (List.mem_cons_of_mem p hq)
    refine ⟨fun {a b} hab => ?_, fun {a b} hab c => ?_⟩
    · by_contra hne
      rcases lex_cons.1 (Bool.not_eq_false _ ▸ hne) with hba | ⟨hnab, hba⟩
      · rcases lex_cons.1 hab with hab | ⟨hnba, -⟩
        · exact Bool.false_ne_true ((hp.asymm hab).symm.trans hba)
        · exact Bool.false_ne_true (hnba.symm.trans hba)
      · rcases lex_cons.1 hab with hab | ⟨-, hab⟩
        · exact Bool.false_ne_true (hnab.symm.trans hab)
        · exact Bool.false_ne_true ((hps.asymm hab).symm.trans hba)
    · rcases lex_cons.1 hab with hab | ⟨hnba, hab⟩
      · exact (hp.cotrans hab c).imp (fun h => lex_cons.2 (.inl h)) fun h => lex_cons.2 (.inl h)
      · -- Whichever side the later criteria put `c` on, the first one may only confirm it, or
        -- put `c` on the other side of both.
        rcases hps.cotrans hab c with hac | hcb
        · cases hca : p c a with
          | false => exact .inl (lex_cons.2 (.inr ⟨hca, hac⟩))
          | true =>
            rcases hp.cotrans hca b with hcb | hba
            · exact .inr (lex_cons.2 (.inl hcb))
            · exact absurd (hnba.symm.trans hba) Bool.false_ne_true
        · cases hbc : p b c with
          | false => exact .inr (lex_cons.2 (.inr ⟨hbc, hcb⟩))
          | true =>
            rcases hp.cotrans hbc a with hba | hac
            · exact absurd (hnba.symm.trans hba) Bool.false_ne_true
            · exact .inl (lex_cons.2 (.inl hac))

/-! ### Sorting -/

/-- A list in the order of a criterion; what is tied stays as it was. -/
def sort (before : α → α → Bool) (l : List α) : List α :=
  l.insertionSort fun a b => before b a = false

lemma sort_perm (before : α → α → Bool) (l : List α) : (sort before l).Perm l :=
  List.perm_insertionSort _ l

/-- Sorting is stable. -/
lemma sublist_sort (h : StrictWeak before) {l l' : List α} (hsorted : Sorted before l')
    (hsub : l'.Sublist l) : l'.Sublist (sort before l) := by
  have := h.total
  have := h.isTrans
  exact List.sublist_insertionSort hsorted hsub

lemma sorted_sort (h : StrictWeak before) (l : List α) : Sorted before (sort before l) := by
  have := h.total
  have := h.isTrans
  exact List.pairwise_insertionSort _ l

end Criteria
