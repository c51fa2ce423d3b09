import Mathlib.Data.List.Dedup
import Mathlib.Data.List.Forall2
import Moso.Foundation.Criteria

/-!
# The first rows of an order

A list may be brought into the order of a criterion in several ways when the criterion leaves rows
tied. Its first `n` rows are found by numbering them, or by counting for each row how many come
before it; the count may be by a comparison that is not always able to tell rows apart.
-/

namespace Criteria

variable {α β : Type*} {before precedes : α → α → Bool} {rows l l' : List α} {n : ℕ} {f : α → β}

/-- The criterion does not tell the two apart. -/
def Tied (before : α → α → Bool) (a b : α) : Prop := before a b = false ∧ before b a = false

instance (before : α → α → Bool) (a b : α) : Decidable (Tied before a b) :=
  inferInstanceAs (Decidable (before a b = false ∧ before b a = false))

/-- `l` is `rows` in an order that the criterion asks for. -/
structure Arranges (before : α → α → Bool) (rows l : List α) : Prop where
  perm : l.Perm rows
  sorted : Sorted before l

lemma arranges_sort (h : StrictWeak before) (rows : List α) :
    Arranges before rows (sort before rows) :=
  ⟨sort_perm _ _, sorted_sort h _⟩

/-! ### Ties -/

lemma StrictWeak.tied (h : StrictWeak before) : Equivalence (Tied before) where
  refl a := ⟨h.irrefl a, h.irrefl a⟩
  symm hab := ⟨hab.2, hab.1⟩
  trans hab hbc := ⟨h.trans_not hbc.1 hab.1, h.trans_not hab.2 hbc.2⟩

/-- Two arrangements differ by an exchange of rows that are tied. -/
theorem Arranges.forall₂_tied (h : StrictWeak before) (hl : Arranges before rows l)
    (hl' : Arranges before rows l') : List.Forall₂ (Tied before) l l' := by
  let tied : Setoid α := ⟨Tied before, h.tied⟩
  -- up to ties the order is antisymmetric, so that there is one arrangement only
  let le : Quotient tied → Quotient tied → Prop := fun q q' =>
    ∀ a b, ⟦a⟧ = q → ⟦b⟧ = q' → before b a = false
  have hle : ∀ a b, before b a = false → le ⟦a⟧ ⟦b⟧ := by
    intro a b hba a' b' ha hb
    have ha : Tied before a' a := Quotient.exact ha
    have hb : Tied before b' b := Quotient.exact hb
    exact h.trans_not (h.trans_not ha.2 hba) hb.1
  have hpairwise : ∀ {l : List α}, Sorted before l →
      (l.map fun a => (⟦a⟧ : Quotient tied)).Pairwise le := fun hsorted =>
    List.pairwise_map.mpr (hsorted.imp fun hba => hle _ _ hba)
  have heq : (l.map fun a => (⟦a⟧ : Quotient tied)) = l'.map fun a => ⟦a⟧ := by
    refine List.Perm.eq_of_pairwise (fun q q' _ _ hq hq' => ?_) (hpairwise hl.sorted)
      (hpairwise hl'.sorted) ((hl.perm.trans hl'.perm.symm).map _)
    obtain ⟨a, rfl⟩ := Quotient.exists_rep q
    obtain ⟨b, rfl⟩ := Quotient.exists_rep q'
    exact Quotient.sound ⟨hq' b a rfl rfl, hq a b rfl rfl⟩
  rw [← List.forall₂_eq_eq_eq, List.forall₂_map_left_iff, List.forall₂_map_right_iff] at heq
  exact heq.imp fun _ _ hab => Quotient.exact hab

/-- Rows may be put in the places of rows that they are tied with. -/
lemma Sorted.of_forall₂_tied (h : StrictWeak before) (hsorted : Sorted before l)
    (htied : List.Forall₂ (Tied before) l' l) : Sorted before l' := by
  induction htied with
  | nil => exact .nil
  | cons hab htied ih =>
    obtain ⟨hhead, htail⟩ := List.pairwise_cons.mp hsorted
    refine List.pairwise_cons.mpr ⟨fun c hc => ?_, ih htail⟩
    obtain ⟨i, hi, rfl⟩ := List.mem_iff_getElem.mp hc
    have hget := htied.get (i := i) hi (htied.length_eq ▸ hi)
    exact h.trans_not (h.trans_not hab.2 (hhead _ (List.getElem_mem _))) hget.1

/-! ### Numbering the rows -/

/-- All arrangements begin with rows that look alike just when rows that are tied with one of the
first do. -/
theorem forall_take_eq_iff (h : StrictWeak before) (hl : Arranges before rows l) :
    (∀ l', Arranges before rows l' → (l'.take n).map f = (l.take n).map f) ↔
      ∀ a ∈ l.take n, ∀ b ∈ l, Tied before a b → f a = f b := by
  constructor
  · intro hall a ha b hb hab
    obtain ⟨i, hi, rfl⟩ := List.mem_iff_getElem.mp ha
    obtain ⟨j, hj, rfl⟩ := List.mem_iff_getElem.mp hb
    rw [List.getElem_take] at hab ⊢
    rw [List.length_take] at hi
    have hil : i < l.length := hi.trans_le (Nat.min_le_right _ _)
    -- exchange the two rows
    have hperm := List.set_set_perm hil hj
    have htied : List.Forall₂ (Tied before) ((l.set i l[j]).set j l[i]) l := by
      refine List.forall₂_iff_get.mpr ⟨by simp, fun k hk hk' => ?_⟩
      simp only [List.get_eq_getElem, List.getElem_set]
      split
      · next hjk =>
        subst hjk
        exact hab
      · split
        · next hik =>
          subst hik
          exact h.tied.symm hab
        · exact h.tied.refl _
    have hsame := hall _ ⟨hperm.trans hl.perm, hl.sorted.of_forall₂_tied h htied⟩
    have hget := congrArg (fun l => l[i]?) hsame
    simp only [List.getElem?_map, List.getElem?_take_of_lt (hi.trans_le (Nat.min_le_left _ _)),
      List.getElem?_set, List.getElem?_eq_getElem hil] at hget
    by_cases hji : j = i
    · subst hji
      rfl
    · simpa [hji, hil] using hget.symm
  · intro hsame l' hl'
    have htied := hl'.forall₂_tied h hl
    refine List.ext_getElem? fun i => ?_
    rw [List.getElem?_map, List.getElem?_map, List.getElem?_take, List.getElem?_take]
    split
    · next hi =>
      cases hget : l'[i]? with
      | none =>
        rw [List.getElem?_eq_none_iff, htied.length_eq, ← List.getElem?_eq_none_iff] at hget
        rw [hget]
      | some b =>
        obtain ⟨hlt, rfl⟩ := List.getElem?_eq_some_iff.mp hget
        have hlt' : i < l.length := htied.length_eq ▸ hlt
        have hmem : l[i] ∈ l.take n := List.mem_take_iff_getElem.mpr ⟨i, by omega, rfl⟩
        rw [List.getElem?_eq_getElem hlt']
        refine congrArg some (hsame _ hmem _ ?_ (h.tied.symm (htied.get hlt hlt'))).symm
        exact hl.perm.mem_iff.mpr (hl'.perm.mem_iff.mp (List.getElem_mem hlt))
    · rfl

/-! ### Counting the rows before -/

/-- A comparison that falls short of the criterion where it cannot tell. It cannot tell which rows
come before one row for that row's own sake: what else comes before that row comes sooner still. -/
structure Approximates (precedes before : α → α → Bool) : Prop where
  sub : ∀ {a b}, precedes a b = true → before a b = true
  cut : ∀ {a b c}, precedes a b = true → before c b = false → precedes a c = false →
    ∀ {d}, precedes d c = true → before d a = true

lemma Approximates.of_never (hnever : ∀ a b, precedes a b = false) :
    Approximates precedes before :=
  ⟨fun {a b} hab => absurd ((hnever a b).symm.trans hab) Bool.false_ne_true,
    fun {a b _} hab => absurd ((hnever a b).symm.trans hab) Bool.false_ne_true⟩

/-- A criterion on cells that may be empty is put first; the comparison sees where both cells are
full. -/
theorem Approximates.cons {below : β → β → Bool} {cell : α → Option β} {first : α → α → Bool}
    {criteria : List (α → α → Bool)} {precedes' : α → α → Bool} (hbelow : StrictWeak below)
    (htied : ∀ {x y}, below x y = false → below y x = false → x = y)
    (hfirst : ∀ {a b x y}, cell a = some x → cell b = some y → first a b = below x y)
    (h : Approximates precedes (lex criteria))
    (hprecedes : ∀ {a b}, precedes' a b = true ↔ ∃ x y, cell a = some x ∧ cell b = some y ∧
      (below x y = true ∨ x = y ∧ precedes a b = true)) :
    Approximates precedes' (lex (first :: criteria)) where
  sub {a b} hab := by
    obtain ⟨x, y, ha, hb, hlt | ⟨rfl, hab⟩⟩ := hprecedes.mp hab
    · exact lex_cons.2 (.inl ((hfirst ha hb).trans hlt))
    · exact lex_cons.2 (.inr ⟨(hfirst hb ha).trans (hbelow.irrefl x), h.sub hab⟩)
  cut {a b c} hab hcb hac {d} hdc := by
    obtain ⟨x, y, ha, hb, hab⟩ := hprecedes.mp hab
    obtain ⟨w, z, hd, hc, hdc⟩ := hprecedes.mp hdc
    obtain ⟨hnlt, hnseen⟩ : below x z = false ∧ (x = z → precedes a c = false) := by
      refine ⟨Bool.eq_false_iff.mpr fun hlt => ?_, fun heq => Bool.eq_false_iff.mpr fun hseen => ?_⟩
      · exact Bool.false_ne_true (hac.symm.trans (hprecedes.mpr ⟨x, z, ha, hc, .inl hlt⟩))
      · exact Bool.false_ne_true
          (hac.symm.trans (hprecedes.mpr ⟨x, z, ha, hc, .inr ⟨heq, hseen⟩⟩))
    have hzy : below z y = false := Bool.eq_false_iff.mpr fun hlt =>
      Bool.false_ne_true (hcb.symm.trans (lex_cons.2 (.inl ((hfirst hc hb).trans hlt))))
    rcases hab with hlt | ⟨rfl, hab⟩
    · -- `c` is not before `b`, so `a` would have been seen before `c`
      rcases hbelow.cotrans hlt z with hxz | hzy'
      · exact absurd (hnlt.symm.trans hxz) Bool.false_ne_true
      · exact absurd (hzy.symm.trans hzy') Bool.false_ne_true
    · obtain rfl := htied hnlt hzy
      have hcb' : lex criteria c b = false := Bool.eq_false_iff.mpr fun hlt =>
        Bool.false_ne_true (hcb.symm.trans (lex_cons.2
          (.inr ⟨(hfirst hb hc).trans (hbelow.irrefl x), hlt⟩)))
      rcases hdc with hlt | ⟨rfl, hdc⟩
      · exact lex_cons.2 (.inl ((hfirst hd ha).trans hlt))
      · exact lex_cons.2 (.inr ⟨(hfirst ha hd).trans (hbelow.irrefl w),
          h.cut hab hcb' (hnseen rfl) hdc⟩)

/-- Fewer than `n` rows are seen to come before `a`. -/
def withinFirst (precedes : α → α → Bool) (rows : List α) (n : ℕ) (a : α) : Bool :=
  rows.countP (fun b => precedes b a) < n

/-- Fewer than `n` rows come before each of the first. -/
lemma withinFirst_of_mem_take (h : StrictWeak before)
    (hsub : ∀ {a b}, precedes a b = true → before a b = true) (hsorted : Sorted before l) {a : α}
    (ha : a ∈ l.take n) : withinFirst precedes l n a = true := by
  rw [withinFirst, decide_eq_true_eq]
  have hdrop : (l.drop n).countP (fun b => precedes b a) = 0 := by
    refine List.countP_eq_zero.mpr fun b hb hba => ?_
    have hsplit := List.pairwise_append.mp (List.take_append_drop n l ▸ hsorted)
    exact Bool.false_ne_true ((hsplit.2.2 a ha b hb).symm.trans (hsub hba))
  have htake : (l.take n).countP (fun b => precedes b a) < (l.take n).length := by
    refine lt_of_le_of_ne List.countP_le_length fun hall => ?_
    have haa := hsub (List.countP_eq_length.mp hall a ha)
    exact Bool.false_ne_true ((h.irrefl a).symm.trans haa)
  rw [← List.take_append_drop n l, List.countP_append, hdrop]
  exact htake.trans_le (List.length_take_le n l)

/-- Counting finds the first `n` rows, and it may find others. -/
lemma filter_withinFirst (h : StrictWeak before)
    (hsub : ∀ {a b}, precedes a b = true → before a b = true) (hsorted : Sorted before l) :
    l.filter (withinFirst precedes l n) =
      l.take n ++ (l.drop n).filter (withinFirst precedes l n) := by
  conv_lhs => rw [← List.take_append_drop n l, List.filter_append]
  rw [List.take_append_drop]
  congr 1
  exact List.filter_eq_self.mpr fun a ha => withinFirst_of_mem_take h hsub hsorted ha

/-- Counting finds no more than the first `n` rows just when each of them is seen to come before each of the
others. -/
theorem filter_withinFirst_eq_iff (h : StrictWeak before)
    (hprecedes : Approximates precedes before) (hsorted : Sorted before l) :
    l.filter (withinFirst precedes l n) = l.take n ↔
      ∀ a ∈ l.take n, ∀ b ∈ l.drop n, precedes a b = true := by
  have hsplit := List.pairwise_append.mp (List.take_append_drop n l ▸ hsorted)
  rw [filter_withinFirst h hprecedes.sub hsorted, List.append_right_eq_self, List.filter_eq_nil_iff]
  have hlength : ∀ b ∈ l.drop n, (l.take n).length = n := fun b hb => by
    have hpos := List.length_pos_of_mem hb
    rw [List.length_drop] at hpos
    rw [List.length_take]
    omega
  constructor
  · intro hrest a ha b hb
    have hcount : ∀ c ∈ l.drop n, n ≤ l.countP fun d => precedes d c := fun c hc => by
      have hc := hrest c hc
      rwa [withinFirst, decide_eq_true_eq, not_lt] at hc
    -- the first of the others is preceded by the rows before it only, so by all of them
    obtain ⟨first, others, hdrop⟩ := List.exists_cons_of_ne_nil (List.ne_nil_of_mem hb)
    have hfirst : precedes a first = true := by
      have hnone : (l.drop n).countP (fun d => precedes d first) = 0 := by
        refine List.countP_eq_zero.mpr fun d hd hdf => ?_
        have hnot : before d first = false := by
          rw [hdrop] at hd hsplit
          rcases List.mem_cons.mp hd with rfl | hd
          · exact h.irrefl _
          · exact (List.pairwise_cons.mp hsplit.2.1).1 d hd
        exact Bool.false_ne_true (hnot.symm.trans (hprecedes.sub hdf))
      have hall := hcount first (hdrop ▸ List.mem_cons_self)
      rw [← List.take_append_drop n l, List.countP_append, hnone, Nat.add_zero] at hall
      have hfull : (l.take n).countP (fun d => precedes d first) = (l.take n).length :=
        le_antisymm List.countP_le_length ((hlength b hb).trans_le hall)
      exact List.countP_eq_length.mp hfull a ha
    by_contra hab
    have hafter : before b first = false := by
      rw [hdrop] at hb hsplit
      rcases List.mem_cons.mp hb with rfl | hb
      · exact h.irrefl _
      · exact (List.pairwise_cons.mp hsplit.2.1).1 b hb
    have hfew := withinFirst_of_mem_take h id hsorted ha
    rw [withinFirst, decide_eq_true_eq] at hfew
    have hle : l.countP (fun d => precedes d b) ≤ l.countP fun d => before d a :=
      List.countP_mono_left fun d _ hd =>
        hprecedes.cut hfirst hafter (Bool.eq_false_iff.mpr hab) hd
    exact absurd (hcount b hb) (by omega)
  · intro hall b hb
    rw [withinFirst, decide_eq_true_eq, not_lt]
    have hcount := List.countP_eq_length.mpr fun a ha => hall a ha b hb
    calc n = (l.take n).length := (hlength b hb).symm
      _ = (l.take n).countP (fun a => precedes a b) := hcount.symm
      _ ≤ l.countP fun a => precedes a b := (List.take_sublist n l).countP_le

/-- What numbering and counting find looks the same in every arrangement, namely like the first
`n` rows, just when no tie and no blind comparison reaches across their end. -/
theorem first_eq_iff (h : StrictWeak before) (hprecedes : Approximates precedes before)
    (hl : Arranges before rows l) :
    ((∀ l', Arranges before rows l' → (l'.take n).map f = (l.take n).map f) ∧
      ∀ l', Arranges before (rows.filter (withinFirst precedes rows n)) l' →
        l'.map f = (l.take n).map f) ↔
      (∀ a ∈ l.take n, ∀ b ∈ l.drop n, precedes a b = true) ∧
        ∀ a ∈ l.take n, ∀ b ∈ l, Tied before a b → f a = f b := by
  have hcount : withinFirst precedes rows n = withinFirst precedes l n := by
    funext a
    rw [withinFirst, withinFirst, hl.perm.countP_eq]
  have hperm : (l.filter (withinFirst precedes l n)).Perm
      (rows.filter (withinFirst precedes rows n)) := hcount ▸ hl.perm.filter _
  have hwithin : Sorted before (l.filter (withinFirst precedes l n)) := hl.sorted.filter _
  rw [forall_take_eq_iff h hl, and_comm, ← filter_withinFirst_eq_iff h hprecedes hl.sorted]
  refine and_congr_left fun hsame => ?_
  constructor
  · intro hall
    have hlength := congrArg List.length (hall _ ⟨hperm, hwithin⟩)
    rw [List.length_map, List.length_map, filter_withinFirst h hprecedes.sub hl.sorted,
      List.length_append, Nat.add_eq_left, List.length_eq_zero_iff] at hlength
    rw [filter_withinFirst h hprecedes.sub hl.sorted, hlength, List.append_nil]
  · intro hfirst l' hl'
    have hfirsts : Arranges before (rows.filter (withinFirst precedes rows n)) (l.take n) :=
      ⟨hfirst ▸ hperm, hfirst ▸ hwithin⟩
    have hmem : ∀ b ∈ l', b ∈ l := fun b hb =>
      List.mem_of_mem_take (hfirsts.perm.mem_iff.mpr (hl'.perm.mem_iff.mp hb))
    rw [← List.forall₂_eq_eq_eq, List.forall₂_map_left_iff, List.forall₂_map_right_iff]
    refine List.forall₂_iff_get.mpr ⟨(hl'.forall₂_tied h hfirsts).length_eq, fun i hi hi' => ?_⟩
    have htied := (hl'.forall₂_tied h hfirsts).get hi hi'
    exact (hsame _ (List.get_mem _ _) _ (hmem _ (List.get_mem _ _)) (h.tied.symm htied)).symm

/-! ### In parts -/

section

variable {κ : Type*} {part : α → κ} {arranged : κ → List α} {keyBefore : κ → κ → Bool}

/-- The rows of each part, numbered from one. -/
def numbered [DecidableEq κ] (rows : List α) (part : α → κ) (arranged : κ → List α) :
    List (α × ℕ) :=
  (rows.map part).dedup.flatMap fun k => (arranged k).zipIdx 1

/-- By the part, and then by the number. -/
def byNumber (part : α → κ) (keyBefore : κ → κ → Bool) : α × ℕ → α × ℕ → Bool :=
  lex [fun a b => keyBefore (part a.1) (part b.1), fun a b => decide (a.2 < b.2)]

/-- By the part, and then by `before`. -/
def byPart (part : α → κ) (keyBefore : κ → κ → Bool) (before : α → α → Bool) : α → α → Bool :=
  lex [fun a b => keyBefore (part a) (part b), before]

lemma strictWeak_byNumber (part : α → κ) (h : StrictWeak keyBefore) :
    StrictWeak (byNumber part keyBefore) := by
  refine strictWeak_lex fun p hp => ?_
  rcases List.mem_pair.mp hp with rfl | rfl
  · exact h.comap fun a : α × ℕ => part a.1
  · exact (strictWeak_lt).comap fun a : α × ℕ => a.2

lemma strictWeak_byPart (hkey : StrictWeak keyBefore) (h : StrictWeak before) :
    StrictWeak (byPart part keyBefore before) := by
  refine strictWeak_lex fun p hp => ?_
  rcases List.mem_pair.mp hp with rfl | rfl
  · exact hkey.comap part
  · exact h

lemma pairwise_zipIdx (l : List α) (m : ℕ) : (l.zipIdx m).Pairwise fun p q => p.2 ≤ q.2 := by
  induction l generalizing m with
  | nil => exact .nil
  | cons a l ih =>
    refine List.pairwise_cons.mpr ⟨fun p hp => ?_, ih (m + 1)⟩
    exact (Nat.le_succ m).trans (List.le_snd_of_mem_zipIdx hp)

lemma filter_zipIdx_lt (l : List α) (m n : ℕ) :
    (l.zipIdx m).filter (fun p => decide (p.2 < m + n)) = (l.take n).zipIdx m := by
  induction l generalizing m n with
  | nil => rw [List.take_nil]; rfl
  | cons a l ih =>
    cases n with
    | zero =>
      rw [List.take_zero, List.zipIdx_nil, List.filter_eq_nil_iff]
      intro p hp
      have := List.le_snd_of_mem_zipIdx hp
      simpa using this
    | succ n =>
      have hstep : m + (n + 1) = m + 1 + n := by omega
      rw [List.zipIdx_cons, List.filter_cons_of_pos (by simp), hstep, ih, List.take_succ_cons,
        List.zipIdx_cons]

variable [DecidableEq κ]

lemma flatMap_ite_eq {k : κ} {ks : List κ} (hks : ks.Nodup) (l : List β) :
    (ks.flatMap fun k' => if k' = k then l else []) = if k ∈ ks then l else [] := by
  induction ks with
  | nil => rfl
  | cons k' ks ih =>
    obtain ⟨hk', hks⟩ := List.nodup_cons.mp hks
    rw [List.flatMap_cons, ih hks]
    by_cases h : k' = k
    · subst h
      rw [if_pos rfl, if_neg hk', if_pos List.mem_cons_self, List.append_nil]
    · rw [if_neg h, List.nil_append]
      simp only [List.mem_cons, Ne.symm h, false_or]

/-- The numbered rows of one part. -/
lemma filter_numbered (harranged : ∀ k, (arranged k).Perm (rows.filter fun a => part a = k))
    (k : κ) :
    ((numbered rows part arranged).filter fun p => part p.1 = k) = (arranged k).zipIdx 1 := by
  have hblock : ∀ k', ((arranged k').zipIdx 1).filter (fun p => decide (part p.1 = k)) =
      if k' = k then (arranged k).zipIdx 1 else [] := by
    intro k'
    have hpart : ∀ p ∈ (arranged k').zipIdx 1, part p.1 = k' := fun p hp => by
      have hmem := (harranged k').mem_iff.mp (List.fst_mem_of_mem_zipIdx hp)
      exact of_decide_eq_true (List.mem_filter.mp hmem).2
    by_cases h : k' = k
    · subst h
      rw [if_pos rfl]
      exact List.filter_eq_self.mpr fun p hp => decide_eq_true (hpart p hp)
    · rw [if_neg h]
      refine List.filter_eq_nil_iff.mpr fun p hp hk => h ?_
      rw [← hpart p hp, of_decide_eq_true hk]
  rw [numbered, List.filter_flatMap]
  simp only [hblock]
  rw [flatMap_ite_eq (List.nodup_dedup _)]
  split
  · rfl
  · next hk =>
    have hnone : rows.filter (fun a => decide (part a = k)) = [] :=
      List.filter_eq_nil_iff.mpr fun a ha hak =>
        hk (List.mem_dedup.mpr (List.mem_map.mpr ⟨a, ha, of_decide_eq_true hak⟩))
    have hnil := harranged k
    rw [hnone] at hnil
    rw [hnil.eq_nil]
    rfl

/-- Of each part the first `n` rows are there, in their order. -/
theorem filter_of_byNumber (hirrefl : ∀ k, keyBefore k k = false)
    (harranged : ∀ k, (arranged k).Perm (rows.filter fun a => part a = k)) {out : List (α × ℕ)}
    (hout : Arranges (byNumber part keyBefore)
      ((numbered rows part arranged).filter fun p => p.2 ≤ n) out) (k : κ) :
    (out.filter fun p => part p.1 = k) = ((arranged k).take n).zipIdx 1 := by
  have hperm : (out.filter fun p => decide (part p.1 = k)).Perm
      (((arranged k).take n).zipIdx 1) := by
    have hle : (fun p : α × ℕ => decide (p.2 ≤ n)) = fun p => decide (p.2 < 1 + n) := by
      funext p
      exact decide_eq_decide.mpr (by omega)
    rw [← filter_zipIdx_lt, ← filter_numbered harranged k, ← hle, List.filter_filter]
    refine (hout.perm.filter _).trans ?_
    rw [List.filter_filter]
    simp only [Bool.and_comm]
    exact List.Perm.refl _
  have hsorted : (out.filter fun p => decide (part p.1 = k)).Pairwise fun p q => p.2 ≤ q.2 := by
    refine (hout.sorted.filter _).imp_of_mem fun {p q} hp hq hqp => ?_
    by_contra hlt
    have hpk : part p.1 = k := of_decide_eq_true (List.mem_filter.mp hp).2
    have hqk : part q.1 = k := of_decide_eq_true (List.mem_filter.mp hq).2
    refine Bool.false_ne_true (hqp.symm.trans (lex_cons.2 (.inr ⟨?_, lex_cons.2 (.inl ?_)⟩)))
    · rw [hpk, hqk, hirrefl]
    · exact decide_eq_true (not_le.mp hlt)
  refine List.Perm.eq_of_pairwise (fun p q hp hq hpq hqp => ?_) hsorted
    (pairwise_zipIdx _ _) hperm
  obtain ⟨-, hp⟩ := List.mem_zipIdx_iff_le_and_getElem?_sub.mp (hperm.mem_iff.mp hp)
  obtain ⟨-, hq⟩ := List.mem_zipIdx_iff_le_and_getElem?_sub.mp hq
  have hnumber : p.2 = q.2 := le_antisymm hpq hqp
  rw [hnumber, hq] at hp
  exact Prod.ext (Option.some.inj hp).symm hnumber

/-- An arrangement by parts arranges each part. -/
lemma filter_of_byPart (hirrefl : ∀ k, keyBefore k k = false)
    (hout : Arranges (byPart part keyBefore before) rows l) (k : κ) :
    Arranges before (rows.filter fun a => part a = k) (l.filter fun a => part a = k) := by
  refine ⟨hout.perm.filter _, (hout.sorted.filter _).imp_of_mem fun {a b} ha hb hba => ?_⟩
  have ha : part a = k := of_decide_eq_true (List.mem_filter.mp ha).2
  have hb : part b = k := of_decide_eq_true (List.mem_filter.mp hb).2
  by_contra hne
  refine Bool.false_ne_true (hba.symm.trans (lex_cons.2 (.inr ⟨?_, lex_cons.2 (.inl ?_)⟩)))
  · rw [ha, hb, hirrefl]
  · exact Bool.not_eq_false _ ▸ hne

/-- Any arrangement of one part is part of an arrangement by parts. -/
lemma exists_byPart (hkey : StrictWeak keyBefore) (h : StrictWeak before) {k : κ}
    (hl : Arranges before (rows.filter fun a => part a = k) l) :
    ∃ out, Arranges (byPart part keyBefore before) rows out ∧
      (out.filter fun a => part a = k) = l := by
  have hpart : ∀ a ∈ l, part a = k := fun a ha =>
    of_decide_eq_true (List.mem_filter.mp (hl.perm.mem_iff.mp ha)).2
  have hsorted : Sorted (byPart part keyBefore before) l := by
    refine hl.sorted.imp_of_mem fun {a b} ha hb hba => ?_
    by_contra hne
    rcases lex_cons.1 (Bool.not_eq_false _ ▸ hne) with hlt | ⟨-, hlt⟩
    · rw [hpart a ha, hpart b hb, hkey.irrefl] at hlt
      exact Bool.false_ne_true hlt
    · rcases lex_cons.1 hlt with hlt | ⟨-, hlt⟩
      · exact Bool.false_ne_true (hba.symm.trans hlt)
      · exact Bool.false_ne_true hlt
  have hweak : StrictWeak (byPart part keyBefore before) := strictWeak_byPart hkey h
  -- sorting is stable, so that the part stays as it is when it is put in front of the others
  let whole := l ++ rows.filter fun a => ¬part a = k
  have hwhole : whole.Perm rows := by
    refine (hl.perm.append_right _).trans ?_
    have := List.filter_append_perm (fun a => decide (part a = k)) rows
    simpa using this
  refine ⟨sort (byPart part keyBefore before) whole,
    ⟨(sort_perm _ _).trans hwhole, sorted_sort hweak _⟩, ?_⟩
  have hsub : l.Sublist (sort (byPart part keyBefore before) whole) := by
    exact sublist_sort hweak hsorted (List.sublist_append_left _ _)
  have hfilter : l.filter (fun a => decide (part a = k)) = l :=
    List.filter_eq_self.mpr fun a ha => decide_eq_true (hpart a ha)
  refine ((hfilter ▸ hsub.filter fun a => decide (part a = k)).eq_of_length ?_).symm
  have hlength := ((sort_perm (byPart part keyBefore before) whole).trans hwhole).filter
    fun a => decide (part a = k)
  rw [hlength.length_eq, hl.perm.length_eq]

end

end Criteria
