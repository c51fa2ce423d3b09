import Mathlib.Data.List.Infix
import Mathlib.Logic.Function.Basic

/-!
# Framing: prefix codes and separated fields

Two ways to put several words into one and get them back. A prefix-free code can be split off the
front of any longer word, so concatenated code words determine what they encode. Fields that do
not contain a separator can be told apart when each one is preceded by it.
-/

namespace Framing

variable {α β : Type*}

/-! ### Prefix codes -/

/-- No code word is the beginning of another one's. -/
def PrefixFree (code : α → List β) : Prop := ∀ a b, code a <+: code b → a = b

variable {code : α → List β}

lemma PrefixFree.split (h : PrefixFree code) {a b : α} {s t : List β}
    (heq : code a ++ s = code b ++ t) : a = b ∧ s = t := by
  have hab : a = b := by
    rcases List.prefix_or_prefix_of_prefix (List.prefix_append (code a) s)
      (heq ▸ List.prefix_append (code b) t) with hpre | hpre
    · exact h a b hpre
    · exact (h b a hpre).symm
  subst hab
  exact ⟨rfl, List.append_cancel_left heq⟩

/-- A prefix-free code without empty code words is uniquely decodable. -/
theorem PrefixFree.flatMap_injective (h : PrefixFree code) (hne : ∀ a, code a ≠ []) :
    Function.Injective fun l : List α => l.flatMap code := by
  intro l
  induction l with
  | nil =>
    intro l' heq
    cases l' with
    | nil => rfl
    | cons b l' => exact absurd heq.symm (by simp [hne b])
  | cons a l ih =>
    intro l' heq
    cases l' with
    | nil => exact absurd heq (by simp [hne a])
    | cons b l' =>
      simp only [List.flatMap_cons] at heq
      obtain ⟨rfl, hrest⟩ := h.split heq
      rw [ih hrest]

/-- Code words of one length are prefix-free as soon as they differ. -/
lemma prefixFree_of_length {n : ℕ} (hlen : ∀ a, (code a).length = n)
    (hinj : Function.Injective code) : PrefixFree code := fun a b hpre =>
  hinj (hpre.eq_of_length ((hlen a).trans (hlen b).symm))

/-! ### Separated fields -/

/-- The fields in order, each one preceded by the separator. -/
def preceded (sep : β) (fields : List (List β)) : List β := fields.flatMap (sep :: ·)

variable {sep : β} {f g : List β} {F G : List (List β)}

@[simp] lemma preceded_nil : preceded sep [] = [] := rfl

@[simp] lemma preceded_cons : preceded sep (f :: F) = sep :: (f ++ preceded sep F) := rfl

@[simp] lemma preceded_append : preceded sep (F ++ G) = preceded sep F ++ preceded sep G :=
  List.flatMap_append

lemma preceded_eq_nil_iff : preceded sep F = [] ↔ F = [] := by
  cases F <;> simp

/-- The word is empty or starts with the separator. -/
def AtSep (sep : β) (r : List β) : Prop := ∀ b ∈ r.head?, b = sep

lemma atSep_preceded : AtSep sep (preceded sep F) := by
  cases F <;> simp [AtSep]

/-- A word without the separator ends where the first separator stands. -/
lemma split_field {r r' : List β} (hf : sep ∉ f) (hg : sep ∉ g) (hr : AtSep sep r)
    (hr' : AtSep sep r') (heq : f ++ r = g ++ r') : f = g ∧ r = r' := by
  induction f generalizing g with
  | nil =>
    cases g with
    | nil => exact ⟨rfl, heq⟩
    | cons b g =>
      -- The next field would have to start inside `g`.
      obtain rfl : b = sep := hr b (by simp [show r = b :: (g ++ r') from heq])
      exact absurd List.mem_cons_self hg
  | cons a f ih =>
    cases g with
    | nil =>
      obtain rfl : a = sep := hr' a (by simp [show r' = a :: (f ++ r) from heq.symm])
      exact absurd List.mem_cons_self hf
    | cons b g =>
      obtain ⟨rfl, htail⟩ := List.cons.inj heq
      obtain ⟨rfl, hrest⟩ := ih (fun h => hf (List.mem_cons_of_mem a h))
        (fun h => hg (List.mem_cons_of_mem a h)) htail
      exact ⟨rfl, hrest⟩

/-- Two words around a separator make the same text when they are the same, or when the first ones
end at different separators of that text. -/
lemma append_sep_eq_append_sep_iff {r s : List β} :
    f ++ sep :: r = g ++ sep :: s ↔ f = g ∧ r = s ∨
      (∃ m, g = f ++ sep :: m ∧ r = m ++ sep :: s) ∨
      ∃ m, f = g ++ sep :: m ∧ s = m ++ sep :: r := by
  constructor
  · intro h
    rcases List.append_eq_append_iff.mp h with ⟨m, rfl, hm⟩ | ⟨m, rfl, hm⟩
    · cases m with
      | nil => exact .inl ⟨by simp, (List.cons.inj hm).2⟩
      | cons b m =>
        obtain ⟨rfl, hrest⟩ := List.cons.inj hm
        exact .inr (.inl ⟨m, rfl, hrest⟩)
    · cases m with
      | nil => exact .inl ⟨by simp, (List.cons.inj hm).2.symm⟩
      | cons b m =>
        obtain ⟨rfl, hrest⟩ := List.cons.inj hm
        exact .inr (.inr ⟨m, rfl, hrest⟩)
  · rintro (⟨rfl, rfl⟩ | ⟨m, rfl, rfl⟩ | ⟨m, rfl, rfl⟩) <;> simp

/-- Fields without the separator are determined by their separated text. -/
theorem preceded_inj (hF : ∀ f ∈ F, sep ∉ f) (hG : ∀ g ∈ G, sep ∉ g)
    (heq : preceded sep F = preceded sep G) : F = G := by
  induction F generalizing G with
  | nil => exact (preceded_eq_nil_iff.1 heq.symm).symm
  | cons f F ih =>
    cases G with
    | nil => cases heq
    | cons g G =>
      obtain ⟨rfl, hrest⟩ := split_field (hF f List.mem_cons_self) (hG g List.mem_cons_self)
        atSep_preceded atSep_preceded (List.cons.inj heq).2
      rw [ih (fun f' h => hF f' (List.mem_cons_of_mem f h))
        (fun g' h => hG g' (List.mem_cons_of_mem f h)) hrest]

/-- A text up to and including a separator is the beginning of another one exactly when its fields
are the first of the other's, and not all of them. -/
theorem preceded_append_sep_prefix_iff (hF : ∀ f ∈ F, sep ∉ f) (hG : ∀ g ∈ G, sep ∉ g) :
    preceded sep F ++ [sep] <+: preceded sep G ↔ ∃ H, H ≠ [] ∧ G = F ++ H := by
  constructor
  · intro hpre
    induction F generalizing G with
    | nil =>
      refine ⟨G, ?_, rfl⟩
      rintro rfl
      exact absurd (List.prefix_nil.mp hpre) (by simp)
    | cons f F ih =>
      cases G with
      | nil => exact absurd (List.prefix_nil.mp hpre) (by simp)
      | cons g G =>
        obtain ⟨t, ht⟩ := hpre
        have htail : f ++ (preceded sep F ++ [sep] ++ t) = g ++ preceded sep G := by
          simpa using ht
        have hat : AtSep sep (preceded sep F ++ [sep] ++ t) := by
          cases F <;> simp [AtSep]
        obtain ⟨rfl, hrest⟩ := split_field (hF f List.mem_cons_self) (hG g List.mem_cons_self)
          hat atSep_preceded htail
        obtain ⟨H, hne, rfl⟩ := ih (fun f' h => hF f' (List.mem_cons_of_mem f h))
          (fun g' h => hG g' (List.mem_cons_of_mem f h)) ⟨t, hrest⟩
        exact ⟨H, hne, rfl⟩
  · rintro ⟨H, hne, rfl⟩
    obtain ⟨h, H, rfl⟩ := List.exists_cons_of_ne_nil hne
    refine ⟨h ++ preceded sep H, ?_⟩
    simp

/-- A text and as many fields behind it are determined by what they make. -/
lemma append_preceded_inj {r s : List β} (hF : ∀ f ∈ F, sep ∉ f) (hG : ∀ g ∈ G, sep ∉ g)
    (hlen : F.length = G.length) (heq : r ++ preceded sep F = s ++ preceded sep G) :
    r = s ∧ F = G := by
  induction F using List.reverseRecOn generalizing G with
  | nil =>
    obtain rfl := List.eq_nil_of_length_eq_zero hlen.symm
    exact ⟨by simpa using heq, rfl⟩
  | append_singleton F f ih =>
    rcases List.eq_nil_or_concat G with rfl | ⟨G, g, rfl⟩
    · simp at hlen
    · simp only [List.concat_eq_append, preceded_append, preceded_cons, preceded_nil,
        List.append_nil, ← List.append_assoc] at heq
      have hf : sep ∉ f := hF f (by simp)
      have hg : sep ∉ g := hG g (by simp)
      rcases append_sep_eq_append_sep_iff.1 heq with ⟨hfront, rfl⟩ | ⟨m, -, rfl⟩ | ⟨m, -, rfl⟩
      · obtain ⟨rfl, rfl⟩ := ih (fun f h => hF f (List.mem_append_left _ h))
          (fun g h => hG g (by simp [h])) (by simpa using hlen) hfront
        exact ⟨rfl, by simp⟩
      · exact absurd (by simp) hf
      · exact absurd (by simp) hg

/-! ### Where fields end -/

section Ends

variable [DecidableEq β]

lemma count_preceded (hF : ∀ f ∈ F, sep ∉ f) : (preceded sep F).count sep = F.length := by
  induction F with
  | nil => rfl
  | cons f F ih =>
    rw [preceded_cons, List.count_cons_self, List.count_append,
      List.count_eq_zero_of_not_mem (hF f List.mem_cons_self),
      ih fun f' h => hF f' (List.mem_cons_of_mem f h), Nat.zero_add, List.length_cons]

/-- Where the separator stands that has `n` others before it; at the end, if there is none. -/
def fieldsEnd (sep : β) : ℕ → List β → ℕ
  | _, []         => 0
  | 0, b :: l     => if b = sep then 0 else fieldsEnd sep 0 l + 1
  | n + 1, b :: l => if b = sep then fieldsEnd sep n l + 1 else fieldsEnd sep (n + 1) l + 1

variable {n : ℕ} {l r : List β}

lemma fieldsEnd_of_count_le (h : l.count sep ≤ n) : fieldsEnd sep n l = l.length := by
  induction l generalizing n with
  | nil => cases n <;> rfl
  | cons b l ih =>
    rw [List.count_cons] at h
    by_cases hb : b = sep
    · simp only [hb, beq_self_eq_true, if_true] at h
      obtain ⟨n, rfl⟩ : ∃ m, n = m + 1 := ⟨n - 1, by omega⟩
      rw [fieldsEnd, if_pos hb, ih (by omega), List.length_cons]
    · simp only [beq_iff_eq, hb, if_false, Nat.add_zero] at h
      cases n <;> rw [fieldsEnd, if_neg hb, ih h, List.length_cons]

/-- What follows the separator in question, and what follows that, plays no part. -/
lemma fieldsEnd_append_sep (h : n ≤ l.count sep) :
    fieldsEnd sep n (l ++ sep :: r) = fieldsEnd sep n l := by
  induction l generalizing n with
  | nil =>
    obtain rfl : n = 0 := by simpa using h
    simp [fieldsEnd]
  | cons b l ih =>
    rw [List.count_cons] at h
    by_cases hb : b = sep
    · simp only [hb, beq_self_eq_true, if_true] at h
      cases n with
      | zero => rw [List.cons_append, fieldsEnd, fieldsEnd, if_pos hb, if_pos hb]
      | succ n =>
        rw [List.cons_append, fieldsEnd, fieldsEnd, if_pos hb, if_pos hb, ih (by omega)]
    · simp only [beq_iff_eq, hb, if_false, Nat.add_zero] at h
      cases n <;>
        rw [List.cons_append, fieldsEnd, fieldsEnd, if_neg hb, if_neg hb, ih h]

/-- With too few separators in front, the end is further on. -/
lemma lt_fieldsEnd_append_sep (h : l.count sep < n) :
    l.length < fieldsEnd sep n (l ++ sep :: r) := by
  induction l generalizing n with
  | nil =>
    obtain ⟨n, rfl⟩ : ∃ m, n = m + 1 := ⟨n - 1, by simp at h; omega⟩
    rw [List.nil_append, fieldsEnd, if_pos rfl]
    exact Nat.succ_pos _
  | cons b l ih =>
    rw [List.count_cons] at h
    obtain ⟨n, rfl⟩ : ∃ m, n = m + 1 := ⟨n - 1, by omega⟩
    by_cases hb : b = sep
    · simp only [hb, beq_self_eq_true, if_true] at h
      rw [List.cons_append, fieldsEnd, if_pos hb, List.length_cons]
      exact Nat.succ_lt_succ (ih (by omega))
    · simp only [beq_iff_eq, hb, if_false, Nat.add_zero] at h
      rw [List.cons_append, fieldsEnd, if_neg hb, List.length_cons]
      exact Nat.succ_lt_succ (ih h)

end Ends

end Framing
