import Mathlib.Data.List.Infix
import Mathlib.Data.Nat.Notation
import Mathlib.Tactic.Common

/-!
# Templates

Every occurrence of a placeholder in a text gives way to another text. When there is one, what was
put in can be told from the result.
-/

namespace Template

/-- The text `placeholder` occurs in the template. -/
def contains (placeholder template : List Char) : Bool :=
  template.tails.any placeholder.isPrefixOf

/-- What follows after so many characters, with the occurrences of the placeholder replaced from
left to right. -/
def fillFrom (placeholder new : List Char) : ℕ → List Char → List Char
  | _, []          => []
  | skip + 1, _ :: cs => fillFrom placeholder new skip cs
  | 0, c :: cs     =>
    if placeholder.isPrefixOf (c :: cs) then
      new ++ fillFrom placeholder new (placeholder.length - 1) cs
    else c :: fillFrom placeholder new 0 cs

/-- `str::replace`, for a placeholder that is not empty. -/
def fill (placeholder new template : List Char) : List Char := fillFrom placeholder new 0 template

/-- How many occurrences are replaced. -/
def countFrom (placeholder : List Char) : ℕ → List Char → ℕ
  | _, []          => 0
  | skip + 1, _ :: cs => countFrom placeholder skip cs
  | 0, c :: cs     =>
    if placeholder.isPrefixOf (c :: cs) then countFrom placeholder (placeholder.length - 1) cs + 1
    else countFrom placeholder 0 cs

variable {placeholder new new' template : List Char} {skip : ℕ}

lemma countFrom_ne_zero (hne : placeholder ≠ []) (h : contains placeholder template = true) :
    countFrom placeholder 0 template ≠ 0 := by
  induction template with
  | nil =>
    obtain ⟨c, cs, rfl⟩ := List.exists_cons_of_ne_nil hne
    cases h
  | cons c cs ih =>
    unfold countFrom
    split_ifs with hhead
    · exact Nat.succ_ne_zero _
    · refine ih ?_
      rw [contains, List.tails_cons, List.any_cons, Bool.or_eq_true] at h
      exact h.resolve_left hhead

/-- Each occurrence adds the length of what stands in its place. -/
lemma length_fillFrom : (fillFrom placeholder new skip template).length =
    (fillFrom placeholder [] skip template).length +
      countFrom placeholder skip template * new.length := by
  fun_induction fillFrom placeholder new skip template with
  | case1 => simp [fillFrom, countFrom]
  | case2 skip c cs ih => rw [ih, fillFrom, countFrom]
  | case3 c cs hhead ih =>
    rw [fillFrom, countFrom, if_pos hhead, if_pos hhead, List.length_append, ih, List.nil_append,
      Nat.add_mul, Nat.one_mul]
    omega
  | case4 c cs hhead ih =>
    rw [fillFrom, countFrom, if_neg hhead, if_neg hhead, List.length_cons, List.length_cons, ih]
    omega

/-- Texts of one length that have been put in can be told apart at the first occurrence. -/
lemma eq_of_fillFrom_eq (hlength : new.length = new'.length)
    (hcount : countFrom placeholder skip template ≠ 0)
    (h : fillFrom placeholder new skip template = fillFrom placeholder new' skip template) :
    new = new' := by
  fun_induction fillFrom placeholder new skip template with
  | case1 => exact absurd rfl hcount
  | case2 skip c cs ih => exact ih hcount h
  | case3 c cs hhead ih =>
    rw [fillFrom, if_pos hhead] at h
    exact (List.append_inj h hlength).1
  | case4 c cs hhead ih =>
    rw [fillFrom, if_neg hhead, List.cons.injEq] at h
    rw [countFrom, if_neg hhead] at hcount
    exact ih hcount h.2

/-- What was put into a template can be told from the result. -/
lemma fill_inj (hne : placeholder ≠ []) (hcontains : contains placeholder template = true) :
    fill placeholder new template = fill placeholder new' template ↔ new = new' := by
  refine ⟨fun h => ?_, congrArg (fill placeholder · template)⟩
  have hcount := countFrom_ne_zero hne hcontains
  have hlength := congrArg List.length h
  rw [fill, fill, length_fillFrom, @length_fillFrom _ new', Nat.add_left_cancel_iff] at hlength
  exact eq_of_fillFrom_eq (Nat.eq_of_mul_eq_mul_left (Nat.pos_of_ne_zero hcount) hlength) hcount h

end Template
