import Moso.Migrate.Splitter

/-!
# Statements that stay as they are

A statement that ends outside of its quotes, and has neither a comment nor a semicolon outside of
them, is found again in any script that has it, if it is tidy. And what the splitter finds is such
a statement, but for the last one, whose quotes may be open.
-/

namespace Moso.Migrate

open Decimal (trim isWhitespace)
open Text (lines trimEnd content Tidy)

/-- Inside of a comment. -/
def SqlMode.isComment : SqlMode → Bool
  | lineComment => true
  | blockComment _ => true
  | _ => false

namespace Splitter

variable (unicode : Char → Bool)

/-- What the splitter is inside of at the end of a text, if there is neither a comment in it nor
the end of a statement. -/
def within : SqlMode → ℕ → List Char → Option SqlMode
  | mode, _, [] => some mode
  | mode, skip + 1, _ :: cs => within mode skip cs
  | mode, 0, c :: cs =>
    let next := step unicode mode c cs
    if next.ends || next.mode.isComment then none else within next.mode next.skip cs

/-- A statement that is the same in every script. -/
structure Intact (statement : List Char) : Prop where
  closed : within unicode .code 0 statement = some .code
  nonempty : statement ≠ []
  trimmed : trim statement = statement
  tidy : Tidy statement

variable {unicode} {mode mode' : SqlMode} {c d : Char} {cs pre rest current statement : List Char}
  {skip : ℕ}

/-! ### Found again -/

/-- What is no comment and ends no statement stays in it. -/
lemma step_emitted (hmode : mode.Valid) (hcode : mode.isComment = false)
    (hends : (step unicode mode c cs).ends = false)
    (hnext : (step unicode mode c cs).mode.isComment = false) :
    (step unicode mode c cs).emitted = c :: cs.take (step unicode mode c cs).skip := by
  cases mode with
  | lineComment => cases hcode
  | blockComment outer => cases hcode
  | quoted quote =>
    rw [step]
    split_ifs with hquote hhead
    · obtain ⟨cs, rfl⟩ : ∃ rest, cs = quote.char :: rest := by
        cases cs with
        | nil => cases hhead
        | cons x cs => exact ⟨cs, by rw [Option.some.inj hhead]⟩
      simp [hquote]
    · rfl
    · rfl
  | dollar tag =>
    rw [step]
    split_ifs with hclose
    · obtain ⟨hlength, rest, hrest⟩ := closes_iff.1 hclose.2
      obtain ⟨x, tag, rfl⟩ := List.exists_cons_of_ne_nil hmode.1
      obtain ⟨rfl, rfl⟩ := List.cons.inj hrest
      simp [hlength]
    · rfl
  | code =>
    rw [step] at hends hnext ⊢
    split_ifs at hends hnext ⊢ with hdash hslash hsingle hdouble hsemicolon hdollar
    · cases hnext
    · cases hnext
    · rfl
    · rfl
    · cases htag : tagRest unicode cs with
      | none => rfl
      | some tag =>
        obtain ⟨rest, rfl⟩ := prefix_of_tagRest htag
        subst hdollar
        simp
    · rfl

/-- A text that stays within one statement is read up to what separates it from the rest. -/
lemma scan_within (hmode : mode.Valid) (hcode : mode.isComment = false) (hskip : skip ≤ cs.length)
    (hd : Separates d) (h : within unicode mode skip cs = some mode') :
    scan unicode mode skip (cs ++ d :: rest) current =
      scan unicode mode' 0 (d :: rest) (current ++ cs.drop skip) := by
  induction cs generalizing mode skip current with
  | nil =>
    obtain rfl := Nat.le_zero.mp hskip
    obtain rfl := Option.some.inj h
    simp
  | cons c cs ih =>
    cases skip with
    | succ skip => exact ih hmode hcode (Nat.le_of_succ_le_succ hskip) h
    | zero =>
      obtain ⟨hle, hvalid⟩ : (step unicode mode c cs).skip ≤ cs.length ∧
          (step unicode mode c cs).mode.Valid := step_skip_le hmode
      rw [within] at h
      split_ifs at h with hstays
      rw [Bool.or_eq_true, not_or, Bool.not_eq_true, Bool.not_eq_true] at hstays
      have hemitted := step_emitted hmode hcode hstays.1 hstays.2
      rw [List.cons_append, scan, step_append hmode hd, hstays.1]
      refine (ih hvalid hstays.2 hle h).trans ?_
      simp [hemitted]

/-- A trimmed text starts with no white space. -/
lemma isWhitespace_of_trim (h : trim cs = cs) (hhead : cs.head? = some c) :
    isWhitespace c = false := by
  cases cs with
  | nil => cases hhead
  | cons d cs =>
    obtain rfl := Option.some.inj hhead
    by_contra hspace
    have hshort : (trim (d :: cs)).length ≤ cs.length := by
      rw [Text.trim_eq, List.dropWhile_cons_of_pos (by simpa using hspace)]
      exact ((List.rdropWhile_prefix _ _).length_le).trans (List.dropWhile_suffix _).length_le
    rw [h, List.length_cons] at hshort
    omega

namespace Intact

lemma head?_ne_newline (h : Intact unicode statement) : statement.head? ≠ some '\n' := by
  intro hhead
  exact absurd (isWhitespace_of_trim h.trimmed hhead) (by decide)

lemma pushStatement_eq (h : Intact unicode statement) :
    pushStatement statement = [statement] := by
  rw [Splitter.pushStatement_eq, h.tidy.intercalate_content h.nonempty h.head?_ne_newline, h.trimmed,
    if_neg h.nonempty]

lemma pushStatement_append_newline (h : Intact unicode statement) :
    pushStatement (statement ++ ['\n']) = [statement] := by
  have hcontent : content (statement ++ ['\n']) = content statement := by
    rw [content, h.tidy.lines_append_newline h.nonempty]
    simp [content]
  rw [Splitter.pushStatement_eq, hcontent, ← Splitter.pushStatement_eq, h.pushStatement_eq]

variable (rest) in
/-- An intact statement is found in front of its semicolon. -/
lemma scan_semicolon (h : Intact unicode statement) :
    scan unicode .code 0 (statement ++ ';' :: rest) [] =
      statement :: scan unicode .code 0 rest [] := by
  have hcode : SqlMode.code.Valid := trivial
  rw [scan_within hcode rfl (Nat.zero_le _) (Or.inr rfl) h.closed, scan, step]
  simp [h.pushStatement_eq]

variable (rest) in
/-- So it is when the semicolon is on the next line. -/
lemma scan_newline_semicolon (h : Intact unicode statement) :
    scan unicode .code 0 (statement ++ '\n' :: ';' :: rest) [] =
      statement :: scan unicode .code 0 rest [] := by
  have hcode : SqlMode.code.Valid := trivial
  rw [scan_within hcode rfl (Nat.zero_le _) (Or.inl rfl) h.closed, scan, step]
  have hstep : step unicode .code ';' rest = { mode := .code, ends := true } := rfl
  simp [scan, hstep, h.pushStatement_append_newline]

end Intact

lemma scan_semicolon_nil :
    scan unicode .code 0 (';' :: rest) [] = scan unicode .code 0 rest [] := rfl

/-- A comment leaves the newline at its end, which is blank. -/
lemma scan_comment (hcs : '\n' ∉ cs) :
    scan unicode .code 0 ('-' :: '-' :: cs ++ '\n' :: rest) [] = scan unicode .code 0 rest [] := by
  have hcomment : ∀ cs, '\n' ∉ cs → scan unicode .lineComment 0 (cs ++ '\n' :: rest) [] =
      scan unicode .code 0 rest ['\n'] := by
    intro cs hcs
    induction cs with
    | nil => rfl
    | cons c cs ih =>
      obtain ⟨hc, hcs⟩ : '\n' ≠ c ∧ '\n' ∉ cs := by simpa using hcs
      rw [List.cons_append, scan, step, if_neg (Ne.symm hc)]
      exact ih hcs
  have hstep : step unicode .code '-' ('-' :: cs ++ '\n' :: rest) = { mode := .lineComment } := by
    simp [step]
  rw [List.cons_append, scan, hstep]
  refine (hcomment ('-' :: cs) (by simp [hcs])).trans ?_
  exact SameContent.scan fun text => Text.content_newline

end Splitter

end Moso.Migrate
