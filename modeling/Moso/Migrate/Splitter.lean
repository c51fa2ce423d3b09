import Moso.Foundation.Text

/-!
# Splitting SQL into statements

The splitter reads a script character by character, aware of comments, of quoted strings and
identifiers, and of dollar quoting, and cuts it at the semicolons outside of all these.
-/

namespace Moso.Migrate

open Decimal (trim isWhitespace)
open Text (lines trimEnd content)

/-- The marks of strings and of identifiers. -/
inductive Quote where
  | single
  | double
  deriving DecidableEq

def Quote.char : Quote → Char
  | single => '\''
  | double => '"'

/-- What the splitter is inside of. -/
inductive SqlMode where
  | code
  | lineComment
  /-- At one level less than this of nesting. -/
  | blockComment (outer : ℕ)
  | quoted (quote : Quote)
  | dollar (tag : List Char)
  deriving DecidableEq

/-- Inside a dollar quote the tag is one: it has neither a newline nor a semicolon. -/
def SqlMode.Valid : SqlMode → Prop
  | dollar tag => tag ≠ [] ∧ '\n' ∉ tag ∧ ';' ∉ tag
  | _ => True

/-- What the splitter does at one character: the characters it adds to the statement, how many of
the next ones it has read with this one, and whether the statement ends here. -/
structure SqlStep where
  mode : SqlMode
  emitted : List Char := []
  skip : ℕ := 0
  ends : Bool := false

namespace Splitter

/-- `char::is_alphanumeric`: beyond ASCII it is `unicode` that says which characters are. -/
def isAlphanumeric (unicode : Char → Bool) (c : Char) : Bool :=
  if c.toNat < 128 then c.isAlphanum else unicode c

variable (unicode : Char → Bool)

/-- The rest of the dollar-quote tag after its first `$`, if the characters open one. -/
def tagRest : List Char → Option (List Char)
  | [] => none
  | c :: cs =>
    if c = '$' then some ['$']
    else if isAlphanumeric unicode c || c = '_' then (tagRest cs).map (c :: ·)
    else none

/-- The length of a string in bytes. -/
def byteLength : List Char → ℕ
  | []      => 0
  | c :: cs => c.utf8Size + byteLength cs

/-- Whether the tag that opened a dollar quote stands here. The source compares as many characters
as the tag has bytes. -/
def closes (tag cs : List Char) : Bool :=
  byteLength tag ≤ cs.length && cs.take (byteLength tag) = tag

def step (mode : SqlMode) (c : Char) (cs : List Char) : SqlStep :=
  match mode with
  | .code =>
    if c = '-' ∧ cs.head? = some '-' then { mode := .lineComment }
    else if c = '/' ∧ cs.head? = some '*' then { mode := .blockComment 0, skip := 1 }
    else if c = '\'' then { mode := .quoted .single, emitted := [c] }
    else if c = '"' then { mode := .quoted .double, emitted := [c] }
    else if c = ';' then { mode := .code, ends := true }
    else if c = '$' then
      match tagRest unicode cs with
      | some rest => { mode := .dollar ('$' :: rest), emitted := '$' :: rest, skip := rest.length }
      | none      => { mode := .code, emitted := [c] }
    else { mode := .code, emitted := [c] }
  | .lineComment =>
    if c = '\n' then { mode := .code, emitted := ['\n'] } else { mode := .lineComment }
  | .blockComment outer =>
    if c = '/' ∧ cs.head? = some '*' then { mode := .blockComment (outer + 1), skip := 1 }
    else if c = '*' ∧ cs.head? = some '/' then
      match outer with
      | 0         => { mode := .code, emitted := [' '], skip := 1 }
      | outer + 1 => { mode := .blockComment outer, skip := 1 }
    else { mode := .blockComment outer }
  | .quoted quote =>
    if c = quote.char then
      if cs.head? = some quote.char then
        { mode := .quoted quote, emitted := [c, c], skip := 1 }
      else { mode := .code, emitted := [c] }
    else { mode := .quoted quote, emitted := [c] }
  | .dollar tag =>
    if c = '$' ∧ closes tag (c :: cs) then
      { mode := .code, emitted := tag, skip := byteLength tag - 1 }
    else { mode := .dollar tag, emitted := [c] }

/-- What `push_statement` adds. -/
def pushStatement (current : List Char) : List (List Char) :=
  let kept := ((lines current).map trimEnd).filter fun l => trim l ≠ []
  let statement := trim (['\n'].intercalate kept)
  if statement = [] then [] else [statement]

/-- The last statement, when the script is at its end. -/
def finish : SqlMode → List Char → List (List Char)
  | .blockComment _, current => pushStatement (current ++ [' '])
  | _, current => pushStatement current

/-- The statements of what is left, with the beginning of the first one. -/
def scan : SqlMode → ℕ → List Char → List Char → List (List Char)
  | mode, _, [], current => finish mode current
  | mode, skip + 1, _ :: cs, current => scan mode skip cs current
  | mode, 0, c :: cs, current =>
    let next := step unicode mode c cs
    if next.ends then pushStatement current ++ scan next.mode next.skip cs []
    else scan next.mode next.skip cs (current ++ next.emitted)

def splitStatements (sql : List Char) : List (List Char) :=
  scan unicode .code 0 sql []

/-! ### What a step looks at

A step looks no further than the next newline or semicolon: at the next character, at a tag, or
at whether a tag stands here. -/

variable {unicode} {c d : Char} {cs pre tag rest : List Char} {mode : SqlMode} {skip : ℕ}

/-- What ends a line or a statement is part of no tag. -/
def Separates (d : Char) : Prop := d = '\n' ∨ d = ';'

lemma Separates.isAlphanumeric (hd : Separates d) : isAlphanumeric unicode d = false := by
  rcases hd with rfl | rfl <;> rfl

lemma Separates.ne (hd : Separates d) : d ≠ '$' ∧ d ≠ '_' := by
  rcases hd with rfl | rfl <;> exact ⟨by decide, by decide⟩

/-- A tag ends before the line does. -/
lemma tagRest_append (hd : Separates d) :
    tagRest unicode (pre ++ d :: cs) = tagRest unicode pre := by
  induction pre with
  | nil => simp [tagRest, hd.isAlphanumeric, hd.ne]
  | cons c pre ih => rw [List.cons_append, tagRest, tagRest, ih]

lemma notMem_of_tagRest (hd : Separates d) (h : tagRest unicode cs = some rest) : d ∉ rest := by
  induction cs generalizing rest with
  | nil => cases h
  | cons c cs ih =>
    rw [tagRest] at h
    split_ifs at h with hdollar halpha
    · obtain rfl := Option.some.inj h
      simpa using hd.ne.1
    · obtain ⟨rest, hrest, rfl⟩ := Option.map_eq_some_iff.mp h
      refine List.not_mem_cons_of_ne_of_not_mem ?_ (ih hrest)
      rintro rfl
      simp [hd.isAlphanumeric, hd.ne] at halpha

lemma prefix_of_tagRest (h : tagRest unicode cs = some rest) : rest <+: cs := by
  induction cs generalizing rest with
  | nil => cases h
  | cons c cs ih =>
    rw [tagRest] at h
    split_ifs at h with hdollar halpha
    · obtain rfl := Option.some.inj h
      obtain rfl := hdollar
      exact ⟨cs, rfl⟩
    · obtain ⟨rest, hrest, rfl⟩ := Option.map_eq_some_iff.mp h
      exact List.cons_prefix_cons.mpr ⟨rfl, ih hrest⟩

lemma length_le_byteLength (cs : List Char) : cs.length ≤ byteLength cs := by
  induction cs with
  | nil => exact le_rfl
  | cons c cs ih =>
    have := c.utf8Size_pos
    rw [byteLength, List.length_cons]
    omega

/-- A tag beyond ASCII is never found again. -/
lemma closes_iff : closes tag cs = true ↔ byteLength tag = tag.length ∧ tag <+: cs := by
  rw [closes, Bool.and_eq_true, decide_eq_true_eq, decide_eq_true_eq]
  constructor
  · rintro ⟨hle, htake⟩
    have hlength := congrArg List.length htake
    rw [List.length_take, min_eq_left hle] at hlength
    exact ⟨hlength, htake ▸ List.take_prefix _ _⟩
  · rintro ⟨hlength, hstart⟩
    rw [hlength]
    exact ⟨hstart.length_le, (List.prefix_iff_eq_take.mp hstart).symm⟩

lemma prefix_append (htag : d ∉ tag) : tag <+: pre ++ d :: cs ↔ tag <+: pre := by
  refine ⟨fun h => ?_, fun h => h.trans (List.prefix_append _ _)⟩
  rcases List.prefix_or_prefix_of_prefix h (List.prefix_append pre (d :: cs)) with h' | ⟨t, rfl⟩
  · exact h'
  · rw [List.prefix_append_right_inj] at h
    cases t with
    | nil => simp
    | cons c t =>
      obtain ⟨rfl, -⟩ := List.cons_prefix_cons.mp h
      simp at htag

lemma notMem_of_valid (h : (SqlMode.dollar tag).Valid) (hd : Separates d) : d ∉ tag := by
  rcases hd with rfl | rfl
  · exact h.2.1
  · exact h.2.2

lemma step_append (hmode : mode.Valid) (hd : Separates d) :
    step unicode mode c (pre ++ d :: cs) = step unicode mode c pre := by
  have hhead : ∀ {x : Char}, x ≠ '\n' → x ≠ ';' →
      ((pre ++ d :: cs).head? = some x ↔ pre.head? = some x) := by
    intro x hnewline hsemicolon
    cases pre with
    | nil => rcases hd with rfl | rfl <;> simp [Ne.symm hnewline, Ne.symm hsemicolon]
    | cons _ _ => rfl
  cases mode with
  | code => simp only [step, hhead (x := '-') (by decide) (by decide),
      hhead (x := '*') (by decide) (by decide), tagRest_append hd]
  | lineComment => rfl
  | blockComment outer => simp only [step, hhead (x := '*') (by decide) (by decide),
      hhead (x := '/') (by decide) (by decide)]
  | quoted quote =>
    have hquote : quote.char ≠ '\n' ∧ quote.char ≠ ';' := by cases quote <;> decide
    simp only [step, hhead hquote.1 hquote.2]
  | dollar tag =>
    have hcloses : closes tag (c :: pre ++ d :: cs) = closes tag (c :: pre) := by
      rw [Bool.eq_iff_iff, closes_iff, closes_iff, prefix_append (notMem_of_valid hmode hd)]
    simp only [step, ← List.cons_append, hcloses]

/-- What is read ahead is there, and a tag that is opened is one. -/
lemma step_skip_le (hmode : mode.Valid) :
    (step unicode mode c cs).skip ≤ cs.length ∧ (step unicode mode c cs).mode.Valid := by
  have hnext : ∀ {x : Char}, cs.head? = some x → 1 ≤ cs.length := by
    intro x hhead
    cases cs with
    | nil => cases hhead
    | cons _ _ => simp
  cases mode with
  | lineComment =>
    rw [step]
    split_ifs <;> exact ⟨Nat.zero_le _, trivial⟩
  | blockComment outer =>
    simp only [step]
    split_ifs with hopen hclose
    · exact ⟨hnext hopen.2, trivial⟩
    · cases outer <;> exact ⟨hnext hclose.2, trivial⟩
    · exact ⟨Nat.zero_le _, trivial⟩
  | quoted quote =>
    rw [step]
    split_ifs with hquote hhead
    · exact ⟨hnext hhead, trivial⟩
    · exact ⟨Nat.zero_le _, trivial⟩
    · exact ⟨Nat.zero_le _, trivial⟩
  | dollar tag =>
    rw [step]
    split_ifs with hclose
    · obtain ⟨hlength, hstart⟩ := closes_iff.1 hclose.2
      have hle := hstart.length_le
      rw [List.length_cons] at hle
      refine ⟨?_, trivial⟩
      show byteLength tag - 1 ≤ cs.length
      omega
    · exact ⟨Nat.zero_le _, hmode⟩
  | code =>
    rw [step]
    split_ifs with hdash hslash
    · exact ⟨Nat.zero_le _, trivial⟩
    · exact ⟨hnext hslash.2, trivial⟩
    · exact ⟨Nat.zero_le _, trivial⟩
    · exact ⟨Nat.zero_le _, trivial⟩
    · exact ⟨Nat.zero_le _, trivial⟩
    · cases htag : tagRest unicode cs with
      | none => exact ⟨Nat.zero_le _, trivial⟩
      | some rest =>
        have hnotMem : ∀ {d : Char}, Separates d → d ≠ '$' → d ∉ '$' :: rest := fun hd hne =>
          List.not_mem_cons_of_ne_of_not_mem hne (notMem_of_tagRest hd htag)
        exact ⟨(prefix_of_tagRest htag).length_le, List.cons_ne_nil _ _,
          hnotMem (Or.inl rfl) (by decide), hnotMem (Or.inr rfl) (by decide)⟩
    · exact ⟨Nat.zero_le _, trivial⟩

/-! ### Blank lines -/

variable (unicode) in
/-- A newline ends a line comment and nothing else. -/
lemma step_newline (mode : SqlMode) : ∃ mode' emitted,
    (∀ cs, step unicode mode '\n' cs = { mode := mode', emitted := emitted }) ∧
      (∀ cs, step unicode mode' '\n' cs = { mode := mode', emitted := emitted }) ∧
      (emitted = ['\n'] ∨ emitted = []) := by
  cases mode with
  | code => exact ⟨.code, ['\n'], fun _ => rfl, fun _ => rfl, .inl rfl⟩
  | lineComment => exact ⟨.code, ['\n'], fun _ => rfl, fun _ => rfl, .inl rfl⟩
  | blockComment outer =>
    exact ⟨.blockComment outer, [], fun _ => rfl, fun _ => rfl, .inr rfl⟩
  | quoted quote =>
    cases quote <;> exact ⟨_, ['\n'], fun _ => rfl, fun _ => rfl, .inl rfl⟩
  | dollar tag => exact ⟨.dollar tag, ['\n'], fun _ => rfl, fun _ => rfl, .inl rfl⟩

/-- A statement is made of the content of its text. -/
lemma pushStatement_eq (current : List Char) : pushStatement current =
    if trim (['\n'].intercalate (content current)) = [] then []
    else [trim (['\n'].intercalate (content current))] := by
  have hkept : (((lines current).map trimEnd).filter fun l => trim l ≠ []) = content current := by
    refine List.filter_congr fun l hl => ?_
    obtain ⟨l, -, rfl⟩ := List.mem_map.mp hl
    simp only [ne_eq, Text.trim_eq_nil_iff, Text.trimEnd_trimEnd]
  rw [pushStatement, hkept]

/-- Two beginnings of a statement that differ in blank lines. -/
def SameContent (current current' : List Char) : Prop :=
  ∀ cs, content (current ++ cs) = content (current' ++ cs)

variable {current current' : List Char}

lemma SameContent.append (h : SameContent current current') (cs : List Char) :
    SameContent (current ++ cs) (current' ++ cs) := by
  intro cs'
  rw [List.append_assoc, List.append_assoc]
  exact h _

lemma SameContent.pushStatement (h : SameContent current current') (cs : List Char) :
    pushStatement (current ++ cs) = Splitter.pushStatement (current' ++ cs) := by
  rw [pushStatement_eq, pushStatement_eq, h cs]

lemma SameContent.scan (h : SameContent current current') :
    scan unicode mode skip cs current = Splitter.scan unicode mode skip cs current' := by
  have hpush : Splitter.pushStatement current = Splitter.pushStatement current' := by
    simpa using h.pushStatement []
  induction cs generalizing mode skip current current' with
  | nil =>
    cases mode with
    | blockComment outer => exact h.pushStatement [' ']
    | _ => exact hpush
  | cons c cs ih =>
    cases skip with
    | succ skip => exact ih h hpush
    | zero =>
      rw [Splitter.scan, Splitter.scan, hpush]
      split_ifs
      · rfl
      · refine ih (h.append _) (h.pushStatement _)

variable (unicode) in
/-- A blank line makes no difference. -/
lemma scan_newline (hmode : mode.Valid) (hskip : skip ≤ pre.length) :
    scan unicode mode skip (pre ++ '\n' :: '\n' :: cs) current =
      scan unicode mode skip (pre ++ '\n' :: cs) current := by
  induction pre generalizing mode skip current with
  | nil =>
    obtain rfl : skip = 0 := Nat.le_zero.mp hskip
    obtain ⟨mode', emitted, hfirst, hnext, hemitted⟩ := step_newline unicode mode
    have hscan : ∀ {mode : SqlMode} {cs current : List Char},
        step unicode mode '\n' cs = { mode := mode', emitted := emitted } →
        scan unicode mode 0 ('\n' :: cs) current =
          scan unicode mode' 0 cs (current ++ emitted) := by
      intro mode cs current h
      rw [scan, h]
      rfl
    -- the second newline is read like the first, and leaves a blank line or nothing
    rw [List.nil_append, List.nil_append, hscan (hfirst _), hscan (hnext _), hscan (hfirst _)]
    refine SameContent.scan fun text => ?_
    rcases hemitted with rfl | rfl
    · have hcontent : content (current ++ '\n' :: '\n' :: text) = content (current ++ '\n' :: text) :=
        Text.content_append_newline
      simpa using hcontent
    · simp
  | cons c pre ih =>
    cases skip with
    | succ skip => exact ih hmode (Nat.le_of_succ_le_succ hskip)
    | zero =>
      have hnewline : ∀ cs, step unicode mode c (pre ++ '\n' :: cs) = step unicode mode c pre :=
        fun cs => step_append hmode (Or.inl rfl)
      obtain ⟨hle, hvalid⟩ : (step unicode mode c pre).skip ≤ pre.length ∧
          (step unicode mode c pre).mode.Valid := step_skip_le hmode
      rw [List.cons_append, List.cons_append, scan, scan, hnewline, hnewline]
      simp only [ih hvalid hle]

lemma scan_newline_nil : scan unicode .code 0 ('\n' :: cs) [] = scan unicode .code 0 cs [] := by
  rw [scan, step]
  exact SameContent.scan fun text => Text.content_newline

/-- The script before a line is empty or ends with a newline. -/
lemma scan_unlines (hpre : pre = [] ∨ ∃ before, pre = before ++ ['\n']) (ls : List (List Char)) :
    splitStatements unicode (pre ++ Text.unlines ls) =
      splitStatements unicode (pre ++ Text.unlines (ls.filter fun l => l ≠ [])) := by
  induction ls generalizing pre with
  | nil => rfl
  | cons l ls ih =>
    by_cases hl : l = []
    · subst hl
      rw [List.filter_cons_of_neg (by simp), ← ih hpre, Text.unlines_cons, List.nil_append]
      rcases hpre with rfl | ⟨before, rfl⟩
      · exact scan_newline_nil
      · rw [List.append_assoc, List.append_assoc]
        exact scan_newline unicode (show SqlMode.code.Valid from trivial) (Nat.zero_le _)
    · rw [List.filter_cons_of_pos (by simpa using hl), Text.unlines_cons, Text.unlines_cons]
      have hsplit : ∀ text, pre ++ (l ++ '\n' :: text) = (pre ++ l ++ ['\n']) ++ text := by simp
      rw [hsplit, hsplit]
      exact ih (Or.inr ⟨pre ++ l, rfl⟩)

/-- The statements of a script depend on the lines that are not blank. -/
theorem splitStatements_unlines (unicode : Char → Bool) (ls : List (List Char)) :
    splitStatements unicode (Text.unlines ls) =
      splitStatements unicode (Text.unlines (ls.filter fun l => l ≠ [])) :=
  scan_unlines (Or.inl rfl) ls

example : splitStatements (fun _ => false)
    "SELECT ';';\n-- a comment;\nSELECT $$ a ; b $$;".toList =
      ["SELECT ';'".toList, "SELECT $$ a ; b $$".toList] := by decide

end Splitter

end Moso.Migrate
