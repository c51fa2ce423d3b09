import Moso.Foundation.Decimal
import Mathlib.Data.List.Chain
import Mathlib.Data.List.DropRight

/-!
# Lines of text

Text as a list of characters, cut into lines at its newlines. A line ends before its newline, or
before the carriage return in front of it; what follows the last newline is a line if it is not
empty. The content of a text is what is left of its lines without trailing white space and
without those that are blank.
-/

namespace Text

open Decimal (isWhitespace trim)

/-- Texts are looked up by their characters. -/
theorem lawfulBEq : LawfulBEq (List Char) := inferInstance

/-- A character in front of the first line. -/
def push (c : Char) : List (List Char) → List (List Char)
  | []      => [[c]]
  | l :: ls => (c :: l) :: ls

def lines : List Char → List (List Char)
  | [] => []
  | c :: cs =>
    if c = '\n' then [] :: lines cs
    else if c = '\r' ∧ cs.head? = some '\n' then lines cs
    else push c (lines cs)

/-- Each line with a newline at its end. -/
def unlines (ls : List (List Char)) : List Char :=
  ls.flatMap fun l => l ++ ['\n']

def trimEnd (cs : List Char) : List Char :=
  cs.rdropWhile isWhitespace

/-- The lines without their trailing white space, but for the blank ones. -/
def content (cs : List Char) : List (List Char) :=
  ((lines cs).map trimEnd).filter fun l => l ≠ []

variable {c : Char} {cs cs' l : List Char} {ls ls' : List (List Char)}

@[simp] lemma lines_nil : lines [] = [] := rfl

@[simp] lemma lines_newline : lines ('\n' :: cs) = [] :: lines cs := if_pos rfl

@[simp] lemma unlines_nil : unlines [] = [] := rfl

@[simp] lemma unlines_cons : unlines (l :: ls) = l ++ '\n' :: unlines ls := by
  simp [unlines]

@[simp] lemma unlines_append : unlines (ls ++ ls') = unlines ls ++ unlines ls' :=
  List.flatMap_append

@[simp] lemma trimEnd_nil : trimEnd [] = [] := rfl

@[simp] lemma trimEnd_trimEnd : trimEnd (trimEnd cs) = trimEnd cs :=
  List.rdropWhile_idempotent _ _

lemma trim_eq : trim cs = trimEnd (cs.dropWhile isWhitespace) := rfl

lemma length_trim_le (cs : List Char) : (trim cs).length ≤ cs.length := by
  have h : ∀ cs : List Char, (cs.dropWhile isWhitespace).length ≤ cs.length :=
    fun cs => (List.dropWhile_suffix _).length_le
  rw [trim, List.length_reverse]
  refine (h _).trans ?_
  rw [List.length_reverse]
  exact h cs

/-- Only white space is trimmed away altogether, from whichever end. -/
lemma trim_eq_nil_iff : trim cs = [] ↔ trimEnd cs = [] := by
  rw [trim_eq, trimEnd, trimEnd, List.rdropWhile_eq_nil_iff, List.rdropWhile_eq_nil_iff]
  refine ⟨fun h c hc => ?_, fun h c hc => h c ((List.dropWhile_suffix _).subset hc)⟩
  rw [← List.takeWhile_append_dropWhile (p := isWhitespace) (l := cs)] at hc
  rcases List.mem_append.mp hc with hc | hc
  · exact List.mem_takeWhile_imp hc
  · exact h c hc

lemma push_append (h : ls ≠ []) : push c (ls ++ ls') = push c ls ++ ls' := by
  cases ls with
  | nil => exact absurd rfl h
  | cons l ls => rfl

lemma lines_append_newline_ne_nil : lines (cs ++ ['\n']) ≠ [] := by
  induction cs with
  | nil => simp
  | cons c cs ih =>
    rw [List.cons_append, lines]
    split_ifs
    · simp
    · exact ih
    · cases lines (cs ++ ['\n']) <;> simp [push]

/-- The lines before and after a newline. -/
lemma lines_append : lines (cs ++ '\n' :: cs') = lines (cs ++ ['\n']) ++ lines cs' := by
  induction cs with
  | nil => simp
  | cons c cs ih =>
    have hhead : (cs ++ '\n' :: cs').head? = (cs ++ ['\n']).head? := by
      cases cs <;> rfl
    rw [List.cons_append, List.cons_append, lines, lines, hhead, ih]
    split_ifs
    · rfl
    · rfl
    · exact push_append lines_append_newline_ne_nil

lemma newline_notMem_of_mem_lines (h : l ∈ lines cs) : '\n' ∉ l := by
  induction cs generalizing l with
  | nil => cases h
  | cons c cs ih =>
    rw [lines] at h
    split_ifs at h with hc
    · rcases List.mem_cons.mp h with rfl | h
      · exact List.not_mem_nil
      · exact ih h
    · exact ih h
    · cases hls : lines cs with
      | nil =>
        rw [hls] at h
        obtain rfl := List.mem_singleton.mp h
        simpa using Ne.symm hc
      | cons l' ls =>
        rw [hls] at h ih
        rcases List.mem_cons.mp h with rfl | h
        · have := ih List.mem_cons_self
          simpa [this] using Ne.symm hc
        · exact ih (List.mem_cons_of_mem _ h)

lemma newline_notMem_trimEnd (h : '\n' ∉ cs) : '\n' ∉ trimEnd cs :=
  fun hmem => h ((List.rdropWhile_prefix _ _).subset hmem)

lemma newline_notMem_of_mem_content (h : l ∈ content cs) : '\n' ∉ l := by
  obtain ⟨l, hl, rfl⟩ := List.mem_map.mp (List.mem_filter.mp h).1
  exact newline_notMem_trimEnd (newline_notMem_of_mem_lines hl)

/-- A newline at the head makes a blank line. -/
lemma content_newline : content ('\n' :: cs) = content cs := by
  simp [content]

/-- A newline after a newline makes a blank line. -/
lemma content_append_newline : content (cs ++ '\n' :: '\n' :: cs') = content (cs ++ '\n' :: cs') := by
  have hlines : ∀ rest, lines (cs ++ '\n' :: rest) = lines (cs ++ ['\n']) ++ lines rest :=
    fun rest => lines_append
  rw [content, content, hlines ('\n' :: cs'), hlines cs']
  simp

/-! ### Lines that are read back -/

/-- White space at the end, and what is in front of it. -/
lemma trimEnd_cons : trimEnd (c :: l) = if trimEnd l = [] then trimEnd [c] else c :: trimEnd l := by
  induction l using List.reverseRecOn with
  | nil => simp
  | append_singleton l d ih =>
    by_cases hd : isWhitespace d = true
    · rw [← List.cons_append, trimEnd, trimEnd, List.rdropWhile_concat_pos _ _ _ hd,
        List.rdropWhile_concat_pos _ _ _ hd]
      exact ih
    · rw [← List.cons_append, trimEnd, trimEnd, List.rdropWhile_concat_neg _ _ _ hd,
        List.rdropWhile_concat_neg _ _ _ hd]
      simp

lemma trimEnd_cons_of_ink (hc : isWhitespace c = false) : trimEnd (c :: l) = c :: trimEnd l := by
  have hsingle : trimEnd [c] = [c] := by
    simp [trimEnd, List.rdropWhile_singleton, hc]
  rw [trimEnd_cons, hsingle]
  split_ifs with hempty
  · rw [hempty]
  · rfl

lemma trimEnd_append (h : trimEnd l = l) (hl : l ≠ []) : trimEnd (l ++ cs) = l ++ trimEnd cs := by
  induction cs using List.reverseRecOn with
  | nil => simpa using h
  | append_singleton cs d ih =>
    rw [← List.append_assoc]
    by_cases hd : isWhitespace d = true
    · rw [trimEnd, trimEnd, List.rdropWhile_concat_pos _ _ _ hd, List.rdropWhile_concat_pos _ _ _ hd]
      exact ih
    · rw [trimEnd, trimEnd, List.rdropWhile_concat_neg _ _ _ hd,
        List.rdropWhile_concat_neg _ _ _ hd, List.append_assoc]

/-- A line is read back up to white space at its end. -/
lemma map_trimEnd_lines (hl : '\n' ∉ l) :
    (lines (l ++ '\n' :: cs)).map trimEnd = trimEnd l :: (lines cs).map trimEnd := by
  induction l with
  | nil => simp
  | cons c l ih =>
    obtain ⟨hc, hl⟩ : '\n' ≠ c ∧ '\n' ∉ l := by simpa using hl
    have hrest := ih hl
    rw [List.cons_append, lines, if_neg (Ne.symm hc)]
    split_ifs with hreturn
    · obtain ⟨rfl, hhead⟩ := hreturn
      cases l with
      | nil => simp [show trimEnd ['\r'] = [] from rfl]
      | cons d l =>
        obtain rfl := Option.some.inj hhead
        simp at hl
    · obtain ⟨first, others, hlines, hfirst, hothers⟩ := List.map_eq_cons_iff.mp hrest
      rw [hlines, push, List.map_cons, hothers, trimEnd_cons, hfirst, ← trimEnd_cons]

lemma getLast?_ne_of_trimEnd (h : trimEnd l = l) (hc : isWhitespace c = true) :
    l.getLast? ≠ some c := by
  intro hlast
  have hsplit := List.dropLast_append_getLast? c hlast
  have hshort : (trimEnd l).length ≤ l.dropLast.length := by
    rw [← hsplit, trimEnd, List.rdropWhile_concat_pos _ _ _ hc, List.dropLast_concat]
    exact (List.rdropWhile_prefix _ _).length_le
  have hlength := congrArg List.length hsplit
  rw [List.length_append, List.length_singleton] at hlength
  rw [h] at hshort
  omega

/-- A line that does not end with a carriage return is read back as it is. -/
lemma lines_append_of_line (hl : '\n' ∉ l) (hreturn : l.getLast? ≠ some '\r') :
    lines (l ++ '\n' :: cs) = l :: lines cs := by
  induction l with
  | nil => exact lines_newline
  | cons c l ih =>
    obtain ⟨hc, hnewline⟩ : '\n' ≠ c ∧ '\n' ∉ l := by simpa using hl
    have hnot : ¬(c = '\r' ∧ (l ++ '\n' :: cs).head? = some '\n') := by
      rintro ⟨rfl, hhead⟩
      cases l with
      | nil => exact hreturn rfl
      | cons d l =>
        obtain rfl := Option.some.inj hhead
        exact hnewline List.mem_cons_self
    have hrest : l.getLast? ≠ some '\r' := by
      cases l with
      | nil => simp
      | cons d l => rwa [List.getLast?_cons_cons] at hreturn
    rw [List.cons_append, lines, if_neg (Ne.symm hc), if_neg hnot, ih hnewline hrest, push]

lemma lines_unlines_append : lines (unlines ls ++ cs) = lines (unlines ls) ++ lines cs := by
  induction ls with
  | nil => rfl
  | cons l ls ih =>
    rw [unlines_cons, List.append_assoc, List.cons_append, lines_append, ih, ← List.append_assoc,
      ← lines_append]

/-- Lines are read back up to white space at their ends. -/
lemma map_trimEnd_lines_unlines (hls : ∀ l ∈ ls, '\n' ∉ l) :
    (lines (unlines ls)).map trimEnd = ls.map trimEnd := by
  induction ls with
  | nil => rfl
  | cons l ls ih =>
    rw [unlines_cons, map_trimEnd_lines (hls l List.mem_cons_self), List.map_cons,
      ih fun l' hl' => hls l' (List.mem_cons_of_mem _ hl')]

/-- No line ends with white space, and none but the first is blank. -/
def Tidy (cs : List Char) : Prop :=
  (cs ++ ['\n']).IsChain fun c d => d = '\n' → isWhitespace c = false

lemma Tidy.tail (h : Tidy (c :: cs)) : Tidy cs := by
  rw [Tidy, List.cons_append] at h
  exact h.of_cons

lemma lines_cons (hc : c ≠ '\n') (hreturn : c = '\r' → cs.head? ≠ some '\n') :
    lines (c :: cs) = push c (lines cs) := by
  rw [lines, if_neg hc, if_neg fun h => hreturn h.1 h.2]

/-- A carriage return is white space. -/
lemma Tidy.return (h : Tidy (c :: cs)) (hc : c = '\r') : cs.head? ≠ some '\n' := by
  subst hc
  intro hhead
  cases cs with
  | nil => cases hhead
  | cons d cs =>
    obtain rfl := Option.some.inj hhead
    exact absurd ((List.isChain_cons_cons.mp h).1 rfl) (by decide)

lemma Tidy.append_ink (h : Tidy cs) (hc : isWhitespace c = false) : Tidy (cs ++ [c]) := by
  have hnewline : c ≠ '\n' := by
    rintro rfl
    exact absurd hc (by decide)
  rw [Tidy, List.isChain_append] at h ⊢
  rw [List.isChain_append]
  refine ⟨⟨h.1, List.isChain_singleton _, ?_⟩, List.isChain_singleton _, ?_⟩
  · intro x _ y hy heq
    obtain rfl := Option.some.inj hy
    exact absurd heq hnewline
  · intro x hx y _ _
    obtain rfl : c = x := by simpa using hx
    exact hc

lemma Tidy.ink (h : Tidy [c]) : isWhitespace c = false := (List.isChain_cons_cons.mp h).1 rfl

lemma lines_singleton (h : Tidy [c]) : lines [c] = [[c]] := by
  have hnewline : c ≠ '\n' := by
    rintro rfl
    exact absurd h.ink (by decide)
  rw [lines_cons hnewline h.return]
  rfl

lemma lines_ne_nil (hcs : cs ≠ []) : lines cs ≠ [] := by
  induction cs with
  | nil => exact absurd rfl hcs
  | cons c cs ih =>
    rw [lines]
    split_ifs with hc hreturn
    · exact List.cons_ne_nil _ _
    · refine ih ?_
      rintro rfl
      cases hreturn.2
    · cases lines cs <;> exact List.cons_ne_nil _ _

lemma Tidy.lines_append_newline (h : Tidy cs) (hcs : cs ≠ []) :
    lines (cs ++ '\n' :: cs') = lines cs ++ lines cs' := by
  induction cs with
  | nil => exact absurd rfl hcs
  | cons c cs ih =>
    by_cases hc : c = '\n'
    · subst hc
      cases cs with
      | nil => exact absurd h.ink (by decide)
      | cons d cs =>
        have hrest := ih h.tail (List.cons_ne_nil _ _)
        rw [List.cons_append, lines_newline, lines_newline, hrest, List.cons_append]
    · cases cs with
      | nil =>
        have hreturn : c ≠ '\r' := by
          rintro rfl
          exact absurd h.ink (by decide)
        rw [lines_singleton h, List.singleton_append, lines_cons hc fun heq => absurd heq hreturn,
          lines_newline]
        rfl
      | cons d cs =>
        have hrest := ih h.tail (List.cons_ne_nil _ _)
        have hreturn : c = '\r' → (d :: cs ++ '\n' :: cs').head? ≠ some '\n' := h.return
        rw [List.cons_append, lines_cons hc hreturn, lines_cons hc h.return, hrest,
          push_append (lines_ne_nil (List.cons_ne_nil _ _))]

/-- A tidy text is made of its lines. -/
lemma Tidy.unlines_lines (h : Tidy cs) (hcs : cs ≠ []) : unlines (lines cs) = cs ++ ['\n'] := by
  induction cs with
  | nil => exact absurd rfl hcs
  | cons c cs ih =>
    cases cs with
    | nil => simp [lines_singleton h]
    | cons d cs =>
      have hrest := ih h.tail (List.cons_ne_nil _ _)
      by_cases hc : c = '\n'
      · subst hc
        simp [hrest]
      · obtain ⟨l, ls, hlines⟩ := List.exists_cons_of_ne_nil (lines_ne_nil (List.cons_ne_nil d cs))
        rw [hlines, unlines_cons] at hrest
        rw [lines_cons hc h.return, hlines, push, unlines_cons, List.cons_append, hrest]
        rfl

lemma trimEnd_cons_of_ne (h : trimEnd l = l) (hl : l = [] → isWhitespace c = false) :
    trimEnd (c :: l) = c :: l := by
  rw [trimEnd, List.rdropWhile_eq_self_iff] at h ⊢
  intro hne
  by_cases hempty : l = []
  · subst hempty
    simpa using hl rfl
  · rw [List.getLast_cons hempty]
    exact h hempty

lemma Tidy.trimEnd_of_mem_lines (h : Tidy cs) (hl : l ∈ lines cs) : trimEnd l = l := by
  induction cs generalizing l with
  | nil => cases hl
  | cons c cs ih =>
    by_cases hc : c = '\n'
    · subst hc
      rw [lines_newline] at hl
      rcases List.mem_cons.mp hl with rfl | hl
      · rfl
      · exact ih h.tail hl
    · rw [lines_cons hc h.return] at hl
      cases cs with
      | nil =>
        obtain rfl := List.mem_singleton.mp hl
        exact trimEnd_cons_of_ne rfl fun _ => h.ink
      | cons d cs =>
        obtain ⟨first, ls, hlines⟩ :=
          List.exists_cons_of_ne_nil (lines_ne_nil (List.cons_ne_nil d cs))
        rw [hlines] at hl ih
        rcases List.mem_cons.mp hl with rfl | hl
        · refine trimEnd_cons_of_ne (ih h.tail List.mem_cons_self) fun hempty => ?_
          -- a line that is empty is nothing but its newline
          by_cases hd : d = '\n'
          · subst hd
            exact (List.isChain_cons_cons.mp h).1 rfl
          · rw [lines_cons hd h.tail.return, hempty] at hlines
            cases hrest : lines cs <;> rw [hrest] at hlines <;> cases hlines
        · exact ih h.tail (List.mem_cons_of_mem _ hl)

/-- Only the first line of a tidy text can be blank: a newline is white space. -/
lemma Tidy.ne_nil_of_mem_lines (h : Tidy cs) :
    (cs.head? ≠ some '\n' → ∀ l ∈ lines cs, l ≠ []) ∧ ∀ l ∈ (lines cs).tail, l ≠ [] := by
  induction cs with
  | nil => simp
  | cons c cs ih =>
    obtain ⟨hall, htail⟩ := ih h.tail
    by_cases hc : c = '\n'
    · subst hc
      refine ⟨fun hhead => absurd rfl hhead, ?_⟩
      rw [lines_newline, List.tail_cons]
      refine hall fun hhead => ?_
      cases cs with
      | nil => cases hhead
      | cons d cs =>
        obtain rfl := Option.some.inj hhead
        exact absurd ((List.isChain_cons_cons.mp h).1 rfl) (by decide)
    · have hpush : ∃ l, lines (c :: cs) = (c :: l) :: (lines cs).tail := by
        rw [lines_cons hc h.return]
        cases lines cs with
        | nil => exact ⟨[], rfl⟩
        | cons l ls => exact ⟨l, rfl⟩
      obtain ⟨first, hlines⟩ := hpush
      rw [hlines]
      refine ⟨fun _ l hl => ?_, htail⟩
      rcases List.mem_cons.mp hl with rfl | hl
      · exact List.cons_ne_nil _ _
      · exact htail l hl

/-- A tidy text that starts with no newline is its content. -/
lemma Tidy.content_eq (h : Tidy cs) (hhead : cs.head? ≠ some '\n') : content cs = lines cs := by
  have htrim : (lines cs).map trimEnd = lines cs := by
    rw [List.map_congr_left fun l hl => h.trimEnd_of_mem_lines hl]
    exact List.map_id' _
  rw [content, htrim, List.filter_eq_self]
  intro l hl
  simpa using h.ne_nil_of_mem_lines.1 hhead l hl

lemma unlines_eq_intercalate (hls : ls ≠ []) : unlines ls = ['\n'].intercalate ls ++ ['\n'] := by
  induction ls with
  | nil => exact absurd rfl hls
  | cons l ls ih =>
    cases ls with
    | nil => simp
    | cons l' ls =>
      rw [unlines_cons, ih (List.cons_ne_nil _ _), List.intercalate_cons_cons]
      simp

/-- The content of a tidy text makes up the text. -/
lemma Tidy.intercalate_content (h : Tidy cs) (hcs : cs ≠ []) (hhead : cs.head? ≠ some '\n') :
    ['\n'].intercalate (content cs) = cs := by
  rw [h.content_eq hhead]
  exact List.append_cancel_right
    ((unlines_eq_intercalate (lines_ne_nil hcs)).symm.trans (h.unlines_lines hcs))

/-- A tidy text is read back as it is. -/
lemma Tidy.unlines_map_trimEnd (h : Tidy cs) (hcs : cs ≠ []) :
    unlines ((lines cs).map trimEnd) = cs ++ ['\n'] := by
  rw [List.map_congr_left fun l hl => h.trimEnd_of_mem_lines hl, ← h.unlines_lines hcs]
  exact congrArg unlines (List.map_id' _)

/-! ### Text with a separator -/

/-- Text cut at the first separator. -/
def splitOnce (sep : Char) (cs : List Char) : Option (List Char × List Char) :=
  match cs.dropWhile (· ≠ sep) with
  | []         => none
  | _ :: after => some (cs.takeWhile (· ≠ sep), after)

lemma splitOnce_append {sep : Char} {before : List Char} (after : List Char) (h : sep ∉ before) :
    splitOnce sep (before ++ sep :: after) = some (before, after) := by
  have hne : ∀ c ∈ before, decide (c ≠ sep) = true := by
    intro c hc
    refine decide_eq_true ?_
    rintro rfl
    exact h hc
  unfold splitOnce
  rw [List.dropWhile_append_of_pos hne, List.takeWhile_append_of_pos hne]
  simp

lemma splitOnce_eq_none {sep : Char} {cs : List Char} (h : sep ∉ cs) : splitOnce sep cs = none := by
  have hdrop : cs.dropWhile (· ≠ sep) = [] := by
    refine List.dropWhile_eq_nil_iff.mpr fun c hc => decide_eq_true ?_
    rintro rfl
    exact h hc
  unfold splitOnce
  rw [hdrop]

lemma eq_append_of_splitOnce {sep : Char} {cs before after : List Char}
    (h : splitOnce sep cs = some (before, after)) : sep ∉ before ∧ cs = before ++ sep :: after := by
  unfold splitOnce at h
  split at h
  · cases h
  · next c after hdrop =>
    obtain ⟨rfl, rfl⟩ := Prod.mk.inj (Option.some.inj h)
    have hc : c = sep := by
      have := List.head?_dropWhile_not (fun c => decide (c ≠ sep)) cs
      rw [hdrop] at this
      simpa using this
    refine ⟨fun hmem => ?_, ?_⟩
    · simpa using List.mem_takeWhile_imp hmem
    · conv_lhs => rw [← List.takeWhile_append_dropWhile (p := fun c => decide (c ≠ sep)) (l := cs)]
      rw [hdrop, hc]

lemma notMem_of_splitOnce {sep : Char} {cs : List Char} (h : splitOnce sep cs = none) :
    sep ∉ cs := by
  intro hmem
  obtain ⟨before, after, rfl, hbefore⟩ := List.eq_append_cons_of_mem hmem
  rw [splitOnce_append after hbefore] at h
  cases h

end Text
