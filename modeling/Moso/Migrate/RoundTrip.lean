import Moso.Migrate.Statement
import Moso.Migrate.Writer

/-!
# Files that are written and read back

The reader goes through the pieces of a written file one after the other. A piece of a section
leaves text from which the splitter takes the statements of the piece, whatever comes after.
-/

namespace Moso.Migrate

open Decimal (trim isWhitespace)
open Splitter (scan splitStatements Intact)
open Text (lines unlines trimEnd content Tidy)

/-! ### What a plan is expected to be read back as -/

/-- Up to the final semicolon. -/
def unterminated (statement : List Char) : List Char :=
  if statement.getLast? = some ';' then statement.dropLast else statement

/-- What is to be run of the statements: templates of comments are none. -/
def statementsOf (statements : List String) : List (List Char) :=
  ((statements.map String.toList).filter fun statement => !isTemplate statement).map unterminated

namespace Plan

variable (plan : Plan)

def upStatements : List (List Char) :=
  plan.operations.flatMap fun operation =>
    if operation.destructive then [] else statementsOf operation.up

def destructiveStatements : List (List (List Char)) :=
  plan.operations.flatMap fun operation =>
    if operation.destructive ∧ operation.up ≠ [] then [statementsOf operation.up] else []

/-- A plan that cannot be undone as a whole has no inverse. -/
def downStatements : List (List Char) :=
  if plan.isReversible then
    plan.operations.reverse.flatMap fun operation =>
      operation.down.map fun statement => unterminated statement.toList
  else []

end Plan

/-- The file that is written parses to the statements and the flags of the plan. -/
def RoundTrips (unicode : Char → Bool) (digest : List Char → String) (id : MigrationId)
    (plan : Plan) (snapshot : Option String) : Prop :=
  ∃ file : MigrationFile,
    parseFile unicode digest (id.fileName "sql") (writeMigration id plan snapshot) = .ok file ∧
      file.up = plan.upStatements.map String.ofList ∧
      file.pendingDestructive.map (·.statements) =
        plan.destructiveStatements.map (·.map String.ofList) ∧
      file.down = plan.downStatements.map String.ofList ∧
      file.reversible = plan.isReversible ∧
      file.transactional = !plan.requiresNoTransaction ∧
      file.replaces = []

/-- A line that the reader takes for itself, in a section. -/
def IsMarker (line : List Char) : Prop :=
  let compact := trim (trimEnd line)
  compact = upMarker.toList ∨ compact = downMarker.toList ∨ compact = destructiveMarker.toList ∨
    FileReader.warning compact ≠ none

/-- A comment on a line of its own that says nothing to the reader. -/
structure IsRemark (line : List Char) : Prop where
  newline : '\n' ∉ line
  comment : "--".toList <+: line
  marker : ¬ IsMarker line
  directive : stripPrefix "-- moso:" (trim (trimEnd line)) = none

/-- The descriptions, the notes and the templates are comments. -/
structure Plan.Plain (plan : Plan) : Prop where
  descriptions : ∀ operation ∈ plan.operations, IsRemark (commentLine operation.description.toList)
  notes : ∀ operation ∈ plan.operations, ∀ note ∈ operation.notes,
    ∀ line ∈ wrapComment note.toList, IsRemark (commentLine line)
  templates : ∀ operation ∈ plan.operations, ∀ statement ∈ operation.up,
    isTemplate statement.toList = true →
      Tidy statement.toList ∧ ∀ line ∈ lines statement.toList, IsRemark line

/-- The statement can be written at any place of a section. -/
structure Unmarked (unicode : Char → Bool) (statement : List Char) : Prop where
  intact : Intact unicode (unterminated statement)
  marker : ∀ line ∈ lines (statement ++ [';']), ¬ IsMarker line

/-- The statement can be written in a destructive block. -/
structure Unended (unicode : Char → Bool) (statement : List Char) : Prop where
  intact : Intact unicode (unterminated statement)
  ending : ∀ line ∈ lines statement, trim (trimEnd (commentLine line)) ≠ endMarker.toList

/-- Every statement of the plan that is written is one that can be. -/
structure Plan.Writable (unicode : Char → Bool) (plan : Plan) : Prop where
  up : ∀ operation ∈ plan.operations, ∀ statement ∈ operation.up,
    isTemplate statement.toList = false →
      if operation.destructive then Unended unicode statement.toList
      else Unmarked unicode statement.toList
  down : plan.isReversible = true → ∀ operation ∈ plan.operations,
    ∀ statement ∈ operation.down, Unmarked unicode statement.toList

/-! ### Reading a text -/

namespace FileReader

variable {unicode : Char → Bool} {fileName : String} {s : FileReader} {cs line : List Char}
  {ps qs : List (List Char)}

variable (unicode fileName) in
/-- The lines of a text, one after the other. -/
def readText (s : FileReader) (text : List Char) : Except Malformed FileReader :=
  (lines text).foldlM (step unicode fileName) s

/-- The pieces are read one after the other. -/
lemma readText_append : readText unicode fileName s (unlines (ps ++ qs)) =
    (readText unicode fileName s (unlines ps) >>= fun t =>
      readText unicode fileName t (unlines qs)) := by
  rw [readText, Text.unlines_append, Text.lines_unlines_append, List.foldlM_append]
  rfl

/-- A line is read without its trailing white space. -/
lemma foldlM_map_trimEnd (ls : List (List Char)) :
    (ls.map trimEnd).foldlM (step unicode fileName) s = ls.foldlM (step unicode fileName) s := by
  induction ls generalizing s with
  | nil => rfl
  | cons l ls ih =>
    rw [List.map_cons, List.foldlM_cons, List.foldlM_cons, step, step, Text.trimEnd_trimEnd]
    exact congrArg _ (funext fun t => ih)

/-- A piece of one line. -/
lemma readText_singleton (hline : '\n' ∉ line) :
    readText unicode fileName s (unlines [line]) = s.step unicode fileName line := by
  rw [readText, ← foldlM_map_trimEnd, Text.unlines_cons, Text.map_trimEnd_lines hline]
  rw [Text.unlines_nil, Text.lines_nil, List.map_nil, List.foldlM_cons, step, step,
    Text.trimEnd_trimEnd]
  exact bind_pure _

/-- Text for the section that is being read. -/
def append (s : FileReader) (text : List Char) : FileReader :=
  if s.inSection = .down then { s with down := s.down ++ text }
  else { s with up := s.up ++ text }

@[simp] lemma append_nil : s.append [] = s := by
  rw [append]
  split_ifs <;> simp

@[simp] lemma inSection_append : (s.append cs).inSection = s.inSection := by
  rw [append]
  split_ifs <;> rfl

@[simp] lemma inDestructive_append : (s.append cs).inDestructive = s.inDestructive := by
  rw [append]
  split_ifs <;> rfl

@[simp] lemma append_append : (s.append cs).append line = s.append (cs ++ line) := by
  rw [append, append, append]
  split_ifs <;> simp_all

lemma push_eq_append : s.push line = s.append (line ++ ['\n']) := by
  rw [push, append]
  split_ifs <;> simp

variable (unicode fileName) in
/-- A line of a section that is no marker belongs to the section. -/
lemma step_eq_append (hsection : s.inSection ≠ .header) (hblock : s.inDestructive = none)
    (hline : ¬ IsMarker line) :
    s.step unicode fileName line = .ok (s.append (trimEnd line ++ ['\n'])) := by
  simp only [IsMarker, not_or, not_not] at hline
  obtain ⟨hup, hdown, hdestructive, hwarning⟩ := hline
  rw [step, hblock]
  dsimp only
  rw [if_neg hup, if_neg hdown, if_neg hdestructive, hwarning]
  dsimp only
  rw [if_neg hsection, push_eq_append]

/-- A text of a section without markers belongs to the section. -/
lemma readText_eq_append (hsection : s.inSection ≠ .header) (hblock : s.inDestructive = none)
    (hlines : ∀ line ∈ lines cs, ¬ IsMarker line) :
    readText unicode fileName s cs = .ok (s.append (unlines ((lines cs).map trimEnd))) := by
  rw [readText]
  generalize lines cs = ls at hlines ⊢
  induction ls generalizing s with
  | nil => simp [pure, Except.pure]
  | cons l ls ih =>
    have hstep := step_eq_append unicode fileName hsection hblock (hlines l List.mem_cons_self)
    have hrest := ih (s := s.append (trimEnd l ++ ['\n'])) (by simpa using hsection)
      (by simpa using hblock) fun l hl => hlines l (List.mem_cons_of_mem _ hl)
    rw [List.foldlM_cons, hstep]
    refine hrest.trans ?_
    simp

end FileReader

/-! ### What a piece leaves behind -/

section Carries

variable {unicode : Char → Bool} {fileName : String} {ps qs : List (List Char)}
  {statements statements' : List (List Char)} {pending pending' : List (List (List Char))}
  {line statement text text' rest : List Char}

variable (unicode) in
/-- The splitter takes the statements from the text, whatever comes after. -/
def Yields (text : List Char) (statements : List (List Char)) : Prop :=
  ∀ rest, scan unicode .code 0 (text ++ rest) [] = statements ++ scan unicode .code 0 rest []

lemma Yields.append (h : Yields unicode text statements) (h' : Yields unicode text' statements') :
    Yields unicode (text ++ text') (statements ++ statements') := by
  intro rest
  rw [List.append_assoc, List.append_assoc, h, h']

lemma Yields.splitStatements_eq (h : Yields unicode text statements) :
    splitStatements unicode text = statements := by
  have hend := h []
  rw [List.append_nil] at hend
  rw [splitStatements, hend]
  exact List.append_nil statements

variable (unicode fileName) in
/-- In a section, the pieces leave a text with these statements, and blocks with those. -/
def Carries (ps : List (List Char)) (statements : List (List Char))
    (pending : List (List (List Char))) : Prop :=
  ∃ text, Yields unicode text statements ∧
    ∀ s : FileReader, s.inSection ≠ .header → s.inDestructive = none → ∃ blocks lastWarning,
      blocks.map PendingDestructive.statements = pending.map (·.map String.ofList) ∧
      s.readText unicode fileName (unlines ps) = .ok
        { s.append text with
          file := { s.file with pendingDestructive := s.file.pendingDestructive ++ blocks }
          lastWarning := lastWarning }

lemma Carries.nil : Carries unicode fileName [] [] [] := by
  refine ⟨[], fun rest => rfl, fun s _ _ => ⟨[], s.lastWarning, rfl, ?_⟩⟩
  rw [FileReader.append_nil, List.append_nil]
  rfl

lemma Carries.append (h : Carries unicode fileName ps statements pending)
    (h' : Carries unicode fileName qs statements' pending') :
    Carries unicode fileName (ps ++ qs) (statements ++ statements') (pending ++ pending') := by
  obtain ⟨text, hyields, hread⟩ := h
  obtain ⟨text', hyields', hread'⟩ := h'
  refine ⟨text ++ text', hyields.append hyields', fun s hsection hblock => ?_⟩
  obtain ⟨blocks, warning, hblocks, hfirst⟩ := hread s hsection hblock
  obtain ⟨blocks', warning', hblocks', hsecond⟩ := hread' { s.append text with
    file := { s.file with pendingDestructive := s.file.pendingDestructive ++ blocks }
    lastWarning := warning } (by simpa using hsection) (by simpa using hblock)
  refine ⟨blocks ++ blocks', warning', by simp [hblocks, hblocks'], ?_⟩
  rw [FileReader.readText_append, hfirst]
  refine hsecond.trans ?_
  simp only [FileReader.append]
  split_ifs <;> simp

/-- Text without markers is carried over as it is, up to white space at the ends of lines. -/
lemma Carries.of_yields (hlines : ∀ line ∈ lines (unlines ps), ¬ IsMarker line)
    (h : Yields unicode (unlines ((lines (unlines ps)).map trimEnd)) statements) :
    Carries unicode fileName ps statements [] := by
  refine ⟨_, h, fun s hsection hblock => ⟨[], s.lastWarning, rfl, ?_⟩⟩
  rw [FileReader.readText_eq_append hsection hblock hlines, List.append_nil]
  simp only [FileReader.append]
  split_ifs <;> rfl

lemma Yields.newline : Yields unicode ['\n'] [] := fun _ => Splitter.scan_newline_nil

lemma not_isMarker_nil : ¬ IsMarker [] := by
  rintro (h | h | h | h)
  · cases h
  · cases h
  · cases h
  · exact h rfl

lemma Carries.blank : Carries unicode fileName [[]] [] [] := by
  refine .of_yields (fun line hline => ?_) Yields.newline
  obtain rfl := List.mem_singleton.mp hline
  exact not_isMarker_nil

/-- A remark is a comment to the splitter. -/
lemma IsRemark.yields (h : IsRemark line) : Yields unicode (trimEnd line ++ ['\n']) [] := by
  intro rest
  obtain ⟨comment, rfl⟩ := h.comment
  have htrim : trimEnd ("--".toList ++ comment) = "--".toList ++ trimEnd comment :=
    (Text.trimEnd_cons_of_ink rfl).trans (congrArg _ (Text.trimEnd_cons_of_ink rfl))
  have hnewline : '\n' ∉ trimEnd comment :=
    Text.newline_notMem_trimEnd fun hmem => h.newline (List.mem_append_right _ hmem)
  rw [htrim, List.append_assoc, List.singleton_append]
  exact Splitter.scan_comment hnewline

lemma Carries.remark (h : IsRemark line) : Carries unicode fileName [line] [] [] := by
  refine ⟨trimEnd line ++ ['\n'], h.yields, fun s hsection hblock => ⟨[], s.lastWarning, rfl, ?_⟩⟩
  rw [FileReader.readText_singleton h.newline,
    FileReader.step_eq_append unicode fileName hsection hblock h.marker, List.append_nil]
  simp only [FileReader.append]
  split_ifs <;> rfl

lemma Carries.remarks {ls : List (List Char)} (h : ∀ line ∈ ls, IsRemark line) :
    Carries unicode fileName ls [] [] := by
  induction ls with
  | nil => exact .nil
  | cons l ls ih =>
    exact (Carries.remark (h l List.mem_cons_self)).append
      (ih fun line hline => h line (List.mem_cons_of_mem _ hline))

lemma lines_unlines_singleton (h : Tidy statement) (hne : statement ≠ []) :
    lines (unlines [statement]) = lines statement := by
  rw [Text.unlines_cons, h.lines_append_newline hne]
  simp

lemma eq_unterminated (statement : List Char) : statement = unterminated statement ∨
    statement = unterminated statement ++ [';'] := by
  rw [unterminated]
  split_ifs with hlast
  · exact Or.inr (List.dropLast_append_getLast? _ hlast).symm
  · exact Or.inl rfl

lemma tidy_of_intact (h : Intact unicode (unterminated statement)) : Tidy statement := by
  have hcases := eq_unterminated statement
  generalize unterminated statement = bare at h hcases
  rcases hcases with rfl | rfl
  · exact h.tidy
  · exact h.tidy.append_ink rfl

lemma Unmarked.tidy (h : Unmarked unicode statement) : Tidy (statement ++ [';']) :=
  (tidy_of_intact h.intact).append_ink rfl

lemma Unmarked.lines_eq (h : Unmarked unicode statement) :
    lines (unlines [statement ++ [';']]) = lines (statement ++ [';']) :=
  lines_unlines_singleton h.tidy (by simp)

/-- A statement with the semicolon that ends it. -/
lemma Unmarked.carries (h : Unmarked unicode statement) :
    Carries unicode fileName [statement ++ [';']] [unterminated statement] [] := by
  have htidy := h.tidy
  have hlines := h.lines_eq
  obtain ⟨hintact, hmarker⟩ := h
  have hcases := eq_unterminated statement
  generalize unterminated statement = bare at hintact hcases ⊢
  have hne : statement ++ [';'] ≠ [] := by simp
  refine .of_yields (fun line hline => hmarker line (hlines ▸ hline)) ?_
  rw [hlines, htidy.unlines_map_trimEnd hne]
  intro rest
  rcases hcases with rfl | rfl
  · rw [List.append_assoc, List.append_assoc]
    refine (hintact.scan_semicolon ('\n' :: rest)).trans ?_
    rw [Splitter.scan_newline_nil]
    rfl
  · rw [List.append_assoc, List.append_assoc, List.append_assoc]
    refine (hintact.scan_semicolon (';' :: '\n' :: rest)).trans ?_
    rw [Splitter.scan_semicolon_nil, Splitter.scan_newline_nil]
    rfl

lemma Yields.remarks {ls : List (List Char)} (h : ∀ line ∈ ls, IsRemark line) :
    Yields unicode (unlines (ls.map trimEnd)) [] := by
  induction ls with
  | nil => exact fun rest => rfl
  | cons l ls ih =>
    have hrest := ih fun line hline => h line (List.mem_cons_of_mem _ hline)
    have hfirst : Yields unicode (trimEnd l ++ ['\n']) [] := (h l List.mem_cons_self).yields
    rw [List.map_cons, Text.unlines_cons, ← List.singleton_append, ← List.append_assoc]
    exact hfirst.append hrest

lemma ne_nil_of_isTemplate (h : isTemplate statement = true) : statement ≠ [] := by
  rintro rfl
  cases h

/-- A template is there for who reads the file. -/
lemma Carries.template (htemplate : isTemplate statement = true) (h : Tidy statement)
    (hlines : ∀ line ∈ lines statement, IsRemark line) :
    Carries unicode fileName [statement] [] [] := by
  have hsame := lines_unlines_singleton h (ne_nil_of_isTemplate htemplate)
  refine .of_yields (fun line hline => (hlines line (hsame ▸ hline)).marker) ?_
  rw [hsame]
  exact Yields.remarks hlines

/-! ### Destructive blocks -/

lemma stripPrefix_append (start : String) (cs : List Char) :
    stripPrefix start (start.toList ++ cs) = some cs := by
  rw [stripPrefix, List.dropPrefix?_eq_some_iff]
  exact ⟨start.toList, rfl, by simp⟩

/-- What is left of a comment without the white space around it. -/
lemma trim_commentLine (line : List Char) : trim (trimEnd (commentLine line)) =
    "--".toList ++ if trimEnd line = [] then [] else ' ' :: trimEnd line := by
  have htrim : trimEnd (commentLine line) =
      "--".toList ++ if trimEnd line = [] then [] else ' ' :: trimEnd line := by
    refine (Text.trimEnd_cons_of_ink rfl).trans (congrArg _ ?_)
    refine (Text.trimEnd_cons_of_ink rfl).trans (congrArg _ ?_)
    exact Text.trimEnd_cons
  have htwice : trimEnd (trimEnd (commentLine line)) = trimEnd (commentLine line) :=
    Text.trimEnd_trimEnd
  rw [htrim] at htwice
  rw [Text.trim_eq, htrim]
  exact htwice

/-- A comment of a block is a line of what it holds back. -/
lemma step_commentLine {s : FileReader} {reason buffer : List Char}
    (hblock : s.inDestructive = some (reason, buffer))
    (hend : trim (trimEnd (commentLine line)) ≠ endMarker.toList) :
    s.step unicode fileName (commentLine line) =
      .ok { s with inDestructive := some (reason, buffer ++ trimEnd line ++ ['\n']) } := by
  rw [FileReader.step, hblock]
  dsimp only
  rw [FileReader.readDestructive]
  dsimp only
  rw [if_neg hend, trim_commentLine, stripPrefix_append]
  dsimp only
  split_ifs with hempty
  · rw [hempty]
    rfl
  · rw [show ' ' :: trimEnd line = " ".toList ++ trimEnd line from rfl, stripPrefix_append]
    rfl

lemma readText_commentLines {s : FileReader} {reason buffer : List Char} {ls : List (List Char)}
    (hblock : s.inDestructive = some (reason, buffer))
    (hls : ∀ line ∈ ls, '\n' ∉ line ∧ trim (trimEnd (commentLine line)) ≠ endMarker.toList) :
    s.readText unicode fileName (unlines (ls.map commentLine)) =
      .ok { s with inDestructive := some (reason, buffer ++ unlines (ls.map trimEnd)) } := by
  induction ls generalizing s buffer with
  | nil => simp [FileReader.readText, pure, Except.pure, ← hblock]
  | cons l ls ih =>
    obtain ⟨hnewline, hend⟩ := hls l List.mem_cons_self
    have hrest := ih (s := { s with
      inDestructive := some (reason, buffer ++ trimEnd l ++ ['\n']) }) rfl
      fun line hline => hls line (List.mem_cons_of_mem _ hline)
    rw [List.map_cons, ← List.singleton_append, FileReader.readText_append,
      FileReader.readText_singleton (by simpa [commentLine] using hnewline),
      step_commentLine hblock hend]
    refine hrest.trans ?_
    simp

lemma not_isEnd_semicolon : trim (trimEnd (commentLine [';'])) ≠ endMarker.toList := by decide

/-- A remark that is commented out is no end of the block. -/
lemma IsRemark.not_isEnd (h : IsRemark line) :
    trim (trimEnd (commentLine line)) ≠ endMarker.toList := by
  obtain ⟨comment, rfl⟩ := h.comment
  have htrim : trimEnd ("--".toList ++ comment) = '-' :: trimEnd ('-' :: comment) :=
    Text.trimEnd_cons_of_ink rfl
  rw [trim_commentLine, htrim, if_neg (List.cons_ne_nil _ _)]
  intro h
  exact absurd (List.cons.inj (List.cons.inj (List.cons.inj (List.cons.inj h).2).2).2).1 (by decide)

variable (unicode) in
/-- What a statement leaves in a block: text that is not blank, and the statement if it is one. -/
structure HeldBack (statement : List Char) (ls : List (List Char)) (text : List Char) : Prop where
  written : writeCommented statement = ls.map commentLine
  left : text = unlines (ls.map trimEnd)
  ends : ∀ line ∈ ls, '\n' ∉ line ∧ trim (trimEnd (commentLine line)) ≠ endMarker.toList
  ink : ∃ c ∈ text, isWhitespace c = false
  yields : Yields unicode text
    (if isTemplate statement then [] else [unterminated statement])

lemma HeldBack.template (htemplate : isTemplate statement = true) (h : Tidy statement)
    (hlines : ∀ line ∈ lines statement, IsRemark line) :
    HeldBack unicode statement (lines statement) (unlines ((lines statement).map trimEnd)) := by
  refine ⟨?_, rfl, fun line hline => ⟨(hlines line hline).newline, (hlines line hline).not_isEnd⟩,
    ?_, ?_⟩
  · rw [writeCommented, if_pos htemplate, List.append_nil]
  · obtain ⟨rest, hrest⟩ := List.isPrefixOf_iff_prefix.mp htemplate
    have hdash : '-' ∈ statement :=
      (List.dropWhile_suffix isWhitespace).subset (hrest ▸ List.mem_cons_self)
    rw [h.unlines_map_trimEnd (ne_nil_of_isTemplate htemplate)]
    exact ⟨'-', List.mem_append_left _ hdash, rfl⟩
  · rw [if_pos htemplate]
    exact Yields.remarks hlines

lemma Unended.heldBack (h : Unended unicode statement) (htemplate : isTemplate statement = false) :
    HeldBack unicode statement (lines statement ++ [[';']]) (statement ++ ['\n', ';', '\n']) := by
  obtain ⟨hintact, hend⟩ := h
  have hcases := eq_unterminated statement
  have hne : statement ≠ [] := by
    rintro rfl
    exact hintact.nonempty rfl
  have htidy : Tidy statement := tidy_of_intact hintact
  refine ⟨?_, ?_, fun line hline => ?_, ⟨';', by simp, rfl⟩, ?_⟩
  · rw [writeCommented, if_neg (by simp [htemplate]), List.map_append]
    rfl
  · rw [List.map_append, Text.unlines_append, htidy.unlines_map_trimEnd hne, List.append_assoc]
    rfl
  · rcases List.mem_append.mp hline with hline | hline
    · exact ⟨Text.newline_notMem_of_mem_lines hline, hend line hline⟩
    · obtain rfl := List.mem_singleton.mp hline
      exact ⟨by decide, not_isEnd_semicolon⟩
  · rw [if_neg (by simp [htemplate])]
    generalize unterminated statement = bare at hintact hcases ⊢
    intro rest
    rcases hcases with rfl | rfl
    · rw [List.append_assoc]
      refine (hintact.scan_newline_semicolon ('\n' :: rest)).trans ?_
      rw [Splitter.scan_newline_nil]
      rfl
    · rw [List.append_assoc, List.append_assoc]
      refine (hintact.scan_semicolon ('\n' :: ';' :: '\n' :: rest)).trans ?_
      rw [Splitter.scan_newline_nil, Splitter.scan_semicolon_nil, Splitter.scan_newline_nil]
      rfl

/-- The statements of a block. -/
lemma exists_heldBack {up : List String}
    (h : ∀ statement ∈ up, ∃ ls text, HeldBack unicode statement.toList ls text) :
    ∃ ls : List (List Char),
      (up.map String.toList).flatMap writeCommented = ls.map commentLine ∧
      (∀ line ∈ ls, '\n' ∉ line ∧ trim (trimEnd (commentLine line)) ≠ endMarker.toList) ∧
      (up ≠ [] → ∃ c ∈ unlines (ls.map trimEnd), isWhitespace c = false) ∧
      Yields unicode (unlines (ls.map trimEnd)) (statementsOf up) := by
  induction up with
  | nil => exact ⟨[], rfl, by simp, fun h => absurd rfl h, fun rest => rfl⟩
  | cons statement up ih =>
    obtain ⟨ls, _, hwritten, rfl, hends, ⟨c, hc, hink⟩, hyields⟩ := h statement List.mem_cons_self
    obtain ⟨ls', hwritten', hends', -, hyields'⟩ :=
      ih fun other hother => h other (List.mem_cons_of_mem _ hother)
    refine ⟨ls ++ ls', ?_, fun line hline => ?_, fun _ => ⟨c, ?_, hink⟩, ?_⟩
    · rw [List.map_cons, List.flatMap_cons, hwritten, hwritten', List.map_append]
    · exact (List.mem_append.mp hline).elim (hends line) (hends' line)
    · rw [List.map_append, Text.unlines_append]
      exact List.mem_append_left _ hc
    · have hstatements : statementsOf (statement :: up) =
          (if isTemplate statement.toList then [] else [unterminated statement.toList]) ++
            statementsOf up := by
        cases htemplate : isTemplate statement.toList <;> simp [statementsOf, htemplate]
      rw [hstatements, List.map_append, Text.unlines_append]
      exact hyields.append hyields'

lemma stripPrefix_eq_none {start : String} {cs : List Char} (h : ¬ start.toList <+: cs) :
    stripPrefix start cs = none := by
  rw [Option.eq_none_iff_forall_not_mem]
  intro rest hrest
  rw [Option.mem_def, stripPrefix, List.dropPrefix?_eq_some_iff] at hrest
  obtain ⟨start', rfl, hstart⟩ := hrest
  rw [eq_of_beq hstart] at h
  exact h (List.prefix_append _ _)

lemma trim_commentLine_cons {c : Char} {cs : List Char} (hink : isWhitespace c = false) :
    trim (trimEnd (commentLine (c :: cs))) = '-' :: '-' :: ' ' :: c :: trimEnd cs := by
  rw [trim_commentLine, Text.trimEnd_cons_of_ink hink, if_neg (List.cons_ne_nil _ _)]
  rfl

/-- Comments are told apart by what comes after `-- `. -/
lemma not_prefix_comment {start : List Char} {c : Char} {cs : List Char}
    (hthird : start[3]? ≠ some c) (hlength : 3 < start.length) :
    ¬ start <+: '-' :: '-' :: ' ' :: c :: cs := by
  rintro ⟨rest, hrest⟩
  have hsame : (start ++ rest)[3]? = start[3]? := List.getElem?_append_left hlength
  rw [hrest] at hsame
  exact hthird hsame.symm

lemma not_isMarker_commentLine {c : Char} {cs : List Char} (hink : isWhitespace c = false)
    (hc : c ≠ '+' ∧ c ≠ '⚠') : ¬ IsMarker (commentLine (c :: cs)) := by
  rw [IsMarker, trim_commentLine_cons hink]
  have hmarker : ∀ {marker : List Char}, marker[3]? = some '+' → 3 < marker.length →
      '-' :: '-' :: ' ' :: c :: trimEnd cs ≠ marker := by
    intro marker hplus hlength h
    have hstart : marker <+: '-' :: '-' :: ' ' :: c :: trimEnd cs := h ▸ List.prefix_refl marker
    refine not_prefix_comment (fun hthird => ?_) hlength hstart
    exact hc.1 (Option.some.inj (hplus.symm.trans hthird)).symm
  have hwarning : FileReader.warning ('-' :: '-' :: ' ' :: c :: trimEnd cs) = none := by
    have hstart : ¬ "-- ⚠ DESTRUCTIVE:".toList <+: '-' :: '-' :: ' ' :: c :: trimEnd cs :=
      not_prefix_comment (by simpa using Ne.symm hc.2) (by decide)
    have hstart' : ¬ "--⚠ DESTRUCTIVE:".toList <+: '-' :: '-' :: ' ' :: c :: trimEnd cs := by
      simp [List.cons_prefix_cons]
    rw [FileReader.warning, stripPrefix_eq_none hstart, stripPrefix_eq_none hstart']
    rfl
  rintro (h | h | h | h)
  · exact hmarker rfl (by decide) h
  · exact hmarker rfl (by decide) h
  · exact hmarker rfl (by decide) h
  · exact h hwarning

/-- A comment that starts with none of the signs of the reader. -/
lemma isRemark_commentLine {c : Char} {cs : List Char} (hnewline : '\n' ∉ cs)
    (hink : isWhitespace c = false) (hc : c ≠ '+' ∧ c ≠ '⚠' ∧ c ≠ 'm') :
    IsRemark (commentLine (c :: cs)) := by
  have hnewline' : '\n' ≠ c := by
    rintro rfl
    exact absurd hink (by decide)
  refine ⟨by simp [commentLine, hnewline, hnewline'], ⟨_, rfl⟩,
    not_isMarker_commentLine hink ⟨hc.1, hc.2.1⟩, ?_⟩
  rw [trim_commentLine_cons hink]
  exact stripPrefix_eq_none (not_prefix_comment (by simpa using Ne.symm hc.2.2) (by decide))

namespace FileReader

variable {s t : FileReader}

lemma readText_cons (hline : '\n' ∉ line) (hstep : s.step unicode fileName line = .ok t) :
    s.readText unicode fileName (unlines (line :: ps)) =
      t.readText unicode fileName (unlines ps) := by
  rw [← List.singleton_append, readText_append, readText_singleton hline, hstep]
  rfl

variable (unicode fileName) in
/-- The warning of a block is kept for it. -/
lemma step_warning (hblock : s.inDestructive = none) (reason : List Char) : ∃ lastWarning,
    s.step unicode fileName (commentLine ("⚠ DESTRUCTIVE:".toList ++ reason)) =
      .ok { s with lastWarning := lastWarning } := by
  have htrim : trim (trimEnd (commentLine ("⚠ DESTRUCTIVE:".toList ++ reason))) =
      "-- ⚠ DESTRUCTIVE:".toList ++ trimEnd reason := by
    rw [trim_commentLine, Text.trimEnd_append (by decide) (by decide), if_neg (by simp)]
    rfl
  have hmarker : ∀ marker ∈ [upMarker, downMarker, destructiveMarker],
      "-- ⚠ DESTRUCTIVE:".toList ++ trimEnd reason ≠ marker.toList := by
    intro marker hmem h
    have hthird : some '⚠' = marker.toList[3]? := congrArg (fun cs => cs[3]?) h
    have hplus : ∀ marker ∈ [upMarker, downMarker, destructiveMarker],
        marker.toList[3]? = some '+' := by decide
    rw [hplus marker hmem] at hthird
    exact absurd hthird (by decide)
  have hwarning : warning ("-- ⚠ DESTRUCTIVE:".toList ++ trimEnd reason) =
      some (trimEnd reason) := by
    rw [warning, stripPrefix_append]
    rfl
  refine ⟨(trim (trimEnd reason)).rdropWhile (· = '.'), ?_⟩
  rw [step, hblock]
  dsimp only
  rw [htrim, if_neg (hmarker upMarker (by simp)), if_neg (hmarker downMarker (by simp)),
    if_neg (hmarker destructiveMarker (by simp)), hwarning]

variable (unicode fileName) in
lemma step_destructive (hblock : s.inDestructive = none) : ∃ reason,
    s.step unicode fileName destructiveMarker.toList =
      .ok { s with inDestructive := some (reason, []) } := by
  rw [step, hblock]
  exact ⟨_, rfl⟩

lemma step_end {reason buffer : List Char} (hblock : s.inDestructive = some (reason, buffer))
    (hink : ∃ c ∈ buffer, isWhitespace c = false) :
    s.step unicode fileName endMarker.toList = .ok { s with
      file := { s.file with pendingDestructive := s.file.pendingDestructive ++
        [{ reason := String.ofList reason,
           statements := (splitStatements unicode buffer).map String.ofList }] }
      inDestructive := none } := by
  have hblank : trim buffer ≠ [] := by
    rw [ne_eq, Text.trim_eq_nil_iff, trimEnd, List.rdropWhile_eq_nil_iff]
    obtain ⟨c, hc, hink⟩ := hink
    intro hspace
    rw [hspace c hc] at hink
    cases hink
  rw [step, hblock]
  dsimp only
  rw [readDestructive]
  dsimp only
  rw [if_pos (by decide), if_neg hblank]

end FileReader

lemma Carries.warning {description : String} (hdescription : '\n' ∉ description.toList) :
    Carries unicode fileName [commentLine ("⚠ DESTRUCTIVE: " ++ description ++ ".").toList]
      [] [] := by
  have hwarning : commentLine ("⚠ DESTRUCTIVE: " ++ description ++ ".").toList =
      commentLine ("⚠ DESTRUCTIVE:".toList ++ (' ' :: description.toList ++ ['.'])) := by
    simp [String.toList_append]
  refine ⟨[], fun rest => rfl, fun s hsection hblock => ?_⟩
  obtain ⟨lastWarning, hstep⟩ := FileReader.step_warning unicode fileName hblock
    (' ' :: description.toList ++ ['.'])
  refine ⟨[], lastWarning, rfl, ?_⟩
  rw [hwarning, FileReader.readText_singleton (by simp [commentLine, hdescription]), hstep,
    FileReader.append_nil, List.append_nil]

/-- A destructive block holds its statements back. -/
lemma Carries.block {up : List String} (hup : up ≠ [])
    (h : ∀ statement ∈ up, ∃ ls text, HeldBack unicode statement.toList ls text) :
    Carries unicode fileName (destructiveMarker.toList ::
      (up.map String.toList).flatMap writeCommented ++ [endMarker.toList]) [] [statementsOf up] := by
  obtain ⟨ls, hwritten, hends, hink, hyields⟩ := exists_heldBack h
  refine ⟨[], fun rest => rfl, fun s hsection hblock => ?_⟩
  obtain ⟨reason, hopen⟩ := FileReader.step_destructive unicode fileName hblock
  refine ⟨[{ reason := String.ofList reason, statements := (statementsOf up).map String.ofList }],
    s.lastWarning, rfl, ?_⟩
  rw [List.cons_append, FileReader.readText_cons (by decide) hopen, FileReader.readText_append,
    hwritten, readText_commentLines rfl hends]
  refine (FileReader.readText_singleton (by decide)).trans ?_
  rw [FileReader.step_end rfl (hink hup), List.nil_append, hyields.splitStatements_eq,
    FileReader.append_nil]
  cases s with
  | mk file inSection up down block lastWarning sawUpMarker =>
    obtain rfl : block = none := hblock
    rfl

/-- The statements of a section. -/
lemma Carries.flatMap {α : Type} {l : List α} {piece : α → List (List Char)}
    {carried : α → List (List Char)} {blocks : α → List (List (List Char))}
    (h : ∀ a ∈ l, Carries unicode fileName (piece a) (carried a) (blocks a)) :
    Carries unicode fileName (l.flatMap piece) (l.flatMap carried) (l.flatMap blocks) := by
  induction l with
  | nil => exact .nil
  | cons a l ih =>
    exact (h a List.mem_cons_self).append (ih fun b hb => h b (List.mem_cons_of_mem _ hb))

lemma statementsOf_cons (statement : String) (up : List String) : statementsOf (statement :: up) =
    (if isTemplate statement.toList then [] else [unterminated statement.toList]) ++
      statementsOf up := by
  cases htemplate : isTemplate statement.toList <;> simp [statementsOf, htemplate]

lemma Carries.plain {up : List String}
    (htemplates : ∀ statement ∈ up, isTemplate statement.toList = true →
      Tidy statement.toList ∧ ∀ line ∈ lines statement.toList, IsRemark line)
    (hstatements : ∀ statement ∈ up, isTemplate statement.toList = false →
      Unmarked unicode statement.toList) :
    Carries unicode fileName ((up.map String.toList).map writeStatement) (statementsOf up) [] := by
  induction up with
  | nil => exact .nil
  | cons statement up ih =>
    have hrest := ih (fun other hother => htemplates other (List.mem_cons_of_mem _ hother))
      fun other hother => hstatements other (List.mem_cons_of_mem _ hother)
    have hfirst : Carries unicode fileName [writeStatement statement.toList]
        (if isTemplate statement.toList then [] else [unterminated statement.toList]) [] := by
      cases htemplate : isTemplate statement.toList with
      | true =>
        obtain ⟨htidy, hlines⟩ := htemplates statement List.mem_cons_self htemplate
        rw [writeStatement, htemplate]
        exact .template htemplate htidy hlines
      | false =>
        rw [writeStatement, htemplate]
        exact (hstatements statement List.mem_cons_self htemplate).carries
    rw [statementsOf_cons]
    exact hfirst.append hrest

/-- An operation whose statements can be written. -/
lemma Carries.operation {operation : Operation} (hup : operation.up ≠ [])
    (hdescription : IsRemark (commentLine operation.description.toList))
    (hnotes : ∀ note ∈ operation.notes, ∀ line ∈ wrapComment note.toList,
      IsRemark (commentLine line))
    (htemplates : ∀ statement ∈ operation.up, isTemplate statement.toList = true →
      Tidy statement.toList ∧ ∀ line ∈ lines statement.toList, IsRemark line)
    (hstatements : ∀ statement ∈ operation.up, isTemplate statement.toList = false →
      if operation.destructive then Unended unicode statement.toList
      else Unmarked unicode statement.toList) :
    Carries unicode fileName ([] :: writeOperation operation)
      (if operation.destructive then [] else statementsOf operation.up)
      (if operation.destructive ∧ operation.up ≠ [] then [statementsOf operation.up] else []) := by
  have hcomments : Carries unicode fileName (operation.notes.flatMap fun note =>
      (wrapComment note.toList).map commentLine) [] [] := by
    refine .remarks fun line hline => ?_
    obtain ⟨note, hnote, hline⟩ := List.mem_flatMap.mp hline
    obtain ⟨comment, hcomment, rfl⟩ := List.mem_map.mp hline
    exact hnotes note hnote comment hcomment
  have hblank : Carries unicode fileName [[]] [] [] := .blank
  cases hdestructive : operation.destructive with
  | true =>
    rw [hdestructive] at hstatements
    have hnewline : '\n' ∉ operation.description.toList := fun hmem =>
      hdescription.newline (List.mem_append_right _ hmem)
    have hheld : ∀ statement ∈ operation.up, ∃ ls text,
        HeldBack unicode statement.toList ls text := by
      intro statement hmem
      cases htemplate : isTemplate statement.toList with
      | true =>
        obtain ⟨htidy, hlines⟩ := htemplates statement hmem htemplate
        exact ⟨_, _, .template htemplate htidy hlines⟩
      | false => exact ⟨_, _, (hstatements statement hmem htemplate).heldBack htemplate⟩
    have hfirst : IsRemark (commentLine
        ("Uncomment the block below to apply it, after confirming " ++
          "that no running version").toList) :=
      isRemark_commentLine (by decide) rfl (by decide)
    have hsecond : IsRemark (commentLine
        "of the application still depends on what it removes.".toList) :=
      isRemark_commentLine (by decide) rfl (by decide)
    have hwritten := hblank.append (hcomments.append ((Carries.warning hnewline).append
      ((Carries.remark hfirst).append ((Carries.remark hsecond).append (Carries.block hup hheld)))))
    rw [writeOperation, hdestructive, if_pos rfl, if_pos rfl, if_pos ⟨rfl, hup⟩]
    exact hwritten
  | false =>
    rw [hdestructive] at hstatements
    rw [writeOperation, hdestructive]
    exact hblank.append (hcomments.append (Carries.plain htemplates hstatements))

lemma IsRemark.undo {description : String} (h : IsRemark (commentLine description.toList)) :
    IsRemark (commentLine ("undo: " ++ description).toList) := by
  have hnewline : '\n' ∉ description.toList := fun hmem =>
    h.newline (List.mem_append_right _ hmem)
  have hundo : ("undo: " ++ description).toList =
      'u' :: ("ndo: ".toList ++ description.toList) := by
    simp [String.toList_append]
  rw [hundo]
  exact isRemark_commentLine (by simp [hnewline]) rfl (by decide)

/-- What undoes an operation. -/
lemma Carries.undo {operation : Operation}
    (hdescription : IsRemark (commentLine operation.description.toList))
    (hdown : ∀ statement ∈ operation.down, Unmarked unicode statement.toList) :
    Carries unicode fileName
      (if operation.down = [] then []
      else [] :: commentLine ("undo: " ++ operation.description).toList ::
        operation.down.map fun statement => statement.toList ++ [';'])
      (operation.down.map fun statement => unterminated statement.toList) [] := by
  split_ifs with hempty
  · rw [hempty]
    exact .nil
  · have hremark := hdescription.undo
    have hstatements : Carries unicode fileName
        (operation.down.map fun statement => statement.toList ++ [';'])
        (operation.down.map fun statement => unterminated statement.toList) [] := by
      generalize operation.down = down at hdown
      induction down with
      | nil => exact .nil
      | cons statement down ih =>
        exact (hdown statement List.mem_cons_self).carries.append
          (ih fun other hother => hdown other (List.mem_cons_of_mem _ hother))
    have hblank : Carries unicode fileName [[]] [] [] := .blank
    exact hblank.append ((Carries.remark hremark).append hstatements)

/-- The text of the up section. -/
lemma Plan.Plain.carries_up {plan : Plan} (hplain : plan.Plain) (h : plan.Writable unicode) :
    Carries unicode fileName (plan.operations.flatMap fun operation =>
      if operation.up = [] then [] else [] :: writeOperation operation)
      plan.upStatements plan.destructiveStatements := by
  refine .flatMap fun operation hmem => ?_
  by_cases hempty : operation.up = []
  · have hnothing : (if operation.destructive then [] else statementsOf operation.up) = [] := by
      rw [hempty]
      split_ifs <;> rfl
    rw [if_pos hempty, hnothing, if_neg fun h => h.2 hempty]
    exact .nil
  · rw [if_neg hempty]
    exact .operation hempty (hplain.descriptions operation hmem) (hplain.notes operation hmem)
      (hplain.templates operation hmem) (h.up operation hmem)

/-- The text of the down section. -/
lemma Plan.Plain.carries_down {plan : Plan} (hplain : plan.Plain) (h : plan.Writable unicode)
    (hreversible : plan.isReversible = true) :
    Carries unicode fileName (plan.operations.reverse.flatMap fun operation =>
      if operation.down = [] then []
      else [] :: commentLine ("undo: " ++ operation.description).toList ::
        operation.down.map fun statement => statement.toList ++ [';'])
      plan.downStatements [] := by
  have hcarries : Carries unicode fileName (plan.operations.reverse.flatMap fun operation =>
      if operation.down = [] then []
      else [] :: commentLine ("undo: " ++ operation.description).toList ::
        operation.down.map fun statement => statement.toList ++ [';'])
      (plan.operations.reverse.flatMap fun operation =>
        operation.down.map fun statement => unterminated statement.toList)
      (plan.operations.reverse.flatMap fun _ => []) := by
    refine .flatMap fun operation hmem => ?_
    have hmem := List.mem_reverse.mp hmem
    exact .undo (hplain.descriptions operation hmem) (h.down hreversible operation hmem)
  have hnone : (plan.operations.reverse.flatMap fun _ => ([] : List (List (List Char)))) = [] := by
    simp
  rw [hnone] at hcarries
  rwa [Plan.downStatements, if_pos hreversible]

/-! ### The header -/

/-- A file is read from the name and the checksum on. -/
lemma parseFile_eq_bind {digest : List Char → String} {content : String} {id : MigrationId}
    (hid : parseId fileName = .ok id) :
    parseFile unicode digest fileName content =
      ((lines content.toList).foldlM (FileReader.step unicode fileName)
        { file := { id := id, checksum := digest (normalise content), up := [] } } >>=
          FileReader.finish unicode fileName) := by
  rw [parseFile, hid]
  rfl

lemma step_remark (h : IsRemark line) (file : MigrationFile) :
    FileReader.step unicode fileName { file := file } line = .ok { file := file } := by
  have hmarker := h.marker
  simp only [IsMarker, not_or, not_not] at hmarker
  obtain ⟨hup, hdown, hdestructive, hwarning⟩ := hmarker
  rw [FileReader.step]
  dsimp only
  rw [if_neg hup, if_neg hdown, if_neg hdestructive, hwarning]
  dsimp only
  rw [if_pos rfl, FileReader.readHeader, h.directive]

lemma readText_remarks {ls : List (List Char)} (h : ∀ line ∈ ls, IsRemark line)
    (file : MigrationFile) :
    FileReader.readText unicode fileName { file := file } (unlines ls) = .ok { file := file } := by
  induction ls with
  | nil => rfl
  | cons l ls ih =>
    rw [FileReader.readText_cons (h l List.mem_cons_self).newline
      (step_remark (h l List.mem_cons_self) file)]
    exact ih fun line hline => h line (List.mem_cons_of_mem _ hline)

/-- A line of the header that says something. -/
lemma step_directive {directive : List Char} (hmarker : ¬ IsMarker line)
    (hdirective : stripPrefix "-- moso:" (trim (trimEnd line)) = some directive)
    {file file' : MigrationFile} (h : applyDirective file (trim directive) fileName = .ok file') :
    FileReader.step unicode fileName { file := file } line = .ok { file := file' } := by
  simp only [IsMarker, not_or, not_not] at hmarker
  obtain ⟨hup, hdown, hdestructive, hwarning⟩ := hmarker
  rw [FileReader.step]
  dsimp only
  rw [if_neg hup, if_neg hdown, if_neg hdestructive, hwarning]
  dsimp only
  rw [if_pos rfl, FileReader.readHeader, hdirective]
  dsimp only
  rw [h]
  rfl

/-- Where the schema was taken from is for who reads the file. -/
lemma step_generatedFrom (snapshot : List Char) (file : MigrationFile) :
    FileReader.step unicode fileName { file := file }
      (commentLine ("moso:generated-from .schema.json@".toList ++ snapshot)) =
        .ok { file := file } := by
  have hmarker : ¬ IsMarker (commentLine ("moso:generated-from .schema.json@".toList ++ snapshot)) :=
    not_isMarker_commentLine (by decide) (by decide)
  have hcompact : trim (trimEnd (commentLine ("moso:generated-from .schema.json@".toList ++
      snapshot))) = "-- moso:".toList ++ ("generated-from .schema.json@".toList ++
        trimEnd snapshot) := by
    rw [trim_commentLine, Text.trimEnd_append (by decide) (by decide), if_neg (by simp)]
    rfl
  have htrim : trim ("generated-from .schema.json@".toList ++ trimEnd snapshot) =
      "generated-from .schema.json@".toList ++ trimEnd snapshot := by
    refine (?_ : trimEnd ("generated-from .schema.json@".toList ++ trimEnd snapshot) = _)
    rw [Text.trimEnd_append (by decide) (by decide), Text.trimEnd_trimEnd]
  refine step_directive hmarker (hcompact ▸ stripPrefix_append _ _) ?_
  rw [htrim]
  rfl

lemma readText_header {file file' file'' : MigrationFile}
    (h : FileReader.readText unicode fileName { file := file } (unlines ps) =
      .ok { file := file' })
    (h' : FileReader.readText unicode fileName { file := file' } (unlines qs) =
      .ok { file := file'' }) :
    FileReader.readText unicode fileName { file := file } (unlines (ps ++ qs)) =
      .ok { file := file'' } := by
  rw [FileReader.readText_append, h]
  exact h'

lemma isRemark_fileName {id : MigrationId} (hid : id.version < 10 ^ 14)
    (hname : '\n' ∉ id.name.toList) : IsRemark (commentLine (id.fileName "sql").toList) := by
  obtain ⟨hlength, hdigit, -⟩ := versionDigits hid
  have hnewline : '\n' ∉ (id.fileName "sql").toList := by
    have hversion := notMem_displayVersion hid (c := '\n') rfl (by decide)
    simp [MigrationId.fileName, String.toList_append, hversion, hname]
  obtain ⟨c, digits, hdigits⟩ : ∃ c digits,
      (Nat.toDigits 10 id.version).leftpad 14 '0' = c :: digits :=
    List.exists_cons_of_length_pos (by rw [hlength]; decide)
  have hc : c.isDigit = true := hdigit c (by rw [hdigits]; exact List.mem_cons_self)
  have hhead : (id.fileName "sql").toList.head? = some c := by
    rw [MigrationId.fileName, String.toList_append, String.toList_append, String.toList_append,
      String.toList_append, toList_displayVersion, hdigits, List.take_succ_cons]
    rfl
  cases hcons : (id.fileName "sql").toList with
  | nil =>
    rw [hcons] at hhead
    cases hhead
  | cons d rest =>
    rw [hcons] at hhead hnewline
    obtain rfl := Option.some.inj hhead
    refine isRemark_commentLine (fun hmem => hnewline (List.mem_cons_of_mem _ hmem))
      (Decimal.isWhitespace_of_isDigit hc) ⟨?_, ?_, ?_⟩ <;>
    · rintro rfl
      cases hc

variable (unicode fileName) in
/-- The flags of a plan are read back from the header. -/
lemma readText_writeHeader {id : MigrationId} {plan : Plan} {snapshot : Option String}
    (hid : id.version < 10 ^ 14) (hname : '\n' ∉ id.name.toList)
    (hsnapshot : ∀ text ∈ snapshot, '\n' ∉ text.toList) (hplain : plan.Plain)
    (file : MigrationFile) (htransactional : file.transactional = true) :
    FileReader.readText unicode fileName { file := file } (unlines (writeHeader id plan snapshot)) =
      .ok { file := { file with
        reversible := plan.isReversible
        transactional := !plan.requiresNoTransaction } } := by
  have hfirst := isRemark_fileName hid hname
  have horigin : FileReader.readText unicode fileName { file := file }
      (unlines (commentLine (id.fileName "sql").toList ::
        (snapshot.map fun snapshot =>
          commentLine ("moso:generated-from .schema.json@" ++ snapshot).toList).toList)) =
      .ok { file := file } := by
    rw [FileReader.readText_cons hfirst.newline (step_remark hfirst file)]
    cases snapshot with
    | none => rfl
    | some snapshot =>
      have hnewline := hsnapshot snapshot rfl
      refine (FileReader.readText_singleton (by
        simp [commentLine, String.toList_append, hnewline])).trans ?_
      have hline : ("moso:generated-from .schema.json@" ++ snapshot).toList =
          "moso:generated-from .schema.json@".toList ++ snapshot.toList := String.toList_append
      exact (congrArg _ (congrArg commentLine hline)).trans (step_generatedFrom snapshot.toList file)
  have hflags : FileReader.readText unicode fileName { file := file }
      (unlines (commentLine
          (if plan.isReversible then "moso:reversible" else "moso:irreversible").toList ::
        if plan.requiresNoTransaction then [commentLine "moso:transactional false".toList]
        else [])) = .ok { file := { file with
          reversible := plan.isReversible
          transactional := !plan.requiresNoTransaction } } := by
    obtain ⟨_, _, _, _, _, _, _, _, _, _⟩ := file
    obtain rfl := htransactional
    cases plan.isReversible <;> cases plan.requiresNoTransaction <;> rfl
  have hdestructive : ∀ file : MigrationFile, FileReader.readText unicode fileName { file := file }
      (unlines (if plan.isDestructive then [commentLine "moso:destructive".toList] else [])) =
        .ok { file := file } := by
    intro file
    cases plan.isDestructive <;> rfl
  have hdescriptions : ∀ file : MigrationFile, FileReader.readText unicode fileName { file := file }
      (unlines ("--".toList ::
        plan.operations.map fun operation => commentLine operation.description.toList)) =
        .ok { file := file } := by
    intro file
    have hdash : FileReader.readText unicode fileName { file := file } (unlines ["--".toList]) =
      .ok { file := file } := rfl
    refine readText_header hdash (readText_remarks (fun line hline => ?_) file)
    obtain ⟨operation, hmem, rfl⟩ := List.mem_map.mp hline
    exact hplain.descriptions operation hmem
  exact readText_header (readText_header (readText_header horigin hflags) (hdestructive _))
    (hdescriptions _)

/-- The sections of a plan are read back, whatever stands for the up section. -/
lemma Carries.readText_sections {plan : Plan}
    (hcarries : Carries unicode fileName ps statements pending)
    (hcarriesDown : plan.isReversible = true → Carries unicode fileName
      (plan.operations.reverse.flatMap fun operation =>
        if operation.down = [] then []
        else [] :: commentLine ("undo: " ++ operation.description).toList ::
          operation.down.map fun statement => statement.toList ++ [';'])
      plan.downStatements [])
    (file : MigrationFile) : ∃ reader blocks,
      FileReader.readText unicode fileName { file := file }
        (unlines ([] :: upMarker.toList :: ps ++ if plan.isReversible then writeDown plan else [])) =
          .ok reader ∧
      reader.finish unicode fileName = .ok { file with
        up := statements.map String.ofList
        down := plan.downStatements.map String.ofList
        reversible := file.reversible || plan.isReversible
        pendingDestructive := file.pendingDestructive ++ blocks } ∧
      blocks.map PendingDestructive.statements = pending.map (·.map String.ofList) := by
  obtain ⟨up, hup, hreadUp⟩ := hcarries
  obtain ⟨blocks, lastWarning, hblocks, hread⟩ :=
    hreadUp { file := file, inSection := .up, sawUpMarker := true } (by simp) rfl
  have hblank : FileReader.step unicode fileName { file := file } [] = .ok { file := file } := rfl
  have hmarker : FileReader.step unicode fileName { file := file } upMarker.toList =
    .ok { file := file, inSection := .up, sawUpMarker := true } := rfl
  have hopen : ∀ qs, FileReader.readText unicode fileName { file := file }
      (unlines ([] :: upMarker.toList :: ps ++ qs)) = FileReader.readText unicode fileName
        { file := { file with pendingDestructive := file.pendingDestructive ++ blocks }
          inSection := .up, up := [] ++ up, lastWarning := lastWarning, sawUpMarker := true }
        (unlines qs) := by
    intro qs
    rw [List.cons_append, FileReader.readText_cons (by simp) hblank, List.cons_append,
      FileReader.readText_cons (by decide) hmarker, FileReader.readText_append, hread]
    rfl
  cases hreversible : plan.isReversible with
  | false =>
    have hdown : plan.downStatements = splitStatements unicode [] := by
      rw [Plan.downStatements, hreversible]
      rfl
    refine ⟨_, blocks, hopen [], ?_, hblocks⟩
    rw [hdown, Bool.or_false, ← hup.splitStatements_eq]
    rfl
  | true =>
    obtain ⟨down, hdown, hreadDown⟩ : Carries unicode fileName _ plan.downStatements [] :=
      hcarriesDown hreversible
    let reader : FileReader :=
      { file := { file with pendingDestructive := file.pendingDestructive ++ blocks }
        inSection := .up
        up := [] ++ up
        lastWarning := lastWarning
        sawUpMarker := true }
    let undoing : FileReader :=
      { reader with
        up := reader.up ++ [] ++ ['\n']
        file := { reader.file with reversible := true }
        inSection := .down }
    have hblank : reader.step unicode fileName [] =
      .ok { reader with up := reader.up ++ [] ++ ['\n'] } := rfl
    have hmarker : FileReader.step unicode fileName { reader with up := reader.up ++ [] ++ ['\n'] }
      downMarker.toList = .ok undoing := rfl
    obtain ⟨blocks', lastWarning', hblocks', hread'⟩ :=
      hreadDown undoing (by simp [undoing]) rfl
    obtain rfl : blocks' = [] := List.map_eq_nil_iff.mp hblocks'
    obtain ⟨final, hall, rfl⟩ : ∃ final, FileReader.readText unicode fileName { file := file }
        (unlines ([] :: upMarker.toList :: ps ++ writeDown plan)) = .ok final ∧ final = { undoing.append down with
          file := { undoing.file with pendingDestructive := undoing.file.pendingDestructive ++ [] }
          lastWarning := lastWarning' } := by
      refine ⟨_, ?_, rfl⟩
      rw [hopen, writeDown, FileReader.readText_cons (by simp) hblank,
        FileReader.readText_cons (by decide) hmarker]
      exact hread'
    have hboth : splitStatements unicode (reader.up ++ [] ++ ['\n']) = statements := by
      have hnewline := (hup.append Yields.newline).splitStatements_eq
      simpa [reader] using hnewline
    refine ⟨_, blocks, hall, ?_, hblocks⟩
    rw [← hboth, ← hdown.splitStatements_eq, Bool.or_true, List.append_nil]
    rfl

/-- A file with the header of a plan and its down section, and with anything as its up section. -/
lemma Carries.exists_parseFile {id : MigrationId} {plan : Plan} {snapshot : Option String}
    {content : String} (hcarries : Carries unicode (id.fileName "sql") ps statements pending)
    (hid : id.version < 10 ^ 14) (hname : '\n' ∉ id.name.toList)
    (hsnapshot : ∀ text ∈ snapshot, '\n' ∉ text.toList) (hplain : plan.Plain)
    (h : plan.Writable unicode) (digest : List Char → String)
    (hcontent : ∀ s, (lines content.toList).foldlM (FileReader.step unicode (id.fileName "sql")) s =
      FileReader.readText unicode (id.fileName "sql") s (unlines (writeHeader id plan snapshot ++
        ([] :: upMarker.toList :: ps ++ if plan.isReversible then writeDown plan else [])))) :
    ∃ file : MigrationFile, parseFile unicode digest (id.fileName "sql") content = .ok file ∧
      file.up = statements.map String.ofList ∧
      file.pendingDestructive.map (·.statements) = pending.map (·.map String.ofList) ∧
      file.down = plan.downStatements.map String.ofList ∧
      file.reversible = plan.isReversible ∧
      file.transactional = !plan.requiresNoTransaction ∧
      file.replaces = [] := by
  let file : MigrationFile :=
    { id := id
      checksum := digest (normalise content)
      up := [] }
  have hheader := readText_writeHeader unicode (id.fileName "sql") hid hname hsnapshot hplain
    file rfl
  obtain ⟨reader, blocks, hread, hfinish, hblocks⟩ :=
    hcarries.readText_sections (hplain.carries_down h) { file with
      reversible := plan.isReversible
      transactional := !plan.requiresNoTransaction }
  have hall : (lines content.toList).foldlM (FileReader.step unicode (id.fileName "sql"))
      { file := file } = .ok reader := by
    rw [hcontent, FileReader.readText_append, hheader]
    exact hread
  have hparse : parseFile unicode digest (id.fileName "sql") content =
      reader.finish unicode (id.fileName "sql") := by
    rw [parseFile_eq_bind (parseId_fileName hid), hall]
    rfl
  exact ⟨_, hparse.trans hfinish, rfl, hblocks, rfl, Bool.or_self _, rfl, rfl⟩

/-- The text of a plan, from its up section on. -/
lemma toList_writeMigration (id : MigrationId) (plan : Plan) (snapshot : Option String) :
    (writeMigration id plan snapshot).toList =
      unlines (writeHeader id plan snapshot ++ ([] :: upMarker.toList ::
        (plan.operations.flatMap fun operation =>
          if operation.up = [] then [] else [] :: writeOperation operation) ++
        if plan.isReversible then writeDown plan else [])) := by
  rw [writeMigration, String.toList_ofList, List.append_assoc]
  rfl

end Carries

end Moso.Migrate
