import Moso.Migrate.RoundTrip

/-!
# Destructive blocks that are acknowledged

There are two ways to let the destructive blocks of a file run: the flag, and uncommenting them
by hand. The flag runs them behind everything else, the hand leaves them where they stand.
-/

namespace Moso.Migrate

open Decimal (trim isWhitespace)
open Text (lines unlines trimEnd Tidy)

/-! ### Uncommenting by hand -/

/-- A line without the sign of a comment. -/
def uncommentLine (line : List Char) : List Char :=
  (stripPrefix "-- " line).getD line

/-- The lines of a file, inside a destructive block or outside of them. -/
def uncommentLines : Bool → List (List Char) → List (List Char)
  | _, [] => []
  | false, line :: ls =>
    line :: uncommentLines (trim (trimEnd line) = destructiveMarker.toList) ls
  | true, line :: ls =>
    if trim (trimEnd line) = endMarker.toList then line :: uncommentLines false ls
    else uncommentLine line :: uncommentLines true ls

/-- The file with its destructive blocks uncommented. -/
def uncomment (text : String) : String :=
  String.ofList (unlines (uncommentLines false (lines text.toList)))

/-! ### What a plan runs -/

namespace Plan

variable (plan : Plan)

/-- All that is to be run, in the order of the operations. -/
def statements : List (List Char) :=
  plan.operations.flatMap fun operation => statementsOf operation.up

/-- A destructive operation that is a template has to be written by hand. -/
def IsManual : Prop :=
  ∃ operation ∈ plan.operations, operation.destructive = true ∧ operation.up ≠ [] ∧
    statementsOf operation.up = []

/-- The statements stay where they are when the destructive ones go behind the others. -/
def KeepsOrder : Prop :=
  plan.upStatements ++ plan.destructiveStatements.flatten = plan.statements

/-- A plan that a file can hold, with destructive statements that are not comments. -/
structure Legible (unicode : Char → Bool) (id : MigrationId) (snapshot : Option String) :
    Prop where
  version : id.version < 10 ^ 14
  name : '\n' ∉ id.name.toList
  snapshot : ∀ text ∈ snapshot, '\n' ∉ text.toList
  plain : plan.Plain
  writable : plan.Writable unicode
  uncommented : ∀ operation ∈ plan.operations, operation.destructive = true →
    statementsOf operation.up ≠ [] → ∀ statement ∈ operation.up,
      ∀ line ∈ lines statement.toList, ¬ "--".toList <+: trim (trimEnd line)

end Plan

/-- What the flag lets run is what runs after uncommenting by hand, with the flag or without it,
and it is in the order of the plan. -/
def AcknowledgedAlike (unicode : Char → Bool) (digest : List Char → String) (id : MigrationId)
    (plan : Plan) (snapshot : Option String) : Prop :=
  ∃ file, parseFile unicode digest (id.fileName "sql") (writeMigration id plan snapshot) =
      .ok file ∧
    ∀ statements, file.statementsToApply true = .ok statements →
      statements = plan.statements.map String.ofList ∧
        ∃ edited, parseFile unicode digest (id.fileName "sql")
            (uncomment (writeMigration id plan snapshot)) = .ok edited ∧
          ∀ allowDestructive, edited.statementsToApply allowDestructive = .ok statements

/-! ### What the edit leaves of the pieces -/

section Edits

variable {ps qs ps' qs' : List (List Char)} {line statement : List Char} {unicode : Char → Bool}

/-- Outside of the blocks, the first pieces become the second. -/
def Edits (ps qs : List (List Char)) : Prop :=
  ∀ rest, uncommentLines false (lines (unlines ps) ++ rest) =
    lines (unlines qs) ++ uncommentLines false rest

lemma Edits.nil : Edits [] [] := fun _ => rfl

lemma Edits.append (h : Edits ps qs) (h' : Edits ps' qs') : Edits (ps ++ ps') (qs ++ qs') := by
  intro rest
  rw [Text.unlines_append, Text.unlines_append, Text.lines_unlines_append,
    Text.lines_unlines_append, List.append_assoc, h, h', List.append_assoc]

lemma Edits.flatMap {α : Type} {l : List α} {piece edited : α → List (List Char)}
    (h : ∀ a ∈ l, Edits (piece a) (edited a)) : Edits (l.flatMap piece) (l.flatMap edited) := by
  induction l with
  | nil => exact .nil
  | cons a l ih =>
    exact (h a List.mem_cons_self).append (ih fun b hb => h b (List.mem_cons_of_mem _ hb))

/-- Pieces that open no block stay as they are. -/
lemma Edits.of_lines
    (h : ∀ line ∈ lines (unlines ps), trim (trimEnd line) ≠ destructiveMarker.toList) :
    Edits ps ps := by
  intro rest
  generalize lines (unlines ps) = ls at h
  induction ls with
  | nil => rfl
  | cons l ls ih =>
    have hopen : decide (trim (trimEnd l) = destructiveMarker.toList) = false :=
      decide_eq_false (h l List.mem_cons_self)
    rw [List.cons_append, uncommentLines, hopen, ih fun l' hl' => h l' (List.mem_cons_of_mem _ hl'),
      List.cons_append]

lemma Edits.of_pieces (hnewline : ∀ p ∈ ps, '\n' ∉ p)
    (h : ∀ p ∈ ps, trim (trimEnd p) ≠ destructiveMarker.toList) : Edits ps ps := by
  refine .of_lines fun line hline => ?_
  have hmem : trimEnd line ∈ ps.map trimEnd :=
    Text.map_trimEnd_lines_unlines hnewline ▸ List.mem_map_of_mem hline
  obtain ⟨p, hp, heq⟩ := List.mem_map.mp hmem
  exact heq ▸ h p hp

lemma ne_destructive_of_not_isMarker (h : ¬ IsMarker line) :
    trim (trimEnd line) ≠ destructiveMarker.toList :=
  fun heq => h (.inr (.inr (.inl heq)))

lemma Edits.remarks {ls : List (List Char)} (h : ∀ line ∈ ls, IsRemark line) : Edits ls ls :=
  .of_pieces (fun line hline => (h line hline).newline) fun line hline =>
    ne_destructive_of_not_isMarker (h line hline).marker

lemma Unmarked.edits (h : Unmarked unicode statement) :
    Edits [statement ++ [';']] [statement ++ [';']] := by
  refine .of_lines fun line hline => ?_
  rw [h.lines_eq] at hline
  exact ne_destructive_of_not_isMarker (h.marker line hline)

lemma Edits.template (htemplate : isTemplate statement = true) (h : Tidy statement)
    (hlines : ∀ line ∈ lines statement, IsRemark line) : Edits [statement] [statement] := by
  refine .of_lines fun line hline => ?_
  rw [lines_unlines_singleton h (ne_nil_of_isTemplate htemplate)] at hline
  exact ne_destructive_of_not_isMarker (hlines line hline).marker

/-- The lines of a block lose the sign of a comment. -/
lemma Edits.block {ls : List (List Char)}
    (h : ∀ line ∈ ls, '\n' ∉ line ∧ trim (trimEnd (commentLine line)) ≠ endMarker.toList)
    (hreturn : ∀ line ∈ ls, line.getLast? ≠ some '\r') :
    Edits (destructiveMarker.toList :: ls.map commentLine ++ [endMarker.toList])
      (destructiveMarker.toList :: ls ++ [endMarker.toList]) := by
  have hopen : ∀ cs, lines (destructiveMarker.toList ++ '\n' :: cs) =
      destructiveMarker.toList :: lines cs := fun cs =>
    Text.lines_append_of_line (by decide) (by decide)
  have hinside : ∀ rest, uncommentLines true (lines (unlines (ls.map commentLine ++
      [endMarker.toList])) ++ rest) =
        lines (unlines (ls ++ [endMarker.toList])) ++ uncommentLines false rest := by
    intro rest
    induction ls with
    | nil => rfl
    | cons l ls ih =>
      obtain ⟨hnewline, hend⟩ := h l List.mem_cons_self
      have hlast := hreturn l List.mem_cons_self
      have hcomment : (commentLine l).getLast? ≠ some '\r' := by
        rw [commentLine, List.getLast?_append]
        cases hl : l.getLast? with
        | none => decide
        | some c => rwa [hl] at hlast
      have hstrip : uncommentLine (commentLine l) = l := by
        rw [uncommentLine, commentLine, stripPrefix_append]
        rfl
      rw [List.map_cons, List.cons_append, Text.unlines_cons,
        Text.lines_append_of_line (by simpa [commentLine] using hnewline) hcomment,
        List.cons_append, uncommentLines, if_neg hend, hstrip, List.cons_append, Text.unlines_cons,
        Text.lines_append_of_line hnewline hlast, List.cons_append]
      exact congrArg _ (ih (fun l' hl' => h l' (List.mem_cons_of_mem _ hl'))
        fun l' hl' => hreturn l' (List.mem_cons_of_mem _ hl'))
  intro rest
  rw [List.cons_append, List.cons_append, Text.unlines_cons, Text.unlines_cons, hopen, hopen,
    List.cons_append, uncommentLines]
  exact congrArg _ (hinside rest)

end Edits

/-! ### Reading the edited file -/

section AfterEdit

variable {unicode : Char → Bool} {fileName : String} {ps qs : List (List Char)}
  {statements statements' : List (List Char)} {line reason buffer : List Char}
  {s : FileReader}

namespace FileReader

variable (unicode fileName) in
/-- A line of a block that is no comment goes to the section. -/
lemma step_uncommented (hblock : s.inDestructive = some (reason, buffer))
    (hline : ¬ "--".toList <+: trim (trimEnd line)) :
    s.step unicode fileName line = .ok (s.append (trimEnd line ++ ['\n'])) := by
  have hend : trim (trimEnd line) ≠ endMarker.toList := fun heq =>
    hline (heq ▸ List.isPrefixOf_iff_prefix.mp rfl)
  rw [step, hblock]
  dsimp only
  rw [readDestructive]
  dsimp only
  rw [if_neg hend, stripPrefix_eq_none hline, push_eq_append]

variable (unicode fileName) in
lemma readText_uncommented {ls : List (List Char)} (hblock : s.inDestructive = some (reason, buffer))
    (hls : ∀ line ∈ ls, '\n' ∉ line ∧ ¬ "--".toList <+: trim (trimEnd line)) :
    s.readText unicode fileName (unlines ls) = .ok (s.append (unlines (ls.map trimEnd))) := by
  induction ls generalizing s with
  | nil => simp [readText, pure, Except.pure]
  | cons l ls ih =>
    obtain ⟨hnewline, hline⟩ := hls l List.mem_cons_self
    rw [readText_cons hnewline (step_uncommented unicode fileName hblock hline),
      ih (by simpa using hblock) fun l' hl' => hls l' (List.mem_cons_of_mem _ hl')]
    simp

/-- A block that holds nothing back is not pending. -/
lemma step_end_nil (hblock : s.inDestructive = some (reason, [])) :
    s.step unicode fileName endMarker.toList = .ok { s with inDestructive := none } := by
  rw [step, hblock]
  dsimp only
  rw [readDestructive]
  dsimp only
  have hblank : trim [] = [] := rfl
  rw [if_pos (by decide), if_pos hblank, List.append_nil]

end FileReader

/-- The statements of a block that was uncommented belong to the section. -/
lemma Carries.uncommented {ls : List (List Char)}
    (hls : ∀ line ∈ ls, '\n' ∉ line ∧ ¬ "--".toList <+: trim (trimEnd line))
    (hyields : Yields unicode (unlines (ls.map trimEnd)) statements) :
    Carries unicode fileName (destructiveMarker.toList :: ls ++ [endMarker.toList])
      statements [] := by
  refine ⟨_, hyields, fun s hsection hblock => ?_⟩
  obtain ⟨reason, hopen⟩ := FileReader.step_destructive unicode fileName hblock
  refine ⟨[], s.lastWarning, rfl, ?_⟩
  have hread := FileReader.readText_uncommented unicode fileName
    (s := { s with inDestructive := some (reason, []) }) rfl hls
  rw [List.cons_append, FileReader.readText_cons (by decide) hopen, FileReader.readText_append,
    hread]
  refine (FileReader.readText_singleton (by decide)).trans ?_
  have hopened : FileReader.inDestructive (FileReader.append
      { s with inDestructive := some (reason, []) } (unlines (ls.map trimEnd))) =
        some (reason, []) := by simp
  rw [FileReader.step_end_nil hopened, List.append_nil]
  simp only [FileReader.append]
  cases s with
  | mk file inSection up down block lastWarning sawUpMarker =>
    obtain rfl : block = none := hblock
    split_ifs <;> rfl

variable (unicode fileName) in
/-- After the edit the pieces leave a text with these statements, and nothing is pending. -/
def AfterEdit (ps : List (List Char)) (statements : List (List Char)) : Prop :=
  ∃ qs, Edits ps qs ∧ Carries unicode fileName qs statements []

lemma AfterEdit.of_carries (hedits : Edits ps ps) (h : Carries unicode fileName ps statements []) :
    AfterEdit unicode fileName ps statements := ⟨ps, hedits, h⟩

lemma AfterEdit.append (h : AfterEdit unicode fileName ps statements)
    (h' : AfterEdit unicode fileName qs statements') :
    AfterEdit unicode fileName (ps ++ qs) (statements ++ statements') := by
  obtain ⟨edited, hedits, hcarries⟩ := h
  obtain ⟨edited', hedits', hcarries'⟩ := h'
  exact ⟨edited ++ edited', hedits.append hedits', hcarries.append hcarries'⟩

lemma AfterEdit.flatMap {α : Type} {l : List α} {piece : α → List (List Char)}
    {carried : α → List (List Char)}
    (h : ∀ a ∈ l, AfterEdit unicode fileName (piece a) (carried a)) :
    AfterEdit unicode fileName (l.flatMap piece) (l.flatMap carried) := by
  induction l with
  | nil => exact .of_carries .nil .nil
  | cons a l ih =>
    exact (h a List.mem_cons_self).append (ih fun b hb => h b (List.mem_cons_of_mem _ hb))

lemma AfterEdit.remarks {ls : List (List Char)} (h : ∀ line ∈ ls, IsRemark line) :
    AfterEdit unicode fileName ls [] := .of_carries (.remarks h) (.remarks h)

lemma AfterEdit.blank : AfterEdit unicode fileName [[]] [] :=
  .of_carries (.of_pieces (by simp) (by decide)) .blank

lemma AfterEdit.warning {description : String} (hdescription : '\n' ∉ description.toList) :
    AfterEdit unicode fileName [commentLine ("⚠ DESTRUCTIVE: " ++ description ++ ".").toList]
      [] := by
  refine .of_carries (.of_pieces ?_ ?_) (.warning hdescription)
  · simp [commentLine, String.toList_append, hdescription]
  · have hwarning : ("⚠ DESTRUCTIVE: " ++ description ++ ".").toList =
        '⚠' :: (" DESTRUCTIVE: ".toList ++ description.toList ++ ['.']) := by
      simp [String.toList_append]
    refine List.forall_mem_singleton.mpr fun heq => ?_
    rw [hwarning, trim_commentLine_cons rfl] at heq
    have hthird : some '⚠' = destructiveMarker.toList[3]? := congrArg (fun cs => cs[3]?) heq
    exact absurd hthird (by decide)

/-- A template has nothing but comments. -/
lemma exists_comment_of_template {statement : List Char} (htemplate : isTemplate statement = true)
    (hlines : ∀ line ∈ lines statement, IsRemark line) :
    ∃ line ∈ lines statement, "--".toList <+: trim (trimEnd line) := by
  obtain ⟨line, ls, hcons⟩ := List.exists_cons_of_ne_nil
    (Text.lines_ne_nil (ne_nil_of_isTemplate htemplate))
  have hline : line ∈ lines statement := hcons ▸ List.mem_cons_self
  obtain ⟨comment, rfl⟩ := (hlines line hline).comment
  refine ⟨_, hline, ?_⟩
  have htrim : trimEnd ("--".toList ++ comment) = "--".toList ++ trimEnd comment :=
    Text.trimEnd_append (by decide) (by decide)
  have htwice : trim ("--".toList ++ trimEnd comment) =
      "--".toList ++ trimEnd (trimEnd comment) := by
    change trimEnd ("--".toList ++ trimEnd comment) = _
    exact Text.trimEnd_append (by decide) (by decide)
  rw [htrim, htwice]
  exact List.prefix_append _ _

/-- The statements of a block are run where it stands. -/
lemma AfterEdit.block {up : List String}
    (hwritable : ∀ statement ∈ up, isTemplate statement.toList = false ∧
      Unended unicode statement.toList)
    (hlines : ∀ statement ∈ up, ∀ line ∈ lines statement.toList,
      ¬ "--".toList <+: trim (trimEnd line)) :
    AfterEdit unicode fileName (destructiveMarker.toList ::
      (up.map String.toList).flatMap writeCommented ++ [endMarker.toList]) (statementsOf up) := by
  have hheld : ∀ statement ∈ up, ∃ ls text, HeldBack unicode statement.toList ls text :=
    fun statement hmem =>
      ⟨_, _, (hwritable statement hmem).2.heldBack (hwritable statement hmem).1⟩
  obtain ⟨ls, hwritten, hends, -, hyields⟩ := exists_heldBack hheld
  have hls : ls = (up.map String.toList).flatMap fun statement => lines statement ++ [[';']] := by
    have hcommented : (up.map String.toList).flatMap writeCommented =
        ((up.map String.toList).flatMap fun statement => lines statement ++ [[';']]).map
          commentLine := by
      rw [List.map_flatMap]
      refine List.flatMap_congr fun _ hstatement => ?_
      obtain ⟨statement, hmem, rfl⟩ := List.mem_map.mp hstatement
      rw [writeCommented, (hwritable statement hmem).1, List.map_append]
      rfl
    refine List.map_injective_iff.mpr ?_ (hwritten.symm.trans hcommented)
    exact fun _ _ h => List.append_cancel_left h
  have hline : ∀ line ∈ ls, ¬ "--".toList <+: trim (trimEnd line) ∧ trimEnd line = line := by
    intro line hmem
    rw [hls] at hmem
    obtain ⟨_, htext, hmem⟩ := List.mem_flatMap.mp hmem
    obtain ⟨statement, hstatement, rfl⟩ := List.mem_map.mp htext
    rcases List.mem_append.mp hmem with hmem | hmem
    · exact ⟨hlines statement hstatement line hmem,
        (tidy_of_intact (hwritable statement hstatement).2.intact).trimEnd_of_mem_lines hmem⟩
    · obtain rfl := List.mem_singleton.mp hmem
      exact ⟨by decide, rfl⟩
  refine ⟨destructiveMarker.toList :: ls ++ [endMarker.toList], ?_, .uncommented ?_ hyields⟩
  · rw [hwritten]
    exact .block hends fun line hmem => Text.getLast?_ne_of_trimEnd (hline line hmem).2 rfl
  · exact fun line hmem => ⟨(hends line hmem).1, (hline line hmem).1⟩

lemma AfterEdit.plain {up : List String}
    (htemplates : ∀ statement ∈ up, isTemplate statement.toList = true →
      Tidy statement.toList ∧ ∀ line ∈ lines statement.toList, IsRemark line)
    (hstatements : ∀ statement ∈ up, isTemplate statement.toList = false →
      Unmarked unicode statement.toList) :
    AfterEdit unicode fileName ((up.map String.toList).map writeStatement) (statementsOf up) := by
  refine .of_carries ?_ (.plain htemplates hstatements)
  induction up with
  | nil => exact .nil
  | cons statement up ih =>
    have hrest := ih (fun other hother => htemplates other (List.mem_cons_of_mem _ hother))
      fun other hother => hstatements other (List.mem_cons_of_mem _ hother)
    have hfirst : Edits [writeStatement statement.toList] [writeStatement statement.toList] := by
      cases htemplate : isTemplate statement.toList with
      | true =>
        obtain ⟨htidy, hlines⟩ := htemplates statement List.mem_cons_self htemplate
        rw [writeStatement, htemplate]
        exact .template htemplate htidy hlines
      | false =>
        rw [writeStatement, htemplate]
        exact (hstatements statement List.mem_cons_self htemplate).edits
    exact hfirst.append hrest

/-- An operation of a plan without templates to be written by hand. -/
lemma AfterEdit.operation {plan : Plan} {id : MigrationId} {snapshot : Option String}
    (h : plan.Legible unicode id snapshot) (hmanual : ¬ plan.IsManual) {operation : Operation}
    (hmem : operation ∈ plan.operations) (hup : operation.up ≠ []) :
    AfterEdit unicode fileName ([] :: writeOperation operation) (statementsOf operation.up) := by
  have htemplates := h.plain.templates operation hmem
  have hstatements := h.writable.up operation hmem
  have hcomments : AfterEdit unicode fileName (operation.notes.flatMap fun note =>
      (wrapComment note.toList).map commentLine) [] := by
    refine .remarks fun line hline => ?_
    obtain ⟨note, hnote, hline⟩ := List.mem_flatMap.mp hline
    obtain ⟨comment, hcomment, rfl⟩ := List.mem_map.mp hline
    exact h.plain.notes operation hmem note hnote comment hcomment
  have hblank : AfterEdit unicode fileName [[]] [] := .blank
  cases hdestructive : operation.destructive with
  | true =>
    rw [hdestructive] at hstatements
    have hnewline : '\n' ∉ operation.description.toList := fun hnewline =>
      (h.plain.descriptions operation hmem).newline (List.mem_append_right _ hnewline)
    have hlines := h.uncommented operation hmem hdestructive fun hnone =>
      hmanual ⟨operation, hmem, hdestructive, hup, hnone⟩
    have hwritable : ∀ statement ∈ operation.up, isTemplate statement.toList = false ∧
        Unended unicode statement.toList := by
      intro statement hstatement
      cases htemplate : isTemplate statement.toList with
      | true =>
        obtain ⟨-, hremarks⟩ := htemplates statement hstatement htemplate
        obtain ⟨line, hline, hcomment⟩ := exists_comment_of_template htemplate hremarks
        exact absurd hcomment (hlines statement hstatement line hline)
      | false => exact ⟨rfl, hstatements statement hstatement htemplate⟩
    have hfirst : ∀ line ∈ [commentLine ("Uncomment the block below to apply it, after " ++
        "confirming that no running version").toList,
        commentLine "of the application still depends on what it removes.".toList],
        IsRemark line := by
      refine List.forall_mem_cons.mpr ⟨?_, List.forall_mem_singleton.mpr ?_⟩
      · exact isRemark_commentLine (by decide) rfl (by decide)
      · exact isRemark_commentLine (by decide) rfl (by decide)
    have hwritten := hblank.append (hcomments.append ((AfterEdit.warning hnewline).append
      ((AfterEdit.remarks hfirst).append (AfterEdit.block hwritable hlines))))
    rw [writeOperation, hdestructive, if_pos rfl]
    exact hwritten
  | false =>
    rw [hdestructive] at hstatements
    rw [writeOperation, hdestructive]
    exact hblank.append (hcomments.append (AfterEdit.plain htemplates hstatements))

/-- The up section, after the edit. -/
lemma Plan.Legible.afterEdit {plan : Plan} {id : MigrationId} {snapshot : Option String}
    (h : plan.Legible unicode id snapshot) (hmanual : ¬ plan.IsManual) :
    AfterEdit unicode fileName (plan.operations.flatMap fun operation =>
      if operation.up = [] then [] else [] :: writeOperation operation) plan.statements := by
  refine .flatMap fun operation hmem => ?_
  split_ifs with hempty
  · rw [hempty]
    exact .of_carries .nil .nil
  · exact .operation h hmanual hmem hempty

end AfterEdit

/-! ### The header and the down section -/

section Kept

variable {unicode : Char → Bool} {id : MigrationId} {plan : Plan} {snapshot : Option String}

lemma Plan.Legible.edits_header (h : plan.Legible unicode id snapshot) :
    Edits (writeHeader id plan snapshot) (writeHeader id plan snapshot) := by
  have hflag : ∀ line ∈ writeHeader id plan snapshot,
      '\n' ∉ line ∧ trim (trimEnd line) ≠ destructiveMarker.toList := by
    have hremark : ∀ {line : List Char}, IsRemark line →
        '\n' ∉ line ∧ trim (trimEnd line) ≠ destructiveMarker.toList := fun hline =>
      ⟨hline.newline, ne_destructive_of_not_isMarker hline.marker⟩
    intro line hline
    simp only [writeHeader, List.cons_append, List.append_assoc, List.mem_cons, List.mem_append,
      List.mem_map] at hline
    rcases hline with rfl | hline | rfl | hline | hline | rfl | ⟨operation, hmem, rfl⟩
    · exact hremark (isRemark_fileName h.version h.name)
    · cases snapshot with
      | none => simp at hline
      | some snapshot =>
        obtain rfl := List.mem_singleton.mp hline
        have hnewline := h.snapshot snapshot rfl
        have hdirective : ("moso:generated-from .schema.json@" ++ snapshot).toList =
            'm' :: ("oso:generated-from .schema.json@".toList ++ snapshot.toList) := by
          simp [String.toList_append]
        refine ⟨by simp [commentLine, String.toList_append, hnewline], ?_⟩
        dsimp only
        rw [hdirective]
        exact ne_destructive_of_not_isMarker (not_isMarker_commentLine rfl (by decide))
    · cases plan.isReversible <;> exact ⟨by decide, by decide⟩
    · split_ifs at hline
      · obtain rfl := List.mem_singleton.mp hline
        exact ⟨by decide, by decide⟩
      · cases hline
    · split_ifs at hline
      · obtain rfl := List.mem_singleton.mp hline
        exact ⟨by decide, by decide⟩
      · cases hline
    · exact ⟨by decide, by decide⟩
    · exact hremark (h.plain.descriptions operation hmem)
  exact .of_pieces (fun line hline => (hflag line hline).1) fun line hline => (hflag line hline).2

lemma Plan.Legible.edits_down (h : plan.Legible unicode id snapshot)
    (hreversible : plan.isReversible = true) : Edits (writeDown plan) (writeDown plan) := by
  have hmarker : Edits [[], downMarker.toList] [[], downMarker.toList] :=
    .of_pieces (by decide) (by decide)
  refine hmarker.append (.flatMap fun operation hmem => ?_)
  have hmem := List.mem_reverse.mp hmem
  split_ifs
  · exact .nil
  · have hdescription := (h.plain.descriptions operation hmem).undo
    have hstatements : ∀ down : List String, (∀ statement ∈ down, Unmarked unicode statement.toList) →
        Edits (down.map fun statement => statement.toList ++ [';'])
          (down.map fun statement => statement.toList ++ [';']) := by
      intro down hdown
      induction down with
      | nil => exact .nil
      | cons statement down ih =>
        exact (hdown statement List.mem_cons_self).edits.append
          (ih fun other hother => hdown other (List.mem_cons_of_mem _ hother))
    have hblank : Edits [[]] [[]] := .of_pieces (by simp) (by decide)
    have hremark : Edits [commentLine ("undo: " ++ operation.description).toList]
        [commentLine ("undo: " ++ operation.description).toList] :=
      .remarks (List.forall_mem_singleton.mpr hdescription)
    exact hblank.append (hremark.append
      (hstatements operation.down (h.writable.down hreversible operation hmem)))

end Kept

/-! ### Both ways -/

section Acknowledged

variable {unicode : Char → Bool} {digest : List Char → String} {id : MigrationId} {plan : Plan}
  {snapshot : Option String}

/-- Lines that are written out are read as they are. -/
lemma foldlM_lines_unlines {fileName : String} (s : FileReader) {ls : List (List Char)}
    (hls : ∀ l ∈ ls, '\n' ∉ l) :
    (lines (unlines ls)).foldlM (FileReader.step unicode fileName) s =
      ls.foldlM (FileReader.step unicode fileName) s := by
  rw [← FileReader.foldlM_map_trimEnd, Text.map_trimEnd_lines_unlines hls,
    FileReader.foldlM_map_trimEnd]

variable (digest) in
/-- The edited file runs the plan in its order, and has nothing pending. -/
lemma Plan.Legible.parseFile_uncomment (h : plan.Legible unicode id snapshot)
    (hmanual : ¬ plan.IsManual) :
    ∃ edited : MigrationFile, parseFile unicode digest (id.fileName "sql")
        (uncomment (writeMigration id plan snapshot)) = .ok edited ∧
      edited.up = plan.statements.map String.ofList ∧ edited.pendingDestructive = [] := by
  obtain ⟨ps, hedits, hcarries⟩ :
    AfterEdit unicode (id.fileName "sql") _ plan.statements := h.afterEdit hmanual
  have hdown : Edits (if plan.isReversible then writeDown plan else [])
      (if plan.isReversible then writeDown plan else []) := by
    split_ifs with hreversible
    · exact h.edits_down hreversible
    · exact .nil
  have hmarker : Edits [[], upMarker.toList] [[], upMarker.toList] :=
    .of_pieces (by decide) (by decide)
  have hall := (h.edits_header.append ((hmarker.append hedits).append hdown)) []
  rw [List.append_nil, uncommentLines, List.append_nil] at hall
  have hcontent : uncomment (writeMigration id plan snapshot) =
      String.ofList (unlines (lines (unlines (writeHeader id plan snapshot ++
        ([] :: upMarker.toList :: ps ++ if plan.isReversible then writeDown plan else []))))) := by
    rw [uncomment, toList_writeMigration]
    exact congrArg (fun ls => String.ofList (unlines ls)) hall
  have hread : ∀ s, (lines (uncomment (writeMigration id plan snapshot)).toList).foldlM
      (FileReader.step unicode (id.fileName "sql")) s =
        FileReader.readText unicode (id.fileName "sql") s (unlines (writeHeader id plan snapshot ++
          ([] :: upMarker.toList :: ps ++
            if plan.isReversible then writeDown plan else []))) := by
    intro s
    rw [hcontent, String.toList_ofList,
      foldlM_lines_unlines _ fun _ => Text.newline_notMem_of_mem_lines]
    rfl
  obtain ⟨edited, hparse, hup, hpending, -⟩ := hcarries.exists_parseFile h.version h.name
    h.snapshot h.plain h.writable digest hread
  exact ⟨edited, hparse, hup, List.map_eq_nil_iff.mp hpending⟩

variable (digest) in
/-- The file as it is written has what is destructive pending. -/
lemma Plan.Legible.parseFile_write (h : plan.Legible unicode id snapshot) :
    ∃ file : MigrationFile, parseFile unicode digest (id.fileName "sql")
        (writeMigration id plan snapshot) = .ok file ∧
      file.up = plan.upStatements.map String.ofList ∧
      file.pendingDestructive.map (·.statements) =
        plan.destructiveStatements.map (·.map String.ofList) := by
  have hcarries : Carries unicode (id.fileName "sql") _ plan.upStatements
    plan.destructiveStatements := h.plain.carries_up h.writable
  have hread : ∀ s, (lines (writeMigration id plan snapshot).toList).foldlM
      (FileReader.step unicode (id.fileName "sql")) s =
        FileReader.readText unicode (id.fileName "sql") s
          (unlines (writeHeader id plan snapshot ++ ([] :: upMarker.toList ::
            (plan.operations.flatMap fun operation =>
              if operation.up = [] then [] else [] :: writeOperation operation) ++
            if plan.isReversible then writeDown plan else []))) := by
    intro s
    rw [toList_writeMigration, FileReader.readText]
  obtain ⟨file, hparse, hup, hpending, -⟩ := hcarries.exists_parseFile h.version h.name
    h.snapshot h.plain h.writable digest hread
  exact ⟨file, hparse, hup, hpending⟩

/-- A plan with something to be written by hand has a block without statements. -/
lemma Plan.forall_destructiveStatements_ne_nil :
    (∀ block ∈ plan.destructiveStatements, block ≠ []) ↔ ¬ plan.IsManual := by
  constructor
  · rintro h ⟨operation, hmem, hdestructive, hup, hnone⟩
    refine h _ (List.mem_flatMap.mpr ⟨operation, hmem, ?_⟩) hnone
    rw [if_pos ⟨hdestructive, hup⟩]
    exact List.mem_singleton_self _
  · intro hmanual block hblock hnone
    obtain ⟨operation, hmem, hblock⟩ := List.mem_flatMap.mp hblock
    split_ifs at hblock with hdestructive
    · obtain rfl := List.mem_singleton.mp hblock
      exact hmanual ⟨operation, hmem, hdestructive.1, hdestructive.2, hnone⟩
    · cases hblock

/-- When no statement that is not destructive follows one that is, the flag keeps the order. -/
lemma Plan.keepsOrder_of_pairwise
    (h : plan.operations.Pairwise fun operation later =>
      operation.destructive = true → later.destructive = false →
        statementsOf operation.up = [] ∨ statementsOf later.up = []) : plan.KeepsOrder := by
  rw [KeepsOrder, upStatements, destructiveStatements, statements]
  generalize plan.operations = operations at h
  induction operations with
  | nil => rfl
  | cons operation operations ih =>
    obtain ⟨hhead, htail⟩ := List.pairwise_cons.mp h
    have hrest := ih htail
    simp only [List.flatMap_cons]
    cases hdestructive : operation.destructive with
    | false =>
      simp only [Bool.false_eq_true, if_false, false_and, List.nil_append, List.append_assoc]
      rw [hrest]
    | true =>
      by_cases hnone : statementsOf operation.up = []
      · have hblock : (if True ∧ operation.up ≠ [] then [([] : List (List Char))] else []).flatten =
            [] := by
          split_ifs <;> rfl
        simp only [if_true, List.flatten_append, hblock, hnone, List.nil_append]
        exact hrest
      · have hup : operation.up ≠ [] := by
          rintro hup
          rw [hup] at hnone
          exact hnone rfl
        -- whatever follows is destructive, or empty
        have hsafe : (operations.flatMap fun later =>
            if later.destructive then [] else statementsOf later.up) = [] := by
          refine List.flatMap_eq_nil_iff.mpr fun later hlater => ?_
          cases hlaterDestructive : later.destructive with
          | true => rfl
          | false => exact (hhead later hlater hdestructive hlaterDestructive).resolve_left hnone
        rw [hsafe] at hrest ⊢
        simp [hup, ← hrest]

end Acknowledged

/-- Plans of one table that is created and one that is dropped. -/
lemma legible_of_forall {operations : List Operation}
    (h : ∀ operation ∈ operations,
      operation = { description := "create", up := ["CREATE TABLE b (c text)"] } ∨
        operation = { description := "drop", up := ["DROP TABLE b"], destructive := true }) :
    Plan.Legible { operations := operations } (fun _ => false) ⟨20260101000000, "a"⟩ none := by
  refine ⟨by decide, by decide, by simp, ⟨fun operation hmem => ?_, fun operation hmem => ?_,
    fun operation hmem => ?_⟩, ⟨fun operation hmem => ?_, fun _ operation hmem => ?_⟩,
    fun operation hmem => ?_⟩ <;>
  rcases h operation hmem with rfl | rfl
  · exact isRemark_commentLine (by decide) rfl (by decide)
  · exact isRemark_commentLine (by decide) rfl (by decide)
  · simp
  · simp
  · exact List.forall_mem_singleton.mpr fun htemplate => absurd htemplate (by decide)
  · exact List.forall_mem_singleton.mpr fun htemplate => absurd htemplate (by decide)
  · exact List.forall_mem_singleton.mpr fun _ =>
      ⟨⟨by decide, by decide, by decide, by simp only [Tidy]; decide⟩,
        by simp only [IsMarker]; decide⟩
  · exact List.forall_mem_singleton.mpr fun _ =>
      ⟨⟨by decide, by decide, by decide, by simp only [Tidy]; decide⟩, by decide⟩
  · simp
  · simp
  · exact fun hdestructive => absurd hdestructive (by decide)
  · exact fun _ _ => List.forall_mem_singleton.mpr (by decide)

end Moso.Migrate
