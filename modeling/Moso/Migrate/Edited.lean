import Moso.Migrate.File
import Moso.Migrate.Squash

/-!
# Edits of applied migrations

The checksum of a migration is taken of its content, and its content is all that the parser
reads: an edit that leaves the checksum leaves the migration. What `status` does not compare are
the checksums of baselines.
-/

namespace Moso.Migrate

open Text (lines trimEnd content unlines)
open Splitter (splitStatements)

/-! ### Blank lines -/

/-- The same text without its blank lines. -/
def Condensed (text text' : List Char) : Prop :=
  ∃ ls, text = unlines ls ∧ text' = unlines (ls.filter fun l => l ≠ [])

namespace Condensed

variable {text text' line : List Char}

lemma nil : Condensed [] [] := ⟨[], rfl, rfl⟩

lemma push (h : Condensed text text') (hline : line ≠ []) :
    Condensed (text ++ line ++ ['\n']) (text' ++ line ++ ['\n']) := by
  obtain ⟨ls, rfl, rfl⟩ := h
  refine ⟨ls ++ [line], by simp, ?_⟩
  rw [List.filter_append, List.filter_cons_of_pos (by simpa using hline)]
  simp

lemma blank (h : Condensed text text') : Condensed (text ++ [] ++ ['\n']) text' := by
  obtain ⟨ls, rfl, rfl⟩ := h
  exact ⟨ls ++ [[]], by simp, by simp⟩

lemma splitStatements_eq (h : Condensed text text') (unicode : Char → Bool) :
    splitStatements unicode text = splitStatements unicode text' := by
  obtain ⟨ls, rfl, rfl⟩ := h
  exact Splitter.splitStatements_unlines unicode ls

end Condensed

namespace FileReader

variable {unicode : Char → Bool} {fileName : String} {s s' t : FileReader} {line : List Char}

/-- Two readers that differ in the blank lines of the sections. -/
def Condenses (s s' : FileReader) : Prop :=
  ∃ up down, s' = { s with up := up, down := down } ∧ Condensed s.up up ∧ Condensed s.down down

lemma Condenses.push (h : s.Condenses s') (hline : line ≠ []) :
    (s.push line).Condenses (s'.push line) := by
  obtain ⟨up, down, rfl, hup, hdown⟩ := h
  rw [FileReader.push, FileReader.push]
  split_ifs
  · exact ⟨up, _, rfl, hup, hdown.push hline⟩
  · exact ⟨_, down, rfl, hup.push hline, hdown⟩

lemma Condenses.blank (h : s.Condenses s') : (s.push []).Condenses s' := by
  obtain ⟨up, down, rfl, hup, hdown⟩ := h
  rw [FileReader.push]
  split_ifs
  · exact ⟨up, down, rfl, hup, hdown.blank⟩
  · exact ⟨up, down, rfl, hup.blank, hdown⟩

/-- Both fail alike, or go on to readers that differ in blank lines. -/
def SameResult : Except Malformed FileReader → Except Malformed FileReader → Prop
  | .ok s, .ok s' => s.Condenses s'
  | .error e, .error e' => e = e'
  | _, _ => False

/-- A line is read without its trailing white space. -/
lemma step_trimEnd : s.step unicode fileName (trimEnd line) = s.step unicode fileName line := by
  rw [step, step, Text.trimEnd_trimEnd]

variable (unicode) in
lemma readDestructive_condenses (reason buffer : List Char) (h : s.Condenses s')
    (hline : line ≠ []) :
    (s.readDestructive unicode reason buffer line).Condenses
      (s'.readDestructive unicode reason buffer line) := by
  have hpush := h.push hline
  obtain ⟨up, down, rfl, hup, hdown⟩ := h
  rw [readDestructive, readDestructive]
  by_cases hend : Decimal.trim line = endMarker.toList
  · rw [if_pos hend, if_pos hend]
    exact ⟨up, down, rfl, hup, hdown⟩
  · rw [if_neg hend, if_neg hend]
    cases stripPrefix "--" (Decimal.trim line) with
    | some rest => exact ⟨up, down, rfl, hup, hdown⟩
    | none => exact hpush

variable (fileName) in
lemma readHeader_condenses (compact : List Char) (h : s.Condenses s') :
    SameResult (s.readHeader fileName compact) (s'.readHeader fileName compact) := by
  obtain ⟨up, down, rfl, hup, hdown⟩ := h
  rw [readHeader, readHeader]
  cases stripPrefix "-- moso:" compact with
  | none => exact ⟨up, down, rfl, hup, hdown⟩
  | some directive =>
    dsimp only
    cases applyDirective s.file (Decimal.trim directive) fileName with
    | error e => rfl
    | ok file => exact ⟨up, down, rfl, hup, hdown⟩

variable (unicode fileName) in
lemma step_condenses (h : s.Condenses s') (hline : trimEnd line ≠ []) :
    SameResult (s.step unicode fileName line) (s'.step unicode fileName line) := by
  have hpush := h.push hline
  have hheader := readHeader_condenses fileName (Decimal.trim (trimEnd line)) h
  have hdestructive := fun reason buffer =>
    readDestructive_condenses unicode reason buffer h hline
  obtain ⟨up, down, rfl, hup, hdown⟩ := h
  obtain ⟨file, inSection, _, _, inDestructive, lastWarning, sawUpMarker⟩ := s
  rw [step, step]
  cases inDestructive with
  | some block => exact hdestructive block.1 block.2
  | none =>
    dsimp only
    split_ifs
    · exact ⟨up, down, rfl, hup, hdown⟩
    · exact ⟨up, down, rfl, hup, hdown⟩
    · exact ⟨up, down, rfl, hup, hdown⟩
    · exact ⟨up, down, rfl, hup, hdown⟩
    · cases warning (Decimal.trim (trimEnd line)) with
      | some warning => exact ⟨up, down, rfl, hup, hdown⟩
      | none => exact hheader
    · cases warning (Decimal.trim (trimEnd line)) with
      | some warning => exact ⟨up, down, rfl, hup, hdown⟩
      | none => exact hpush

variable (unicode fileName) in
lemma step_blank (h : s.Condenses s') (hline : trimEnd line = []) :
    ∃ t, s.step unicode fileName line = .ok t ∧ t.Condenses s' := by
  have hblank := h.blank
  obtain ⟨file, inSection, _, _, inDestructive, lastWarning, sawUpMarker⟩ := s
  rw [step, hline]
  cases inDestructive with
  | some block => exact ⟨_, rfl, hblank⟩
  | none =>
    cases inSection with
    | header => exact ⟨_, rfl, h⟩
    | up => exact ⟨_, rfl, hblank⟩
    | down => exact ⟨_, rfl, hblank⟩

variable (unicode fileName) in
/-- The lines that are blank can be left out. -/
lemma foldlM_condenses (h : s.Condenses s') (ls : List (List Char)) :
    SameResult (ls.foldlM (step unicode fileName) s)
      (((ls.map trimEnd).filter fun l => l ≠ []).foldlM (step unicode fileName) s') := by
  induction ls generalizing s s' with
  | nil => exact h
  | cons l ls ih =>
    by_cases hl : trimEnd l = []
    · obtain ⟨t, hstep, ht⟩ := step_blank unicode fileName h hl
      rw [List.map_cons, List.filter_cons_of_neg (by simpa using hl), List.foldlM_cons, hstep]
      exact ih ht
    · have hstep := step_condenses unicode fileName h hl
      rw [List.map_cons, List.filter_cons_of_pos (by simpa using hl), List.foldlM_cons,
        List.foldlM_cons, step_trimEnd]
      cases hs : s.step unicode fileName l with
      | error e =>
        cases hs' : s'.step unicode fileName l with
        | error e' =>
          rw [hs, hs'] at hstep
          exact hstep
        | ok t' =>
          rw [hs, hs'] at hstep
          exact hstep.elim
      | ok t =>
        cases hs' : s'.step unicode fileName l with
        | error e' =>
          rw [hs, hs'] at hstep
          exact hstep.elim
        | ok t' =>
          rw [hs, hs'] at hstep
          exact ih hstep

lemma finish_condenses (h : s.Condenses s') :
    s.finish unicode fileName = s'.finish unicode fileName := by
  obtain ⟨up, down, rfl, hup, hdown⟩ := h
  rw [finish, finish]
  dsimp only
  rw [hup.splitStatements_eq, hdown.splitStatements_eq]

end FileReader

/-- What is parsed is the content of the file. -/
theorem parseFile_eq_of_content {unicode : Char → Bool} {digest : List Char → String}
    {fileName text text' : String} (h : content text.toList = content text'.toList) :
    parseFile unicode digest fileName text = parseFile unicode digest fileName text' := by
  have hread : ∀ (file : MigrationFile) (text : List Char),
      ((lines text).foldlM (FileReader.step unicode fileName) { file := file } >>=
          FileReader.finish unicode fileName) =
        ((content text).foldlM (FileReader.step unicode fileName) { file := file } >>=
          FileReader.finish unicode fileName) := by
    intro file text
    have hstart : FileReader.Condenses { file := file } { file := file } :=
      ⟨[], [], rfl, .nil, .nil⟩
    have hsame := FileReader.foldlM_condenses unicode fileName hstart (lines text)
    rw [content]
    generalize (lines text).foldlM (FileReader.step unicode fileName) { file := file } = r at hsame ⊢
    generalize (((lines text).map trimEnd).filter fun l => l ≠ []).foldlM
      (FileReader.step unicode fileName) { file := file } = r' at hsame ⊢
    cases r with
    | error e =>
      cases r' with
      | error e' => exact congrArg Except.error hsame
      | ok s' => exact hsame.elim
    | ok s =>
      cases r' with
      | error e' => exact hsame.elim
      | ok s' => exact FileReader.finish_condenses hsame
  rw [parseFile, parseFile, normalise, normalise, h]
  cases parseId fileName with
  | error e => rfl
  | ok id =>
    have hsame := hread
      { id := id
        checksum := digest (['\n'].intercalate (content text'.toList))
        up := [] } text.toList
    rw [h] at hsame
    exact hsame.trans (hread _ _).symm

/-- A checksum that is the same is of the same content. -/
lemma content_eq_of_normalise {text text' : String} (h : normalise text = normalise text') :
    content text.toList = content text'.toList := by
  have hnewline : ∀ text : String, ∀ l ∈ content text.toList, '\n' ∉ l := fun text l =>
    Text.newline_notMem_of_mem_content
  have hne : ∀ text : String, ∀ l ∈ content text.toList, l ≠ [] := fun text l hl =>
    of_decide_eq_true (List.mem_filter.mp hl).2
  -- the lines are what lies between the newlines, when there are lines at all
  have hnil : ∀ text : String, normalise text = [] → content text.toList = [] := by
    intro text hempty
    rw [normalise] at hempty
    cases hcontent : content text.toList with
    | nil => rfl
    | cons l ls =>
      have hl := hne text l (by simp [hcontent])
      rw [hcontent] at hempty
      cases ls <;> simp_all [List.intercalate]
  by_cases hempty : normalise text = []
  · rw [hnil text hempty, hnil text' (h ▸ hempty)]
  · have hcontent : ∀ text : String, normalise text ≠ [] → content text.toList ≠ [] := by
      intro text hne hcontent
      exact hne (by rw [normalise, hcontent]; rfl)
    rw [← List.splitOn_intercalate '\n' (hnewline text) (hcontent text hempty),
      ← List.splitOn_intercalate '\n' (hnewline text') (hcontent text' (h ▸ hempty))]
    exact congrArg (List.splitOn '\n') h

/-! ### What a parsed file keeps -/

/-- The name and the checksum are there from the start. -/
def FileReader.Keeps (s t : FileReader) : Prop :=
  t.file.id = s.file.id ∧ t.file.checksum = s.file.checksum

lemma applyDirective_keeps {file file' : MigrationFile} {directive : List Char} {fileName : String}
    (h : applyDirective file directive fileName = .ok file') :
    file'.id = file.id ∧ file'.checksum = file.checksum := by
  obtain ⟨_, _, _, _, _, rfl⟩ := eq_of_applyDirective h
  exact ⟨rfl, rfl⟩

namespace FileReader

variable {unicode : Char → Bool} {fileName : String} {s t : FileReader} {line : List Char}

lemma push_keeps : s.Keeps (s.push line) := by
  rw [FileReader.push]
  split_ifs <;> exact ⟨rfl, rfl⟩

lemma readDestructive_keeps {reason buffer : List Char} :
    s.Keeps (s.readDestructive unicode reason buffer line) := by
  rw [readDestructive]
  by_cases hend : Decimal.trim line = endMarker.toList
  · rw [if_pos hend]
    exact ⟨rfl, rfl⟩
  · rw [if_neg hend]
    cases stripPrefix "--" (Decimal.trim line) with
    | some rest => exact ⟨rfl, rfl⟩
    | none => exact push_keeps

lemma readHeader_keeps (h : s.readHeader fileName line = .ok t) : s.Keeps t := by
  rw [readHeader] at h
  split at h
  · obtain ⟨file, hfile, h⟩ := Fallible.bind_eq_ok.mp h
    obtain rfl := Except.ok.inj h
    exact applyDirective_keeps hfile
  · obtain rfl := Except.ok.inj h
    exact ⟨rfl, rfl⟩

lemma step_keeps (h : s.step unicode fileName line = .ok t) : s.Keeps t := by
  rw [step] at h
  dsimp only at h
  split at h
  · obtain rfl := Except.ok.inj h
    exact readDestructive_keeps
  · split_ifs at h
    · obtain rfl := Except.ok.inj h
      exact ⟨rfl, rfl⟩
    · obtain rfl := Except.ok.inj h
      exact ⟨rfl, rfl⟩
    · obtain rfl := Except.ok.inj h
      exact ⟨rfl, rfl⟩
    · obtain rfl := Except.ok.inj h
      exact ⟨rfl, rfl⟩
    · split at h
      · obtain rfl := Except.ok.inj h
        exact ⟨rfl, rfl⟩
      · exact readHeader_keeps h
    · split at h
      · obtain rfl := Except.ok.inj h
        exact ⟨rfl, rfl⟩
      · obtain rfl := Except.ok.inj h
        exact push_keeps

lemma foldlM_keeps {ls : List (List Char)} (h : ls.foldlM (step unicode fileName) s = .ok t) :
    s.Keeps t := by
  induction ls generalizing s with
  | nil =>
    obtain rfl := Except.ok.inj h
    exact ⟨rfl, rfl⟩
  | cons l ls ih =>
    rw [List.foldlM_cons] at h
    obtain ⟨s', hstep, h⟩ := Fallible.bind_eq_ok.mp h
    have hfirst := step_keeps hstep
    have hrest := ih h
    exact ⟨hrest.1.trans hfirst.1, hrest.2.trans hfirst.2⟩

end FileReader

/-- The version and the name come from the file's name, the checksum from its content. -/
lemma parseFile_eq_ok {unicode : Char → Bool} {digest : List Char → String}
    {fileName text : String} {file : MigrationFile}
    (h : parseFile unicode digest fileName text = .ok file) :
    parseId fileName = .ok file.id ∧ file.checksum = digest (normalise text) := by
  obtain ⟨id, hid, h⟩ := Fallible.bind_eq_ok.mp h
  obtain ⟨reader, hread, h⟩ := Fallible.bind_eq_ok.mp h
  obtain ⟨hkeptId, hkeptSum⟩ := FileReader.foldlM_keeps hread
  rw [FileReader.finish] at h
  split at h
  · cases h
  · split_ifs at h
    obtain rfl := Except.ok.inj h
    exact ⟨hid.trans (congrArg Except.ok hkeptId.symm), hkeptSum⟩

/-! ### What `status` reports -/

/-- Two files that do the same to a database. -/
def MigrationFile.SameEffect (file file' : MigrationFile) : Prop :=
  file.up = file'.up ∧ file.pendingDestructive = file'.pendingDestructive ∧
    file.down = file'.down ∧ file.reversible = file'.reversible ∧
    file.transactional = file'.transactional ∧ file.lockTimeout = file'.lockTimeout ∧
    file.statementTimeout = file'.statementTimeout ∧ file.replaces = file'.replaces

/-- Whatever was applied and recorded under the name of a file, if the file now is `text` and
`status` does not report it as changed, then it does what was applied. -/
def EditsDetected (unicode : Char → Bool) (digest : List Char → String)
    (fileName text : String) : Prop :=
  ∀ (before : String) (applied edited : MigrationFile) (runner : Runner)
    (rows : List AppliedMigration),
    parseFile unicode digest fileName before = .ok applied →
    parseFile unicode digest fileName text = .ok edited →
    (∃ row ∈ rows, row.version = applied.version ∧ row.checksum = applied.checksum) →
    edited ∈ runner.files → (runner.files.map (·.version)).Nodup →
    (∀ migration ∈ runner.rust, migration.version ≠ edited.version) →
    edited.version ∉ (runner.statusOf rows).changed.map Prod.fst → applied.SameEffect edited

/-- Every edit of a file without a `replaces` header is noticed, and only of such a file. -/
theorem editsDetected_iff {unicode : Char → Bool} {digest : List Char → String}
    (hdigest : Function.Injective digest) {fileName text : String} {edited : MigrationFile}
    (hparse : parseFile unicode digest fileName text = .ok edited) :
    EditsDetected unicode digest fileName text ↔ edited.replaces = [] := by
  constructor
  · intro hdetected
    by_contra hreplaces
    obtain ⟨hid, -⟩ := parseFile_eq_ok hparse
    -- a file without statements or flags was applied, and then replaced by this one
    obtain ⟨applied, happlied, hversion, hnone⟩ : ∃ applied,
        parseFile unicode digest fileName upMarker = .ok applied ∧
          applied.version = edited.version ∧ applied.replaces = [] := by
      refine ⟨{ id := edited.id, checksum := digest (normalise upMarker), up := [] }, ?_, rfl, rfl⟩
      rw [parseFile, hid]
      rfl
    have hdisk : (Runner.onDisk ⟨.sqlite, [edited], []⟩).get? edited.version =
        some (edited.version, edited.checksum, !edited.replaces.isEmpty) :=
      Runner.get?_onDisk (by simp) (by simp) (by simp)
    have hchanged : (Runner.statusOf ⟨.sqlite, [edited], []⟩
        [Squash.recordedRow applied]).changed = [] := by
      have hrow : (Squash.recordedRow applied).version = edited.version := hversion
      simp [Runner.statusOf, hrow, hdisk, hreplaces]
    have heffect := hdetected upMarker applied edited ⟨.sqlite, [edited], []⟩
      [Squash.recordedRow applied] happlied hparse
      ⟨_, List.mem_singleton_self _, rfl, rfl⟩ (by simp) (by simp) (by simp) (by simp [hchanged])
    exact hreplaces (heffect.2.2.2.2.2.2.2.symm.trans hnone)
  · rintro hreplaces before applied edited' runner rows hbefore hedited ⟨row, hrow, hversion, hsum⟩
      hfile hnodup hrust hunchanged
    obtain rfl : edited = edited' := Except.ok.inj (hparse.symm.trans hedited)
    obtain ⟨hid, happlied⟩ := parseFile_eq_ok hbefore
    obtain ⟨hid', hchecksum⟩ := parseFile_eq_ok hparse
    have hsame : applied.id = edited.id := Except.ok.inj (hid.symm.trans hid')
    have hdisk := Runner.get?_onDisk hnodup hfile hrust
    have hequal : edited.checksum = row.checksum := by
      by_contra hne
      refine hunchanged (List.mem_map.mpr ⟨(edited.version, row.checksum, edited.checksum), ?_, rfl⟩)
      refine List.mem_filterMap.mpr ⟨row, hrow, ?_⟩
      have hrowVersion : row.version = edited.version :=
        hversion.trans (congrArg MigrationId.version hsame)
      rw [hrowVersion, hdisk]
      simp [hne, hreplaces]
    have hcontent := content_eq_of_normalise (hdigest
      (happlied.symm.trans (hsum.symm.trans (hequal.symm.trans hchecksum))))
    have hparsed : parseFile unicode digest fileName before =
        parseFile unicode digest fileName text := parseFile_eq_of_content hcontent
    obtain rfl : applied = edited := Except.ok.inj (hbefore.symm.trans (hparsed.trans hparse))
    exact ⟨rfl, rfl, rfl, rfl, rfl, rfl, rfl, rfl⟩

theorem editsDetected_iff_plain :
    EditsDetected (fun _ => false) String.ofList "20260101T000000_a.sql"
        "-- +migrate up\nSELECT 1\n" ↔ ([] : List Version) = [] := by
  have hparse : parseFile (fun _ => false) String.ofList "20260101T000000_a.sql"
      "-- +migrate up\nSELECT 1\n" = .ok
        { id := ⟨20260101000000, "a"⟩
          checksum := "-- +migrate up\nSELECT 1"
          up := ["SELECT 1"] } := rfl
  exact editsDetected_iff (fun _ _ => String.ofList_inj.mp) hparse

/-- A baseline that was itself applied, and then edited. -/
theorem editsDetected_fails_for_baseline :
    ¬ EditsDetected (fun _ => false) String.ofList "20260101T000000_a.sql"
      "-- moso:replaces 20260101000000\n-- +migrate up\nSELECT 2\n" := by
  intro hdetected
  let baseline (checksum statement : String) : MigrationFile :=
    { id := ⟨20260101000000, "a"⟩
      checksum := checksum
      up := [statement]
      replaces := [20260101000000] }
  let applied := baseline "-- moso:replaces 20260101000000\n-- +migrate up\nSELECT 1" "SELECT 1"
  let edited := baseline "-- moso:replaces 20260101000000\n-- +migrate up\nSELECT 2" "SELECT 2"
  have heffect := hdetected "-- moso:replaces 20260101000000\n-- +migrate up\nSELECT 1\n"
    applied edited ⟨.sqlite, [edited], []⟩ [Squash.recordedRow applied] rfl rfl
    ⟨_, List.mem_singleton_self _, rfl, rfl⟩ (List.mem_singleton_self _) (by decide) (by decide)
    (by decide)
  exact absurd heffect.1 (by decide)

end Moso.Migrate
