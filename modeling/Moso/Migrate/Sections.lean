import Moso.Migrate.File

/-!
# The sections of a migration

Where every line of a file stands, told apart from what the parser does with it: the lines above
the first section, those of the up and the down sections, and the blocks that are still commented,
each with the section it stands in. What goes up should be written to go up.
-/

namespace Moso.Migrate

open Decimal (trim)
open Text (lines trimEnd)
open Splitter (splitStatements)

/-! ### Where the lines stand -/

/-- The text of the sections, and the open block if there is one. -/
structure Placement where
  inSection : FileSection := .header
  commented : Option (List Char) := none
  header : List Char := []
  up : List Char := []
  down : List Char := []
  /-- The blocks that are commented, if more than blank, and where they stand. -/
  blocks : List (FileSection × List Char) := []

namespace Placement

/-- A line that is not a comment of a block, in its section. -/
def write (p : Placement) (line : List Char) : Placement :=
  match p.inSection with
  | .header => { p with header := p.header ++ line ++ ['\n'] }
  | .up     => { p with up := p.up ++ line ++ ['\n'] }
  | .down   => { p with down := p.down ++ line ++ ['\n'] }

def close (p : Placement) (commented : List Char) : Placement :=
  { p with
    commented := none
    blocks := p.blocks ++ if trim commented = [] then [] else [(p.inSection, commented)] }

/-- A line of a block. -/
def placeInBlock (p : Placement) (commented line : List Char) : Placement :=
  let compact := trim line
  if compact = endMarker.toList then p.close commented
  else
    match stripPrefix "--" compact with
    | some rest =>
      { p with commented := some (commented ++ (stripPrefix " " rest).getD rest ++ ['\n']) }
    | none => p.write line

/-- The next line of the file. Directives, notes and warnings belong to no section. -/
def place (p : Placement) (line : List Char) : Placement :=
  let line := trimEnd line
  let compact := trim line
  match p.commented with
  | some commented => p.placeInBlock commented line
  | none =>
    if compact = upMarker.toList then { p with inSection := .up }
    else if compact = downMarker.toList then { p with inSection := .down }
    else if compact = destructiveMarker.toList then { p with commented := some [] }
    else if (FileReader.warning compact).isSome ∨ p.inSection = .header then p
    else p.write line

end Placement

def placement (text : String) : Placement := (lines text.toList).foldl Placement.place {}

/-! ### What may run -/

variable (unicode : Char → Bool)

/-- The statements of a text. -/
def statementsIn (text : List Char) : List String :=
  (splitStatements unicode text).map String.ofList

namespace Placement

/-- The statement is written in the up section, and uncommented or allowed. -/
def GoesUp (p : Placement) (allowDestructive : Bool) (statement : String) : Prop :=
  statement ∈ statementsIn unicode p.up ∨
    allowDestructive = true ∧
      ∃ text, (.up, text) ∈ p.blocks ∧ statement ∈ statementsIn unicode text

/-- What a file runs going up was written to go up, and what it runs going down to go down. -/
structure Separates (p : Placement) (file : MigrationFile) : Prop where
  up : ∀ allowDestructive statements, file.statementsToApply allowDestructive = .ok statements →
    ∀ statement ∈ statements, p.GoesUp unicode allowDestructive statement
  down : ∀ statement ∈ file.down, statement ∈ statementsIn unicode p.down

/-- A block has nothing but remarks: it has to be written by hand. -/
def HasTemplate (p : Placement) : Prop := ∃ block ∈ p.blocks, statementsIn unicode block.2 = []

/-- Nothing outside the up section adds a statement to it: neither what is written above the first
section, nor a block. -/
def NoneStrays (p : Placement) : Prop :=
  (∀ statement ∈ statementsIn unicode (p.header ++ p.up), p.GoesUp unicode true statement) ∧
    ∀ block ∈ p.blocks, block.1 ≠ .up →
      ∀ statement ∈ statementsIn unicode block.2, p.GoesUp unicode true statement

end Placement

/-! ### The reader and the sections -/

namespace FileReader

variable {unicode : Char → Bool} {fileName : String} {s t : FileReader} {p : Placement}
  {line compact : List Char}

/-- The reader has what stands where: what is above the sections goes with the up section, and
blocks lose their place. -/
structure Reads (unicode : Char → Bool) (s : FileReader) (p : Placement) : Prop where
  inSection : s.inSection = p.inSection
  up : s.up = p.header ++ p.up
  down : s.down = p.down
  commented : s.inDestructive.map Prod.snd = p.commented
  pending : s.file.pendingDestructive.map (·.statements) =
    p.blocks.map fun block => statementsIn unicode block.2
  above : p.inSection = .header → p.up = []

lemma Reads.push (h : s.Reads unicode p) (line : List Char) :
    (s.push line).Reads unicode (p.write line) := by
  obtain ⟨file, place, read, _, block, lastWarning, sawUpMarker⟩ := s
  obtain ⟨_, commented, header, up, down, blocks⟩ := p
  obtain ⟨hsection, hup, hdown, hcommented, hpending, habove⟩ := h
  obtain rfl : place = _ := hsection
  obtain rfl : read = header ++ up := hup
  obtain rfl : _ = down := hdown
  cases place with
  | header =>
    obtain rfl : up = [] := habove rfl
    exact ⟨rfl, by simp [FileReader.push, Placement.write], rfl, hcommented, hpending, habove⟩
  | up =>
    refine ⟨rfl, ?_, rfl, hcommented, hpending, ?_⟩
    · simp [FileReader.push, Placement.write]
    · rintro ⟨⟩
  | down => exact ⟨rfl, rfl, rfl, hcommented, hpending, habove⟩

lemma Reads.close (h : s.Reads unicode p) (reason buffer : List Char) :
    Reads unicode
      { s with
        file := { s.file with
          pendingDestructive := s.file.pendingDestructive ++
            if trim buffer = [] then []
            else [{ reason := String.ofList reason,
                    statements := (splitStatements unicode buffer).map String.ofList }] }
        inDestructive := none }
      (p.close buffer) := by
  refine ⟨h.inSection, h.up, h.down, rfl, ?_, h.above⟩
  rw [Placement.close]
  split_ifs
  · simpa using h.pending
  · simpa [statementsIn] using h.pending

lemma Reads.readDestructive (h : s.Reads unicode p) (reason buffer line : List Char) :
    (s.readDestructive unicode reason buffer line).Reads unicode (p.placeInBlock buffer line) := by
  rw [FileReader.readDestructive, Placement.placeInBlock]
  by_cases hend : trim line = endMarker.toList
  · rw [if_pos hend, if_pos hend]
    exact h.close reason buffer
  · rw [if_neg hend, if_neg hend]
    cases stripPrefix "--" (trim line) with
    | some rest => exact ⟨h.inSection, h.up, h.down, rfl, h.pending, h.above⟩
    | none => exact h.push line

lemma Reads.readHeader (h : s.Reads unicode p) (ht : s.readHeader fileName compact = .ok t) :
    t.Reads unicode p := by
  rw [FileReader.readHeader] at ht
  split at ht
  · obtain ⟨file, hfile, ht⟩ := Fallible.bind_eq_ok.mp ht
    obtain ⟨_, _, _, _, _, rfl⟩ := eq_of_applyDirective hfile
    obtain rfl := Except.ok.inj ht
    exact ⟨h.inSection, h.up, h.down, h.commented, h.pending, h.above⟩
  · exact Except.ok.inj ht ▸ h

lemma Reads.step (h : s.Reads unicode p) (ht : s.step unicode fileName line = .ok t) :
    t.Reads unicode (p.place line) := by
  rw [FileReader.step] at ht
  rw [Placement.place, ← h.commented]
  dsimp only at ht ⊢
  cases hblock : s.inDestructive with
  | some block =>
    rw [hblock] at ht
    exact Except.ok.inj ht ▸ h.readDestructive block.1 block.2 (trimEnd line)
  | none =>
    rw [hblock] at ht
    have hnone : p.commented = none := by rw [← h.commented, hblock, Option.map_none]
    dsimp only [Option.map_none] at ht ⊢
    by_cases hup : trim (trimEnd line) = upMarker.toList
    · rw [if_pos hup] at ht ⊢
      obtain rfl := Except.ok.inj ht
      exact ⟨rfl, h.up, h.down, rfl, h.pending, by rintro ⟨⟩⟩
    rw [if_neg hup] at ht ⊢
    by_cases hdown : trim (trimEnd line) = downMarker.toList
    · rw [if_pos hdown] at ht ⊢
      obtain rfl := Except.ok.inj ht
      exact ⟨rfl, h.up, h.down, rfl, h.pending, by rintro ⟨⟩⟩
    rw [if_neg hdown] at ht ⊢
    by_cases hdestructive : trim (trimEnd line) = destructiveMarker.toList
    · rw [if_pos hdestructive] at ht ⊢
      obtain rfl := Except.ok.inj ht
      exact ⟨h.inSection, h.up, h.down, rfl, h.pending, h.above⟩
    rw [if_neg hdestructive] at ht ⊢
    cases hwarning : warning (trim (trimEnd line)) with
    | some reason =>
      rw [hwarning] at ht
      obtain rfl := Except.ok.inj ht
      rw [if_pos (.inl rfl)]
      exact ⟨h.inSection, h.up, h.down, hnone.symm, h.pending, h.above⟩
    | none =>
      rw [hwarning] at ht
      dsimp only at ht
      rw [h.inSection] at ht
      by_cases hheader : p.inSection = .header
      · rw [if_pos hheader] at ht
        rw [if_pos (.inr hheader)]
        exact h.readHeader ht
      · rw [if_neg hheader] at ht
        rw [if_neg (by simpa using hheader)]
        exact Except.ok.inj ht ▸ h.push (trimEnd line)

/-- Every line keeps the reader at what stands where. -/
lemma Reads.foldlM {ls : List (List Char)} (h : s.Reads unicode p)
    (ht : ls.foldlM (FileReader.step unicode fileName) s = .ok t) :
    t.Reads unicode (ls.foldl Placement.place p) := by
  induction ls generalizing s p with
  | nil => exact Except.ok.inj ht ▸ h
  | cons line ls ih =>
    rw [List.foldlM_cons] at ht
    obtain ⟨s', hs', ht⟩ := Fallible.bind_eq_ok.mp ht
    exact ih (h.step hs') ht

end FileReader

variable {unicode : Char → Bool} {digest : List Char → String} {fileName text : String}
  {file : MigrationFile}

/-- What a parsed file has of the sections. -/
lemma parseFile_reads (h : parseFile unicode digest fileName text = .ok file) :
    file.up = statementsIn unicode ((placement text).header ++ (placement text).up) ∧
      file.down = statementsIn unicode (placement text).down ∧
      file.pendingDestructive.map (·.statements) =
        (placement text).blocks.map fun block => statementsIn unicode block.2 := by
  obtain ⟨id, -, h⟩ := Fallible.bind_eq_ok.mp h
  obtain ⟨s, hs, h⟩ := Fallible.bind_eq_ok.mp h
  have hreads : s.Reads unicode (placement text) :=
    FileReader.Reads.foldlM ⟨rfl, rfl, rfl, rfl, rfl, fun _ => rfl⟩ hs
  rw [FileReader.finish] at h
  split at h
  · cases h
  · split at h
    · cases h
    · obtain rfl := Except.ok.inj h
      refine ⟨?_, ?_, hreads.pending⟩
      · rw [← hreads.up]
        rfl
      · rw [← hreads.down]
        rfl

namespace Placement

/-- Without blocks there is nothing to allow. -/
lemma goesUp_iff_of_nil {p : Placement} (h : p.blocks = []) {statement : String}
    {allowDestructive : Bool} :
    p.GoesUp unicode allowDestructive statement ↔ p.GoesUp unicode true statement := by
  simp [GoesUp, h]

/-- In a file whose blocks stand in the up section, and with none of their lines above it, nothing
strays. -/
lemma noneStrays_of_up {p : Placement} (hheader : p.header = [])
    (hblocks : ∀ block ∈ p.blocks, block.1 = .up) : p.NoneStrays unicode := by
  refine ⟨fun statement hstatement => .inl ?_, fun block hblock hdown => ?_⟩
  · rwa [hheader, List.nil_append] at hstatement
  · exact absurd (hblocks block hblock) hdown

end Placement

/-- The blocks that are read are the blocks that stand in the file. -/
lemma forall_pending_iff {blocks : List (FileSection × List Char)} {P : List String → Prop}
    (h : file.pendingDestructive.map (·.statements) =
      blocks.map fun block => statementsIn unicode block.2) :
    (∀ pending ∈ file.pendingDestructive, P pending.statements) ↔
      ∀ block ∈ blocks, P (statementsIn unicode block.2) := by
  rw [← List.forall_mem_map (f := fun pending : PendingDestructive => pending.statements), h,
    List.forall_mem_map]

end Moso.Migrate
