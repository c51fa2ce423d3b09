import Moso.Migrate.Lone

/-!
# Squashing

A squash puts one baseline in the place of a range of migrations. The baseline takes the version
of the oldest of them, so the ledger of a database that applied that one and not the rest looks
as if the baseline had run.
-/

namespace Moso.Migrate

open Program (interpret_bind_eq_ok interpret_settle_eq_ok interpret_attempt)
open DbCmd (call)

namespace Squash

/-- The baseline: the migration that creates the schema, with the versions it stands in for. -/
def build (body : MigrationFile) (replaced : List Version) (id : MigrationId) : MigrationFile :=
  { body with id := id, replaces := replaced }

/-- Everything before `before` collapses, into a baseline with the oldest of the versions. -/
def overDirectory (files : List MigrationFile) (before : Version) (body : MigrationFile)
    (now : Version) : MigrationFile :=
  let replaced := (files.filter fun file => file.version < before).map (·.version)
  build body replaced ⟨replaced.head?.getD now, "squashed"⟩

/-- The directory once the baseline is written and the collapsed files are deleted. -/
def apply (files : List MigrationFile) (before : Version) (body : MigrationFile)
    (now : Version) : List MigrationFile :=
  overDirectory files before body now :: files.filter fun file => ¬ file.version < before

/-- The baseline of a range whose oldest migration is `oldest`. -/
def baseline (oldest : MigrationFile) (range : List MigrationFile) (body : MigrationFile) :
    MigrationFile :=
  build body ((oldest :: range).map (·.version)) ⟨oldest.version, "squashed"⟩

/-- A directory whose range from `oldest` on was squashed. -/
def squashed (earlier : List MigrationFile) (oldest : MigrationFile)
    (range later : List MigrationFile) (body : MigrationFile) : List MigrationFile :=
  earlier ++ baseline oldest range body :: later

/-- The ranges that `over_directory` squashes are those from the first file on. -/
theorem apply_eq_squashed {files range : List MigrationFile} {oldest : MigrationFile}
    {before : Version} (body : MigrationFile) (now : Version)
    (h : (files.filter fun file => file.version < before) = oldest :: range) :
    apply files before body now =
      squashed [] oldest range (files.filter fun file => ¬ file.version < before) body := by
  rw [apply, overDirectory, h]
  rfl

/-! ### Databases of the original sequence -/

/-- The versions of a project: those of the files in order, and others for what is in Rust. -/
structure Original (files : List MigrationFile) (rust : List RustMigration) : Prop where
  sorted : (files.map (·.version)).Pairwise (· < ·)
  disjoint : ∀ migration ∈ rust, migration.version ∉ files.map (·.version)

/-- The ledger of a database that applied the first `count` files, and any migrations in Rust. -/
structure AppliedInOrder (files : List MigrationFile) (rust : List RustMigration) (count : ℕ)
    (ledger : Ledger) : Prop where
  applied : ∀ file ∈ files.take count, file.version ∈ ledger.keys
  rows : ∀ row ∈ ledger, row.dirty = false ∧
    ((∃ file ∈ files.take count, row.version = file.version ∧ row.checksum = file.checksum) ∨
      ∃ migration ∈ rust,
        row.version = migration.version ∧ row.checksum = migration.fingerprint)

/-- On a database with this ledger, a run of `migrate` over the whole directory that succeeds has
carried out the statements of the baseline, if not all of the replaced versions were applied; and
neither `migrate` nor `status` finds nothing to do unless they were. -/
def Accounts (runner : Runner) (baseline : MigrationFile) (ledger : Ledger) : Prop :=
  ∀ (D : Type) (engine : Engine D) (schema : D) (faults : ℕ → Option Error),
    (∀ (options : RunnerOptions) (report : MigrateReport) (after : Lone (D × List String)),
      options.target = none →
      (runner.migrate options).run.interpret (Lone.answer runner.backend engine.logged faults)
        (Lone.start ⟨(schema, []), ledger⟩) = (.ok report, after) →
      (options.dryRun = false → executed baseline.up <:+: after.conn.committed.schema.2 ∨
        ∀ version ∈ baseline.replaces, version ∈ ledger.keys) ∧
      (report.applied = [] → ∀ version ∈ baseline.replaces, version ∈ ledger.keys)) ∧
    ∀ (status : Status) (after : Lone (D × List String)),
      runner.status.run.interpret (Lone.answer runner.backend engine.logged faults)
        (Lone.start ⟨(schema, []), ledger⟩) = (.ok status, after) →
      status.intoResult = .ok status → status.pending = [] →
      ∀ version ∈ baseline.replaces, version ∈ ledger.keys

/-- Whatever comes after the range, and whatever else the project has in Rust. -/
def NeverLoses (earlier : List MigrationFile) (oldest : MigrationFile)
    (range : List MigrationFile) (body : MigrationFile) (count : ℕ) : Prop :=
  ∀ (later : List MigrationFile) (rust : List RustMigration) (ledger : Ledger)
    (backend : Backend),
    Original (earlier ++ oldest :: range ++ later) rust →
    AppliedInOrder (earlier ++ oldest :: range ++ later) rust count ledger →
    Accounts ⟨backend, squashed earlier oldest range later body, rust⟩
      (baseline oldest range body) ledger

end Squash

/-! ### What is on disk -/

namespace Runner

variable {runner : Runner}

lemma mem_keys_onDisk {version : Version} : version ∈ runner.onDisk.keys ↔
    (∃ file ∈ runner.files, file.version = version) ∨
      ∃ migration ∈ runner.rust, migration.version = version := by
  rw [onDisk, Keyed.mem_keys_foldl_insert, Keyed.mem_keys_foldl_insert, or_comm]
  simp [Keyed.keys, Keyed.empty]

/-- A directory without two files of one version. -/
lemma get?_onDisk (hnodup : (runner.files.map (·.version)).Nodup) {file : MigrationFile}
    (hfile : file ∈ runner.files)
    (hrust : ∀ migration ∈ runner.rust, migration.version ≠ file.version) :
    runner.onDisk.get? file.version =
      some (file.version, file.checksum, !file.replaces.isEmpty) := by
  rw [Keyed.get?_eq_some, onDisk]
  refine ⟨Keyed.mem_foldl_insert_of_ne ((Keyed.mem_foldl_insert ?_).mpr
    (Or.inl ⟨file, hfile, rfl⟩)) hrust, rfl⟩
  exact hnodup

lemma file_of_mem (hnodup : (runner.files.map (·.version)).Nodup) {file : MigrationFile}
    (hfile : file ∈ runner.files) : runner.file file.version = some file := by
  cases hfound : runner.file file.version with
  | none =>
    have hnone := List.find?_eq_none.mp hfound file hfile
    simp at hnone
  | some other =>
    have hmem := List.mem_of_find?_eq_some hfound
    exact congrArg some (List.inj_on_of_nodup_map hnodup hmem hfile (version_of_file hfound))

end Runner

namespace Squash

section Kept

variable {D : Type} {runner : Runner} {baseline : MigrationFile} {ledger : Ledger}
  {engine : Engine D} {schema : D} {faults : ℕ → Option Error}

lemma status_eq_ok {status : Status} {after : Lone (D × List String)}
    (h : runner.status.run.interpret (Lone.answer runner.backend engine.logged faults)
      (Lone.start ⟨(schema, []), ledger⟩) = (.ok status, after)) :
    status = runner.statusOf ledger.toList ∧ after.conn = ⟨⟨(schema, []), ledger⟩, none⟩ := by
  obtain ⟨_, s₁, hensure, h⟩ := Lone.call_eq_ok h
  have hconn₁ : s₁.conn = ⟨⟨(schema, []), ledger⟩, none⟩ := Lone.conn_of_exec hensure
  obtain ⟨applied, s₂, happlied, h⟩ := Lone.call_eq_ok h
  rw [hconn₁] at happlied
  obtain rfl : ledger.toList = applied := Except.ok.inj (congrArg Prod.fst happlied)
  obtain rfl : s₂ = after := congrArg Prod.snd h
  exact ⟨(Except.ok.inj (congrArg Prod.fst h)).symm, Lone.conn_of_exec happlied⟩

/-- A version that is on disk and not in the ledger is pending. -/
lemma mem_pending {version : Version} (hdisk : version ∈ runner.onDisk.keys)
    (hnew : version ∉ ledger.keys) : version ∈ (runner.statusOf ledger.toList).pending :=
  List.mem_filter.mpr ⟨hdisk, decide_eq_true hnew⟩

/-- What is applied of a file includes the statements of its up section. -/
lemma executed_within {file : MigrationFile} {allowDestructive : Bool} {statements : List String}
    (h : file.statementsToApply allowDestructive = .ok statements) :
    executed file.up <:+: executed statements := by
  obtain ⟨-, -, rfl⟩ := MigrationFile.statementsToApply_eq_ok.mp h
  rw [executed, executed, List.filter_append]
  exact (List.prefix_append _ _).isInfix

lemma applyPending_eq_ok {options : RunnerOptions} {pending : List Version}
    {before report : MigrateReport} {s after : Lone (D × List String)}
    (hfile : baseline ∈ runner.files) (hnodup : (runner.files.map (·.version)).Nodup)
    (hrust : runner.rustAt baseline.version = none)
    (hreplaces : baseline.version ∈ baseline.replaces)
    (hnew : baseline.version ∉ ledger.keys) (hpending : baseline.version ∈ pending)
    (hconn : s.conn = ⟨⟨(schema, []), ledger⟩, none⟩)
    (h : (runner.applyPending options pending before).run.interpret
      (Lone.answer runner.backend engine.logged faults) s = (.ok report, after)) :
    report.applied ≠ [] ∧ executed baseline.up <:+: after.conn.committed.schema.2 := by
  obtain ⟨_, s₁, hacquire, h⟩ := Lone.call_eq_ok h
  have hconn₁ : s₁.conn = s.conn := Lone.conn_of_exec hacquire
  obtain ⟨already, s₂, hread, h⟩ := Lone.call_eq_ok h
  rw [hconn₁, hconn] at hread
  obtain rfl : ledger.toList = already := Except.ok.inj (congrArg Prod.fst hread)
  have hconn₂ : s₂.conn = ⟨⟨(schema, []), ledger⟩, none⟩ := Lone.conn_of_exec hread
  rw [interpret_attempt] at h
  have hleft : baseline.version ∈
      pending.filter fun version => version ∉ ledger.toList.map (·.version) :=
    List.mem_filter.mpr ⟨hpending, decide_eq_true hnew⟩
  cases hall : (runner.applyAll options (pending.filter fun version =>
      version ∉ ledger.toList.map (·.version))).run.interpret
      (Lone.answer runner.backend engine.logged faults) s₂ with
  | mk outcome s₃ =>
    rw [hall] at h
    obtain ⟨applied, rfl, h⟩ := interpret_settle_eq_ok h
    obtain ⟨hne, statements, earlier, hstatements, hstart⟩ := Lone.applyAll_eq_ok hrust
      (Runner.file_of_mem hnodup hfile) hreplaces hnew hleft hconn₂ hall
    obtain rfl := Except.ok.inj (congrArg Prod.fst h)
    have hafter : after.conn = s₃.conn := by
      obtain rfl : (Lone.answer runner.backend engine.logged faults .release s₃).2 = after :=
        congrArg Prod.snd h
      rw [Lone.answer]
      cases faults s₃.asked <;> rfl
    refine ⟨hne, ?_⟩
    rw [hafter]
    exact (executed_within hstatements).trans ((List.suffix_append _ _).isInfix.trans hstart.isInfix)

/-- A run that succeeds has applied the baseline. -/
lemma migrate_eq_ok {options : RunnerOptions} {report : MigrateReport}
    {after : Lone (D × List String)} (hfile : baseline ∈ runner.files)
    (hnodup : (runner.files.map (·.version)).Nodup)
    (hrust : runner.rustAt baseline.version = none)
    (hreplaces : baseline.version ∈ baseline.replaces) (hnew : baseline.version ∉ ledger.keys)
    (hpending : baseline.version ∈ (runner.statusOf ledger.toList).pending)
    (htarget : options.target = none)
    (h : (runner.migrate options).run.interpret (Lone.answer runner.backend engine.logged faults)
      (Lone.start ⟨(schema, []), ledger⟩) = (.ok report, after)) :
    report.applied ≠ [] ∧ (options.dryRun = false →
      executed baseline.up <:+: after.conn.committed.schema.2) := by
  obtain ⟨_, -, h⟩ := interpret_settle_eq_ok h
  obtain ⟨status, s₁, hstatus, h⟩ := interpret_bind_eq_ok h
  obtain ⟨rfl, hconn₁⟩ := status_eq_ok hstatus
  obtain ⟨status, hresult, h⟩ := interpret_settle_eq_ok h
  obtain rfl := Status.intoResult_eq_ok hresult
  obtain ⟨_, -, h⟩ := interpret_settle_eq_ok h
  have hwanted : Runner.wanted options (runner.statusOf ledger.toList).pending =
      (runner.statusOf ledger.toList).pending := by
    rw [Runner.wanted, htarget]
  have hnonempty : ¬ (runner.statusOf ledger.toList).pending.isEmpty = true := by
    rw [List.isEmpty_iff]
    exact List.ne_nil_of_mem hpending
  simp only [hwanted, if_neg hnonempty] at h
  obtain ⟨_, -, h⟩ := interpret_settle_eq_ok h
  by_cases hdry : options.dryRun = true
  · rw [if_pos hdry] at h
    obtain rfl := Except.ok.inj (congrArg Prod.fst h)
    refine ⟨?_, fun hrun => absurd (hdry.symm.trans hrun) (by simp)⟩
    exact List.ne_nil_of_mem (List.mem_map_of_mem hpending)
  · rw [if_neg hdry] at h
    obtain ⟨happlied, hran⟩ :=
      applyPending_eq_ok hfile hnodup hrust hreplaces hnew hpending hconn₁ h
    exact ⟨happlied, fun _ => hran⟩

/-- A baseline whose own version is not in the ledger is run. -/
lemma accounts_of_new (hfile : baseline ∈ runner.files)
    (hnodup : (runner.files.map (·.version)).Nodup)
    (hrust : runner.rustAt baseline.version = none)
    (hreplaces : baseline.version ∈ baseline.replaces)
    (hnew : baseline.version ∉ ledger.keys) : Accounts runner baseline ledger := by
  have hpending := mem_pending (runner.mem_keys_onDisk.mpr (Or.inl ⟨baseline, hfile, rfl⟩)) hnew
  intro D engine schema faults
  refine ⟨fun options report after htarget h => ?_, fun status after h hresult hnone => ?_⟩
  · obtain ⟨happlied, hran⟩ := migrate_eq_ok hfile hnodup hrust hreplaces hnew hpending htarget h
    exact ⟨fun hdry => Or.inl (hran hdry), fun hnone => absurd hnone happlied⟩
  · obtain ⟨rfl, -⟩ := status_eq_ok h
    rw [hnone] at hpending
    exact absurd hpending List.not_mem_nil

end Kept

/-! ### The range and the ledger -/

variable {files earlier range later : List MigrationFile} {oldest body : MigrationFile}
  {rust : List RustMigration} {count : ℕ} {ledger : Ledger}

/-- The versions of a squashed directory are some of those it had. -/
lemma sorted_squashed (h : Original (earlier ++ oldest :: range ++ later) rust) :
    ((squashed earlier oldest range later body).map (·.version)).Pairwise (· < ·) := by
  refine h.sorted.sublist ?_
  have hbaseline : (baseline oldest range body).version = oldest.version := rfl
  rw [squashed, List.map_append, List.map_cons, hbaseline, List.append_assoc, List.map_append]
  refine List.Sublist.append_left ?_ _
  rw [List.cons_append, List.map_cons, List.map_append]
  exact (List.sublist_append_right _ _).cons_cons _

lemma mem_replaces {version : Version} :
    version ∈ (baseline oldest range body).replaces ↔
      ∃ file ∈ oldest :: range, file.version = version :=
  List.mem_map

/-- Of the files, those in the ledger are the ones that were applied. -/
lemma mem_keys_iff (horiginal : Original files rust) (h : AppliedInOrder files rust count ledger)
    {file : MigrationFile} (hfile : file ∈ files) :
    file.version ∈ ledger.keys ↔ file ∈ files.take count := by
  refine ⟨fun hkey => ?_, h.applied file⟩
  obtain ⟨row, hrow, hversion⟩ := Keyed.mem_keys.mp hkey
  rcases (h.rows row hrow).2 with ⟨other, hother, heq, -⟩ | ⟨migration, hmigration, heq, -⟩
  · have hnodup : (files.map (·.version)).Nodup := horiginal.sorted.imp fun hlt => hlt.ne
    have hsame := List.inj_on_of_nodup_map hnodup (List.mem_of_mem_take hother) hfile
      (heq.symm.trans hversion)
    exact hsame ▸ hother
  · refine absurd (List.mem_map.mpr ⟨file, hfile, ?_⟩) (horiginal.disjoint migration hmigration)
    exact hversion.symm.trans heq

/-- The row of a file that was applied. -/
def recordedRow (file : MigrationFile) : AppliedMigration :=
  (AppliedMigration.begin file.version file.id.name file.checksum file.up.length).finish

/-- What is recorded of the files that were applied. -/
def recorded (files : List MigrationFile) : Ledger :=
  files.foldl (fun ledger file => ledger.insert (recordedRow file)) .empty

lemma appliedInOrder_recorded (hnodup : (files.map (·.version)).Nodup) :
    AppliedInOrder files rust count (recorded (files.take count)) := by
  have hnodup' : ((files.take count).map (·.version)).Nodup :=
    hnodup.sublist ((List.take_sublist _ _).map _)
  refine ⟨fun file hfile => ?_, fun row hrow => ?_⟩
  · exact Keyed.mem_keys_foldl_insert.mpr (Or.inl ⟨file, hfile, rfl⟩)
  · rcases (Keyed.mem_foldl_insert (f := recordedRow) hnodup').mp hrow with ⟨file, hfile, rfl⟩ | ⟨hempty, -⟩
    · exact ⟨rfl, Or.inl ⟨file, hfile, rfl, rfl⟩⟩
    · exact absurd hempty (Keyed.not_mem_empty row)

lemma mem_take_append {α : Type} {a : α} {l l' : List α} {n : ℕ} (ha : a ∈ l) (h : l.length ≤ n) :
    a ∈ (l ++ l').take n := by
  rw [List.take_append, List.take_of_length_le h]
  exact List.mem_append_left _ ha

/-- Every row of the ledger has its file, or is one that the baseline takes the place of. -/
lemma status_of_recorded {files : List MigrationFile} (backend : Backend)
    (hnodup : (files.map (·.version)).Nodup)
    (hpending : ∀ file ∈ files, file.version ∈ ledger.keys)
    (hrows : ∀ row ∈ ledger, row.dirty = false ∧
      ((∃ file ∈ files, file.version = row.version ∧
          (file.checksum = row.checksum ∨ file.replaces ≠ [])) ∨
        (∀ file ∈ files, file.version ≠ row.version) ∧
          ∃ file ∈ files, row.version ∈ file.replaces)) :
    let status := Runner.statusOf ⟨backend, files, []⟩ ledger.toList
    status.intoResult = .ok status ∧ status.pending = [] := by
  intro status
  have hdisk : ∀ file ∈ files, (Runner.onDisk ⟨backend, files, []⟩).get? file.version =
      some (file.version, file.checksum, !file.replaces.isEmpty) := fun file hfile =>
    Runner.get?_onDisk hnodup hfile (by simp)
  have hnotOnDisk : ∀ version, (∀ file ∈ files, file.version ≠ version) →
      (Runner.onDisk ⟨backend, files, []⟩).get? version = none := by
    intro version hnone
    by_contra hsome
    obtain ⟨entry, hentry⟩ := Option.ne_none_iff_exists'.mp hsome
    obtain ⟨hmem, rfl⟩ := Keyed.get?_eq_some.mp hentry
    rcases Runner.mem_keys_onDisk.mp (Keyed.mem_keys_of_mem hmem) with ⟨file, hfile, heq⟩ | ⟨_, h, _⟩
    · exact hnone file hfile heq
    · exact absurd h List.not_mem_nil
  have hdirty : status.dirty = [] := by
    refine List.filter_eq_nil_iff.mpr fun row hrow => ?_
    simp [(hrows row hrow).1]
  have hchanged : status.changed = [] := by
    refine List.filterMap_eq_nil_iff.mpr fun row hrow => ?_
    rcases (hrows row hrow).2 with ⟨file, hfile, hversion, hsame⟩ | ⟨hnone, -⟩
    · rw [← hversion, hdisk file hfile]
      exact if_pos (hsame.imp_right fun hne => by simpa using hne)
    · rw [hnotOnDisk _ hnone]
  have hmissing : status.missing = [] := by
    refine List.filter_eq_nil_iff.mpr fun version hversion => ?_
    obtain ⟨row, hrow, rfl⟩ := List.mem_map.mp hversion
    rcases (hrows row hrow).2 with ⟨file, hfile, hversion, -⟩ | ⟨-, file, hfile, hreplaced⟩
    · rw [← hversion, hdisk file hfile]
      simp
    · simp only [decide_eq_true_eq, not_and, not_not]
      exact fun _ => List.mem_flatMap.mpr ⟨file, hfile, hreplaced⟩
  refine ⟨by rw [Status.intoResult, hdirty, hchanged, hmissing], ?_⟩
  refine List.filter_eq_nil_iff.mpr fun version hversion => ?_
  rcases Runner.mem_keys_onDisk.mp hversion with ⟨file, hfile, rfl⟩ | ⟨_, h, _⟩
  · exact fun hnew => of_decide_eq_true hnew (hpending file hfile)
  · exact absurd h List.not_mem_nil

/-- When the oldest migration of the range was applied and another was not, the squashed directory
has nothing pending, and `status` has nothing to complain about. -/
lemma not_neverLoses (hsorted : ((earlier ++ oldest :: range).map (·.version)).Pairwise (· < ·))
    (hsome : earlier.length < count) (hnotAll : count ≤ earlier.length + range.length) :
    ¬ NeverLoses earlier oldest range body count := by
  intro hnever
  have hnodup : ((earlier ++ oldest :: range).map (·.version)).Nodup :=
    hsorted.imp fun hlt => hlt.ne
  have horiginal : Original (earlier ++ oldest :: range ++ []) [] :=
    ⟨by rwa [List.append_nil], by simp⟩
  have happlied : AppliedInOrder (earlier ++ oldest :: range ++ []) [] count
      (recorded ((earlier ++ oldest :: range ++ []).take count)) :=
    appliedInOrder_recorded (by rwa [List.append_nil])
  have hearlier : ∀ file ∈ earlier ++ [oldest],
      file ∈ (earlier ++ oldest :: range ++ []).take count := by
    intro file hfile
    rw [List.append_nil, ← List.singleton_append, ← List.append_assoc]
    exact mem_take_append hfile (by rw [List.length_append]; exact hsome)
  have hpending : ∀ file ∈ squashed earlier oldest range [] body, file.version ∈
      (recorded ((earlier ++ oldest :: range ++ []).take count)).keys := by
    intro file hfile
    rcases List.mem_append.mp hfile with hfile | hfile
    · exact happlied.applied file (hearlier file (List.mem_append_left _ hfile))
    · obtain rfl := List.mem_singleton.mp hfile
      exact happlied.applied oldest (hearlier oldest (by simp))
  have hrows : ∀ row ∈ recorded ((earlier ++ oldest :: range ++ []).take count),
      row.dirty = false ∧
        ((∃ file ∈ squashed earlier oldest range [] body, file.version = row.version ∧
            (file.checksum = row.checksum ∨ file.replaces ≠ [])) ∨
          (∀ file ∈ squashed earlier oldest range [] body, file.version ≠ row.version) ∧
            ∃ file ∈ squashed earlier oldest range [] body, row.version ∈ file.replaces) := by
    intro row hrow
    obtain ⟨hclean, ⟨file, hfile, hversion, hchecksum⟩ | ⟨_, h, _⟩⟩ := happlied.rows row hrow
    · refine ⟨hclean, ?_⟩
      have hfile := List.mem_of_mem_take hfile
      rw [List.append_nil] at hfile
      rcases List.mem_append.mp hfile with hfile | hfile
      · exact Or.inl ⟨file, List.mem_append_left _ hfile, hversion.symm, Or.inl hchecksum.symm⟩
      rcases List.mem_cons.mp hfile with rfl | hfile
      · exact Or.inl ⟨baseline file range body, by simp [squashed], hversion.symm,
          Or.inr (List.cons_ne_nil _ _)⟩
      · refine Or.inr ⟨fun other hother heq => ?_, baseline oldest range body, by simp [squashed],
          mem_replaces.2 ⟨file, List.mem_cons_of_mem _ hfile, hversion.symm⟩⟩
        have hkept : other.version ∈ (earlier ++ [oldest]).map (·.version) := by
          have hversions := List.mem_map_of_mem (f := MigrationFile.version) hother
          rw [squashed, List.map_append] at hversions
          rwa [List.map_append]
        have hrange : other.version ∈ range.map (·.version) :=
          List.mem_map.mpr ⟨file, hfile, (heq.trans hversion).symm⟩
        rw [← List.singleton_append, ← List.append_assoc, List.map_append] at hnodup
        exact List.disjoint_of_nodup_append hnodup hkept hrange
    · exact absurd h List.not_mem_nil
  have hkept : ((squashed earlier oldest range [] body).map (·.version)).Pairwise (· < ·) :=
    sorted_squashed horiginal
  obtain ⟨hresult, hnone⟩ := status_of_recorded .sqlite (hkept.imp fun hlt => hlt.ne) hpending hrows
  have haccounts := (hnever [] [] _ .sqlite horiginal happlied (List String) Engine.script []
    fun _ => none).2 _ _ rfl hresult hnone
  -- the next migration of the range was not applied
  obtain ⟨file, hfile⟩ : ∃ file, file ∈ (earlier ++ oldest :: range).drop count := by
    refine List.exists_mem_of_length_pos ?_
    rw [List.length_drop, List.length_append, List.length_cons]
    omega
  have hrange : file ∈ oldest :: range := by
    rw [List.drop_append, List.drop_eq_nil_of_le hsome.le, List.nil_append] at hfile
    exact List.mem_of_mem_drop hfile
  have hkey := haccounts file.version (mem_replaces.2 ⟨file, hrange, rfl⟩)
  have htaken := (mem_keys_iff horiginal happlied (by simp [List.mem_of_mem_drop hfile])).mp hkey
  rw [List.append_nil] at htaken
  exact List.disjoint_take_drop (List.Nodup.of_map _ hnodup) le_rfl htaken hfile

/-- A squash loses no migration exactly when the database has applied none of the range, or all
of it. -/
theorem neverLoses_iff (body : MigrationFile) (count : ℕ)
    (hsorted : ((earlier ++ oldest :: range).map (·.version)).Pairwise (· < ·)) :
    NeverLoses earlier oldest range body count ↔
      count ≤ earlier.length ∨ earlier.length + range.length < count := by
  constructor
  · intro hnever
    by_contra hbetween
    obtain ⟨hsome, hnotAll⟩ := not_or.mp hbetween
    exact not_neverLoses hsorted (Nat.lt_of_not_le hsome) (Nat.le_of_not_lt hnotAll) hnever
  · intro hcount later rust ledger backend horiginal happlied
    have hkept : ((squashed earlier oldest range later body).map (·.version)).Pairwise (· < ·) :=
      sorted_squashed horiginal
    have hnodup := hkept.imp fun hlt => hlt.ne
    have hmem : ∀ file ∈ oldest :: range, file ∈ earlier ++ oldest :: range ++ later :=
      fun file hfile => List.mem_append_left _ (List.mem_append_right _ hfile)
    have hbaseline : baseline oldest range body ∈ squashed earlier oldest range later body := by
      simp [squashed]
    rcases hcount with hnone | hall
    · refine accounts_of_new hbaseline hnodup ?_ (mem_replaces.mpr ⟨oldest, by simp, rfl⟩) ?_
      · refine List.find?_eq_none.mpr fun migration hmigration heq => ?_
        refine horiginal.disjoint migration hmigration (List.mem_map.mpr ⟨oldest, ?_, ?_⟩)
        · exact hmem oldest (by simp)
        · exact (of_decide_eq_true heq).symm
      · intro hkey
        have htaken := (mem_keys_iff horiginal happlied (hmem oldest (by simp))).mp hkey
        rw [List.append_assoc, List.take_append_of_le_length hnone] at htaken
        have hfiles : (earlier ++ oldest :: range).Nodup :=
          List.Nodup.of_map _ (hsorted.imp fun hlt => hlt.ne)
        exact List.disjoint_of_nodup_append hfiles (List.mem_of_mem_take htaken) (by simp)
    · have happlied : ∀ version ∈ (baseline oldest range body).replaces,
          version ∈ ledger.keys := by
        intro version hversion
        obtain ⟨file, hfile, rfl⟩ := mem_replaces.mp hversion
        refine happlied.applied file (mem_take_append (List.mem_append_right _ hfile) ?_)
        rw [List.length_append, List.length_cons]
        exact hall
      exact fun D engine schema faults => ⟨fun _ _ _ _ _ => ⟨fun _ => Or.inr happlied,
        fun _ => happlied⟩, fun _ _ _ _ _ => happlied⟩

/-- Two migrations of a project, and what the baseline runs. -/
def createUsers : MigrationFile :=
  { id := ⟨20260101000000, "users"⟩, checksum := "a", up := ["CREATE TABLE users (id integer)"] }

def createPosts : MigrationFile :=
  { id := ⟨20260201000000, "posts"⟩, checksum := "b", up := ["CREATE TABLE posts (id integer)"] }

def createBoth : MigrationFile :=
  { id := ⟨20260101000000, "squashed"⟩, checksum := "c", up := createUsers.up ++ createPosts.up }

/-- On a database that applied both, the squash loses neither. -/
theorem neverLoses_iff_both :
    NeverLoses [] createUsers [createPosts] createBoth 2 ↔
      2 ≤ ([] : List MigrationFile).length ∨ 0 + 1 < 2 :=
  neverLoses_iff createBoth 2 (by decide)

/-- On one that applied the first and not the second, the directory looks applied. -/
theorem neverLoses_fails_for_first :
    let files := apply [createUsers, createPosts] 20260301000000 createBoth 20260301000000
    let ledger := recorded [createUsers]
    let status := Runner.statusOf ⟨.sqlite, files, []⟩ ledger.toList
    status.intoResult = .ok status ∧ status.pending = [] ∧ createPosts.version ∉ ledger.keys ∧
      ¬ NeverLoses [] createUsers [createPosts] createBoth 1 := by
  refine ⟨rfl, rfl, by decide, not_neverLoses (by decide) (by decide) (by decide)⟩

end Squash

end Moso.Migrate
