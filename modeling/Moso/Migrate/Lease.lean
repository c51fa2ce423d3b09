import Moso.Foundation.Decimal
import Moso.Foundation.Machine
import Moso.Migrate.Ledger
import Mathlib.Data.Fintype.Basic
import Mathlib.Logic.Function.Basic

/-!
# The migration lease of SQLite

SQLite has no session lock, so a migration run holds a row of `moso_migration_lock` that carries
its owner token and an expiry. Any number of runs, each with a process of its own, interleave
their statements on that table; every statement is atomic. The clock counts nanoseconds, and
`datetime` writes whole seconds of it.
-/

namespace Moso.Migrate

/-! ### The lock table -/

/-- `author` is a ghost: the serial number of the run that inserted the row, which the database
does not store. -/
structure LockRow where
  id : ℕ
  owner : Option String
  takenAt : ℕ
  expiresAt : Option ℕ
  author : Option ℕ
  deriving DecidableEq

/-- The rows of `moso_migration_lock`: `id` is the primary key, and is checked to be 1. -/
structure LockTable where
  rows : List LockRow
  nodup : (rows.map LockRow.id).Nodup
  check : ∀ row ∈ rows, row.id = 1

/-- `datetime('now')`, in seconds. -/
def datetimeNow (clock : ℕ) : ℕ :=
  clock / 1000000000

/-- `datetime(instant, '+n seconds')`, which is NULL past the year 9999. -/
def addSeconds (instant seconds : ℕ) : Option ℕ :=
  if instant + seconds ≤ 253402300799 then some (instant + seconds) else none

/-- What `new_owner` writes: the process id and the nanosecond clock. -/
def newOwner (pid nanos : ℕ) : String :=
  toString pid ++ ":" ++ toString nanos

/-- Two tokens are the same text exactly when the process id and the clock reading are. -/
theorem newOwner_eq_iff {pid pid' nanos nanos' : ℕ} :
    newOwner pid nanos = newOwner pid' nanos' ↔ pid = pid' ∧ nanos = nanos' := by
  refine ⟨fun h => ?_, fun h => by rw [h.1, h.2]⟩
  have hdigits : ∀ n : ℕ, ':' ∉ (toString n).toList := fun n hmem =>
    absurd (Decimal.isDigit_of_mem_toString hmem) (by decide)
  have hlist : (toString pid).toList ++ ':' :: (toString nanos).toList =
      (toString pid').toList ++ ':' :: (toString nanos').toList := by
    simpa [newOwner] using congrArg String.toList h
  obtain ⟨hpid, -, hnanos⟩ :=
    (List.append_cons_inj_of_notMem (hdigits pid) (hdigits nanos)).mp hlist
  exact ⟨Decimal.toString_injective (String.toList_inj.mp hpid),
    Decimal.toString_injective (String.toList_inj.mp hnanos)⟩

namespace LockRow

/-- `effective_expiry`: a row of an older build has no expiry of its own. -/
def effectiveExpiry (lease : ℕ) (row : LockRow) : Option ℕ :=
  row.expiresAt.or (addSeconds row.takenAt lease)

/-- The condition of `reap`; a NULL expiry is never in the past. -/
def isExpired (now lease : ℕ) (row : LockRow) : Bool :=
  row.id = 1 && (row.effectiveExpiry lease).any fun expiry => expiry ≤ now

/-- `WHERE id = 1 AND owner = …`. -/
def isOwnedBy (owner : String) (row : LockRow) : Bool :=
  row.id = 1 && row.owner = some owner

end LockRow

namespace LockTable

variable (t : LockTable)

/-- The rows a `DELETE` leaves. -/
def keep (p : LockRow → Bool) : LockTable where
  rows := t.rows.filter p
  nodup := t.nodup.sublist (List.filter_sublist.map _)
  check row h := t.check row (List.mem_filter.mp h).1

def reap (now lease : ℕ) : LockTable :=
  t.keep fun row => !row.isExpired now lease

/-- No row has the key that an insert brings. -/
def isFree : Bool :=
  !t.rows.any fun row => row.id = 1

lemma isFree_iff : t.isFree = true ↔ t.rows = [] := by
  rw [isFree, Bool.not_eq_true', List.any_eq_false]
  refine ⟨fun h => List.eq_nil_iff_forall_not_mem.mpr fun row hrow => ?_, fun h => by simp [h]⟩
  exact h row hrow (decide_eq_true (t.check row hrow))

/-- The `INSERT … ON CONFLICT (id) DO NOTHING` of `acquire_with_lease`. -/
def insert (now lease : ℕ) (owner : String) (author : ℕ) : LockTable where
  rows :=
    if t.isFree then
      t.rows ++ [{ id := 1, owner := some owner, takenAt := now,
                   expiresAt := addSeconds now lease, author := some author }]
    else
      t.rows
  nodup := by
    split
    · next h => simp [t.isFree_iff.mp h]
    · exact t.nodup
  check := by
    split
    · next h => simp [t.isFree_iff.mp h]
    · exact t.check

def refresh (now lease : ℕ) (owner : String) : LockTable where
  rows := t.rows.map fun row =>
    if row.isOwnedBy owner then { row with expiresAt := addSeconds now lease } else row
  nodup := by
    rw [List.map_map]
    refine (List.map_congr_left fun row _ => ?_) ▸ t.nodup
    by_cases h : row.isOwnedBy owner <;> simp [h]
  check := by
    simp only [List.mem_map]
    rintro _ ⟨row, hrow, rfl⟩
    by_cases h : row.isOwnedBy owner <;> simp [h, t.check row hrow]

/-- The same rows, written by no run that is numbered. -/
def anonymous : LockTable where
  rows := t.rows.map fun row => { row with author := none }
  nodup := by simpa [Function.comp_def] using t.nodup
  check := by simpa using t.check

/-- The rows that `refresh` writes and `release` deletes. -/
def ownedBy (owner : String) : List LockRow :=
  t.rows.filter fun row => row.isOwnedBy owner

def release (owner : String) : LockTable :=
  t.keep fun row => !row.isOwnedBy owner

variable {t} in
lemma eq_of_mem {row row' : LockRow} (h : row ∈ t.rows) (h' : row' ∈ t.rows) : row = row' :=
  List.inj_on_of_nodup_map t.nodup h h' ((t.check row h).trans (t.check row' h').symm)

/-- The key and the check leave room for one row. -/
theorem length_le_one : t.rows.length ≤ 1 := by
  have hids : t.rows.map LockRow.id = List.replicate t.rows.length 1 :=
    List.eq_replicate_iff.mpr ⟨List.length_map _, by simpa using t.check⟩
  exact List.nodup_replicate.mp (hids ▸ t.nodup)

end LockTable

/-! ### The runs -/

inductive LeaseCall where
  | migrate
  | rollback
  deriving DecidableEq

/-- The statement a run is about to execute, and the files it has yet to run. -/
inductive LeasePhase where
  /-- The reap of a poll. -/
  | polling (todo : List Version)
  /-- The insert of a poll. -/
  | inserting (todo : List Version)
  /-- `Ledger::applied`, once the lock is held. -/
  | rereading (todo : List Version)
  /-- The refresh before the file `version`. -/
  | renewing (version : Version) (rest : List Version)
  /-- The first statement of the file. -/
  | starting (version : Version) (rest : List Version)
  /-- What is left of the file. -/
  | working (version : Version) (rest : List Version)
  | releasing
  deriving DecidableEq

namespace LeasePhase

/-- The head of the loop over the files. -/
def loop : List Version → LeasePhase
  | []              => releasing
  | version :: rest => renewing version rest

/-- The insert has taken place. -/
def isPast : LeasePhase → Bool
  | polling _   => false
  | inserting _ => false
  | _           => true

@[simp] lemma isPast_loop (todo : List Version) : (loop todo).isPast = true := by
  cases todo <;> rfl

end LeasePhase

/-- One run of `migrate` or `rollback`. The last three fields are ghosts: the number of the run,
whether its row was reaped, and whether it has refreshed its lease since. -/
structure LeaseRun where
  call : LeaseCall
  owner : String
  lease : ℕ
  started : ℕ
  timeout : ℕ
  phase : LeasePhase
  serial : ℕ
  reaped : Bool
  warned : Bool

/-- The table, the clock and the runs under way. `serial` numbers the runs; the last three fields
record that a refresh answered `true` on another run's row, that a release deleted another run's
row, and that a run whose row was reaped started a file after a refresh. -/
structure LeaseFleet (ι : Type*) where
  clock : ℕ
  table : LockTable
  runs : ι → Option LeaseRun
  serial : ℕ
  misrefreshed : Bool
  misreleased : Bool
  overran : Bool

inductive LeaseEvent (ι : Type*) where
  /-- A process begins a run: `new_owner` reads its id and the clock. -/
  | start (i : ι) (call : LeaseCall) (pid lease timeout : ℕ) (todo : List Version)
  /-- The next statement of a run. -/
  | run (i : ι)
  /-- The re-read of the ledger, and what it answers. -/
  | reread (i : ι) (already : List Version)
  /-- The database refuses the next statement of a run. -/
  | refuse (i : ι)
  /-- The process dies. -/
  | stop (i : ι)
  /-- `reap_expired`, called on its own. -/
  | reap (lease : ℕ)
  | tick (d : ℕ)

namespace LeaseFleet

variable {ι : Type*} [DecidableEq ι]

/-- No run is under way; the table holds what earlier ones left. -/
def init (clock : ℕ) (table : LockTable) : LeaseFleet ι :=
  { clock := clock, table := table.anonymous, runs := fun _ => none, serial := 0,
    misrefreshed := false, misreleased := false, overran := false }

def setRun (s : LeaseFleet ι) (i : ι) (r : Option LeaseRun) : LeaseFleet ι :=
  { s with runs := Function.update s.runs i r }

def now (s : LeaseFleet ι) : ℕ :=
  datetimeNow s.clock

/-- Delete the expired rows, and note it in the runs that lose theirs. -/
def reap (s : LeaseFleet ι) (lease : ℕ) : LeaseFleet ι :=
  let gone := s.table.rows.filter fun row => row.isExpired s.now lease
  { s with
    table := s.table.reap s.now lease
    runs := fun j => (s.runs j).map fun r =>
      if gone.any fun row => row.author = some r.serial then { r with reaped := true } else r }

/-- The phase after a statement is refused: an error while the lock is acquired, or while the
ledger is read again, returns at once; one in the loop goes to the release, whose own is
swallowed. -/
def refused (r : LeaseRun) : Option LeaseRun :=
  match r.phase with
  | .renewing _ _ => some { r with phase := .releasing }
  | .starting _ _ => some { r with phase := .releasing }
  | .working _ _  => some { r with phase := .releasing }
  | _             => none

/-- `acquire_with_lease`, the loop over the files and `release`, one statement at a time. -/
def runStep (s : LeaseFleet ι) (i : ι) (r : LeaseRun) : Option (LeaseFleet ι) :=
  match r.phase with
  | .polling todo =>
    some ((s.setRun i (some { r with phase := .inserting todo })).reap r.lease)
  | .inserting todo =>
    if s.table.isFree then
      let phase := if r.call = .migrate then .rereading todo else LeasePhase.loop todo
      some { s.setRun i (some { r with phase := phase }) with
        table := s.table.insert s.now r.lease r.owner r.serial }
    else if r.started + r.timeout ≤ s.clock then
      some (s.setRun i none)
    else
      some (s.setRun i (some { r with phase := .polling todo }))
  | .rereading _ => none
  | .renewing version rest =>
    let mine := s.table.ownedBy r.owner
    let phase := if mine = [] then .releasing else LeasePhase.starting version rest
    some { s.setRun i (some { r with phase := phase, warned := r.reaped }) with
      table := s.table.refresh s.now r.lease r.owner
      misrefreshed := s.misrefreshed || mine.any fun row => row.author ≠ some r.serial }
  | .starting version rest =>
    some { s.setRun i (some { r with phase := .working version rest }) with
      overran := s.overran || r.warned }
  | .working _ rest =>
    some (s.setRun i (some { r with phase := LeasePhase.loop rest }))
  | .releasing =>
    some { s.setRun i none with
      table := s.table.release r.owner
      misreleased := s.misreleased ||
        (s.table.ownedBy r.owner).any fun row => row.author ≠ some r.serial }

def step (s : LeaseFleet ι) : LeaseEvent ι → Option (LeaseFleet ι)
  | .start i call pid lease timeout todo =>
    if (s.runs i).isSome then none
    else
      some { s.setRun i (some
          { call := call, owner := newOwner pid s.clock, lease := lease, started := s.clock,
            timeout := timeout, phase := .polling todo, serial := s.serial, reaped := false,
            warned := false }) with
        serial := s.serial + 1 }
  | .run i => (s.runs i).bind fun r => s.runStep i r
  | .reread i already =>
    (s.runs i).bind fun r =>
      match r.phase with
      | .rereading todo =>
        let todo := todo.filter fun version => version ∉ already
        some (s.setRun i (some { r with phase := LeasePhase.loop todo }))
      | _ => none
  | .refuse i => (s.runs i).map fun r => s.setRun i (refused r)
  | .stop i => (s.runs i).map fun _ => s.setRun i none
  | .reap lease => some (s.reap lease)
  | .tick d => some { s with clock := s.clock + d }

/-- One row at most, and each run keeps to its own: refreshes, releases and files. -/
def Exclusive (s : LeaseFleet ι) : Prop :=
  s.table.rows.length ≤ 1 ∧ s.misrefreshed = false ∧ s.misreleased = false ∧ s.overran = false

/-- A run that begins draws a token that no run under way has. -/
def DrawsFreshOwner (s : LeaseFleet ι) : LeaseEvent ι → Prop
  | .start _ _ pid _ _ _ => ∀ j, ∀ r ∈ s.runs j, r.owner ≠ newOwner pid s.clock
  | _ => True

/-! ### What a run holds -/

/-- Before its insert no row is the run's; after it every row with its token is, unless the row
was reaped: then there is none, and once it has tried to refresh its lease it only releases. -/
def Holds (t : LockTable) (r : LeaseRun) : Prop :=
  if r.phase.isPast then
    (∀ row ∈ t.rows, row.owner = some r.owner → row.author = some r.serial) ∧
      (r.reaped = true → ∀ row ∈ t.rows, row.author ≠ some r.serial) ∧
      (r.warned = true → r.phase = .releasing)
  else
    r.reaped = false ∧ r.warned = false ∧ ∀ row ∈ t.rows, row.author ≠ some r.serial

lemma holds_past {t : LockTable} {r : LeaseRun} (h : r.phase.isPast = true) :
    Holds t r ↔ (∀ row ∈ t.rows, row.owner = some r.owner → row.author = some r.serial) ∧
      (r.reaped = true → ∀ row ∈ t.rows, row.author ≠ some r.serial) ∧
      (r.warned = true → r.phase = .releasing) := by
  rw [Holds, if_pos h]

lemma holds_polling {t : LockTable} {r : LeaseRun} (h : r.phase.isPast = false) :
    Holds t r ↔
      r.reaped = false ∧ r.warned = false ∧ ∀ row ∈ t.rows, row.author ≠ some r.serial := by
  rw [Holds, if_neg (by simp [h])]

/-- Every row of `t'` comes from one of `t`, with its owner and its author. -/
def Shrinks (t t' : LockTable) : Prop :=
  ∀ row' ∈ t'.rows, ∃ row ∈ t.rows, row'.owner = row.owner ∧ row'.author = row.author

lemma shrinks_refl (t : LockTable) : Shrinks t t :=
  fun row hrow => ⟨row, hrow, rfl, rfl⟩

lemma shrinks_keep (t : LockTable) (p : LockRow → Bool) : Shrinks t (t.keep p) :=
  fun row hrow => ⟨row, (List.mem_filter.mp hrow).1, rfl, rfl⟩

lemma shrinks_refresh (t : LockTable) (now lease : ℕ) (owner : String) :
    Shrinks t (t.refresh now lease owner) := by
  intro row' hrow'
  obtain ⟨row, hrow, rfl⟩ := List.mem_map.mp hrow'
  refine ⟨row, hrow, ?_⟩
  by_cases h : row.isOwnedBy owner <;> simp [h]

lemma Holds.shrink {t t' : LockTable} {r : LeaseRun} (h : Holds t r) (ht : Shrinks t t') :
    Holds t' r := by
  by_cases hpast : r.phase.isPast = true
  · rw [holds_past hpast] at h ⊢
    refine ⟨fun row' hrow' howner => ?_, fun hreaped row' hrow' => ?_, h.2.2⟩
    · obtain ⟨row, hrow, ho, ha⟩ := ht row' hrow'
      exact ha.trans (h.1 row hrow (ho.symm.trans howner))
    · obtain ⟨row, hrow, -, ha⟩ := ht row' hrow'
      exact ha ▸ h.2.1 hreaped row hrow
  · rw [holds_polling (Bool.eq_false_iff.mpr hpast)] at h ⊢
    refine ⟨h.1, h.2.1, fun row' hrow' => ?_⟩
    obtain ⟨row, hrow, -, ha⟩ := ht row' hrow'
    exact ha ▸ h.2.2 row hrow

/-- Between statements a run moves on without losing what it holds. -/
lemma Holds.moved {t : LockTable} {r : LeaseRun} {phase : LeasePhase} (h : Holds t r)
    (hsame : phase.isPast = r.phase.isPast) (hr : r.phase ≠ .releasing) :
    Holds t { r with phase := phase } := by
  by_cases hpast : r.phase.isPast = true
  · obtain ⟨hown, hgone, hwarned⟩ := (holds_past hpast).mp h
    exact (holds_past (hsame.trans hpast)).mpr ⟨hown, hgone, fun hw => absurd (hwarned hw) hr⟩
  · have hpast := Bool.eq_false_iff.mpr hpast
    exact (holds_polling (hsame.trans hpast)).mpr ((holds_polling hpast).mp h)

/-- The row that a reap takes from a run was the only one. -/
lemma Holds.reap {t : LockTable} {r : LeaseRun} {now lease : ℕ} {row : LockRow}
    (h : Holds t r) (hrow : row ∈ t.rows) (hexpired : row.isExpired now lease = true)
    (hauthor : row.author = some r.serial) : Holds (t.reap now lease) { r with reaped := true } := by
  have hempty : (t.reap now lease).rows = [] := by
    refine List.eq_nil_iff_forall_not_mem.mpr fun row' hrow' => ?_
    obtain ⟨hmem, hkept⟩ := List.mem_filter.mp hrow'
    obtain rfl : row' = row := t.eq_of_mem hmem hrow
    simp [hexpired] at hkept
  by_cases hpast : r.phase.isPast = true
  · rw [holds_past hpast] at h
    refine (holds_past (r := { r with reaped := true }) hpast).mpr ?_
    rw [hempty]
    exact ⟨by simp, by simp, h.2.2⟩
  · rw [holds_polling (Bool.eq_false_iff.mpr hpast)] at h
    exact absurd hauthor (h.2.2 row hrow)

/-! ### The invariant -/

structure Invariant (s : LeaseFleet ι) : Prop where
  author_lt : ∀ row ∈ s.table.rows, ∀ n ∈ row.author, n < s.serial
  serial_lt : ∀ i, ∀ r ∈ s.runs i, r.serial < s.serial
  serial_inj : ∀ i j, ∀ r ∈ s.runs i, ∀ q ∈ s.runs j, r.serial = q.serial → i = j
  owner_inj : ∀ i j, ∀ r ∈ s.runs i, ∀ q ∈ s.runs j, r.owner = q.owner → i = j
  holds : ∀ i, ∀ r ∈ s.runs i, Holds s.table r
  exclusive : s.misrefreshed = false ∧ s.misreleased = false ∧ s.overran = false

omit [DecidableEq ι] in
/-- Most steps leave every run its serial number and its token. -/
lemma Invariant.of_runs {s s' : LeaseFleet ι} (h : s.Invariant) (hserial : s'.serial = s.serial)
    (hruns : ∀ j, ∀ q' ∈ s'.runs j,
      (∃ q ∈ s.runs j, q'.owner = q.owner ∧ q'.serial = q.serial) ∧ Holds s'.table q')
    (hauthor : ∀ row ∈ s'.table.rows, ∀ n ∈ row.author, n < s.serial)
    (hexclusive : s'.misrefreshed = false ∧ s'.misreleased = false ∧ s'.overran = false) :
    s'.Invariant where
  author_lt row hrow n hn := hserial ▸ hauthor row hrow n hn
  serial_lt i r' hr' := by
    obtain ⟨r, hr, -, hs⟩ := (hruns i r' hr').1
    rw [hserial, hs]
    exact h.serial_lt i r hr
  serial_inj i j r' hr' q' hq' heq := by
    obtain ⟨r, hr, -, hrs⟩ := (hruns i r' hr').1
    obtain ⟨q, hq, -, hqs⟩ := (hruns j q' hq').1
    exact h.serial_inj i j r hr q hq (by rw [← hrs, ← hqs, heq])
  owner_inj i j r' hr' q' hq' heq := by
    obtain ⟨r, hr, hro, -⟩ := (hruns i r' hr').1
    obtain ⟨q, hq, hqo, -⟩ := (hruns j q' hq').1
    exact h.owner_inj i j r hr q hq (by rw [← hro, ← hqo, heq])
  holds i r' hr' := (hruns i r' hr').2
  exclusive := hexclusive

omit [DecidableEq ι] in
lemma author_lt_of_shrinks {s : LeaseFleet ι} {t : LockTable} (h : s.Invariant)
    (ht : Shrinks s.table t) : ∀ row ∈ t.rows, ∀ n ∈ row.author, n < s.serial := by
  intro row' hrow' n hn
  obtain ⟨row, hrow, -, ha⟩ := ht row' hrow'
  exact h.author_lt row hrow n (ha ▸ hn)

/-- One run moves on, or ends, and the table only shrinks. -/
lemma Invariant.setRun {s s' : LeaseFleet ι} {i : ι} {r : LeaseRun} {r' : Option LeaseRun}
    (h : s.Invariant) (hr : s.runs i = some r) (hruns : s'.runs = Function.update s.runs i r')
    (hr' : ∀ q ∈ r', q.owner = r.owner ∧ q.serial = r.serial ∧ Holds s'.table q)
    (htable : Shrinks s.table s'.table) (hserial : s'.serial = s.serial)
    (hexclusive : s'.misrefreshed = false ∧ s'.misreleased = false ∧ s'.overran = false) :
    s'.Invariant := by
  refine h.of_runs hserial (fun j q hq => ?_) (author_lt_of_shrinks h htable) hexclusive
  rw [hruns] at hq
  by_cases hj : j = i
  · subst hj
    rw [Function.update_self] at hq
    obtain ⟨ho, hs, hholds⟩ := hr' q hq
    exact ⟨⟨r, hr, ho, hs⟩, hholds⟩
  · rw [Function.update_of_ne hj] at hq
    exact ⟨⟨q, hq, rfl, rfl⟩, (h.holds j q hq).shrink htable⟩

omit [DecidableEq ι] in
lemma Invariant.reap {s : LeaseFleet ι} (h : s.Invariant) (lease : ℕ) :
    (s.reap lease).Invariant := by
  have htable : Shrinks s.table (s.reap lease).table := shrinks_keep _ _
  refine h.of_runs rfl (fun j r' hr' => ?_) (author_lt_of_shrinks h htable) h.exclusive
  obtain ⟨r, hr, rfl⟩ := Option.map_eq_some_iff.mp hr'
  have hholds := h.holds j r hr
  by_cases hgone : (s.table.rows.filter fun row => row.isExpired s.now lease).any
      (fun row => row.author = some r.serial) = true
  · rw [if_pos hgone]
    obtain ⟨row, hrow, hauthor⟩ := List.any_eq_true.mp hgone
    obtain ⟨hrow, hexpired⟩ := List.mem_filter.mp hrow
    exact ⟨⟨r, hr, rfl, rfl⟩, hholds.reap hrow hexpired (of_decide_eq_true hauthor)⟩
  · rw [if_neg hgone]
    exact ⟨⟨r, hr, rfl, rfl⟩, hholds.shrink htable⟩

/-- The insert finds the table empty, so its row is the only one. -/
lemma Invariant.insert {s : LeaseFleet ι} {i : ι} {r : LeaseRun} {phase : LeasePhase}
    (h : s.Invariant) (hr : s.runs i = some r) (hphase : r.phase.isPast = false)
    (hpast : phase.isPast = true) (hfree : s.table.isFree = true) :
    { s.setRun i (some { r with phase := phase }) with
      table := s.table.insert s.now r.lease r.owner r.serial }.Invariant := by
  obtain ⟨hreaped, hwarned, -⟩ := (holds_polling hphase).mp (h.holds i r hr)
  have hrows : ∀ row ∈ (s.table.insert s.now r.lease r.owner r.serial).rows,
      row.owner = some r.owner ∧ row.author = some r.serial := by
    simp [LockTable.insert, hfree, s.table.isFree_iff.mp hfree]
  refine h.of_runs rfl (fun j q hq => ?_) (fun row hrow n hn => ?_) h.exclusive
  · replace hq : Function.update s.runs i (some { r with phase := phase }) j = some q := hq
    by_cases hj : j = i
    · subst hj
      obtain rfl : { r with phase := phase } = q := by simpa using hq
      refine ⟨⟨r, hr, rfl, rfl⟩, (holds_past hpast).mpr ⟨fun row hrow _ => (hrows row hrow).2, ?_⟩⟩
      simp [hreaped, hwarned]
    · rw [Function.update_of_ne hj] at hq
      refine ⟨⟨q, hq, rfl, rfl⟩, ?_⟩
      have howner : r.owner ≠ q.owner := fun heq => hj (h.owner_inj j i q hq r hr heq.symm)
      have hserial : r.serial ≠ q.serial := fun heq => hj (h.serial_inj j i q hq r hr heq.symm)
      have hother := h.holds j q hq
      by_cases hq' : q.phase.isPast = true
      · rw [holds_past hq'] at hother ⊢
        refine ⟨fun row hrow ho => ?_, fun _ row hrow ha => ?_, hother.2.2⟩
        · exact absurd (Option.some.inj ((hrows row hrow).1.symm.trans ho)) howner
        · exact hserial (Option.some.inj ((hrows row hrow).2.symm.trans ha))
      · rw [holds_polling (Bool.eq_false_iff.mpr hq')] at hother ⊢
        refine ⟨hother.1, hother.2.1, fun row hrow ha => ?_⟩
        exact hserial (Option.some.inj ((hrows row hrow).2.symm.trans ha))
  · obtain rfl : r.serial = n := Option.some.inj ((hrows row hrow).2.symm.trans hn)
    exact h.serial_lt i r hr

/-- No row with the token of a run past its insert is another run's. -/
lemma Holds.any_ownedBy {t : LockTable} {r : LeaseRun} (h : Holds t r)
    (hpast : r.phase.isPast = true) :
    ((t.ownedBy r.owner).any fun row => row.author ≠ some r.serial) = false := by
  refine List.any_eq_false.mpr fun row hrow => ?_
  obtain ⟨hmem, hown⟩ := List.mem_filter.mp hrow
  have howner : row.owner = some r.owner := by
    rw [LockRow.isOwnedBy, Bool.and_eq_true] at hown
    exact of_decide_eq_true hown.2
  simp [((holds_past hpast).mp h).1 row hmem howner]

/-- A run whose row was reaped finds none with its token. -/
lemma Holds.ownedBy_eq_nil {t : LockTable} {r : LeaseRun} (h : Holds t r)
    (hpast : r.phase.isPast = true) (hreaped : r.reaped = true) : t.ownedBy r.owner = [] := by
  obtain ⟨hown, hgone, -⟩ := (holds_past hpast).mp h
  refine List.filter_eq_nil_iff.mpr fun row hrow hmine => ?_
  rw [LockRow.isOwnedBy, Bool.and_eq_true] at hmine
  exact hgone hreaped row hrow (hown row hrow (of_decide_eq_true hmine.2))

lemma Invariant.runStep {s s' : LeaseFleet ι} {i : ι} {r : LeaseRun} (h : s.Invariant)
    (hr : s.runs i = some r) (hstep : s.runStep i r = some s') : s'.Invariant := by
  have hholds := h.holds i r hr
  cases hphase : r.phase with
  | polling todo =>
    simp only [LeaseFleet.runStep, hphase] at hstep
    obtain rfl := Option.some.inj hstep
    have hmoved : (s.setRun i (some { r with phase := .inserting todo })).Invariant := by
      refine h.setRun hr rfl ?_ (shrinks_refl _) rfl h.exclusive
      rintro q ⟨⟩
      exact ⟨rfl, rfl, hholds.moved (by rw [hphase]; rfl) (by simp [hphase])⟩
    exact hmoved.reap _
  | inserting todo =>
    simp only [LeaseFleet.runStep, hphase] at hstep
    by_cases hfree : s.table.isFree = true
    · rw [if_pos hfree] at hstep
      obtain rfl := Option.some.inj hstep
      refine h.insert hr (by rw [hphase]; rfl) ?_ hfree
      split
      · rfl
      · exact LeasePhase.isPast_loop todo
    · rw [if_neg hfree] at hstep
      by_cases htimeout : r.started + r.timeout ≤ s.clock
      · rw [if_pos htimeout] at hstep
        obtain rfl := Option.some.inj hstep
        exact h.setRun hr rfl (by rintro q ⟨⟩) (shrinks_refl _) rfl h.exclusive
      · rw [if_neg htimeout] at hstep
        obtain rfl := Option.some.inj hstep
        refine h.setRun hr rfl ?_ (shrinks_refl _) rfl h.exclusive
        rintro q ⟨⟩
        exact ⟨rfl, rfl, hholds.moved (by rw [hphase]; rfl) (by simp [hphase])⟩
  | rereading todo =>
    simp only [LeaseFleet.runStep, hphase] at hstep
    cases hstep
  | renewing version rest =>
    have hpast : r.phase.isPast = true := by rw [hphase]; rfl
    simp only [LeaseFleet.runStep, hphase] at hstep
    obtain rfl := Option.some.inj hstep
    have htable := shrinks_refresh s.table s.now r.lease r.owner
    refine h.setRun hr rfl ?_ htable rfl ⟨?_, h.exclusive.2⟩
    · rintro q ⟨⟩
      refine ⟨rfl, rfl, (holds_past ?_).mpr ?_⟩
      · show LeasePhase.isPast (if _ then _ else _) = true
        split <;> rfl
      · obtain ⟨hown, hgone, -⟩ := (holds_past hpast).mp (hholds.shrink htable)
        refine ⟨hown, hgone, fun hreaped => ?_⟩
        exact if_pos (hholds.ownedBy_eq_nil hpast hreaped)
    · show (s.misrefreshed || _) = false
      rw [hholds.any_ownedBy hpast, h.exclusive.1]
      rfl
  | starting version rest =>
    have hpast : r.phase.isPast = true := by rw [hphase]; rfl
    simp only [LeaseFleet.runStep, hphase] at hstep
    obtain rfl := Option.some.inj hstep
    have hunwarned : r.warned = false := by
      refine Bool.eq_false_iff.mpr fun hwarned => ?_
      have hreleasing := ((holds_past hpast).mp hholds).2.2 hwarned
      rw [hphase] at hreleasing
      cases hreleasing
    refine h.setRun hr rfl ?_ (shrinks_refl _) rfl ⟨h.exclusive.1, h.exclusive.2.1, ?_⟩
    · rintro q ⟨⟩
      exact ⟨rfl, rfl, hholds.moved (by rw [hphase]; rfl) (by simp [hphase])⟩
    · show (s.overran || r.warned) = false
      rw [hunwarned, h.exclusive.2.2]
      rfl
  | working version rest =>
    simp only [LeaseFleet.runStep, hphase] at hstep
    obtain rfl := Option.some.inj hstep
    refine h.setRun hr rfl ?_ (shrinks_refl _) rfl h.exclusive
    rintro q ⟨⟩
    exact ⟨rfl, rfl, hholds.moved (by rw [hphase, LeasePhase.isPast_loop]; rfl) (by simp [hphase])⟩
  | releasing =>
    have hpast : r.phase.isPast = true := by rw [hphase]; rfl
    simp only [LeaseFleet.runStep, hphase] at hstep
    obtain rfl := Option.some.inj hstep
    refine h.setRun hr rfl (by rintro q ⟨⟩) (shrinks_keep _ _) rfl
      ⟨h.exclusive.1, ?_, h.exclusive.2.2⟩
    show (s.misreleased || _) = false
    rw [hholds.any_ownedBy hpast, h.exclusive.2.1]
    rfl

/-- A run begins with a serial number and a token of its own, and holds no row. -/
lemma Invariant.start {s : LeaseFleet ι} {i : ι} {r : LeaseRun} (h : s.Invariant)
    (hserial : r.serial = s.serial) (howner : ∀ j, ∀ q ∈ s.runs j, q.owner ≠ r.owner)
    (hphase : r.phase.isPast = false) (hreaped : r.reaped = false) (hwarned : r.warned = false) :
    { s.setRun i (some r) with serial := s.serial + 1 }.Invariant := by
  have hruns : ∀ j, ∀ q ∈ Function.update s.runs i (some r) j,
      j = i ∧ q = r ∨ j ≠ i ∧ q ∈ s.runs j := by
    intro j q hq
    by_cases hj : j = i
    · subst hj
      rw [Function.update_self] at hq
      exact Or.inl ⟨rfl, (Option.some.inj hq).symm⟩
    · rw [Function.update_of_ne hj] at hq
      exact Or.inr ⟨hj, hq⟩
  refine ⟨fun row hrow n hn => ?_, fun j q hq => ?_, fun j k q hq p hp heq => ?_,
    fun j k q hq p hp heq => ?_, fun j q hq => ?_, h.exclusive⟩
  · exact Nat.lt_succ_of_lt (h.author_lt row hrow n hn)
  · obtain ⟨rfl, rfl⟩ | ⟨-, hq⟩ := hruns j q hq
    · exact hserial ▸ Nat.lt_succ_self _
    · exact Nat.lt_succ_of_lt (h.serial_lt j q hq)
  · obtain ⟨rfl, rfl⟩ | ⟨-, hq'⟩ := hruns j q hq <;> obtain ⟨rfl, rfl⟩ | ⟨-, hp⟩ := hruns k p hp
    · rfl
    · exact absurd (heq.symm.trans hserial) (h.serial_lt k p hp).ne
    · exact absurd (heq.trans hserial) (h.serial_lt j q hq').ne
    · exact h.serial_inj j k q hq' p hp heq
  · obtain ⟨rfl, rfl⟩ | ⟨-, hq'⟩ := hruns j q hq <;> obtain ⟨rfl, rfl⟩ | ⟨-, hp⟩ := hruns k p hp
    · rfl
    · exact absurd heq.symm (howner k p hp)
    · exact absurd heq (howner j q hq')
    · exact h.owner_inj j k q hq' p hp heq
  · obtain ⟨rfl, rfl⟩ | ⟨-, hq⟩ := hruns j q hq
    · refine (holds_polling hphase).mpr ⟨hreaped, hwarned, fun row hrow hauthor => ?_⟩
      exact absurd (hserial ▸ h.author_lt row hrow _ hauthor) (lt_irrefl _)
    · exact h.holds j q hq

theorem Invariant.step {s s' : LeaseFleet ι} {e : LeaseEvent ι} (h : s.Invariant)
    (hfresh : s.DrawsFreshOwner e) (hstep : s.step e = some s') : s'.Invariant := by
  cases e with
  | start i call pid lease timeout todo =>
    simp only [LeaseFleet.step] at hstep
    split at hstep
    · cases hstep
    · obtain rfl := Option.some.inj hstep
      exact h.start rfl hfresh rfl rfl rfl
  | run i =>
    obtain ⟨r, hr, hstep⟩ := Option.bind_eq_some_iff.mp hstep
    exact h.runStep hr hstep
  | reread i already =>
    obtain ⟨r, hr, hstep⟩ := Option.bind_eq_some_iff.mp hstep
    cases hphase : r.phase with
    | rereading todo =>
      simp only [hphase] at hstep
      obtain rfl := Option.some.inj hstep
      refine h.setRun hr rfl ?_ (shrinks_refl _) rfl h.exclusive
      rintro q ⟨⟩
      refine ⟨rfl, rfl, (h.holds i r hr).moved ?_ (by simp [hphase])⟩
      rw [hphase, LeasePhase.isPast_loop]
      rfl
    | _ => simp [hphase] at hstep
  | refuse i =>
    obtain ⟨r, hr, rfl⟩ := Option.map_eq_some_iff.mp hstep
    refine h.setRun hr rfl (fun q hq => ?_) (shrinks_refl _) rfl h.exclusive
    have hholds := h.holds i r hr
    cases hphase : r.phase <;> simp only [refused, hphase] at hq <;> cases hq
    all_goals exact ⟨rfl, rfl, hholds.moved (by rw [hphase]; rfl) (by simp [hphase])⟩
  | stop i =>
    obtain ⟨r, hr, rfl⟩ := Option.map_eq_some_iff.mp hstep
    exact h.setRun hr rfl (by rintro q ⟨⟩) (shrinks_refl _) rfl h.exclusive
  | reap lease =>
    obtain rfl := Option.some.inj hstep
    exact h.reap lease
  | tick d =>
    obtain rfl := Option.some.inj hstep
    exact ⟨h.author_lt, h.serial_lt, h.serial_inj, h.owner_inj, h.holds, h.exclusive⟩

omit [DecidableEq ι] in
lemma invariant_init (clock : ℕ) (table : LockTable) :
    (init clock table : LeaseFleet ι).Invariant := by
  refine ⟨fun row hrow n hn => ?_, nofun, nofun, nofun, nofun, rfl, rfl, rfl⟩
  obtain ⟨row, -, rfl⟩ := List.mem_map.mp hrow
  cases hn

omit [DecidableEq ι] in
lemma Invariant.toExclusive {s : LeaseFleet ι} (h : s.Invariant) : s.Exclusive :=
  ⟨s.table.length_le_one, h.exclusive⟩

/-- As long as no two runs under way draw one token, the lease is exclusive in every state. -/
theorem exclusive_of_fresh_owners {clock : ℕ} {table : LockTable} {es : List (LeaseEvent ι)}
    (hfresh : Machine.Meets step DrawsFreshOwner (init clock table) es) :
    Machine.Always step Exclusive (init clock table) es :=
  (Machine.always_of_meets (fun _ _ _ h hG => h.step hG) (invariant_init clock table) hfresh).mono
    fun _ h => h.toExclusive

instance [Fintype ι] (s : LeaseFleet ι) (e : LeaseEvent ι) : Decidable (s.DrawsFreshOwner e) :=
  match e with
  | .start _ _ pid _ _ _ =>
    inferInstanceAs (Decidable (∀ j, ∀ r ∈ s.runs j, r.owner ≠ newOwner pid s.clock))
  | .run _ | .reread _ _ | .refuse _ | .stop _ | .reap _ | .tick _ => isTrue trivial

/-- Two containers whose runner has process id 1 begin a run each; the first is still in its file
when the second reaps its row, and then releases the second one's. -/
def slowFile (later : ℕ) : List (LeaseEvent Bool) :=
  [.start true .migrate 1 1800 0 [1], .tick later, .start false .migrate 1 1800 0 [2],
    .run true, .run true, .reread true [], .run true, .run true, .tick 1800000000000,
    .run false, .run false, .run true, .run true]

/-- A nanosecond apart, the two tokens differ. -/
theorem exclusive_of_fresh_owners_slowFile :
    Machine.Always step Exclusive (init 0 ⟨[], by simp, by simp⟩) (slowFile 1) :=
  exclusive_of_fresh_owners (by decide)

/-- At the same nanosecond they do not: the first run deletes the row of the second. -/
theorem exclusive_fails_for_one_token :
    ∃ s, Machine.exec step (init 0 ⟨[], by simp, by simp⟩) (slowFile 0) = some s ∧
      s.misreleased = true ∧ ¬ s.Exclusive := by
  refine ⟨_, rfl, rfl, fun h => ?_⟩
  cases h.2.2.1

end LeaseFleet

end Moso.Migrate
