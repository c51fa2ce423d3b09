import Moso.Authz.Perm

/-!
# Permission guards

`Requires`, the guard of a router, and `Required`, the extractor of an endpoint, both ask
`check_permissions` whether the bits of a permission source meet a requirement. A requirement that
names nothing, or nothing known, refuses everybody; one that is met refuses exactly the callers it
should while the source's bits belong to the registry of its fingerprint and, where all are
required, every permission has a bit.
-/

namespace Moso.Authz

/-- How many of a list must hold. -/
inductive RequireMode where
  | all
  | any
  deriving DecidableEq, Repr

namespace RequireMode

/-- Whether `held` satisfies `required`; an empty requirement refuses everybody. -/
def satisfiedBy (mode : RequireMode) (held required : PermBits) : Bool :=
  if required.isEmpty then false
  else
    match mode with
    | .all => held.hasAll required
    | .any => held.hasAny required

/-- The word an error message uses. -/
def description : RequireMode → String
  | .all => "all of"
  | .any => "at least one of"

end RequireMode

inductive RequireError where
  /-- No permission source is registered. -/
  | noSource
  | internal (message : String)
  /-- What the source failed with. -/
  | source (detail : String)
  | denied (subject action reason : String)
  deriving DecidableEq, Repr

/-- What a source answers to one request, and the registry that it says its bits belong to. -/
structure PermissionSource where
  permissions : Except RequireError PermBits
  fingerprint : BitVec 64

def otherRegistry : String :=
  "the registered `PermissionSource` was built against a different `permissions!` " ++
  "registry from the one this endpoint requires\n  help: an application has exactly " ++
  "one permission registry; check that `ActorPermissions::<Role>` and the `Perm` in " ++
  "`#[requires]` come from the same crate"

section Check

variable {P : Type*} [Permission P]

/-- Why a caller is refused. -/
def refusal (required : PermSet P) (mode : RequireMode) (held : PermBits) : String :=
  if required.isEmpty then "the requirement is empty, and an empty requirement refuses"
  else
    let missing :=
      match PermSet.fromBits held with
      | some held => ", ".intercalate (required.difference held).names
      | none      => ""
    "missing " ++ mode.description ++ " " ++ missing

/-- Read the caller's permission bits and compare them against a requirement. -/
def checkPermissions (source : Option PermissionSource) (required : PermSet P)
    (mode : RequireMode) : Except RequireError Unit := do
  let source ← match source with
    | some source => .ok source
    | none        => .error .noSource
  if source.fingerprint ≠ Permission.fingerprint P then
    .error (.internal otherRegistry)
  else
    let held ← source.permissions
    if mode.satisfiedBy held required.toBits then .ok ()
    else .error (.denied "required permissions" (", ".intercalate required.names)
      (refusal required mode held))

/-- `Requirement::resolve`: the set, and the names that the registry does not know. -/
def resolve (P : Type*) [Permission P] (names : List String) : PermSet P × List String :=
  names.foldl
    (fun (set, unknown) name =>
      match Permission.parse (P := P) name with
      | some permission => (set.with_ permission, unknown)
      | none            => (set, unknown ++ [name]))
    (.empty, [])

def unknownNames (unknown : List String) : String :=
  "`#[requires]` names " ++ toString unknown.length ++
  " permission(s) this application does not declare: " ++ ", ".intercalate unknown ++
  "\n  help: run the boot check — a `permissions!` registry and a `#[requires]` that disagree " ++
  "is a boot error, not a runtime one"

/-- What a call site requires: the set of a router guard, or the names of `#[requires]`. -/
inductive Requirement (P : Type*) where
  | requires (permissions : List P)
  | required (names : List String)

namespace Requirement

/-- `Requires::check` and `Required::extract`. -/
def check (r : Requirement P) (mode : RequireMode) (source : Option PermissionSource) :
    Except RequireError Unit :=
  match r with
  | requires permissions => checkPermissions source (PermSet.of permissions) mode
  | required names       => do
    let (set, unknown) := resolve P names
    if unknown ≠ [] then .error (.internal (unknownNames unknown))
    else checkPermissions source set mode

/-! ### What a guard promises -/

/-- The permissions that the call site listed, if all their names are known. -/
def listed : Requirement P → Option (List P)
  | requires permissions => some permissions
  | required names       =>
    if names.all fun name => (Permission.parse (P := P) name).isSome then
      some (names.filterMap Permission.parse)
    else none

/-- The holder has all of the permissions, or one. -/
def Holds (held : PermBits) (mode : RequireMode) (ps : List P) : Prop :=
  match mode with
  | .all => ∀ p ∈ ps, held.hasIndex (Permission.index p) = true
  | .any => ∃ p ∈ ps, held.hasIndex (Permission.index p) = true

/-- Whatever bits a source reads, under the fingerprint that it states and the one that the bits
carry, the guard admits only a holder of what was listed, and nobody where nothing was listed or
the source cannot be read. -/
def AdmitsOnlyHolders (r : Requirement P) (mode : RequireMode) (stated carried : BitVec 64) :
    Prop :=
  (∀ words, r.check mode (some ⟨.ok ⟨words, carried⟩, stated⟩) = .ok () →
    carried = Permission.fingerprint P ∧
      ∃ ps, r.listed = some ps ∧ ps ≠ [] ∧ Holds ⟨words, carried⟩ mode ps) ∧
  (∀ e, r.check mode (some ⟨.error e, stated⟩) ≠ .ok ()) ∧ r.check mode none ≠ .ok ()

end Requirement

/-! ### What a guard decides -/

/-- The known names end up in the set, the others in the list. -/
lemma resolve_eq (names : List String) : resolve P names =
    (PermSet.of (names.filterMap Permission.parse),
      names.filter fun name => (Permission.parse (P := P) name).isNone) := by
  have hloop : ∀ (set : PermSet P) (unknown : List String),
      names.foldl
        (fun (acc : PermSet P × List String) name =>
          match Permission.parse (P := P) name with
          | some permission => (acc.1.with_ permission, acc.2)
          | none            => (acc.1, acc.2 ++ [name]))
        (set, unknown) =
      ((names.filterMap Permission.parse).foldl PermSet.with_ set,
        unknown ++ names.filter fun name => (Permission.parse (P := P) name).isNone) := by
    induction names with
    | nil => simp
    | cons name names ih =>
      intro set unknown
      rw [List.foldl_cons]
      cases hparse : Permission.parse (P := P) name with
      | none => simp [ih, hparse]
      | some p => simp [ih, hparse]
  exact hloop .empty []

/-- A requirement meets bits by those of its permissions that have one. -/
lemma satisfiedBy_iff {mode : RequireMode} {held : PermBits} {ps : List P} :
    mode.satisfiedBy held (PermSet.of ps).toBits = true ↔
      (∃ p ∈ ps, Permission.index p < maxPermissions) ∧
        match mode with
        | .all => ∀ p ∈ ps, Permission.index p < maxPermissions →
            PackedBits.bit held.words (Permission.index p) = true
        | .any => ∃ p ∈ ps, PackedBits.bit held.words (Permission.index p) = true := by
  have hbit : ∀ i, PackedBits.bit (PermSet.of ps).toBits.words i = true ↔
      ∃ p ∈ ps, i = Permission.index p ∧ i < maxPermissions := PermSet.bit_of ps
  have hempty : (PermSet.of ps).toBits.isEmpty = true ↔
      ¬∃ p ∈ ps, Permission.index p < maxPermissions := by
    rw [PermBits.isEmpty_iff]
    constructor
    · rintro h ⟨p, hp, hlt⟩
      exact Bool.false_ne_true ((h _).symm.trans ((hbit _).mpr ⟨p, hp, rfl, hlt⟩))
    · intro h i
      refine Bool.eq_false_of_not_eq_true fun hi => ?_
      obtain ⟨p, hp, rfl, hlt⟩ := (hbit i).mp hi
      exact h ⟨p, hp, hlt⟩
  unfold RequireMode.satisfiedBy
  by_cases hsome : ∃ p ∈ ps, Permission.index p < maxPermissions
  · rw [if_neg (fun h => hempty.mp h hsome)]
    simp only [hsome, true_and]
    cases mode with
    | all =>
      rw [PermBits.hasAll_iff]
      constructor
      · exact fun h p hp hlt => h _ ((hbit _).mpr ⟨p, hp, rfl, hlt⟩)
      · intro h i hi
        obtain ⟨p, hp, rfl, hlt⟩ := (hbit i).mp hi
        exact h p hp hlt
    | any =>
      rw [PermBits.hasAny_iff]
      constructor
      · rintro ⟨i, hheld, hi⟩
        obtain ⟨p, hp, rfl, -⟩ := (hbit i).mp hi
        exact ⟨p, hp, hheld⟩
      · rintro ⟨p, hp, hheld⟩
        refine ⟨_, hheld, (hbit _).mpr ⟨p, hp, rfl, ?_⟩⟩
        by_contra hle
        rw [bit_of_le (not_lt.mp hle)] at hheld
        cases hheld
  · rw [if_pos (hempty.mpr hsome)]
    simp [hsome]

lemma checkPermissions_eq_ok {required : PermSet P} {mode : RequireMode} {held : PermBits}
    {stated : BitVec 64} :
    checkPermissions (some ⟨.ok held, stated⟩) required mode = .ok () ↔
      stated = Permission.fingerprint P ∧ mode.satisfiedBy held required.toBits = true := by
  by_cases hstated : stated = Permission.fingerprint P
  · by_cases hsatisfied : mode.satisfiedBy held required.toBits = true
    · simp [checkPermissions, hstated, hsatisfied, bind, Except.bind]
    · simp [checkPermissions, hstated, hsatisfied, bind, Except.bind]
  · simp [checkPermissions, hstated, bind, Except.bind]

lemma checkPermissions_error {required : PermSet P} {mode : RequireMode} {e : RequireError}
    {stated : BitVec 64} :
    checkPermissions (some ⟨.error e, stated⟩) required mode ≠ .ok () := by
  by_cases hstated : stated = Permission.fingerprint P
  · simp [checkPermissions, hstated, bind, Except.bind]
  · simp [checkPermissions, hstated, bind, Except.bind]

namespace Requirement

variable {r : Requirement P} {mode : RequireMode} {source : Option PermissionSource}

/-- A guard checks the set of what was listed, and refuses where a name is unknown. -/
lemma check_eq_ok : r.check mode source = .ok () ↔
    ∃ ps, r.listed = some ps ∧ checkPermissions source (PermSet.of ps) mode = .ok () := by
  cases r with
  | requires permissions => simp [check, listed]
  | required names =>
    by_cases hknown : (names.all fun name => (Permission.parse (P := P) name).isSome) = true
    · have hunknown : (names.filter fun name => (Permission.parse (P := P) name).isNone) = [] := by
        rw [List.filter_eq_nil_iff]
        intro name hname
        rw [Bool.not_eq_true, Option.isNone_eq_false_iff]
        exact List.all_eq_true.mp hknown name hname
      simp [check, listed, resolve_eq, hknown, hunknown]
    · have hunknown : (names.filter fun name => (Permission.parse (P := P) name).isNone) ≠ [] := by
        intro hnil
        refine hknown (List.all_eq_true.mpr fun name hname => ?_)
        have hsome := List.filter_eq_nil_iff.mp hnil name hname
        rwa [Bool.not_eq_true, Option.isNone_eq_false_iff] at hsome
      simp [check, listed, resolve_eq, hknown, hunknown]

/-- Every bit is held. -/
lemma bit_allOnes {i : ℕ} (h : i < maxPermissions) :
    PackedBits.bit (fun _ : Fin permWords => BitVec.allOnes 64) i = true := by
  have hmod := Nat.mod_lt i (by decide : 0 < 64)
  rw [PackedBits.bit, dif_pos (Nat.div_lt_of_lt_mul h), BitVec.getLsbD_allOnes]
  exact decide_eq_true hmod

/-- A guard admits only holders exactly when no source can meet it, or its source's bits belong to
the registry and, where all are required, all that is listed has a bit. -/
theorem admitsOnlyHolders_iff (r : Requirement P) (mode : RequireMode)
    (stated carried : BitVec 64) : r.AdmitsOnlyHolders mode stated carried ↔
      ∀ ps, r.listed = some ps →
        (∀ p ∈ ps, maxPermissions ≤ Permission.index p) ∨ stated ≠ Permission.fingerprint P ∨
          carried = Permission.fingerprint P ∧
            (mode = .all → ∀ p ∈ ps, Permission.index p < maxPermissions) := by
  have hadm : ∀ words, r.check mode (some ⟨.ok ⟨words, carried⟩, stated⟩) = .ok () ↔
      ∃ ps, r.listed = some ps ∧ stated = Permission.fingerprint P ∧
        mode.satisfiedBy ⟨words, carried⟩ (PermSet.of ps).toBits = true := by
    intro words
    simp only [check_eq_ok, checkPermissions_eq_ok]
  constructor
  · rintro ⟨honly, -, -⟩ ps hps
    by_cases hsome : ∃ p ∈ ps, Permission.index p < maxPermissions
    · by_cases hstated : stated = Permission.fingerprint P
      · -- a caller who holds everything is admitted
        have hall : mode.satisfiedBy ⟨fun _ => BitVec.allOnes 64, carried⟩
            (PermSet.of ps).toBits = true := by
          rw [satisfiedBy_iff]
          refine ⟨hsome, ?_⟩
          cases mode with
          | all => exact fun p _ hlt => bit_allOnes hlt
          | any =>
            obtain ⟨p, hp, hlt⟩ := hsome
            exact ⟨p, hp, bit_allOnes hlt⟩
        obtain ⟨hcarried, qs, hqs, -, hholds⟩ :=
          honly _ ((hadm _).mpr ⟨ps, hps, hstated, hall⟩)
        obtain rfl := Option.some.inj (hps.symm.trans hqs)
        refine .inr (.inr ⟨hcarried, ?_⟩)
        rintro rfl p hp
        by_contra hle
        have hheld := hholds p hp
        rw [PermBits.hasIndex_eq, bit_of_le (not_lt.mp hle)] at hheld
        cases hheld
      · exact .inr (.inl hstated)
    · left
      intro p hp
      exact not_lt.mp fun hlt => hsome ⟨p, hp, hlt⟩
  · intro h
    refine ⟨fun words hok => ?_, fun e hok => ?_, fun hok => ?_⟩
    · obtain ⟨ps, hps, hstated, hsatisfied⟩ := (hadm words).mp hok
      obtain ⟨⟨p, hp, hlt⟩, hmode⟩ := satisfiedBy_iff.mp hsatisfied
      rcases h ps hps with hout | hother | ⟨hcarried, hall⟩
      · exact absurd hlt (not_lt.mpr (hout p hp))
      · exact absurd hstated hother
      · refine ⟨hcarried, ps, hps, List.ne_nil_of_mem hp, ?_⟩
        cases mode with
        | all =>
          intro q hq
          rw [PermBits.hasIndex_eq]
          exact hmode q hq (hall rfl q hq)
        | any => simpa only [Holds, PermBits.hasIndex_eq] using hmode
    · obtain ⟨ps, -, hcheck⟩ := check_eq_ok.mp hok
      exact checkPermissions_error hcheck
    · obtain ⟨ps, -, hcheck⟩ := check_eq_ok.mp hok
      cases hcheck

end Requirement

end Check

/-- Two permissions of a hand-written registry, the second without a bit. -/
abbrev handwritten : Permission Bool where
  all := [false, true]
  fingerprint := 7
  index p := if p then 300 else 0
  asStr p := if p then "reports.export" else "reports.read"
  parse name :=
    if name = "reports.read" then some false
    else if name = "reports.export" then some true
    else none

/-- A holder of the first permission passes a guard that requires both, and bits of another
registry pass a guard whose source states the right one. -/
theorem Requirement.admitsOnlyHolders_fails :
    ¬(@Requirement.AdmitsOnlyHolders Bool handwritten (.requires [false, true]) .all 7 7) ∧
      ¬(@Requirement.AdmitsOnlyHolders Bool handwritten (.requires [false]) .any 7 8) := by
  constructor
  · rintro ⟨honly, -, -⟩
    obtain ⟨-, ps, hps, -, hholds⟩ := honly (fun _ => 1) rfl
    obtain rfl := Option.some.inj hps
    exact absurd (hholds true (by decide)) (by decide)
  · rintro ⟨honly, -, -⟩
    obtain ⟨hcarried, -⟩ := honly (fun _ => 1) rfl
    exact absurd hcarried (by decide)

end Moso.Authz
