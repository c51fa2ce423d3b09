import Moso.Authz.Perm

/-!
# Actors and the ceilings of their credentials

The `Role` trait, the bitset `RoleSet` and `Actor`, which keeps the permissions that its roles and
its grants come to, cut down to the ceiling of its credentials. However the calls on an actor
follow one another, its permissions are those of its current roles and of the grants made since
they were resolved, within every ceiling that was ever applied.
-/

namespace Moso.Authz

/-! ### Roles -/

/-- `MAX_ROLES`. -/
def maxRoles : ℕ := 64

/-- What `roles!` implements on the generated enum; `P` is its permission registry. -/
class Role (R : Type*) (P : outParam Type*) where
  all : List R
  index : R → UInt8
  permissions : R → PermSet P

/-- A compact set of roles. -/
structure RoleSet (R : Type*) where
  bits : BitVec 64

namespace RoleSet

variable {R P : Type*} [Role R P]

def empty : RoleSet R := ⟨0⟩

/-- The bit of a role. -/
def mask (role : R) : BitVec 64 := 1#64 <<< (Role.index role).toNat

/-- Add a role; one without a bit is ignored. -/
def with_ (set : RoleSet R) (role : R) : RoleSet R :=
  if (Role.index role).toNat < maxRoles then ⟨set.bits ||| mask role⟩ else set

/-- A set holding exactly the given roles. -/
def of (roles : List R) : RoleSet R := roles.foldl with_ empty

def has (set : RoleSet R) (role : R) : Bool :=
  decide ((Role.index role).toNat < maxRoles) && set.bits &&& mask role ≠ 0

/-- The roles in the set, in registry order. -/
def iter (set : RoleSet R) : List R := Role.all.filter set.has

/-- The union of every held role's permissions. -/
def permissions (set : RoleSet R) : PermSet P :=
  (set.iter.map Role.permissions).foldl PermSet.union PermSet.empty

lemma permissions_empty : (empty : RoleSet R).permissions = PermSet.empty := by
  have hiter : (empty : RoleSet R).iter = [] := by
    refine List.filter_eq_nil_iff.mpr fun role _ => ?_
    simp [has, empty]
  rw [permissions, hiter, List.map_nil, List.foldl_nil]

end RoleSet

/-! ### Who acts, and where -/

structure ScopeId where
  text : String
  deriving DecidableEq, Repr

/-- Where a role is held. -/
inductive Scope where
  | global
  | org (id : ScopeId)
  | project (id : ScopeId)
  | custom (kind : String) (id : ScopeId)
  deriving DecidableEq, Repr

inductive ActorKind where
  | anonymous
  | user
  | apiKey
  | service
  | job
  deriving DecidableEq, Repr

/-- The name used in audit records and explain traces. -/
def ActorKind.asStr : ActorKind → String
  | anonymous => "anonymous"
  | user      => "user"
  | apiKey    => "api_key"
  | service   => "service"
  | job       => "job"

structure ActorId where
  text : String
  deriving DecidableEq, Repr

def ActorId.anonymous : ActorId := ⟨"anonymous"⟩

/-- Who is asking, with roles and permissions already resolved. -/
structure Actor (R P : Type*) where
  id : ActorId
  kind : ActorKind
  scope : Scope
  roles : RoleSet R
  permissions : PermSet P
  ceiling : Option (PermSet P)

namespace Actor

variable {R P : Type*} [Role R P]

def new (id : ActorId) (kind : ActorKind) (scope : Scope) (roles : RoleSet R) : Actor R P where
  id := id
  kind := kind
  scope := scope
  roles := roles
  permissions := roles.permissions
  ceiling := none

/-- No roles, no permissions, global scope. -/
def anonymous : Actor R P where
  id := .anonymous
  kind := .anonymous
  scope := .global
  roles := .empty
  permissions := .empty
  ceiling := none

/-- Add permissions granted outside any static role. -/
def withPermissions (actor : Actor R P) (extra : PermSet P) : Actor R P :=
  let permissions := actor.permissions.union extra
  match actor.ceiling with
  | some ceiling => { actor with permissions := permissions.intersection ceiling }
  | none         => { actor with permissions := permissions }

/-- Cap the permissions at a credential's own scopes. -/
def cappedAt (actor : Actor R P) (ceiling : PermSet P) : Actor R P :=
  { actor with
    permissions := actor.permissions.intersection ceiling
    ceiling := some (match actor.ceiling with
      | some existing => existing.intersection ceiling
      | none          => ceiling) }

/-- The same actor, resolved for a different scope. -/
def inScope (actor : Actor R P) (scope : Scope) (roles : RoleSet R) : Actor R P :=
  { actor with
    scope := scope
    roles := roles
    permissions := match actor.ceiling with
      | some ceiling => roles.permissions.intersection ceiling
      | none         => roles.permissions }

end Actor

/-! ### Sequences of calls -/

/-- The constructors of an actor. -/
inductive ActorOrigin (R : Type*) where
  | new (id : ActorId) (kind : ActorKind) (scope : Scope) (roles : RoleSet R)
  | anonymous

/-- The calls that change one. -/
inductive ActorCall (R P : Type*) where
  | withPermissions (extra : PermSet P)
  | cappedAt (ceiling : PermSet P)
  | inScope (scope : Scope) (roles : RoleSet R)

/-- Whether the call replaces the roles. -/
def ActorCall.resolves {R P : Type*} : ActorCall R P → Bool
  | inScope _ _ => true
  | _           => false

/-- What the calls on an actor have said: the roles it has, what was granted beside them since
they were resolved, and every ceiling ever applied. -/
structure ActorHistory (R P : Type*) where
  roles : RoleSet R
  extras : List (PermSet P)
  ceilings : List (PermSet P)

variable {R P : Type*}

def ActorHistory.record (history : ActorHistory R P) : ActorCall R P → ActorHistory R P
  | .withPermissions extra => { history with extras := history.extras ++ [extra] }
  | .cappedAt ceiling      => { history with ceilings := history.ceilings ++ [ceiling] }
  | .inScope _ roles       => { history with
    roles := roles
    extras := [] }

/-- What was said when the actor was made. -/
def ActorOrigin.history : ActorOrigin R → ActorHistory R P
  | .new _ _ _ roles => ⟨roles, [], []⟩
  | .anonymous       => ⟨.empty, [], []⟩

/-- The intersection of all ceilings; without one, there is none. -/
def commonCeiling : List (PermSet P) → Option (PermSet P)
  | []                  => none
  | ceiling :: ceilings => some (ceilings.foldl PermSet.intersection ceiling)

section Calls

variable [Role R P]

def ActorOrigin.actor : ActorOrigin R → Actor R P
  | .new id kind scope roles => Actor.new id kind scope roles
  | .anonymous               => Actor.anonymous

def Actor.call (actor : Actor R P) : ActorCall R P → Actor R P
  | .withPermissions extra => actor.withPermissions extra
  | .cappedAt ceiling      => actor.cappedAt ceiling
  | .inScope scope roles   => actor.inScope scope roles

end Calls

/-! ### Sets within a ceiling -/

/-- What is left of a set within the ceiling. -/
def within (ceiling : Option (PermSet P)) (set : PermSet P) : PermSet P :=
  match ceiling with
  | some ceiling => set.intersection ceiling
  | none         => set

@[simp] lemma within_none (set : PermSet P) : within none set = set := rfl

@[simp] lemma within_some (ceiling set : PermSet P) :
    within (some ceiling) set = set.intersection ceiling := rfl

lemma within_union_within (ceiling : Option (PermSet P)) (set extra : PermSet P) :
    within ceiling ((within ceiling set).union extra) = within ceiling (set.union extra) := by
  cases ceiling with
  | none         => rfl
  | some ceiling => exact PermSet.intersection_union_intersection set extra ceiling

lemma foldl_intersection (ceilings : List (PermSet P)) (set ceiling : PermSet P) :
    ceilings.foldl PermSet.intersection (set.intersection ceiling) =
      set.intersection (ceilings.foldl PermSet.intersection ceiling) :=
  have : Std.Associative (PermSet.intersection (P := P)) := ⟨PermSet.intersection_assoc⟩
  List.foldl_assoc

/-- To be within the common ceiling is to be within each one. -/
lemma within_commonCeiling (ceilings : List (PermSet P)) (set : PermSet P) :
    within (commonCeiling ceilings) set = ceilings.foldl PermSet.intersection set := by
  cases ceilings with
  | nil                      => rfl
  | cons ceiling ceilings => exact (foldl_intersection ceilings set ceiling).symm

lemma commonCeiling_concat (ceilings : List (PermSet P)) (ceiling : PermSet P) :
    commonCeiling (ceilings ++ [ceiling]) = some (match commonCeiling ceilings with
      | some existing => existing.intersection ceiling
      | none          => ceiling) := by
  cases ceilings with
  | nil            => rfl
  | cons _ rest => simp [commonCeiling, List.foldl_append]

lemma bit_foldl_intersection {ceilings : List (PermSet P)} {set : PermSet P} {i : ℕ} :
    PackedBits.bit (ceilings.foldl PermSet.intersection set).words i = true ↔
      PackedBits.bit set.words i = true ∧
        ∀ ceiling ∈ ceilings, PackedBits.bit ceiling.words i = true := by
  induction ceilings generalizing set with
  | nil => simp
  | cons ceiling ceilings ih =>
    rw [List.foldl_cons, ih, PermSet.bit_intersection, Bool.and_eq_true, and_assoc,
      List.forall_mem_cons]

/-! ### The closed form -/

section Closed

variable [Role R P]

/-- The actor is what its history comes to. -/
structure Reflects (history : ActorHistory R P) (actor : Actor R P) : Prop where
  roles : actor.roles = history.roles
  ceiling : actor.ceiling = commonCeiling history.ceilings
  permissions : actor.permissions =
    within actor.ceiling (history.extras.foldl PermSet.union history.roles.permissions)

omit [Role R P] in
lemma Actor.withPermissions_eq (actor : Actor R P) (extra : PermSet P) :
    actor.withPermissions extra =
      { actor with permissions := within actor.ceiling (actor.permissions.union extra) } := by
  unfold withPermissions
  cases actor.ceiling <;> rfl

lemma reflects_origin (origin : ActorOrigin R) :
    Reflects (P := P) origin.history origin.actor := by
  cases origin with
  | new id kind scope roles => exact ⟨rfl, rfl, rfl⟩
  | anonymous => exact ⟨rfl, rfl, RoleSet.permissions_empty.symm⟩

variable {history : ActorHistory R P} {actor : Actor R P}

lemma Reflects.withPermissions (h : Reflects history actor) (extra : PermSet P) :
    Reflects (history.record (.withPermissions extra)) (actor.withPermissions extra) := by
  rw [Actor.withPermissions_eq]
  refine ⟨h.roles, h.ceiling, ?_⟩
  simp only [ActorHistory.record, List.foldl_append, List.foldl_cons, List.foldl_nil]
  rw [h.permissions, within_union_within]

lemma Reflects.cappedAt (h : Reflects history actor) (ceiling : PermSet P) :
    Reflects (history.record (.cappedAt ceiling)) (actor.cappedAt ceiling) := by
  refine ⟨h.roles, ?_, ?_⟩
  · simp only [ActorHistory.record, commonCeiling_concat, Actor.cappedAt]
    rw [h.ceiling]
  · simp only [ActorHistory.record, Actor.cappedAt, within_some]
    rw [h.permissions]
    cases actor.ceiling with
    | none => rfl
    | some existing => exact PermSet.intersection_assoc _ _ _

/-- The ceiling outlasts the roles that are replaced. -/
lemma Reflects.inScope (h : Reflects history actor) (scope : Scope) (roles : RoleSet R) :
    Reflects (history.record (.inScope scope roles)) (actor.inScope scope roles) := by
  refine ⟨rfl, h.ceiling, ?_⟩
  simp only [ActorHistory.record, Actor.inScope, List.foldl_nil]
  cases actor.ceiling <;> rfl

lemma Reflects.call (h : Reflects history actor) (call : ActorCall R P) :
    Reflects (history.record call) (actor.call call) := by
  cases call with
  | withPermissions extra => exact h.withPermissions extra
  | cappedAt ceiling      => exact h.cappedAt ceiling
  | inScope scope roles   => exact h.inScope scope roles

lemma Reflects.calls (h : Reflects history actor) (calls : List (ActorCall R P)) :
    Reflects (calls.foldl ActorHistory.record history) (calls.foldl Actor.call actor) := by
  induction calls generalizing history actor with
  | nil              => exact h
  | cons call calls ih => exact ih (h.call call)

/-- Nothing outside a ceiling is permitted. -/
lemma Reflects.has_of_has [Permission P] (h : Reflects history actor) {ceiling : PermSet P}
    (hceiling : ceiling ∈ history.ceilings) {p : P} (hp : actor.permissions.has p = true) :
    ceiling.has p = true := by
  rw [PermSet.has_eq, h.permissions, h.ceiling, within_commonCeiling] at hp
  rw [PermSet.has_eq]
  exact (bit_foldl_intersection.1 hp).2 ceiling hceiling

/-! ### The order of the calls -/

omit [Role R P] in
lemma Actor.withPermissions_comm (actor : Actor R P) (extra extra' : PermSet P) :
    (actor.withPermissions extra).withPermissions extra' =
      (actor.withPermissions extra').withPermissions extra := by
  simp only [Actor.withPermissions_eq, within_union_within, PermSet.union_assoc,
    PermSet.union_comm extra]

omit [Role R P] in
lemma Actor.cappedAt_comm (actor : Actor R P) (ceiling ceiling' : PermSet P) :
    (actor.cappedAt ceiling).cappedAt ceiling' = (actor.cappedAt ceiling').cappedAt ceiling := by
  unfold Actor.cappedAt
  cases actor.ceiling <;>
    simp only [PermSet.intersection_assoc, PermSet.intersection_comm ceiling]

omit [Role R P] in
/-- A grant comes to the same before a ceiling and after it. -/
lemma Actor.cappedAt_withPermissions (actor : Actor R P) (extra ceiling : PermSet P) :
    (actor.withPermissions extra).cappedAt ceiling =
      (actor.cappedAt ceiling).withPermissions extra := by
  rw [withPermissions_eq, withPermissions_eq]
  unfold cappedAt
  dsimp only
  congr 1
  cases actor.ceiling with
  | none =>
    simp only [within_none, within_some]
    rw [PermSet.intersection_union_intersection]
  | some existing =>
    simp only [within_some]
    rw [PermSet.intersection_comm existing, ← PermSet.intersection_assoc,
      PermSet.intersection_union_intersection, PermSet.intersection_assoc,
      PermSet.intersection_comm existing, ← PermSet.intersection_assoc]

/-- Two calls that leave the roles may be exchanged. -/
lemma Actor.call_comm (actor : Actor R P) {call call' : ActorCall R P}
    (h : call.resolves = false) (h' : call'.resolves = false) :
    (actor.call call).call call' = (actor.call call').call call := by
  cases call with
  | withPermissions extra =>
    cases call' with
    | withPermissions extra' => exact actor.withPermissions_comm extra extra'
    | cappedAt ceiling => exact actor.cappedAt_withPermissions extra ceiling
    | inScope => cases h'
  | cappedAt ceiling =>
    cases call' with
    | withPermissions extra => exact (actor.cappedAt_withPermissions extra ceiling).symm
    | cappedAt ceiling' => exact actor.cappedAt_comm ceiling ceiling'
    | inScope => cases h'
  | inScope => cases h

lemma Actor.calls_perm (actor : Actor R P) {calls calls' : List (ActorCall R P)}
    (hperm : calls.Perm calls') (h : ∀ call ∈ calls, call.resolves = false) :
    calls.foldl Actor.call actor = calls'.foldl Actor.call actor :=
  hperm.foldl_eq' (fun call hcall call' hcall' actor =>
    actor.call_comm (h call hcall) (h call' hcall')) actor

/-- The actor has what its roles and the grants since come to, within every ceiling that was
applied, which together are the ceiling it reports; it has nothing outside one of them. -/
structure ActorHistory.Attenuated [Permission P] (history : ActorHistory R P)
    (actor : Actor R P) : Prop where
  roles : actor.roles = history.roles
  permissions : actor.permissions = history.ceilings.foldl PermSet.intersection
    (history.extras.foldl PermSet.union history.roles.permissions)
  ceiling : actor.ceiling = commonCeiling history.ceilings
  inside : ∀ ceiling ∈ history.ceilings, ∀ p,
    actor.permissions.has p = true → ceiling.has p = true

lemma Reflects.attenuated [Permission P] (h : Reflects history actor) :
    history.Attenuated actor where
  roles := h.roles
  permissions := by rw [h.permissions, h.ceiling, within_commonCeiling]
  ceiling := h.ceiling
  inside := fun _ hceiling _ hp => h.has_of_has hceiling hp

/-- A ceiling is never lifted, whatever is called on an actor; and where the calls between two
resolutions of its roles come in another order, the actor is the same. -/
theorem Actor.attenuated_calls [Permission P] (origin : ActorOrigin R)
    (calls : List (ActorCall R P)) {between between' : List (ActorCall R P)}
    (hperm : between.Perm between') (hbetween : ∀ call ∈ between, call.resolves = false) :
    (calls.foldl ActorHistory.record origin.history).Attenuated
        (calls.foldl Actor.call origin.actor) ∧
      ∀ later, (calls ++ between ++ later).foldl Actor.call origin.actor =
        (calls ++ between' ++ later).foldl Actor.call origin.actor := by
  refine ⟨((reflects_origin origin).calls calls).attenuated, fun later => ?_⟩
  simp only [List.foldl_append]
  rw [Actor.calls_perm _ hperm hbetween]

end Closed

/-- The permissions of a small application. -/
inductive PostPerm where
  | read
  | settings
  deriving DecidableEq

instance : Permission PostPerm where
  all := [.read, .settings]
  fingerprint := 7
  index
    | .read     => 0
    | .settings => 1
  asStr
    | .read     => "posts.read"
    | .settings => "admin.settings"
  parse name :=
    if name = "posts.read" then some .read
    else if name = "admin.settings" then some .settings
    else none

/-- Its only role, which may read. -/
inductive PostRole where
  | viewer
  deriving DecidableEq

instance : Role PostRole PostPerm where
  all := [.viewer]
  index _ := 0
  permissions _ := .of [.read]

/-- A key that may only read is granted the settings, before its ceiling or after it. -/
theorem Actor.attenuated_calls_key :
    let origin : ActorOrigin PostRole := .new ⟨"usr_1"⟩ .apiKey .global (.of [.viewer])
    let grant : ActorCall PostRole PostPerm := .withPermissions (.of [.read, .settings])
    let cap : ActorCall PostRole PostPerm := .cappedAt (.of [.read])
    ([cap].foldl ActorHistory.record origin.history).Attenuated
        ([cap].foldl Actor.call origin.actor) ∧
      ∀ later, ([cap] ++ [grant, cap] ++ later).foldl Actor.call origin.actor =
        ([cap] ++ [cap, grant] ++ later).foldl Actor.call origin.actor :=
  Actor.attenuated_calls _ _ (List.Perm.swap _ _ _)
    (List.forall_mem_cons.mpr ⟨rfl, List.forall_mem_singleton.mpr rfl⟩)

end Moso.Authz
