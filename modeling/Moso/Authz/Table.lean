import Moso.Authz.Actor
import Moso.Foundation.Framing
import Moso.Foundation.Text

/-!
# The audit table

An `AuditRecord`, the `AuditEntry` that it becomes in the table, and the record that is made of an
entry again. All of a record comes back but, for some, its scope, which is stored as one text: the
kind, a colon and the identifier. The text is cut at its first colon, so that a kind of the
application's own that contains one, or is the name of a built-in kind, is not read back.
-/

namespace Moso.Authz

/-! ### Scopes -/

/-- The scope as one string, for a cache key or an audit record. -/
def Scope.asKey : Scope → String
  | global         => "global"
  | org id         => "org:" ++ id.text
  | project id     => "project:" ++ id.text
  | custom kind id => kind ++ ":" ++ id.text

/-- The reverse of `asKey`, as far as a key can be reversed. -/
def parseScope (key : String) : Scope :=
  match Text.splitOnce ':' key.toList with
  | some (kind, id) =>
    if String.ofList kind = "org" then .org ⟨String.ofList id⟩
    else if String.ofList kind = "project" then .project ⟨String.ofList id⟩
    else .custom (String.ofList kind) ⟨String.ofList id⟩
  | none => .global

/-- The reverse of `ActorKind.asStr`. -/
def parseKind (kind : String) : ActorKind :=
  if kind = "user" then .user
  else if kind = "api_key" then .apiKey
  else if kind = "service" then .service
  else if kind = "job" then .job
  else .anonymous

/-! ### Records -/

inductive AuditOutcome where
  | allow
  | deny
  deriving DecidableEq, Repr

/-- `REASON_MAX`. -/
def reasonMax : ℕ := 200

/-- Cut a reason to `max` characters, marking that it was cut. -/
def truncate (text : String) (max : ℕ) : String :=
  if text.toList.length ≤ max then text
  else (String.ofList (text.toList.take (max - 1))).push '…'

/-- One row of the audit trail; `τ` are the instants. -/
structure AuditRecord (τ : Type*) where
  at_ : τ
  actor : ActorId
  actorKind : ActorKind
  scope : Scope
  action : String
  resource : Option String
  outcome : AuditOutcome
  reason : String
  requestId : Option String
  ip : Option String
  route : Option String
  deriving DecidableEq, Repr

variable {τ : Type*}

namespace AuditRecord

/-- A record at the present instant, without a resource or a request. -/
def new (now : τ) (actor : ActorId) (kind : ActorKind) (scope : Scope) (action reason : String)
    (outcome : AuditOutcome) : AuditRecord τ where
  at_ := now
  actor := actor
  actorKind := kind
  scope := scope
  action := action
  resource := none
  outcome := outcome
  reason := truncate reason reasonMax
  requestId := none
  ip := none
  route := none

def deny (now : τ) (actor : ActorId) (kind : ActorKind) (scope : Scope) (action reason : String) :
    AuditRecord τ := new now actor kind scope action reason .deny

def allow (now : τ) (actor : ActorId) (kind : ActorKind) (scope : Scope) (action reason : String) :
    AuditRecord τ := new now actor kind scope action reason .allow

def withResource (record : AuditRecord τ) (name id : String) : AuditRecord τ :=
  { record with resource := some (name ++ "#" ++ id) }

def withRequest (record : AuditRecord τ) (requestId : String) (route ip : Option String) :
    AuditRecord τ :=
  { record with
    requestId := some requestId
    route := route
    ip := ip }

/-- A record as the constructors make it. -/
inductive Built : AuditRecord τ → Prop where
  | deny (now : τ) (actor : ActorId) (kind : ActorKind) (scope : Scope) (action reason : String) :
      Built (deny now actor kind scope action reason)
  | allow (now : τ) (actor : ActorId) (kind : ActorKind) (scope : Scope)
      (action reason : String) : Built (allow now actor kind scope action reason)
  | new (now : τ) (actor : ActorId) (kind : ActorKind) (scope : Scope) (action reason : String)
      (outcome : AuditOutcome) : Built (new now actor kind scope action reason outcome)
  | withResource {record : AuditRecord τ} (h : Built record) (name id : String) :
      Built (record.withResource name id)
  | withRequest {record : AuditRecord τ} (h : Built record) (requestId : String)
      (route ip : Option String) : Built (record.withRequest requestId route ip)

end AuditRecord

/-- One row of the table. -/
structure AuditEntry (τ : Type*) where
  at_ : τ
  actor : String
  actorKind : String
  scope : String
  action : String
  resource : Option String
  outcome : String
  reason : String
  requestId : Option String
  ip : Option String
  route : Option String
  deriving DecidableEq, Repr

namespace AuditEntry

/-- The row this record becomes. -/
def of (record : AuditRecord τ) : AuditEntry τ where
  at_ := record.at_
  actor := record.actor.text
  actorKind := record.actorKind.asStr
  scope := record.scope.asKey
  action := record.action
  resource := record.resource
  outcome := if record.outcome = .deny then "deny" else "allow"
  reason := record.reason
  requestId := record.requestId
  ip := record.ip
  route := record.route

/-- The record this row records, made at the instant `now`. -/
def toRecord (entry : AuditEntry τ) (now : τ) : AuditRecord τ :=
  { AuditRecord.new now ⟨entry.actor⟩ (parseKind entry.actorKind) (parseScope entry.scope)
      entry.action entry.reason (if entry.outcome = "deny" then .deny else .allow) with
    at_ := entry.at_
    resource := entry.resource
    requestId := entry.requestId
    ip := entry.ip
    route := entry.route }

end AuditEntry

/-! ### Keys of scopes -/

namespace Scope

/-- The kind and the identifier that a key is made of; the global one has neither. -/
def parts : Scope → Option (String × String)
  | global         => none
  | org id         => some ("org", id.text)
  | project id     => some ("project", id.text)
  | custom kind id => some (kind, id.text)

/-- A scope whose kind, if the application chose it, has no colon and is no built-in one's. -/
def Plain : Scope → Prop
  | custom kind _ => ':' ∉ kind.toList ∧ kind ≠ "org" ∧ kind ≠ "project"
  | _             => True

/-- Two scopes of the same kind and identifier, one of them built in; or one whose kind goes on,
after a colon, with the beginning of the other's identifier. -/
inductive Lookalike (s s' : Scope) : Prop where
  | same (hne : s ≠ s') {kind id : String} (h : s.parts = some (kind, id))
      (h' : s'.parts = some (kind, id))
  | left {kind id more : String} (h : s.parts = some (kind, more ++ ":" ++ id))
      (h' : s'.parts = some (kind ++ ":" ++ more, id))
  | right {kind id more : String} (h : s.parts = some (kind ++ ":" ++ more, id))
      (h' : s'.parts = some (kind, more ++ ":" ++ id))

lemma asKey_of_parts {s : Scope} {kind id : String} (h : s.parts = some (kind, id)) :
    s.asKey = kind ++ ":" ++ id := by
  cases s with
  | global => cases h
  | org i =>
    obtain ⟨rfl, rfl⟩ := Prod.mk.inj (Option.some.inj h)
    rfl
  | project i =>
    obtain ⟨rfl, rfl⟩ := Prod.mk.inj (Option.some.inj h)
    rfl
  | custom k i =>
    obtain ⟨rfl, rfl⟩ := Prod.mk.inj (Option.some.inj h)
    rfl

lemma parts_eq_none {s : Scope} : s.parts = none ↔ s = .global := by
  cases s <;> simp [parts]

lemma toList_key (kind id : String) :
    (kind ++ ":" ++ id).toList = kind.toList ++ ':' :: id.toList := by
  simp

lemma key_ne_global (kind id : String) : kind ++ ":" ++ id ≠ "global" := by
  intro h
  have hmem : ':' ∈ "global".toList := by
    rw [← h, toList_key]
    simp
  exact absurd hmem (by decide)

/-- Keys are the same when the colon in the one stands for another colon in the other. -/
lemma key_eq_key_iff {kind kind' id id' : String} :
    kind ++ ":" ++ id = kind' ++ ":" ++ id' ↔ kind = kind' ∧ id = id' ∨
      (∃ more, kind' = kind ++ ":" ++ more ∧ id = more ++ ":" ++ id') ∨
      ∃ more, kind = kind' ++ ":" ++ more ∧ id' = more ++ ":" ++ id := by
  simp only [← String.toList_inj, toList_key, Framing.append_sep_eq_append_sep_iff]
  refine or_congr_right (or_congr ?_ ?_)
  · exact ⟨fun ⟨m, h⟩ => ⟨String.ofList m, by simpa using h⟩, fun ⟨m, h⟩ => ⟨m.toList, h⟩⟩
  · exact ⟨fun ⟨m, h⟩ => ⟨String.ofList m, by simpa using h⟩, fun ⟨m, h⟩ => ⟨m.toList, h⟩⟩

/-- Two scopes have one key when they are the same and when they look alike. -/
lemma asKey_eq_asKey_iff {s s' : Scope} : s.asKey = s'.asKey ↔ s = s' ∨ Lookalike s s' := by
  constructor
  · intro h
    by_cases hne : s = s'
    · exact .inl hne
    · right
      rcases hparts : s.parts with _ | ⟨kind, id⟩
      · rcases hparts' : s'.parts with _ | ⟨kind', id'⟩
        · exact absurd ((parts_eq_none.1 hparts).trans (parts_eq_none.1 hparts').symm) hne
        · rw [parts_eq_none.1 hparts, asKey_of_parts hparts'] at h
          exact absurd h.symm (key_ne_global _ _)
      · rcases hparts' : s'.parts with _ | ⟨kind', id'⟩
        · rw [parts_eq_none.1 hparts', asKey_of_parts hparts] at h
          exact absurd h (key_ne_global _ _)
        · rw [asKey_of_parts hparts, asKey_of_parts hparts', key_eq_key_iff] at h
          rcases h with ⟨rfl, rfl⟩ | ⟨more, rfl, rfl⟩ | ⟨more, rfl, rfl⟩
          · exact .same hne hparts hparts'
          · exact .left hparts hparts'
          · exact .right hparts hparts'
  · rintro (rfl | ⟨-, h, h'⟩ | ⟨h, h'⟩ | ⟨h, h'⟩)
    · rfl
    · rw [asKey_of_parts h, asKey_of_parts h']
    · rw [asKey_of_parts h, asKey_of_parts h', key_eq_key_iff]
      exact .inr (.inl ⟨_, rfl, rfl⟩)
    · rw [asKey_of_parts h, asKey_of_parts h', key_eq_key_iff]
      exact .inr (.inr ⟨_, rfl, rfl⟩)

/-- The kind that a key is cut at has no colon, and a built-in one's is read as that. -/
lemma plain_parseScope (key : String) : (parseScope key).Plain := by
  unfold parseScope
  cases hsplit : Text.splitOnce ':' key.toList with
  | none => trivial
  | some parts =>
    obtain ⟨kind, id⟩ := parts
    dsimp only
    split_ifs with horg hproject
    · trivial
    · trivial
    · refine ⟨?_, horg, hproject⟩
      rw [String.toList_ofList]
      exact (Text.eq_append_of_splitOnce hsplit).1

lemma parseScope_key (kind id : String) (h : ':' ∉ kind.toList) :
    parseScope (kind ++ ":" ++ id) =
      if kind = "org" then .org ⟨id⟩ else if kind = "project" then .project ⟨id⟩
      else .custom kind ⟨id⟩ := by
  unfold parseScope
  rw [toList_key, Text.splitOnce_append _ h]
  simp only [String.ofList_toList]

/-- A plain scope is read back from its key, and no other. -/
lemma parseScope_asKey_iff {s : Scope} : parseScope s.asKey = s ↔ s.Plain := by
  refine ⟨fun h => h ▸ plain_parseScope s.asKey, fun h => ?_⟩
  cases s with
  | global =>
    have hnone : Text.splitOnce ':' "global".toList = none :=
      Text.splitOnce_eq_none (by decide)
    rw [asKey, parseScope, hnone]
  | org id => exact parseScope_key "org" id.text (by decide)
  | project id => exact parseScope_key "project" id.text (by decide)
  | custom kind id =>
    obtain ⟨hcolon, horg, hproject⟩ := h
    rw [asKey, parseScope_key kind id.text hcolon, if_neg horg, if_neg hproject]

end Scope

/-! ### Records that come back -/

lemma parseKind_asStr (kind : ActorKind) : parseKind kind.asStr = kind := by
  cases kind <;> decide

lemma outcome_of_text (outcome : AuditOutcome) :
    (if (if outcome = .deny then "deny" else "allow") = "deny" then AuditOutcome.deny
      else .allow) = outcome := by
  cases outcome <;> rfl

lemma length_truncate (text : String) {max : ℕ} (hmax : 0 < max) :
    (truncate text max).toList.length ≤ max := by
  unfold truncate
  split_ifs with h
  · exact h
  · simp only [String.toList_push, String.toList_ofList, List.length_append, List.length_take,
      List.length_singleton]
    omega

lemma truncate_of_le {text : String} {max : ℕ} (h : text.toList.length ≤ max) :
    truncate text max = text := if_pos h

namespace AuditRecord

/-- The reason is as short as the constructors make it. -/
lemma Built.length_reason {record : AuditRecord τ} (h : record.Built) :
    record.reason.toList.length ≤ reasonMax := by
  induction h with
  | deny | allow | new => exact length_truncate _ (by decide)
  | withResource _ _ _ ih => exact ih
  | withRequest _ _ _ _ ih => exact ih

/-- All but the scope comes back. -/
lemma Built.toRecord_of {record : AuditRecord τ} (h : record.Built) (now : τ) :
    (AuditEntry.of record).toRecord now =
      { record with scope := parseScope record.scope.asKey } := by
  have hreason := truncate_of_le h.length_reason
  unfold AuditEntry.toRecord AuditEntry.of AuditRecord.new
  simp only [parseKind_asStr, outcome_of_text, hreason]

/-- A record comes back when its scope does. -/
lemma Built.toRecord_of_iff {record : AuditRecord τ} (h : record.Built) (now : τ) :
    (AuditEntry.of record).toRecord now = record ↔ record.scope.Plain := by
  rw [h.toRecord_of, ← Scope.parseScope_asKey_iff]
  constructor
  · intro heq
    exact congrArg AuditRecord.scope heq
  · intro hscope
    rw [hscope]

end AuditRecord

end Moso.Authz
