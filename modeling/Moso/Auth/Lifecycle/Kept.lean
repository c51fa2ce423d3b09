import Moso.Auth.Extract
import Moso.Auth.Lifecycle.Accounts

/-!
# The session that a password change keeps

A password change and a log-out everywhere go through two stores: the epoch of the account is
bumped, and the sessions of the account are deleted but for the one that asks. Here both run over
a store of accounts and a store of sessions, the layer saves the session of the request, and later
requests come with the sessions. The session that is kept still has the hash of the old epoch.
-/

namespace Moso.Auth

open Stateful

/-- A store of accounts, with what is loaded of an account. The epoch of an account is what its
hash mixes in: `bump_epoch` raises it, and hashes of different epochs differ. -/
structure EpochStore (A Id User H : Type) where
  passwordHash : Id → A → Except Error (Option H)
  setPasswordHash : Id → H → A → Except Error Unit × A
  bumpEpoch : Id → A → Except Error Unit × A
  loadUser : Id → A → Except Error (Option User)
  authHash : User → List UInt8
  isActive : User → Bool
  epoch : A → Id → ℕ
  epoch_setPasswordHash : ∀ id hash a, epoch a id ≤ epoch (setPasswordHash id hash a).2 id
  epoch_bumpEpoch : ∀ id a, (bumpEpoch id a).1 = .ok () → epoch a id < epoch (bumpEpoch id a).2 id
  authHash_ne : ∀ id a a' user user', loadUser id a = .ok (some user) →
    loadUser id a' = .ok (some user') → epoch a id < epoch a' id → authHash user ≠ authHash user'

/-- What is done with passwords. -/
structure Passwords (P H : Type) where
  policy : P → Except Error Unit
  hash : P → Except Error H
  verify : H → P → Except Error Bool
  dummyVerify : Except Error Unit

/-- An application with its accounts and its sessions. -/
structure AccountSite (A Id User H P U : Type) where
  accounts : AccountFlows Id U
  store : EpochStore A Id User H
  passwords : Passwords P H
  indexKey : U → Except Kv.KeyError Unit
  structures : Bool
  sessions : SessionConfig
  /-- The text of an error of the session store. -/
  detail : SessionError → String

/-- What the stores hold. -/
structure SiteState (A κ U : Type) where
  accounts : A
  kv : SessionKv κ U

namespace AccountSite

section

variable {A Id User H P κ U : Type} [DecidableEq κ] [DecidableEq U]
  (site : AccountSite A Id User H P U) (now : ℕ)

/-- A query of the store of accounts. -/
def query {α : Type} (read : A → Except Error α) : Stateful Error (SiteState A κ U) α := do
  settle (read (← get).accounts)

/-- A command to the store of accounts. -/
def command {α : Type} (run : A → Except Error α × A) : Stateful Error (SiteState A κ U) α :=
  ExceptT.mk fun s => ((run s.accounts).1, { s with accounts := (run s.accounts).2 })

/-- A call of the session store. -/
def onSessions {α : Type} (p : SessionProgram κ U α) : Stateful Error (SiteState A κ U) α :=
  ExceptT.mk fun s =>
    ((s.kv.perform site.indexKey now p).1.mapError fun error =>
        .unavailable "session store" (site.detail error),
      { s with kv := (s.kv.perform site.indexKey now p).2 })

def deleteForUser (id : Id) (keep : Option κ) : Stateful Error (SiteState A κ U) ℕ := do
  let subject ← settle (site.accounts.encodeSubject id)
  site.onSessions now (KvSessionStore.deleteForUser site.structures subject keep)

/-- Whether the current password is right; an account without one costs a verification too. -/
def verifyCurrent (current : P) : Option H → Except Error Bool
  | some hash => site.passwords.verify hash current
  | none => do
    site.passwords.dummyVerify
    return false

/-- The password that an account already has is refused. -/
def refuseReuse (new : P) : Option H → Except Error Unit
  | none => .ok ()
  | some hash => do
    let same ← site.passwords.verify hash new
    refuseIf (same = true)
      (.passwordPolicy "reused" "this is the password you already had; choose a different one")

def checkReuse (new : P) (stored : Option H) : Except Error Unit :=
  if site.accounts.config.refusePasswordReuse then site.refuseReuse new stored else .ok ()

/-- Change a signed-in user's password, given the current one. -/
def changePassword (id : Id) (current new : P) (keep : Option κ) :
    Stateful Error (SiteState A κ U) ℕ := do
  let stored ← query (site.store.passwordHash id)
  let ok ← settle (site.verifyCurrent current stored)
  settle (refuseIf (ok = false) .invalidCredentials)
  settle (site.passwords.policy new)
  settle (site.checkReuse new stored)
  let hash ← settle (site.passwords.hash new)
  command (site.store.setPasswordHash id hash)
  command (site.store.bumpEpoch id)
  if site.accounts.config.revokeSessionsOnPasswordChange then site.deleteForUser now id keep
  else return 0

/-- End every session a user has, optionally keeping one. -/
def logOutEverywhere (id : Id) (keep : Option κ) : Stateful Error (SiteState A κ U) ℕ := do
  command (site.store.bumpEpoch id)
  site.deleteForUser now id keep

/-- What a request finds installed when the accounts are in a state. -/
def installed (a : A) (auth : Option (BearerState U)) (describe : Json → String) :
    Installed κ U Id User where
  indexKey := site.indexKey
  structures := site.structures
  config := site.sessions
  decodeSubject := site.accounts.decodeSubject
  users := some fun id => site.store.loadUser id a
  authHash := site.store.authHash
  isActive := site.store.isActive
  auth := auth
  describe := describe

end

/-! ### What the calls do to the stores -/

section

variable {A Id User H P κ U α β : Type} [DecidableEq κ] [DecidableEq U]
  {site : AccountSite A Id User H P U} {now t : ℕ} {s s' : SiteState A κ U} {id : Id}
  {keep : Option κ} {a : α} {b : β} {count : ℕ} {sid : κ} {record : SessionRecord κ U}

omit [DecidableEq κ] [DecidableEq U] in
lemma yields_query_bind {read : A → Except Error α} {f : α → Stateful Error (SiteState A κ U) β} :
    Yields (query read >>= f) s b s' ↔
      ∃ a, read s.accounts = .ok a ∧ Yields (f a) s b s' := by
  rw [query, bind_assoc, yields_get_bind, yields_settle_bind]

omit [DecidableEq κ] [DecidableEq U] in
lemma yields_command {run : A → Except Error α × A} : Yields (command run) s a s' ↔
    (run s.accounts).1 = .ok a ∧ s' = { s with accounts := (run s.accounts).2 } := by
  have hrun : (command run).run s =
      ((run s.accounts).1, { s with accounts := (run s.accounts).2 }) := rfl
  rw [Yields, hrun, Prod.mk.injEq, eq_comm (a := s')]

/-- A deletion leaves the accounts alone, and of the sessions nothing new. -/
lemma of_yields_deleteForUser (h : Yields (site.deleteForUser now id keep) s count s') :
    s'.accounts = s.accounts ∧ ∀ t sid record, s'.kv.data.get t sid = some record →
      s.kv.data.get t sid = some record := by
  obtain ⟨subject, -, h⟩ := yields_settle_bind.1 h
  have hkv : s' = { s with kv := (s.kv.perform site.indexKey now
      (KvSessionStore.deleteForUser site.structures subject keep)).2 } :=
    (congrArg Prod.snd h).symm
  subst hkv
  refine ⟨rfl, fun t sid record hget => ?_⟩
  cases hkey : site.indexKey subject with
  | error error =>
    rw [SessionKv.perform_deleteForUser_error hkey] at hget
    exact hget
  | ok _ =>
    obtain ⟨_, hperform⟩ :=
      SessionKv.perform_deleteForUser site.structures now s.kv keep hkey
    simp only [hperform, SessionKv.get_dropAll] at hget
    split_ifs at hget
    exact hget

/-- What a call that returns has done: the epoch is a later one, and no session is new. -/
structure Bumps (site : AccountSite A Id User H P U) (id : Id) (s s' : SiteState A κ U) : Prop where
  epoch_lt : site.store.epoch s.accounts id < site.store.epoch s'.accounts id
  get : ∀ t sid record, s'.kv.data.get t sid = some record → s.kv.data.get t sid = some record

lemma bumps_of_logOutEverywhere (h : Yields (site.logOutEverywhere now id keep) s count s') :
    Bumps site id s s' := by
  obtain ⟨_, s₁, hbump, hdelete⟩ := yields_bind.1 h
  obtain ⟨hok, rfl⟩ := yields_command.1 hbump
  obtain ⟨haccounts, hget⟩ := of_yields_deleteForUser hdelete
  refine ⟨?_, hget⟩
  rw [haccounts]
  exact site.store.epoch_bumpEpoch id s.accounts hok

lemma bumps_of_changePassword {current new : P}
    (h : Yields (site.changePassword now id current new keep) s count s') :
    Bumps site id s s' := by
  obtain ⟨stored, -, h⟩ := yields_query_bind.1 h
  obtain ⟨_, -, h⟩ := yields_settle_bind.1 h
  obtain ⟨_, -, h⟩ := yields_settle_bind.1 h
  obtain ⟨_, -, h⟩ := yields_settle_bind.1 h
  obtain ⟨_, -, h⟩ := yields_settle_bind.1 h
  obtain ⟨hash, -, h⟩ := yields_settle_bind.1 h
  obtain ⟨_, s₁, hset, h⟩ := yields_bind.1 h
  obtain ⟨-, rfl⟩ := yields_command.1 hset
  obtain ⟨_, s₂, hbump, h⟩ := yields_bind.1 h
  obtain ⟨hok, rfl⟩ := yields_command.1 hbump
  have hlt := lt_of_le_of_lt (site.store.epoch_setPasswordHash id hash s.accounts)
    (site.store.epoch_bumpEpoch id _ hok)
  split_ifs at h
  · obtain ⟨haccounts, hget⟩ := of_yields_deleteForUser h
    refine ⟨?_, hget⟩
    rw [haccounts]
    exact hlt
  · obtain ⟨-, rfl⟩ := yields_pure.1 h
    exact ⟨hlt, fun _ _ _ hget => hget⟩

end

end AccountSite

/-- A call of the session store before a result leaves what the call leaves. -/
lemma interpret_onStore_pure {κ U α : Type} [DecidableEq κ] [DecidableEq U]
    (indexKey : U → Except Kv.KeyError Unit) (now : ℕ) (generated : κ) (kv : SessionKv κ U)
    (p : SessionProgram κ U Unit) (a : α) :
    ((do p.onStore; return a : RequestProgram κ U α).run.interpret
      (SessionKv.serve indexKey now generated) kv).2 = (kv.perform indexKey now p).2 := by
  have hstore : p.onStore.run.interpret (SessionKv.serve indexKey now generated) kv =
      kv.perform indexKey now p := interpret_onStore
  cases hp : kv.perform indexKey now p with
  | mk result kv' =>
    rw [hp] at hstore
    cases result with
    | ok _ => rw [Program.interpret_bind_ok hstore]; rfl
    | error error => rw [Program.interpret_bind_error hstore]

/-- What the layer saves at the end of a request is the copy that the request has. -/
lemma Session.get_of_interpret_save {κ U : Type} [DecidableEq κ] [DecidableEq U]
    {indexKey : U → Except Kv.KeyError Unit} {structures : Bool} {config : SessionConfig}
    {now t : ℕ} {generated sid : κ} {kv : SessionKv κ U} {session : Session κ U}
    {record : SessionRecord κ U}
    (h : ((session.save structures config).run.interpret
      (SessionKv.serve indexKey now generated) kv).2.data.get t sid = some record) :
    kv.data.get t sid = some record ∨ ∃ copy, session.record = some copy ∧
      record.userId = copy.userId ∧ record.authHash = copy.authHash := by
  rw [Session.save] at h
  split_ifs at h
  · exact .inl h
  · rw [interpret_now] at h
    cases hrecord : session.record with
    | none =>
      simp only [hrecord] at h
      exact .inl h
    | some copy =>
      simp only [hrecord] at h
      split_ifs at h
      · exact .inl h
      · rw [interpret_onStore_pure indexKey now generated, SessionKv.perform_save, Lapsing.get_set_eq_some] at h
        rcases h with ⟨-, -, rfl⟩ | ⟨-, h⟩
        · exact .inr ⟨copy, rfl, rfl, rfl⟩
        · exact .inl h

/-! ### The request that asks, and those that follow -/

/-- The two calls that can keep a session. -/
inductive KeptCall (P : Type) where
  | change (current new : P)
  | everywhere

section

variable {A Id User H P U : Type} [DecidableEq U]

def KeptCall.program {κ : Type} [DecidableEq κ] (site : AccountSite A Id User H P U) (now : ℕ)
    (id : Id) (keep : κ) : KeptCall P → Stateful Error (SiteState A κ U) ℕ
  | .change current new => site.changePassword now id current new (some keep)
  | .everywhere         => site.logOutEverywhere now id (some keep)

/-- The hash that a log-in to an account has recorded, at this epoch or at an older one. -/
def AccountSite.Recorded (site : AccountSite A Id User H P U) (a : A) (id : Id)
    (hash : List UInt8) : Prop :=
  ∃ a₀ user, site.store.epoch a₀ id ≤ site.store.epoch a id ∧
    site.store.loadUser id a₀ = .ok (some user) ∧ hash = site.store.authHash user

/-- A call that keeps the session of its request, and that returns. All that the session store has
of the account was recorded at a log-in, and so was the copy that the request has. -/
structure KeptRun (site : AccountSite A Id User H P U) (κ : Type) [DecidableEq κ] where
  call : KeptCall P
  id : Id
  subject : U
  before : SiteState A κ U
  session : Session κ U
  copy : SessionRecord κ U
  now : ℕ
  count : ℕ
  after : SiteState A κ U
  /-- When the later requests come. -/
  later : ℕ
  decodes : site.accounts.decodeSubject subject = .ok id
  recorded : ∀ sid record, before.kv.data.get now sid = some record →
    record.userId = some subject → site.Recorded before.accounts id record.authHash
  held : ∀ record, before.kv.data.get now session.id = some record → record.userId = some subject
  loaded : session.record = some copy
  copy_userId : copy.userId = some subject
  copy_recorded : site.Recorded before.accounts id copy.authHash
  returns : Yields (call.program site now id session.id) before count after
  now_le : now ≤ later

namespace KeptRun

variable {κ : Type} [DecidableEq κ] {site : AccountSite A Id User H P U} (run : KeptRun site κ)
  (auth : Option (BearerState U)) (describe : Json → String) (generated : κ)

/-- The session store once the layer has saved the session of the request. -/
def saved : SessionKv κ U :=
  ((run.session.save site.structures site.sessions).run.interpret
    (SessionKv.serve site.indexKey run.now generated) run.after.kv).2

/-- A later request that comes with a session. -/
def arrives (sid : κ) : RequestState κ U :=
  ⟨run.saved generated, some (Session.build sid true)⟩

/-- What `CurrentUser` makes of a later request. -/
def SignedIn (sid : κ) (user : User) : Prop :=
  ∃ s', Yields (currentUser (site.installed run.after.accounts auth describe) run.later generated)
    (run.arrives generated sid) user s'

/-- The session that was kept is signed in to the account, and no other session of the account is
signed in. -/
def KeptAlone : Prop :=
  (∃ user, site.store.loadUser run.id run.after.accounts = .ok (some user) ∧
    run.SignedIn auth describe generated run.session.id user) ∧
  ∀ sid record user, sid ≠ run.session.id → run.before.kv.data.get run.now sid = some record →
    record.userId = some run.subject → ¬ run.SignedIn auth describe generated sid user

variable {run auth describe generated} {sid : κ} {record : SessionRecord κ U} {user : User}

lemma bumps : AccountSite.Bumps site run.id run.before run.after := by
  have hreturns := run.returns
  cases hcall : run.call with
  | change current new =>
    rw [hcall] at hreturns
    exact AccountSite.bumps_of_changePassword hreturns
  | everywhere =>
    rw [hcall] at hreturns
    exact AccountSite.bumps_of_logOutEverywhere hreturns

/-- What a later request finds was there before, or is the copy that the request had. -/
lemma get_of_found
    (h : (run.arrives generated sid).found site.sessions run.later = some record) :
    run.before.kv.data.get run.now sid = some record ∨
      record.userId = run.copy.userId ∧ record.authHash = run.copy.authHash := by
  have hget : (run.saved generated).data.get run.later sid = some record :=
    (Option.filter_eq_some_iff.mp h).1
  rcases Session.get_of_interpret_save hget with hafter | ⟨copy, hcopy, hrecord⟩
  · exact .inl (Lapsing.get_mono run.now_le (run.bumps.get _ _ _ hafter))
  · rw [run.loaded, Option.some.injEq] at hcopy
    subst hcopy
    exact .inr hrecord

/-- A session of the account does not sign in any more. -/
lemma not_signedIn (hsid : ∀ record, run.before.kv.data.get run.now sid = some record →
    record.userId = some run.subject) : ¬ run.SignedIn auth describe generated sid user := by
  rintro ⟨s', hyields⟩
  obtain ⟨record, hfound, hrecognises⟩ :=
    recognises_of_yields_resolveUser (yields_currentUser.1 hyields)
  obtain ⟨huser, a₀, user₀, hle, hload₀, hhash⟩ : record.userId = some run.subject ∧
      site.Recorded run.before.accounts run.id record.authHash := by
    rcases run.get_of_found hfound with hget | ⟨huser, hhash⟩
    · exact ⟨hsid record hget, run.recorded sid record hget (hsid record hget)⟩
    · rw [huser, hhash]
      exact ⟨run.copy_userId, run.copy_recorded⟩
  obtain ⟨⟨subject, id, loadUser, hsubject, hid, husers, hload⟩, hequal, -⟩ := hrecognises
  rw [huser, Option.some.injEq] at hsubject
  subst hsubject
  have hdecodes : Except.ok run.id = .ok id := run.decodes.symm.trans hid
  cases hdecodes
  cases husers
  exact site.store.authHash_ne run.id a₀ run.after.accounts user₀ user hload₀ hload
    (hle.trans_lt run.bumps.epoch_lt) (hhash.symm.trans hequal)

/-- The sessions that are not kept are ended. -/
theorem others_not_signedIn (hget : run.before.kv.data.get run.now sid = some record)
    (huser : record.userId = some run.subject) :
    ¬ run.SignedIn auth describe generated sid user := by
  refine run.not_signedIn fun record' hget' => ?_
  rw [hget, Option.some.injEq] at hget'
  exact hget' ▸ huser

end KeptRun

/-- The session that is kept is ended with the others. -/
theorem KeptRun.not_keptAlone {κ : Type} [DecidableEq κ] {site : AccountSite A Id User H P U}
    (run : KeptRun site κ) (auth : Option (BearerState U)) (describe : Json → String)
    (generated : κ) : ¬ run.KeptAlone auth describe generated := by
  rintro ⟨⟨user, -, hsigned⟩, -⟩
  exact run.not_signedIn run.held hsigned

end

/-- A store of one account, of which it has the epoch. -/
def countingStore : EpochStore ℕ ℕ ℕ Unit where
  passwordHash _ _ := .ok (some ())
  setPasswordHash _ _ a := (.ok (), a)
  bumpEpoch _ a := (.ok (), a + 1)
  loadUser _ a := .ok (some a)
  authHash user := List.replicate user 0
  isActive _ := true
  epoch a _ := a
  epoch_setPasswordHash _ _ _ := le_rfl
  epoch_bumpEpoch _ a _ := Nat.lt_succ_self a
  authHash_ne := by
    rintro id a a' user user' ⟨⟩ ⟨⟩ hlt heq
    have hlength := congrArg List.length heq
    rw [List.length_replicate, List.length_replicate] at hlength
    omega

/-- An application of one account, whose password is `1`. -/
def countingSite : AccountSite ℕ ℕ ℕ Unit ℕ ℕ where
  accounts :=
    { config := ⟨1000, 1000, 1000, true, true⟩
      normalise := id
      encodeSubject := .ok
      decodeSubject := .ok
      absent := fun _ => 0 }
  store := countingStore
  passwords := ⟨fun _ => .ok (), fun _ => .ok (), fun _ p => .ok (p = 1), .ok ()⟩
  indexKey _ := .ok ()
  structures := false
  sessions := ⟨1000, 1000, 1000⟩
  detail _ := ""

/-- The account's only session. -/
def onlySession : SessionRecord ℕ ℕ := ⟨7, some 1, [], .object [], 0, 0⟩

/-- The password is changed from the account's only session. -/
def countingRun : KeptRun countingSite ℕ where
  call := .change 1 2
  id := 1
  subject := 1
  before := ⟨0, Lapsing.empty.set 7 onlySession none, Lapsing.empty.set 1 [7] none⟩
  session := ⟨7, some onlySession, true, false, false⟩
  copy := onlySession
  now := 0
  count := 0
  after := ⟨1, Lapsing.empty.set 7 onlySession none, Lapsing.empty.set 1 [7] none⟩
  later := 1
  decodes := rfl
  recorded := by
    intro sid record hget _
    obtain ⟨-, -, rfl⟩ | ⟨-, hempty⟩ := Lapsing.get_set_eq_some.mp hget
    · exact ⟨0, 0, le_rfl, rfl, rfl⟩
    · cases hempty
  held := by
    intro record hget
    obtain ⟨-, -, rfl⟩ | ⟨-, hempty⟩ := Lapsing.get_set_eq_some.mp hget
    · rfl
    · cases hempty
  loaded := rfl
  copy_userId := rfl
  copy_recorded := ⟨0, 0, le_rfl, rfl, rfl⟩
  returns := rfl
  now_le := Nat.zero_le 1

/-- After the password is changed, the session that was kept is refused at its next request. -/
theorem countingRun_not_keptAlone : ¬ countingRun.KeptAlone none (fun _ => "") 0 := by
  rintro ⟨⟨user, -, s', hyields⟩, -⟩
  cases congrArg Prod.fst hyields

end Moso.Auth
