import Moso.Auth.Extract

/-!
# Sessions of an older epoch

A session that recorded another hash than its account has now, or whose account is not active any
more. `CurrentUser` and `MaybeUser` compare the two and refuse it, whether or not its record is
still in the store; `Principal` does not consult the accounts and takes the record at its word.
-/

namespace Moso.Auth

open Stateful

section

variable {κ U Id User : Type} [DecidableEq κ] [DecidableEq U]

/-- A request with a session whose record, if it is still there, is of an older epoch than the
account, or is of an account that is not active. -/
structure StaleRequest (app : Installed κ U Id User) where
  kv : SessionKv κ U
  sid : κ
  now : ℕ
  subject : U
  id : Id
  loadUser : Id → Except Error (Option User)
  user : User
  decodes : app.decodeSubject subject = .ok id
  registered : app.users = some loadUser
  loads : loadUser id = .ok (some user)
  stale : ∀ record, kv.unexpired app.config now sid = some record →
    record.userId = some subject ∧
      (record.authHash ≠ app.authHash user ∨ app.isActive user = false)
  /-- The keys of the indexes can be built. -/
  accepted : ∀ user, app.indexKey user = .ok ()

namespace StaleRequest

variable {app : Installed κ U Id User} (request : StaleRequest app) {generated : κ}
  {s s' : RequestState κ U}

/-- The state in which the extractors find the request. -/
def start : RequestState κ U := ⟨request.kv, some (Session.build request.sid true)⟩

omit [DecidableEq κ] [DecidableEq U] in
lemma found_start :
    request.start.found app.config request.now =
      request.kv.unexpired app.config request.now request.sid := by
  have hfound : request.start.found app.config request.now = _ := found_of_not_loaded rfl rfl
  exact hfound

end StaleRequest

variable {app : Installed κ U Id User} {now : ℕ} {generated : κ} {kv : SessionKv κ U}
  {session : Session κ U} {s : RequestState κ U}

lemma exists_perform_delete (now : ℕ) (kv : SessionKv κ U) (id : κ) (haccepted : ∀ user, app.indexKey user = .ok ()) :
    ∃ removed kv', kv.perform app.indexKey now (KvSessionStore.delete app.structures id) =
      (.ok removed, kv') := by
  have hno : ∀ user, none = some user → app.indexKey user = .ok () := fun user _ => haccepted user
  rw [KvSessionStore.delete, SessionKv.perform_call_bind hno, SessionKv.perform_call_bind hno]
  split
  · next user _ =>
    rw [SessionKv.perform_bind_ok (SessionKv.perform_indexRemove (haccepted user))]
    exact ⟨_, _, rfl⟩
  · exact ⟨_, _, rfl⟩

variable (now generated) in
/-- Loading succeeds where the keys of the indexes can be built. -/
lemma exists_yields_load (hsession : s.session = some session)
    (haccepted : ∀ user, app.indexKey user = .ok ()) :
    ∃ session' s', Yields (load app now generated session) s session' s' := by
  cases hfound : s.found app.config now with
  | some record => exact ⟨_, _, yields_load_of_found generated hsession hfound⟩
  | none =>
    suffices hrun : ∃ session' kv', (Session.load app.structures app.config session).run.interpret
        (SessionKv.serve app.indexKey now generated) s.kv = (.ok session', kv') by
      obtain ⟨session', kv', hrun⟩ := hrun
      exact ⟨session', ⟨kv', some session'⟩, yields_onSession.2 ⟨rfl, hrun⟩⟩
    cases hrecord : session.record with
    | some record => exact ⟨_, _, interpret_load_of_loaded hrecord⟩
    | none =>
      rw [Session.load, hrecord, if_neg (by simp)]
      by_cases hpresented : session.presented = true
      · have hget : (KvSessionStore.load session.id).onStore.run.interpret
            (SessionKv.serve app.indexKey now generated) s.kv =
              (.ok (s.kv.data.get now session.id), s.kv) := by
          rw [interpret_onStore]
          exact SessionKv.perform_call (by rintro user ⟨⟩)
        rw [if_pos hpresented, Program.interpret_bind_ok hget]
        cases s.kv.data.get now session.id with
        | none => exact ⟨_, _, rfl⟩
        | some record =>
          simp only
          rw [interpret_now]
          split_ifs
          · obtain ⟨removed, kv', hdelete⟩ :=
              exists_perform_delete now s.kv record.id haccepted
            rw [Program.interpret_bind_ok ((interpret_onStore).trans hdelete)]
            exact ⟨_, _, rfl⟩
          · exact ⟨_, _, rfl⟩
      · rw [if_neg hpresented]
        exact ⟨_, _, rfl⟩

/-! ### What the extractors make of it -/

lemma run_resolveAccount {user : User} (h : session.authHash.getD [] ≠ app.authHash user ∨
      app.isActive user = false) :
    ((resolveAccount app now generated session (some user)).run s).1 = .ok none := by
  rw [resolveAccount]
  split_ifs with hhash hactive
  · rfl
  · rfl
  · rcases h with h | h
    · exact absurd h hhash
    · rw [h] at hactive
      exact absurd rfl hactive

namespace StaleRequest

variable (request : StaleRequest app)

variable (generated) in
/-- No account is loaded for the session. -/
lemma run_resolveUser :
    ((resolveUser app request.now generated).run request.start).1 = .ok none := by
  have hsession : request.start.session = some (Session.build request.sid true) := rfl
  obtain ⟨session, s', hload⟩ :=
    exists_yields_load request.now generated hsession request.accepted
  obtain ⟨hsession', record, hrecord, hfound⟩ := loaded_of_yields_load hsession hload
  rw [resolveUser, run_get_bind, hsession]
  simp only
  rw [hload.run_bind, Session.userId, hrecord, Option.bind_some]
  rcases hfound with hfound | ⟨-, huser⟩
  · rw [request.found_start] at hfound
    obtain ⟨huser, hstale⟩ := request.stale record hfound
    rw [huser]
    simp only [resolveSubject, request.decodes, request.registered]
    rw [run_settle_bind, request.loads]
    exact run_resolveAccount (by simpa [Session.authHash, hrecord] using hstale)
  · rw [huser]
    rfl

/-- A session of an older epoch is nobody's: `CurrentUser` answers 401 and `MaybeUser` finds
nobody, whether or not its record is still in the store. `Principal` finds nobody exactly if the
record is gone. -/
theorem refused_of_stale (app : Installed κ U Id User) (request : StaleRequest app) (generated : κ)
    (headers : HeaderMap) :
    ((currentUser app request.now generated).run request.start).1 = .error .unauthenticated ∧
    ((maybeUser app request.now generated).run request.start).1 = .ok none ∧
    ((principal app request.now generated none headers).run request.start).1 =
      .ok ((resolveBearer app.auth headers).getD
        (if (request.kv.unexpired app.config request.now request.sid).isSome then
          .ofSession request.subject else .anonymous)) := by
  refine ⟨?_, request.run_resolveUser generated, ?_⟩
  · cases hrun : (resolveUser app request.now generated).run request.start with
    | mk result s' =>
      have hresult := request.run_resolveUser generated
      rw [hrun] at hresult
      cases hresult
      have hyields : Yields (resolveUser app request.now generated) request.start none s' := hrun
      rw [currentUser, hyields.run_bind]
      rfl
  · rw [principal]
    cases resolveBearer app.auth headers with
    | some who => rfl
    | none =>
      simp only [Option.getD_none]
      have hsession : request.start.session = some (Session.build request.sid true) := rfl
      obtain ⟨session, s', hload⟩ :=
        exists_yields_load request.now generated hsession request.accepted
      rw [sessionPrincipal, run_get_bind, hsession]
      simp only
      rw [hload.run_bind, (subject_of_yields_load hsession hload).1, RequestState.subject,
        request.found_start]
      cases hfound : request.kv.unexpired app.config request.now request.sid with
      | none => rfl
      | some record =>
        rw [Option.bind_some, (request.stale record hfound).1]
        rfl

end StaleRequest

end

/-- `Principal` takes the record of an older epoch at its word. -/
theorem principal_of_stale : ∃ (app : Installed ℕ ℕ ℕ ℕ) (request : StaleRequest app),
    resolveBearer app.auth [] = none ∧
      ((principal app request.now 0 none []).run request.start).1 = .ok (.ofSession 1) := by
  let app : Installed ℕ ℕ ℕ ℕ :=
    { indexKey := fun _ => .ok ()
      structures := false
      config := ⟨1000, 1000, 1000⟩
      decodeSubject := .ok
      users := some fun id => .ok (some id)
      authHash := fun user => [UInt8.ofNat user]
      isActive := fun _ => true
      auth := none
      describe := fun _ => "" }
  let record : SessionRecord ℕ ℕ := ⟨7, some 1, [], .object [], 0, 0⟩
  let request : StaleRequest app :=
    { kv := ⟨Lapsing.empty.set 7 record none, Lapsing.empty⟩
      sid := 7
      now := 0
      subject := 1
      id := 1
      loadUser := fun id => .ok (some id)
      user := 1
      decodes := rfl
      registered := rfl
      loads := rfl
      stale := by
        intro record' hrecord'
        cases hrecord'
        exact ⟨rfl, .inl (by decide)⟩
      accepted := fun _ => rfl }
  exact ⟨app, request, rfl, rfl⟩

end Moso.Auth
