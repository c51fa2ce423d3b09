import Moso.Auth.Login

/-!
# What failed logins earn

Whether the counter of an identity is the number of attempts that were rejected since its last
completed login. Both handlers tell the throttle that an attempt succeeded when its error counts
as an attempt.
-/

namespace Moso.Auth

open Stateful

variable {σ : Type} {state : AuthState} {services : Services}

/-! ### Credentials that are accepted -/

/-- The identity is that of an active account, and the password is right. -/
def Services.PasswordFits (services : Services) (identity password : String) (user : User) :
    Prop :=
  ∃ accounts, services.accounts = .ok accounts ∧
    accounts.findByIdentity identity = .ok (some user) ∧
    (∃ hash, accounts.passwordHash user.authId = .ok (some hash) ∧
      services.verify hash password = .ok true) ∧ user.isActive = true

/-- What the store answers when the enrolment of a subject is asked for. -/
def enrolled (state : AuthState) (services : Services) (credentials : Credentials σ)
    (subject : String) : Except Error (Option StoredTotp) :=
  if state.hasKv then services.readTotp.map fun _ => credentials.confirmed subject else .ok none

/-- The code is a right one, and the stores let it be spent. -/
def Spends (state : AuthState) (services : Services) (enrolment : StoredTotp) (code : String) :
    Prop :=
  (∃ period, enrolment.accept state.totp state.codeFor code (services.now / 1000000000) =
    .ok (some period)) ∧ services.writeTotp = .ok ()

/-- A session can be bound to the user. -/
def Binds (state : AuthState) (services : Services) (user : User) : Prop :=
  services.logIn = .ok () ∧ ∃ subject, state.encodeSubject user.authId = .ok subject

namespace AuthRequest

/-- The credentials of a request are accepted: its password is right, or its code is, and what the
handler needs answers. -/
def Accepted (state : AuthState) (credentials : Credentials σ) : AuthRequest σ → Prop
  | login session body services =>
    match body.totp with
    | some code =>
      ∃ pending enrolment accounts id user,
        credentials.pending session = some pending ∧ body.challenge = some pending.challenge ∧
        enrolled state services credentials pending.subject = .ok (some enrolment) ∧
        Spends state services enrolment code ∧ services.accounts = .ok accounts ∧
        state.decodeSubject pending.subject = .ok id ∧ accounts.findById id = .ok (some user) ∧
        user.isActive = true ∧ Binds state services user
    | none =>
      ∃ user subject, services.PasswordFits (state.normalise body.identity) body.password user ∧
        state.encodeSubject user.authId = .ok subject ∧
        ((∃ enrolment token, enrolled state services credentials subject = .ok (some enrolment) ∧
            services.opaqueToken = .ok token) ∨
          enrolled state services credentials subject = .ok none ∧ Binds state services user)
  | issue body services =>
    ∃ user subject, services.PasswordFits (state.normalise body.identity) body.password user ∧
      state.encodeSubject user.authId = .ok subject ∧
      ((∃ enrolment, enrolled state services credentials subject = .ok (some enrolment) ∧
          (body.totp = none ∨ ∃ code, body.totp = some code ∧
            Spends state services enrolment code ∧ ∃ pair, services.issuePair subject = .ok pair)) ∨
        enrolled state services credentials subject = .ok none ∧
          ∃ pair, services.issuePair subject = .ok pair)

/-- The last guess plays no part in what is accepted. -/
lemma accepted_guess {credentials : Credentials σ} {request : AuthRequest σ} {guess : Option Guess} :
    request.Accepted state { credentials with guess := guess } ↔
      request.Accepted state credentials := by
  cases request <;> exact Iff.rfl

end AuthRequest

section

variable {α : Type} {c c' : Credentials σ} {identity password subject code : String} {user : User}
  {r : LoginResponse} {f : User → Handler σ LoginResponse}

lemma run_present_bind {o : Option α} {f : α → Handler σ LoginResponse} :
    (present o >>= f).run c = match o with
      | some a => (f a).run c
      | none   => (.error .invalidCredentials, c) := by
  cases o <;> rw [present, run_bind] <;> rfl

lemma run_require_bind {p : Prop} [Decidable p] {f : Unit → Handler σ α} :
    (require p >>= f).run c = if p then (f ⟨⟩).run c else (.error .invalidCredentials, c) := by
  rw [require]
  split
  · rw [pure_bind]
  · rw [run_bind, run_throw]

lemma run_confirmed_bind {f : Option StoredTotp → Handler σ LoginResponse} :
    (confirmed state services subject >>= f).run c = match enrolled state services c subject with
      | .ok enrolment => (f enrolment).run c
      | .error error  => (.error error, c) := by
  rw [confirmed, enrolled]
  split
  · simp only [bind_assoc, pure_bind, run_settle_bind, run_get_bind]
    cases services.readTotp <;> rfl
  · rw [pure_bind]

lemma present_bind {o : Option α} {f : α → Handler σ LoginResponse} :
    Yields (present o >>= f) c r c' ↔ ∃ a, o = some a ∧ Yields (f a) c r c' := by
  rw [Yields, run_present_bind]
  cases o with
  | none => exact iff_of_false (by rintro ⟨⟩) (by rintro ⟨_, ⟨⟩, _⟩)
  | some a =>
    constructor
    · exact fun h => ⟨a, rfl, h⟩
    · rintro ⟨_, ⟨⟩, h⟩
      exact h

lemma require_bind {p : Prop} [Decidable p] {f : Unit → Handler σ α} {a : α} :
    Yields (require p >>= f) c a c' ↔ p ∧ Yields (f ⟨⟩) c a c' := by
  rw [Yields, run_require_bind]
  split
  · next hp => exact (and_iff_right hp).symm
  · next hp => exact iff_of_false (by rintro ⟨⟩) fun h => hp h.1

lemma verifyPassword_yields : Yields (verifyPassword services identity password) c user c' ↔
    services.PasswordFits identity password user ∧ { c with hashes := c.hashes + 1 } = c' := by
  simp only [verifyPassword, yields_settle_bind]
  constructor
  · rintro ⟨accounts, haccounts, found, hfound, h⟩
    cases found with
    | none => simp only [yields_bind, not_yields_throw, and_false, exists_false] at h
    | some found =>
      simp only [yields_settle_bind, yields_modify_bind] at h
      obtain ⟨hash, hhash, h⟩ := h
      cases hash with
      | none => simp only [yields_bind, not_yields_throw, and_false, exists_false] at h
      | some hash =>
        simp only [yields_settle_bind, require_bind, yields_pure] at h
        obtain ⟨_, hverify, rfl, hactive, rfl, rfl⟩ := h
        exact ⟨⟨accounts, haccounts, hfound, ⟨hash, hhash, hverify⟩, hactive⟩, rfl⟩
  · rintro ⟨⟨accounts, haccounts, hfound, ⟨hash, hhash, hverify⟩, hactive⟩, rfl⟩
    refine ⟨accounts, haccounts, some user, hfound, ?_⟩
    simp only [yields_settle_bind, yields_modify_bind]
    refine ⟨some hash, hhash, ?_⟩
    simp only [yields_settle_bind, require_bind]
    exact ⟨true, hverify, rfl, hactive, yields_pure.2 ⟨rfl, rfl⟩⟩

lemma verifyPassword_bind : Yields (verifyPassword services identity password >>= f) c r c' ↔
    ∃ user, services.PasswordFits identity password user ∧
      Yields (f user) { c with hashes := c.hashes + 1 } r c' := by
  rw [yields_bind]
  constructor
  · rintro ⟨user, _, hverify, h⟩
    obtain ⟨hfits, rfl⟩ := verifyPassword_yields.1 hverify
    exact ⟨user, hfits, h⟩
  · rintro ⟨user, hfits, h⟩
    exact ⟨user, _, verifyPassword_yields.2 ⟨hfits, rfl⟩, h⟩

lemma confirmed_bind {f : Option StoredTotp → Handler σ LoginResponse} :
    Yields (confirmed state services subject >>= f) c r c' ↔
      ∃ enrolment, enrolled state services c subject = .ok enrolment ∧
        Yields (f enrolment) c r c' := by
  rw [Yields, run_confirmed_bind]
  cases enrolled state services c subject with
  | error error => exact iff_of_false (by rintro ⟨⟩) (by rintro ⟨_, ⟨⟩, _⟩)
  | ok enrolment =>
    constructor
    · exact fun h => ⟨enrolment, rfl, h⟩
    · rintro ⟨_, ⟨⟩, h⟩
      exact h

lemma saveConfirmed_bind {enrolment : StoredTotp} {f : Unit → Handler σ LoginResponse} :
    Yields (saveConfirmed services subject enrolment >>= f) c r c' ↔ services.writeTotp = .ok () ∧
      Yields (f ⟨⟩) { c with confirmed := Function.update c.confirmed subject (some enrolment) }
        r c' := by
  simp only [saveConfirmed, bind_assoc, yields_settle_bind, yields_modify_bind]
  exact ⟨fun ⟨_, hwrite, h⟩ => ⟨hwrite, h⟩, fun ⟨hwrite, h⟩ => ⟨⟨⟩, hwrite, h⟩⟩

lemma issuePair_yields : Yields (issuePair services subject) c r c' ↔
    ∃ pair, services.issuePair subject = .ok pair ∧
      { requiresSecondFactor := false, challenge := none, accessToken := some pair.2,
        refreshToken := some pair.1, next := none } = r ∧ c = c' := by
  simp only [issuePair, yields_settle_bind, yields_pure]

lemma issuePair_succeeds : (∃ r c', Yields (issuePair services subject) c r c') ↔
    ∃ pair, services.issuePair subject = .ok pair := by
  simp only [issuePair_yields]
  exact ⟨fun ⟨_, _, pair, hpair, _⟩ => ⟨pair, hpair⟩,
    fun ⟨pair, hpair⟩ => ⟨_, c, pair, hpair, rfl, rfl⟩⟩

/-- A pair of tokens is minted for the right password and, where a second factor is enrolled, the
right code. -/
lemma authenticate_succeeds {body : TokenIssueRequest} :
    (∃ r c', Yields (authenticate state services body) c r c') ↔
      ∃ user subject, services.PasswordFits (state.normalise body.identity) body.password user ∧
        state.encodeSubject user.authId = .ok subject ∧
        ((∃ enrolment, enrolled state services c subject = .ok (some enrolment) ∧
            (body.totp = none ∨ ∃ code, body.totp = some code ∧
              Spends state services enrolment code ∧
                ∃ pair, services.issuePair subject = .ok pair)) ∨
          enrolled state services c subject = .ok none ∧
            ∃ pair, services.issuePair subject = .ok pair) := by
  simp only [authenticate, verifyPassword_bind, yields_settle_bind, confirmed_bind]
  constructor
  · rintro ⟨r, c', user, hfits, subject, hsubject, enrolment, henrolled, h⟩
    refine ⟨user, subject, hfits, hsubject, ?_⟩
    cases enrolment with
    | none => exact .inr ⟨henrolled, issuePair_succeeds.1 ⟨r, c', h⟩⟩
    | some enrolment =>
      refine .inl ⟨enrolment, henrolled, ?_⟩
      cases hcode : body.totp with
      | none => exact .inl rfl
      | some code =>
        simp only [hcode, yields_settle_bind, present_bind, saveConfirmed_bind] at h
        obtain ⟨_, haccept, period, rfl, hwrite, h⟩ := h
        exact .inr ⟨code, rfl, ⟨⟨period, haccept⟩, hwrite⟩, issuePair_succeeds.1 ⟨r, c', h⟩⟩
  · rintro ⟨user, subject, hfits, hsubject, ⟨enrolment, henrolled, hcode⟩ | ⟨henrolled, hpair⟩⟩
    · rcases hcode with hcode | ⟨code, hcode, ⟨⟨period, haccept⟩, hwrite⟩, hpair⟩
      · simp only [hcode]
        exact ⟨_, _, user, hfits, subject, hsubject, some enrolment, henrolled,
          yields_pure.2 ⟨rfl, rfl⟩⟩
      · obtain ⟨r, c', h⟩ := issuePair_succeeds.2 hpair
        refine ⟨r, c', user, hfits, subject, hsubject, some enrolment, henrolled, ?_⟩
        simp only [hcode, yields_settle_bind, present_bind, saveConfirmed_bind]
        exact ⟨_, haccept, period, rfl, hwrite, h⟩
    · obtain ⟨r, c', h⟩ := issuePair_succeeds.2 hpair
      exact ⟨r, c', user, hfits, subject, hsubject, none, henrolled, h⟩

variable [DecidableEq σ] {session : σ} {next : Option String}

lemma finish_bind {f : Unit → Handler σ LoginResponse} :
    Yields (finish state services session user identity >>= f) c r c' ↔
      services.logIn = .ok () ∧ ∃ subject, state.encodeSubject user.authId = .ok subject ∧
        Yields (f ⟨⟩)
          { c with signedIn := Function.update c.signedIn session (some (subject, identity)) }
          r c' := by
  simp only [finish, bind_assoc, yields_settle_bind, yields_modify_bind]
  exact ⟨fun ⟨_, hlogIn, h⟩ => ⟨hlogIn, h⟩, fun ⟨hlogIn, h⟩ => ⟨⟨⟩, hlogIn, h⟩⟩

/-- The second request succeeds with the challenge of its session and a right code. -/
lemma secondStep_succeeds {presented : Option String} :
    (∃ r c', Yields (secondStep state services session presented code next) c r c') ↔
      ∃ pending enrolment accounts id user,
        c.pending session = some pending ∧ presented = some pending.challenge ∧
        enrolled state services c pending.subject = .ok (some enrolment) ∧
        Spends state services enrolment code ∧ services.accounts = .ok accounts ∧
        state.decodeSubject pending.subject = .ok id ∧ accounts.findById id = .ok (some user) ∧
        user.isActive = true ∧ Binds state services user := by
  simp only [secondStep, yields_get_bind, present_bind, require_bind, confirmed_bind,
    yields_settle_bind, yields_modify_bind, saveConfirmed_bind, finish_bind, yields_pure]
  constructor
  · rintro ⟨r, c', pending, hpending, presented, rfl, rfl, _, henrolled, enrolment, rfl, _,
      haccept, period, rfl, hwrite, accounts, haccounts, id, hid, _, hfind, user, rfl, hactive,
      hlogIn, subject, hsubject, -⟩
    exact ⟨pending, enrolment, accounts, id, user, hpending, rfl, henrolled,
      ⟨⟨period, haccept⟩, hwrite⟩, haccounts, hid, hfind, hactive, hlogIn, subject, hsubject⟩
  · rintro ⟨pending, enrolment, accounts, id, user, hpending, rfl, henrolled,
      ⟨⟨period, haccept⟩, hwrite⟩, haccounts, hid, hfind, hactive, hlogIn, subject, hsubject⟩
    exact ⟨_, _, pending, hpending, pending.challenge, rfl, rfl, _, henrolled, enrolment, rfl, _,
      haccept, period, rfl, hwrite, accounts, haccounts, id, hid, _, hfind, user, rfl, hactive,
      hlogIn, subject, hsubject, rfl, rfl⟩

lemma challenge_succeeds :
    (∃ r c', Yields (challenge services session subject identity next) c r c') ↔
      ∃ token, services.opaqueToken = .ok token := by
  simp only [challenge, yields_settle_bind, yields_modify_bind, yields_pure]
  exact ⟨fun ⟨_, _, token, htoken, _⟩ => ⟨token, htoken⟩,
    fun ⟨token, htoken⟩ => ⟨_, _, token, htoken, rfl, rfl⟩⟩

/-- A first request succeeds with the right password, and answers with a challenge where a second
factor is enrolled. -/
lemma firstStep_succeeds {body : LoginRequest} (hbody : body.totp = none) :
    (∃ r c', Yields (attempt state services session body next) c r c') ↔
      ∃ user subject, services.PasswordFits (state.normalise body.identity) body.password user ∧
        state.encodeSubject user.authId = .ok subject ∧
        ((∃ enrolment token, enrolled state services c subject = .ok (some enrolment) ∧
            services.opaqueToken = .ok token) ∨
          enrolled state services c subject = .ok none ∧ Binds state services user) := by
  simp only [attempt, hbody, verifyPassword_bind, yields_settle_bind, confirmed_bind]
  constructor
  · rintro ⟨r, c', user, hfits, subject, hsubject, enrolment, henrolled, h⟩
    refine ⟨user, subject, hfits, hsubject, ?_⟩
    cases enrolment with
    | some enrolment =>
      obtain ⟨token, htoken⟩ := challenge_succeeds.1 ⟨r, c', h⟩
      exact .inl ⟨enrolment, token, henrolled, htoken⟩
    | none =>
      simp only [finish_bind] at h
      obtain ⟨hlogIn, subject', hsubject', -⟩ := h
      exact .inr ⟨henrolled, hlogIn, subject', hsubject'⟩
  · rintro ⟨user, subject, hfits, hsubject, ⟨enrolment, token, henrolled, htoken⟩ |
      ⟨henrolled, hlogIn, subject', hsubject'⟩⟩
    · obtain ⟨r, c', h⟩ : ∃ r c', Yields (challenge services session subject
          (state.normalise body.identity) next) { c with hashes := c.hashes + 1 } r c' :=
        challenge_succeeds.2 ⟨token, htoken⟩
      exact ⟨r, c', user, hfits, subject, hsubject, some enrolment, henrolled, h⟩
    · exact ⟨_, _, user, hfits, subject, hsubject, none, henrolled,
        finish_bind.2 ⟨hlogIn, subject', hsubject', yields_pure.2 ⟨rfl, rfl⟩⟩⟩

/-- The credential half of a handler succeeds exactly when the credentials are accepted. -/
lemma credentialHalf_succeeds {request : AuthRequest σ} :
    (∃ r c', Yields (request.credentialHalf state) c r c') ↔ request.Accepted state c := by
  cases request with
  | issue body services => exact authenticate_succeeds
  | login session body services =>
    cases hcode : body.totp with
    | none =>
      rw [AuthRequest.Accepted, hcode]
      exact firstStep_succeeds hcode
    | some code =>
      rw [AuthRequest.Accepted, AuthRequest.credentialHalf, attempt, hcode]
      exact secondStep_succeeds

end

/-! ### Runs of requests -/

/-- Where requests have led to, and what ought to be on the counter of each identity. -/
structure LoginRun (σ : Type) where
  world : AuthWorld σ
  /-- The attempts that were rejected since the last completed login. -/
  rejections : String → ℕ

/-- What an attempt with this outcome makes of the number of rejections. -/
def rejectionsAfter (rejections : ℕ) : Except Error LoginResponse → ℕ
  | .ok response => if response.requiresSecondFactor then rejections else 0
  | .error error => if error.countsAsAttempt then rejections + 1 else rejections

namespace LoginRun

/-- No failure is on record. -/
def start (credentials : Credentials σ) : LoginRun σ :=
  { world := { throttle := fun _ => .clear, credentials := credentials }, rejections := fun _ => 0 }

/-- The counter of each identity is the number of its rejections. -/
def CountsRejections (s : LoginRun σ) : Prop :=
  ∀ key, (s.world.throttle key).failures.elim 0 (·.value) = s.rejections key

/-- A request that gets as far as its credentials has them accepted. -/
def Settles (state : AuthState) (s : LoginRun σ) (request : AuthRequest σ) : Prop :=
  request.reaches state s.world = true → request.Accepted state s.world.credentials

/-- No failure is on record, and none ought to be. -/
def Clean (s : LoginRun σ) : Prop :=
  ∀ key, (s.world.throttle key).failures = none ∧ s.rejections key = 0

lemma Clean.counts {s : LoginRun σ} (h : s.Clean) : s.CountsRejections := by
  intro key
  rw [(h key).1, (h key).2]
  rfl

variable [DecidableEq σ]

def step (state : AuthState) (s : LoginRun σ) (request : AuthRequest σ) : Option (LoginRun σ) :=
  let result := request.handle state s.world
  let key := state.normalise request.identity
  some
    { world := result.2
      rejections :=
        if request.reaches state s.world then
          Function.update s.rejections key (rejectionsAfter (s.rejections key) result.1)
        else s.rejections }

variable {s s' : LoginRun σ} {request : AuthRequest σ} {config : ThrottleConfig}

omit [DecidableEq σ] in
/-- What is recorded of an attempt. -/
lemma conclude_eq {world : AuthWorld σ} {identity : String} {handler : Handler σ LoginResponse}
    {outcome : Except Error LoginResponse} {credentials : Credentials σ}
    (hconfig : state.loginThrottle = some config)
    (h : handler.run { world.credentials with guess := none } = (outcome, credentials)) :
    conclude state services world identity handler = (outcome,
      { throttle := Function.update world.throttle (state.normalise identity)
          (config.record (world.throttle (state.normalise identity)) services.now
            (recordedAs outcome))
        credentials := credentials }) := by
  rw [conclude, h]
  simp only [record, hconfig]

/-- Accepted credentials leave no failure on record. -/
lemma clean_step (hconfig : state.loginThrottle = some config) (hclean : s.Clean)
    (hsettles : s.Settles state request) (hstep : s.step state request = some s') : s'.Clean := by
  obtain rfl := Option.some.inj hstep
  intro key
  cases hreaches : request.reaches state s.world with
  | false =>
    obtain ⟨error, hhandle⟩ := AuthRequest.handle_of_not_reaches hreaches
    rw [hhandle]
    exact hclean key
  | true =>
    obtain ⟨r, c', hyields⟩ := credentialHalf_succeeds.2
      (AuthRequest.accepted_guess.mpr (hsettles hreaches))
    rw [AuthRequest.handle_of_reaches hreaches, conclude_eq hconfig hyields, if_pos rfl]
    dsimp only
    by_cases hkey : key = state.normalise request.identity
    · subst hkey
      rw [Function.update_self, Function.update_self, (hclean _).2, rejectionsAfter, ite_self]
      exact ⟨rfl, rfl⟩
    · rw [Function.update_of_ne hkey, Function.update_of_ne hkey]
      exact hclean key

/-- Rejected credentials are not counted, and other failures are. -/
lemma not_counts_step (hconfig : state.loginThrottle = some config) (hclean : s.Clean)
    (hsettles : ¬ s.Settles state request) (hstep : s.step state request = some s') :
    ¬ s'.CountsRejections := by
  obtain rfl := Option.some.inj hstep
  obtain ⟨hreaches, hrejected⟩ := Classical.not_imp.mp hsettles
  cases hrun : (request.credentialHalf state).run { s.world.credentials with guess := none } with
  | mk outcome c' =>
    cases outcome with
    | ok r =>
      have haccepted := AuthRequest.accepted_guess.mp (credentialHalf_succeeds.1 ⟨r, c', hrun⟩)
      exact absurd haccepted hrejected
    | error error =>
      intro hcounts
      have hkey := hcounts (state.normalise request.identity)
      rw [AuthRequest.handle_of_reaches hreaches, conclude_eq hconfig hrun, hreaches,
        if_pos rfl] at hkey
      simp only [Function.update_self, (hclean _).2, rejectionsAfter, recordedAs] at hkey
      cases herror : error.countsAsAttempt <;> rw [herror] at hkey <;> cases hkey

/-- **The counter of each identity is the number of attempts that were rejected since its last
completed login exactly as long as no credentials are rejected and nothing else fails**: every
request that gets as far as its credentials has them accepted. An identity that is in backoff is
refused before any password is hashed. -/
theorem countsRejections_iff_settles (hconfig : state.loginThrottle = some config)
    (credentials : Credentials σ) (requests : List (AuthRequest σ)) :
    (Machine.Always (step state) CountsRejections (start credentials) requests ↔
      Machine.Meets (step state) (Settles state) (start credentials) requests) ∧
    ∀ (world : AuthWorld σ) (request : AuthRequest σ),
      config.InBackoff (world.throttle (state.normalise request.identity))
        request.services.now →
      ∃ retryAfter, request.handle state world = (.error (.rateLimited retryAfter), world) := by
  refine ⟨?_, fun world request h => AuthRequest.handle_of_inBackoff hconfig h⟩
  exact Machine.always_iff_meets (fun s request s' => clean_step hconfig) (fun s => Clean.counts)
    (fun s request s' => not_counts_step hconfig) (fun key => ⟨rfl, rfl⟩) requests

/-- Routes with a throttle. -/
def mounted : AuthState where
  loginThrottle := some {}
  hasKv := true
  totp := {}
  codeFor _ counter := .ok (if counter = 0 then "314159" else "271828")
  normalise identity := identity
  encodeSubject id := .ok id
  decodeSubject subject := .ok subject
  validateNext _ := .ok ()

/-- One account, whose password is `secret`. -/
def oneAccount : AccountStore where
  findByIdentity identity :=
    .ok (if identity = "ada" then some { authId := "usr_1", isActive := true } else none)
  findById id := .ok (if id = "usr_1" then some { authId := "usr_1", isActive := true } else none)
  passwordHash _ := .ok (some "secret")

def atTime (now : ℕ) : Services where
  now := now
  address := none
  captcha := none
  accounts := .ok oneAccount
  verify hash password := .ok (hash = password)
  dummyVerify := .ok ()
  opaqueToken := .ok "token"
  logIn := .ok ()
  readTotp := .ok ()
  writeTotp := .ok ()
  issuePair _ := .ok ("refresh", "access")

/-- A login with this password. -/
def loginWith (password : String) : AuthRequest Unit :=
  .login () { identity := "ada", password := password, totp := none, challenge := none,
              next := none } (atTime 0)

def noSessions : Credentials Unit where
  pending _ := none
  signedIn _ := none
  confirmed _ := none
  issued := 0
  hashes := 0
  guess := none

theorem countsRejections_twice : Machine.Always (step mounted) CountsRejections (start noSessions)
    [loginWith "secret", loginWith "secret"] := by
  have hthrottle : mounted.loginThrottle = some {} := rfl
  refine (countsRejections_iff_settles hthrottle noSessions _).1.mpr ?_
  have hsettles : ∀ s : LoginRun Unit, s.world.credentials.confirmed "usr_1" = none →
      s.Settles mounted (loginWith "secret") := by
    intro s hnone _
    refine ⟨{ authId := "usr_1", isActive := true }, "usr_1",
      ⟨oneAccount, rfl, rfl, ⟨"secret", rfl, rfl⟩, rfl⟩, rfl, .inr ⟨?_, rfl, "usr_1", rfl⟩⟩
    exact congrArg Except.ok hnone
  rintro _ ⟨⟩
  refine ⟨hsettles _ rfl, ?_⟩
  rintro _ ⟨⟩
  exact ⟨hsettles _ rfl, trivial⟩

/-- Five wrong passwords in a row are all hashed, and none of them is on the counter. -/
theorem countsRejections_fails_for_guessing :
    ¬ Machine.Always (step mounted) CountsRejections (start noSessions)
      (List.replicate 5 (loginWith "guess")) := by
  intro h
  have hrun : ∃ s, Machine.exec (step mounted) (start noSessions)
      (List.replicate 5 (loginWith "guess")) = some s ∧
        (s.world.throttle "ada").failures = none ∧ s.rejections "ada" = 5 ∧
          s.world.credentials.hashes = 5 := ⟨_, rfl, by decide, by decide, by decide⟩
  obtain ⟨s, hrun, hfailures, hrejections, -⟩ := hrun
  have hcounts := h.of_exec hrun "ada"
  rw [hfailures, hrejections] at hcounts
  cases hcounts

end LoginRun

end Moso.Auth
