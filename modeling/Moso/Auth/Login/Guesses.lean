import Moso.Auth.Login.Backoff

/-!
# Guesses at a second factor

What a wrong code costs. The throttle goes by the identity in the body of a request, and the code
is compared with the enrolment of the account that the challenge of the session is for; and the
challenge is still there after a code was rejected.
-/

namespace Moso.Auth

open Stateful

variable {σ : Type} [DecidableEq σ] {state : AuthState} {services : Services}

/-- A request to `POST /auth/login`, and what is there for it. -/
structure LoginCall (σ : Type) where
  session : σ
  body : LoginRequest
  services : Services

namespace LoginCall

def request (call : LoginCall σ) : AuthRequest σ := .login call.session call.body call.services

/-- The code of the request is compared with the enrolment that a challenge is for. -/
def Compares (state : AuthState) (credentials : Credentials σ) (call : LoginCall σ)
    (pending : PendingSecondFactor) : Prop :=
  ∃ code enrolment accepted, call.body.totp = some code ∧
    credentials.pending call.session = some pending ∧
    call.body.challenge = some pending.challenge ∧
    enrolled state call.services credentials pending.subject = .ok (some enrolment) ∧
    enrolment.accept state.totp state.codeFor code (call.services.now / 1000000000) = .ok accepted

end LoginCall

/-- Where login requests have led to, and what became of the codes that were compared. -/
structure GuessRun (σ : Type) where
  world : AuthWorld σ
  /-- A code was rejected, and not recorded as a failure of the account that it was for. -/
  uncharged : Bool
  /-- A code was compared for an account that was in backoff. -/
  overBackoff : Bool
  /-- How many codes were compared for each challenge. -/
  compared : ℕ → ℕ

/-- The failures of the identity of an account have earned a delay that is not over. -/
def inBackoff (state : AuthState) (world : AuthWorld σ) (now : ℕ) (identity : String) : Bool :=
  state.loginThrottle.any fun config => decide (config.InBackoff (world.throttle identity) now)

namespace GuessRun

/-- There was no challenge yet. -/
def start (credentials : Credentials σ) : GuessRun σ where
  world :=
    { throttle := fun _ => .clear
      credentials := { credentials with pending := fun _ => none, issued := 0 } }
  uncharged := false
  overBackoff := false
  compared _ := 0

/-- Every rejected code was charged to the account that it was for, none was compared while that
account was in backoff, and no challenge had two codes compared. -/
def ChargesGuesses (s : GuessRun σ) : Prop :=
  s.uncharged = false ∧ s.overBackoff = false ∧ ∀ serial, s.compared serial ≤ 1

/-- A code that is compared is the right one, what the handler then needs answers, and the account
that it is for is not in backoff. -/
def GuessesRight (state : AuthState) (s : GuessRun σ) (call : LoginCall σ) : Prop :=
  call.request.reaches state s.world = true → ∀ pending,
    call.Compares state s.world.credentials pending →
      call.request.Accepted state s.world.credentials ∧
        inBackoff state s.world call.services.now pending.identity = false

def step (state : AuthState) (s : GuessRun σ) (call : LoginCall σ) : Option (GuessRun σ) :=
  let result := call.request.handle state s.world
  let guess := if call.request.reaches state s.world then result.2.credentials.guess else none
  some
    { world := result.2
      -- a failure is recorded against the identity in the body, if there is a throttle
      uncharged := s.uncharged || guess.any fun guess =>
        !guess.accepted && !(state.loginThrottle.isSome && !recordedAs result.1 &&
          decide (state.normalise call.body.identity = guess.pending.identity))
      overBackoff := s.overBackoff || guess.any fun guess =>
        inBackoff state s.world call.services.now guess.pending.identity
      compared := match guess with
        | none       => s.compared
        | some guess => Function.update s.compared guess.pending.serial
            (s.compared guess.pending.serial + 1) }

end GuessRun

/-! ### What a request does to the challenges -/

section

variable {c c' : Credentials σ} {session : σ} {body : LoginRequest} {next : Option String}
  {outcome : Except Error LoginResponse}

/-- What the credential half of a login did to the challenges: no code was compared, and at most
the session got a new one; or the code was compared with the enrolment that the challenge was for,
and the challenge is gone if the login went through. -/
inductive Guessed (state : AuthState) (c : Credentials σ) (call : LoginCall σ)
    (outcome : Except Error LoginResponse) (c' : Credentials σ) : Prop where
  | kept (guess : c'.guess = none) (pending : c'.pending = c.pending) (issued : c'.issued = c.issued)
  | issued (pending : PendingSecondFactor) (guess : c'.guess = none)
      (serial : pending.serial = c.issued) (issued : c'.issued = c.issued + 1)
      (pendings : c'.pending = Function.update c.pending call.session (some pending))
  | compared (pending : PendingSecondFactor) (accepted : Bool)
      (compares : call.Compares state c pending) (guess : c'.guess = some ⟨pending, accepted⟩)
      (issued : c'.issued = c.issued) (went : outcome.isOk = true → accepted = true ∧
        c'.pending = Function.update c.pending call.session none)

lemma guessed_secondStep {code : String} (hcode : body.totp = some code) (hguess : c.guess = none)
    (h : (secondStep state services session body.challenge code next).run c = (outcome, c')) :
    Guessed state c ⟨session, body, services⟩ outcome c' := by
  simp only [secondStep, run_get_bind, run_present_bind, run_require_bind, run_confirmed_bind,
    run_settle_bind, run_modify_bind] at h
  -- until the code is compared, nothing has been touched
  have hkept : ∀ error : Error, (Except.error error, c) = (outcome, c') →
      Guessed state c ⟨session, body, services⟩ outcome c' := by
    rintro error ⟨⟩
    exact .kept hguess rfl rfl
  split at h
  case h_2 => exact hkept _ h
  next pending hpending =>
  split at h
  case h_2 => exact hkept _ h
  next presented hpresented =>
  split at h
  case isFalse => exact hkept _ h
  next hchallenge =>
  split at h
  case h_2 => exact hkept _ h
  next found henrolled =>
  cases found with
  | none => exact hkept _ h
  | some enrolment =>
    dsimp only at h
    split at h
    case h_2 => exact hkept _ h
    next accepted haccept =>
    have hcompares : LoginCall.Compares state c ⟨session, body, services⟩ pending :=
      ⟨code, enrolment, accepted, hcode, hpending, by rw [hpresented, hchallenge], henrolled,
        haccept⟩
    cases accepted with
    | none =>
      cases h
      exact .compared pending false hcompares rfl rfl (by rintro ⟨⟩)
    | some period =>
      have hfailed : ∀ (error : Error) (c₁ : Credentials σ),
          (Except.error error, c₁) = (outcome, c') → c₁.guess = some ⟨pending, true⟩ →
            c₁.issued = c.issued → Guessed state c ⟨session, body, services⟩ outcome c' := by
        rintro error c₁ ⟨⟩ hguess₁ hissued
        exact .compared pending true hcompares hguess₁ hissued (by rintro ⟨⟩)
      simp only [saveConfirmed, finish, bind_assoc, run_settle_bind, run_modify_bind,
        run_present_bind, run_require_bind, run_pure] at h
      split at h
      case h_2 => exact hfailed _ _ h rfl rfl
      split at h
      case h_2 => exact hfailed _ _ h rfl rfl
      split at h
      case h_2 => exact hfailed _ _ h rfl rfl
      split at h
      case h_2 => exact hfailed _ _ h rfl rfl
      next user _ =>
      cases user with
      | none => exact hfailed _ _ h rfl rfl
      | some user =>
        dsimp only at h
        split at h
        case isFalse => exact hfailed _ _ h rfl rfl
        split at h
        case h_2 => exact hfailed _ _ h rfl rfl
        split at h
        case h_2 => exact hfailed _ _ h rfl rfl
        cases h
        exact .compared pending true hcompares rfl rfl fun _ => ⟨rfl, rfl⟩

omit [DecidableEq σ] in
/-- To verify a password is to count one hash. -/
lemma verifyPassword_state {identity password : String} {result : Except Error User}
    (h : (verifyPassword services identity password).run c = (result, c')) :
    c'.guess = c.guess ∧ c'.pending = c.pending ∧ c'.issued = c.issued := by
  have hkept : ∀ {result' : Except Error User} {c₁ : Credentials σ}, (result', c₁) = (result, c') →
      c₁.guess = c.guess ∧ c₁.pending = c.pending ∧ c₁.issued = c.issued →
        c'.guess = c.guess ∧ c'.pending = c.pending ∧ c'.issued = c.issued := by
    rintro result' c₁ ⟨⟩ hc
    exact hc
  simp only [verifyPassword, run_settle_bind] at h
  split at h
  case h_2 => exact hkept h ⟨rfl, rfl, rfl⟩
  split at h
  case h_2 => exact hkept h ⟨rfl, rfl, rfl⟩
  next found _ =>
  cases found with
  | none =>
    simp only [run_modify_bind, run_settle_bind, run_throw] at h
    split at h <;> exact hkept h ⟨rfl, rfl, rfl⟩
  | some user =>
    simp only [run_modify_bind, run_settle_bind] at h
    split at h
    case h_2 => exact hkept h ⟨rfl, rfl, rfl⟩
    next hash _ =>
    cases hash with
    | none =>
      simp only [run_settle_bind, run_throw] at h
      split at h <;> exact hkept h ⟨rfl, rfl, rfl⟩
    | some hash =>
      simp only [run_settle_bind, run_require_bind, run_pure] at h
      split at h
      case h_2 => exact hkept h ⟨rfl, rfl, rfl⟩
      split at h
      case isFalse => exact hkept h ⟨rfl, rfl, rfl⟩
      split at h <;> exact hkept h ⟨rfl, rfl, rfl⟩

lemma guessed_firstStep (hcode : body.totp = none) (hguess : c.guess = none)
    (h : (attempt state services session body next).run c = (outcome, c')) :
    Guessed state c ⟨session, body, services⟩ outcome c' := by
  simp only [attempt, hcode] at h
  rw [run_bind] at h
  cases hverify : (verifyPassword services (state.normalise body.identity) body.password).run c with
  | mk result c₁ =>
    obtain ⟨hguess₁, hpending₁, hissued₁⟩ := verifyPassword_state hverify
    rw [hguess] at hguess₁
    have hkept : ∀ error : Error, (Except.error error, c₁) = (outcome, c') →
        Guessed state c ⟨session, body, services⟩ outcome c' := by
      rintro error ⟨⟩
      exact .kept hguess₁ hpending₁ hissued₁
    rw [hverify] at h
    cases result with
    | error error => exact hkept _ h
    | ok user =>
      simp only [run_settle_bind, run_confirmed_bind] at h
      split at h
      case h_2 => exact hkept _ h
      next subject _ =>
      split at h
      case h_2 => exact hkept _ h
      next enrolment _ =>
      cases enrolment with
      | some enrolment =>
        simp only [challenge, run_settle_bind, run_modify_bind, run_pure] at h
        split at h
        case h_2 => exact hkept _ h
        next token _ =>
        cases h
        refine .issued ⟨subject, state.normalise body.identity, token, next, c₁.issued⟩ hguess₁ hissued₁
          (congrArg (· + 1) hissued₁) ?_
        rw [hpending₁]
      | none =>
        simp only [finish, bind_assoc, run_settle_bind, run_modify_bind, run_pure] at h
        split at h
        case h_2 => exact hkept _ h
        split at h
        case h_2 => exact hkept _ h
        cases h
        exact .kept hguess₁ hpending₁ hissued₁

lemma guessed_attempt (hguess : c.guess = none)
    (h : (attempt state services session body next).run c = (outcome, c')) :
    Guessed state c ⟨session, body, services⟩ outcome c' := by
  cases hcode : body.totp with
  | none => exact guessed_firstStep hcode hguess h
  | some code =>
    rw [attempt, hcode] at h
    exact guessed_secondStep hcode hguess h

end

/-- A challenge that is there had no code compared, and no two sessions have the same one. -/
structure Fresh (c : Credentials σ) (compared : ℕ → ℕ) : Prop where
  atMostOnce : ∀ serial, compared serial ≤ 1
  issued : ∀ serial, c.issued ≤ serial → compared serial = 0
  uncompared : ∀ session, ∀ pending ∈ c.pending session,
    pending.serial < c.issued ∧ compared pending.serial = 0
  distinct : ∀ session session', ∀ pending ∈ c.pending session, ∀ pending' ∈ c.pending session',
    pending.serial = pending'.serial → session = session'

namespace Fresh

variable {c c' : Credentials σ} {compared : ℕ → ℕ} {session : σ} {pending : PendingSecondFactor}

omit [DecidableEq σ] in
lemma keep (h : Fresh c compared) (hpending : c'.pending = c.pending)
    (hissued : c'.issued = c.issued) : Fresh c' compared where
  atMostOnce := h.atMostOnce
  issued := hissued ▸ h.issued
  uncompared := by
    rw [hpending, hissued]
    exact h.uncompared
  distinct := by
    rw [hpending]
    exact h.distinct

/-- A session gets a new challenge. -/
lemma issue (h : Fresh c compared) (hserial : pending.serial = c.issued)
    (hissued : c'.issued = c.issued + 1)
    (hpending : c'.pending = Function.update c.pending session (some pending)) :
    Fresh c' compared where
  atMostOnce := h.atMostOnce
  issued serial hle := h.issued serial (by omega)
  uncompared := by
    intro session' pending' hmem
    rw [hpending] at hmem
    by_cases hsession : session' = session
    · subst hsession
      rw [Function.update_self] at hmem
      obtain rfl := Option.some.inj hmem
      exact ⟨by omega, h.issued _ hserial.ge⟩
    · rw [Function.update_of_ne hsession] at hmem
      obtain ⟨hlt, hzero⟩ := h.uncompared session' pending' hmem
      exact ⟨by omega, hzero⟩
  distinct := by
    have hold : ∀ session' ≠ session, ∀ pending' ∈ c'.pending session',
        pending' ∈ c.pending session' ∧ pending'.serial ≠ pending.serial := by
      intro session' hne pending' hmem
      rw [hpending, Function.update_of_ne hne] at hmem
      have hlt := (h.uncompared session' pending' hmem).1
      exact ⟨hmem, by omega⟩
    have hnew : ∀ pending' ∈ c'.pending session, pending' = pending := by
      intro pending' hmem
      rw [hpending, Function.update_self] at hmem
      exact (Option.some.inj hmem).symm
    intro session₁ session₂ pending₁ hmem₁ pending₂ hmem₂ heq
    by_cases h₁ : session₁ = session <;> by_cases h₂ : session₂ = session
    · rw [h₁, h₂]
    · subst h₁
      rw [hnew pending₁ hmem₁] at heq
      exact absurd heq.symm (hold session₂ h₂ pending₂ hmem₂).2
    · subst h₂
      rw [hnew pending₂ hmem₂] at heq
      exact absurd heq (hold session₁ h₁ pending₁ hmem₁).2
    · exact h.distinct session₁ session₂ pending₁ (hold session₁ h₁ pending₁ hmem₁).1 pending₂
        (hold session₂ h₂ pending₂ hmem₂).1 heq

/-- The one code of a challenge is compared, and the challenge is gone. -/
lemma compare (h : Fresh c compared) (hmem : pending ∈ c.pending session)
    (hissued : c'.issued = c.issued)
    (hpending : c'.pending = Function.update c.pending session none) :
    Fresh c' (Function.update compared pending.serial (compared pending.serial + 1)) := by
  obtain ⟨hlt, hzero⟩ := h.uncompared session pending hmem
  have hold : ∀ session' pending', pending' ∈ c'.pending session' →
      pending' ∈ c.pending session' ∧ pending'.serial ≠ pending.serial := by
    intro session' pending' hmem'
    rw [hpending] at hmem'
    by_cases hsession : session' = session
    · subst hsession
      rw [Function.update_self] at hmem'
      cases hmem'
    · rw [Function.update_of_ne hsession] at hmem'
      exact ⟨hmem', fun heq => hsession (h.distinct session' session pending' hmem' pending hmem heq)⟩
  refine ⟨fun serial => ?_, fun serial hle => ?_, fun session' pending' hmem' => ?_, ?_⟩
  · by_cases hserial : serial = pending.serial
    · rw [hserial, Function.update_self, hzero]
    · rw [Function.update_of_ne hserial]
      exact h.atMostOnce serial
  · have hserial : serial ≠ pending.serial := by omega
    rw [Function.update_of_ne hserial]
    exact h.issued serial (hissued ▸ hle)
  · obtain ⟨hmem', hserial⟩ := hold session' pending' hmem'
    rw [Function.update_of_ne hserial, hissued]
    exact h.uncompared session' pending' hmem'
  · intro session₁ session₂ pending₁ hmem₁ pending₂ hmem₂ heq
    exact h.distinct session₁ session₂ pending₁ (hold session₁ pending₁ hmem₁).1 pending₂
      (hold session₂ pending₂ hmem₂).1 heq

end Fresh

namespace GuessRun

variable {s s' : GuessRun σ} {call : LoginCall σ}

omit [DecidableEq σ] in
lemma conclude_of_run {world : AuthWorld σ} {identity : String} {handler : Handler σ LoginResponse}
    {outcome : Except Error LoginResponse} {c' : Credentials σ}
    (h : handler.run { world.credentials with guess := none } = (outcome, c')) :
    (conclude state services world identity handler).1 = outcome ∧
      (conclude state services world identity handler).2.credentials = c' := by
  rw [conclude, h]
  refine ⟨rfl, ?_⟩
  simp only [record]
  split <;> rfl

/-- A login that gets so far does one of three things to the challenges. -/
lemma guessed_of_reaches (hreaches : call.request.reaches state s.world = true) :
    ∃ outcome c', Guessed state s.world.credentials call outcome c' ∧
      (call.request.credentialHalf state).run { s.world.credentials with guess := none } =
        (outcome, c') ∧ (call.request.handle state s.world).2.credentials = c' := by
  cases hrun : (call.request.credentialHalf state).run
      { s.world.credentials with guess := none } with
  | mk outcome c' =>
    refine ⟨outcome, c', ?_, rfl, ?_⟩
    · cases guessed_attempt (c := { s.world.credentials with guess := none }) rfl hrun with
      | kept guess pending issued => exact .kept guess pending issued
      | issued pending guess serial issued pendings =>
        exact .issued pending guess serial issued pendings
      | compared pending accepted compares guess issued went =>
        exact .compared pending accepted compares guess issued went
    · rw [AuthRequest.handle_of_reaches hreaches]
      exact (conclude_of_run hrun).2

/-- Every code was charged, and the challenges that are there are fresh. -/
def Charged (s : GuessRun σ) : Prop :=
  s.uncharged = false ∧ s.overBackoff = false ∧ Fresh s.world.credentials s.compared

/-- No challenge has a second code compared, as long as those that are compared are right. -/
lemma charged_step (hcharged : s.Charged) (hright : s.GuessesRight state call)
    (hstep : s.step state call = some s') : s'.Charged := by
  obtain rfl := Option.some.inj hstep
  obtain ⟨huncharged, hoverBackoff, hfresh⟩ := hcharged
  cases hreaches : call.request.reaches state s.world with
  | false =>
    obtain ⟨error, hhandle⟩ := AuthRequest.handle_of_not_reaches hreaches
    simp only [hhandle, Bool.false_eq_true, if_false, Option.any_none, Bool.or_false]
    exact ⟨huncharged, hoverBackoff, hfresh⟩
  | true =>
    obtain ⟨outcome, c', hguessed, hrun, hcredentials⟩ := guessed_of_reaches hreaches
    simp only [Charged, hcredentials, if_true]
    cases hguessed with
    | kept guess pending issued =>
      rw [guess]
      simp only [Option.any_none, Bool.or_false]
      exact ⟨huncharged, hoverBackoff, hfresh.keep pending issued⟩
    | issued pending guess serial issued pendings =>
      rw [guess]
      simp only [Option.any_none, Bool.or_false]
      exact ⟨huncharged, hoverBackoff, hfresh.issue serial issued pendings⟩
    | compared pending accepted compares guess issued went =>
      obtain ⟨haccepted, hbackoff⟩ := hright hreaches pending compares
      obtain ⟨r, c'', hyields⟩ :=
        credentialHalf_succeeds.2 (AuthRequest.accepted_guess.mpr haccepted)
      have hok : outcome = .ok r := congrArg Prod.fst (hrun.symm.trans hyields)
      obtain ⟨rfl, hpending⟩ := went (by rw [hok]; rfl)
      obtain ⟨-, -, -, -, hmem, -⟩ := compares
      rw [guess]
      simp only [Option.any_some, Bool.not_true, Bool.false_and, Bool.or_false, hbackoff]
      exact ⟨huncharged, hoverBackoff, hfresh.compare hmem issued hpending⟩

/-- **Guesses at the second factor of an account are charged to that account, and no challenge has
two codes compared, as long as no guess is wrong**: every code that is compared is right, the
login then goes through, and the account that it is for is not in backoff. -/
theorem chargesGuesses_of_right (credentials : Credentials σ) (calls : List (LoginCall σ))
    (h : Machine.Meets (step state) (GuessesRight state) (start credentials) calls) :
    Machine.Always (step state) ChargesGuesses (start credentials) calls := by
  have hstart : (start credentials).Charged :=
    ⟨rfl, rfl, fun _ => Nat.zero_le 1, fun _ _ => rfl, nofun, nofun⟩
  exact (Machine.always_of_meets (fun s call s' => charged_step) hstart h).mono
    fun s hs => ⟨hs.1, hs.2.1, hs.2.2.atMostOnce⟩

/-- The account has a second factor. -/
def enrolledAccount : Credentials Unit :=
  { LoginRun.noSessions with
    confirmed := fun _ => some { secret := "JBSWY3DP", lastPeriod := none } }

def passwordStep : LoginCall Unit where
  session := ()
  body := { identity := "ada", password := "secret", totp := none, challenge := none, next := none }
  services := LoginRun.atTime 0

/-- The second request of a login, with this identity and this code. -/
def codeStep (identity code : String) : LoginCall Unit where
  session := ()
  body := { identity := identity, password := "", totp := some code, challenge := some "token",
            next := none }
  services := LoginRun.atTime 0

theorem chargesGuesses_login : Machine.Always (step LoginRun.mounted) ChargesGuesses
    (start enrolledAccount) [passwordStep, codeStep "ada" "314159"] := by
  apply chargesGuesses_of_right
  rintro s₁ ⟨⟩
  refine ⟨?_, ?_⟩
  · rintro - pending ⟨code, _, _, ⟨⟩, _⟩
  rintro s₂ ⟨⟩
  refine ⟨?_, trivial⟩
  rintro - pending ⟨_, _, _, -, ⟨⟩, -⟩
  refine ⟨⟨⟨"usr_1", "ada", "token", none, 0⟩, ⟨"JBSWY3DP", none⟩, LoginRun.oneAccount, "usr_1",
    ⟨"usr_1", true⟩, rfl, rfl, rfl, ⟨⟨0, ?_⟩, rfl⟩, rfl, rfl, rfl, rfl, rfl,
    "usr_1", rfl⟩, ?_⟩
  · decide
  · decide

/-- Whoever knows the password guesses as often as they like at one challenge, in the name of
somebody else. -/
theorem chargesGuesses_fails_for_guessing :
    ¬ Machine.Always (step LoginRun.mounted) ChargesGuesses (start enrolledAccount)
      (passwordStep :: List.replicate 3 (codeStep "mallory" "123456")) := by
  intro h
  have hrun : ∃ s, Machine.exec (step LoginRun.mounted) (start enrolledAccount)
      (passwordStep :: List.replicate 3 (codeStep "mallory" "123456")) = some s ∧
        s.uncharged = true ∧ s.compared 0 = 3 ∧
          (s.world.throttle "ada").failures = none := ⟨_, rfl, by decide, by decide, by decide⟩
  obtain ⟨s, hrun, huncharged, -⟩ := hrun
  rw [(h.of_exec hrun).1] at huncharged
  cases huncharged

end GuessRun

end Moso.Auth
