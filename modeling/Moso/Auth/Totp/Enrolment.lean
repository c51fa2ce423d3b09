import Moso.Auth.Base32
import Moso.Foundation.Fallible
import Moso.Foundation.Machine
import Moso.Foundation.Stateful
import Moso.Foundation.Utf8

/-!
# Enrolling and removing a second factor

The handlers of `POST /auth/totp/setup`, `/confirm` and `/disable`, one request after the other, in
a session of one account. An enrolment that was started waits in one namespace, and the confirmed
one is in another.

What the throttle, the session and the stores answer is given for each request.
-/

namespace Moso.Auth

open Stateful (settle)

/-! ### The handlers -/

/-- How long a started but unconfirmed enrolment survives. -/
def PENDING_TTL : ℕ := 15 * 60 * 1000000000

/-- A started enrolment, and when it stops being visible. -/
structure PendingTotp where
  stored : StoredTotp
  expiresAt : ℕ
  deriving DecidableEq

/-- What the two namespaces have of the account. -/
structure TotpSlots where
  pending : Option PendingTotp
  confirmed : Option StoredTotp
  /-- The secret that the code of the request was accepted for. -/
  accepted : Option TotpSecret
  deriving DecidableEq

/-- The enrolment that is waiting to be confirmed. -/
def TotpSlots.waiting (slots : TotpSlots) (now : ℕ) : Option StoredTotp :=
  (slots.pending.filter fun p => now < p.expiresAt).map (·.stored)

/-- What is there for one request. -/
structure TotpServices where
  /-- The wall clock. -/
  now : ℕ
  gate : Except Error Unit
  /-- The identity in the session, if there is one. -/
  identity : Except Error (Option String)
  generate : Except Error TotpSecret
  getPending : Except Error Unit
  getConfirmed : Except Error Unit
  setPending : Except Error Unit
  setConfirmed : Except Error Unit
  deletePending : Except Error Unit
  deleteConfirmed : Except Error Unit

/-- How the routes are mounted. -/
structure TotpRoutes where
  /-- A key-value store is configured. -/
  hasKv : Bool
  codeFor : CodeForCounter
  issuerName : String

structure TotpSetupResponse where
  secret : TotpSecret
  provisioningUri : String

/-- Percent-encode everything that is not an RFC 3986 unreserved character. -/
def percentEncode (text : String) : String :=
  String.ofList <| (Utf8.bytes text.toList).flatMap fun byte =>
    let c := Char.ofNat byte.toNat
    if c.isAlphanum || c ∈ ['-', '.', '_', '~'] then [c]
    else ['%', (Nat.digitChar (byte.toNat / 16)).toUpper, (Nat.digitChar (byte.toNat % 16)).toUpper]

/-- The URI to render as a QR code. -/
def provisioningUri (issuer account : String) (secret : TotpSecret) (totp : Totp) : String :=
  "otpauth://totp/" ++ percentEncode issuer ++ ":" ++ percentEncode account ++
    "?secret=" ++ secret ++ "&issuer=" ++ percentEncode issuer ++
    "&algorithm=SHA1&digits=" ++ toString totp.digits ++ "&period=" ++ toString totp.period

abbrev TotpHandler := Stateful Error TotpSlots

/-- `TotpSecret::from_base32`, which never stops the program. -/
def readSecret (text : String) : Except Error TotpSecret :=
  (Base32.fromBase32 text.toList).getD (.error (.config "overflow"))

namespace TotpRoutes

variable (routes : TotpRoutes) (services : TotpServices)

def requireKv : Except Error Unit :=
  if routes.hasKv then .ok ()
  else .error (.config ("this route keeps state in a key-value store, and none was configured; " ++
    "help: `AuthState::kv(kv)`"))

/-- Rebuild the enrolment that was read. -/
def resume : Option StoredTotp → Except Error (Option StoredTotp)
  | none => .ok none
  | some stored => do
    let secret ← readSecret stored.secret
    return some { stored with secret := secret }

/-- What is missing is answered as a wrong code is. -/
def found {α : Type} : Option α → Except Error α
  | some a => .ok a
  | none   => .error .invalidCredentials

def readPending : TotpHandler (Option StoredTotp) := do
  settle routes.requireKv
  settle services.getPending
  let slots ← get
  settle (resume (slots.waiting services.now))

/-- The confirmed enrolment, if there is one. -/
def confirmed : TotpHandler (Option StoredTotp) :=
  if routes.hasKv then do
    settle services.getConfirmed
    let slots ← get
    settle (resume slots.confirmed)
  else return none

/-- A command of the store, and what it does. -/
def withKv (answer : Except Error Unit) (change : TotpSlots → TotpSlots) : TotpHandler Unit := do
  settle routes.requireKv
  settle answer
  modify change

def writePending (enrolment : StoredTotp) : TotpHandler Unit :=
  withKv routes services.setPending fun slots =>
    { slots with pending := some { stored := enrolment, expiresAt := services.now + PENDING_TTL } }

def writeConfirmed (enrolment : StoredTotp) : TotpHandler Unit :=
  withKv routes services.setConfirmed fun slots => { slots with confirmed := some enrolment }

def deletePending : TotpHandler Unit :=
  withKv routes services.deletePending fun slots => { slots with pending := none }

def deleteConfirmed : TotpHandler Unit :=
  withKv routes services.deleteConfirmed fun slots => { slots with confirmed := none }

/-- `TotpEnrollment::check`, with the default parameters; the period that it consumes. -/
def check (enrolment : StoredTotp) (code : String) : TotpHandler ℕ := do
  let accepted ← settle (enrolment.accept {} routes.codeFor code (services.now / 1000000000))
  let period ← settle (found accepted)
  modify fun slots => { slots with accepted := some enrolment.secret }
  return period

/-- `POST /auth/totp/setup`. -/
def setup (subject : String) : TotpHandler TotpSetupResponse := do
  settle services.gate
  let account ← settle services.identity
  let secret ← settle services.generate
  writePending routes services { secret := secret, lastPeriod := none }
  return { secret := secret
           provisioningUri := provisioningUri routes.issuerName (account.getD subject) secret {} }

/-- `POST /auth/totp/confirm`. -/
def confirm (code : String) : TotpHandler Unit := do
  settle services.gate
  let enrolment ← readPending routes services
  let enrolment ← settle (found enrolment)
  let period ← check routes services enrolment code
  writeConfirmed routes services (enrolment.consume period)
  deletePending routes services

/-- `POST /auth/totp/disable`. -/
def disable (code : String) : TotpHandler Unit := do
  settle services.gate
  let enrolment ← confirmed routes services
  let enrolment ← settle (found enrolment)
  let _ ← check routes services enrolment code
  deleteConfirmed routes services

end TotpRoutes

/-! ### A sequence of requests -/

inductive TotpRequest where
  | setup (services : TotpServices)
  | confirm (services : TotpServices) (code : String)
  | disable (services : TotpServices) (code : String)

/-- What a request did with the confirmed enrolment. -/
structure TotpEntry where
  before : Option StoredTotp
  /-- The secret that its code was accepted for. -/
  accepted : Option TotpSecret
  after : Option StoredTotp
  deriving DecidableEq

/-- The account, and what was done so far, the latest first. -/
structure TotpSequence where
  slots : TotpSlots
  log : List TotpEntry

namespace TotpSequence

variable (routes : TotpRoutes) (subject : String)

/-- What a request leaves in the namespaces. -/
def answer (slots : TotpSlots) : TotpRequest → TotpSlots
  | .setup services => ((routes.setup services subject).run { slots with accepted := none }).2
  | .confirm services code => ((routes.confirm services code).run { slots with accepted := none }).2
  | .disable services code => ((routes.disable services code).run { slots with accepted := none }).2

def step (s : TotpSequence) (request : TotpRequest) : Option TotpSequence :=
  let slots := answer routes subject s.slots request
  some
    { slots := slots
      log := ⟨s.slots.confirmed, slots.accepted, slots.confirmed⟩ :: s.log }

/-- The secret is in the confirmed slot. -/
def Holds (secret : TotpSecret) (slot : Option StoredTotp) : Prop :=
  ∃ stored ∈ slot, stored.secret = secret

/-- Since the secret was confirmed, a code of it was accepted. -/
def Proved (secret : TotpSecret) : List TotpEntry → Prop
  | [] => False
  | entry :: log => Holds secret entry.before ∧
      ((∃ a ∈ entry.accepted, readSecret secret = .ok a) ∨ Proved secret log)

/-- Whenever a confirmed secret was changed or deleted, a code of it had been accepted since it was
confirmed. -/
def Covered : List TotpEntry → Prop
  | [] => True
  | entry :: log => Covered log ∧ ∀ secret, Holds secret entry.before → ¬ Holds secret entry.after →
      Proved secret (entry :: log)

/-- The request confirms this secret: it waits to be confirmed, and the code is accepted for it. -/
structure Confirms (slots : TotpSlots) (services : TotpServices) (code : String)
    (secret : TotpSecret) : Prop where
  gate : services.gate = .ok ()
  hasKv : routes.hasKv = true
  get : services.getPending = .ok ()
  set : services.setConfirmed = .ok ()
  accepted : ∃ p ∈ slots.waiting services.now, readSecret p.secret = .ok secret ∧
    ∃ period, StoredTotp.accept {} routes.codeFor { p with secret := secret } code
      (services.now / 1000000000) = .ok (some period)

/-- No secret is confirmed while there is another one that was not proved. -/
def Spares (s : TotpSequence) : TotpRequest → Prop
  | .confirm services code => ∀ secret, Confirms routes s.slots services code secret →
      ∀ old ∈ s.slots.confirmed, readSecret old.secret = .ok secret ∨ Proved old.secret s.log
  | _ => True

end TotpSequence

/-! ### What the handlers do -/

namespace TotpRoutes

open Stateful

variable {routes : TotpRoutes} {services : TotpServices} {slots : TotpSlots} {code : String}

lemma requireKv_eq : routes.requireKv = .ok () ↔ routes.hasKv = true := by
  rw [requireKv]
  cases routes.hasKv <;> simp

lemma run_readPending : (readPending routes services).run slots =
    (do
      routes.requireKv
      services.getPending
      resume (slots.waiting services.now), slots) := by
  rw [readPending, run_settle_bind]
  cases routes.requireKv with
  | error => rfl
  | ok =>
    simp only [run_settle_bind]
    cases services.getPending <;> rfl

lemma run_confirmed : (confirmed routes services).run slots =
    (if routes.hasKv = true then do
      services.getConfirmed
      resume slots.confirmed
    else .ok none, slots) := by
  rw [confirmed]
  split_ifs
  · rw [run_settle_bind]
    cases services.getConfirmed <;> rfl
  · rfl

lemma run_check (enrolment : StoredTotp) : (check routes services enrolment code).run slots =
    match enrolment.accept {} routes.codeFor code (services.now / 1000000000) with
    | .ok (some period) => (.ok period, { slots with accepted := some enrolment.secret })
    | .ok none => (.error .invalidCredentials, slots)
    | .error error => (.error error, slots) := by
  rw [check, run_settle_bind]
  cases enrolment.accept {} routes.codeFor code (services.now / 1000000000) with
  | error => rfl
  | ok period => cases period <;> rfl

/-- A step that fails or goes on without a change to what is confirmed. -/
lemma leaves_check_bind {α : Type} {enrolment : StoredTotp} {f : ℕ → TotpHandler α}
    {Q : TotpSlots → Prop} (hfail : Q slots)
    (hgo : ∀ period, enrolment.accept {} routes.codeFor code (services.now / 1000000000) =
        .ok (some period) →
      Leaves (f period) { slots with accepted := some enrolment.secret } Q) :
    Leaves (check routes services enrolment code >>= f) slots Q := by
  refine leaves_bind (fun error s' h => ?_) fun period s' h => ?_
  all_goals
    rw [run_check] at h
    split at h
    all_goals obtain ⟨hresult, rfl⟩ := Prod.mk.inj h
  · cases hresult
  · exact hfail
  · exact hfail
  · next haccept =>
    obtain rfl := Except.ok.inj hresult
    exact hgo _ haccept
  · cases hresult
  · cases hresult

lemma leaves_withKv {answer : Except Error Unit} {change : TotpSlots → TotpSlots}
    {Q : TotpSlots → Prop} (hfail : Q slots)
    (hdone : routes.hasKv = true → answer = .ok () → Q (change slots)) :
    Leaves (withKv routes answer change) slots Q :=
  leaves_settle_bind hfail fun _ hkv => leaves_settle_bind hfail fun _ hanswer =>
    hdone (requireKv_eq.1 hkv) hanswer

lemma leaves_withKv_bind {α : Type} {answer : Except Error Unit} {change : TotpSlots → TotpSlots}
    {f : Unit → TotpHandler α} {Q : TotpSlots → Prop} (hfail : Q slots)
    (hgo : routes.hasKv = true → answer = .ok () → Leaves (f ()) (change slots) Q) :
    Leaves (withKv routes answer change >>= f) slots Q := by
  have hassoc : withKv routes answer change >>= f =
      settle routes.requireKv >>= fun _ => settle answer >>= fun _ => modify change >>= f := by
    rw [withKv, bind_assoc]
    exact congrArg _ (funext fun _ => bind_assoc _ _ _)
  rw [hassoc]
  refine leaves_settle_bind hfail fun _ hkv => leaves_settle_bind hfail fun _ hanswer => ?_
  rw [Leaves, run_modify_bind]
  exact hgo (requireKv_eq.1 hkv) hanswer

/-- A started enrolment is no confirmed one. -/
lemma leaves_setup (routes : TotpRoutes) (services : TotpServices) (slots : TotpSlots)
    (subject : String) : Leaves (setup routes services subject) slots fun slots' =>
      slots'.confirmed = slots.confirmed := by
  refine leaves_settle_bind rfl fun _ _ => leaves_settle_bind rfl fun _ _ => ?_
  exact leaves_settle_bind rfl fun _ _ => leaves_withKv_bind rfl fun _ _ => rfl

lemma resume_eq_ok {stored : Option StoredTotp} {enrolment : StoredTotp} :
    resume stored = .ok (some enrolment) ↔
      ∃ p ∈ stored, ∃ secret, readSecret p.secret = .ok secret ∧
        enrolment = { p with secret := secret } := by
  cases stored with
  | none => simp [resume]
  | some p =>
    rw [resume]
    cases hread : readSecret p.secret with
    | error => simp [hread]
    | ok secret => simp [hread, eq_comm]

lemma found_eq_ok {α : Type} {o : Option α} {a : α} : found o = .ok a ↔ o = some a := by
  cases o <;> simp [found]

open TotpSequence

/-- A request that confirms a secret puts it in the slot. -/
lemma leaves_confirm_of_confirms {secret : TotpSecret}
    (h : Confirms routes slots services code secret) :
    Leaves (confirm routes services code) slots fun slots' =>
      slots'.accepted = some secret ∧ Holds secret slots'.confirmed := by
  obtain ⟨p, hp, hread, period, haccept⟩ := h.accepted
  have hkv : routes.requireKv = .ok () := requireKv_eq.2 h.hasKv
  have hpending : (readPending routes services).run slots =
      (.ok (some { p with secret := secret }), slots) := by
    rw [run_readPending, hkv, h.get, resume_eq_ok.2 ⟨p, hp, secret, hread, rfl⟩]
    rfl
  simp only [Leaves, confirm, run_bind, run_settle, h.gate, hpending, found, run_check, haccept,
    writeConfirmed, withKv, hkv, h.set, run_modify, deletePending]
  cases services.deletePending with
  | error => exact ⟨rfl, _, rfl, rfl⟩
  | ok => exact ⟨rfl, _, rfl, rfl⟩

/-- A request that confirms no secret leaves the slot as it was. -/
lemma leaves_confirm_of_not (h : ∀ secret, ¬ Confirms routes slots services code secret) :
    Leaves (confirm routes services code) slots fun slots' =>
      slots'.confirmed = slots.confirmed := by
  refine leaves_settle_bind rfl fun _ hgate => ?_
  refine leaves_bind (fun error s' hrun => ?_) fun enrolment s' hrun => ?_
  all_goals
    rw [run_readPending] at hrun
    obtain ⟨hread, rfl⟩ := Prod.mk.inj hrun
  · rfl
  · obtain ⟨_, hkv, hread⟩ := Fallible.bind_eq_ok.mp hread
    obtain ⟨_, hget, hread⟩ := Fallible.bind_eq_ok.mp hread
    refine leaves_settle_bind rfl fun enrolment hfound => ?_
    obtain ⟨p, hp, secret, hsecret, rfl⟩ := resume_eq_ok.1 (found_eq_ok.1 hfound ▸ hread)
    refine leaves_check_bind rfl fun period haccept => leaves_withKv_bind rfl fun _ hset => ?_
    exact absurd ⟨hgate, requireKv_eq.1 hkv, hget, hset, p, hp, hsecret, period, haccept⟩
      (h secret)

/-- The confirmed secret is deleted with a code of it only. -/
lemma leaves_disable (routes : TotpRoutes) (services : TotpServices) (slots : TotpSlots)
    (code : String) : Leaves (disable routes services code) slots fun slots' =>
      slots'.confirmed = slots.confirmed ∨
        ∀ old ∈ slots.confirmed, ∃ a ∈ slots'.accepted, readSecret old.secret = .ok a := by
  refine leaves_settle_bind (.inl rfl) fun _ _ => ?_
  refine leaves_bind (fun error s' hrun => ?_) fun enrolment s' hrun => ?_
  all_goals
    rw [run_confirmed] at hrun
    obtain ⟨hread, rfl⟩ := Prod.mk.inj hrun
  · exact .inl rfl
  · refine leaves_settle_bind (.inl rfl) fun enrolment hfound => ?_
    rw [found_eq_ok.1 hfound] at hread
    split_ifs at hread
    · obtain ⟨_, -, hread⟩ := Fallible.bind_eq_ok.mp hread
      obtain ⟨p, hp, secret, hsecret, rfl⟩ := resume_eq_ok.1 hread
      refine leaves_check_bind (.inl rfl) fun period _ =>
        leaves_withKv (.inl rfl) fun _ _ => .inr fun old hold => ⟨secret, rfl, ?_⟩
      rw [Option.mem_unique hold hp]
      exact hsecret
    · cases hread

end TotpRoutes

/-! ### Results -/

namespace TotpSequence

open TotpRoutes

variable {routes : TotpRoutes} {subject : String} {s s' : TotpSequence} {request : TotpRequest}

/-- A secret that was read is spelled as it is written. -/
lemma readSecret_readSecret {text : String} {secret : TotpSecret}
    (h : readSecret text = .ok secret) : readSecret secret = .ok secret := by
  have hread : ∀ {text : String}, readSecret text = .ok secret ↔
      Base32.fromBase32 text.toList = some (.ok secret) := by
    intro text
    rw [readSecret]
    cases Base32.fromBase32 text.toList <;> simp
  rw [hread] at h ⊢
  exact Base32.fromBase32_spelled h

/-- Every request keeps the law, if it spares what is confirmed. -/
lemma covered_step (hs : Covered s.log) (hspares : Spares routes s request)
    (hstep : step routes subject s request = some s') : Covered s'.log := by
  obtain rfl := Option.some.inj hstep
  refine ⟨hs, fun secret hbefore hafter => ?_⟩
  cases request with
  | setup services =>
    have hsame := leaves_setup routes services { s.slots with accepted := none } subject
    exact absurd (hsame ▸ hbefore) hafter
  | confirm services code =>
    by_cases h : ∃ new, Confirms routes { s.slots with accepted := none } services code new
    · obtain ⟨new, hnew⟩ := h
      obtain ⟨old, hold, rfl⟩ := hbefore
      refine ⟨⟨old, hold, rfl⟩, ?_⟩
      refine (hspares new ⟨hnew.gate, hnew.hasKv, hnew.get, hnew.set, hnew.accepted⟩ old hold).imp
        (fun hread => ⟨new, (leaves_confirm_of_confirms hnew).1, hread⟩) id
    · have hsame := leaves_confirm_of_not (not_exists.mp h)
      exact absurd (hsame ▸ hbefore) hafter
  | disable services code =>
    refine ⟨hbefore, .inl ?_⟩
    rcases leaves_disable routes services { s.slots with accepted := none } code with
      hsame | hproved
    · exact absurd (hsame ▸ hbefore) hafter
    · obtain ⟨old, hold, rfl⟩ := hbefore
      exact hproved old hold

/-- A request that replaces a secret that was not proved breaks the law. -/
lemma not_covered_step (hspares : ¬ Spares routes s request)
    (hstep : step routes subject s request = some s') : ¬ Covered s'.log := by
  obtain rfl := Option.some.inj hstep
  cases request with
  | setup services => exact absurd trivial hspares
  | disable services code => exact absurd trivial hspares
  | confirm services code =>
    simp only [Spares, not_forall, not_or] at hspares
    obtain ⟨new, hnew, old, hold, hother, hunproved⟩ := hspares
    have hconfirms : Confirms routes { s.slots with accepted := none } services code new :=
      ⟨hnew.gate, hnew.hasKv, hnew.get, hnew.set, hnew.accepted⟩
    obtain ⟨haccepted, stored, hstored, hnew'⟩ := leaves_confirm_of_confirms hconfirms
    rintro ⟨-, hcovered⟩
    obtain ⟨p, -, hread, -⟩ := hnew.accepted
    have hgone : ¬ Holds old.secret
        (answer routes subject s.slots (.confirm services code)).confirmed := by
      rintro ⟨stored', hstored', heq⟩
      rw [Option.mem_unique hstored' hstored, hnew'] at heq
      exact hother (heq ▸ readSecret_readSecret hread)
    rcases (hcovered old.secret ⟨old, hold, rfl⟩ hgone).2 with ⟨a, ha, hold'⟩ | hproved
    · rw [Option.mem_unique ha haccepted] at hold'
      exact hother hold'
    · exact hunproved hproved

/-- **A confirmed secret is changed or deleted with a code of it exactly as long as no other secret
is confirmed in its place before it was proved.** -/
theorem covered_iff (routes : TotpRoutes) (subject : String) (slots : TotpSlots)
    (requests : List TotpRequest) :
    Machine.Always (step routes subject) (fun s => Covered s.log) ⟨slots, []⟩ requests ↔
      Machine.Meets (step routes subject) (Spares routes) ⟨slots, []⟩ requests := by
  have hstart : Covered (⟨slots, []⟩ : TotpSequence).log := trivial
  exact Machine.always_iff_meets (fun _ _ _ => covered_step) (fun _ h => h)
    (fun _ _ _ _ => not_covered_step) hstart requests

/-- Everything answers, and the fresh secret is this one. -/
def answering (secret : TotpSecret) : TotpServices where
  now := 0
  gate := .ok ()
  identity := .ok none
  generate := .ok secret
  getPending := .ok ()
  getConfirmed := .ok ()
  setPending := .ok ()
  setConfirmed := .ok ()
  deletePending := .ok ()
  deleteConfirmed := .ok ()

/-- The account's own secret, and one of whoever found the browser. -/
def ownSecret : TotpSecret := "AAAAAAAAAAAAAAAAAAAAAAAAAAAAAAAA"
def otherSecret : TotpSecret := "BBBBBBBBBBBBBBBBBBBBBBBBBBBBBBBB"

def twoCodes : TotpRoutes where
  hasKv := true
  codeFor secret _ := .ok (if secret = otherSecret then "265358" else "314159")
  issuerName := "Example"

/-- A new secret is started and confirmed with a code of its own, and the confirmed one is gone. -/
theorem not_covered : ¬ Machine.Always (step twoCodes "usr_1") (fun s => Covered s.log)
    ⟨⟨none, some ⟨ownSecret, some 0⟩, none⟩, []⟩
    [.setup (answering otherSecret), .confirm (answering otherSecret) "265358"] := by
  intro h
  have hrun : ∃ s, Machine.exec (step twoCodes "usr_1") ⟨⟨none, some ⟨ownSecret, some 0⟩, none⟩, []⟩
      [.setup (answering otherSecret), .confirm (answering otherSecret) "265358"] = some s ∧
      s.log = [⟨some ⟨ownSecret, some 0⟩, some otherSecret, some ⟨otherSecret, some 0⟩⟩,
        ⟨some ⟨ownSecret, some 0⟩, none, some ⟨ownSecret, some 0⟩⟩] := ⟨_, rfl, by decide⟩
  have hown : readSecret ownSecret = .ok ownSecret := by decide
  obtain ⟨s, hrun, hlog⟩ := hrun
  have hcovered := h.of_exec hrun
  rw [hlog] at hcovered
  have hgone : ¬ Holds ownSecret (some ⟨otherSecret, some 0⟩) := by
    rintro ⟨_, ⟨⟩, h⟩
    exact absurd h (by decide)
  have hproved := hcovered.2 ownSecret ⟨_, rfl, rfl⟩ hgone
  rcases hproved with ⟨-, ⟨a, ha, hread⟩ | hproved⟩
  · obtain rfl := Option.some.inj ha
    rw [hown] at hread
    exact absurd (Except.ok.inj hread) (by decide)
  · rcases hproved with ⟨-, ⟨a, ha, -⟩ | hproved⟩
    · cases ha
    · exact hproved

end TotpSequence

end Moso.Auth
