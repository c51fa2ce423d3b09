import Moso.Auth.Extract
import Moso.Foundation.Utf8

/-!
# The guard against cross-site requests

The guard decides from the headers of a request whether it was authenticated by cookie; the
extractors decide it by trying the bearer credential and falling back to the session. `Guarded`
says that the two agree: a request that changes something and acts by its session has carried the
session's token, and comes from the site. `guarded_iff` says when they do.
-/

namespace Moso.Auth

open Stateful
open HeaderMap (toStr)

/-! ### The guard -/

structure CsrfConfig where
  /-- The header the token may arrive in. -/
  header : List Char := "x-csrf-token".toList
  /-- The form field the token may arrive in. -/
  field : List Char := "csrf_token".toList
  /-- The key of the session that the token is stored under. -/
  sessionKey : List Char := "_csrf".toList
  /-- Whether to require an `Origin` or `Referer` that matches, too. -/
  checkOrigin : Bool := true

/-- Methods that change nothing. -/
def Method.isSafe : Method → Bool
  | .get | .head | .options | .trace => true
  | _ => false

def hexValue (b : UInt8) : Option ℕ :=
  let n := b.toNat
  if 48 ≤ n && n < 58 then some (n - 48)
  else if 65 ≤ n && n < 71 then some (n - 55)
  else if 97 ≤ n && n < 103 then some (n - 87)
  else none

/-- The byte that a `%` and two hexadecimal digits stand for. -/
def percentByte (b high low : UInt8) : Option UInt8 := do
  if b = 37 then
    let high ← hexValue high
    let low ← hexValue low
    some (UInt8.ofNat (high * 16 + low))
  else none

/-- A `%` without two hexadecimal digits behind it is left alone. -/
def percentDecode : List UInt8 → List UInt8
  | b :: high :: low :: rest =>
    match percentByte b high low with
    | some decoded => decoded :: percentDecode rest
    | none         => b :: percentDecode (high :: low :: rest)
  | rest => rest

/-- Percent-decode one form component, `+` included. -/
def decodeComponent (value : List Char) : List Char :=
  Utf8.decodeLossy (percentDecode (Utf8.bytes (value.map fun c => if c = '+' then ' ' else c)))

/-- The pairs of a form. -/
def formUrlencodedPairs (query : List Char) : List (List Char × List Char) :=
  ((query.splitOn '&').filterMap (Text.splitOnce '=')).map fun pair =>
    (decodeComponent pair.1, decodeComponent pair.2)

/-- What stands before and after the first `://`. -/
def splitScheme : List Char → Option (List Char × List Char)
  | [] => none
  | c :: rest =>
    if "://".toList.isPrefixOf (c :: rest) then some ([], rest.drop 2)
    else (splitScheme rest).map fun parts => (c :: parts.1, parts.2)

/-- The second piece of a text that is cut at every `://`, up to its first slash. -/
def claimedAuthority (claimed : List Char) : Option (List Char) := do
  let (_, rest) ← splitScheme claimed
  let piece := ((splitScheme rest).map Prod.fst).getD rest
  some (piece.takeWhile (· ≠ '/'))

/-- The host of a request: of its header, or of its uri. -/
def RequestParts.host (parts : RequestParts) : Option (List Char) :=
  ((parts.headers.get "host".toList).bind toStr).or parts.authority

/-- The site that a request says it comes from: its `Origin`, or else its `Referer`. -/
def RequestParts.claimed (parts : RequestParts) : Option (List Char) :=
  ((parts.headers.get "origin".toList).or (parts.headers.get "referer".toList)).bind toStr

/-- Whether the request's `Origin` or `Referer` agrees with its `Host`. -/
def originAgrees (parts : RequestParts) : Bool :=
  match parts.host, parts.claimed with
  | some host, some claimed => claimedAuthority claimed = some host
  | _, _                    => false

namespace CsrfConfig

variable (csrf : CsrfConfig)

/-- Whether a request of this shape needs the check at all. -/
def applies (parts : RequestParts) : Bool :=
  let byCookie := parts.headers.containsKey "cookie".toList &&
    !parts.headers.containsKey "authorization".toList
  !parts.method.isSafe && byCookie

/-- The token the request presented, from the header or the form field. -/
def presented (parts : RequestParts) : Option (List Char) :=
  match (parts.headers.get csrf.header).bind toStr with
  | some value => some value
  | none => do
    let query ← parts.query
    let pair ← (formUrlencodedPairs query).find? fun pair => pair.1 = csrf.field
    some pair.2

def wrongOrigin : CoreError := .forbidden
  ("this request's Origin does not match its Host; every browser sends one on a cross-origin " ++
    "state-changing request, so its absence is itself a signal")

def checkSite (parts : RequestParts) : Except CoreError Unit :=
  if csrf.checkOrigin && !originAgrees parts then .error wrongOrigin else .ok ()

/-- The token of the session against the one that was presented. -/
def compare (parts : RequestParts) : Option (List Char) → Except CoreError Unit
  | none => .error (.forbidden ("this session has no CSRF token; help: read one with " ++
      "`Csrf::token(&session)` and send it back in the configured header"))
  | some expected =>
    match csrf.presented parts with
    | none => .error (.forbidden ("this request carried no CSRF token; help: send the session's " ++
        "token in the `" ++ String.ofList csrf.header ++ "` header"))
    | some presented =>
      if expected = presented then .ok ()
      else .error (.forbidden "the CSRF token did not match this session's")

section

variable {κ U Id User : Type} [DecidableEq κ] [DecidableEq U] (app : Installed κ U Id User)
  (now : ℕ) (generated : κ)

/-- The check of the token. Without a session layer nothing is authenticated by cookie. -/
def checkToken (parts : RequestParts) : Extraction κ U Unit := do
  match (← get).session with
  | none         => return ()
  | some session => do
    let session ← load app now generated session
    let expected ← settle ((session.getString app.describe csrf.sessionKey).mapError toCore)
    settle (csrf.compare parts expected)

/-- `Csrf::check`. -/
def check (parts : RequestParts) : Extraction κ U Unit :=
  if !applies parts then return ()
  else do
    settle (csrf.checkSite parts)
    csrf.checkToken app now generated parts

end

end CsrfConfig

/-! ### The session of a request -/

/-- What the session layer makes of cookies. -/
structure SessionLayer (κ : Type) where
  cookieName : List Char
  /-- The cookies of a header that parse, with their values. -/
  splitParse : List Char → List (List Char × List Char)
  /-- The identifier that a value carries, if its signature checks out. -/
  verify : List Char → Option κ

namespace SessionLayer

variable {κ U : Type} (layer : SessionLayer κ) (headers : HeaderMap)

/-- The value of the session's cookie, if the request sent one. -/
def cookieValue : Option (List Char) :=
  ((((headers.getAll "cookie".toList).filterMap toStr).flatMap layer.splitParse).find?
    fun cookie => cookie.1 = layer.cookieName).map Prod.snd

/-- Build the request's session from its headers, touching nothing. -/
def begin_ (generated : κ) : Session κ U :=
  match (layer.cookieValue headers).bind layer.verify with
  | some id => Session.build id true
  | none    => Session.build generated false

end SessionLayer

/-! ### What the guard promises -/

/-- A text `scheme://authority/...` with this authority, but for an empty port. -/
def HasAuthority (claimed host : List Char) : Prop :=
  ∃ scheme port rest, claimed = scheme ++ "://".toList ++ host ++ port ++ rest ∧
    ¬ "://".toList <:+: scheme ∧ (port = [] ∨ port = [':']) ∧
      ∀ c ∈ rest.head?, c = '/' ∨ c = '?' ∨ c = '#'

/-- The request carried a token, in its header or in a field of its query. -/
def CarriesToken (csrf : CsrfConfig) (parts : RequestParts) (token : List Char) : Prop :=
  (∃ value ∈ parts.headers.getAll csrf.header, toStr value = some token) ∨
    ∃ query, parts.query = some query ∧ (csrf.field, token) ∈ formUrlencodedPairs query

/-- An `Origin` or `Referer` of the request names the host that the request is sent to. -/
def SameSite (parts : RequestParts) : Prop :=
  ∃ host claimed, parts.host = some host ∧
    (∃ value ∈ parts.headers.getAll "origin".toList ++ parts.headers.getAll "referer".toList,
      toStr value = some claimed) ∧ HasAuthority claimed host

section

variable {κ U Id User : Type} [DecidableEq κ] [DecidableEq U]

/-- The token of the session was carried, and the request comes from the site. -/
def Carried (app : Installed κ U Id User) (csrf : CsrfConfig) (parts : RequestParts)
    (s : RequestState κ U) (now : ℕ) : Prop :=
  (∃ record entries token, s.found app.config now = some record ∧ record.data = .object entries ∧
    (entries.find? fun entry => entry.1 = csrf.sessionKey) =
      some (csrf.sessionKey, .string token) ∧ CarriesToken csrf parts token) ∧
  (csrf.checkOrigin = true → SameSite parts)

/-- The request acts by its session: as its principal, or as the current user. -/
def ActsBySession (app : Installed κ U Id User) (now : ℕ) (generated : κ) (parts : RequestParts)
    (s : RequestState κ U) : Prop :=
  (∃ who s', Yields (principal app now generated none parts.headers) s who s' ∧
    who.kind = .session) ∨
  ∃ user s', Yields (currentUser app now generated) s user s'

/-- The session of a request can speak for it: nothing else authenticates the request and the
session is somebody's, or the session may act for an account. -/
def Speaks (app : Installed κ U Id User) (parts : RequestParts) (s : RequestState κ U) (now : ℕ) :
    Prop :=
  (resolveBearer app.auth parts.headers = none ∧ ∃ subject, s.subject app.config now = some subject) ∨
    ∃ record user, s.found app.config now = some record ∧ Recognises app record user

/-- A request that the guard lets pass, that may change something and that acts by its session has
carried the session's token, and comes from the site. -/
def Guarded (app : Installed κ U Id User) (csrf : CsrfConfig) (now : ℕ) (generated : κ)
    (parts : RequestParts) (s : RequestState κ U) : Prop :=
  ∀ s', Yields (csrf.check app now generated parts) s () s' → parts.method.isSafe = false →
    ActsBySession app now generated parts s' → Carried app csrf parts s now

end

/-! ### What the guard reads of the headers -/

lemma splitScheme_eq_some {text before after : List Char}
    (h : splitScheme text = some (before, after)) :
    text = before ++ "://".toList ++ after ∧ ¬ "://".toList <:+: before := by
  induction text generalizing before after with
  | nil => cases h
  | cons c rest ih =>
    rw [splitScheme] at h
    split_ifs at h with hbegins
    · cases h
      obtain ⟨after, hafter⟩ := List.isPrefixOf_iff_prefix.mp hbegins
      rw [← hafter] at hbegins ⊢
      have hrest : rest = ['/', '/'] ++ after := (List.cons.inj hafter).2.symm
      rw [hrest]
      exact ⟨rfl, by simp [List.infix_nil]⟩
    · obtain ⟨⟨before', after'⟩, hparts, heq⟩ := Option.map_eq_some_iff.mp h
      cases heq
      obtain ⟨hrest, hnot⟩ := ih hparts
      refine ⟨by rw [hrest]; rfl, fun hinfix => ?_⟩
      rcases List.infix_cons_iff.mp hinfix with hpre | hinfix
      · apply hbegins
        rw [hrest, List.isPrefixOf_iff_prefix]
        have hle : c :: before' <+: c :: (before' ++ "://".toList ++ after') :=
          ⟨"://".toList ++ after', by simp⟩
        exact hpre.trans hle
      · exact hnot hinfix

/-- The authority that the guard reads is the one that the text has. -/
lemma hasAuthority_of_claimedAuthority {claimed host : List Char}
    (h : claimedAuthority claimed = some host) : HasAuthority claimed host := by
  obtain ⟨⟨scheme, rest⟩, hsplit, hhost⟩ := Option.bind_eq_some_iff.mp h
  obtain ⟨rfl, hscheme⟩ := splitScheme_eq_some hsplit
  have hpiece : ∀ piece : List Char, piece.takeWhile (· ≠ '/') = host →
      ∃ path, piece = host ++ path ∧ ∀ c ∈ path.head?, c = '/' := by
    rintro piece rfl
    refine ⟨piece.dropWhile (· ≠ '/'), (List.takeWhile_append_dropWhile).symm, fun c hc => ?_⟩
    have hnot := List.head?_dropWhile_not (· ≠ '/') piece
    rw [Option.mem_def.mp hc] at hnot
    simpa using hnot
  cases hsecond : splitScheme rest with
  | none =>
    simp only [hsecond, Option.map_none, Option.getD_none, Option.some.injEq] at hhost
    obtain ⟨path, rfl, hpath⟩ := hpiece rest hhost
    exact ⟨scheme, [], path, by simp, hscheme, .inl rfl, fun c hc => .inl (hpath c hc)⟩
  | some parts =>
    obtain ⟨piece, after⟩ := parts
    simp only [hsecond, Option.map_some, Option.getD_some, Option.some.injEq] at hhost
    obtain ⟨rfl, -⟩ := splitScheme_eq_some hsecond
    obtain ⟨path, rfl, hpath⟩ := hpiece piece hhost
    cases path with
    | nil =>
      -- the second `://` begins with what stands where the port would
      exact ⟨scheme, [':'], ['/', '/'] ++ after, by simp, hscheme, .inr rfl, by simp⟩
    | cons c path =>
      refine ⟨scheme, [], c :: path ++ "://".toList ++ after, by simp, hscheme, .inl rfl, ?_⟩
      intro d hd
      exact .inl (hpath d (by simpa using hd))

lemma sameSite_of_originAgrees {parts : RequestParts} (h : originAgrees parts = true) :
    SameSite parts := by
  rw [originAgrees] at h
  split at h
  · next host claimed hhost hclaimed =>
    obtain ⟨value, hvalue, htext⟩ := Option.bind_eq_some_iff.mp hclaimed
    refine ⟨host, claimed, hhost, ⟨value, ?_, htext⟩,
      hasAuthority_of_claimedAuthority (of_decide_eq_true h)⟩
    rcases Option.or_eq_some_iff.mp hvalue with hvalue | ⟨-, hvalue⟩
    · exact List.mem_append_left _ (HeaderMap.mem_getAll_of_get hvalue)
    · exact List.mem_append_right _ (HeaderMap.mem_getAll_of_get hvalue)
  · cases h

lemma carriesToken_of_presented {csrf : CsrfConfig} {parts : RequestParts} {token : List Char}
    (h : csrf.presented parts = some token) : CarriesToken csrf parts token := by
  rw [CsrfConfig.presented] at h
  split at h
  · next value hvalue =>
    cases h
    obtain ⟨bytes, hbytes, htext⟩ := Option.bind_eq_some_iff.mp hvalue
    exact .inl ⟨bytes, HeaderMap.mem_getAll_of_get hbytes, htext⟩
  · obtain ⟨query, hquery, hpair⟩ := Option.bind_eq_some_iff.mp h
    obtain ⟨⟨key, value⟩, hfind, heq⟩ := Option.bind_eq_some_iff.mp hpair
    cases heq
    have hkey : key = csrf.field := by simpa using List.find?_some hfind
    exact .inr ⟨query, hquery, hkey ▸ List.mem_of_find?_eq_some hfind⟩

/-! ### What the guard and the extractors find -/

section

variable {κ U Id User : Type} [DecidableEq κ] [DecidableEq U] {app : Installed κ U Id User}
  {csrf : CsrfConfig} {now : ℕ} {generated : κ} {parts : RequestParts} {s s' : RequestState κ U}
  {record : SessionRecord κ U} {session : Session κ U}

omit [DecidableEq κ] [DecidableEq U] in
/-- A session that has something to find comes from a cookie. -/
lemma containsKey_of_found {layer : Option (SessionLayer κ)} {kv : SessionKv κ U}
    {headers : HeaderMap} {config : SessionConfig}
    (h : (RequestState.mk kv (layer.map fun layer => layer.begin_ headers generated)).found
      config now = some record) : headers.containsKey "cookie".toList = true := by
  obtain ⟨session, hsession, hfound⟩ := Option.bind_eq_some_iff.mp h
  obtain ⟨layer, -, rfl⟩ := Option.map_eq_some_iff.mp hsession
  cases hid : (layer.cookieValue headers).bind layer.verify with
  | none => simp [SessionLayer.begin_, hid, Session.build] at hfound
  | some id =>
    obtain ⟨value, hvalue, -⟩ := Option.bind_eq_some_iff.mp hid
    obtain ⟨cookie, hfind, -⟩ := Option.map_eq_some_iff.mp hvalue
    obtain ⟨text, htext, -⟩ := List.mem_flatMap.mp (List.mem_of_find?_eq_some hfind)
    obtain ⟨bytes, hbytes, -⟩ := List.mem_filterMap.mp htext
    exact HeaderMap.containsKey_of_mem hbytes

omit [DecidableEq κ] [DecidableEq U] in
/-- A bearer credential is not a session. -/
lemma kind_ne_of_resolveBearer {state : Option (BearerState U)} {headers : HeaderMap}
    {who : Principal U} (h : resolveBearer state headers = some who) : who.kind ≠ .session := by
  obtain ⟨state, -, h⟩ := Option.bind_eq_some_iff.mp h
  obtain ⟨presented, -, h⟩ := Option.bind_eq_some_iff.mp h
  rw [BearerState.principalOf] at h
  split_ifs at h
  · obtain ⟨authenticate, -, h⟩ := Option.bind_eq_some_iff.mp h
    split at h
    · cases h
      exact PrincipalKind.noConfusion
    · cases h
  · obtain ⟨verify, -, h⟩ := Option.bind_eq_some_iff.mp h
    split at h
    · cases h
      exact PrincipalKind.noConfusion
    · cases h

lemma speaks_of_actsBySession (h : ActsBySession app now generated parts s) :
    Speaks app parts s now := by
  rcases h with ⟨who, s', hwho, hkind⟩ | ⟨user, s', huser⟩
  · rw [principal] at hwho
    cases hbearer : resolveBearer app.auth parts.headers with
    | some bearer =>
      rw [hbearer] at hwho
      obtain ⟨rfl, -⟩ := yields_pure.1 hwho
      exact absurd hkind (kind_ne_of_resolveBearer hbearer)
    | none =>
      rw [hbearer] at hwho
      refine .inl ⟨hbearer, ?_⟩
      cases hsubject : s.subject app.config now with
      | some subject => exact ⟨subject, rfl⟩
      | none =>
        rw [yields_principal_of_session hwho, hsubject] at hkind
        cases hkind
  · obtain ⟨record, hrecord⟩ := recognises_of_yields_resolveUser (yields_currentUser.1 huser)
    exact .inr ⟨record, user, hrecord⟩

lemma actsBySession_of_speaks (h : Speaks app parts s now) :
    ActsBySession app now generated parts s := by
  rcases h with ⟨hbearer, subject, hsubject⟩ | ⟨record, user, hfound, hrecognises⟩
  · obtain ⟨s', hyields⟩ := exists_yields_sessionPrincipal generated hsubject
    refine .inl ⟨.ofSession subject, s', ?_, rfl⟩
    rw [principal, hbearer]
    exact hyields
  · obtain ⟨s', hyields⟩ :=
      exists_yields_resolveUser generated hfound hrecognises
    exact .inr ⟨user, s', yields_currentUser.2 hyields⟩

lemma found_of_yields_load {session' : Session κ U} (hsession : s.session = some session)
    (h : Yields (load app now generated session) s session' s')
    (hfound : s'.found app.config now = some record) (huser : record.userId ≠ none) :
    s.found app.config now = some record := by
  obtain ⟨hsession', record', hrecord, hfound'⟩ := loaded_of_yields_load hsession h
  rw [found_of_loaded hsession' hrecord, Option.some.injEq] at hfound
  subst hfound
  exact hfound'.resolve_right fun hlost => huser hlost.2

/-- The session speaks for the request before it is loaded as well as after. -/
lemma speaks_of_yields_load {session' : Session κ U} (hsession : s.session = some session)
    (h : Yields (load app now generated session) s session' s') (hspeaks : Speaks app parts s' now) :
    Speaks app parts s now := by
  rcases hspeaks with ⟨hbearer, subject, hsubject⟩ | ⟨record, user, hfound, hrecognises⟩
  · rw [(subject_of_yields_load hsession h).2] at hsubject
    exact .inl ⟨hbearer, subject, hsubject⟩
  · refine .inr ⟨record, user, found_of_yields_load hsession h hfound ?_, hrecognises⟩
    obtain ⟨_, _, _, huser, _⟩ := hrecognises.account
    rw [huser]
    exact Option.some_ne_none _

omit [DecidableEq κ] [DecidableEq U] in
lemma exists_found_of_speaks (h : Speaks app parts s now) :
    ∃ record, s.found app.config now = some record ∧ record.userId ≠ none := by
  rcases h with ⟨-, subject, hsubject⟩ | ⟨record, user, hfound, hrecognises⟩
  · obtain ⟨record, hfound, huser⟩ := Option.bind_eq_some_iff.mp hsubject
    exact ⟨record, hfound, by rw [huser]; exact Option.some_ne_none _⟩
  · obtain ⟨_, _, _, huser, _⟩ := hrecognises.account
    exact ⟨record, hfound, by rw [huser]; exact Option.some_ne_none _⟩

omit [DecidableEq κ] [DecidableEq U] in
lemma of_getString {describe : Json → String} {key text : List Char}
    (h : session.getString describe key = .ok (some text)) :
    ∃ record entries, session.record = some record ∧ record.data = .object entries ∧
      (entries.find? fun entry => entry.1 = key) = some (key, .string text) := by
  rw [Session.getString] at h
  split at h
  · cases h
  · next record hrecord =>
    split at h
    · next entries hentries =>
      refine ⟨record, entries, hrecord, hentries, ?_⟩
      split at h
      · cases h
      · cases h
      · next found text' hfind =>
        cases h
        have hkey : found = key := by simpa using List.find?_some hfind
        rw [hfind, hkey]
      · cases h
    · cases h

lemma of_compare {expected : Option (List Char)} (h : csrf.compare parts expected = .ok ()) :
    ∃ token, expected = some token ∧ CarriesToken csrf parts token := by
  cases expected with
  | none => cases h
  | some expected =>
    rw [CsrfConfig.compare] at h
    split at h
    · cases h
    · next presented hpresented =>
      split_ifs at h with hequal
      exact ⟨expected, rfl, carriesToken_of_presented (hequal ▸ hpresented)⟩

/-- What the check of the token has found out when it passes. -/
lemma of_yields_checkToken (hsession : s.session = some session)
    (h : Yields (csrf.checkToken app now generated parts) s () s') :
    ∃ session' record entries token, Yields (load app now generated session) s session' s' ∧
      session'.record = some record ∧ record.data = .object entries ∧
      (entries.find? fun entry => entry.1 = csrf.sessionKey) =
        some (csrf.sessionKey, .string token) ∧ CarriesToken csrf parts token := by
  rw [CsrfConfig.checkToken, yields_get_bind, hsession] at h
  obtain ⟨session', s₁, hload, h⟩ := yields_bind.1 h
  obtain ⟨expected, hexpected, h⟩ := yields_settle_bind.1 h
  obtain ⟨hcompare, rfl⟩ := yields_settle.1 h
  obtain ⟨token, rfl, hcarries⟩ := of_compare hcompare
  have hget : session'.getString app.describe csrf.sessionKey = .ok (some token) := by
    cases hresult : session'.getString app.describe csrf.sessionKey with
    | error error => simp [hresult, Except.mapError] at hexpected
    | ok found => simpa [hresult, Except.mapError] using hexpected
  obtain ⟨record, entries, hrecord, hdata, hfind⟩ := of_getString hget
  exact ⟨session', record, entries, token, hload, hrecord, hdata, hfind, hcarries⟩

/-- A request that passes the check and acts by its session has carried the token. -/
lemma carried_of_yields
    (h : Yields (do settle (csrf.checkSite parts); csrf.checkToken app now generated parts) s () s')
    (hspeaks : Speaks app parts s' now) : Carried app csrf parts s now := by
  obtain ⟨_, hsite, h⟩ := yields_settle_bind.1 h
  have hsame : csrf.checkOrigin = true → SameSite parts := by
    intro horigin
    rw [CsrfConfig.checkSite, horigin, Bool.true_and] at hsite
    split_ifs at hsite with hagrees
    exact sameSite_of_originAgrees (by simpa using hagrees)
  cases hsession : s.session with
  | none =>
    rw [CsrfConfig.checkToken, yields_get_bind, hsession] at h
    obtain ⟨-, rfl⟩ := yields_pure.1 h
    obtain ⟨record, hfound, -⟩ := exists_found_of_speaks hspeaks
    simp [RequestState.found, hsession] at hfound
  | some session =>
    obtain ⟨session', record, entries, token, hload, hrecord, hdata, hfind, hcarries⟩ :=
      of_yields_checkToken hsession h
    obtain ⟨record', hfound, -⟩ :=
      exists_found_of_speaks (speaks_of_yields_load hsession hload hspeaks)
    obtain ⟨-, record'', hrecord', hfound' | ⟨hlost, -⟩⟩ := loaded_of_yields_load hsession hload
    · rw [hrecord', Option.some.injEq] at hrecord
      subst hrecord
      exact ⟨⟨record'', entries, token, hfound', hdata, hfind, hcarries⟩, hsame⟩
    · rw [hlost] at hfound
      cases hfound

end

/-! ### When cookie authentication is guarded -/

section

variable {κ U Id User : Type} [DecidableEq κ] [DecidableEq U]

/-- The guard and the extractors agree about a request exactly if, as soon as it has an
`Authorization` header at all and its session still speaks for it, it has carried the token and
comes from the site. -/
theorem guarded_iff (app : Installed κ U Id User) (layer : Option (SessionLayer κ))
    (csrf : CsrfConfig) (kv : SessionKv κ U) (now : ℕ) (generated : κ) (parts : RequestParts) :
    Guarded app csrf now generated parts
        ⟨kv, layer.map fun layer => layer.begin_ parts.headers generated⟩ ↔
      (parts.method.isSafe = false → parts.headers.containsKey "authorization".toList = true →
        Speaks app parts ⟨kv, layer.map fun layer => layer.begin_ parts.headers generated⟩ now →
          Carried app csrf parts
            ⟨kv, layer.map fun layer => layer.begin_ parts.headers generated⟩ now) := by
  constructor
  · intro h hunsafe hheader hspeaks
    refine h _ ?_ hunsafe (actsBySession_of_speaks hspeaks)
    have happlies : CsrfConfig.applies parts = false := by
      rw [CsrfConfig.applies, hheader, Bool.not_true, Bool.and_false, Bool.and_false]
    rw [CsrfConfig.check, happlies]
    exact yields_pure.mpr ⟨rfl, rfl⟩
  · intro h s' hcheck hunsafe hacts
    have hspeaks' := speaks_of_actsBySession hacts
    rw [CsrfConfig.check] at hcheck
    by_cases happlies : CsrfConfig.applies parts = true
    · rw [happlies, if_neg (by decide)] at hcheck
      exact carried_of_yields hcheck hspeaks'
    · rw [Bool.not_eq_true] at happlies
      rw [happlies, if_pos (by decide)] at hcheck
      obtain ⟨-, rfl⟩ := yields_pure.mp hcheck
      refine h hunsafe ?_ hspeaks'
      obtain ⟨record, hfound, -⟩ := exists_found_of_speaks hspeaks'
      by_contra hheader
      rw [Bool.not_eq_true] at hheader
      rw [CsrfConfig.applies, containsKey_of_found hfound, hunsafe, hheader] at happlies
      cases happlies

end

/-- A form that is posted with the cookie of somebody's session and an `Authorization` header of
another scheme, without a token and from nowhere. -/
theorem not_guarded : ∃ (app : Installed ℕ ℕ ℕ ℕ) (layer : SessionLayer ℕ) (csrf : CsrfConfig)
    (kv : SessionKv ℕ ℕ) (parts : RequestParts),
    ¬ Guarded app csrf 0 0 parts ⟨kv, some (layer.begin_ parts.headers 0)⟩ := by
  let record : SessionRecord ℕ ℕ := ⟨7, some 1, [], .object [], 0, 0⟩
  let app : Installed ℕ ℕ ℕ ℕ :=
    { indexKey := fun _ => .ok ()
      structures := false
      config := ⟨1000, 1000, 1000⟩
      decodeSubject := .ok
      users := some fun id => .ok (some id)
      authHash := fun _ => []
      isActive := fun _ => true
      auth := none
      describe := fun _ => "" }
  let layer : SessionLayer ℕ := ⟨[], fun text => [([], text)], fun _ => some 7⟩
  let kv : SessionKv ℕ ℕ := ⟨Lapsing.empty.set 7 record none, Lapsing.empty⟩
  let parts : RequestParts :=
    { method := .post
      headers := [("cookie".toList, [120]), ("authorization".toList, [66, 97, 115, 105, 99, 32, 120])]
      authority := none
      query := none }
  refine ⟨app, layer, {}, kv, parts, fun h => ?_⟩
  have hacts : ActsBySession app 0 0 parts ⟨kv, some (layer.begin_ parts.headers 0)⟩ :=
    .inl ⟨.ofSession 1, ⟨kv, some ⟨7, some record, true, false, false⟩⟩, rfl, rfl⟩
  obtain ⟨⟨_, _, token, _, _, _, ⟨value, hvalue, _⟩ | ⟨query, hquery, _⟩⟩, _⟩ := h _ rfl rfl hacts
  · cases hvalue
  · cases hquery

end Moso.Auth
