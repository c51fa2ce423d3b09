import Moso.Auth.Backend

/-!
# Whose password was checked

When every sign-in is to the account whose password was checked, whatever rows the database
returns first.
-/

namespace Moso.Auth

variable {K : Type} {backend : DatabaseBackend K} {services : BackendServices K}
  {credentials : PasswordCredentials} {accounts : Accounts K} {found : Account K → Bool}
  {row user : Account K} {signIn signIn' : SignIn K} {outcome : VerifyOutcome}

/-- The database returns this row when it finds it. -/
def FetchOptional.preferring [DecidableEq K] (row : Account K) : FetchOptional (Account K) where
  pick rows := .ok (if row ∈ rows then some row else rows.head?)
  mem_of_pick rows row' h := by
    have h := Except.ok.inj h
    split at h
    · next hmem => exact Option.some.inj h ▸ hmem
    · exact List.mem_of_head? h

namespace DatabaseBackend

/-- The predicate looks at nothing but the identity. -/
lemma found_congr {identity : String}
    (hfound : backend.identityMatches services identity = .ok found) {row row' : Account K}
    (h : row.identity = row'.identity) : found row = found row' := by
  rw [identityMatches] at hfound
  split at hfound
  · obtain rfl := Except.ok.inj hfound
    simp only [h]
  · cases hfound

/-! ### What the updates write -/

/-- The keys of the rows of an identity. -/
def keys (found : Account K → Bool) (rows : List (Account K)) : List K :=
  (rows.filter found).map Account.id

lemma mem_keys {rows : List (Account K)} {id : K} :
    id ∈ keys found rows ↔ ∃ row ∈ rows, found row = true ∧ row.id = id := by
  rw [keys, List.mem_map]
  constructor
  · rintro ⟨row, hrow, rfl⟩
    exact ⟨row, (List.mem_filter.mp hrow).1, (List.mem_filter.mp hrow).2, rfl⟩
  · rintro ⟨row, hrow, hfound, rfl⟩
    exact ⟨row, List.mem_filter.mpr ⟨hrow, hfound⟩, rfl⟩

/-- An update that leaves the key and the identity leaves the keys of the identity. -/
lemma keys_update {set : Account K → Account K} (hid : ∀ row, (set row).id = row.id)
    (hfound : ∀ row, found (set row) = found row) :
    keys found (signIn.update found set).rows = keys found signIn.rows := by
  rw [SignIn.update, keys, keys, List.filter_map, List.map_map]
  have hpred : (found ∘ fun row => if found row = true then set row else row) = found := by
    funext row
    rw [Function.comp_apply]
    split
    · exact hfound row
    · rfl
  rw [hpred]
  refine List.map_congr_left fun row _ => ?_
  rw [Function.comp_apply]
  split
  · exact hid row
  · rfl

lemma upgradeHash_user : (upgradeHash services found signIn).user = signIn.user := by
  rw [upgradeHash]
  split <;> rfl

lemma upgradeHash_checked : (upgradeHash services found signIn).checked = signIn.checked := by
  rw [upgradeHash]
  split <;> rfl

/-- An upgrade writes the rows of the identity, if it succeeds. -/
lemma mem_upgradeHash_written {id : K} : id ∈ (upgradeHash services found signIn).written ↔
    id ∈ signIn.written ∨
      ((services.newHash.isOk = true ∧ services.updateHash.isOk = true) ∧
        id ∈ keys found signIn.rows) := by
  rw [upgradeHash]
  cases hnew : services.newHash with
  | error error =>
    exact (or_iff_left fun h => by cases h.1.1).symm
  | ok upgraded =>
    cases hupdate : services.updateHash with
    | error error => exact (or_iff_left fun h => by cases h.1.2).symm
    | ok _ =>
      simp only [SignIn.update, List.mem_append]
      exact or_congr_right (and_iff_right ⟨rfl, rfl⟩).symm

/-! ### What the steps do -/

/-- The sign-in after the period of a code is written back. -/
def consumed (found : Account K → Bool) (signIn : SignIn K) (period : ℕ) : SignIn K :=
  signIn.update found fun row => { row with lastPeriod := asColumn period }

lemma completes_of_secondStep {subject : String} {factor : String × Option ℤ}
    (hsubject : services.encodeSubject user.id = .ok subject)
    (h : secondStep services credentials subject factor.1 factor.2 found signIn =
      .ok (some signIn')) :
    completes services credentials factor user ∧ ∃ period, signIn' = consumed found signIn period := by
  cases htoken : credentials.challenge with
  | none =>
    simp only [secondStep, htoken] at h
    cases h
  | some token =>
    cases hcode : credentials.totp with
    | none =>
      simp only [secondStep, htoken, hcode] at h
      cases h
    | some code =>
      simp only [secondStep, htoken, hcode] at h
      obtain ⟨claimed, hclaimed, h⟩ := Fallible.bind_eq_ok.mp h
      cases claimed with
      | none => cases h
      | some claimed =>
        simp only at h
        split at h
        next heq =>
          rw [heq] at hclaimed
          obtain ⟨secret, hsecret, h⟩ := Fallible.bind_eq_ok.mp h
          obtain ⟨period, hperiod, h⟩ := Fallible.bind_eq_ok.mp h
          cases period with
          | none => cases h
          | some period =>
            obtain ⟨_, hupdate, h⟩ := Fallible.bind_eq_ok.mp h
            obtain rfl := Option.some.inj (Except.ok.inj h)
            exact ⟨⟨token, code, _, secret, period, htoken, hcode, hsubject, hclaimed, hsecret,
              hperiod, hupdate⟩, period, rfl⟩
        next => cases h

lemma secondStep_of_completes {factor : String × Option ℤ} (signIn : SignIn K)
    (found : Account K → Bool) (h : completes services credentials factor user) :
    (∃ code, credentials.totp = some code) ∧
      ∃ subject period, services.encodeSubject user.id = .ok subject ∧
        secondStep services credentials subject factor.1 factor.2 found signIn =
          .ok (some (consumed found signIn period)) := by
  obtain ⟨token, code, subject, secret, period, htoken, hcode, hsubject, hredeem, hsecret, hperiod,
    hupdate⟩ := h
  refine ⟨⟨code, hcode⟩, subject, period, hsubject, ?_⟩
  simp only [secondStep, htoken, hcode, hredeem, hsecret, hperiod, hupdate, bind, Except.bind,
    if_true]
  rfl

/-- The sign-in with its hash upgraded, where the hash has aged. -/
def upgraded (backend : DatabaseBackend K) (services : BackendServices K)
    (found : Account K → Bool) (outcome : VerifyOutcome) (signIn : SignIn K) : SignIn K :=
  if backend.rehashOnLogin ∧ outcome = .okNeedsRehash then upgradeHash services found signIn
  else signIn

lemma upgraded_user : (upgraded backend services found outcome signIn).user = signIn.user := by
  rw [upgraded]
  split
  · exact upgradeHash_user
  · rfl

lemma upgraded_checked :
    (upgraded backend services found outcome signIn).checked = signIn.checked := by
  rw [upgraded]
  split
  · exact upgradeHash_checked
  · rfl

lemma mem_upgraded_written {id : K}
    (hverify : services.verify row.passwordHash credentials.password = .ok outcome) :
    id ∈ (upgraded backend services found outcome signIn).written ↔
      id ∈ signIn.written ∨
        (backend.upgrades services credentials row ∧ id ∈ keys found signIn.rows) := by
  rw [upgraded, upgrades, hverify]
  split
  next h =>
    rw [mem_upgradeHash_written]
    refine or_congr_right (and_congr_left' ?_)
    rw [h.2]
    exact ⟨fun hok => ⟨h.1, rfl, hok⟩, fun hok => hok.2.2⟩
  next h =>
    refine (or_iff_left ?_).symm
    rintro ⟨⟨hrehash, houtcome, -⟩, -⟩
    exact h ⟨hrehash, Except.ok.inj houtcome⟩

/-- The password was checked against one row, and the account is another's, or the same. -/
lemma complete_of_none (hfactor : backend.factorOf row = none) :
    backend.complete services credentials found row outcome user accounts.rows =
      .ok (some (upgraded backend services found outcome ⟨user, none, accounts.rows, []⟩)) := by
  rw [complete, hfactor]
  rfl

lemma completes_of_complete {factor : String × Option ℤ}
    (hfactor : backend.factorOf row = some factor)
    (h : backend.complete services credentials found row outcome user accounts.rows =
      .ok (some signIn)) :
    completes services credentials factor user ∧ ∃ period, signIn =
      upgraded backend services found outcome
        (consumed found ⟨user, some factor, accounts.rows, []⟩ period) := by
  simp only [complete, hfactor] at h
  obtain ⟨subject, hsubject, h⟩ := Fallible.bind_eq_ok.mp h
  cases hcode : credentials.totp with
  | none =>
    simp only [hcode] at h
    obtain ⟨challenge, -, h⟩ := Fallible.bind_eq_ok.mp h
    cases h
  | some code =>
    simp only [hcode] at h
    obtain ⟨done, hdone, h⟩ := Fallible.bind_eq_ok.mp h
    obtain ⟨stepped, rfl, rfl⟩ := Option.map_eq_some_iff.mp (Except.ok.inj h)
    obtain ⟨hcompletes, period, rfl⟩ := completes_of_secondStep hsubject hdone
    exact ⟨hcompletes, period, rfl⟩

lemma complete_of_completes {factor : String × Option ℤ}
    (hfactor : backend.factorOf row = some factor)
    (h : completes services credentials factor user) :
    ∃ period, backend.complete services credentials found row outcome user accounts.rows =
      .ok (some (upgraded backend services found outcome
        (consumed found ⟨user, some factor, accounts.rows, []⟩ period))) := by
  obtain ⟨⟨code, hcode⟩, subject, period, hsubject, hstep⟩ :=
    secondStep_of_completes ⟨user, some factor, accounts.rows, []⟩ found h
  refine ⟨period, ?_⟩
  simp only [complete, hfactor, hsubject, hcode, hstep, bind, Except.bind]
  rfl

/-- A sign-in is of a row whose password was checked, and of a row that may sign in. -/
lemma authenticate_eq_ok {passwordRow userRow : FetchOptional (Account K)}
    (h : backend.authenticate services credentials passwordRow userRow accounts =
      .ok (some signIn)) :
    ∃ found row outcome user, backend.passwordColumn = true ∧
      backend.identityMatches services credentials.identity = .ok found ∧
      (row ∈ accounts.rows ∧ found row = true) ∧ (user ∈ accounts.rows ∧ found user = true) ∧
      services.verify row.passwordHash credentials.password = .ok outcome ∧
      outcome.isValid = true ∧ backend.usable user ∧
      backend.complete services credentials found row outcome user accounts.rows =
        .ok (some signIn) := by
  rw [authenticate] at h
  split at h
  next hcolumn =>
    obtain ⟨found, hfound, h⟩ := Fallible.bind_eq_ok.mp h
    obtain ⟨picked, hpicked, h⟩ := Fallible.bind_eq_ok.mp h
    cases picked with
    | none =>
      obtain ⟨_, -, h⟩ := Fallible.bind_eq_ok.mp h
      cases h
    | some row =>
      obtain ⟨outcome, hverify, h⟩ := Fallible.bind_eq_ok.mp h
      split at h
      next hvalid =>
        obtain ⟨loaded, hloaded, h⟩ := Fallible.bind_eq_ok.mp h
        cases loaded with
        | none => cases h
        | some user =>
          simp only at h
          split at h
          next hactive =>
            have hrow := List.mem_filter.mp (passwordRow.mem_of_pick _ _ hpicked)
            obtain ⟨huser, hload⟩ := List.mem_filter.mp (userRow.mem_of_pick _ _ hloaded)
            obtain ⟨hmatch, hcolumn'⟩ := Bool.and_eq_true_iff.mp hload
            refine ⟨found, row, outcome, user, hcolumn, hfound, hrow, ⟨huser, hmatch⟩, hverify,
              hvalid, ⟨fun hactive' => ?_, hactive⟩, h⟩
            rw [hactive'] at hcolumn'
            exact hcolumn'
          next => cases h
      next => cases h
  next => cases h

/-- Every row whose password is right may be checked first, and every one that may sign in may be
loaded. -/
lemma authenticate_of_preferring [DecidableEq K] (hcolumn : backend.passwordColumn = true)
    (hfound : backend.identityMatches services credentials.identity = .ok found)
    (hrow : row ∈ accounts.rows) (hrow' : found row = true) (huser : user ∈ accounts.rows)
    (huser' : found user = true)
    (hverify : services.verify row.passwordHash credentials.password = .ok outcome)
    (hvalid : outcome.isValid = true) (husable : backend.usable user) :
    backend.authenticate services credentials (.preferring row) (.preferring user) accounts =
      backend.complete services credentials found row outcome user accounts.rows := by
  have hload : (found user && (!backend.activeColumn || user.active)) = true := by
    rw [huser', Bool.true_and]
    cases hactive : backend.activeColumn with
    | false => rfl
    | true => exact husable.1 hactive
  have hmem : row ∈ accounts.rows.filter found := List.mem_filter.mpr ⟨hrow, hrow'⟩
  have hmem' : user ∈ accounts.rows.filter
      fun row => found row && (!backend.activeColumn || row.active) :=
    List.mem_filter.mpr ⟨huser, hload⟩
  simp only [authenticate, hcolumn, if_true, hfound, FetchOptional.preferring, if_pos hmem,
    hverify, hvalid, if_pos hmem', husable.2, bind, Except.bind]

/-- An account is its key. -/
lemma eq_of_id {other : Account K} (hother : other ∈ accounts.rows) (huser : user ∈ accounts.rows)
    (heq : other.id = user.id) : other = user :=
  List.inj_on_of_nodup_map accounts.ids_nodup hother huser heq

lemma keys_consumed (hfound : ∀ row row' : Account K, row.identity = row'.identity →
    found row = found row') (period : ℕ) :
    keys found (consumed found signIn period).rows = keys found signIn.rows :=
  keys_update (fun _ => rfl) fun _ => hfound _ _ rfl

/-- Whatever rows the database returns first, every sign-in is to the account whose password was
checked, exactly when the typed identity is unmistakable. -/
theorem authenticate_own_iff [DecidableEq K] : (∀ passwordRow userRow signIn,
    backend.authenticate services credentials passwordRow userRow accounts = .ok (some signIn) →
      backend.SignsInOwn services credentials signIn) ↔
    backend.Unmistakable services credentials accounts := by
  constructor
  · rintro h found hcolumn hfound row hrow user huser hrow' huser' ⟨outcome, hverify, hvalid⟩ husable
    have hcongr : ∀ row row' : Account K, row.identity = row'.identity → found row = found row' :=
      fun _ _ heq => found_congr hfound heq
    have hauthenticate := authenticate_of_preferring hcolumn hfound hrow hrow' huser huser' hverify
      hvalid husable
    refine ⟨fun factor hfactor hcompletes other hother hother' => ?_, fun hfactor => ?_⟩
    · obtain ⟨period, hcomplete⟩ := complete_of_completes hfactor hcompletes
      obtain ⟨-, -, hwritten⟩ := h _ _ _ (hauthenticate.trans hcomplete)
      rw [upgraded_user] at hwritten
      refine eq_of_id hother huser (hwritten other.id ((mem_upgraded_written hverify).mpr (.inl ?_)))
      exact List.mem_append_right _ (mem_keys.mpr ⟨other, hother, hother', rfl⟩)
    · obtain ⟨⟨hopens, -⟩, hchecked, hwritten⟩ :=
        h _ _ _ (hauthenticate.trans (complete_of_none hfactor))
      rw [upgraded_user] at hopens hchecked hwritten
      rw [upgraded_checked] at hchecked
      refine ⟨hopens, hchecked.symm, fun hupgrades other hother hother' => ?_⟩
      refine eq_of_id hother huser (hwritten other.id ((mem_upgraded_written hverify).mpr (.inr ?_)))
      exact ⟨hupgrades, mem_keys.mpr ⟨other, hother, hother', rfl⟩⟩
  · intro h passwordRow userRow signIn hsignIn
    obtain ⟨found, row, outcome, user, hcolumn, hfound, ⟨hrow, hrow'⟩, ⟨huser, huser'⟩, hverify,
      hvalid, husable, hcomplete⟩ := authenticate_eq_ok hsignIn
    have hopens : opens services credentials row := ⟨outcome, hverify, hvalid⟩
    obtain ⟨hsome, hnone⟩ := h found hcolumn hfound row hrow user huser hrow' huser' hopens husable
    cases hfactor : backend.factorOf row with
    | none =>
      obtain ⟨hopens', hfactor', hupgrades⟩ := hnone hfactor
      rw [complete_of_none hfactor] at hcomplete
      obtain rfl := Option.some.inj (Except.ok.inj hcomplete)
      rw [SignsInOwn, upgraded_user, upgraded_checked]
      refine ⟨⟨hopens', husable⟩, hfactor'.symm, fun id hid => ?_⟩
      rcases (mem_upgraded_written hverify).mp hid with hid | ⟨hupgrades', hid⟩
      · cases hid
      · obtain ⟨other, hother, hother', rfl⟩ := mem_keys.mp hid
        rw [hupgrades hupgrades' other hother hother']
    | some factor =>
      obtain ⟨hcompletes, period, rfl⟩ := completes_of_complete hfactor hcomplete
      have hone := hsome factor hfactor hcompletes
      obtain rfl := hone row hrow hrow'
      rw [SignsInOwn, upgraded_user, upgraded_checked]
      refine ⟨⟨hopens, husable⟩, hfactor.symm, fun id hid => ?_⟩
      have hid : id ∈ keys found accounts.rows := by
        rcases (mem_upgraded_written hverify).mp hid with hid | ⟨-, hid⟩
        · exact hid
        · rwa [keys_consumed fun _ _ heq => found_congr hfound heq] at hid
      obtain ⟨other, hother, hother', rfl⟩ := mem_keys.mp hid
      exact congrArg Account.id (hone other hother hother')

/-! ### Two accounts that differ in a letter's case -/

/-- The database returns the first row that it finds. -/
def inOrder : FetchOptional (Account ℕ) where
  pick rows := .ok rows.head?
  mem_of_pick _ _ h := List.mem_of_head? (Except.ok.inj h)

/-- A suspended account, and one that another person has registered. -/
def twins : Accounts ℕ where
  rows := [⟨1, "ada@example.com", "suspended", false, none, none⟩,
    ⟨2, "Ada@example.com", "other", true, none, none⟩]
  ids_nodup := by decide

/-- A hash is the password, and there is no second factor. -/
def plainServices : BackendServices ℕ where
  now := 0
  toLowercase identity := identity.map Char.toLower
  codeFor _ _ := .ok "000000"
  dummyVerify := .ok ()
  verify hash password := .ok (if hash = password then .ok else .invalid)
  encodeSubject id := .ok (toString id)
  issue _ := .ok "challenge"
  redeem _ := .ok none
  fromBase32 secret := .ok secret
  newHash := .ok "upgraded"
  updatePeriod := .ok ()
  updateHash := .ok ()

def plainBackend : DatabaseBackend ℕ where
  name := "User"
  identityColumn := true
  passwordColumn := true
  activeColumn := true
  rehashOnLogin := true
  secondFactor := false
  isActive row := row.active

/-- The password of the suspended account signs in to the other. -/
theorem authenticate_own_fails :
    ¬ ∀ signIn, plainBackend.authenticate plainServices
      ⟨"Ada@example.com", "suspended", none, none⟩ inOrder inOrder twins = .ok (some signIn) →
        plainBackend.SignsInOwn plainServices ⟨"Ada@example.com", "suspended", none, none⟩
          signIn := by
  intro h
  obtain ⟨⟨⟨outcome, hverify, hvalid⟩, -⟩, -⟩ :=
    h ⟨⟨2, "Ada@example.com", "other", true, none, none⟩, none, twins.rows, []⟩
      (by decide +kernel)
  have hinvalid : plainServices.verify "other" "suspended" = .ok .invalid := by decide
  obtain rfl := Except.ok.inj (hverify.symm.trans hinvalid)
  cases hvalid

end DatabaseBackend

end Moso.Auth
