import Moso.Auth.Lifecycle.Accounts

/-!
# Stale reset links

Which reset tokens are redeemable while an account is registered again, its password is reset or
changed, and its address is changed.
-/

namespace Moso.Auth

open Stateful

variable {Id U δ : Type}

/-- The flows so far: the tokens that were generated, those that somebody was given, and the reset
tokens that somebody had been given of an account when its credentials changed. -/
structure AccountsRun (U δ : Type) where
  kv : TokenKv U δ
  now : ℕ
  generated : List δ
  given : List (IssuedToken U δ)
  stale : List (TokenKey δ)

inductive AccountCall (Id δ : Type) where
  | register (identity : String)
  | requestPasswordReset (identity : String)
  | resetPassword (digest : δ)
  | changePassword (id : Id)
  | requestEmailChange (id : Id) (currentIdentity newIdentity : String)
  | confirmEmailChange (digest : δ)

/-- The token that a call is about. -/
def AccountCall.presents : AccountCall Id δ → Option (TokenKey δ)
  | .resetPassword digest      => some ⟨.resetPassword, digest⟩
  | .confirmEmailChange digest => some ⟨.changeEmail, digest⟩
  | _                          => none

namespace AccountsRun

def start : AccountsRun U δ where
  kv := TokenKv.empty
  now := 0
  generated := []
  given := []
  stale := []

variable [DecidableEq U] [DecidableEq δ] (accounts : AccountFlows Id U) (s : AccountsRun U δ)
  (services : AccountServices Id δ)

/-- The state after a call, but for what it returns. -/
def after (kv : TokenKv U δ) : AccountsRun U δ :=
  { s with
    kv := kv
    now := services.now
    generated := s.generated ++ (match services.generate with
      | .ok digest => [digest]
      | .error _   => []) }

/-- Somebody is given a token. -/
def give (token : Option (IssuedToken U δ)) : AccountsRun U δ :=
  { s with given := s.given ++ token.toList }

/-- The credentials of an account change. -/
def change (subject : U) : AccountsRun U δ :=
  { s with stale := s.stale ++ (s.given.filter fun token =>
      token.1.purpose = .resetPassword ∧ token.2.subject = subject).map Prod.fst }

/-- A call, with what it returns on record. -/
def call : AccountCall Id δ → AccountsRun U δ
  | .register identity =>
    match (accounts.register services identity).run s.kv with
    | (.ok registration, kv) => (s.after services kv).give registration.token
    | (.error _, kv)         => s.after services kv
  | .requestPasswordReset identity =>
    match (accounts.requestPasswordReset services identity).run s.kv with
    | (.ok token, kv) => (s.after services kv).give token
    | (.error _, kv)  => s.after services kv
  | .resetPassword digest =>
    match (accounts.resetPassword services digest).run s.kv with
    | (.ok (subject, _), kv) => (s.after services kv).change subject
    | (.error _, kv)         => s.after services kv
  | .changePassword id =>
    match accounts.changePassword services id, accounts.encodeSubject id with
    | .ok _, .ok subject => (s.after services s.kv).change subject
    | _, _               => s.after services s.kv
  | .requestEmailChange id currentIdentity newIdentity =>
    match (accounts.requestEmailChange services id currentIdentity newIdentity).run s.kv with
    | (.ok change, kv) => (s.after services kv).give (some change.confirmation)
    | (.error _, kv)   => s.after services kv
  | .confirmEmailChange digest =>
    match (accounts.confirmEmailChange services digest).run s.kv with
    | (.ok (subject, _), kv) => (s.after services kv).change subject
    | (.error _, kv)         => s.after services kv

/-- A call can be made: time goes on, a generated token is a new one, and a stored token that is
presented was given to somebody. -/
def Possible (call : AccountCall Id δ) : Prop :=
  s.now ≤ services.now ∧ (∀ digest ∈ s.generated, services.generate ≠ .ok digest) ∧
    ∀ key ∈ call.presents, (s.kv.claims key).isSome = true → key ∈ s.given.map Prod.fst

instance (call : AccountCall Id δ) : Decidable (s.Possible services call) :=
  inferInstanceAs (Decidable (_ ∧ _ ∧ ∀ key ∈ call.presents, _))

def step (s : AccountsRun U δ) (e : AccountServices Id δ × AccountCall Id δ) :
    Option (AccountsRun U δ) :=
  if s.Possible e.1 e.2 then some (s.call accounts e.1 e.2) else none

/-- A reset token of an account that somebody was given, and that can be redeemed. -/
def Outstanding (s : AccountsRun U δ) (t : ℕ) (subject : U) (key : TokenKey δ) : Prop :=
  ∃ claim, (key, claim) ∈ s.given ∧ key.purpose = .resetPassword ∧ claim.subject = subject ∧
    s.kv.claims.get t key = some claim ∧ t < claim.expiresAt

/-- At most one reset token of an account can be redeemed, and none that is older than the
credentials of its account. -/
structure FreshLinks (s : AccountsRun U δ) : Prop where
  one : ∀ subject key key', s.Outstanding s.now subject key → s.Outstanding s.now subject key' →
    key = key'
  stale : ∀ subject key, s.Outstanding s.now subject key → key ∉ s.stale

/-! ### The condition -/

/-- Registering finds the address taken, and mints a reset token for this account. -/
structure Registers (subject : U) : Prop where
  policy : services.policy = .ok ()
  hash : services.hash = .ok ()
  found : ∃ existing, services.findByIdentity = .ok (some existing) ∧
    accounts.encodeSubject existing = .ok subject
  generate : ∃ digest, services.generate = .ok digest
  setClaim : services.command .setClaim = .ok ()
  readIndex : services.command .readIndex = .ok ()
  pushIndex : services.command .pushIndex = .ok ()
  lasts : 0 < accounts.config.resetTtl

/-- A change of address is confirmed for this account. -/
structure Confirms (digest : δ) (subject : U) : Prop where
  get : services.command .getClaim = .ok ()
  delete : services.command .deleteClaim = .ok ()
  look : services.command .lookIndex = .ok ()
  retain : s.kv.index.get services.now ⟨.changeEmail, subject⟩ ≠ none →
    services.command .retainIndex = .ok ()
  claim : ∃ claim, s.kv.claims.get services.now ⟨.changeEmail, digest⟩ = some claim ∧
    claim.subject = subject ∧ services.now < claim.expiresAt
  moves : ∃ user, accounts.move services subject = .ok user

/-- When an account is registered again, or its password or address changes, no reset token of it
can be redeemed. -/
def Settled (s : AccountsRun U δ) : AccountServices Id δ × AccountCall Id δ → Prop
  | (services, .register _) => ∀ subject, Registers accounts services subject →
      ∀ key, ¬ s.Outstanding services.now subject key
  | (services, .changePassword id) => ∀ subject count, accounts.changePassword services id =
      .ok count → accounts.encodeSubject id = .ok subject →
      ∀ key, ¬ s.Outstanding services.now subject key
  | (services, .confirmEmailChange digest) => ∀ subject,
      Confirms accounts s services digest subject → ∀ key, ¬ s.Outstanding services.now subject key
  | _ => True

/-! ### What every run keeps -/

variable {accounts : AccountFlows Id U} {s s' : AccountsRun U δ}
  {services : AccountServices Id δ} {kv kv' : TokenKv U δ} {subject : U} {key : TokenKey δ}
  {claim : TokenClaim U}

/-- What is stored goes with what is on record. -/
structure Sound (accounts : AccountFlows Id U) (s : AccountsRun U δ) : Prop where
  links : s.FreshLinks
  stored : ∀ key, s.kv.claims key ≠ none → key.digest ∈ s.generated
  given : ∀ token ∈ s.given, token.1.digest ∈ s.generated
  stale : ∀ key ∈ s.stale, key.digest ∈ s.generated
  stamped : ∀ token ∈ s.given, token.1.purpose = .resetPassword → token.2.issuedAt ≤ s.now ∧
    token.2.expiresAt = expiryOf token.2.issuedAt accounts.config.resetTtl
  claimed : ∀ token ∈ s.given, token.1.purpose = .resetPassword → s.kv.claims token.1 = none ∨
    s.kv.claims token.1 = some (token.2, some (token.2.issuedAt + accounts.config.resetTtl))
  named : ∀ token ∈ s.given, token.1.purpose = .resetPassword → ∀ t, s.now ≤ t →
    s.kv.claims.get t token.1 = some token.2 → t < token.2.expiresAt →
    token.1 ∈ (s.kv.index.get t (indexFor token.1 token.2)).getD []

/-- What a flow keeps of the store: no claim comes back, and the index of reset tokens names those
that can be redeemed. -/
structure Kept (s : AccountsRun U δ) (services : AccountServices Id δ) (kv : TokenKv U δ) :
    Prop where
  fresh : ∀ key, kv.claims key ≠ none →
    key.digest ∈ s.generated ∨ services.generate = .ok key.digest
  shrinks : ∀ key, key.digest ∈ s.generated →
    kv.claims key = s.kv.claims key ∨ kv.claims key = none
  named : ∀ token ∈ s.given, token.1.purpose = .resetPassword → ∀ t, services.now ≤ t →
    kv.claims.get t token.1 = some token.2 → t < token.2.expiresAt →
    token.1 ∈ (kv.index.get t (indexFor token.1 token.2)).getD []

/-- No reset token in this index can be redeemed. -/
def Quiet (s : AccountsRun U δ) (services : AccountServices Id δ) (kv : TokenKv U δ)
    (index : IndexKey U) : Prop :=
  ∀ token ∈ s.given, token.1.purpose = .resetPassword → indexFor token.1 token.2 = index →
    ∀ t, services.now ≤ t → kv.claims.get t token.1 = some token.2 → ¬ t < token.2.expiresAt

namespace Kept

omit [DecidableEq U] in
lemma deleteClaim (h : Kept s services kv) (key : TokenKey δ) :
    Kept s services (kv.deleteClaim key) := by
  have hget : ∀ t key', (kv.deleteClaim key).claims.get t key' ≠ none →
      kv.claims.get t key' = (kv.deleteClaim key).claims.get t key' := by
    intro t key' hne
    by_cases hkey : key' = key
    · rw [hkey] at hne
      exact absurd Lapsing.get_delete_self hne
    · exact (Lapsing.get_delete_of_ne hkey).symm
  refine ⟨fun key' hne => ?_, fun key' hmade => ?_, fun token hgiven hreset t ht hlive => ?_⟩
  · by_cases hkey : key' = key
    · simp [TokenKv.deleteClaim, Lapsing.delete, hkey] at hne
    · exact h.fresh key' (by simpa [TokenKv.deleteClaim, Lapsing.delete, hkey] using hne)
  · by_cases hkey : key' = key
    · exact .inr (by simp [TokenKv.deleteClaim, Lapsing.delete, hkey])
    · simpa [TokenKv.deleteClaim, Lapsing.delete, hkey] using h.shrinks key' hmade
  · exact h.named token hgiven hreset t ht ((hget t _ (by simp [hlive])).trans hlive)

omit [DecidableEq U] in
/-- The claim of a new token is another one. -/
lemma setClaim (h : Kept s services kv) (hgiven : ∀ token ∈ s.given, token.1.digest ∈ s.generated)
    (hnew : key.digest ∉ s.generated) (hgenerate : services.generate = .ok key.digest) (end_ : ℕ) :
    Kept s services (kv.setClaim key claim end_) := by
  have hother : ∀ key' : TokenKey δ, key'.digest ∈ s.generated → key' ≠ key := by
    rintro key' hmade rfl
    exact hnew hmade
  refine ⟨fun key' hne => ?_, fun key' hmade => ?_, fun token htoken hreset t ht hlive => ?_⟩
  · by_cases hkey : key' = key
    · exact .inr (hkey ▸ hgenerate)
    · exact h.fresh key' (by simpa [TokenKv.setClaim, Lapsing.set, hkey] using hne)
  · simpa [TokenKv.setClaim, Lapsing.set, hother key' hmade] using h.shrinks key' hmade
  · have hne := hother token.1 (hgiven token htoken)
    exact h.named token htoken hreset t ht (by simpa [TokenKv.setClaim, hne] using hlive)

omit [DecidableEq δ] in
/-- An index is written that goes on to name the tokens that can be redeemed. -/
lemma setIndex (h : Kept s services kv) {index : IndexKey U} {held : List (TokenKey δ)} {end_ : ℕ}
    (hheld : ∀ token ∈ s.given, token.1.purpose = .resetPassword →
      indexFor token.1 token.2 = index → ∀ t, services.now ≤ t →
      kv.claims.get t token.1 = some token.2 → t < token.2.expiresAt →
      token.1 ∈ held ∧ t < end_) : Kept s services (kv.setIndex index held end_) := by
  refine ⟨h.fresh, h.shrinks, fun token htoken hreset t ht hlive hlt => ?_⟩
  by_cases hindex : indexFor token.1 token.2 = index
  · obtain ⟨hmem, hend⟩ := hheld token htoken hreset hindex t ht hlive hlt
    simpa [TokenKv.setIndex, hindex, hend] using hmem
  · simpa [TokenKv.setIndex, hindex] using h.named token htoken hreset t ht hlive hlt

omit [DecidableEq δ] in
lemma deleteIndex (h : Kept s services kv) {index : IndexKey U}
    (hquiet : Quiet s services kv index) : Kept s services (kv.deleteIndex index) := by
  refine ⟨h.fresh, h.shrinks, fun token htoken hreset t ht hlive hlt => ?_⟩
  by_cases hindex : indexFor token.1 token.2 = index
  · exact absurd hlt (hquiet token htoken hreset hindex t ht hlive)
  · simpa [TokenKv.deleteIndex, hindex] using h.named token htoken hreset t ht hlive hlt

end Kept

/-! ### What the operations on tokens keep -/

lemma expiryOf_le (now ttl : ℕ) : expiryOf now ttl ≤ now + ttl := by
  rw [expiryOf, maxDuration]
  split_ifs <;> omega

omit [DecidableEq U] [DecidableEq δ] in
lemma Sound.expiresAt_le (hs : Sound accounts s) (hnow : s.now ≤ services.now)
    {token : IssuedToken U δ} (htoken : token ∈ s.given)
    (hreset : token.1.purpose = .resetPassword) : token.2.expiresAt ≤ services.now + accounts.config.resetTtl := by
  obtain ⟨hissued, hexpires⟩ := hs.stamped token htoken hreset
  rw [hexpires]
  exact (expiryOf_le _ _).trans (Nat.add_le_add_right (hissued.trans hnow) _)

omit [DecidableEq U] [DecidableEq δ] in
/-- A flow starts from what every run keeps. -/
lemma Sound.kept (hs : Sound accounts s) (hnow : s.now ≤ services.now) : Kept s services s.kv where
  fresh key hne := .inl (hs.stored key hne)
  shrinks _ _ := .inl rfl
  named token htoken hreset t ht := hs.named token htoken hreset t (hnow.trans ht)

section

variable (hs : Sound accounts s) (hnow : s.now ≤ services.now) (h : Kept s services kv)

include hs hnow h

lemma leaves_issue (hfresh : ∀ digest ∈ s.generated, services.generate ≠ .ok digest)
    {purpose : TokenPurpose} {destination : String} {ttl : ℕ}
    (httl : purpose = .resetPassword → ttl = accounts.config.resetTtl) :
    Leaves (issueToken services purpose subject destination ttl) kv (Kept s services) := by
  refine leaves_settle_bind h fun digest hgenerate => leaves_write_bind h fun _ => ?_
  have hclaim : Kept s services (kv.setClaim ⟨purpose, digest⟩
      ⟨subject, destination, services.now, expiryOf services.now ttl⟩ (services.now + ttl)) :=
    h.setClaim hs.given (fun hmem => hfresh digest hmem hgenerate) hgenerate _
  refine leaves_look_bind hclaim fun _ => leaves_write_bind hclaim fun _ => hclaim.setIndex ?_
  intro token htoken hreset hindex t ht hlive hlt
  have hnamed := hclaim.named token htoken hreset services.now le_rfl
    (Lapsing.get_mono ht hlive) (lt_of_le_of_lt ht hlt)
  rw [hindex] at hnamed
  refine ⟨List.mem_append_left _ hnamed, lt_of_lt_of_le hlt ?_⟩
  rw [httl ((congrArg IndexKey.purpose hindex).symm.trans hreset)]
  exact hs.expiresAt_le hnow htoken hreset

omit hs hnow [DecidableEq U] in
lemma leaves_deleteAll (held : List (TokenKey δ)) :
    Leaves (deleteAll services held) kv (Kept s services) := by
  induction held generalizing kv with
  | nil => exact h
  | cons key held ih =>
    refine leaves_look_bind h fun _ => ?_
    rw [Leaves, run_modify_bind]
    exact (ih (h.deleteClaim key)).bind fun _ _ _ hkept => hkept

omit hs hnow h [DecidableEq U] in
/-- What is deleted is gone. -/
lemma yields_deleteAll {held : List (TokenKey δ)} {count : ℕ}
    (hrun : Yields (deleteAll services held) kv count kv') : kv'.index = kv.index ∧
      ∀ key, kv'.claims key = if key ∈ held then none else kv.claims key := by
  induction held generalizing kv count with
  | nil =>
    obtain ⟨-, rfl⟩ := yields_pure.1 hrun
    simp
  | cons key held ih =>
    obtain ⟨-, hrun⟩ := yields_look_bind.1 hrun
    rw [yields_modify_bind, yields_bind] at hrun
    obtain ⟨_, _, hrest, hpure⟩ := hrun
    obtain ⟨-, rfl⟩ := yields_pure.1 hpure
    obtain ⟨hindex, hclaims⟩ := ih hrest
    refine ⟨hindex, fun key' => ?_⟩
    rw [hclaims key']
    by_cases hkey : key' = key <;> simp [hkey, TokenKv.deleteClaim, Lapsing.delete]

omit hs hnow [DecidableEq U] in
/-- Deleting what an index names leaves no token in it that can be redeemed. -/
lemma quiet_of_deleteAll {index : IndexKey U} {held : List (TokenKey δ)} {count : ℕ}
    (hheld : (kv.index.get services.now index).getD [] = held)
    (hrun : Yields (deleteAll services held) kv count kv') : Quiet s services kv' index := by
  intro token htoken hreset hindex t ht hlive hlt
  obtain ⟨-, hclaims⟩ := yields_deleteAll hrun
  have hclaim := hclaims token.1
  by_cases hmem : token.1 ∈ held
  · rw [if_pos hmem] at hclaim
    simp [Lapsing.get, Lapsing.live, hclaim] at hlive
  · rw [if_neg hmem] at hclaim
    have hlive' : kv.claims.get t token.1 = some token.2 := by
      rw [← hlive, Lapsing.get, Lapsing.get, Lapsing.live, Lapsing.live, hclaim]
    have hnamed := h.named token htoken hreset services.now le_rfl
      (Lapsing.get_mono ht hlive') (lt_of_le_of_lt ht hlt)
    rw [hindex, hheld] at hnamed
    exact hmem hnamed

omit hs hnow in
lemma leaves_revokeAll (purpose : TokenPurpose) :
    Leaves (revokeAll services purpose subject) kv (Kept s services) := by
  refine leaves_look_bind h fun _ => ?_
  cases hheld : kv.index.get services.now ⟨purpose, subject⟩ with
  | none => exact h
  | some held =>
    refine (leaves_deleteAll h held).bind fun count kv' hrun hkept => ?_
    refine leaves_write_bind hkept fun _ => hkept.deleteIndex ?_
    exact quiet_of_deleteAll h (by simp [hheld]) hrun

omit hs hnow in
/-- Once everything in an index was revoked, no token in it can be redeemed. -/
lemma quiet_of_revokeAll {purpose : TokenPurpose} {count : ℕ}
    (hrun : Yields (revokeAll services purpose subject) kv count kv') :
    Quiet s services kv' ⟨purpose, subject⟩ := by
  obtain ⟨-, hrun⟩ := yields_look_bind.1 hrun
  cases hheld : kv.index.get services.now ⟨purpose, subject⟩ with
  | none =>
    rw [hheld] at hrun
    obtain ⟨-, rfl⟩ := yields_pure.1 hrun
    intro token htoken hreset hindex t ht hlive hlt
    have hnamed := h.named token htoken hreset services.now le_rfl
      (Lapsing.get_mono ht hlive) (lt_of_le_of_lt ht hlt)
    rw [hindex, hheld] at hnamed
    cases hnamed
  | some held =>
    rw [hheld] at hrun
    obtain ⟨_, kv₁, hdelete, hrun⟩ := yields_bind.1 hrun
    obtain ⟨-, hrun⟩ := yields_write_bind.1 hrun
    obtain ⟨-, rfl⟩ := yields_pure.1 hrun
    have hget : (kv.index.get services.now ⟨purpose, subject⟩).getD [] = held := by simp [hheld]
    have hquiet := quiet_of_deleteAll h hget hdelete
    exact hquiet

end

section

variable (hs : Sound accounts s) (hnow : s.now ≤ services.now)

include hs hnow

omit hs hnow [DecidableEq U] [DecidableEq δ] in
/-- What can be redeemed when a call is made could be before. -/
lemma Outstanding.earlier {t t' : ℕ} (hle : t ≤ t') (h : s.Outstanding t' subject key) :
    s.Outstanding t subject key := by
  obtain ⟨claim, hgiven, hreset, hsubject, hget, hlt⟩ := h
  exact ⟨claim, hgiven, hreset, hsubject, Lapsing.get_mono hle hget, lt_of_le_of_lt hle hlt⟩

/-- The token of an account that can be redeemed stays in the index when another one of it is
used. -/
lemma kept_retain (hknown : (s.kv.claims key).isSome = true → key ∈ s.given.map Prod.fst)
    (hclaim : s.kv.claims.get services.now key = some claim) {held : List (TokenKey δ)}
    (hheld : s.kv.index.get services.now (indexFor key claim) = some held) :
    Kept s services ((s.kv.deleteClaim key).setIndex (indexFor key claim)
      (held.filter fun entry => entry ≠ key) (services.now + TokenCall.retainTtl)) := by
  have hkept := (hs.kept hnow).deleteClaim key
  refine hkept.setIndex fun token htoken hreset hindex t ht hlive hlt => ?_
  obtain ⟨hne, hlive⟩ := Lapsing.get_delete_eq_some.mp hlive
  have hlive' := Lapsing.get_mono ht hlive
  have hlt' := lt_of_le_of_lt ht hlt
  have hnamed := (hs.kept hnow).named token htoken hreset services.now le_rfl hlive' hlt'
  rw [hindex, hheld] at hnamed
  refine ⟨List.mem_filter.mpr ⟨hnamed, decide_eq_true hne⟩, ?_⟩
  -- the token that is used is of the same account, so it cannot be redeemed
  obtain ⟨e, he⟩ := Lapsing.get_eq_some.mp hclaim
  obtain ⟨hraw, hlasts⟩ := Lapsing.live_eq_some.mp he
  obtain ⟨⟨_, claim'⟩, hgiven, rfl⟩ := List.mem_map.mp (hknown (by simp [hraw]))
  have hpurpose := (congrArg IndexKey.purpose hindex).symm.trans hreset
  have hsubject : token.2.subject = claim.subject := congrArg IndexKey.subject hindex
  obtain ⟨rfl, rfl⟩ : claim' = claim ∧ some (claim'.issuedAt + accounts.config.resetTtl) = e := by
    rcases hs.claimed _ hgiven hpurpose with hnone | hsome
    · exact absurd (hnone.symm.trans hraw) nofun
    · exact Prod.mk.inj (Option.some.inj (hsome.symm.trans hraw))
  have hlater : claim'.expiresAt ≤ services.now := by
    by_contra hlater
    refine hne (hs.links.one claim'.subject _ _ (Outstanding.earlier hnow ?_)
      (Outstanding.earlier hnow ?_))
    · exact ⟨_, htoken, hreset, hsubject, hlive', hlt'⟩
    · exact ⟨_, hgiven, hpurpose, rfl, hclaim, Nat.lt_of_not_le hlater⟩
  -- so links last longer than a clock can tell, and are given an hour
  have hlong : ¬ accounts.config.resetTtl ≤ maxDuration := by
    intro hshort
    have hexpires : claim'.expiresAt = expiryOf claim'.issuedAt accounts.config.resetTtl :=
      (hs.stamped _ hgiven hpurpose).2
    rw [expiryOf, if_pos hshort] at hexpires
    exact absurd (Lapsing.lasts_some.mp hlasts) (by omega)
  obtain ⟨hissued, hexpires⟩ := hs.stamped token htoken hreset
  rw [expiryOf, if_neg hlong] at hexpires
  have hretain : TokenCall.retainTtl = 3600000 := rfl
  omega

/-- A token that is used leaves the others of its account in the index. -/
lemma leaves_consume (hknown : (s.kv.claims key).isSome = true → key ∈ s.given.map Prod.fst) :
    Leaves (consumeToken services key) s.kv (Kept s services) := by
  have h := hs.kept hnow
  refine leaves_look_bind h fun _ => ?_
  cases hclaim : s.kv.claims.get services.now key with
  | none => exact h
  | some claim =>
    have hkept := h.deleteClaim key
    have hretain : Leaves (retain services key claim) (s.kv.deleteClaim key) (Kept s services) := by
      refine leaves_look_bind hkept fun _ => ?_
      cases hheld : (s.kv.deleteClaim key).index.get services.now (indexFor key claim) with
      | none => exact hkept
      | some held =>
        have hset := kept_retain hs hnow hknown hclaim hheld
        exact leaves_write hkept fun _ => hset
    exact leaves_write_bind h fun _ => hretain.bind fun _ _ _ h => h

end

/-- When a change of address succeeds. -/
lemma confirms_iff {digest : δ} :
    (∃ user kv', (accounts.confirmEmailChange services digest).run s.kv =
      (.ok (subject, user), kv')) ↔ Confirms accounts s services digest subject := by
  constructor
  · rintro ⟨user, kv', hrun⟩
    obtain ⟨claim, kv₁, hconsume, hrun⟩ := yields_bind.1 hrun
    obtain ⟨claim', hclaim, hrun⟩ := yields_settle_bind.1 hrun
    obtain ⟨user', hmove, hpure⟩ := yields_settle_bind.1 hrun
    obtain ⟨heq, -⟩ := yields_pure.1 hpure
    obtain ⟨rfl, rfl⟩ := Prod.mk.inj heq
    rw [orInvalid_eq_ok.1 hclaim] at hconsume
    obtain ⟨hgetOk, hget, hdelete, hlt, hretain⟩ := yields_consume.1 hconsume
    obtain ⟨hlook, hretain⟩ := yields_retain.1 hretain
    refine ⟨hgetOk, hdelete, hlook, fun hne => ?_, ⟨claim', hget, rfl, hlt⟩, user', hmove⟩
    split at hretain
    · next hnone => exact absurd hnone hne
    · exact hretain.1
  · rintro ⟨hgetOk, hdelete, hlook, hretain, ⟨claim, hget, rfl, hlt⟩, user, hmove⟩
    obtain ⟨kv', hretains⟩ := exists_retain ⟨.changeEmail, digest⟩ claim
      (s.kv.deleteClaim ⟨.changeEmail, digest⟩) hlook hretain
    refine ⟨user, kv', yields_bind.2 ⟨some claim, kv',
      yields_consume.2 ⟨hgetOk, hget, hdelete, hlt, hretains⟩, ?_⟩⟩
    exact yields_settle_bind.2 ⟨claim, rfl, yields_settle_bind.2
      ⟨user, hmove, yields_pure.2 ⟨rfl, rfl⟩⟩⟩

end AccountsRun

end Moso.Auth
