import Moso.Auth.Lifecycle.ResetLinks

/-!
# No stale reset link

When at most one reset token of an account can be redeemed, and none that is older than its
credentials.
-/

namespace Moso.Auth

open Stateful

namespace AccountsRun

variable {Id U δ : Type} [DecidableEq U] [DecidableEq δ] {accounts : AccountFlows Id U}
  {s s' : AccountsRun U δ} {services : AccountServices Id δ} {kv kv' : TokenKv U δ} {subject : U}
  {key : TokenKey δ} {claim : TokenClaim U}

/-! ### What the calls keep -/

section

variable (hs : Sound accounts s) (hnow : s.now ≤ services.now)

include hs

omit [DecidableEq U] [DecidableEq δ] in
/-- What a call leaves that can be redeemed could be before. -/
lemma Kept.outstanding (h : Kept s services kv) {t : ℕ}
    (hout : (s.after services kv).Outstanding t subject key) : s.Outstanding t subject key := by
  obtain ⟨claim, hgiven, hreset, hsubject, hget, hlt⟩ := hout
  refine ⟨claim, hgiven, hreset, hsubject, ?_, hlt⟩
  have hget : kv.claims.get t key = some claim := hget
  rcases h.shrinks key (hs.given _ hgiven) with hsame | hnone
  · rw [← hget, Lapsing.get, Lapsing.get, Lapsing.live, Lapsing.live, hsame]
  · simp [Lapsing.get, Lapsing.live, hnone] at hget

omit [DecidableEq U] [DecidableEq δ] in
include hnow in
lemma sound_after (h : Kept s services kv) : Sound accounts (s.after services kv) where
  links :=
    { one subject key key' hkey hkey' := hs.links.one subject key key'
        ((h.outstanding hs hkey).earlier hnow) ((h.outstanding hs hkey').earlier hnow)
      stale subject key hkey := hs.links.stale subject key ((h.outstanding hs hkey).earlier hnow) }
  stored key hne := by
    refine List.mem_append.mpr ((h.fresh key hne).imp id fun hgenerate => ?_)
    simp [hgenerate]
  given token htoken := List.mem_append_left _ (hs.given token htoken)
  stale key hkey := List.mem_append_left _ (hs.stale key hkey)
  stamped token htoken hreset := by
    obtain ⟨hissued, hexpires⟩ := hs.stamped token htoken hreset
    exact ⟨hissued.trans hnow, hexpires⟩
  claimed token htoken hreset := by
    rcases h.shrinks token.1 (hs.given token htoken) with hsame | hnone
    · exact (hs.claimed token htoken hreset).imp hsame.trans hsame.trans
    · exact .inl hnone
  named token htoken hreset t ht := h.named token htoken hreset t ht

omit [DecidableEq U] [DecidableEq δ] in
/-- A token is given of an account of which none can be redeemed. -/
lemma sound_give {token : IssuedToken U δ} (hmade : token.1.digest ∈ s.generated)
    (hstale : token.1 ∉ s.stale)
    (hreset : token.1.purpose = .resetPassword →
      (token.2.issuedAt ≤ s.now ∧
        token.2.expiresAt = expiryOf token.2.issuedAt accounts.config.resetTtl) ∧
      s.kv.claims token.1 =
        some (token.2, some (token.2.issuedAt + accounts.config.resetTtl)) ∧
      (∀ t, s.now ≤ t → t < token.2.expiresAt →
        token.1 ∈ (s.kv.index.get t (indexFor token.1 token.2)).getD []) ∧
      ∀ key, s.Outstanding s.now token.2.subject key → ¬ s.now < token.2.expiresAt) :
    Sound accounts (s.give (some token)) := by
  have hout : ∀ subject key, (s.give (some token)).Outstanding s.now subject key →
      s.Outstanding s.now subject key ∨ (key = token.1 ∧ token.1.purpose = .resetPassword ∧
        token.2.subject = subject ∧ s.now < token.2.expiresAt) := by
    rintro subject key ⟨claim, hgiven, hpurpose, hsubject, hget, hlt⟩
    rcases List.mem_append.mp hgiven with hgiven | hgiven
    · exact .inl ⟨claim, hgiven, hpurpose, hsubject, hget, hlt⟩
    · obtain rfl : (key, claim) = token := by simpa using hgiven
      exact .inr ⟨rfl, hpurpose, hsubject, hlt⟩
  refine ⟨⟨fun subject key key' h h' => ?_, fun subject key h => ?_⟩, hs.stored, ?_, hs.stale, ?_,
    ?_, ?_⟩
  · rcases hout subject key h with h | ⟨rfl, hpurpose, rfl, hlt⟩
    · rcases hout subject key' h' with h' | ⟨rfl, hpurpose, rfl, hlt⟩
      · exact hs.links.one subject key key' h h'
      · exact absurd hlt ((hreset hpurpose).2.2.2 key h)
    · rcases hout _ key' h' with h' | ⟨rfl, -, -, -⟩
      · exact absurd hlt ((hreset hpurpose).2.2.2 key' h')
      · rfl
  · rcases hout subject key h with h | ⟨rfl, -, -, -⟩
    · exact hs.links.stale subject key h
    · exact hstale
  all_goals
    intro token' htoken'
    rcases List.mem_append.mp htoken' with htoken' | htoken'
    rotate_left
    obtain rfl : token' = token := by simpa using htoken'
  · exact hmade
  · exact hs.given token' htoken'
  · exact fun hpurpose => (hreset hpurpose).1
  · exact hs.stamped token' htoken'
  · exact fun hpurpose => .inr (hreset hpurpose).2.1
  · exact hs.claimed token' htoken'
  · exact fun hpurpose t ht _ hlt => (hreset hpurpose).2.2.1 t ht hlt
  · exact hs.named token' htoken'

omit [DecidableEq δ] in
/-- The credentials change of an account of which no token can be redeemed. -/
lemma sound_change (hnone : ∀ key, ¬ s.Outstanding s.now subject key) :
    Sound accounts (s.change subject) := by
  refine ⟨⟨hs.links.one, fun subject' key hout hmem => ?_⟩, hs.stored, hs.given, fun key hmem => ?_,
    hs.stamped, hs.claimed, hs.named⟩
  · rcases List.mem_append.mp hmem with hmem | hmem
    · exact hs.links.stale subject' key hout hmem
    · obtain ⟨token, htoken, rfl⟩ := List.mem_map.mp hmem
      obtain ⟨hgiven, hchanged⟩ := List.mem_filter.mp htoken
      obtain ⟨hpurpose, hsubject⟩ := of_decide_eq_true hchanged
      obtain ⟨claim, -, -, -, hget, hlt⟩ := hout
      obtain ⟨e, he⟩ := Lapsing.get_eq_some.mp hget
      obtain ⟨hraw, -⟩ := Lapsing.live_eq_some.mp he
      rcases hs.claimed token hgiven hpurpose with hgone | hthere
      · exact absurd (hgone.symm.trans hraw) nofun
      · obtain ⟨rfl, -⟩ := Prod.mk.inj (Option.some.inj (hthere.symm.trans hraw))
        exact hnone token.1 ⟨token.2, hgiven, hpurpose, hsubject, hget, hlt⟩
  · rcases List.mem_append.mp hmem with hmem | hmem
    · exact hs.stale key hmem
    · obtain ⟨token, htoken, rfl⟩ := List.mem_map.mp hmem
      exact hs.given token (List.mem_filter.mp htoken).1

include hnow in
/-- A token is issued and given to somebody, of an account of which none can be redeemed. -/
lemma sound_issue (hfresh : ∀ digest ∈ s.generated, services.generate ≠ .ok digest)
    (h : Kept s services kv) {purpose : TokenPurpose} {destination : String} {ttl : ℕ}
    {token : IssuedToken U δ} (httl : purpose = .resetPassword → ttl = accounts.config.resetTtl)
    (hquiet : purpose = .resetPassword → 0 < ttl → Quiet s services kv ⟨purpose, subject⟩)
    (hrun : Yields (issueToken services purpose subject destination ttl) kv token kv') :
    Sound accounts ((s.after services kv').give (some token)) := by
  have hkept : Kept s services kv' := (leaves_issue hs hnow h hfresh httl).of_yields hrun
  obtain ⟨digest, hgenerate, -, -, -, htoken, hkv⟩ := yields_issue.1 hrun
  have hnew : digest ∉ s.generated := fun hmem => hfresh digest hmem hgenerate
  refine sound_give (sound_after hs hnow hkept) ?_ ?_ fun hreset => ?_
  · simp [after, hgenerate, htoken]
  · exact fun hmem => hnew (by simpa [htoken] using hs.stale _ hmem)
  · obtain rfl : purpose = .resetPassword := by simpa [htoken] using hreset
    obtain rfl := httl rfl
    have hindex : indexFor token.1 token.2 = ⟨.resetPassword, subject⟩ := by rw [htoken]; rfl
    refine ⟨⟨by simp [htoken, after], by simp [htoken]⟩, ?_, fun t ht hlt => ?_,
      fun key hkey hlt => ?_⟩
    · simp [after, hkv, htoken, TokenKv.setIndex, TokenKv.setClaim, Lapsing.set]
    · have hend : t < services.now + accounts.config.resetTtl := by
        refine lt_of_lt_of_le hlt ?_
        rw [htoken]
        exact expiryOf_le _ _
      simp [after, hindex, hkv, TokenKv.setIndex, hend]
    · obtain ⟨claim, hgiven, hpurpose, hsubject, hget, hexpires⟩ := hkey
      have hne : key ≠ token.1 := by
        rintro rfl
        exact hnew (by simpa [htoken] using hs.given _ hgiven)
      have hpos : 0 < accounts.config.resetTtl := by
        by_contra hzero
        rw [htoken] at hlt
        have hle := expiryOf_le services.now accounts.config.resetTtl
        have hlt : services.now < expiryOf services.now accounts.config.resetTtl := hlt
        omega
      refine hquiet rfl hpos _ hgiven hpurpose ?_ services.now le_rfl ?_ hexpires
      · rw [htoken] at hsubject
        rw [indexFor, hpurpose, hsubject]
      · have hget : kv'.claims.get services.now key = some claim := hget
        simpa [hkv, TokenKv.setIndex, TokenKv.setClaim, hne] using hget

omit [DecidableEq U] [DecidableEq δ] hs in
/-- What is not outstanding is not in the index of its account. -/
lemma quiet_of_none (hnone : ∀ key, ¬ s.Outstanding services.now subject key) :
    Quiet s services s.kv ⟨.resetPassword, subject⟩ := by
  intro token htoken hreset hindex t ht hlive hlt
  exact hnone token.1 (Outstanding.earlier ht
    ⟨token.2, htoken, hreset, congrArg IndexKey.subject hindex, hlive, hlt⟩)

variable (hfresh : ∀ digest ∈ s.generated, services.generate ≠ .ok digest)

include hnow hfresh

lemma sound_register {identity : String}
    (hsettled : Settled accounts s (services, .register identity)) :
    Sound accounts (s.call accounts services (.register identity)) := by
  have hkept := hs.kept hnow
  have hleaves : Leaves (accounts.register services identity) s.kv (Kept s services) := by
    refine leaves_settle_bind hkept fun _ _ => leaves_settle_bind hkept fun _ _ => ?_
    refine leaves_settle_bind hkept fun found _ => ?_
    cases found with
    | some existing =>
      refine leaves_settle_bind hkept fun _ _ => ?_
      exact (leaves_issue hs hnow hkept hfresh fun _ => rfl).bind fun _ _ _ h => h
    | none =>
      refine leaves_settle_bind hkept fun _ _ => leaves_settle_bind hkept fun _ _ => ?_
      exact (leaves_issue hs hnow hkept hfresh fun h => by cases h).bind fun _ _ _ h => h
  rw [call]
  cases hrun : (accounts.register services identity).run s.kv with
  | mk result kv =>
    cases result with
    | error error =>
      exact sound_after hs hnow (hleaves.of_run hrun)
    | ok registration =>
      obtain ⟨_, hpolicy, hrun⟩ := yields_settle_bind.1 hrun
      obtain ⟨_, hhash, hrun⟩ := yields_settle_bind.1 hrun
      obtain ⟨found, hfound, hrun⟩ := yields_settle_bind.1 hrun
      cases found with
      | some existing =>
        obtain ⟨subject, hencode, hrun⟩ := yields_settle_bind.1 hrun
        obtain ⟨token, _, hissue, hpure⟩ := yields_bind.1 hrun
        obtain ⟨rfl, rfl⟩ := yields_pure.1 hpure
        refine sound_issue hs hnow hfresh hkept (fun _ => rfl) (fun _ hlasts => ?_) hissue
        obtain ⟨digest, hgenerate, hset, hread, hpush, -⟩ := yields_issue.1 hissue
        exact quiet_of_none (hsettled subject
          ⟨hpolicy, hhash, ⟨existing, hfound, hencode⟩, ⟨digest, hgenerate⟩, hset, hread, hpush,
            hlasts⟩)
      | none =>
        obtain ⟨user, -, hrun⟩ := yields_settle_bind.1 hrun
        obtain ⟨subject, -, hrun⟩ := yields_settle_bind.1 hrun
        obtain ⟨token, _, hissue, hpure⟩ := yields_bind.1 hrun
        obtain ⟨rfl, rfl⟩ := yields_pure.1 hpure
        exact sound_issue hs hnow hfresh hkept (fun h => by cases h) (fun h => by cases h) hissue

lemma sound_requestPasswordReset {identity : String} :
    Sound accounts (s.call accounts services (.requestPasswordReset identity)) := by
  have hkept := hs.kept hnow
  have hleaves : Leaves (accounts.requestPasswordReset services identity) s.kv
      (Kept s services) := by
    refine leaves_settle_bind hkept fun found _ => ?_
    cases found with
    | some user =>
      refine leaves_settle_bind hkept fun _ _ => ?_
      refine (leaves_revokeAll hkept _).bind fun _ _ _ hkept' => ?_
      exact (leaves_issue hs hnow hkept' hfresh fun _ => rfl).bind fun _ _ _ h => h
    | none =>
      refine (leaves_issue hs hnow hkept hfresh fun _ => rfl).bind fun _ _ _ hkept' => ?_
      exact (leaves_revokeAll hkept' _).bind fun _ _ _ h => h
  rw [call]
  cases hrun : (accounts.requestPasswordReset services identity).run s.kv with
  | mk result kv =>
    have hkept' := hleaves.of_run hrun
    cases result with
    | error error => exact sound_after hs hnow hkept'
    | ok token =>
      obtain ⟨found, -, hrun⟩ := yields_settle_bind.1 hrun
      cases found with
      | some user =>
        obtain ⟨subject, -, hrun⟩ := yields_settle_bind.1 hrun
        obtain ⟨_, kv₁, hrevoke, hrun⟩ := yields_bind.1 hrun
        obtain ⟨_, _, hissue, hpure⟩ := yields_bind.1 hrun
        obtain ⟨rfl, rfl⟩ := yields_pure.1 hpure
        have hkept₁ : Kept s services kv₁ := (leaves_revokeAll hkept _).of_yields hrevoke
        exact sound_issue hs hnow hfresh hkept₁ (fun _ => rfl)
          (fun _ _ => quiet_of_revokeAll hkept hrevoke) hissue
      | none =>
        obtain ⟨_, _, -, hrun⟩ := yields_bind.1 hrun
        obtain ⟨_, _, -, hpure⟩ := yields_bind.1 hrun
        obtain ⟨rfl, rfl⟩ := yields_pure.1 hpure
        have hsame : ∀ s : AccountsRun U δ, s.give none = s := fun s => by simp [give]
        show Sound accounts ((s.after services _).give none)
        rw [hsame]
        exact sound_after hs hnow hkept'

lemma sound_requestEmailChange {id : Id} {currentIdentity newIdentity : String} :
    Sound accounts
      (s.call accounts services (.requestEmailChange id currentIdentity newIdentity)) := by
  have hkept := hs.kept hnow
  have hleaves : Leaves (accounts.requestEmailChange services id currentIdentity newIdentity) s.kv
      (Kept s services) := by
    refine leaves_settle_bind hkept fun _ _ => leaves_settle_bind hkept fun _ _ => ?_
    refine leaves_settle_bind hkept fun _ _ => leaves_settle_bind hkept fun _ _ => ?_
    refine (leaves_revokeAll hkept _).bind fun _ _ _ hkept' => ?_
    exact (leaves_issue hs hnow hkept' hfresh fun h => by cases h).bind fun _ _ _ h => h
  rw [call]
  cases hrun : (accounts.requestEmailChange services id currentIdentity newIdentity).run s.kv with
  | mk result kv =>
    cases result with
    | error error => exact sound_after hs hnow (hleaves.of_run hrun)
    | ok change =>
      obtain ⟨_, -, hrun⟩ := yields_settle_bind.1 hrun
      obtain ⟨_, -, hrun⟩ := yields_settle_bind.1 hrun
      obtain ⟨_, -, hrun⟩ := yields_settle_bind.1 hrun
      obtain ⟨subject, -, hrun⟩ := yields_settle_bind.1 hrun
      obtain ⟨_, kv₁, hrevoke, hrun⟩ := yields_bind.1 hrun
      obtain ⟨_, _, hissue, hpure⟩ := yields_bind.1 hrun
      obtain ⟨rfl, rfl⟩ := yields_pure.1 hpure
      have hkept₁ : Kept s services kv₁ := (leaves_revokeAll hkept _).of_yields hrevoke
      exact sound_issue hs hnow hfresh hkept₁ (fun h => by cases h) (fun h => by cases h) hissue

omit hfresh in
lemma sound_changePassword {id : Id}
    (hsettled : Settled accounts s (services, .changePassword id)) :
    Sound accounts (s.call accounts services (.changePassword id)) := by
  have hkept := hs.kept hnow
  have hafter := sound_after hs hnow hkept
  rw [call]
  split
  · next count subject hchange hencode =>
    refine sound_change hafter fun key hout => ?_
    exact hsettled subject count hchange hencode key (hkept.outstanding hs hout)
  · exact hafter

omit hfresh in
/-- A reset token that is used can be redeemed before. -/
lemma used_outstanding {digest : δ} (hknown : (s.kv.claims ⟨.resetPassword, digest⟩).isSome = true →
      ⟨.resetPassword, digest⟩ ∈ s.given.map Prod.fst)
    (h : Yields (consumeToken services ⟨.resetPassword, digest⟩) s.kv (some claim) kv) :
    s.Outstanding s.now claim.subject ⟨.resetPassword, digest⟩ := by
  obtain ⟨-, hget, -, hlt, -⟩ := yields_consume.1 h
  obtain ⟨e, he⟩ := Lapsing.get_eq_some.mp hget
  obtain ⟨hraw, -⟩ := Lapsing.live_eq_some.mp he
  obtain ⟨token, hgiven, hkey⟩ := List.mem_map.mp (hknown (by simp [hraw]))
  have hreset : token.1.purpose = .resetPassword := by rw [hkey]
  rw [← hkey] at hraw
  rcases hs.claimed token hgiven hreset with hnone | hsome
  · exact absurd (hnone.symm.trans hraw) nofun
  · obtain ⟨rfl, -⟩ := Prod.mk.inj (Option.some.inj (hsome.symm.trans hraw))
    exact Outstanding.earlier hnow ⟨token.2, hkey ▸ hgiven, rfl, rfl, hget, hlt⟩

omit hfresh in
/-- Whoever uses the one token of an account leaves none. -/
lemma sound_resetPassword {digest : δ}
    (hknown : (s.kv.claims ⟨.resetPassword, digest⟩).isSome = true →
      ⟨.resetPassword, digest⟩ ∈ s.given.map Prod.fst) :
    Sound accounts (s.call accounts services (.resetPassword digest)) := by
  have hconsume := leaves_consume hs hnow hknown
  have hleaves : Leaves (accounts.resetPassword services digest) s.kv (Kept s services) := by
    refine hconsume.bind fun claim _ _ hkept => ?_
    exact leaves_settle_bind hkept fun _ _ => leaves_settle_bind hkept fun _ _ => hkept
  rw [call]
  cases hrun : (accounts.resetPassword services digest).run s.kv with
  | mk result kv =>
    have hkept := hleaves.of_run hrun
    cases result with
    | error error => exact sound_after hs hnow hkept
    | ok done =>
      obtain ⟨claim, kv₁, hconsumed, hrun⟩ := yields_bind.1 hrun
      obtain ⟨claim', hclaim, hrun⟩ := yields_settle_bind.1 hrun
      obtain ⟨user, -, hpure⟩ := yields_settle_bind.1 hrun
      obtain ⟨rfl, rfl⟩ := yields_pure.1 hpure
      rw [orInvalid_eq_ok.1 hclaim] at hconsumed
      refine sound_change (sound_after hs hnow hkept) fun key hout => ?_
      have hbefore := (hkept.outstanding hs hout).earlier hnow
      have hused := used_outstanding hs hnow hknown hconsumed
      obtain rfl := hs.links.one _ _ _ hbefore hused
      obtain ⟨_, _, _, _, hget, _⟩ := hout
      have hget : kv₁.claims.get services.now ⟨.resetPassword, digest⟩ = some _ := hget
      rw [claims_of_consume hconsumed, Lapsing.get_delete_self] at hget
      cases hget

omit hfresh in
lemma sound_confirmEmailChange {digest : δ}
    (hknown : (s.kv.claims ⟨.changeEmail, digest⟩).isSome = true →
      ⟨.changeEmail, digest⟩ ∈ s.given.map Prod.fst)
    (hsettled : Settled accounts s (services, .confirmEmailChange digest)) :
    Sound accounts (s.call accounts services (.confirmEmailChange digest)) := by
  have hconsume := leaves_consume hs hnow hknown
  have hleaves : Leaves (accounts.confirmEmailChange services digest) s.kv (Kept s services) := by
    refine hconsume.bind fun claim _ _ hkept => ?_
    exact leaves_settle_bind hkept fun _ _ => leaves_settle_bind hkept fun _ _ => hkept
  rw [call]
  cases hrun : (accounts.confirmEmailChange services digest).run s.kv with
  | mk result kv =>
    have hkept := hleaves.of_run hrun
    cases result with
    | error error => exact sound_after hs hnow hkept
    | ok done =>
      refine sound_change (sound_after hs hnow hkept) fun key hout => ?_
      exact hsettled _ (confirms_iff.1 ⟨_, _, hrun⟩) key (hkept.outstanding hs hout)

end

/-! ### Results -/

/-- A call keeps what every run keeps, if no token is left behind. -/
lemma sound_step {e : AccountServices Id δ × AccountCall Id δ} (hs : Sound accounts s)
    (hsettled : Settled accounts s e) (hstep : step accounts s e = some s') :
    Sound accounts s' := by
  obtain ⟨services, call⟩ := e
  obtain ⟨⟨hnow, hfresh, hknown⟩, heq⟩ := Option.ite_none_right_eq_some.mp hstep
  obtain rfl := Option.some.inj heq
  cases call with
  | register identity => exact sound_register hs hnow hfresh hsettled
  | requestPasswordReset identity => exact sound_requestPasswordReset hs hnow hfresh
  | resetPassword digest => exact sound_resetPassword hs hnow (hknown _ rfl)
  | changePassword id => exact sound_changePassword hs hnow hsettled
  | requestEmailChange id currentIdentity newIdentity =>
    exact sound_requestEmailChange hs hnow hfresh
  | confirmEmailChange digest => exact sound_confirmEmailChange hs hnow (hknown _ rfl) hsettled

omit [DecidableEq U] [DecidableEq δ] in
lemma lt_expiryOf {now ttl : ℕ} (h : 0 < ttl) : now < expiryOf now ttl := by
  rw [expiryOf]
  split_ifs <;> omega

omit [DecidableEq δ] in
/-- A token of an account whose credentials change is stale. -/
lemma not_freshLinks_change (hout : s.Outstanding s.now subject key) :
    ¬ (s.change subject).FreshLinks := by
  intro h
  refine h.stale subject key hout (List.mem_append_right _ ?_)
  obtain ⟨claim, hgiven, hreset, hsubject, -⟩ := hout
  exact List.mem_map.mpr ⟨(key, claim), List.mem_filter.mpr
    ⟨hgiven, decide_eq_true ⟨hreset, hsubject⟩⟩, rfl⟩

/-- Registering again beside a token that can be redeemed makes another one. -/
lemma not_freshLinks_register (hs : Sound accounts s)
    (hfresh : ∀ digest ∈ s.generated, services.generate ≠ .ok digest) {identity : String}
    (hregisters : Registers accounts services subject)
    (hout : s.Outstanding services.now subject key) :
    ¬ (s.call accounts services (.register identity)).FreshLinks := by
  obtain ⟨hpolicy, hhash, ⟨existing, hfound, hencode⟩, ⟨digest, hgenerate⟩, hset, hread, hpush,
    hlasts⟩ := hregisters
  obtain ⟨token, kv', hissue⟩ : ∃ token kv', Yields (issueToken services .resetPassword subject
      (accounts.normalise identity) accounts.config.resetTtl) s.kv token kv' :=
    ⟨_, _, yields_issue.2 ⟨digest, hgenerate, hset, hread, hpush, rfl, rfl⟩⟩
  have hrun : (accounts.register services identity).run s.kv =
      (.ok ⟨.alreadyRegistered, none, some token⟩, kv') := by
    refine yields_settle_bind.2 ⟨_, hpolicy, yields_settle_bind.2 ⟨_, hhash, ?_⟩⟩
    refine yields_settle_bind.2 ⟨_, hfound, yields_settle_bind.2 ⟨_, hencode, ?_⟩⟩
    exact yields_bind.2 ⟨token, kv', hissue, yields_pure.2 ⟨rfl, rfl⟩⟩
  obtain ⟨digest', hgenerate', -, -, -, rfl, rfl⟩ := yields_issue.1 hissue
  obtain rfl := Except.ok.inj (hgenerate.symm.trans hgenerate')
  obtain ⟨claim, hgiven, hreset, hsubject, hget, hlt⟩ := hout
  have hne : key ≠ ⟨.resetPassword, digest⟩ := by
    rintro rfl
    exact hfresh digest (hs.given _ hgiven) hgenerate
  intro h
  rw [call, hrun] at h
  refine hne (h.one subject _ _ ⟨claim, List.mem_append_left _ hgiven, hreset, hsubject, ?_, hlt⟩
    ⟨_, List.mem_append_right _ (List.mem_singleton_self _), rfl, rfl, ?_, lt_expiryOf hlasts⟩)
  · simpa [give, after, TokenKv.setIndex, TokenKv.setClaim, hne] using hget
  · simp [give, after, TokenKv.setIndex, TokenKv.setClaim, hlasts]

/-- Any other call leaves a token behind that can be redeemed, or a second one. -/
lemma not_freshLinks_step {e : AccountServices Id δ × AccountCall Id δ} (hs : Sound accounts s)
    (hsettled : ¬ Settled accounts s e) (hstep : step accounts s e = some s') :
    ¬ s'.FreshLinks := by
  obtain ⟨services, call⟩ := e
  obtain ⟨⟨hnow, hfresh, hknown⟩, heq⟩ := Option.ite_none_right_eq_some.mp hstep
  obtain rfl := Option.some.inj heq
  cases call with
  | requestPasswordReset | resetPassword | requestEmailChange => exact absurd trivial hsettled
  | register identity =>
    simp only [Settled, not_forall, not_not] at hsettled
    obtain ⟨subject, hregisters, key, hout⟩ := hsettled
    exact not_freshLinks_register hs hfresh hregisters hout
  | changePassword id =>
    simp only [Settled, not_forall, not_not] at hsettled
    obtain ⟨subject, count, hchange, hencode, key, hout⟩ := hsettled
    have hcall : s.call accounts services (.changePassword id) =
        (s.after services s.kv).change subject := by simp only [AccountsRun.call, hchange, hencode]
    rw [hcall]
    have hout : (s.after services s.kv).Outstanding services.now subject key := hout
    exact not_freshLinks_change hout
  | confirmEmailChange digest =>
    simp only [Settled, not_forall, not_not] at hsettled
    obtain ⟨subject, hconfirms, key, hout⟩ := hsettled
    obtain ⟨user, kv', hrun⟩ := confirms_iff.2 hconfirms
    have hcall : s.call accounts services (.confirmEmailChange digest) =
        (s.after services kv').change subject := by simp only [AccountsRun.call, hrun]
    rw [hcall]
    have hkept : (s.after services kv').Outstanding services.now subject key := by
      obtain ⟨claim, hgiven, hreset, hsubject, hget, hlt⟩ := hout
      refine ⟨claim, hgiven, hreset, hsubject, ?_, hlt⟩
      obtain ⟨used, kv₁, hconsume, hrest⟩ := yields_bind.1 hrun
      obtain ⟨claim', hused, hrest⟩ := yields_settle_bind.1 hrest
      obtain ⟨_, -, hpure⟩ := yields_settle_bind.1 hrest
      obtain ⟨-, rfl⟩ := yields_pure.1 hpure
      rw [orInvalid_eq_ok.1 hused] at hconsume
      have hne : key ≠ ⟨.changeEmail, digest⟩ := by
        rintro rfl
        cases hreset
      show kv₁.claims.get services.now key = some claim
      rw [claims_of_consume hconsume, Lapsing.get_delete_of_ne hne]
      exact hget
    exact not_freshLinks_change hkept

/-- **At most one reset token of an account can be redeemed, and none that is older than its
credentials, exactly as long as no token is outstanding when the account is registered again, or
its password or address changes.** -/
theorem freshLinks_iff (accounts : AccountFlows Id U)
    (events : List (AccountServices Id δ × AccountCall Id δ)) :
    Machine.Always (step accounts) FreshLinks start events ↔
      Machine.Meets (step accounts) (Settled accounts) start events := by
  have hstart : Sound accounts (start : AccountsRun U δ) :=
    ⟨⟨fun _ _ _ ⟨_, h, _⟩ => absurd h List.not_mem_nil, fun _ _ _ => List.not_mem_nil⟩,
      fun _ h => absurd rfl h, nofun, nofun, nofun, nofun, nofun⟩
  exact Machine.always_iff_meets (fun _ _ _ => sound_step) (fun _ hs => hs.links)
    (fun _ _ _ => not_freshLinks_step) hstart events

/-! ### A link that goes on working -/

/-- Accounts whose identifiers are their subjects. -/
def plainAccounts : AccountFlows String String where
  config := { verificationTtl := 900000, resetTtl := 900000, emailChangeTtl := 900000 }
  normalise identity := identity
  encodeSubject id := .ok id
  decodeSubject subject := .ok subject
  absent identity := "absent:" ++ identity

/-- Everything answers, and there is one account. -/
def oneAccount (now digest : ℕ) : AccountServices String ℕ where
  now := now
  generate := .ok digest
  command _ := .ok ()
  policy := .ok ()
  hash := .ok ()
  findByIdentity := .ok (some "usr_1")
  findById := .ok (some "usr_1")
  create := .ok "usr_1"
  passwordHash := .ok (some "old")
  verify _ := .ok true
  verifyNew _ := .ok false
  dummyVerify := .ok ()
  setPasswordHash := .ok ()
  bumpEpoch := .ok ()
  setIdentity := .ok ()
  markVerified := .ok ()
  deleteForUser := .ok 0

/-- A reset link that was asked for a minute before the password is changed can still be used. -/
theorem not_freshLinks : ¬ Machine.Always (step plainAccounts) FreshLinks start
    [(oneAccount 0 0, .requestPasswordReset "ada@example.com"),
      (oneAccount 60000 1, .changePassword "usr_1")] := by
  intro h
  refine (h.of_exec rfl).stale "usr_1" ⟨.resetPassword, 0⟩
    ⟨⟨"usr_1", "ada@example.com", 0, 900000⟩, .head _, rfl, rfl, rfl, ?_⟩ (.head _)
  decide

end AccountsRun

end Moso.Auth
