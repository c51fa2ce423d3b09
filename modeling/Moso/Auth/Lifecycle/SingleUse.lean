import Moso.Auth.Lifecycle
import Moso.Foundation.Parties
import Mathlib.Data.List.Nodup

/-!
# Tokens that are redeemed once

What holds of the calls while they keep out of each other's way. A token whose claim has been read
by a `consume` is that call's alone; an index that a call has read is that call's until it is
written; and the index of a token whose issue has returned names it for as long as its claim is
there.
-/

namespace Moso.Auth

open Parties (Apart update_none_eq_some update_eq_some)

variable {U δ : Type}

namespace TokenCall

/-- The token that `issue` has generated, and has still to store. -/
def owns : TokenCall U δ → Option δ
  | stamp key .. | setClaim key .. => some key.digest
  | _ => none

/-- The token whose claim `consume` has read. -/
def spends : TokenCall U δ → Option (TokenKey δ)
  | deleteClaim key _ | lookIndex key _ | retainIndex key _ _ | checkExpiry key _ => some key
  | _ => none

end TokenCall

namespace TokenRun

variable {s s' : TokenRun U δ} {i : ℕ} {key : TokenKey δ} {claim : TokenClaim U}

/-- The claim of a token is there. -/
def Live (s : TokenRun U δ) (t : ℕ) (key : TokenKey δ) : Prop := s.kv.claims.get t key ≠ none

/-- What a call has read of an index names every token of it that is there and whose issue has
returned. -/
def Names (s : TokenRun U δ) (index : IndexKey U) (held : List (TokenKey δ)) : Prop :=
  ∀ entry ∈ s.returned, indexFor entry.1 entry.2 = index → s.Live s.now entry.1 → entry.1 ∈ held

/-- A revocation is of these tokens. -/
def Targets (s : TokenRun U δ) (index : IndexKey U) (targets : List (TokenKey δ)) : Prop :=
  ∀ key ∈ targets, ∃ claim, (key, claim) ∈ s.returned ∧ indexFor key claim = index

/-- A token that is revoked or used up: it was stored, and its claim is gone. -/
def Spent (s : TokenRun U δ) (key : TokenKey δ) : Prop :=
  (∃ claim, (key, claim) ∈ s.stored) ∧ ¬ s.Live s.now key

/-- A token that is made but not stored. -/
def Pending (s : TokenRun U δ) (key : TokenKey δ) : Prop :=
  key.digest ∈ s.generated ∧ ∀ entry ∈ s.stored, entry.1.digest ≠ key.digest

/-- What holds of a call at the point it is at. -/
def CallSound (s : TokenRun U δ) (opened : OpenCall U δ) : Prop :=
  match opened.call with
  | .generate .. => True
  | .stamp key .. | .setClaim key .. => s.Pending key
  | .readIndex key claim ttl =>
    (key, claim) ∈ s.stored ∧ ∀ t, s.now + ttl ≤ t → ¬ s.Live t key
  | .pushIndex key claim ttl held =>
    ((key, claim) ∈ s.stored ∧ ∀ t, s.now + ttl ≤ t → ¬ s.Live t key) ∧
      s.Names (indexFor key claim) held
  | .getClaim key => opened.late = true → key ∈ s.revoked
  | .deleteClaim key claim => (key, claim) ∈ s.stored ∧ opened.late = false
  | .lookIndex key claim | .checkExpiry key claim =>
    (key, claim) ∈ s.stored ∧ opened.late = false ∧ s.Spent key
  | .retainIndex key claim held =>
    ((key, claim) ∈ s.stored ∧ opened.late = false ∧ s.Spent key) ∧
      s.Names (indexFor key claim) held
  | .getHeld index => s.Targets index opened.targets
  | .deleteHeld index held _ => s.Targets index opened.targets ∧ s.Names index held

/-- What every run keeps whose events are orderly. -/
structure Sound (s : TokenRun U δ) : Prop where
  begun : ∀ j opened, s.calls j = some opened → j ∈ s.begun
  made : ∀ entry ∈ s.stored, entry.1.digest ∈ s.generated
  unique : (s.stored.map fun entry => entry.1.digest).Nodup
  present : ∀ key claim, s.kv.claims.get s.now key = some claim → (key, claim) ∈ s.stored
  returned : ∀ entry ∈ s.returned, entry ∈ s.stored
  listed : ∀ entry ∈ s.returned, ∀ t, s.now ≤ t → s.Live t entry.1 →
    entry.1 ∈ (s.kv.index.get t (indexFor entry.1 entry.2)).getD []
  calls : ∀ j opened, s.calls j = some opened → s.CallSound opened
  owners : Apart (fun opened : OpenCall U δ => opened.call.owns) s.calls
  spenders : Apart (fun opened : OpenCall U δ => opened.call.spends) s.calls
  holders : Apart (fun opened : OpenCall U δ => opened.call.holds) s.calls
  once : (s.redeemed.map fun redemption => redemption.key.digest).Nodup
  redeemed : ∀ redemption ∈ s.redeemed, (redemption.key, redemption.claim) ∈ s.stored ∧
    redemption.checkedAt < redemption.claim.expiresAt ∧ redemption.late = false
  used : ∀ redemption ∈ s.redeemed, s.Spent redemption.key ∧
    ∀ j opened, s.calls j = some opened → opened.call.spends ≠ some redemption.key
  revoked : ∀ key ∈ s.revoked, s.Spent key

lemma Sound.singleUse (h : s.Sound) : s.SingleUse := ⟨h.once, h.redeemed⟩

lemma live_mono {t t' : ℕ} (hle : t ≤ t') (h : s.Live t' key) : s.Live t key :=
  fun hnone => h (Lapsing.get_eq_none_of_le hle hnone)

/-! ### What the commands keep -/

/-- What one state keeps of another: time goes on, nothing that is on record is taken back, and
no claim of a token that was stored comes back. -/
structure Keeps (s s' : TokenRun U δ) : Prop where
  now : s.now ≤ s'.now
  generated : ∀ digest ∈ s.generated, digest ∈ s'.generated
  stored : ∀ entry ∈ s.stored, entry ∈ s'.stored
  returned : ∀ entry ∈ s.returned, entry ∈ s'.returned
  revoked : ∀ key ∈ s.revoked, key ∈ s'.revoked
  live : ∀ entry ∈ s.stored, ∀ t, s'.Live t entry.1 → s.Live t entry.1

lemma Keeps.spent (h : Keeps s s') (hspent : s.Spent key) : s'.Spent key := by
  obtain ⟨⟨claim, hclaim⟩, hgone⟩ := hspent
  exact ⟨⟨claim, h.stored _ hclaim⟩,
    fun hlive => hgone (live_mono h.now (h.live _ hclaim _ hlive))⟩

lemma Keeps.pending (h : Keeps s s') (hpending : s.Pending key)
    (hnew : ∀ entry ∈ s'.stored, entry ∈ s.stored ∨ entry.1.digest ≠ key.digest) :
    s'.Pending key := by
  refine ⟨h.generated _ hpending.1, fun entry hentry => ?_⟩
  rcases hnew entry hentry with hold | hne
  · exact hpending.2 entry hold
  · exact hne

lemma Keeps.names (h : Keeps s s') (hstored : ∀ entry ∈ s.returned, entry ∈ s.stored)
    {index : IndexKey U} {held : List (TokenKey δ)} (hnames : s.Names index held)
    (hnew : ∀ entry ∈ s'.returned, indexFor entry.1 entry.2 = index → entry ∈ s.returned) :
    s'.Names index held := by
  intro entry hentry hindex hlive
  have hold := hnew entry hentry hindex
  exact hnames entry hold hindex (live_mono h.now (h.live entry (hstored entry hold) _ hlive))

lemma Keeps.targets (h : Keeps s s') {index : IndexKey U} {targets : List (TokenKey δ)}
    (htargets : s.Targets index targets) : s'.Targets index targets := by
  intro key hkey
  obtain ⟨claim, hclaim, hindex⟩ := htargets key hkey
  exact ⟨claim, h.returned _ hclaim, hindex⟩

lemma Keeps.gone (h : Keeps s s') {ttl : ℕ} (hstored : (key, claim) ∈ s.stored)
    (hgone : ∀ t, s.now + ttl ≤ t → ¬ s.Live t key) : ∀ t, s'.now + ttl ≤ t → ¬ s'.Live t key :=
  fun t hle hlive => hgone t (le_trans (Nat.add_le_add_right h.now ttl) hle)
    (h.live _ hstored t hlive)

/-- What holds of a call goes on to hold, unless another token of its own digest is stored, or
another token of the index it has read is returned. -/
lemma Keeps.callSound (h : Keeps s s') (hstored : ∀ entry ∈ s.returned, entry ∈ s.stored)
    {opened : OpenCall U δ} (hsound : s.CallSound opened)
    (hnew : ∀ digest, opened.call.owns = some digest → ∀ entry ∈ s'.stored,
      entry ∈ s.stored ∨ entry.1.digest ≠ digest)
    (hreturned : ∀ index, opened.call.holds = some index → ∀ entry ∈ s'.returned,
      indexFor entry.1 entry.2 = index → entry ∈ s.returned) : s'.CallSound opened := by
  obtain ⟨call, targets, late⟩ := opened
  cases call with
  | generate => trivial
  | stamp key => exact h.pending hsound (hnew _ rfl)
  | setClaim key => exact h.pending hsound (hnew _ rfl)
  | readIndex key claim ttl => exact ⟨h.stored _ hsound.1, h.gone hsound.1 hsound.2⟩
  | pushIndex key claim ttl held =>
    exact ⟨⟨h.stored _ hsound.1.1, h.gone hsound.1.1 hsound.1.2⟩,
      h.names hstored hsound.2 (hreturned _ rfl)⟩
  | getClaim key => exact fun hlate => h.revoked _ (hsound hlate)
  | deleteClaim key claim => exact ⟨h.stored _ hsound.1, hsound.2⟩
  | lookIndex key claim => exact ⟨h.stored _ hsound.1, hsound.2.1, h.spent hsound.2.2⟩
  | checkExpiry key claim => exact ⟨h.stored _ hsound.1, hsound.2.1, h.spent hsound.2.2⟩
  | retainIndex key claim held =>
    exact ⟨⟨h.stored _ hsound.1.1, hsound.1.2.1, h.spent hsound.1.2.2⟩,
      h.names hstored hsound.2 (hreturned _ rfl)⟩
  | getHeld index => exact h.targets hsound
  | deleteHeld index held => exact ⟨h.targets hsound.1, h.names hstored hsound.2 (hreturned _ rfl)⟩

/-- A state that differs in the time, the generated tokens, the indexes, or by claims that are
gone. -/
lemma Sound.of_keeps (h : s.Sound) (hkeeps : Keeps s s') (hcalls : s'.calls = s.calls)
    (hbegun : s'.begun = s.begun) (hstored : s'.stored = s.stored)
    (hreturned : s'.returned = s.returned) (hredeemed : s'.redeemed = s.redeemed)
    (hrevoked : s'.revoked = s.revoked)
    (hpresent : ∀ key claim, s'.kv.claims.get s'.now key = some claim →
      s.kv.claims.get s.now key = some claim)
    (hlisted : ∀ entry ∈ s.returned, ∀ t, s'.now ≤ t → s'.Live t entry.1 →
      entry.1 ∈ (s'.kv.index.get t (indexFor entry.1 entry.2)).getD []) : s'.Sound where
  begun := by
    rw [hcalls, hbegun]
    exact h.begun
  made := by
    rw [hstored]
    exact fun entry hentry => hkeeps.generated _ (h.made entry hentry)
  unique := by
    rw [hstored]
    exact h.unique
  present key claim hget := by
    rw [hstored]
    exact h.present key claim (hpresent key claim hget)
  returned := by
    rw [hreturned, hstored]
    exact h.returned
  listed := by
    rw [hreturned]
    exact hlisted
  calls := by
    rw [hcalls]
    intro j opened hj
    refine hkeeps.callSound h.returned (h.calls j opened hj) (fun _ _ entry hentry => ?_)
      fun _ _ entry hentry _ => ?_
    · rw [hstored] at hentry
      exact .inl hentry
    · rwa [hreturned] at hentry
  owners := by
    rw [hcalls]
    exact h.owners
  spenders := by
    rw [hcalls]
    exact h.spenders
  holders := by
    rw [hcalls]
    exact h.holders
  once := by
    rw [hredeemed]
    exact h.once
  redeemed := by
    rw [hredeemed, hstored]
    exact h.redeemed
  used := by
    rw [hredeemed, hcalls]
    exact fun redemption hr => ⟨hkeeps.spent (h.used redemption hr).1, (h.used redemption hr).2⟩
  revoked := by
    rw [hrevoked]
    exact fun key hkey => hkeeps.spent (h.revoked key hkey)

lemma Sound.wait (h : s.Sound) (millis : ℕ) :
    ({ s with now := s.now + millis } : TokenRun U δ).Sound := by
  have hle : s.now ≤ s.now + millis := Nat.le_add_right _ _
  refine h.of_keeps ⟨hle, fun _ => id, fun _ => id, fun _ => id, fun _ => id, fun _ _ _ => id⟩
    rfl rfl rfl rfl rfl rfl (fun key claim => Lapsing.get_mono hle) ?_
  exact fun entry hentry t ht => h.listed entry hentry t (le_trans hle ht)

lemma Sound.generate (h : s.Sound) (digest : δ) :
    ({ s with generated := digest :: s.generated } : TokenRun U δ).Sound :=
  h.of_keeps ⟨le_rfl, fun _ => List.mem_cons_of_mem _, fun _ => id, fun _ => id, fun _ => id,
    fun _ _ _ => id⟩ rfl rfl rfl rfl rfl rfl (fun _ _ => id) h.listed

/-- A call leaves the table, for as long as it takes a step. -/
lemma Sound.leave (h : s.Sound) (i : ℕ) :
    ({ s with calls := Function.update s.calls i none } : TokenRun U δ).Sound :=
  { h with
    begun := fun j opened hj => h.begun j opened (update_none_eq_some.1 hj).2
    calls := fun j opened hj => h.calls j opened (update_none_eq_some.1 hj).2
    owners := h.owners.leave
    spenders := h.spenders.leave
    holders := h.holders.leave
    used := fun redemption hr => ⟨(h.used redemption hr).1, fun j opened hj =>
      (h.used redemption hr).2 j opened (update_none_eq_some.1 hj).2⟩ }

/-- A call comes to a point at which it has nothing that another call has. -/
lemma Sound.enter (h : s.Sound) (opened : OpenCall U δ) (hi : i ∈ s.begun)
    (hsound : s.CallSound opened)
    (howns : ∀ digest, opened.call.owns = some digest → ∀ j other, s.calls j = some other →
      other.call.owns ≠ some digest)
    (hspends : ∀ key, opened.call.spends = some key →
      (∀ j other, s.calls j = some other → other.call.spends ≠ some key) ∧
        ∀ redemption ∈ s.redeemed, redemption.key ≠ key)
    (hholds : ∀ index, opened.call.holds = some index → ∀ j other, s.calls j = some other →
      other.call.holds ≠ some index) :
    ({ s with calls := Function.update s.calls i (some opened) } : TokenRun U δ).Sound where
  begun j opened' hj := by
    rcases update_eq_some.1 hj with ⟨rfl, -⟩ | ⟨-, hj⟩
    · exact hi
    · exact h.begun j opened' hj
  made := h.made
  unique := h.unique
  present := h.present
  returned := h.returned
  listed := h.listed
  calls j opened' hj := by
    rcases update_eq_some.1 hj with ⟨-, heq⟩ | ⟨-, hj⟩
    · obtain rfl := Option.some.inj heq
      exact hsound
    · exact h.calls j opened' hj
  owners := h.owners.enter howns
  spenders := h.spenders.enter fun key hkey => (hspends key hkey).1
  holders := h.holders.enter hholds
  once := h.once
  redeemed := h.redeemed
  used redemption hr := by
    refine ⟨(h.used redemption hr).1, fun j opened' hj => ?_⟩
    rcases update_eq_some.1 hj with ⟨-, heq⟩ | ⟨-, hj⟩
    · obtain rfl := Option.some.inj heq
      intro hkey
      exact (hspends _ hkey).2 redemption hr rfl
    · exact (h.used redemption hr).2 j opened' hj
  revoked := h.revoked

/-- A token is determined by its digest. -/
lemma Sound.eq_of_digest (h : s.Sound) {entry entry' : TokenKey δ × TokenClaim U}
    (hentry : entry ∈ s.stored) (hentry' : entry' ∈ s.stored)
    (heq : entry.1.digest = entry'.1.digest) : entry = entry' :=
  List.inj_on_of_nodup_map h.unique hentry hentry' heq

/-- The issue of a token returns: its index names it for as long as its claim is there. -/
lemma Sound.return_ (h : s.Sound) (hstored : (key, claim) ∈ s.stored)
    (hlisted : ∀ t, s.now ≤ t → s.Live t key →
      key ∈ (s.kv.index.get t (indexFor key claim)).getD [])
    (hholds : ∀ j opened, s.calls j = some opened →
      opened.call.holds ≠ some (indexFor key claim)) :
    ({ s with returned := (key, claim) :: s.returned } : TokenRun U δ).Sound := by
  have hkeeps : Keeps s { s with returned := (key, claim) :: s.returned } :=
    ⟨le_rfl, fun _ => id, fun _ => id, fun _ => List.mem_cons_of_mem _, fun _ => id, fun _ _ _ => id⟩
  exact { h with
    returned := by
      intro entry hentry
      rcases List.mem_cons.mp hentry with rfl | hentry
      · exact hstored
      · exact h.returned entry hentry
    listed := by
      intro entry hentry
      rcases List.mem_cons.mp hentry with rfl | hentry
      · exact hlisted
      · exact h.listed entry hentry
    calls := by
      intro j opened hj
      refine hkeeps.callSound h.returned (h.calls j opened hj) (fun _ _ entry hentry => .inl hentry)
        fun index hindex entry hentry heq => ?_
      rcases List.mem_cons.mp hentry with rfl | hentry
      · exact absurd (heq ▸ hindex) (hholds j opened hj)
      · exact hentry }

/-- A `consume` returns the claim that it alone has read. -/
lemma Sound.redeem (h : s.Sound) (hstored : (key, claim) ∈ s.stored) (hspent : s.Spent key)
    (hexpiry : s.now < claim.expiresAt) (hnew : ∀ redemption ∈ s.redeemed, redemption.key ≠ key)
    (hspends : ∀ j opened, s.calls j = some opened → opened.call.spends ≠ some key) :
    ({ s with redeemed := ⟨key, claim, s.now, false⟩ :: s.redeemed } : TokenRun U δ).Sound :=
  { h with
    once := by
      rw [List.map_cons, List.nodup_cons]
      refine ⟨fun hmem => ?_, h.once⟩
      obtain ⟨redemption, hr, hdigest⟩ := List.mem_map.mp hmem
      have heq := h.eq_of_digest (h.redeemed redemption hr).1 hstored hdigest
      exact hnew redemption hr (congrArg Prod.fst heq)
    redeemed := by
      intro redemption hr
      rcases List.mem_cons.mp hr with rfl | hr
      · exact ⟨hstored, hexpiry, rfl⟩
      · exact h.redeemed redemption hr
    used := by
      intro redemption hr
      rcases List.mem_cons.mp hr with rfl | hr
      · exact ⟨hspent, hspends⟩
      · exact h.used redemption hr }

/-- A revocation returns. -/
lemma Sound.revoke (h : s.Sound) {keys : List (TokenKey δ)} (hkeys : ∀ key ∈ keys, s.Spent key) :
    ({ s with revoked := keys ++ s.revoked } : TokenRun U δ).Sound := by
  have hkeeps : Keeps s { s with revoked := keys ++ s.revoked } :=
    ⟨le_rfl, fun _ => id, fun _ => id, fun _ => id, fun _ => List.mem_append_right _,
      fun _ _ _ => id⟩
  exact { h with
    calls := fun j opened hj => hkeeps.callSound h.returned (h.calls j opened hj)
      (fun _ _ entry hentry => .inl hentry) fun _ _ entry hentry _ => hentry
    revoked := by
      intro key hkey
      rcases List.mem_append.mp hkey with hkey | hkey
      · exact hkeys key hkey
      · exact h.revoked key hkey }

variable [DecidableEq U] [DecidableEq δ]

omit [DecidableEq U] in
lemma Sound.deleteClaim (h : s.Sound) (key : TokenKey δ) :
    ({ s with kv := s.kv.deleteClaim key } : TokenRun U δ).Sound := by
  have hlive : ∀ key' t, Live { s with kv := s.kv.deleteClaim key } t key' → s.Live t key' := by
    intro key' t hlive hnone
    apply hlive
    cases hget : (s.kv.claims.delete key).get t key' with
    | none => exact hget
    | some claim =>
      rw [(Lapsing.get_delete_eq_some.mp hget).2] at hnone
      cases hnone
  exact h.of_keeps ⟨le_rfl, fun _ => id, fun _ => id, fun _ => id, fun _ => id,
    fun entry _ t => hlive entry.1 t⟩ rfl rfl rfl rfl rfl rfl
    (fun key' claim hget => (Lapsing.get_delete_eq_some.mp hget).2)
    fun entry hentry t hle hl => h.listed entry hentry t hle (hlive entry.1 t hl)

omit [DecidableEq δ] in
/-- An index is written that names every token of it for as long as its claim is there. -/
lemma Sound.setIndex (h : s.Sound) {index : IndexKey U} (held : List (TokenKey δ)) {end_ : ℕ}
    (hlisted : ∀ entry ∈ s.returned, indexFor entry.1 entry.2 = index → ∀ t, s.now ≤ t →
      s.Live t entry.1 → t < end_ ∧ entry.1 ∈ held) :
    ({ s with kv := s.kv.setIndex index held end_ } : TokenRun U δ).Sound := by
  refine h.of_keeps ⟨le_rfl, fun _ => id, fun _ => id, fun _ => id, fun _ => id,
    fun _ _ _ => id⟩ rfl rfl rfl rfl rfl rfl (fun _ _ => id) fun entry hentry t hle hlive => ?_
  simp only [TokenKv.setIndex]
  by_cases hindex : indexFor entry.1 entry.2 = index
  · obtain ⟨hlt, hmem⟩ := hlisted entry hentry hindex t hle hlive
    rw [hindex, Lapsing.get_set_self, if_pos (Lapsing.lasts_some.mpr hlt)]
    exact hmem
  · rw [Lapsing.get_set_of_ne hindex]
    exact h.listed entry hentry t hle hlive

omit [DecidableEq δ] in
/-- An index is deleted none of whose tokens is there any more. -/
lemma Sound.deleteIndex (h : s.Sound) {index : IndexKey U} (hnames : s.Names index []) :
    ({ s with kv := s.kv.deleteIndex index } : TokenRun U δ).Sound := by
  refine h.of_keeps ⟨le_rfl, fun _ => id, fun _ => id, fun _ => id, fun _ => id,
    fun _ _ _ => id⟩ rfl rfl rfl rfl rfl rfl (fun _ _ => id) fun entry hentry t hle hlive => ?_
  by_cases hindex : indexFor entry.1 entry.2 = index
  · exact absurd (hnames entry hentry hindex (live_mono hle hlive)) List.not_mem_nil
  · simp only [TokenKv.deleteIndex]
    rw [Lapsing.get_delete_of_ne hindex]
    exact h.listed entry hentry t hle hlive

variable (claim) in
omit [DecidableEq U] in
/-- A new token is stored. -/
lemma Sound.store (h : s.Sound) (end_ : ℕ) (hpending : s.Pending key)
    (howns : ∀ j opened, s.calls j = some opened → opened.call.owns ≠ some key.digest) :
    ({ s with
      kv := s.kv.setClaim key claim end_
      stored := (key, claim) :: s.stored } : TokenRun U δ).Sound := by
  have hne : ∀ entry ∈ s.stored, entry.1 ≠ key :=
    fun entry hentry heq => hpending.2 entry hentry (congrArg TokenKey.digest heq)
  have hget : ∀ entry ∈ s.stored, ∀ t,
      (s.kv.setClaim key claim end_).claims.get t entry.1 = s.kv.claims.get t entry.1 :=
    fun entry hentry t => Lapsing.get_set_of_ne (hne entry hentry)
  have hkeeps : Keeps s { s with
      kv := s.kv.setClaim key claim end_, stored := (key, claim) :: s.stored } :=
    ⟨le_rfl, fun _ => id, fun _ => List.mem_cons_of_mem _, fun _ => id, fun _ => id,
      fun entry hentry t hlive => by rwa [Live, hget entry hentry t] at hlive⟩
  refine ⟨h.begun, ?_, ?_, ?_, ?_, ?_, ?_, h.owners, h.spenders, h.holders, h.once, ?_, ?_, ?_⟩
  · intro entry hentry
    rcases List.mem_cons.mp hentry with rfl | hentry
    · exact hpending.1
    · exact h.made entry hentry
  · rw [List.map_cons, List.nodup_cons]
    refine ⟨fun hmem => ?_, h.unique⟩
    obtain ⟨entry, hentry, hdigest⟩ := List.mem_map.mp hmem
    exact hpending.2 entry hentry hdigest
  · intro key' claim' hget'
    rcases Lapsing.get_set_eq_some.mp hget' with ⟨rfl, -, rfl⟩ | ⟨-, hget'⟩
    · exact List.mem_cons_self
    · exact List.mem_cons_of_mem _ (h.present key' claim' hget')
  · exact fun entry hentry => List.mem_cons_of_mem _ (h.returned entry hentry)
  · intro entry hentry t hle hlive
    exact h.listed entry hentry t hle (hkeeps.live entry (h.returned entry hentry) t hlive)
  · intro j opened hj
    refine hkeeps.callSound h.returned (h.calls j opened hj) (fun digest hdigest entry hentry => ?_)
      fun _ _ entry hentry _ => hentry
    rcases List.mem_cons.mp hentry with rfl | hentry
    · right
      rintro rfl
      exact howns j opened hj hdigest
    · exact .inl hentry
  · intro redemption hr
    obtain ⟨hstored, hrest⟩ := h.redeemed redemption hr
    exact ⟨List.mem_cons_of_mem _ hstored, hrest⟩
  · exact fun redemption hr => ⟨hkeeps.spent (h.used redemption hr).1, (h.used redemption hr).2⟩
  · exact fun key hkey => hkeeps.spent (h.revoked key hkey)

/-! ### Steps -/

omit [DecidableEq U] [DecidableEq δ] in
lemma generated_of_owns {opened : OpenCall U δ} {digest : δ} (h : s.CallSound opened)
    (howns : opened.call.owns = some digest) : digest ∈ s.generated := by
  obtain ⟨call, targets, late⟩ := opened
  cases call with
  | stamp key =>
    obtain rfl := Option.some.inj howns
    exact h.1
  | setClaim key =>
    obtain rfl := Option.some.inj howns
    exact h.1
  | _ => cases howns

omit [DecidableEq U] in
/-- A `consume` that has read a claim has still to delete it, or has deleted it. -/
lemma deletes_or_spent {opened : OpenCall U δ} (h : s.CallSound opened)
    (hspends : opened.call.spends = some key) :
    opened.call.deletes key = true ∨ s.Spent key := by
  obtain ⟨call, targets, late⟩ := opened
  cases call with
  | deleteClaim key' =>
    obtain rfl := Option.some.inj hspends
    exact .inl (decide_eq_true rfl)
  | lookIndex key' =>
    obtain rfl := Option.some.inj hspends
    exact .inr h.2.2
  | retainIndex key' =>
    obtain rfl := Option.some.inj hspends
    exact .inr h.1.2.2
  | checkExpiry key' =>
    obtain rfl := Option.some.inj hspends
    exact .inr h.2.2
  | _ => cases hspends

omit [DecidableEq U] [DecidableEq δ] in
/-- A revocation is through with its tokens when what it has read of the index is deleted. -/
lemma Sound.spent_of_targets (h : s.Sound) {index : IndexKey U} {targets : List (TokenKey δ)}
    (htargets : s.Targets index targets) (hnames : s.Names index []) :
    ∀ key ∈ targets, s.Spent key := by
  intro key hkey
  obtain ⟨claim, hreturned, hindex⟩ := htargets key hkey
  exact ⟨⟨claim, h.returned _ hreturned⟩,
    fun hlive => List.not_mem_nil (hnames _ hreturned hindex hlive)⟩

omit [DecidableEq U] [DecidableEq δ] in
/-- What a call finds in an index names its tokens. -/
lemma Sound.names (h : s.Sound) (index : IndexKey U) :
    s.Names index ((s.kv.index.get s.now index).getD []) := by
  rintro entry hentry rfl hlive
  exact h.listed entry hentry s.now le_rfl hlive

omit [DecidableEq U] [DecidableEq δ] in
/-- An index that is written back in order lasts for as long as its tokens. -/
lemma lt_of_not_cutsShort {held : List (TokenKey δ)} {ttl t : ℕ}
    (hshort : ∀ key ∈ held, s.kv.claims.get (s.now + ttl) key = none) {key : TokenKey δ}
    (hkey : key ∈ held) (hlive : s.Live t key) : t < s.now + ttl := by
  by_contra hle
  exact live_mono (Nat.le_of_not_lt hle) hlive (hshort key hkey)

/-- The parts of a state in which a call has taken its step. -/
lemma sound_go {generated : δ} {opened : OpenCall U δ} (h : s.Sound)
    (hi : s.calls i = some opened) (hnew : s.makesAgain generated opened.call = false)
    (horderly : s.orderly (.go i generated) = true)
    (hstep : s.step (.go i generated) = some s') : s'.Sound := by
  have hbegun : i ∈ s.begun := h.begun i opened hi
  have hsound := h.calls i opened hi
  have hleft := h.leave i
  -- no other call is where this one cuts in
  have hothers : ∀ j other, Function.update s.calls i none j = some other →
      j ≠ i ∧ s.calls j = some other := fun j other hj => update_none_eq_some.1 hj
  obtain ⟨call, targets, late⟩ := opened
  simp only [orderly, hi, Bool.and_eq_true, Bool.not_eq_true', List.all_eq_true] at horderly
  obtain ⟨hshort, hcuts⟩ := horderly
  have hcuts' : ∀ j other, s.calls j = some other → s.cutsIn call other.call = false := by
    intro j other hj
    have hall := hcuts j (h.begun j other hj)
    rw [hj] at hall
    simpa using hall
  have hreads : ∀ index, call.reads = some index → ∀ j other, s.calls j = some other →
      other.call.holds ≠ some index := by
    intro index hindex j other hj hheld
    have hcut := hcuts' j other hj
    simp only [cutsIn, hindex, hheld, decide_true, Bool.or_true] at hcut
    cases hcut
  have hshort' : ∀ held ttl, call.rewrites = some (held, ttl) →
      ∀ key ∈ held, s.kv.claims.get (s.now + ttl) key = none := by
    intro held ttl hrewrites key hkey
    simp only [cutsShort, hrewrites] at hshort
    simpa using List.any_eq_false.mp hshort key hkey
  have hput : ∀ o, Function.update (Function.update s.calls i none) i o =
      Function.update s.calls i o := fun o => Function.update_idem _ _ _
  simp only [step, hi, hnew, Bool.false_eq_true, if_false] at hstep
  cases call with
  | generate purpose subject destination ttl =>
    obtain rfl := Option.some.inj hstep
    have hfresh : generated ∉ s.generated := of_decide_eq_false hnew
    have hs := (hleft.generate generated).enter (i := i)
      ⟨.stamp ⟨purpose, generated⟩ subject destination ttl, targets, late⟩ hbegun
      ⟨List.mem_cons_self, fun entry hentry heq => hfresh (Eq.mp (congrArg (· ∈ s.generated) heq)
        (h.made entry hentry))⟩ ?_
      (by rintro _ ⟨⟩) (by rintro _ ⟨⟩)
    · simp only [hput] at hs
      exact hs
    · rintro _ ⟨⟩ j other hj howns
      exact hfresh (generated_of_owns (h.calls j other (hothers j other hj).2) howns)
  | stamp key subject destination ttl =>
    obtain rfl := Option.some.inj hstep
    have hs := hleft.enter (i := i)
      ⟨.setClaim key ⟨subject, destination, s.now, expiryOf s.now ttl⟩ ttl, targets,
        late⟩ hbegun hsound ?_ (by rintro _ ⟨⟩) (by rintro _ ⟨⟩)
    · simp only [hput] at hs
      exact hs
    · rintro _ ⟨⟩ j other hj
      exact h.owners i j _ other _ (Ne.symm (hothers j other hj).1) hi (hothers j other hj).2 rfl
  | setClaim key claim ttl =>
    obtain rfl := Option.some.inj hstep
    have hstore := hleft.store claim (s.now + ttl) hsound
      fun j other hj => h.owners i j _ other _ (Ne.symm (hothers j other hj).1) hi
        (hothers j other hj).2 rfl
    have hs := hstore.enter (i := i) ⟨.readIndex key claim ttl, targets, late⟩ hbegun
      ⟨List.mem_cons_self, fun t hle hlive => hlive ?_⟩ (by rintro _ ⟨⟩) (by rintro _ ⟨⟩)
      (by rintro _ ⟨⟩)
    · simp only [hput] at hs
      exact hs
    · have hnot : ¬ Lapsing.Lasts (some (s.now + ttl)) t := fun hlasts =>
        Nat.not_lt.mpr hle (Lapsing.lasts_some.mp hlasts)
      exact Lapsing.get_set_self.trans (if_neg hnot)
  | readIndex key claim ttl =>
    obtain rfl := Option.some.inj hstep
    have hs := hleft.enter (i := i) ⟨.pushIndex key claim ttl
      ((s.kv.index.get s.now (indexFor key claim)).getD []), targets, late⟩ hbegun
      ⟨hsound, h.names _⟩ (by rintro _ ⟨⟩) (by rintro _ ⟨⟩) ?_
    · simp only [hput] at hs
      exact hs
    · rintro _ ⟨⟩ j other hj
      exact hreads _ rfl j other (hothers j other hj).2
  | pushIndex key claim ttl held =>
    obtain rfl := Option.some.inj hstep
    obtain ⟨⟨hstored, hend⟩, hnames⟩ := hsound
    have hindex := hleft.setIndex (held ++ [key]) fun entry hentry heq t hle hlive => by
        have hmem := hnames entry hentry heq (live_mono hle hlive)
        exact ⟨lt_of_not_cutsShort (hshort' held ttl rfl) hmem hlive,
          List.mem_append_left _ hmem⟩
    refine hindex.return_ hstored (fun t hle hlive => ?_) fun j other hj => ?_
    · have hlt : t < s.now + ttl := by
        by_contra hnot
        exact hend t (Nat.le_of_not_lt hnot) hlive
      simp only [TokenKv.setIndex]
      rw [Lapsing.get_set_self, if_pos (Lapsing.lasts_some.mpr hlt)]
      exact List.mem_append_right _ List.mem_cons_self
    · exact h.holders i j _ other _ (Ne.symm (hothers j other hj).1) hi (hothers j other hj).2 rfl
  | getClaim key =>
    cases hget : s.kv.claims.get s.now key with
    | none =>
      simp only [TokenCall.advance, hget] at hstep
      obtain rfl := Option.some.inj hstep
      exact hleft
    | some claim =>
      simp only [TokenCall.advance, hget] at hstep
      obtain rfl := Option.some.inj hstep
      have hlive : s.Live s.now key := by
        rw [Live, hget]
        exact Option.some_ne_none claim
      have hs := hleft.enter (i := i) ⟨.deleteClaim key claim, targets, late⟩ hbegun
        ⟨h.present key claim hget, ?_⟩ (by rintro _ ⟨⟩) ?_ (by rintro _ ⟨⟩)
      · simp only [hput] at hs
        exact hs
      · cases late with
        | false => rfl
        | true => exact absurd hlive (h.revoked key (hsound rfl)).2
      · rintro _ ⟨⟩
        refine ⟨fun j other hj hspends => ?_, fun redemption hr heq => ?_⟩
        · have hj' := (hothers j other hj).2
          rcases deletes_or_spent (h.calls j other hj') hspends with hdeletes | hspent
          · have hcut := hcuts' j other hj'
            simp only [cutsIn, hget, hdeletes, Option.isSome_some, Bool.true_and,
              Bool.true_or] at hcut
            cases hcut
          · exact hspent.2 hlive
        · exact (h.used redemption hr).1.2 (heq ▸ hlive)
  | deleteClaim key claim =>
    obtain rfl := Option.some.inj hstep
    have hs := (hleft.deleteClaim key).enter (i := i)
      ⟨.lookIndex key claim, targets, late⟩ hbegun
      ⟨hsound.1, hsound.2, ⟨claim, hsound.1⟩, fun hlive => hlive Lapsing.get_delete_self⟩
      (by rintro _ ⟨⟩) ?_ (by rintro _ ⟨⟩)
    · simp only [hput] at hs
      exact hs
    · rintro _ ⟨⟩
      refine ⟨fun j other hj => ?_, fun redemption hr heq => ?_⟩
      · exact h.spenders i j _ other _ (Ne.symm (hothers j other hj).1) hi (hothers j other hj).2
          rfl
      · exact (h.used redemption hr).2 i _ hi (congrArg some heq.symm)
  | lookIndex key claim =>
    have hspenders : (∀ j other, Function.update s.calls i none j = some other →
        other.call.spends ≠ some key) ∧ ∀ redemption ∈ s.redeemed, redemption.key ≠ key := by
      refine ⟨fun j other hj => ?_, fun redemption hr heq => ?_⟩
      · exact h.spenders i j _ other _ (Ne.symm (hothers j other hj).1) hi (hothers j other hj).2
          rfl
      · exact (h.used redemption hr).2 i _ hi (congrArg some heq.symm)
    cases hget : s.kv.index.get s.now (indexFor key claim) with
    | none =>
      simp only [TokenCall.advance, hget] at hstep
      obtain rfl := Option.some.inj hstep
      have hs := hleft.enter (i := i) ⟨.checkExpiry key claim, targets, late⟩ hbegun
        hsound (by rintro _ ⟨⟩) (by rintro _ ⟨⟩; exact hspenders) (by rintro _ ⟨⟩)
      simp only [hput] at hs
      exact hs
    | some held =>
      simp only [TokenCall.advance, hget] at hstep
      obtain rfl := Option.some.inj hstep
      have hnames := h.names (indexFor key claim)
      rw [hget] at hnames
      have hs := hleft.enter (i := i) ⟨.retainIndex key claim held, targets, late⟩
        hbegun ⟨hsound, hnames⟩ (by rintro _ ⟨⟩) (by rintro _ ⟨⟩; exact hspenders) ?_
      · simp only [hput] at hs
        exact hs
      · rintro _ ⟨⟩ j other hj
        exact hreads _ rfl j other (hothers j other hj).2
  | retainIndex key claim held =>
    obtain rfl := Option.some.inj hstep
    obtain ⟨hsound, hnames⟩ := hsound
    have hindex := hleft.setIndex _
      fun entry hentry heq t hle hlive => by
        have hlive' := live_mono hle hlive
        have hne : entry.1 ≠ key := fun hkey => hsound.2.2.2 (hkey ▸ hlive')
        have hmem : entry.1 ∈ held.filter fun entry => entry ≠ key :=
          List.mem_filter.mpr ⟨hnames entry hentry heq hlive', decide_eq_true hne⟩
        exact ⟨lt_of_not_cutsShort (hshort' _ _ rfl) hmem hlive, hmem⟩
    have hs := hindex.enter (i := i) ⟨.checkExpiry key claim, targets, late⟩ hbegun
      hsound (by rintro _ ⟨⟩) ?_ (by rintro _ ⟨⟩)
    · simp only [hput] at hs
      exact hs
    · rintro _ ⟨⟩
      refine ⟨fun j other hj => ?_, fun redemption hr heq => ?_⟩
      · exact h.spenders i j _ other _ (Ne.symm (hothers j other hj).1) hi (hothers j other hj).2
          rfl
      · exact (h.used redemption hr).2 i _ hi (congrArg some heq.symm)
  | checkExpiry key claim =>
    obtain ⟨hstored, rfl, hspent⟩ := hsound
    by_cases hexpired : claim.expiresAt ≤ s.now
    · simp only [TokenCall.advance, if_pos hexpired] at hstep
      obtain rfl := Option.some.inj hstep
      exact hleft
    · simp only [TokenCall.advance, if_neg hexpired] at hstep
      obtain rfl := Option.some.inj hstep
      refine hleft.redeem hstored hspent (Nat.lt_of_not_le hexpired)
        (fun redemption hr heq => ?_) fun j other hj => ?_
      · exact (h.used redemption hr).2 i _ hi (congrArg some heq.symm)
      · exact h.spenders i j _ other _ (Ne.symm (hothers j other hj).1) hi (hothers j other hj).2
          rfl
  | getHeld index =>
    have hnames := h.names index
    cases hget : s.kv.index.get s.now index with
    | none =>
      rw [hget] at hnames
      simp only [TokenCall.advance, hget] at hstep
      obtain rfl := Option.some.inj hstep
      exact hleft.revoke (h.spent_of_targets hsound hnames)
    | some held =>
      rw [hget] at hnames
      simp only [TokenCall.advance, hget] at hstep
      obtain rfl := Option.some.inj hstep
      have hs := hleft.enter (i := i) ⟨.deleteHeld index held 0, targets, late⟩ hbegun
        ⟨hsound, hnames⟩ (by rintro _ ⟨⟩) (by rintro _ ⟨⟩) ?_
      · simp only [hput] at hs
        exact hs
      · rintro _ ⟨⟩ j other hj
        exact hreads _ rfl j other (hothers j other hj).2
  | deleteHeld index held revoked =>
    obtain ⟨htargets, hnames⟩ := hsound
    cases held with
    | nil =>
      obtain rfl := Option.some.inj hstep
      exact (hleft.deleteIndex hnames).revoke (h.spent_of_targets htargets hnames)
    | cons key held =>
      obtain rfl := Option.some.inj hstep
      have hs := (hleft.deleteClaim key).enter (i := i)
        ⟨.deleteHeld index held
          (if (s.kv.claims.get s.now key).isSome then revoked + 1 else revoked), targets, late⟩
        hbegun ⟨htargets, fun entry hentry heq hlive => ?_⟩ (by rintro _ ⟨⟩) (by rintro _ ⟨⟩) ?_
      · simp only [hput] at hs
        exact hs
      · have hne : entry.1 ≠ key := by
          rintro rfl
          exact hlive Lapsing.get_delete_self
        have hget : (s.kv.deleteClaim key).claims.get s.now entry.1 =
            s.kv.claims.get s.now entry.1 := Lapsing.get_delete_of_ne hne
        have hlive' : s.Live s.now entry.1 := fun hnone => hlive (hget.trans hnone)
        exact (List.mem_cons.mp (hnames entry hentry heq hlive')).resolve_left hne
      · rintro _ ⟨⟩ j other hj
        exact h.holders i j _ other _ (Ne.symm (hothers j other hj).1) hi (hothers j other hj).2
          rfl

omit [DecidableEq U] [DecidableEq δ] in
/-- A call is begun that has nothing yet. -/
lemma sound_begin {opened : OpenCall U δ} (h : s.Sound) (hstep : s.begin_ i opened = some s')
    (hsound : s.CallSound opened) (howns : opened.call.owns = none)
    (hspends : opened.call.spends = none) (hholds : opened.call.holds = none) : s'.Sound := by
  rw [begin_] at hstep
  split at hstep
  · cases hstep
  · obtain rfl := Option.some.inj hstep
    have hbegun : ({ s with begun := i :: s.begun } : TokenRun U δ).Sound :=
      { h with begun := fun j opened hj => List.mem_cons_of_mem _ (h.begun j opened hj) }
    refine hbegun.enter (i := i) _ List.mem_cons_self hsound (fun digest heq => ?_)
      (fun key heq => ?_) fun index heq => ?_
    · rw [howns] at heq
      cases heq
    · rw [hspends] at heq
      cases heq
    · rw [hholds] at heq
      cases heq

lemma sound_step {event : TokenEvent U δ} (h : s.Sound) (horderly : s.orderly event = true)
    (hstep : s.step event = some s') : s'.Sound := by
  cases event with
  | wait millis =>
    obtain rfl := Option.some.inj hstep
    exact h.wait millis
  | issue i purpose subject destination ttl => exact sound_begin h hstep trivial rfl rfl rfl
  | consume i purpose digest =>
    exact sound_begin h hstep (fun hlate => of_decide_eq_true hlate) rfl rfl rfl
  | revokeAll i purpose subject =>
    refine sound_begin h hstep (fun key hkey => ?_) rfl rfl rfl
    obtain ⟨entry, hentry, rfl⟩ := List.mem_map.mp hkey
    obtain ⟨hreturned, hindex⟩ := List.mem_filter.mp hentry
    exact ⟨entry.2, hreturned, of_decide_eq_true hindex⟩
  | go i generated =>
    cases hi : s.calls i with
    | none =>
      simp only [step, hi] at hstep
      cases hstep
    | some opened =>
      cases hnew : s.makesAgain generated opened.call with
      | true =>
        simp only [step, hi, hnew, if_true] at hstep
        cases hstep
      | false => exact sound_go h hi hnew horderly hstep

omit [DecidableEq U] [DecidableEq δ] in
lemma sound_start : (start : TokenRun U δ).Sound where
  begun j opened hj := by cases hj
  made entry hentry := by cases hentry
  unique := List.nodup_nil
  present key claim hget := by cases hget
  returned entry hentry := by cases hentry
  listed entry hentry := by cases hentry
  calls j opened hj := by cases hj
  owners := Parties.apart_none
  spenders := Parties.apart_none
  holders := Parties.apart_none
  once := List.nodup_nil
  redeemed redemption hr := by cases hr
  used redemption hr := by cases hr
  revoked key hkey := by cases hkey

/-- In every run in which no call cuts in on another or cuts an index short, tokens are redeemed
once, for their purpose, in time, and never once they are revoked. -/
theorem always_singleUse {events : List (TokenEvent U δ)}
    (horderly : Machine.Meets step (fun s event => s.orderly event = true) start events) :
    Machine.Always step SingleUse (start : TokenRun U δ) events :=
  (Machine.always_of_meets (fun _ _ _ h horderly hstep => sound_step h horderly hstep)
    sound_start horderly).mono fun _ h => h.singleUse

/-- A token for a day is issued, by five commands. -/
def issued (i token : ℕ) : List (TokenEvent String ℕ) :=
  [.issue i .verifyEmail "ada" "ada@example.com" 86400000, .go i token, .go i 0, .go i 0, .go i 0,
    .go i 0]

/-- A token is issued and consumed, another is issued and revoked, and is then presented. -/
theorem always_singleUse_one_by_one :
    Machine.Always step SingleUse start
      (issued 0 1 ++ [.consume 1 .verifyEmail 1, .go 1 0, .go 1 0, .go 1 0, .go 1 0, .go 1 0] ++
        issued 2 2 ++ [.revokeAll 3 .verifyEmail "ada", .go 3 0, .go 3 0, .go 3 0,
          .consume 4 .verifyEmail 2, .go 4 0]) :=
  always_singleUse (by decide)

/-- Two calls that consume one token both read its claim before the first of them deletes it. -/
def twice : List (TokenEvent String ℕ) :=
  issued 0 1 ++ [.consume 1 .verifyEmail 1, .consume 2 .verifyEmail 1, .go 1 0, .go 2 0, .go 1 0,
    .go 1 0, .go 1 0, .go 1 0, .go 2 0, .go 2 0, .go 2 0, .go 2 0]

/-- One of two tokens is consumed, which leaves an index of an hour; a revocation after that hour
misses the other token. -/
def missed : List (TokenEvent String ℕ) :=
  issued 0 1 ++ issued 1 2 ++ [.consume 2 .verifyEmail 1, .go 2 0, .go 2 0, .go 2 0, .go 2 0,
    .go 2 0, .wait 3600000, .revokeAll 3 .verifyEmail "ada", .go 3 0, .consume 4 .verifyEmail 2,
    .go 4 0, .go 4 0, .go 4 0, .go 4 0]

/-- A token is redeemed twice, and a token is redeemed that had been revoked. -/
theorem always_singleUse_fails :
    ¬ Machine.Always step SingleUse (start : TokenRun String ℕ) twice ∧
      ¬ Machine.Always step SingleUse (start : TokenRun String ℕ) missed := by
  constructor
  · intro h
    obtain ⟨s, hs⟩ : ∃ s, Machine.exec step (start : TokenRun String ℕ) twice = some s :=
      Option.isSome_iff_exists.mp (by decide)
    have hredeemed : (Machine.exec step (start : TokenRun String ℕ) twice).map
        (fun s => s.redeemed.map fun redemption => redemption.key.digest) = some [1, 1] := by
      decide
    rw [hs, Option.map_some, Option.some.injEq] at hredeemed
    have hnodup := (h.of_exec hs).1
    rw [hredeemed] at hnodup
    exact absurd hnodup (by decide)
  · intro h
    obtain ⟨s, hs⟩ : ∃ s, Machine.exec step (start : TokenRun String ℕ) missed = some s :=
      Option.isSome_iff_exists.mp (by decide)
    have hredeemed : (Machine.exec step (start : TokenRun String ℕ) missed).map
        (fun s => s.redeemed.all fun redemption => !redemption.late) = some false := by
      decide
    rw [hs] at hredeemed
    have hall : s.redeemed.all (fun redemption => !redemption.late) = true := by
      rw [List.all_eq_true]
      intro redemption hr
      rw [((h.of_exec hs).2 redemption hr).2.2]
      rfl
    rw [Option.map_some, hall] at hredeemed
    cases hredeemed

end TokenRun

end Moso.Auth
