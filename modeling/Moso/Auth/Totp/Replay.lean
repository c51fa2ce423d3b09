import Moso.Auth.Totp
import Moso.Foundation.Machine

/-!
# Periods that are spent twice

The requests of one account that consume a code, side by side: each reads an enrolment, checks its
code against what it has read, and writes back what it made of it, or deletes it. Between any two
of these the others may do anything.
-/

namespace Moso.Auth

/-- What a request is to do with a code. -/
inductive TotpCall where
  /-- The second step of a login, or the code of a token request. -/
  | signIn (code : String)
  /-- `DatabaseBackend::second_step`, with a challenge of its own. -/
  | signInWithRow (code : String)
  | confirm (code : String)
  | disable (code : String)
  deriving DecidableEq

def TotpCall.code : TotpCall → String
  | signIn code | signInWithRow code | confirm code | disable code => code

/-- How far a request is. -/
inductive TotpProgress where
  | begun
  /-- It has read an enrolment. -/
  | read (enrolment : StoredTotp)
  /-- Its code was accepted for a period, and the enrolment is to be written back or deleted. -/
  | accepted (enrolment : StoredTotp) (period : ℕ)
  /-- It has confirmed the enrolment, and the pending one is to be deleted. -/
  | confirmed

/-- What is left to do when a code was accepted: a confirmation has to delete the pending
enrolment. -/
def TotpCall.rest : TotpCall → Option TotpProgress
  | confirm _ => some .confirmed
  | _ => none

/-- What is stored of an account. -/
structure TotpStore where
  pending : Option StoredTotp
  confirmed : Option StoredTotp
  /-- The secret and the last period in the row of the user. -/
  row : Option StoredTotp

namespace TotpStore

/-- The enrolment that a request reads. -/
def find (store : TotpStore) : TotpCall → Option StoredTotp
  | .signIn _ | .disable _ => store.confirmed
  | .signInWithRow _ => store.row
  | .confirm _ => store.pending

/-- What a request makes of the store when its code was accepted. -/
def settle (store : TotpStore) (enrolment : StoredTotp) (period : ℕ) : TotpCall → TotpStore
  | .signIn _ | .confirm _ => { store with confirmed := some (enrolment.consume period) }
  -- the update sets the one column, whatever the row has become
  | .signInWithRow _ => { store with row := store.row.map fun row => row.consume period }
  | .disable _ => { store with confirmed := none }

end TotpStore

structure TotpRun (ι : Type) where
  store : TotpStore
  running : ι → Option (TotpCall × TotpProgress)
  /-- The periods that were accepted, with the secret, in order. -/
  accepted : List (TotpSecret × ℕ)
  /-- The periods that were accepted for the row, in order. -/
  acceptedRow : List ℕ
  /-- The secrets of the enrolments that were disabled. -/
  disabled : List TotpSecret

inductive TotpEvent (ι : Type) where
  | start (i : ι) (call : TotpCall)
  /-- A request does its next step, at this time. -/
  | run (i : ι) (at_ : ℕ)
  /-- A request ends early: it is cut off, or a store fails. -/
  | stop (i : ι)

namespace TotpRun

variable {ι : Type} [DecidableEq ι]

def init (store : TotpStore) : TotpRun ι :=
  { store := store, running := fun _ => none, accepted := [], acceptedRow := [], disabled := [] }

variable (totp : Totp) (codeFor : CodeForCounter) (s : TotpRun ι)

/-- The request goes on, or ends. -/
def goOn (i : ι) (call : TotpCall) (progress : Option TotpProgress) : TotpRun ι :=
  { s with running := Function.update s.running i (progress.map fun progress => (call, progress)) }

/-- What is on record of a code that was accepted. -/
def note (enrolment : StoredTotp) (period : ℕ) : TotpCall → TotpRun ι
  | .signInWithRow _ => { s with acceptedRow := s.acceptedRow ++ [period] }
  | .disable _ =>
    { s with
      accepted := s.accepted ++ [(enrolment.secret, period)]
      disabled := s.disabled ++ [enrolment.secret] }
  | _ => { s with accepted := s.accepted ++ [(enrolment.secret, period)] }

def step (s : TotpRun ι) : TotpEvent ι → Option (TotpRun ι)
  | .start i call =>
    match s.running i with
    | some _ => none
    | none   => some (s.goOn i call (some .begun))
  | .run i at_ =>
    match s.running i with
    | none => none
    | some (call, .begun) => some (s.goOn i call ((s.store.find call).map .read))
    | some (call, .read enrolment) =>
      match enrolment.accept totp codeFor call.code at_ with
      | .ok (some period) => some (s.goOn i call (some (.accepted enrolment period)))
      | _ => some (s.goOn i call none)
    | some (call, .accepted enrolment period) =>
      some { s.note enrolment period call with
        store := s.store.settle enrolment period call
        running := (s.goOn i call call.rest).running }
    | some (call, .confirmed) =>
      some { s.goOn i call none with store := { s.store with pending := none } }
  | .stop i =>
    match s.running i with
    | none => none
    | some (call, _) => some (s.goOn i call none)

/-- No period was accepted twice for an enrolment, nor one before another that had been accepted;
and an enrolment that was disabled has not come back. -/
def SpentOnce (s : TotpRun ι) : Prop :=
  (s.accepted.Pairwise fun a b => a.1 = b.1 → a.2 < b.2) ∧ s.acceptedRow.Pairwise (· < ·) ∧
    ∀ enrolment ∈ s.store.confirmed, enrolment.secret ∉ s.disabled

end TotpRun

namespace TotpStore

/-- What is stored goes with what a request has read: the enrolment is still there, and no period
as new was accepted since. An enrolment is confirmed only once, and not disabled while it is also
pending. -/
def Permits (store : TotpStore) (enrolment : StoredTotp) (period : ℕ) : TotpCall → Prop
  | .signIn _ => ∃ e ∈ store.confirmed, e.secret = enrolment.secret ∧ e.newer period = true
  | .signInWithRow _ => ∃ row ∈ store.row, row.newer period = true
  | .confirm _ => (∃ q ∈ store.pending, q.secret = enrolment.secret) ∧
      ∀ e ∈ store.confirmed, e.secret ≠ enrolment.secret
  | .disable _ => (∃ e ∈ store.confirmed, e.secret = enrolment.secret ∧ e.newer period = true) ∧
      ∀ q ∈ store.pending, q.secret ≠ enrolment.secret

end TotpStore

namespace TotpRun

variable {ι : Type}

/-- A request whose code was accepted finds the store in keeping with what it has read. -/
def FindsAsRead (s : TotpRun ι) : TotpEvent ι → Prop
  | .run i _ => ∀ call enrolment period, s.running i = some (call, .accepted enrolment period) →
      s.store.Permits enrolment period call
  | _ => True

/-- What was accepted is on record in what is stored. -/
structure Recorded (s : TotpRun ι) : Prop where
  ordered : s.accepted.Pairwise fun a b => a.1 = b.1 → a.2 < b.2
  below : ∀ e ∈ s.store.confirmed, ∀ a ∈ s.accepted, a.1 = e.secret →
    ∃ last ∈ e.lastPeriod, a.2 ≤ last
  live : ∀ e ∈ s.store.confirmed, e.secret ∉ s.disabled
  fresh : ∀ q ∈ s.store.pending, q.secret ∉ s.disabled ∧
    ∀ a ∈ s.accepted, a.1 = q.secret → ∃ e ∈ s.store.confirmed, e.secret = q.secret
  rowOrdered : s.acceptedRow.Pairwise (· < ·)
  rowBelow : ∀ row ∈ s.store.row, ∀ p ∈ s.acceptedRow, ∃ last ∈ row.lastPeriod, p ≤ last

namespace Recorded

variable {s : TotpRun ι} {enrolment e : StoredTotp} {secret : TotpSecret} {period : ℕ}

/-- A period that is newer than the last one is newer than all of them. -/
lemma lt_of_newer (hs : s.Recorded) (hmem : e ∈ s.store.confirmed) (hnewer : e.newer period = true)
    {a : TotpSecret × ℕ} (ha : a ∈ s.accepted) (hsecret : a.1 = e.secret) : a.2 < period := by
  obtain ⟨last, hlast, hle⟩ := hs.below e hmem a ha hsecret
  rw [StoredTotp.newer, Option.mem_def.mp hlast] at hnewer
  exact lt_of_le_of_lt hle (of_decide_eq_true hnewer)

lemma ordered_append (hs : s.Recorded)
    (h : ∀ a ∈ s.accepted, a.1 = secret → a.2 < period) :
    (s.accepted ++ [(secret, period)]).Pairwise fun a b => a.1 = b.1 → a.2 < b.2 := by
  refine List.pairwise_append.mpr ⟨hs.ordered, List.pairwise_singleton _ _, fun a ha b hb => ?_⟩
  obtain rfl := List.mem_singleton.mp hb
  exact h a ha

/-- The accepted periods are all below the one that is written back. -/
lemma below_append (h : ∀ a ∈ s.accepted, a.1 = enrolment.secret → a.2 < period) :
    ∀ e ∈ some (enrolment.consume period), ∀ a ∈ s.accepted ++ [(enrolment.secret, period)],
      a.1 = e.secret → ∃ last ∈ e.lastPeriod, a.2 ≤ last := by
  rintro _ ⟨⟩ a ha hsecret
  refine ⟨period, rfl, ?_⟩
  rcases List.mem_append.mp ha with ha | ha
  · exact (h a ha hsecret).le
  · obtain rfl := List.mem_singleton.mp ha
    exact le_rfl

end Recorded

variable {totp : Totp} {codeFor : CodeForCounter} {s s' : TotpRun ι} {e : TotpEvent ι}
  {call : TotpCall} {enrolment : StoredTotp} {period : ℕ}

/-- A request whose code was accepted writes back what goes with the record. -/
lemma recorded_settle (hs : s.Recorded) (hpermits : s.store.Permits enrolment period call)
    (running : ι → Option (TotpCall × TotpProgress)) :
    Recorded { s.note enrolment period call with
      store := s.store.settle enrolment period call, running := running } := by
  cases call with
  | signIn code =>
    obtain ⟨e, hmem, hsecret, hnewer⟩ := hpermits
    have hlt : ∀ a ∈ s.accepted, a.1 = enrolment.secret → a.2 < period :=
      fun a ha ha' => hs.lt_of_newer hmem hnewer ha (ha'.trans hsecret.symm)
    refine ⟨hs.ordered_append hlt, Recorded.below_append hlt, ?_, ?_, hs.rowOrdered, hs.rowBelow⟩
    · rintro _ ⟨⟩
      exact hsecret ▸ hs.live e hmem
    · intro q hq
      obtain ⟨hdisabled, haccepted⟩ := hs.fresh q hq
      refine ⟨hdisabled, fun a ha hq' => ⟨_, rfl, ?_⟩⟩
      rcases List.mem_append.mp ha with ha | ha
      · obtain ⟨e', hmem', hsecret'⟩ := haccepted a ha hq'
        obtain rfl : e = e' := Option.some.inj ((Option.mem_def.mp hmem).symm.trans hmem')
        exact hsecret.symm.trans hsecret'
      · obtain rfl := List.mem_singleton.mp ha
        exact hq'
  | signInWithRow code =>
    obtain ⟨row, hmem, hnewer⟩ := hpermits
    have hlt : ∀ p ∈ s.acceptedRow, p < period := by
      intro p hp
      obtain ⟨last, hlast, hle⟩ := hs.rowBelow row hmem p hp
      rw [StoredTotp.newer, Option.mem_def.mp hlast] at hnewer
      exact lt_of_le_of_lt hle (of_decide_eq_true hnewer)
    refine ⟨hs.ordered, hs.below, hs.live, hs.fresh, ?_, ?_⟩
    · refine List.pairwise_append.mpr ⟨hs.rowOrdered, List.pairwise_singleton _ _, ?_⟩
      intro p hp p' hp'
      obtain rfl := List.mem_singleton.mp hp'
      exact hlt p hp
    · intro row' hrow' p hp
      obtain ⟨_, -, rfl⟩ := Option.map_eq_some_iff.mp hrow'
      refine ⟨period, rfl, ?_⟩
      rcases List.mem_append.mp hp with hp | hp
      · exact (hlt p hp).le
      · exact (List.mem_singleton.mp hp).le
  | confirm code =>
    obtain ⟨⟨q, hq, hsecret⟩, hconfirmed⟩ := hpermits
    obtain ⟨hdisabled, haccepted⟩ := hs.fresh q hq
    have hnone : ∀ a ∈ s.accepted, a.1 ≠ enrolment.secret := by
      intro a ha ha'
      obtain ⟨e, hmem, he⟩ := haccepted a ha (ha'.trans hsecret.symm)
      exact hconfirmed e hmem (he.trans hsecret)
    have hlt : ∀ a ∈ s.accepted, a.1 = enrolment.secret → a.2 < period :=
      fun a ha ha' => absurd ha' (hnone a ha)
    refine ⟨hs.ordered_append hlt, Recorded.below_append hlt, ?_, ?_, hs.rowOrdered, hs.rowBelow⟩
    · rintro _ ⟨⟩
      exact hsecret ▸ hdisabled
    · intro q' hq'
      obtain rfl : q = q' := Option.some.inj ((Option.mem_def.mp hq).symm.trans hq')
      exact ⟨hdisabled, fun _ _ _ => ⟨_, rfl, hsecret.symm⟩⟩
  | disable code =>
    obtain ⟨⟨e, hmem, hsecret, hnewer⟩, hpending⟩ := hpermits
    have hlt : ∀ a ∈ s.accepted, a.1 = enrolment.secret → a.2 < period :=
      fun a ha ha' => hs.lt_of_newer hmem hnewer ha (ha'.trans hsecret.symm)
    refine ⟨hs.ordered_append hlt, nofun, nofun, ?_, hs.rowOrdered, hs.rowBelow⟩
    intro q hq
    obtain ⟨hdisabled, haccepted⟩ := hs.fresh q hq
    constructor
    · intro hmem'
      rcases List.mem_append.mp hmem' with hmem' | hmem'
      · exact hdisabled hmem'
      · exact hpending q hq (List.mem_singleton.mp hmem')
    · intro a ha ha'
      rcases List.mem_append.mp ha with ha | ha
      · obtain ⟨e', hmem', he'⟩ := haccepted a ha ha'
        obtain rfl : e = e' := Option.some.inj ((Option.mem_def.mp hmem).symm.trans hmem')
        exact absurd (he'.symm.trans hsecret) (hpending q hq)
      · obtain rfl := List.mem_singleton.mp ha
        exact absurd ha'.symm (hpending q hq)

variable [DecidableEq ι]

/-- Every step keeps the record, if it finds the store as it was read. -/
lemma recorded_step (hs : s.Recorded) (hfinds : s.FindsAsRead e)
    (hstep : s.step totp codeFor e = some s') : s'.Recorded := by
  have hsame : ∀ running : ι → Option (TotpCall × TotpProgress),
      Recorded { s with running := running } :=
    fun _ => ⟨hs.ordered, hs.below, hs.live, hs.fresh, hs.rowOrdered, hs.rowBelow⟩
  cases e with
  | start i call =>
    rw [step] at hstep
    split at hstep
    · cases hstep
    · obtain rfl := Option.some.inj hstep
      exact hsame _
  | stop i =>
    rw [step] at hstep
    split at hstep
    · cases hstep
    · obtain rfl := Option.some.inj hstep
      exact hsame _
  | run i at_ =>
    rw [step] at hstep
    split at hstep
    · cases hstep
    · obtain rfl := Option.some.inj hstep
      exact hsame _
    · split at hstep <;> obtain rfl := Option.some.inj hstep <;> exact hsame _
    · next call enrolment period hrunning =>
      obtain rfl := Option.some.inj hstep
      exact recorded_settle hs (hfinds call enrolment period hrunning) _
    · obtain rfl := Option.some.inj hstep
      exact ⟨hs.ordered, hs.below, hs.live, nofun, hs.rowOrdered, hs.rowBelow⟩

instance (store : TotpStore) (enrolment : StoredTotp) (period : ℕ) :
    ∀ call, Decidable (store.Permits enrolment period call)
  | .signIn _ => inferInstanceAs (Decidable (∃ e ∈ store.confirmed, _))
  | .signInWithRow _ => inferInstanceAs (Decidable (∃ row ∈ store.row, _))
  | .confirm _ => inferInstanceAs (Decidable (_ ∧ ∀ e ∈ store.confirmed, _))
  | .disable _ => inferInstanceAs (Decidable (_ ∧ ∀ q ∈ store.pending, _))

/-- **The periods that are accepted for an enrolment are strictly increasing, and one that was
disabled does not come back, as long as each request whose code was accepted finds the store in
keeping with what it has read**, whatever the codes are. -/
theorem spentOnce_of_finds (store : TotpStore) (events : List (TotpEvent ι))
    (h : Machine.Meets (step totp codeFor) FindsAsRead (init store) events) :
    Machine.Always (step totp codeFor) SpentOnce (init store) events := by
  have hstart : Recorded (init store : TotpRun ι) :=
    ⟨.nil, fun _ _ => nofun, fun _ _ => List.not_mem_nil, fun _ _ => ⟨List.not_mem_nil, nofun⟩, .nil,
      fun _ _ => nofun⟩
  exact (Machine.always_of_meets (fun s e s' => recorded_step) hstart h).mono
    fun s hs => ⟨hs.ordered, hs.rowOrdered, hs.live⟩

instance (s : TotpRun ι) : ∀ e, Decidable (s.FindsAsRead e)
  | .start _ _ | .stop _ => isTrue trivial
  | .run i _ =>
    match h : s.running i with
    | some (call, .accepted enrolment period) =>
      decidable_of_iff (s.store.Permits enrolment period call) <| by
        simp only [FindsAsRead, h, Option.some.injEq, Prod.mk.injEq, TotpProgress.accepted.injEq]
        refine ⟨?_, fun hpermits => hpermits call enrolment period ⟨rfl, rfl, rfl⟩⟩
        rintro hpermits _ _ _ ⟨rfl, rfl, rfl⟩
        exact hpermits
    | none | some (_, .begun) | some (_, .read _) | some (_, .confirmed) =>
      isTrue <| by simp [FindsAsRead, h]

/-- The codes of three periods. -/
def threeCodes : CodeForCounter
  | _, 0 => .ok "314159"
  | _, 1 => .ok "265358"
  | _, _ => .ok "979323"

/-- An account with an enrolment that was just confirmed. -/
def confirmedStore : TotpStore :=
  { pending := none, confirmed := some { secret := "JBSWY3DP", lastPeriod := none }, row := none }

/-- A sign-in on its own, at this time. -/
def oneSignIn (code : String) (at_ : ℕ) : List (TotpEvent Bool) :=
  [.start false (.signIn code), .run false at_, .run false at_, .run false at_]

theorem spentOnce_of_finds_inTurn :
    Machine.Always (step {} threeCodes) SpentOnce (init confirmedStore)
      (oneSignIn "314159" 0 ++ oneSignIn "314159" 0 ++ oneSignIn "265358" 30) :=
  spentOnce_of_finds confirmedStore _ (by decide)

/-- Two sign-ins that read the enrolment before either has written it back accept one code. -/
theorem spentOnce_fails_sideBySide :
    ¬ Machine.Always (step {} threeCodes) SpentOnce (init confirmedStore)
      ([.start false (.signIn "314159"), .start true (.signIn "314159"), .run false 0, .run true 0,
        .run false 0, .run true 0, .run false 0, .run true 0] : List (TotpEvent Bool)) := by
  intro h
  have hrun : ∃ s, Machine.exec (step {} threeCodes) (init confirmedStore)
      ([.start false (.signIn "314159"), .start true (.signIn "314159"), .run false 0, .run true 0,
        .run false 0, .run true 0, .run false 0, .run true 0] : List (TotpEvent Bool)) = some s ∧
      s.accepted = [("JBSWY3DP", 0), ("JBSWY3DP", 0)] := ⟨_, rfl, by decide⟩
  obtain ⟨s, hrun, haccepted⟩ := hrun
  have hpairwise := (h.of_exec hrun).1
  rw [haccepted] at hpairwise
  exact absurd hpairwise (by decide)

/-- A sign-in that was in progress brings back the enrolment that is disabled meanwhile. -/
example : ∃ s, Machine.exec (step {} threeCodes) (init confirmedStore)
    ([.start false (.signIn "265358"), .run false 0, .run false 0, .start true (.disable "314159"),
      .run true 0, .run true 0, .run true 0, .run false 0] : List (TotpEvent Bool)) = some s ∧
    s.disabled = ["JBSWY3DP"] ∧ s.store.confirmed = some ⟨"JBSWY3DP", some 1⟩ :=
  ⟨_, rfl, by decide, by decide⟩

end TotpRun

end Moso.Auth
