import Moso.Auth.Session.Request

/-!
# Sessions that stay ended

A request may write somebody's record only under an identifier that it knows: one under which it
has found somebody's record, or one that it has generated. What it knows was not ended when it
came to know it; so as long as it does not write back what was ended since, nothing that was
ended comes back.
-/

namespace Moso.Auth

open Program (Obeys Discipline obeys_call obeys_last obeys_embed)

variable {κ U : Type}

namespace RequestCmd

/-- A record of somebody's is written only under a known identifier. -/
def Allows (known : List κ) : RequestCmd κ U → Prop
  | .store (.setTtl id record _) => record.id = id ∧ (record.userId ≠ none → id ∈ known)
  | _ => True

/-- A record is found under its own identifier. -/
def Expects : (c : RequestCmd κ U) → c.Answer → Prop
  | .store (.get id), .ok (some record) => record.id = id
  | _, _ => True

/-- What is known after an answer. -/
def learns (known : List κ) : (c : RequestCmd κ U) → c.Answer → List κ
  | .store (.get id), .ok (some record) => if record.userId.isSome then id :: known else known
  | .generate, .ok generated => generated :: known
  | _, _ => known

def discipline : Discipline (RequestCmd κ U) RequestCmd.Answer (List κ) where
  allowed := Allows
  expected _ := Expects
  next := learns

lemma subset_learns {known : List κ} (c : RequestCmd κ U) (r : c.Answer) :
    known ⊆ learns known c r := by
  unfold learns
  split
  · split
    · exact List.subset_cons_self _ _
    · exact List.Subset.refl _
  · exact List.subset_cons_self _ _
  · exact List.Subset.refl _

end RequestCmd

namespace KvSessionStore

open RequestCmd (discipline subset_learns)

/-- The discipline of the calls of the session store. -/
abbrev storeDiscipline (κ U : Type) : Discipline (SessionCmd κ U) SessionCmd.Answer (List κ) :=
  discipline.comap RequestCmd.store

variable {structures : Bool} {user : U} {id : κ} {ttl : ℕ} {known k : List κ}

/-- A program keeps to the discipline, and forgets nothing. -/
def Keeps {α : Type} (known : List κ) (p : SessionProgram κ U α) : Prop :=
  ∀ k, known ⊆ k → Obeys (storeDiscipline κ U) (fun k' _ => known ⊆ k') k p.run

lemma keeps_pure {α : Type} {a : α} : Keeps known (pure a : SessionProgram κ U α) :=
  fun _ hk => hk

lemma Keeps.bind {α β : Type} {p : SessionProgram κ U α} {f : α → SessionProgram κ U β}
    (hp : Keeps known p) (hf : ∀ a, Keeps known (f a)) : Keeps known (p >>= f) :=
  fun k hk => (hp k hk).bindExcept (fun _ a ha => hf a _ ha) (fun _ _ he => he)

/-- A command that may be asked at any time. -/
lemma keeps_call {c : SessionCmd κ U}
    (h : ∀ k, known ⊆ k → (RequestCmd.store c).Allows k) : Keeps known c.call := by
  intro k hk
  refine obeys_last.2 ⟨h k hk, fun a _ => ?_, fun e _ => ?_⟩
  · exact List.Subset.trans hk (subset_learns (RequestCmd.store c) (.ok a))
  · exact List.Subset.trans hk (subset_learns (RequestCmd.store c) (.error e))

/-- A record of somebody's may be written under a known identifier. -/
lemma keeps_setTtl {record : SessionRecord κ U} (hid : record.id = id)
    (h : record.userId ≠ none → id ∈ known) :
    Keeps known (SessionCmd.call (.setTtl id record ttl)) :=
  keeps_call fun _ hk => ⟨hid, fun hsome => hk (h hsome)⟩

lemma keeps_indexRead : Keeps known (indexRead structures user : SessionProgram κ U _) := by
  rw [indexRead]
  split
  · exact keeps_call fun _ _ => by trivial
  · exact (keeps_call fun _ _ => by trivial).bind fun _ => keeps_pure

variable [DecidableEq κ]

lemma keeps_indexAdd : Keeps known (indexAdd structures user id ttl) := by
  rw [indexAdd]
  split
  · exact (keeps_call fun _ _ => by trivial).bind fun _ => keeps_call fun _ _ => by trivial
  · refine (keeps_call fun _ _ => by trivial).bind fun ids => ?_
    simp only
    split
    · exact keeps_pure
    · exact keeps_call fun _ _ => by trivial

lemma keeps_indexRemove : Keeps known (indexRemove structures user id) := by
  rw [indexRemove]
  split
  · exact keeps_call fun _ _ => by trivial
  · refine (keeps_call fun _ _ => by trivial).bind fun ids => ?_
    cases ids with
    | some ids => exact keeps_call fun _ _ => by trivial
    | none => exact keeps_pure

lemma keeps_delete : Keeps known (delete structures id : SessionProgram κ U Bool) := by
  refine (keeps_call fun _ _ => by trivial).bind fun existing =>
    (keeps_call fun _ _ => by trivial).bind fun removed => ?_
  cases existing.bind SessionRecord.userId with
  | some user => exact (keeps_indexRemove).bind fun _ => keeps_pure
  | none => exact keeps_pure

lemma keeps_deleteAll {except : Option κ} {ids : List κ} {deleted : ℕ} :
    Keeps known (deleteAll structures user except ids deleted) := by
  induction ids generalizing deleted with
  | nil => exact keeps_pure
  | cons id ids ih =>
    rw [deleteAll]
    split
    · exact ih
    · exact (keeps_call fun _ _ => by trivial).bind fun _ => (keeps_indexRemove).bind fun _ => ih

lemma keeps_deleteForUser {except : Option κ} :
    Keeps known (deleteForUser structures user except) :=
  (keeps_indexRead).bind fun _ => keeps_deleteAll

lemma keeps_save {record : SessionRecord κ U} (h : record.userId ≠ none → record.id ∈ known) :
    Keeps known (save structures record ttl) := by
  refine (keeps_setTtl rfl h).bind fun _ => ?_
  cases record.userId with
  | some user => exact keeps_indexAdd
  | none => exact keeps_pure

/-- A record is renamed to a known identifier. -/
lemma keeps_rename {source target : κ} (h : target ∈ known) :
    Keeps known (rename structures source target : SessionProgram κ U Unit) := by
  refine (keeps_call fun _ _ => by trivial).bind fun found => ?_
  cases found with
  | none => exact keeps_pure
  | some record =>
    refine (keeps_call fun _ _ => by trivial).bind fun ttl =>
      (keeps_setTtl rfl fun _ => h).bind fun _ =>
        (keeps_call fun _ _ => by trivial).bind fun _ => ?_
    cases record.userId with
    | some user => exact (keeps_indexAdd).bind fun _ => keeps_indexRemove
    | none => exact keeps_pure

end KvSessionStore

namespace Session

open RequestCmd (call discipline)
open KvSessionStore (Keeps)

/-- Somebody's record is held only under a known identifier. -/
def Holds (known : List κ) (session : Session κ U) : Prop :=
  ∀ record, session.record = some record → record.userId ≠ none → record.id ∈ known

/-- The record is held under a known identifier, whosever it is. -/
def Owns (known : List κ) (session : Session κ U) : Prop :=
  ∀ record, session.record = some record → record.id ∈ known

/-- The session that a call returns, in view of what is known then. -/
def Returns (P : List κ → Session κ U → Prop) (known : List κ) :
    Except SessionError (Session κ U) → Prop
  | .ok session => P known session
  | .error _    => True

variable {structures : Bool} {config : SessionConfig} {known : List κ} {session : Session κ U}
variable {P Q : List κ → Session κ U → Prop}

lemma Owns.holds (h : Owns known session) : Holds known session :=
  fun record hrecord _ => h record hrecord

lemma holds_withRecordMut {write : SessionRecord κ U → SessionRecord κ U} (h : Holds known session)
    (hwrite : ∀ record, (write record).id = record.id ∧ (write record).userId = record.userId) :
    Holds known (session.withRecordMut write) := by
  intro record hrecord hsome
  cases hheld : session.record with
  | none =>
    rw [withRecordMut, hheld] at hrecord
    rw [hheld] at hrecord
    cases hrecord
  | some held =>
    rw [withRecordMut, hheld] at hrecord
    obtain rfl := Option.some.inj hrecord
    rw [(hwrite held).1]
    rw [(hwrite held).2] at hsome
    exact h held hheld hsome

/-- A call of the session store, and the rest of the program. -/
lemma obeys_onStore {α : Type} {p : SessionProgram κ U α}
    {f : α → RequestProgram κ U (Session κ U)} (hp : Keeps known p)
    (hf : ∀ a k, known ⊆ k → Obeys discipline (Returns P) k (f a).run) :
    Obeys discipline (Returns P) known (p.onStore >>= f).run := by
  have hstore : Obeys discipline (fun k _ => known ⊆ k) known (p.onStore : RequestProgram κ U α).run :=
    obeys_embed.2 (hp known (List.Subset.refl _))
  exact hstore.bindExcept (fun k a hk => hf a k hk) (fun _ _ _ => trivial)

/-- Two methods in a row. -/
lemma obeys_then {p : RequestProgram κ U (Session κ U)}
    {f : Session κ U → RequestProgram κ U (Session κ U)}
    (hp : Obeys discipline (Returns P) known p.run)
    (hf : ∀ k session, P k session → Obeys discipline (Returns Q) k (f session).run) :
    Obeys discipline (Returns Q) known (p >>= f).run :=
  hp.bindExcept (fun k session h => hf k session h) (fun _ _ _ => trivial)

lemma holds_fresh {id : κ} {now : ℕ} :
    Holds known ({ session with
      presented := false, record := some (SessionRecord.new now id) } : Session κ U) := by
  rintro _ ⟨⟩ hsome
  exact absurd rfl hsome

variable [DecidableEq κ]

lemma load_obeys (h : Holds known session) :
    Obeys discipline (Returns Holds) known (session.load structures config).run := by
  rw [load]
  split
  · exact h
  · split
    · refine obeys_call.2 ⟨trivial, fun found hfound => ?_, fun _ _ => trivial⟩
      cases found with
      | none => exact obeys_call.2 ⟨trivial, fun _ _ => holds_fresh, fun _ _ => trivial⟩
      | some record =>
        refine obeys_call.2 ⟨trivial, fun now _ => ?_, fun _ _ => trivial⟩
        simp only
        split
        · refine obeys_onStore KvSessionStore.keeps_delete fun _ k _ => ?_
          exact obeys_call.2 ⟨trivial, fun _ _ => holds_fresh, fun _ _ => trivial⟩
        · rintro _ ⟨⟩ hsome
          have hid : record.id = session.id := hfound
          have hlearns : RequestCmd.learns known (.store (.get session.id)) (.ok (some record)) =
              session.id :: known := by
            simp only [RequestCmd.learns, if_pos (Option.isSome_iff_ne_none.mpr hsome)]
          show record.id ∈ RequestCmd.learns known (.store (.get session.id)) (.ok (some record))
          rw [hlearns, hid]
          exact List.mem_cons_self
    · exact obeys_call.2 ⟨trivial, fun _ _ => holds_fresh, fun _ _ => trivial⟩

/-- The identifier a request goes on with is one that it has generated. -/
lemma cycleId_obeys (h : Holds known session) :
    Obeys discipline (Returns Owns) known (session.cycleId structures config).run := by
  refine obeys_then (load_obeys h) fun k session _ => ?_
  refine obeys_call.2 ⟨trivial, fun new _ => ?_, fun _ _ => trivial⟩
  have hnew : new ∈ RequestCmd.learns k (RequestCmd.generate : RequestCmd κ U) (.ok new) :=
    List.mem_cons_self
  have howns : ∀ k', new ∈ k' → Owns k' ({ session with id := new }.withRecordMut
      fun record => { record with id := new }) := by
    intro k' hk' record hrecord
    cases hheld : session.record with
    | none =>
      rw [withRecordMut] at hrecord
      simp only [hheld] at hrecord
      cases hrecord
    | some held =>
      rw [withRecordMut] at hrecord
      simp only [hheld] at hrecord
      obtain rfl := Option.some.inj hrecord
      exact hk'
  simp only
  split
  · exact obeys_onStore (KvSessionStore.keeps_rename hnew) fun _ k' hk' => howns k' (hk' hnew)
  · exact howns _ hnew

lemma logIn_obeys {subject : U} {authHash : List UInt8} (h : Holds known session) :
    Obeys discipline (Returns Holds) known
      (session.logIn structures config subject authHash).run := by
  refine obeys_then (load_obeys h) fun k session h => ?_
  refine obeys_then (cycleId_obeys h) fun k session h => ?_
  refine obeys_call.2 ⟨trivial, fun now _ => ?_, fun _ _ => trivial⟩
  intro record hrecord _
  cases hheld : session.record with
  | none =>
    rw [withRecordMut, hheld] at hrecord
    rw [hheld] at hrecord
    cases hrecord
  | some held =>
    rw [withRecordMut, hheld] at hrecord
    obtain rfl := Option.some.inj hrecord
    exact h held hheld

lemma destroy_obeys : Obeys discipline (Returns Holds) known (session.destroy structures).run := by
  have hnone : ∀ k, Holds k ({ session with
      record := none, presented := false, destroyed := true, dirty := false } : Session κ U) := by
    rintro k _ ⟨⟩
  rw [destroy]
  split
  · exact obeys_onStore KvSessionStore.keeps_delete fun _ k _ => hnone k
  · exact hnone known

lemma save_obeys (h : Holds known session) :
    Obeys discipline (Returns Holds) known (session.save structures config).run := by
  rw [save]
  split
  · exact h
  · refine obeys_call.2 ⟨trivial, fun now _ => ?_, fun _ _ => trivial⟩
    cases hrecord : session.record with
    | none => exact h
    | some record =>
      simp only
      split
      · exact h
      · have hheld : record.userId ≠ none → record.id ∈ known := h record hrecord
        refine obeys_onStore (KvSessionStore.keeps_save hheld) fun _ k hk => ?_
        rintro _ ⟨⟩ hsome
        exact hk (hheld hsome)

end Session

open Session (Holds Returns) in
/-- Every call keeps to the discipline. -/
theorem RequestCall.program_obeys [DecidableEq κ] {structures : Bool} {config : SessionConfig}
    {known : List κ} {session : Session κ U} (c : RequestCall κ U) (h : Holds known session) :
    Obeys RequestCmd.discipline (Returns Holds) known
      (c.program structures config session).run := by
  cases c with
  | load => exact Session.load_obeys h
  | insert key value =>
    refine Session.holds_withRecordMut h fun record => ?_
    split <;> exact ⟨rfl, rfl⟩
  | remove key =>
    refine Session.holds_withRecordMut h fun record => ?_
    split <;> exact ⟨rfl, rfl⟩
  | cycleId =>
    refine (Session.cycleId_obeys h).mono fun k result hresult => ?_
    cases result with
    | ok session => exact Session.Owns.holds hresult
    | error _ => trivial
  | logIn subject authHash => exact Session.logIn_obeys h
  | destroy => exact Session.destroy_obeys
  | save => exact Session.save_obeys h
  | deleteForUser user except =>
    exact Session.obeys_onStore KvSessionStore.keeps_deleteForUser fun _ k hk record hrecord hsome =>
      hk (h record hrecord hsome)

namespace Requests

open Session (Holds Returns)
open RequestCmd (Allows Expects learns discipline)

variable [DecidableEq κ] [DecidableEq U] {structures : Bool} {config : SessionConfig}
variable {s s' : Requests κ U}

/-- A request that keeps to the discipline from here on, and knows nothing that was removed but
what was removed since it began. -/
structure Follows (removed : List κ) (request : Request κ U) (known : List κ) : Prop where
  fresh : ∀ id ∈ known, id ∈ removed → id ∈ request.overtaken
  holds : Holds known request.session
  obeys : ∀ running, request.running = some running →
    Obeys discipline (Returns Holds) known running.program

/-- What every run keeps whose events resurrect nothing. -/
structure Consistent (s : Requests κ U) : Prop where
  removed_seen : ∀ id ∈ s.removed, id ∈ s.seen
  ended_removed : ∀ id ∈ s.ended, id ∈ s.removed
  running_removed : ∀ i request running, s.requests i = some request →
    request.running = some running → ∀ id ∈ running.ended, id ∈ s.removed
  keyed : ∀ id record, s.kv.data.get s.now id = some record → record.id = id
  gone : ∀ id ∈ s.removed, ∀ record, s.kv.data.get s.now id = some record → record.userId = none
  follows : ∀ i request, s.requests i = some request → ∃ known, Follows s.removed request known

omit [DecidableEq κ] [DecidableEq U] in
lemma Consistent.staysEnded (h : s.Consistent) : s.StaysEnded :=
  fun id hid record hget => h.gone id (h.ended_removed id hid) record hget

omit [DecidableEq κ] [DecidableEq U] in
lemma consistent_start : (start : Requests κ U).Consistent where
  removed_seen id hid := by cases hid
  ended_removed id hid := by cases hid
  running_removed i request running h := by cases h
  keyed id record h := by cases h
  gone id hid := by cases hid
  follows i request h := by cases h

omit [DecidableEq κ] [DecidableEq U] in
/-- One request takes a step of its own, which touches neither the store nor what is removed. -/
lemma Consistent.update (h : s.Consistent) {i : ℕ} {request : Request κ U} {seen ended : List κ}
    (known : List κ) (hseen : ∀ id ∈ s.removed, id ∈ seen)
    (hended : ∀ id ∈ ended, id ∈ s.removed) (hfollows : Follows s.removed request known)
    (hrunning : ∀ running, request.running = some running → ∀ id ∈ running.ended, id ∈ s.removed) :
    ({ s with seen := seen, ended := ended }.update i request).Consistent := by
  have hcases : ∀ j request', Function.update s.requests i (some request) j = some request' →
      request' = request ∨ s.requests j = some request' := by
    intro j request' hj
    by_cases hji : j = i
    · subst hji
      rw [Function.update_self] at hj
      exact .inl (Option.some.inj hj).symm
    · rw [Function.update_of_ne hji] at hj
      exact .inr hj
  refine ⟨hseen, hended, fun j request' running hj hrun => ?_, h.keyed, h.gone,
    fun j request' hj => ?_⟩
  · rcases hcases j request' hj with rfl | hj
    · exact hrunning running hrun
    · exact h.running_removed j request' running hj hrun
  · rcases hcases j request' hj with rfl | hj
    · exact ⟨known, hfollows⟩
    · exact h.follows j request' hj

omit [DecidableEq κ] [DecidableEq U] in
/-- Sessions are ended whose records are gone. -/
lemma Consistent.overtake (h : s.Consistent) {ids : List κ} (hseen : ∀ id ∈ ids, id ∈ s.seen)
    (hgone : ∀ id ∈ ids, ∀ record, s.kv.data.get s.now id = some record → record.userId = none) :
    (s.overtake ids).Consistent where
  removed_seen id hid := by
    rcases List.mem_append.mp hid with hid | hid
    · exact hseen id hid
    · exact h.removed_seen id hid
  ended_removed id hid := List.mem_append_right _ (h.ended_removed id hid)
  running_removed i request running hi hrun id hid := by
    obtain ⟨request', hi', rfl⟩ := Option.map_eq_some_iff.mp hi
    exact List.mem_append_right _ (h.running_removed i request' running hi' hrun id hid)
  keyed := h.keyed
  gone id hid := by
    rcases List.mem_append.mp hid with hid | hid
    · exact hgone id hid
    · exact h.gone id hid
  follows i request hi := by
    obtain ⟨request', hi', rfl⟩ := Option.map_eq_some_iff.mp hi
    obtain ⟨known, hfollows⟩ := h.follows i request' hi'
    refine ⟨known, fun id hid hremoved => ?_, hfollows.holds, hfollows.obeys⟩
    rcases List.mem_append.mp hremoved with hid' | hid'
    · exact List.mem_append_left _ hid'
    · exact List.mem_append_right _ (hfollows.fresh id hid hid')

/-- What a command leaves among the records was there, or is what it wrote. -/
lemma get_exec {kv : SessionKv κ U} {now t : ℕ} {c : SessionCmd κ U} {id : κ}
    {record : SessionRecord κ U} (h : (kv.exec now c).2.data.get t id = some record) :
    kv.data.get t id = some record ∨ ∃ ttl, c = .setTtl id record ttl := by
  cases c with
  | setTtl id' record' ttl =>
    rcases Lapsing.get_set_eq_some.mp h with ⟨rfl, -, rfl⟩ | ⟨-, hget⟩
    · exact .inr ⟨ttl, rfl⟩
    · exact .inl hget
  | delete id' => exact .inl (Lapsing.get_delete_eq_some.mp h).2
  | setAdd user id' =>
    simp only [SessionKv.exec] at h
    split at h <;> exact .inl h
  | expire user ttl =>
    simp only [SessionKv.exec] at h
    split at h <;> exact .inl h
  | setRemove user id' =>
    simp only [SessionKv.exec, SessionKv.setRemove] at h
    split at h
    · exact .inl h
    · split at h <;> exact .inl h
  | get _ | ttl _ | getIndex _ | setIndex _ _ _ | setMembers _ => exact .inl h

/-- A command is carried out that writes nothing back of what was removed. -/
lemma Consistent.exec (h : s.Consistent) {c : SessionCmd κ U}
    (hwrites : ∀ id record ttl, c = .setTtl id record ttl →
      record.id = id ∧ (record.userId ≠ none → id ∉ s.removed)) :
    ({ s with kv := (s.kv.exec s.now c).2 } : Requests κ U).Consistent where
  removed_seen := h.removed_seen
  ended_removed := h.ended_removed
  running_removed := h.running_removed
  keyed id record hget := by
    rcases get_exec hget with hget | ⟨ttl, rfl⟩
    · exact h.keyed id record hget
    · exact (hwrites id record ttl rfl).1
  gone id hid record hget := by
    rcases get_exec hget with hget | ⟨ttl, rfl⟩
    · exact h.gone id hid record hget
    · by_contra hsome
      exact (hwrites id record ttl rfl).2 hsome hid
  follows := h.follows

lemma Consistent.expects (h : s.Consistent) (c : SessionCmd κ U) :
    Expects (.store c) (.ok (s.kv.exec s.now c).1) := by
  cases c with
  | get id =>
    cases hget : s.kv.data.get s.now id with
    | none =>
      simp only [SessionKv.exec, hget]
      trivial
    | some record =>
      simp only [SessionKv.exec, hget]
      exact h.keyed id record hget
  | setTtl _ _ _ | delete _ | ttl _ | getIndex _ | setIndex _ _ _ | setAdd _ _ | expire _ _
  | setRemove _ _ | setMembers _ => trivial

/-- What a command of the store teaches was not removed. -/
lemma Consistent.mem_learns (h : s.Consistent) {c : SessionCmd κ U} {known : List κ} {id : κ}
    (hid : id ∈ learns known (.store c) (.ok (s.kv.exec s.now c).1)) :
    id ∈ known ∨ id ∉ s.removed := by
  cases c with
  | get id' =>
    cases hget : s.kv.data.get s.now id' with
    | none =>
      simp only [SessionKv.exec, hget] at hid
      exact .inl hid
    | some record =>
      simp only [SessionKv.exec, hget, learns] at hid
      split at hid
      · next hsome =>
        rcases List.mem_cons.mp hid with rfl | hid
        · right
          intro hremoved
          rw [h.gone id hremoved record hget] at hsome
          cases hsome
        · exact .inl hid
      · exact .inl hid
  | setTtl _ _ _ | delete _ | ttl _ | getIndex _ | setIndex _ _ _ | setAdd _ _ | expire _ _
  | setRemove _ _ | setMembers _ => exact .inl hid

omit [DecidableEq κ] [DecidableEq U] in
lemma overtake_update {i : ℕ} {request : Request κ U} {ids : List κ} :
    (s.update i request).overtake ids =
      (s.overtake ids).update i { request with overtaken := ids ++ request.overtaken } := by
  simp only [Requests.overtake, Requests.update, Requests.mk.injEq, true_and, and_true]
  funext j
  by_cases hji : j = i
  · subst hji
    simp
  · simp [Function.update_of_ne hji]

/-- A command deletes the record that it deletes. -/
lemma get_exec_deleted {kv : SessionKv κ U} {now : ℕ} {c : SessionCmd κ U} {id : κ}
    (hid : id ∈ c.deleted) : (kv.exec now c).2.data.get now id = none := by
  cases c with
  | delete id' =>
    rw [List.mem_singleton.mp hid]
    exact Lapsing.get_delete_self
  | setTtl _ _ _ | get _ | ttl _ | getIndex _ | setIndex _ _ _ | setAdd _ _ | expire _ _
  | setRemove _ _ | setMembers _ => cases hid

/-- A command of a call is carried out. -/
lemma Consistent.answer (h : s.Consistent) {i : ℕ} {request : Request κ U}
    {running : RunningCall κ U} {generated : κ} {c : RequestCmd κ U} {known : List κ}
    {next : c.Answer → Program (RequestCmd κ U) RequestCmd.Answer
      (Except SessionError (Session κ U))}
    (hfollows : Follows s.removed { request with running := some running } known)
    (hended : ∀ id ∈ running.ended, id ∈ s.removed) (hprogram : running.program = .ask c next)
    (hback : ∀ id record ttl, c = .store (.setTtl id record ttl) → record.userId ≠ none →
      id ∉ request.overtaken)
    (hanswer : s.answer i request running generated c next = some s') : s'.Consistent := by
  have hobeys := hfollows.obeys running rfl
  rw [hprogram] at hobeys
  obtain ⟨hallowed, hnext⟩ := hobeys
  cases c with
  | store c =>
    obtain rfl := Option.some.inj hanswer
    have hwrites : ∀ id record ttl, c = .setTtl id record ttl →
        record.id = id ∧ (record.userId ≠ none → id ∉ s.removed) := by
      rintro id record ttl rfl
      refine ⟨hallowed.1, fun hsome hremoved => ?_⟩
      exact hback id record ttl rfl hsome (hfollows.fresh id (hallowed.2 hsome) hremoved)
    have hexec := h.exec hwrites
    have hover : ({ s with
        kv := (s.kv.exec s.now c).2, seen := c.deleted ++ s.seen } : Requests κ U).Consistent :=
      { hexec with
        removed_seen := fun id hid => List.mem_append_right _ (h.removed_seen id hid) }
    have hids : ∀ id ∈ (if running.ends then c.deleted else []), id ∈ c.deleted := by
      intro id hid
      split at hid
      · exact hid
      · cases hid
    rw [overtake_update]
    refine (hover.overtake (fun id hid => List.mem_append_left _ (hids id hid))
      fun id hid record hget => ?_).update
      (learns known (.store c) (.ok (s.kv.exec s.now c).1)) ?_ ?_ ?_ ?_
    · rw [get_exec_deleted (hids id hid)] at hget
      cases hget
    · intro id hid
      rcases List.mem_append.mp hid with hid | hid
      · exact List.mem_append_left _ (hids id hid)
      · exact List.mem_append_right _ (h.removed_seen id hid)
    · exact fun id hid => List.mem_append_right _ (h.ended_removed id hid)
    · refine ⟨fun id hid hremoved => ?_, fun record hrecord hsome => ?_, ?_⟩
      · rcases List.mem_append.mp hremoved with hremoved | hremoved
        · exact List.mem_append_left _ hremoved
        · rcases h.mem_learns hid with hid | hid
          · exact List.mem_append_right _ (hfollows.fresh id hid hremoved)
          · exact absurd hremoved hid
      · exact RequestCmd.subset_learns _ _ (hfollows.holds record hrecord hsome)
      · rintro _ ⟨⟩
        exact hnext _ (h.expects c)
    · rintro _ ⟨⟩ id hid
      rcases List.mem_append.mp hid with hid | hid
      · exact List.mem_append_left _ hid
      · exact List.mem_append_right _ (hended id hid)
  | now =>
    obtain rfl := Option.some.inj hanswer
    refine h.update known h.removed_seen h.ended_removed ?_ ?_
    · refine ⟨hfollows.fresh, hfollows.holds, ?_⟩
      rintro _ ⟨⟩
      exact hnext _ trivial
    · rintro _ ⟨⟩
      exact hended
  | generate =>
    simp only [Requests.answer] at hanswer
    split at hanswer
    · cases hanswer
    · next hfresh =>
      obtain rfl := Option.some.inj hanswer
      refine h.update (generated :: known)
        (fun id hid => List.mem_cons_of_mem _ (h.removed_seen id hid)) h.ended_removed ?_ ?_
      · refine ⟨fun id hid hremoved => ?_, fun record hrecord hsome =>
          List.mem_cons_of_mem _ (hfollows.holds record hrecord hsome), ?_⟩
        · rcases List.mem_cons.mp hid with rfl | hid
          · exact absurd (h.removed_seen id hremoved) hfresh
          · exact hfollows.fresh id hid hremoved
        · rintro _ ⟨⟩
          exact hnext (.ok generated) trivial
      · rintro _ ⟨⟩
        exact hended

lemma consistent_step {event : RequestEvent κ U} (h : s.Consistent)
    (hback : s.resurrects event = false) (hstep : s.step structures config event = some s') :
    s'.Consistent := by
  -- a request that has just begun
  have hbegun : ∀ i id presented, ({ s with seen := id :: s.seen }.update i
      (⟨Session.build id presented, none, []⟩ : Request κ U)).Consistent := by
    intro i id presented
    refine h.update [] (fun id' hid => List.mem_cons_of_mem _ (h.removed_seen id' hid))
      h.ended_removed ⟨fun id' hid => ?_, fun record hrecord => ?_, fun running hrun => ?_⟩
      fun running hrun => ?_
    · cases hid
    · cases hrecord
    · cases hrun
    · cases hrun
  cases event with
  | wait millis =>
    obtain rfl := Option.some.inj hstep
    exact { h with
      keyed := fun id record hget =>
        h.keyed id record (Lapsing.get_mono (Nat.le_add_right _ _) hget)
      gone := fun id hid record hget =>
        h.gone id hid record (Lapsing.get_mono (Nat.le_add_right _ _) hget) }
  | present i id =>
    simp only [step] at hstep
    split at hstep
    · cases hstep
    · obtain rfl := Option.some.inj hstep
      exact hbegun i id true
  | arrive i generated =>
    simp only [step] at hstep
    split at hstep
    · cases hstep
    · split at hstep
      · cases hstep
      · obtain rfl := Option.some.inj hstep
        exact hbegun i generated false
  | call i c =>
    simp only [step] at hstep
    split at hstep
    · next session overtaken hi =>
      obtain rfl := Option.some.inj hstep
      obtain ⟨known, hfollows⟩ := h.follows i _ hi
      refine h.update _ h.removed_seen h.ended_removed
        ⟨hfollows.fresh, hfollows.holds, ?_⟩ ?_
      · rintro _ ⟨⟩
        exact c.program_obeys hfollows.holds
      · rintro _ ⟨⟩ id hid
        cases hid
    · cases hstep
  | ask i generated =>
    simp only [step] at hstep
    split at hstep
    · next session ends c next ended overtaken hi =>
      obtain ⟨known, hfollows⟩ := h.follows i _ hi
      refine h.answer hfollows (h.running_removed i _ _ hi rfl) rfl ?_ hstep
      rintro id record ttl rfl hsome hid
      simp only [resurrects, hi, Option.isSome_iff_ne_none.mpr hsome, Bool.true_and,
        decide_eq_false_iff_not] at hback
      exact hback hid
    · cases hstep
  | return_ i =>
    simp only [step] at hstep
    split at hstep
    · next session' ends session ended overtaken hi =>
      obtain rfl := Option.some.inj hstep
      obtain ⟨known, hfollows⟩ := h.follows i _ hi
      refine h.update _ h.removed_seen (fun id hid => ?_)
        ⟨hfollows.fresh, hfollows.obeys _ rfl, ?_⟩ ?_
      · rcases List.mem_append.mp hid with hid | hid
        · exact h.running_removed i _ _ hi rfl id hid
        · exact h.ended_removed id hid
      · rintro _ ⟨⟩
      · rintro _ ⟨⟩
    · next session ends error ended overtaken hi =>
      obtain rfl := Option.some.inj hstep
      obtain ⟨known, hfollows⟩ := h.follows i _ hi
      refine h.update _ h.removed_seen h.ended_removed
        ⟨hfollows.fresh, hfollows.holds, ?_⟩ ?_
      · rintro _ ⟨⟩
      · rintro _ ⟨⟩
    · cases hstep

/-- In every run in which no request writes back a session of somebody that was ended since the
request began, what was ended stays ended. -/
theorem always_staysEnded (structures : Bool) (config : SessionConfig)
    {events : List (RequestEvent κ U)}
    (hback : Machine.Meets (step structures config) (fun s event => s.resurrects event = false)
      start events) :
    Machine.Always (step structures config) StaysEnded (start : Requests κ U) events :=
  (Machine.always_of_meets (fun _ _ _ h hback hstep => consistent_step h hback hstep)
    consistent_start hback).mono fun _ h => h.staysEnded

/-- Fourteen days, ninety days and a minute. -/
def shippedConfig : SessionConfig where
  idleTimeout := 1209600000
  absoluteTimeout := 7776000000
  touchInterval := 60000

/-- The first request logs in and saves its session, 2; the second presents and loads it. -/
def loggedIn : List (RequestEvent ℕ String) :=
  [.arrive 0 1, .call 0 (.logIn "ada" []), .ask 0 0, .ask 0 2, .ask 0 0, .return_ 0,
    .call 0 .save, .ask 0 0, .ask 0 0, .ask 0 0, .ask 0 0, .return_ 0,
    .present 1 2, .call 1 .load, .ask 1 0, .ask 1 0, .return_ 1]

/-- A request puts something in the session and saves it. -/
def putAndSave (i : ℕ) : List (RequestEvent ℕ String) :=
  [.call i (.insert ['k'] .null), .return_ i, .call i .save, .ask i 0, .ask i 0, .ask i 0,
    .ask i 0, .return_ i]

/-- Another request presents the session and destroys it. -/
def logOut (i : ℕ) : List (RequestEvent ℕ String) :=
  [.present i 2, .call i .destroy, .ask i 0, .ask i 0, .ask i 0, .return_ i]

/-- The second request saves its session before the third destroys it. -/
theorem always_staysEnded_putAndSave_logOut :
    Machine.Always (step true shippedConfig) StaysEnded start
      (loggedIn ++ putAndSave 1 ++ logOut 2) :=
  always_staysEnded true shippedConfig (by decide)

/-- When the third request destroys the session before the second saves it, the session is
back. -/
theorem always_staysEnded_fails :
    ¬ Machine.Always (step true shippedConfig) StaysEnded (start : Requests ℕ String)
      (loggedIn ++ logOut 2 ++ putAndSave 1) := by
  intro h
  have hnone := h.of_exec rfl 2 (by decide) _ rfl
  cases hnone

end Requests

end Moso.Auth
