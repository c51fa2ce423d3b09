import Moso.Auth.Session.Effects
import Moso.Foundation.Machine
import Mathlib.Data.List.Nodup

/-!
# The sessions that an index covers

The index of a user is one entry with one end, and every session of the user has an end of its
own. A run is any sequence of calls, with any time in between. `Exact` says that from here on a
listing has the sessions of its user, each once, and that nothing is left of a user whose sessions
have just been deleted; `Extends` is the exact condition on the calls under which every state of
a run is so.
-/

namespace Moso.Auth

open Lapsing (Lasts)
open SessionKv (listed added removed removedAll worked worked_ok worked_error remaining dropAll
  get_dropAll perform_save perform_delete perform_rename perform_rename_of_none
  perform_listForUser perform_listForUser_error perform_deleteForUser
  perform_deleteForUser_error listed_added_of_ne listed_added_set listed_added_list
  listed_removed_of_ne listed_removed_set listed_removed_list listed_removedAll_of_ne
  listed_removedAll_set listed_removedAll_list)

variable {κ U : Type} [DecidableEq κ] [DecidableEq U]

/-- A call of the session store, or nothing for a while. -/
inductive SessionCall (κ U : Type) where
  | wait (millis : ℕ)
  | save (record : SessionRecord κ U) (ttl : ℕ)
  | delete (id : κ)
  | rename (source target : κ)
  | listForUser (user : U)
  | deleteForUser (user : U) (except : Option κ)

/-- The store and the clock, and for whom and but for which session the last call deleted. -/
structure SessionRun (κ U : Type) where
  kv : SessionKv κ U
  now : ℕ
  swept : Option (U × Option κ)

namespace SessionRun

variable (indexKey : U → Except Kv.KeyError Unit) (structures : Bool)

def start (now : ℕ) : SessionRun κ U := ⟨SessionKv.empty, now, none⟩

/-- The state after a call whose result does not matter. -/
def after {α : Type} (s : SessionRun κ U) (p : SessionProgram κ U α) : SessionRun κ U :=
  ⟨(s.kv.perform indexKey s.now p).2, s.now, none⟩

def step (s : SessionRun κ U) : SessionCall κ U → Option (SessionRun κ U)
  | .wait millis          => some { s with now := s.now + millis }
  | .save record ttl      => some (s.after indexKey (KvSessionStore.save structures record ttl))
  | .delete id            => some (s.after indexKey (KvSessionStore.delete structures id))
  | .rename source target =>
    some (s.after indexKey (KvSessionStore.rename structures source target))
  | .listForUser user     => some (s.after indexKey (KvSessionStore.listForUser structures user))
  | .deleteForUser user except =>
    let p := KvSessionStore.deleteForUser structures user except
    match (s.kv.perform indexKey s.now p).1 with
    | .ok _    => some { s.after indexKey p with swept := some (user, except) }
    | .error _ => some (s.after indexKey p)

/-! ### What listings and deletions promise -/

/-- A listing at an instant has the unexpired records of the user, each once. -/
def Lists (kv : SessionKv κ U) (t : ℕ) (user : U) : Prop :=
  ∀ records kv',
    kv.perform indexKey t (KvSessionStore.listForUser structures user) = (.ok records, kv') →
      records.Nodup ∧ ∀ record, record ∈ records ↔
        ∃ id, kv.data.get t id = some record ∧ record.userId = some user

/-- Of a user whose sessions were deleted just now, no session is left but the one excepted. -/
def Swept (s : SessionRun κ U) : Prop :=
  ∀ user except, s.swept = some (user, except) → ∀ id record,
    s.kv.data.get s.now id = some record → record.userId = some user → except = some id

def Exact (s : SessionRun κ U) : Prop :=
  (∀ t, s.now ≤ t → ∀ user, Lists indexKey structures s.kv t user) ∧ s.Swept

/-- At an instant, the user has no session but for those of a list. -/
def Ended (kv : SessionKv κ U) (t : ℕ) (user : U) (but : List κ) : Prop :=
  ∀ id, id ∉ but → ∀ record, kv.data.get t id = some record → record.userId ≠ some user

/-- An identifier is in no index but that of one user. -/
def ListedOnlyFor (kv : SessionKv κ U) (now : ℕ) (id : κ) (userId : Option U) : Prop :=
  ∀ user, indexKey user = .ok () → userId ≠ some user → id ∉ listed kv.index now user

/-- A call does not give a record to somebody while the index of somebody else names it, and no
session outlives the end that the call gives to the index of its user. -/
def Extends (s : SessionRun κ U) : SessionCall κ U → Prop
  | .wait _ => True
  | .save record ttl =>
    (0 < ttl → ListedOnlyFor indexKey s.kv s.now record.id record.userId) ∧
    ∀ user, record.userId = some user → indexKey user = .ok () →
      if structures then Ended s.kv (s.now + max ttl 60000) user [record.id]
      else if record.id ∈ listed s.kv.index s.now user then
        ∀ t, s.now ≤ t → t < s.now + ttl → record.id ∈ listed s.kv.index t user
      else Ended s.kv (s.now + ttl) user [record.id]
  | .delete id =>
    structures = false → ∀ record user, s.kv.data.get s.now id = some record →
      record.userId = some user → indexKey user = .ok () →
        Ended s.kv (s.now + KvSessionStore.indexTtl) user [id]
  | .rename source target =>
    ∀ record e, s.kv.data.live s.now source = some (record, e) →
      (source ≠ target → ListedOnlyFor indexKey s.kv s.now target record.userId) ∧
      ∀ user, record.userId = some user → indexKey user = .ok () →
        if structures then
          Ended s.kv (s.now + max (remaining s.now e) 60000) user [source, target]
        else
          Ended s.kv (s.now + KvSessionStore.indexTtl) user [source, target] ∧
          (source ≠ target → remaining s.now e ≤ KvSessionStore.indexTtl)
  | .listForUser user =>
    structures = false → indexKey user = .ok () → s.kv.stale s.now user ≠ [] →
      Ended s.kv (s.now + KvSessionStore.indexTtl) user []
  | .deleteForUser user except =>
    structures = false → indexKey user = .ok () →
      ((listed s.kv.index s.now user).filter fun id => except ≠ some id) ≠ [] →
        ∀ id, except = some id → ∀ record,
          s.kv.data.get (s.now + KvSessionStore.indexTtl) id = some record →
            record.userId ≠ some user

variable {indexKey structures} {kv kv' : SessionKv κ U} {now t ttl : ℕ} {user : U} {id : κ}
variable {record : SessionRecord κ U} {index : Lapsing U (List κ)}

omit [DecidableEq κ] [DecidableEq U] in
/-- In time an index stays as it is, or is gone. -/
lemma listed_eq_or (hle : now ≤ t) :
    listed index t user = listed index now user ∨ listed index t user = [] := by
  cases hget : index.get t user with
  | none =>
    right
    rw [listed, hget]
    rfl
  | some ids =>
    left
    rw [listed, listed, hget, Lapsing.get_mono hle hget]

omit [DecidableEq κ] [DecidableEq U] in
lemma mem_listed_mono (hle : now ≤ t) (h : id ∈ listed index t user) :
    id ∈ listed index now user := by
  rcases listed_eq_or hle with heq | heq
  · rwa [← heq]
  · rw [heq] at h
    exact absurd h List.not_mem_nil

/-! ### Indexes that name the sessions of their users -/

/-- From an instant on, the identifier of a record is in the index of its user and in no other. -/
structure Covered (indexKey : U → Except Kv.KeyError Unit) (kv : SessionKv κ U) (now : ℕ) :
    Prop where
  keyed : ∀ id record, kv.data.get now id = some record → record.id = id
  nodup : ∀ user, indexKey user = .ok () → (listed kv.index now user).Nodup
  names : ∀ user, indexKey user = .ok () → ∀ t, now ≤ t → ∀ id record,
    kv.data.get t id = some record → (id ∈ listed kv.index t user ↔ record.userId = some user)

omit [DecidableEq κ] [DecidableEq U] in
lemma covered_empty : Covered indexKey (SessionKv.empty : SessionKv κ U) now where
  keyed id record h := by cases h
  nodup user _ := List.nodup_nil
  names user _ t _ id record h := by cases h

omit [DecidableEq κ] [DecidableEq U] in
lemma Covered.later (h : Covered indexKey kv now) (hle : now ≤ t) : Covered indexKey kv t where
  keyed id record hget := h.keyed id record (Lapsing.get_mono hle hget)
  nodup user hkey := by
    rcases listed_eq_or hle with heq | heq
    · rw [heq]
      exact h.nodup user hkey
    · rw [heq]
      exact List.nodup_nil
  names user hkey t' hle' := h.names user hkey t' (le_trans hle hle')

/-- What a listing has: the records that there are under the identifiers of the index. -/
lemma mem_of_lists (hkey : indexKey user = .ok ()) (h : Lists indexKey structures kv t user) :
    (∃ id ∈ listed kv.index t user, kv.data.get t id = some record) ↔
      ∃ id, kv.data.get t id = some record ∧ record.userId = some user := by
  rw [← (h _ _ (perform_listForUser hkey)).2 record, List.mem_mergeSort, List.mem_filterMap]

theorem Covered.lists (h : Covered indexKey kv now) (hle : now ≤ t) :
    Lists indexKey structures kv t user := by
  intro records kv' hperform
  cases hkey : indexKey user with
  | error error =>
    rw [perform_listForUser_error hkey] at hperform
    cases hperform
  | ok _ =>
    rw [perform_listForUser hkey, Prod.mk.injEq, Except.ok.injEq] at hperform
    obtain ⟨rfl, -⟩ := hperform
    have hlater : Covered indexKey kv t := h.later hle
    refine ⟨?_, fun record => ?_⟩
    · rw [(List.mergeSort_perm _ _).nodup_iff]
      refine List.Nodup.filterMap (fun id id' record hid hid' => ?_) (hlater.nodup user hkey)
      rw [← hlater.keyed id record hid, ← hlater.keyed id' record hid']
    · rw [List.mem_mergeSort, List.mem_filterMap]
      constructor
      · rintro ⟨id, hid, hget⟩
        exact ⟨id, hget, (h.names user hkey t hle id record hget).mp hid⟩
      · rintro ⟨id, hget, huser⟩
        exact ⟨id, (h.names user hkey t hle id record hget).mpr huser, hget⟩

/-- A session that no index names is missing from the listing. -/
lemma not_lists_of_unlisted (hkey : indexKey user = .ok ())
    (hkeyed : ∀ id record, kv.data.get now id = some record → record.id = id) (hle : now ≤ t)
    (hget : kv.data.get t id = some record) (huser : record.userId = some user)
    (hid : id ∉ listed kv.index t user) : ¬ Lists indexKey structures kv t user := by
  intro h
  obtain ⟨id', hid', hget'⟩ := (mem_of_lists hkey h).mpr ⟨id, hget, huser⟩
  rw [← hkeyed id record (Lapsing.get_mono hle hget),
    hkeyed id' record (Lapsing.get_mono hle hget')] at hid
  exact hid hid'

/-- A session that the index of somebody else names is in the wrong listing. -/
lemma not_lists_of_foreign (hkey : indexKey user = .ok ())
    (hget : kv.data.get t id = some record) (huser : record.userId ≠ some user)
    (hid : id ∈ listed kv.index t user) : ¬ Lists indexKey structures kv t user := by
  intro h
  obtain ⟨-, -, huser'⟩ := (mem_of_lists hkey h).mp ⟨id, hid, hget⟩
  exact huser huser'

omit [DecidableEq κ] [DecidableEq U] in
/-- An index that was given the end `T` names the sessions of its user if it does so now, and
none of them is there at `T`. -/
lemma names_of_window {T : ℕ} {ids : List κ}
    (hlisted : ∀ t, now ≤ t → listed kv.index t user = if t < T then ids else [])
    (hnow : ∀ id record, kv.data.get now id = some record →
      (id ∈ ids ↔ record.userId = some user))
    (hend : Ended kv T user []) : ∀ t, now ≤ t → ∀ id record,
    kv.data.get t id = some record → (id ∈ listed kv.index t user ↔ record.userId = some user) := by
  intro t hle id record hget
  rw [hlisted t hle]
  split
  · exact hnow id record (Lapsing.get_mono hle hget)
  · next hlt =>
    have hT : kv.data.get T id = some record := Lapsing.get_mono (Nat.le_of_not_lt hlt) hget
    exact iff_of_false List.not_mem_nil (hend id List.not_mem_nil record hT)

/-! ### What the calls keep -/

omit [DecidableEq κ] [DecidableEq U] in
/-- The index of a user that a call does not work on. -/
lemma listed_worked_of_ne {userId : Option U} {f : U → Lapsing U (List κ) → Lapsing U (List κ)}
    (hf : ∀ user', user ≠ user' → listed (f user' index) t user = listed index t user)
    (h : userId ≠ some user) : listed (worked indexKey userId f index) t user =
      listed index t user := by
  cases userId with
  | none => rfl
  | some user' =>
    have hne : user ≠ user' := fun heq => h (congrArg some heq.symm)
    cases hkey : indexKey user' with
    | ok _ => rw [worked_ok hkey, hf user' hne]
    | error error => rw [worked_error hkey]

lemma nodup_listed_added (h : (listed index now user).Nodup) :
    (listed (added structures now user id ttl index) now user).Nodup := by
  cases structures with
  | true =>
    rw [listed_added_set]
    split
    · exact h.insert
    · exact List.nodup_nil
  | false =>
    rw [listed_added_list]
    split
    · exact h
    · next hid =>
      split
      · exact List.nodup_append.mpr ⟨h, List.nodup_singleton id, fun held hheld id' hid' heq => by
          rw [List.mem_singleton.mp hid'] at heq
          exact hid (heq ▸ hheld)⟩
      · exact List.nodup_nil

lemma nodup_listed_removed (h : (listed index now user).Nodup) :
    (listed (removed structures now user id index) now user).Nodup := by
  cases structures with
  | true =>
    rw [listed_removed_set le_rfl]
    exact h.filter _
  | false =>
    rw [listed_removed_list le_rfl]
    split
    · exact h.filter _
    · exact List.nodup_nil

lemma covered_save {s : SessionRun κ U} (h : Covered indexKey s.kv s.now)
    (hsafe : Extends indexKey structures s (.save record ttl)) :
    Covered indexKey (s.kv.perform indexKey s.now
      (KvSessionStore.save structures record ttl)).2 s.now := by
  rw [perform_save]
  obtain ⟨honly, hown⟩ := hsafe
  refine ⟨fun id record' hget => ?_, fun user hkey => ?_, fun user hkey => ?_⟩
  · rcases Lapsing.get_set_eq_some.mp hget with ⟨rfl, -, rfl⟩ | ⟨-, hget⟩
    · rfl
    · exact h.keyed id record' hget
  · by_cases huser : record.userId = some user
    · rw [huser, worked_ok hkey]
      exact nodup_listed_added (h.nodup user hkey)
    · rw [listed_worked_of_ne (fun _ => listed_added_of_ne) huser]
      exact h.nodup user hkey
  · by_cases huser : record.userId = some user
    · have hown' := hown user huser hkey
      simp only [huser, worked_ok hkey]
      -- the records of the user once this one is saved
      have hnow : ∀ id record', (s.kv.data.set record.id record
          (some (s.now + ttl))).get s.now id = some record' →
          (id = record.id ∨ id ∈ listed s.kv.index s.now user ↔ record'.userId = some user) := by
        intro id record' hget
        rcases Lapsing.get_set_eq_some.mp hget with ⟨rfl, -, rfl⟩ | ⟨hne, hget⟩
        · exact iff_of_true (.inl rfl) huser
        · rw [← h.names user hkey s.now le_rfl id record' hget]
          exact or_iff_right hne
      have hend : ∀ T, s.now + ttl ≤ T → Ended s.kv T user [record.id] →
          Ended ⟨s.kv.data.set record.id record (some (s.now + ttl)),
            added structures s.now user record.id ttl s.kv.index⟩ T user [] := by
        intro T hT hended id _ record' hget
        rcases Lapsing.get_set_eq_some.mp hget with ⟨rfl, hlasts, rfl⟩ | ⟨hne, hget⟩
        · exact absurd (Lapsing.lasts_some.mp hlasts) (Nat.not_lt.mpr hT)
        · exact hended id (mt List.mem_singleton.mp hne) record' hget
      cases structures with
      | true =>
        rw [if_pos rfl] at hown'
        refine names_of_window (fun _ _ => listed_added_set) (fun id record' hget => ?_)
          (hend _ (Nat.add_le_add_left (le_max_left ttl 60000) _) hown')
        rw [List.mem_insert_iff]
        exact hnow id record' hget
      | false =>
        rw [if_neg Bool.false_ne_true] at hown'
        by_cases hid : record.id ∈ listed s.kv.index s.now user
        · rw [if_pos hid] at hown'
          intro t hle id record' hget
          rw [listed_added_list, if_pos hid]
          rcases Lapsing.get_set_eq_some.mp hget with ⟨rfl, hlasts, rfl⟩ | ⟨-, hget⟩
          · exact iff_of_true (hown' t hle (Lapsing.lasts_some.mp hlasts)) huser
          · exact h.names user hkey t hle id record' hget
        · rw [if_neg hid] at hown'
          refine names_of_window (fun t _ => (listed_added_list).trans (if_neg hid))
            (fun id record' hget => ?_) (hend _ le_rfl hown')
          rw [List.mem_append, List.mem_singleton, or_comm]
          exact hnow id record' hget
    · intro t hle id record' hget
      rw [listed_worked_of_ne (fun _ => listed_added_of_ne) huser]
      rcases Lapsing.get_set_eq_some.mp hget with ⟨rfl, hlasts, rfl⟩ | ⟨-, hget⟩
      · have hlt : t < s.now + ttl := Lapsing.lasts_some.mp hlasts
        have honly' := honly (by omega) user hkey huser
        exact iff_of_false (fun hid => honly' (mem_listed_mono hle hid)) huser
      · exact h.names user hkey t hle id record' hget

omit [DecidableEq κ] [DecidableEq U] in
/-- Records may go. -/
lemma Covered.of_data (h : Covered indexKey kv now) {data : Lapsing κ (SessionRecord κ U)}
    (hdata : ∀ t id record, data.get t id = some record → kv.data.get t id = some record) :
    Covered indexKey ⟨data, kv.index⟩ now where
  keyed id record hget := h.keyed id record (hdata now id record hget)
  nodup := h.nodup
  names user hkey t hle id record hget :=
    h.names user hkey t hle id record (hdata t id record hget)

/-- Identifiers without a record may be removed from an index, as long as no session of the user
outlives the end of a list that is written back. -/
lemma Covered.of_removedAll (h : Covered indexKey kv now) (ids : List κ)
    {data : Lapsing κ (SessionRecord κ U)}
    (hdata : ∀ t, now ≤ t → ∀ id record, data.get t id = some record →
      id ∉ ids ∧ kv.data.get t id = some record)
    (hend : structures = false → ids ≠ [] → ∀ id record,
      data.get (now + KvSessionStore.indexTtl) id = some record → record.userId ≠ some user) :
    Covered indexKey ⟨data, removedAll structures now user ids kv.index⟩ now := by
  have hnodup : ∀ user', indexKey user' = .ok () →
      (listed (removedAll structures now user ids kv.index) now user').Nodup := by
    intro user' hkey
    by_cases huser : user' = user
    · subst huser
      suffices ∀ index : Lapsing U (List κ), (listed index now user').Nodup →
          (listed (removedAll structures now user' ids index) now user').Nodup from
        this kv.index (h.nodup user' hkey)
      intro index hindex
      induction ids generalizing index with
      | nil => exact hindex
      | cons id ids ih =>
        exact ih (fun t hle id record hget => ⟨fun hid =>
          (hdata t hle id record hget).1 (List.mem_cons_of_mem _ hid),
          (hdata t hle id record hget).2⟩) (fun hs _ => hend hs (List.cons_ne_nil _ _)) _
          (nodup_listed_removed hindex)
    · rw [listed_removedAll_of_ne huser]
      exact h.nodup user' hkey
  refine ⟨fun id record hget => h.keyed id record (hdata now le_rfl id record hget).2, hnodup,
    fun user' hkey => ?_⟩
  by_cases huser : user' = user
  · subst huser
    cases structures with
    | true =>
      intro t hle id record hget
      obtain ⟨hid, hget⟩ := hdata t hle id record hget
      rw [listed_removedAll_set hle, List.mem_filter, decide_eq_true_eq, and_iff_left hid]
      exact h.names user' hkey t hle id record hget
    | false =>
      by_cases hids : ids = []
      · subst hids
        intro t hle id record hget
        exact h.names user' hkey t hle id record (hdata t hle id record hget).2
      · refine names_of_window (fun t hle => listed_removedAll_list hle hids)
          (fun id record hget => ?_) (fun id _ => hend rfl hids id)
        obtain ⟨hid, hget⟩ := hdata now le_rfl id record hget
        rw [List.mem_filter, decide_eq_true_eq, and_iff_left hid]
        exact h.names user' hkey now le_rfl id record hget
  · intro t hle id record hget
    rw [listed_removedAll_of_ne huser]
    exact h.names user' hkey t hle id record (hdata t hle id record hget).2

lemma covered_delete {s : SessionRun κ U} (h : Covered indexKey s.kv s.now)
    (hsafe : Extends indexKey structures s (.delete id)) :
    Covered indexKey (s.kv.perform indexKey s.now
      (KvSessionStore.delete structures id)).2 s.now := by
  rw [perform_delete]
  have hdata : ∀ t id' record, (s.kv.data.delete id).get t id' = some record →
      id' ≠ id ∧ s.kv.data.get t id' = some record :=
    fun t id' record hget => Lapsing.get_delete_eq_some.mp hget
  cases hget : s.kv.data.get s.now id with
  | none => exact h.of_data fun t id' record hget => (hdata t id' record hget).2
  | some record =>
    rw [Option.bind_some]
    cases huser : record.userId with
    | none => exact h.of_data fun t id' record hget => (hdata t id' record hget).2
    | some user =>
      cases hkey : indexKey user with
      | error error =>
        rw [worked_error hkey]
        exact h.of_data fun t id' record hget => (hdata t id' record hget).2
      | ok _ =>
        rw [worked_ok hkey]
        refine h.of_removedAll [id] (fun t _ id' record' hget' => ?_)
          (fun hs _ id' record' hget' => ?_)
        · rw [List.mem_singleton]
          exact hdata t id' record' hget'
        · obtain ⟨hne, hget'⟩ := hdata _ id' record' hget'
          exact hsafe hs record user hget huser hkey id' (mt List.mem_singleton.mp hne) record'
            hget'

lemma covered_listForUser {s : SessionRun κ U} (h : Covered indexKey s.kv s.now)
    (hsafe : Extends indexKey structures s (.listForUser user)) :
    Covered indexKey (s.kv.perform indexKey s.now
      (KvSessionStore.listForUser structures user)).2 s.now := by
  cases hkey : indexKey user with
  | error error =>
    rw [perform_listForUser_error hkey]
    exact h
  | ok _ =>
    rw [perform_listForUser hkey]
    refine h.of_removedAll _ (fun t hle id record hget => ⟨fun hid => ?_, hget⟩)
      (fun hs hstale id record hget => hsafe hs hkey hstale id List.not_mem_nil record hget)
    have hnone := (List.mem_filter.mp hid).2
    rw [Lapsing.get_mono hle hget] at hnone
    cases hnone

/-- The sessions that a deletion of the sessions of a user goes through. -/
lemma covered_deleteForUser {s : SessionRun κ U} {except : Option κ}
    (h : Covered indexKey s.kv s.now)
    (hsafe : Extends indexKey structures s (.deleteForUser user except)) :
    Covered indexKey (s.kv.perform indexKey s.now
      (KvSessionStore.deleteForUser structures user except)).2 s.now := by
  cases hkey : indexKey user with
  | error error =>
    rw [perform_deleteForUser_error hkey]
    exact h
  | ok _ =>
    obtain ⟨count, hperform⟩ := perform_deleteForUser structures s.now s.kv except hkey
    rw [hperform]
    have hdata : ∀ t id record, (dropAll ((listed s.kv.index s.now user).filter fun id =>
        except ≠ some id) s.kv.data).get t id = some record →
        id ∉ (listed s.kv.index s.now user).filter (fun id => except ≠ some id) ∧
          s.kv.data.get t id = some record := by
      intro t id record hget
      rw [get_dropAll] at hget
      split at hget
      · cases hget
      · next hid => exact ⟨hid, hget⟩
    refine h.of_removedAll _ (fun t _ id record hget => hdata t id record hget)
      (fun hs hids id record hget huser => ?_)
    obtain ⟨hid, hget⟩ := hdata _ id record hget
    have hlisted : id ∈ listed s.kv.index s.now user :=
      (h.names user hkey s.now le_rfl id record
        (Lapsing.get_mono (Nat.le_add_right _ _) hget)).mpr huser
    have hexcept : except = some id := by
      by_contra hne
      exact hid (List.mem_filter.mpr ⟨hlisted, decide_eq_true hne⟩)
    exact hsafe hs hkey hids id hexcept record hget huser

/-- What is listed at once when an identifier is added. -/
lemma mem_listed_added {id' : κ} (hpos : 0 < ttl) :
    id' ∈ listed (added structures now user id ttl index) now user ↔
      id' = id ∨ id' ∈ listed index now user := by
  cases structures with
  | true =>
    have hnow : now < now + max ttl 60000 := by omega
    rw [listed_added_set, if_pos hnow, List.mem_insert_iff]
  | false =>
    have hnow : now < now + ttl := by omega
    rw [listed_added_list, if_pos hnow]
    split
    · next hid =>
      refine ⟨Or.inr, ?_⟩
      rintro (rfl | hid')
      · exact hid
      · exact hid'
    · rw [List.mem_append, List.mem_singleton, or_comm]

lemma remaining_pos {e : Option ℕ} (h : Lasts e now) : 0 < remaining now e := by
  cases e with
  | none =>
    rw [remaining, Option.map_none, Option.getD_none]
    decide
  | some x =>
    have hlt : now < x := Lapsing.lasts_some.mp h
    rw [remaining, Option.map_some, Option.getD_some]
    omega

/-- The end that renaming gives to the index of the user. -/
def renamedEnd (structures : Bool) (now ttl : ℕ) : ℕ :=
  if structures then now + max ttl 60000 else now + KvSessionStore.indexTtl

/-- The index of the user of a session that is renamed. -/
lemma listed_renamed {source target : κ} (hle : now ≤ t) :
    listed (removed structures now user source
        (added structures now user target ttl index)) t user =
      if t < renamedEnd structures now ttl then
        (listed (added structures now user target ttl index) now user).filter fun held =>
          held ≠ source
      else [] := by
  cases structures with
  | true =>
    have hnow : now < now + max ttl 60000 := by omega
    rw [listed_removed_set hle, listed_added_set, listed_added_set, if_pos hnow, renamedEnd,
      if_pos rfl]
    split <;> rfl
  | false => exact listed_removed_list hle

lemma listed_renamed_of_ne {source target : κ} {userId : Option U} (h : userId ≠ some user) :
    listed (worked indexKey userId (fun user index => removed structures now user source
      (added structures now user target ttl index)) index) t user = listed index t user :=
  listed_worked_of_ne
    (fun _ hne => (listed_removed_of_ne hne).trans (listed_added_of_ne hne)) h

lemma covered_rename {s : SessionRun κ U} {source target : κ}
    (h : Covered indexKey s.kv s.now)
    (hsafe : Extends indexKey structures s (.rename source target)) :
    Covered indexKey (s.kv.perform indexKey s.now
      (KvSessionStore.rename structures source target)).2 s.now := by
  cases hlive : s.kv.data.live s.now source with
  | none =>
    rw [perform_rename_of_none hlive]
    exact h
  | some entry =>
    obtain ⟨record, e⟩ := entry
    have hpos : 0 < remaining s.now e := remaining_pos (Lapsing.live_eq_some.mp hlive).2
    obtain ⟨honly, hown⟩ := hsafe record e hlive
    rw [perform_rename hlive]
    -- what is there afterwards
    have hdata : ∀ t id record', ((s.kv.data.set target { record with id := target }
        (some (s.now + remaining s.now e))).delete source).get t id = some record' →
        id ≠ source ∧ ((id = target ∧ t < s.now + remaining s.now e ∧
          { record with id := target } = record') ∨
          (id ≠ target ∧ s.kv.data.get t id = some record')) := by
      intro t id record' hget
      obtain ⟨hne, hget⟩ := Lapsing.get_delete_eq_some.mp hget
      rcases Lapsing.get_set_eq_some.mp hget with ⟨htarget, hlasts, heq⟩ | hget
      · exact ⟨hne, .inl ⟨htarget, Lapsing.lasts_some.mp hlasts, heq⟩⟩
      · exact ⟨hne, .inr hget⟩
    refine ⟨fun id record' hget => ?_, fun user hkey => ?_, fun user hkey => ?_⟩
    · obtain ⟨-, ⟨rfl, -, rfl⟩ | ⟨-, hget⟩⟩ := hdata s.now id record' hget
      · rfl
      · exact h.keyed id record' hget
    · by_cases huser : record.userId = some user
      · rw [huser, worked_ok hkey]
        exact nodup_listed_removed (nodup_listed_added (h.nodup user hkey))
      · rw [listed_renamed_of_ne huser]
        exact h.nodup user hkey
    · by_cases huser : record.userId = some user
      · have hown' := hown user huser hkey
        have hindex : worked indexKey record.userId (fun user index =>
            removed structures s.now user source
              (added structures s.now user target (remaining s.now e) index)) s.kv.index =
            removed structures s.now user source
              (added structures s.now user target (remaining s.now e) s.kv.index) := by
          rw [huser, worked_ok hkey]
        rw [hindex]
        refine names_of_window (fun t hle => listed_renamed hle) (fun id record' hget => ?_)
          (fun id _ record' hget => ?_)
        · obtain ⟨hne, hget⟩ := hdata s.now id record' hget
          rw [List.mem_filter, decide_eq_true_eq, and_iff_left hne, mem_listed_added hpos]
          rcases hget with ⟨rfl, -, rfl⟩ | ⟨htarget, hget⟩
          · exact iff_of_true (.inl rfl) huser
          · rw [← h.names user hkey s.now le_rfl id record' hget]
            exact or_iff_right htarget
        · obtain ⟨hne, ⟨rfl, hlt, rfl⟩ | ⟨htarget, hget⟩⟩ := hdata _ id record' hget
          · exfalso
            rw [renamedEnd] at hlt
            cases structures with
            | true =>
              rw [if_pos rfl] at hlt
              omega
            | false =>
              have hshort := hown'.2 (Ne.symm hne)
              rw [if_neg Bool.false_ne_true] at hlt
              omega
          · have hbut : id ∉ [source, target] := by simp [hne, htarget]
            cases structures with
            | true => exact hown' id hbut record' hget
            | false => exact hown'.1 id hbut record' hget
      · intro t hle id record' hget
        rw [listed_renamed_of_ne huser]
        obtain ⟨hne, ⟨rfl, -, rfl⟩ | ⟨-, hget⟩⟩ := hdata t id record' hget
        · have hid : id ∉ listed s.kv.index s.now user := honly (Ne.symm hne) user hkey huser
          exact iff_of_false (fun hid' => hid (mem_listed_mono hle hid')) huser
        · exact h.names user hkey t hle id record' hget

/-! ### What exact listings require

When every listing is exact after a call, the call was one that extends the indexes. -/

lemma extends_save {s : SessionRun κ U} (h : Covered indexKey s.kv s.now)
    (hlists : ∀ t, s.now ≤ t → ∀ user, Lists indexKey structures
      (s.kv.perform indexKey s.now (KvSessionStore.save structures record ttl)).2 t user) :
    Extends indexKey structures s (.save record ttl) := by
  rw [perform_save] at hlists
  have hkeyed : ∀ id record', (s.kv.data.set record.id record (some (s.now + ttl))).get s.now id =
      some record' → record'.id = id := by
    intro id record' hget
    rcases Lapsing.get_set_eq_some.mp hget with ⟨rfl, -, rfl⟩ | ⟨-, hget⟩
    · rfl
    · exact h.keyed id record' hget
  -- the record itself, and the other records, for as long as they are there
  have hsaved : ∀ t, t < s.now + ttl →
      (s.kv.data.set record.id record (some (s.now + ttl))).get t record.id = some record :=
    fun t hlt => Lapsing.get_set_eq_some.mpr (.inl ⟨rfl, Lapsing.lasts_some.mpr hlt, rfl⟩)
  have hother : ∀ t id record', id ∉ [record.id] → s.kv.data.get t id = some record' →
      (s.kv.data.set record.id record (some (s.now + ttl))).get t id = some record' :=
    fun t id record' hid hget =>
      Lapsing.get_set_eq_some.mpr (.inr ⟨fun heq => hid (List.mem_singleton.mpr heq), hget⟩)
  refine ⟨fun hpos user hkey hne hid => ?_, fun user huser hkey => ?_⟩
  · refine not_lists_of_foreign hkey (hsaved s.now (by omega)) hne ?_ (hlists s.now le_rfl user)
    rw [listed_worked_of_ne (fun _ => listed_added_of_ne) hne]
    exact hid
  · simp only [huser, worked_ok hkey] at hlists
    cases structures with
    | true =>
      rw [if_pos rfl]
      intro id hid record' hget huser'
      refine not_lists_of_unlisted hkey hkeyed (Nat.le_add_right _ _)
        (hother _ id record' hid hget) huser' ?_ (hlists _ (Nat.le_add_right _ _) user)
      rw [listed_added_set, if_neg (Nat.lt_irrefl _)]
      exact List.not_mem_nil
    | false =>
      rw [if_neg Bool.false_ne_true]
      split
      · next hid =>
        intro t hle hlt
        by_contra hnot
        refine not_lists_of_unlisted hkey hkeyed hle (hsaved t hlt) huser ?_ (hlists t hle user)
        rw [listed_added_list, if_pos hid]
        exact hnot
      · next hnot =>
        intro id hid record' hget huser'
        refine not_lists_of_unlisted hkey hkeyed (Nat.le_add_right _ _)
          (hother _ id record' hid hget) huser' ?_ (hlists _ (Nat.le_add_right _ _) user)
        rw [listed_added_list, if_neg hnot, if_neg (Nat.lt_irrefl _)]
        exact List.not_mem_nil

/-- When identifiers were removed from a list, every session of its user ends within the time
that a list is given. -/
lemma ended_of_lists (ids : List κ) {data : Lapsing κ (SessionRecord κ U)}
    (hkey : indexKey user = .ok ()) (hids : ids ≠ [])
    (hkeyed : ∀ id record, data.get now id = some record → record.id = id)
    (hlists : ∀ t, now ≤ t → ∀ user', Lists indexKey false
      ⟨data, removedAll false now user ids kv.index⟩ t user')
    (hget : data.get (now + KvSessionStore.indexTtl) id = some record) :
    record.userId ≠ some user := by
  intro huser
  refine not_lists_of_unlisted hkey hkeyed (Nat.le_add_right _ _) hget huser ?_
    (hlists _ (Nat.le_add_right _ _) user)
  rw [listed_removedAll_list (Nat.le_add_right _ _) hids, if_neg (Nat.lt_irrefl _)]
  exact List.not_mem_nil

lemma extends_delete {s : SessionRun κ U} (h : Covered indexKey s.kv s.now)
    (hlists : ∀ t, s.now ≤ t → ∀ user, Lists indexKey structures
      (s.kv.perform indexKey s.now (KvSessionStore.delete structures id)).2 t user) :
    Extends indexKey structures s (.delete id) := by
  rintro rfl record user hget huser hkey id' hid record' hget' huser'
  rw [perform_delete, hget, Option.bind_some, huser, worked_ok hkey] at hlists
  refine ended_of_lists [id] hkey (List.cons_ne_nil _ _) (fun id' record hget => ?_)
    hlists (Lapsing.get_delete_eq_some.mpr ⟨mt List.mem_singleton.mpr hid, hget'⟩) huser'
  exact h.keyed id' record (Lapsing.get_delete_eq_some.mp hget).2

lemma extends_listForUser {s : SessionRun κ U} (h : Covered indexKey s.kv s.now)
    (hlists : ∀ t, s.now ≤ t → ∀ user', Lists indexKey structures
      (s.kv.perform indexKey s.now (KvSessionStore.listForUser structures user)).2 t user') :
    Extends indexKey structures s (.listForUser user) := by
  rintro rfl hkey hstale id _ record hget
  rw [perform_listForUser hkey] at hlists
  exact ended_of_lists _ hkey hstale h.keyed hlists hget

lemma extends_deleteForUser {s : SessionRun κ U} {except : Option κ}
    (h : Covered indexKey s.kv s.now)
    (hlists : ∀ t, s.now ≤ t → ∀ user', Lists indexKey structures
      (s.kv.perform indexKey s.now
        (KvSessionStore.deleteForUser structures user except)).2 t user') :
    Extends indexKey structures s (.deleteForUser user except) := by
  rintro rfl hkey hids id rfl record hget
  obtain ⟨count, hperform⟩ := perform_deleteForUser false s.now s.kv (some id) hkey
  rw [hperform] at hlists
  refine ended_of_lists _ hkey hids (fun id' record' hget' => ?_) hlists
    ((get_dropAll).trans ((if_neg fun hid => ?_).trans hget))
  · rw [get_dropAll] at hget'
    split at hget'
    · cases hget'
    · exact h.keyed id' record' hget'
  · exact of_decide_eq_true (List.mem_filter.mp hid).2 rfl

lemma extends_rename {s : SessionRun κ U} {source target : κ} (h : Covered indexKey s.kv s.now)
    (hlists : ∀ t, s.now ≤ t → ∀ user, Lists indexKey structures
      (s.kv.perform indexKey s.now (KvSessionStore.rename structures source target)).2 t user) :
    Extends indexKey structures s (.rename source target) := by
  intro record e hlive
  rw [perform_rename hlive] at hlists
  have hpos : 0 < remaining s.now e := remaining_pos (Lapsing.live_eq_some.mp hlive).2
  have hkeyed : ∀ id record', ((s.kv.data.set target { record with id := target }
      (some (s.now + remaining s.now e))).delete source).get s.now id = some record' →
      record'.id = id := by
    intro id record' hget
    rcases Lapsing.get_set_eq_some.mp (Lapsing.get_delete_eq_some.mp hget).2 with
      ⟨rfl, -, rfl⟩ | ⟨-, hget⟩
    · rfl
    · exact h.keyed id record' hget
  have hrenamed : ∀ t, source ≠ target → t < s.now + remaining s.now e →
      ((s.kv.data.set target { record with id := target }
        (some (s.now + remaining s.now e))).delete source).get t target =
          some { record with id := target } :=
    fun t hne hlt => Lapsing.get_delete_eq_some.mpr ⟨Ne.symm hne,
      Lapsing.get_set_eq_some.mpr (.inl ⟨rfl, Lapsing.lasts_some.mpr hlt, rfl⟩)⟩
  have hother : ∀ t id record', id ∉ [source, target] → s.kv.data.get t id = some record' →
      ((s.kv.data.set target { record with id := target }
        (some (s.now + remaining s.now e))).delete source).get t id = some record' := by
    intro t id record' hid hget
    obtain ⟨hsource, htarget⟩ : id ≠ source ∧ id ≠ target := by simpa using hid
    exact Lapsing.get_delete_eq_some.mpr ⟨hsource,
      Lapsing.get_set_eq_some.mpr (.inr ⟨htarget, hget⟩)⟩
  refine ⟨fun hne user hkey huser hid => ?_, fun user huser hkey => ?_⟩
  · have huser' : ({ record with id := target } : SessionRecord κ U).userId ≠ some user := huser
    refine not_lists_of_foreign hkey (hrenamed s.now hne (by omega)) huser' ?_
      (hlists s.now le_rfl user)
    rw [listed_renamed_of_ne huser]
    exact hid
  · have hle : s.now ≤ renamedEnd structures s.now (remaining s.now e) := by
      rw [renamedEnd]
      split <;> exact Nat.le_add_right _ _
    have hend : listed (removed structures s.now user source (added structures s.now user target
        (remaining s.now e) s.kv.index)) (renamedEnd structures s.now (remaining s.now e)) user =
        [] := by
      rw [listed_renamed hle, if_neg (Nat.lt_irrefl _)]
    have hended : Ended s.kv (renamedEnd structures s.now (remaining s.now e)) user
        [source, target] := by
      intro id hid record' hget huser'
      refine not_lists_of_unlisted hkey hkeyed hle (hother _ id record' hid hget) huser' ?_
        (hlists _ hle user)
      simp only [huser, worked_ok hkey]
      rw [hend]
      exact List.not_mem_nil
    cases structures with
    | true => exact hended
    | false =>
      refine ⟨hended, fun hne => ?_⟩
      by_contra hlong
      have huser' : ({ record with id := target } : SessionRecord κ U).userId = some user := huser
      refine not_lists_of_unlisted hkey hkeyed hle (hrenamed _ hne ?_) huser' ?_
        (hlists _ hle user)
      · rw [renamedEnd, if_neg Bool.false_ne_true]
        omega
      · simp only [huser, worked_ok hkey]
        rw [hend]
        exact List.not_mem_nil

/-! ### Runs -/

/-- What holds in every state of a run whose calls extend the indexes. -/
def Sound (indexKey : U → Except Kv.KeyError Unit) (s : SessionRun κ U) : Prop :=
  Covered indexKey s.kv s.now ∧ s.Swept

lemma Sound.exact {s : SessionRun κ U} (h : Sound indexKey s) : Exact indexKey structures s :=
  ⟨fun _ hle _ => h.1.lists hle, h.2⟩

omit [DecidableEq κ] [DecidableEq U] in
lemma swept_of_none {s : SessionRun κ U} (h : s.swept = none) : s.Swept := by
  intro user except hswept
  rw [h] at hswept
  cases hswept

/-- After a deletion that succeeds, what is left of the user is what was excepted. -/
lemma swept_deleteForUser {s : SessionRun κ U} {except : Option κ}
    (h : Covered indexKey s.kv s.now) (hkey : indexKey user = .ok ()) :
    Swept ⟨(s.kv.perform indexKey s.now
      (KvSessionStore.deleteForUser structures user except)).2, s.now, some (user, except)⟩ := by
  rintro _ _ ⟨rfl, rfl⟩ id record hget huser
  obtain ⟨count, hperform⟩ := perform_deleteForUser structures s.now s.kv except hkey
  simp only [hperform, get_dropAll] at hget
  split at hget
  · cases hget
  · next hid =>
    have hlisted : id ∈ listed s.kv.index s.now user :=
      (h.names user hkey s.now le_rfl id record hget).mpr huser
    by_contra hne
    exact hid (List.mem_filter.mpr ⟨hlisted, decide_eq_true hne⟩)

lemma sound_step {s s' : SessionRun κ U} {call : SessionCall κ U} (h : Sound indexKey s)
    (hsafe : Extends indexKey structures s call) (hstep : step indexKey structures s call = some s') :
    Sound indexKey s' := by
  cases call with
  | wait millis =>
    obtain rfl := Option.some.inj hstep
    refine ⟨h.1.later (Nat.le_add_right _ _), fun user except hswept id record hget huser => ?_⟩
    exact h.2 user except hswept id record (Lapsing.get_mono (Nat.le_add_right _ _) hget) huser
  | save record ttl =>
    obtain rfl := Option.some.inj hstep
    exact ⟨covered_save h.1 hsafe, swept_of_none rfl⟩
  | delete id =>
    obtain rfl := Option.some.inj hstep
    exact ⟨covered_delete h.1 hsafe, swept_of_none rfl⟩
  | rename source target =>
    obtain rfl := Option.some.inj hstep
    exact ⟨covered_rename h.1 hsafe, swept_of_none rfl⟩
  | listForUser user =>
    obtain rfl := Option.some.inj hstep
    exact ⟨covered_listForUser h.1 hsafe, swept_of_none rfl⟩
  | deleteForUser user except =>
    have hcovered := covered_deleteForUser h.1 hsafe
    cases hkey : indexKey user with
    | error error =>
      simp only [step, perform_deleteForUser_error hkey] at hstep
      obtain rfl := Option.some.inj hstep
      exact ⟨hcovered, swept_of_none rfl⟩
    | ok _ =>
      obtain ⟨count, hperform⟩ := perform_deleteForUser structures s.now s.kv except hkey
      simp only [step, hperform] at hstep
      obtain rfl := Option.some.inj hstep
      exact ⟨hcovered, swept_deleteForUser h.1 hkey⟩

/-- A call that does not extend the indexes leaves a state in which some listing goes wrong. -/
lemma extends_of_exact {s s' : SessionRun κ U} {call : SessionCall κ U} (h : Sound indexKey s)
    (hstep : step indexKey structures s call = some s') (hexact : Exact indexKey structures s') :
    Extends indexKey structures s call := by
  cases call with
  | wait millis => trivial
  | save record ttl =>
    obtain rfl := Option.some.inj hstep
    exact extends_save h.1 hexact.1
  | delete id =>
    obtain rfl := Option.some.inj hstep
    exact extends_delete h.1 hexact.1
  | rename source target =>
    obtain rfl := Option.some.inj hstep
    exact extends_rename h.1 hexact.1
  | listForUser user =>
    obtain rfl := Option.some.inj hstep
    exact extends_listForUser h.1 hexact.1
  | deleteForUser user except =>
    simp only [step] at hstep
    split at hstep <;> obtain rfl := Option.some.inj hstep <;>
      exact extends_deleteForUser h.1 hexact.1

/-- Whatever the sequence of calls, the listings and the deletions of a run are exact in every
state if and only if every call of the run extends the indexes. -/
theorem always_exact_iff (structures : Bool) (now : ℕ) (calls : List (SessionCall κ U)) :
    Machine.Always (step indexKey structures) (Exact indexKey structures) (start now) calls ↔
      Machine.Meets (step indexKey structures) (Extends indexKey structures) (start now) calls :=
  Machine.always_iff_meets
    (fun _ _ _ h hsafe hstep => sound_step h hsafe hstep)
    (fun _ h => h.exact)
    (fun _ _ _ h hunsafe hstep hexact => hunsafe (extends_of_exact h hstep hexact))
    ⟨covered_empty, swept_of_none rfl⟩ calls

/-- A session of the user `ada`. -/
def adaSession (id : String) : SessionRecord String String where
  id := id
  userId := some "ada"
  authHash := []
  data := .object []
  createdAt := 0
  lastSeenAt := 0

/-- With sets, a second session of thirty seconds takes the index down with it after a minute;
with lists, a session that is saved again after ten days outlives its index after fourteen. Then
a deletion of all sessions of the user finds none. -/
theorem always_exact_fails :
    (¬ Machine.Always (step (fun _ => .ok ()) true) (Exact (fun _ => .ok ()) true) (start 0)
      [.save (adaSession "laptop") 1209600000, .save (adaSession "phone") 30000, .wait 60000,
        .deleteForUser "ada" none]) ∧
    ¬ Machine.Always (step (fun _ => .ok ()) false) (Exact (fun _ => .ok ()) false) (start 0)
      [.save (adaSession "laptop") 1209600000, .wait 864000000,
        .save (adaSession "laptop") 1209600000, .wait 345600000, .deleteForUser "ada" none] := by
  constructor
  · intro h
    have hswept := (h.of_exec rfl).2 "ada" none rfl "laptop" (adaSession "laptop") rfl rfl
    cases hswept
  · intro h
    have hswept := (h.of_exec rfl).2 "ada" none rfl "laptop" (adaSession "laptop") rfl rfl
    cases hswept

end SessionRun

end Moso.Auth
