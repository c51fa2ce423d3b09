import Moso.Auth.Session.Store

/-!
# What the calls of the session store do

Calls made one at a time, each at an instant of its own. What a call leaves behind is read off
two views of the store, at that instant and at every later one: the record under an identifier,
and the identifiers listed in the index of a user.
-/

namespace Moso.Auth

open Program (interpret_call interpret_call_ok interpret_bind_ok interpret_bind_error)
open SessionCmd (call)
open Lapsing (Lasts)

variable {κ U : Type} [DecidableEq κ] [DecidableEq U]

namespace SessionKv

/-- Carry out a call at an instant. -/
def perform {α : Type} (indexKey : U → Except Kv.KeyError Unit) (now : ℕ)
    (p : SessionProgram κ U α) (kv : SessionKv κ U) : Except SessionError α × SessionKv κ U :=
  p.run.interpret (answer indexKey now) kv

/-- The identifiers in an index, at an instant. -/
def listed (index : Lapsing U (List κ)) (t : ℕ) (user : U) : List κ := (index.get t user).getD []

variable {indexKey : U → Except Kv.KeyError Unit} {structures : Bool} {now t ttl : ℕ}
variable {user user' : U} {id : κ} {kv kv' : SessionKv κ U} {index : Lapsing U (List κ)}

section Perform

variable {α β : Type} {c : SessionCmd κ U} {error : Kv.KeyError}

lemma answer_ok (h : ∀ user, c.user = some user → indexKey user = .ok ()) :
    kv.answer indexKey now c = (.ok (kv.exec now c).1, (kv.exec now c).2) := by
  rw [answer]
  cases huser : c.user with
  | none => rfl
  | some user => rw [Option.map_some, h user huser]

lemma answer_error (hc : c.user = some user) (h : indexKey user = .error error) :
    kv.answer indexKey now c = (.error (.unavailable error), kv) := by
  rw [answer, hc, Option.map_some, h]

lemma perform_call_bind {f : c.Result → SessionProgram κ U α}
    (h : ∀ user, c.user = some user → indexKey user = .ok ()) :
    kv.perform indexKey now (call c >>= f) =
      (kv.exec now c).2.perform indexKey now (f (kv.exec now c).1) :=
  interpret_call_ok (answer_ok h)

lemma perform_call (h : ∀ user, c.user = some user → indexKey user = .ok ()) :
    kv.perform indexKey now (call c) = (.ok (kv.exec now c).1, (kv.exec now c).2) :=
  (interpret_call).trans (answer_ok h)

lemma perform_call_error (hc : c.user = some user) (h : indexKey user = .error error) :
    kv.perform indexKey now (call c) = (.error (.unavailable error), kv) :=
  (interpret_call).trans (answer_error hc h)

lemma perform_bind_ok {p : SessionProgram κ U α} {f : α → SessionProgram κ U β} {a : α}
    (h : kv.perform indexKey now p = (.ok a, kv')) :
    kv.perform indexKey now (p >>= f) = kv'.perform indexKey now (f a) :=
  interpret_bind_ok h

lemma perform_bind_error {p : SessionProgram κ U α} {f : α → SessionProgram κ U β}
    {failure : SessionError} (h : kv.perform indexKey now p = (.error failure, kv')) :
    kv.perform indexKey now (p >>= f) = (.error failure, kv') :=
  interpret_bind_error h

@[simp] lemma perform_pure {a : α} : kv.perform indexKey now (pure a) = (.ok a, kv) := rfl

end Perform

/-! ### The index -/

/-- The index once an identifier is added. -/
def added (structures : Bool) (now : ℕ) (user : U) (id : κ) (ttl : ℕ)
    (index : Lapsing U (List κ)) : Lapsing U (List κ) :=
  if structures then
    index.set user ((listed index now user).insert id) (some (now + max ttl 60000))
  else if id ∈ listed index now user then index
  else index.set user (listed index now user ++ [id]) (some (now + ttl))

/-- The index once an identifier is removed. -/
def removed (structures : Bool) (now : ℕ) (user : U) (id : κ) (index : Lapsing U (List κ)) :
    Lapsing U (List κ) :=
  match index.live now user with
  | none             => index
  | some (ids, end_) =>
    let kept := ids.filter fun held => held ≠ id
    if structures then if kept.isEmpty then index.delete user else index.set user kept end_
    else index.set user kept (some (now + KvSessionStore.indexTtl))

lemma perform_indexAdd (h : indexKey user = .ok ()) :
    kv.perform indexKey now (KvSessionStore.indexAdd structures user id ttl) =
      (.ok (), { kv with index := added structures now user id ttl kv.index }) := by
  have hkey : ∀ user', some user = some user' → indexKey user' = .ok () := by
    rintro user' ⟨rfl⟩
    exact h
  cases structures with
  | true =>
    rw [KvSessionStore.indexAdd, if_pos rfl, perform_call_bind hkey, perform_call hkey]
    cases hlive : kv.index.live now user with
    | none =>
      have hget : kv.index.get now user = none := Lapsing.get_eq_none.mpr hlive
      simp [exec, hlive, added, listed, hget]
    | some entry =>
      obtain ⟨ids, e⟩ := entry
      have hget : kv.index.get now user = some ids := Lapsing.get_of_live hlive
      have hlasts : Lasts e now := (Lapsing.live_eq_some.mp hlive).2
      simp [exec, hlive, added, listed, hget, hlasts]
  | false =>
    rw [KvSessionStore.indexAdd, if_neg Bool.false_ne_true, perform_call_bind hkey]
    rw [added, if_neg Bool.false_ne_true]
    by_cases hid : id ∈ listed kv.index now user
    · have hread : id ∈ ((kv.exec now (.getIndex user)).1).getD [] := hid
      simp only [if_pos hread, if_pos hid]
      rfl
    · have hread : id ∉ ((kv.exec now (.getIndex user)).1).getD [] := hid
      simp only [if_neg hread, if_neg hid]
      exact perform_call hkey

lemma perform_indexAdd_error {error : Kv.KeyError} (h : indexKey user = .error error) :
    kv.perform indexKey now (KvSessionStore.indexAdd structures user id ttl) =
      (.error (.unavailable error), kv) := by
  cases structures with
  | true => exact perform_bind_error (perform_call_error rfl h)
  | false => exact perform_bind_error (perform_call_error rfl h)

lemma perform_indexRemove (h : indexKey user = .ok ()) :
    kv.perform indexKey now (KvSessionStore.indexRemove structures user id) =
      (.ok (), { kv with index := removed structures now user id kv.index }) := by
  have hkey : ∀ user', some user = some user' → indexKey user' = .ok () := by
    rintro user' ⟨rfl⟩
    exact h
  cases structures with
  | true =>
    rw [KvSessionStore.indexRemove, if_pos rfl, perform_call hkey]
    simp only [exec, setRemove, removed, if_true]
    cases kv.index.live now user with
    | none => rfl
    | some entry => simp only; split <;> rfl
  | false =>
    rw [KvSessionStore.indexRemove, if_neg Bool.false_ne_true, perform_call_bind hkey]
    cases hlive : kv.index.live now user with
    | none =>
      have hget : kv.index.get now user = none := Lapsing.get_eq_none.mpr hlive
      simp [exec, hget, removed, hlive]
    | some entry =>
      obtain ⟨ids, e⟩ := entry
      have hget : kv.index.get now user = some ids := Lapsing.get_of_live hlive
      simp only [exec, hget, removed, hlive]
      exact perform_call hkey

lemma perform_indexRemove_error {error : Kv.KeyError} (h : indexKey user = .error error) :
    kv.perform indexKey now (KvSessionStore.indexRemove structures user id) =
      (.error (.unavailable error), kv) := by
  cases structures with
  | true => exact perform_call_error rfl h
  | false => exact perform_bind_error (perform_call_error rfl h)

lemma perform_indexRead (h : indexKey user = .ok ()) :
    kv.perform indexKey now (KvSessionStore.indexRead structures user) =
      (.ok (listed kv.index now user), kv) := by
  have hkey : ∀ user', some user = some user' → indexKey user' = .ok () := by
    rintro user' ⟨rfl⟩
    exact h
  cases structures with
  | true => exact perform_call hkey
  | false => exact perform_call_bind hkey

lemma perform_indexRead_error {error : Kv.KeyError} (h : indexKey user = .error error) :
    kv.perform indexKey now (KvSessionStore.indexRead structures user) =
      (.error (.unavailable error), kv) := by
  cases structures with
  | true => exact perform_call_error rfl h
  | false => exact perform_bind_error (perform_call_error rfl h)

/-! What an index lists afterwards. -/

lemma listed_added_of_ne (h : user' ≠ user) :
    listed (added structures now user id ttl index) t user' = listed index t user' := by
  rw [added]
  split
  · rw [listed, Lapsing.get_set_of_ne h, listed]
  · split
    · rfl
    · rw [listed, Lapsing.get_set_of_ne h, listed]

lemma listed_added_set : listed (added true now user id ttl index) t user =
    if t < now + max ttl 60000 then (listed index now user).insert id else [] := by
  rw [added, if_pos rfl, listed, Lapsing.get_set_self]
  simp only [Lapsing.lasts_some]
  split <;> rfl

lemma listed_added_list : listed (added false now user id ttl index) t user =
    if id ∈ listed index now user then listed index t user
    else if t < now + ttl then listed index now user ++ [id] else [] := by
  rw [added, if_neg Bool.false_ne_true]
  split
  · rfl
  · rw [listed, Lapsing.get_set_self]
    simp only [Lapsing.lasts_some]
    split <;> rfl

lemma listed_removed_of_ne (h : user' ≠ user) :
    listed (removed structures now user id index) t user' = listed index t user' := by
  rw [removed]
  cases index.live now user with
  | none => rfl
  | some entry =>
    simp only
    split
    · split
      · rw [listed, Lapsing.get_delete_of_ne h, listed]
      · rw [listed, Lapsing.get_set_of_ne h, listed]
    · rw [listed, Lapsing.get_set_of_ne h, listed]

omit [DecidableEq κ] [DecidableEq U] in
lemma listed_eq_nil (hle : now ≤ t) (h : index.live now user = none) :
    listed index t user = [] := by
  rw [listed, Lapsing.get_eq_none_of_le hle (Lapsing.get_eq_none.mpr h)]
  rfl

omit [DecidableEq κ] [DecidableEq U] in
lemma listed_of_live {ids : List κ} {e : Option ℕ} (h : index.live now user = some (ids, e)) :
    listed index t user = if Lasts e t then ids else [] := by
  rw [listed, Lapsing.get_eq_ite_of_live h]
  split <;> rfl

lemma listed_removed_set (hle : now ≤ t) : listed (removed true now user id index) t user =
    (listed index t user).filter fun held => held ≠ id := by
  rw [removed]
  cases hlive : index.live now user with
  | none =>
    simp only
    rw [listed_eq_nil hle hlive, List.filter_nil]
  | some entry =>
    obtain ⟨ids, e⟩ := entry
    simp only [if_true]
    rw [listed_of_live hlive]
    split
    · next hempty =>
      rw [listed, Lapsing.get_delete_self]
      split
      · exact (List.isEmpty_iff.mp hempty).symm
      · rfl
    · rw [listed, Lapsing.get_set_self]
      split <;> rfl

/-- A list that is written back is given ninety days. -/
lemma listed_removed_list (hle : now ≤ t) : listed (removed false now user id index) t user =
    if t < now + KvSessionStore.indexTtl then
      (listed index now user).filter fun held => held ≠ id
    else [] := by
  rw [removed]
  cases hlive : index.live now user with
  | none =>
    simp only
    rw [listed_eq_nil hle hlive, listed_eq_nil le_rfl hlive, List.filter_nil, ite_self]
  | some entry =>
    obtain ⟨ids, e⟩ := entry
    simp only [Bool.false_eq_true, if_false]
    rw [listed, Lapsing.get_set_self, listed, Lapsing.get_of_live hlive]
    simp only [Lapsing.lasts_some]
    split <;> rfl

def removedAll (structures : Bool) (now : ℕ) (user : U) (ids : List κ)
    (index : Lapsing U (List κ)) : Lapsing U (List κ) :=
  ids.foldl (fun index id => removed structures now user id index) index

lemma listed_removedAll_of_ne {ids : List κ} (h : user' ≠ user) :
    listed (removedAll structures now user ids index) t user' = listed index t user' := by
  induction ids generalizing index with
  | nil => rfl
  | cons id ids ih => exact ih.trans (listed_removed_of_ne h)

lemma listed_removedAll_set {ids : List κ} (hle : now ≤ t) :
    listed (removedAll true now user ids index) t user =
      (listed index t user).filter fun held => held ∉ ids := by
  induction ids generalizing index with
  | nil => simp [removedAll]
  | cons id ids ih =>
    have hcons : removedAll true now user (id :: ids) index =
        removedAll true now user ids (removed true now user id index) := rfl
    rw [hcons, ih, listed_removed_set hle, List.filter_filter]
    apply List.filter_congr
    intro held _
    simp [Bool.and_comm]

lemma listed_removedAll_list {ids : List κ} (hle : now ≤ t) (hids : ids ≠ []) :
    listed (removedAll false now user ids index) t user =
      if t < now + KvSessionStore.indexTtl then
        (listed index now user).filter fun held => held ∉ ids
      else [] := by
  induction ids generalizing index with
  | nil => exact absurd rfl hids
  | cons id ids ih =>
    have hcons : removedAll false now user (id :: ids) index =
        removedAll false now user ids (removed false now user id index) := rfl
    rw [hcons]
    by_cases hnil : ids = []
    · subst hnil
      rw [removedAll, List.foldl_nil, listed_removed_list hle]
      simp
    · have hnow : now < now + KvSessionStore.indexTtl := by
        rw [KvSessionStore.indexTtl]
        omega
      rw [ih hnil, listed_removed_list le_rfl, if_pos hnow, List.filter_filter]
      congr 1
      apply List.filter_congr
      intro held _
      simp [Bool.and_comm]

lemma perform_removeAll {ids : List κ} (h : indexKey user = .ok ()) :
    kv.perform indexKey now (KvSessionStore.removeAll structures user ids) =
      (.ok (), { kv with index := removedAll structures now user ids kv.index }) := by
  induction ids generalizing kv with
  | nil => rfl
  | cons id ids ih =>
    rw [KvSessionStore.removeAll, perform_bind_ok (perform_indexRemove h)]
    exact ih

/-! ### The calls -/

/-- What becomes of the indexes when the index of the user of a record is worked on, if there is
a user and the key of the index can be built. -/
def worked (indexKey : U → Except Kv.KeyError Unit) (userId : Option U)
    (f : U → Lapsing U (List κ) → Lapsing U (List κ)) (index : Lapsing U (List κ)) :
    Lapsing U (List κ) :=
  match userId with
  | none      => index
  | some user =>
    match indexKey user with
    | .ok ()   => f user index
    | .error _ => index

section Worked

variable {f : U → Lapsing U (List κ) → Lapsing U (List κ)} {error : Kv.KeyError}

omit [DecidableEq κ] [DecidableEq U] in
lemma worked_ok (h : indexKey user = .ok ()) :
    worked indexKey (some user) f index = f user index := by
  simp only [worked, h]

omit [DecidableEq κ] [DecidableEq U] in
lemma worked_error (h : indexKey user = .error error) :
    worked indexKey (some user) f index = index := by
  simp only [worked, h]

end Worked

lemma perform_save {record : SessionRecord κ U} :
    (kv.perform indexKey now (KvSessionStore.save structures record ttl)).2 =
      ⟨kv.data.set record.id record (some (now + ttl)),
        worked indexKey record.userId (fun user => added structures now user record.id ttl)
          kv.index⟩ := by
  have hno : ∀ user, none = some user → indexKey user = .ok () := by
    rintro user ⟨⟩
  rw [KvSessionStore.save, perform_call_bind hno]
  cases record.userId with
  | none => rfl
  | some user =>
    simp only
    cases hkey : indexKey user with
    | ok _ =>
      rw [perform_indexAdd hkey, worked_ok hkey]
      rfl
    | error error =>
      rw [perform_indexAdd_error hkey, worked_error hkey]
      rfl

lemma perform_delete :
    (kv.perform indexKey now (KvSessionStore.delete structures id)).2 =
      ⟨kv.data.delete id, worked indexKey ((kv.data.get now id).bind SessionRecord.userId)
        (fun user => removed structures now user id) kv.index⟩ := by
  have hno : ∀ user, none = some user → indexKey user = .ok () := by
    rintro user ⟨⟩
  rw [KvSessionStore.delete, perform_call_bind hno, perform_call_bind hno]
  have hexisting : (kv.exec now (.get id)).1 = kv.data.get now id := rfl
  rw [hexisting]
  cases (kv.data.get now id).bind SessionRecord.userId with
  | none => rfl
  | some user =>
    simp only
    cases hkey : indexKey user with
    | ok _ =>
      rw [perform_bind_ok (perform_indexRemove hkey), worked_ok hkey]
      rfl
    | error error =>
      rw [perform_bind_error (perform_indexRemove_error hkey), worked_error hkey]
      rfl

/-- For how long the record that is renamed stays. -/
def remaining (now : ℕ) (e : Option ℕ) : ℕ := (e.map (· - now)).getD (14 * 24 * 3600 * 1000)

lemma perform_rename_of_none {source target : κ} (h : kv.data.live now source = none) :
    (kv.perform indexKey now (KvSessionStore.rename structures source target)).2 = kv := by
  have hno : ∀ user, none = some user → indexKey user = .ok () := by
    rintro user ⟨⟩
  have hget : (kv.exec now (.get source)).1 = none := Lapsing.get_eq_none.mpr h
  rw [KvSessionStore.rename, perform_call_bind hno, hget]
  rfl

lemma perform_rename {source target : κ} {record : SessionRecord κ U} {e : Option ℕ}
    (h : kv.data.live now source = some (record, e)) :
    (kv.perform indexKey now (KvSessionStore.rename structures source target)).2 =
      ⟨(kv.data.set target { record with id := target }
          (some (now + remaining now e))).delete source,
        worked indexKey record.userId (fun user index => removed structures now user source
          (added structures now user target (remaining now e) index)) kv.index⟩ := by
  have hno : ∀ user, none = some user → indexKey user = .ok () := by
    rintro user ⟨⟩
  have hget : (kv.exec now (.get source)).1 = some record := Lapsing.get_of_live h
  have httl : ((kv.exec now (.get source)).2.exec now (.ttl source)).1.getD
      (14 * 24 * 3600 * 1000) = remaining now e := by
    simp [exec, h, remaining]
  rw [KvSessionStore.rename, perform_call_bind hno, hget]
  simp only
  rw [perform_call_bind hno, httl, perform_call_bind hno, perform_call_bind hno]
  cases record.userId with
  | none => rfl
  | some user =>
    simp only
    cases hkey : indexKey user with
    | ok _ =>
      rw [perform_bind_ok (perform_indexAdd hkey), perform_indexRemove hkey, worked_ok hkey]
      rfl
    | error error =>
      rw [perform_bind_error (perform_indexAdd_error hkey), worked_error hkey]
      rfl

lemma perform_lookUp {ids : List κ} :
    kv.perform indexKey now (KvSessionStore.lookUp ids) =
      (.ok (ids.filterMap (kv.data.get now), ids.filter fun id => (kv.data.get now id).isNone),
        kv) := by
  have hno : ∀ user, none = some user → indexKey user = .ok () := by
    rintro user ⟨⟩
  induction ids with
  | nil => rfl
  | cons id ids ih =>
    have hget : kv.exec now (.get id) = (kv.data.get now id, kv) := rfl
    rw [KvSessionStore.lookUp, perform_call_bind hno, hget, perform_bind_ok ih,
      List.filterMap_cons, List.filter_cons]
    cases kv.data.get now id <;> rfl

/-- The entries of an index that have no record. -/
def stale (kv : SessionKv κ U) (now : ℕ) (user : U) : List κ :=
  (listed kv.index now user).filter fun id => (kv.data.get now id).isNone

lemma perform_listForUser (h : indexKey user = .ok ()) :
    kv.perform indexKey now (KvSessionStore.listForUser structures user) =
      (.ok (((listed kv.index now user).filterMap (kv.data.get now)).mergeSort
          fun record record' => record'.lastSeenAt ≤ record.lastSeenAt),
        { kv with index := removedAll structures now user (kv.stale now user) kv.index }) := by
  rw [KvSessionStore.listForUser, perform_bind_ok (perform_indexRead h),
    perform_bind_ok perform_lookUp, perform_bind_ok (perform_removeAll h)]
  rfl

lemma perform_listForUser_error {error : Kv.KeyError} (h : indexKey user = .error error) :
    kv.perform indexKey now (KvSessionStore.listForUser structures user) =
      (.error (.unavailable error), kv) := by
  rw [KvSessionStore.listForUser, perform_bind_error (perform_indexRead_error h)]

/-- The records without those of a list of identifiers. -/
def dropAll (ids : List κ) (data : Lapsing κ (SessionRecord κ U)) :
    Lapsing κ (SessionRecord κ U) :=
  ids.foldl Lapsing.delete data

omit [DecidableEq U] in
lemma get_dropAll {ids : List κ} {data : Lapsing κ (SessionRecord κ U)} :
    (dropAll ids data).get t id = if id ∈ ids then none else data.get t id := by
  induction ids generalizing data with
  | nil => simp [dropAll]
  | cons id' ids ih =>
    have hcons : dropAll (id' :: ids) data = dropAll ids (data.delete id') := rfl
    rw [hcons, ih]
    by_cases hid : id = id'
    · subst hid
      simp
    · simp [hid]

lemma perform_deleteAll {except : Option κ} {ids : List κ} {deleted : ℕ}
    (h : indexKey user = .ok ()) :
    ∃ count, kv.perform indexKey now
        (KvSessionStore.deleteAll structures user except ids deleted) =
      (.ok count, ⟨dropAll (ids.filter fun id => except ≠ some id) kv.data,
        removedAll structures now user (ids.filter fun id => except ≠ some id) kv.index⟩) := by
  have hno : ∀ user, none = some user → indexKey user = .ok () := by
    rintro user ⟨⟩
  induction ids generalizing kv deleted with
  | nil => exact ⟨deleted, rfl⟩
  | cons id ids ih =>
    rw [KvSessionStore.deleteAll]
    by_cases hid : except = some id
    · rw [if_pos hid, List.filter_cons_of_neg (by simpa using hid)]
      exact ih
    · rw [if_neg hid, List.filter_cons_of_pos (by simpa using hid), perform_call_bind hno,
        perform_bind_ok (perform_indexRemove h)]
      exact ih

variable (structures kv now) in
lemma perform_deleteForUser (except : Option κ) (h : indexKey user = .ok ()) :
    ∃ count, kv.perform indexKey now (KvSessionStore.deleteForUser structures user except) =
      (.ok count,
        ⟨dropAll ((listed kv.index now user).filter fun id => except ≠ some id) kv.data,
          removedAll structures now user
            ((listed kv.index now user).filter fun id => except ≠ some id) kv.index⟩) := by
  rw [KvSessionStore.deleteForUser, perform_bind_ok (perform_indexRead h)]
  exact perform_deleteAll h

lemma perform_deleteForUser_error {except : Option κ} {error : Kv.KeyError}
    (h : indexKey user = .error error) :
    kv.perform indexKey now (KvSessionStore.deleteForUser structures user except) =
      (.error (.unavailable error), kv) := by
  rw [KvSessionStore.deleteForUser, perform_bind_error (perform_indexRead_error h)]

end SessionKv

end Moso.Auth
