import Moso.Orm.Tenancy

/-!
# Writing a many-to-many relation

The links of an owner are the rows of a join table that have its key on the left. `sync` deletes
what is not among the targets and inserts what is missing, in one statement where the dialect lets a
`DELETE` ride along in an `INSERT`, and in two where it does not.
-/

namespace Moso.Orm

open ThreeValued

variable {V : Type} [DecidableEq V]

/-! ### Keys in a list -/

/-- What the dialect can do. -/
structure Capabilities where
  arrays : Bool
  dataModifyingCtes : Bool
  deriving DecidableEq

namespace Expr

/-- `e = ANY(keys)`. -/
def eqAny (e : Scalar V) (keys : List V) : Condition V where
  reads := e.reads
  eval db env := Truth.any (keys.map fun k => equal (e.eval db env) (some k))
  eval_congr db env env' h := by rw [e.eval_congr db env env' h]

/-- `e <> ALL(keys)`. -/
def neAll (e : Scalar V) (keys : List V) : Condition V where
  reads := e.reads
  eval db env := Truth.all (keys.map fun k => (equal (e.eval db env) (some k)).not)
  eval_congr db env env' h := by rw [e.eval_congr db env env' h]

/-- `e IN (keys)`, and `FALSE` without keys. -/
def inList (e : Scalar V) (keys : List V) : Condition V where
  reads := e.reads
  eval db env := Truth.any (keys.map fun k => equal (e.eval db env) (some k))
  eval_congr db env env' h := by rw [e.eval_congr db env env' h]

/-- `e NOT IN (keys)`, and `TRUE` without keys. -/
def notInList (e : Scalar V) (keys : List V) : Condition V where
  reads := e.reads
  eval db env := (Truth.any (keys.map fun k => equal (e.eval db env) (some k))).not
  eval_congr db env env' h := by rw [e.eval_congr db env env' h]

def keyMatch (key : Scalar V) (keys : List V) (capabilities : Capabilities) : Condition V :=
  if capabilities.arrays then key.eqAny keys else key.inList keys

def keyMismatch (key : Scalar V) (keys : List V) (capabilities : Capabilities) : Condition V :=
  if capabilities.arrays then key.neAll keys else key.notInList keys

variable {key : Scalar V} {keys : List V} {capabilities : Capabilities} {db : Database V}
  {env : Env V}

lemma reads_keyMatch : (keyMatch key keys capabilities).reads = key.reads := by
  unfold keyMatch
  split_ifs <;> rfl

lemma reads_keyMismatch : (keyMismatch key keys capabilities).reads = key.reads := by
  unfold keyMismatch
  split_ifs <;> rfl

lemma keeps_keyMatch : (keyMatch key keys capabilities).Keeps db env ↔
    ∃ k ∈ keys, key.eval db env = some k := by
  have hany : (Truth.any (keys.map fun k => equal (key.eval db env) (some k))).Holds ↔
      ∃ k ∈ keys, key.eval db env = some k := by simp
  unfold keyMatch
  split_ifs <;> exact hany

lemma keeps_keyMismatch : (keyMismatch key keys capabilities).Keeps db env ↔
    ∀ k ∈ keys, ∃ a, key.eval db env = some a ∧ a ≠ k := by
  unfold keyMismatch
  split_ifs
  · change (Truth.all (keys.map fun k => (equal (key.eval db env) (some k)).not)).Holds ↔ _
    simp
  · change (Truth.any (keys.map fun k => equal (key.eval db env) (some k))).not.Holds ↔ _
    simp

end Expr

/-! ### A delete that rides along in an insert -/

/-- What a statement, or several, made of the database. -/
structure Outcome (V : Type) where
  after : Database V
  removed : List (Row V)
  inserted : List (Row V)

/-- An insert whose `WITH` has a delete in the same table. -/
structure InsertWith (V : Type) where
  insert : SqlInsert V
  detached : SqlDelete V
  table_eq : detached.table = insert.table

namespace InsertWith

/-- The delete takes the row. -/
def gone (w : InsertWith V) (db : Database V) (row : Row V) : Bool :=
  Hits w.detached.filters db w.insert.table row

/-- The rows that the delete leaves; those that the statement has written it does not see. -/
def survivors (w : InsertWith V) (db : Database V) (rows : List (Bool × Row V)) :
    List (Bool × Row V) :=
  rows.filter fun p => p.1 || !w.gone db p.2

/-- Both see the rows as they were before the statement. Which of them acts first is up to the
server. -/
def run (server : Server V) (moment : Moment V) (deleteFirst : Bool) (w : InsertWith V)
    (db : Database V) : Option (Outcome V) :=
  let i := w.insert
  let rows := (db i.table).map (false, ·)
  if Resolves w.detached.filters i.table then
    (i.clash server).bind fun clash =>
      (SqlInsert.putAll server moment db i clash
        (if deleteFirst then w.survivors db rows else rows) (i.newRows moment)).bind fun out =>
          (server.store db i.table ((w.survivors db out.1).map (·.2))).map fun after =>
            ⟨after, (db i.table).filter (w.gone db), out.2⟩
  else none

omit [DecidableEq V] in
lemma survivors_append (w : InsertWith V) (db : Database V) (rows rows' : List (Row V)) :
    w.survivors db (rows.map (false, ·) ++ rows'.map (true, ·)) =
      (rows.filter fun row => !w.gone db row).map (false, ·) ++ rows'.map (true, ·) := by
  rw [survivors, List.filter_append, List.filter_map, List.filter_map]
  simp [Function.comp_def]

end InsertWith

/-- The statements that write links. -/
inductive LinkStatement (V : Type) where
  | delete (statement : SqlDelete V)
  | insert (statement : SqlInsert V)
  | insertWith (statement : InsertWith V)

namespace LinkStatement

def run (server : Server V) (moment : Moment V) (deleteFirst : Bool) (db : Database V) :
    LinkStatement V → Option (Outcome V)
  | delete d => (d.run server db).map fun p => ⟨p.1, p.2, []⟩
  | insert i => (i.run server moment db).map fun p => ⟨p.1, [], p.2⟩
  | insertWith w => w.run server moment deleteFirst db

/-- One statement after the other. -/
def runAll (server : Server V) (moment : Moment V) (deleteFirst : Bool) :
    Database V → List (LinkStatement V) → Option (Outcome V)
  | db, []      => some ⟨db, [], []⟩
  | db, s :: ss => (s.run server moment deleteFirst db).bind fun out =>
    (runAll server moment deleteFirst out.after ss).map fun rest =>
      ⟨rest.after, out.removed ++ rest.removed, out.inserted ++ rest.inserted⟩

end LinkStatement

/-! ### The write side of the relation -/

/-- A many-to-many relation for one owner. -/
structure Attachment (V : Type) where
  joinTable : Ident
  left : Ident
  right : Ident
  left_ne_right : left ≠ right
  owner : V

namespace Attachment

variable (self : Attachment V)

/-- `DELETE FROM join_table WHERE left = <owner>`, the start of every write. -/
def scopedDelete : SqlDelete V :=
  ⟨self.joinTable, [(Expr.column self.joinTable self.left).eq (.bound (some self.owner))]⟩

/-- The join table's column pointing at the target. -/
def rightColumn : Scalar V := .column self.joinTable self.right

/-- The insert of the targets, `ON CONFLICT DO NOTHING`. -/
def insertion (targets : List V) : SqlInsert V where
  table := self.joinTable
  columns := [self.left, self.right]
  rows := targets.map fun target => [some self.owner, some target]
  conflict := some ⟨[self.left, self.right], none⟩

def attachStatement (targets : List V) : Option (SqlInsert V) :=
  if targets.isEmpty then none else some (self.insertion targets)

def detachStatement (targets : List V) (capabilities : Capabilities) : Option (SqlDelete V) :=
  if targets.isEmpty then none
  else some { self.scopedDelete with
    filters := self.scopedDelete.filters ++
      [Expr.keyMatch self.rightColumn targets capabilities] }

def clearStatement : SqlDelete V := self.scopedDelete

/-- What is deleted when there are targets. -/
def surplus (targets : List V) (capabilities : Capabilities) : SqlDelete V :=
  { self.scopedDelete with
    filters := self.scopedDelete.filters ++
      [Expr.keyMismatch self.rightColumn targets capabilities] }

/-- The insert, with the delete inside its `WITH`. -/
def bothAtOnce (targets : List V) (capabilities : Capabilities) : InsertWith V :=
  ⟨self.insertion targets, self.surplus targets capabilities, rfl⟩

/-- The statements that make the set exactly `targets`. -/
def syncStatements (targets : List V) (capabilities : Capabilities) : List (LinkStatement V) :=
  if targets.isEmpty then [.delete self.clearStatement]
  else
    match self.attachStatement targets with
    | none => [.delete (self.surplus targets capabilities)]
    | some _ =>
      if capabilities.dataModifyingCtes then
        [.insertWith (self.bothAtOnce targets capabilities)]
      else [.delete (self.surplus targets capabilities), .insert (self.insertion targets)]

variable (server : Server V) (moment : Moment V) (deleteFirst : Bool)

def attach (targets : List V) (db : Database V) : Option (Outcome V) :=
  LinkStatement.runAll server moment deleteFirst db
    ((self.attachStatement targets).toList.map .insert)

def detach (targets : List V) (capabilities : Capabilities) (db : Database V) :
    Option (Outcome V) :=
  LinkStatement.runAll server moment deleteFirst db
    ((self.detachStatement targets capabilities).toList.map .delete)

def sync (targets : List V) (capabilities : Capabilities) (db : Database V) : Option (Outcome V) :=
  LinkStatement.runAll server moment deleteFirst db (self.syncStatements targets capabilities)

end Attachment

/-! ### What the statements do -/

omit [DecidableEq V] in
/-- An insert that does nothing on conflict adds the rows that have none. -/
lemma SqlInsert.putAll_doNothing {server : Server V} {moment : Moment V} {db : Database V}
    {i : SqlInsert V} {clash : Row V → Row V → Bool} (hi : i.conflict.bind (·.doUpdate) = none)
    (rows : List (Bool × Row V)) (news : List (Row V)) :
    putAll server moment db i clash rows news =
      some (rows ++ (Rows.missing clash (rows.map (·.2)) news).map (true, ·),
        Rows.missing clash (rows.map (·.2)) news) := by
  induction news generalizing rows with
  | nil => simp [putAll, Rows.missing]
  | cons new news ih =>
    rw [putAll, put, Rows.missing]
    cases hfind : rows.find? fun old => clash new old.2 with
    | none =>
      have hany : (rows.map (·.2)).any (clash new) = false := by
        rw [List.any_map]
        exact List.any_eq_false.mpr fun old hold => by simpa using List.find?_eq_none.mp hfind old hold
      rw [hany]
      simp [ih]
    | some old =>
      have hany : (rows.map (·.2)).any (clash new) = true := by
        rw [List.any_map]
        exact List.any_eq_true.mpr ⟨old, List.mem_of_find?_eq_some hfind, List.find?_some hfind⟩
      rw [hany, hi]
      simp [ih]

namespace Attachment

variable {self : Attachment V} {server : Server V} {moment : Moment V} {deleteFirst : Bool}
  {targets : List V} {capabilities : Capabilities} {db : Database V} {row new old : Row V}
  {out : Outcome V}

/-- The targets that the owner is linked to. -/
def links (self : Attachment V) (db : Database V) : List V :=
  (db self.joinTable).filterMap fun row =>
    if row self.left = some self.owner then row self.right else none

/-- Two rows are the same link. -/
def sameLink (self : Attachment V) (new old : Row V) : Bool :=
  (new self.left).isSome && (new self.right).isSome &&
    (new self.left = old self.left && new self.right = old self.right)

/-- The unique index over both columns of the join table, if there is one, tells links apart, and
the rows respect it. -/
structure Indexed (links : Attachment V) (server : Server V) (db : Database V) : Prop where
  clash_eq : ∀ clash, server.arbiter links.joinTable [links.left, links.right] = some clash →
    ∀ new old, clash new old = links.sameLink new old
  unique : (server.arbiter links.joinTable [links.left, links.right]).isSome →
    (db links.joinTable).Pairwise fun new old => links.sameLink new old = false

/-- A link of the owner to none of the targets. -/
def IsSurplus (self : Attachment V) (targets : List V) (row : Row V) : Prop :=
  row self.left = some self.owner ∧ ∀ t ∈ targets, ∃ k, row self.right = some k ∧ k ≠ t

lemma hits_scopedDelete :
    Hits self.scopedDelete.filters db self.joinTable row ↔ row self.left = some self.owner := by
  simp [Hits, scopedDelete]

lemma hits_surplus : Hits (self.surplus targets capabilities).filters db self.joinTable row ↔
    self.IsSurplus targets row := by
  have hfilters : Hits (self.surplus targets capabilities).filters db self.joinTable row ↔
      Hits self.scopedDelete.filters db self.joinTable row ∧
        (Expr.keyMismatch self.rightColumn targets capabilities).Keeps db
          (Env.only self.joinTable row) := by
    simp [Hits, surplus, or_imp, forall_and]
  rw [hfilters, hits_scopedDelete, Expr.keeps_keyMismatch, IsSurplus]
  simp [rightColumn, Expr.column]

lemma resolves_scopedDelete : Resolves self.scopedDelete.filters self.joinTable := by
  simp [Resolves, scopedDelete, Expr.eq, Expr.column, Expr.bound]

lemma resolves_surplus :
    Resolves (self.surplus targets capabilities).filters self.joinTable := by
  intro c hc
  rcases List.mem_append.mp hc with hc | hc
  · exact resolves_scopedDelete c hc
  · obtain rfl := List.mem_singleton.mp hc
    rw [Expr.reads_keyMismatch]
    simp [rightColumn, Expr.column]

/-! ### Links -/

lemma mem_links {t : V} : t ∈ self.links db ↔
    ∃ row ∈ db self.joinTable, row self.left = some self.owner ∧ row self.right = some t := by
  simp [links, List.mem_filterMap]

lemma sameLink_eq_true : self.sameLink new old = true ↔
    ∃ o t, new self.left = some o ∧ new self.right = some t ∧ old self.left = some o ∧
      old self.right = some t := by
  simp only [sameLink, Bool.and_eq_true, decide_eq_true_eq, Option.isSome_iff_exists]
  constructor
  · rintro ⟨⟨⟨o, ho⟩, t, ht⟩, hleft, hright⟩
    exact ⟨o, t, ho, ht, hleft ▸ ho, hright ▸ ht⟩
  · rintro ⟨o, t, ho, ht, hleft, hright⟩
    exact ⟨⟨⟨o, ho⟩, t, ht⟩, ho.trans hleft.symm, ht.trans hright.symm⟩

omit [DecidableEq V] in
/-- What is inserted are links of the owner to the targets. -/
lemma exists_of_mem_newRows (h : row ∈ (self.insertion targets).newRows moment) :
    row self.left = some self.owner ∧ ∃ t ∈ targets, row self.right = some t := by
  obtain ⟨⟨values, index⟩, hp, rfl⟩ := List.mem_map.mp h
  have hvalues : values ∈ targets.map fun target => [some self.owner, some target] :=
    List.fst_mem_of_mem_zipIdx hp
  obtain ⟨t, ht, rfl⟩ := List.mem_map.mp hvalues
  have hne := self.left_ne_right
  constructor
  · simp [SqlInsert.newRow, insertion]
  · refine ⟨t, ht, ?_⟩
    simp [SqlInsert.newRow, insertion, hne]

omit [DecidableEq V] in
lemma exists_mem_newRows {t : V} (ht : t ∈ targets) :
    ∃ row ∈ (self.insertion targets).newRows moment, row self.left = some self.owner ∧
      row self.right = some t := by
  have hvalues : [some self.owner, some t] ∈ (self.insertion targets).rows.zipIdx.map (·.1) := by
    rw [List.zipIdx_map_fst]
    exact List.mem_map_of_mem ht
  obtain ⟨⟨values, index⟩, hp, heq⟩ := List.mem_map.mp hvalues
  obtain rfl : values = [some self.owner, some t] := heq
  have hne := self.left_ne_right
  refine ⟨_, List.mem_map_of_mem hp, ?_, ?_⟩
  · simp [SqlInsert.newRow, insertion]
  · simp [SqlInsert.newRow, insertion, hne]

/-! ### What `sync` makes of the join table -/

instance : Decidable (self.IsSurplus targets row) :=
  decidable_of_iff (Hits (self.surplus targets ⟨true, true⟩).filters (fun _ => []) self.joinTable row)
    hits_surplus

/-- The rows that stay. -/
def kept (self : Attachment V) (targets : List V) (db : Database V) : List (Row V) :=
  (db self.joinTable).filter fun row => ¬self.IsSurplus targets row

/-- The rows that are added. -/
def added (self : Attachment V) (moment : Moment V) (targets : List V) (db : Database V) :
    List (Row V) :=
  Rows.missing self.sameLink (db self.joinTable) ((self.insertion targets).newRows moment)

/-- What stays tells as much of the links to the targets as all rows do. -/
lemma missing_kept : Rows.missing self.sameLink (self.kept targets db)
    ((self.insertion targets).newRows moment) = self.added moment targets db := by
  refine Rows.missing_congr fun new hnew => ?_
  obtain ⟨-, t, ht, hright⟩ := exists_of_mem_newRows hnew
  rw [Bool.eq_iff_iff, List.any_eq_true, List.any_eq_true]
  refine exists_congr fun old => and_congr_left fun hlike => ?_
  rw [kept, List.mem_filter, and_iff_left_iff_imp]
  intro _
  rw [decide_eq_true_eq]
  rintro ⟨-, hne⟩
  obtain ⟨o, t', -, hnew', -, hold⟩ := sameLink_eq_true.1 hlike
  obtain ⟨k, hk, hkt⟩ := hne t ht
  rw [hright, Option.some.injEq] at hnew'
  rw [hold, Option.some.injEq] at hk
  exact hkt (hk.symm.trans hnew'.symm)

/-- The database with other rows in the join table. -/
def withLinks (self : Attachment V) (db : Database V) (rows : List (Row V)) : Database V :=
  Function.update db self.joinTable rows

omit [DecidableEq V] in
@[simp] lemma withLinks_self (rows : List (Row V)) :
    self.withLinks db rows self.joinTable = rows := Function.update_self _ _ _

omit [DecidableEq V] in
@[simp] lemma withLinks_withLinks (rows rows' : List (Row V)) :
    self.withLinks (self.withLinks db rows) rows' = self.withLinks db rows' :=
  Function.update_idem _ _ _

/-- The delete of `sync`, with targets or without. -/
lemma run_delete {d : SqlDelete V} (htable : d.table = self.joinTable)
    (hresolves : Resolves d.filters self.joinTable)
    (hhits : ∀ row, Hits d.filters db self.joinTable row ↔ self.IsSurplus targets row) :
    (LinkStatement.delete d).run server moment deleteFirst db = some out ↔
      server.admits (self.withLinks db (self.kept targets db)) = true ∧
        out = ⟨self.withLinks db (self.kept targets db),
          (db self.joinTable).filter fun row => self.IsSurplus targets row, []⟩ := by
  have hstay : ((db d.table).filter fun row => ¬Hits d.filters db d.table row) =
      self.kept targets db := by
    rw [htable]
    exact List.filter_congr fun row _ => decide_eq_decide.mpr (not_congr (hhits row))
  have hgone : ((db d.table).filter fun row => Hits d.filters db d.table row) =
      (db self.joinTable).filter fun row => self.IsSurplus targets row := by
    rw [htable]
    exact List.filter_congr fun row _ => decide_eq_decide.mpr (hhits row)
  rw [LinkStatement.run, Option.map_eq_some_iff]
  constructor
  · rintro ⟨⟨after, rows⟩, hrun, rfl⟩
    obtain ⟨-, hstore, rfl⟩ := SqlDelete.run_eq_some.1 hrun
    obtain ⟨hadmits, rfl⟩ := Server.store_eq_some.1 hstore
    rw [hstay, htable] at hadmits ⊢
    exact ⟨hadmits, by rw [← hgone, htable]; rfl⟩
  · rintro ⟨hadmits, rfl⟩
    refine ⟨(_, _), SqlDelete.run_eq_some.2 ⟨htable ▸ hresolves, ?_, hgone.symm⟩, rfl⟩
    rw [hstay, htable]
    exact Server.store_eq_some.2 ⟨hadmits, rfl⟩

/-- What an insert of the targets adds. -/
lemma run_insert (hindex : self.Indexed server db) :
    (LinkStatement.insert (self.insertion targets)).run server moment deleteFirst db = some out ↔
      (server.arbiter self.joinTable [self.left, self.right]).isSome ∧
        server.admits (self.withLinks db
          (db self.joinTable ++ self.added moment targets db)) = true ∧
        out = ⟨self.withLinks db (db self.joinTable ++ self.added moment targets db), [],
          self.added moment targets db⟩ := by
  rw [LinkStatement.run, Option.map_eq_some_iff]
  have hput : ∀ clash, server.arbiter self.joinTable [self.left, self.right] = some clash →
      SqlInsert.putAll server moment db (self.insertion targets) clash
        ((db self.joinTable).map (false, ·)) ((self.insertion targets).newRows moment) =
          some ((db self.joinTable).map (false, ·) ++
            (self.added moment targets db).map (true, ·), self.added moment targets db) := by
    intro clash hclash
    obtain rfl : clash = self.sameLink := funext₂ (hindex.clash_eq clash hclash)
    rw [SqlInsert.putAll_doNothing rfl, List.map_map]
    simp [added, Function.comp_def]
  have hrows : ((db self.joinTable).map ((false, ·) : Row V → Bool × Row V) ++
      (self.added moment targets db).map (true, ·)).map (·.2) =
        db self.joinTable ++ self.added moment targets db := by
    simp [Function.comp_def]
  constructor
  · rintro ⟨⟨after, rows⟩, hrun, rfl⟩
    obtain ⟨clash, out, hclash, hall, hstore⟩ := SqlInsert.run_eq_some.mp hrun
    obtain ⟨rfl, rfl⟩ := Prod.mk.inj (Option.some.inj ((hput clash hclash).symm.trans hall))
    rw [hrows] at hstore
    obtain ⟨hadmits, rfl⟩ := Server.store_eq_some.1 hstore
    exact ⟨Option.isSome_of_eq_some hclash, hadmits, rfl⟩
  · rintro ⟨hsome, hadmits, rfl⟩
    obtain ⟨clash, hclash⟩ := Option.isSome_iff_exists.mp hsome
    refine ⟨(_, _), SqlInsert.run_eq_some.mpr ⟨clash, _, hclash, hput clash hclash, ?_⟩, rfl⟩
    rw [hrows]
    exact Server.store_eq_some.2 ⟨hadmits, rfl⟩

lemma gone_bothAtOnce : (self.bothAtOnce targets capabilities).gone db row =
    decide (self.IsSurplus targets row) :=
  decide_eq_decide.mpr hits_surplus

lemma filter_gone : ((db self.joinTable).filter fun row =>
    !(self.bothAtOnce targets capabilities).gone db row) = self.kept targets db := by
  refine List.filter_congr fun row _ => ?_
  rw [gone_bothAtOnce, decide_not]

/-- The rows that the insert starts from: all of them, or those that stay. -/
def Start (self : Attachment V) (targets : List V) (db : Database V) (rows : List (Row V)) : Prop :=
  rows = db self.joinTable ∨ rows = self.kept targets db

lemma Start.missing {rows : List (Row V)} (h : self.Start targets db rows) :
    Rows.missing self.sameLink rows ((self.insertion targets).newRows moment) =
      self.added moment targets db := by
  rcases h with rfl | rfl
  · rfl
  · exact missing_kept

/-- Whichever acts first, what is left of the rows of before is what stays. -/
lemma Start.survivors {rows : List (Row V)} (h : self.Start targets db rows)
    (capabilities : Capabilities) (added : List (Row V)) :
    ((self.bothAtOnce targets capabilities).survivors db
      (rows.map (false, ·) ++ added.map (true, ·))).map (·.2) = self.kept targets db ++ added := by
  have hrest : (rows.filter fun row => !(self.bothAtOnce targets capabilities).gone db row) =
      self.kept targets db := by
    rcases h with rfl | rfl
    · exact filter_gone
    · conv_lhs => rw [← @filter_gone _ _ _ _ capabilities, List.filter_filter]
      simp [filter_gone]
  rw [InsertWith.survivors_append, hrest]
  simp [Function.comp_def]

lemma exists_start (targets : List V) (capabilities : Capabilities) (deleteFirst : Bool)
    (db : Database V) : ∃ rows, self.Start targets db rows ∧
      (if deleteFirst then
        (self.bothAtOnce targets capabilities).survivors db ((db self.joinTable).map (false, ·))
      else (db self.joinTable).map (false, ·)) = rows.map (false, ·) := by
  cases deleteFirst with
  | true =>
    refine ⟨self.kept targets db, .inr rfl, ?_⟩
    have h := (self.bothAtOnce targets capabilities).survivors_append db (db self.joinTable) []
    rw [List.map_nil, List.append_nil, List.append_nil, filter_gone] at h
    exact h
  | false => exact ⟨db self.joinTable, .inl rfl, rfl⟩

/-- The delete takes nothing away that the insert adds, so that it does not matter which is first. -/
lemma run_insertWith (hindex : self.Indexed server db) :
    (LinkStatement.insertWith (self.bothAtOnce targets capabilities)).run server moment deleteFirst
        db = some out ↔
      (server.arbiter self.joinTable [self.left, self.right]).isSome ∧
        server.admits (self.withLinks db
          (self.kept targets db ++ self.added moment targets db)) = true ∧
        out = ⟨self.withLinks db (self.kept targets db ++ self.added moment targets db),
          (db self.joinTable).filter fun row => self.IsSurplus targets row,
          self.added moment targets db⟩ := by
  obtain ⟨rows, hstart, hrows⟩ := exists_start targets capabilities deleteFirst db
  have hput : ∀ clash, server.arbiter self.joinTable [self.left, self.right] = some clash →
      SqlInsert.putAll server moment db (self.insertion targets) clash (rows.map (false, ·))
        ((self.insertion targets).newRows moment) =
          some (rows.map (false, ·) ++ (self.added moment targets db).map (true, ·),
            self.added moment targets db) := by
    intro clash hclash
    obtain rfl : clash = self.sameLink := funext₂ (hindex.clash_eq clash hclash)
    have hmap : (rows.map ((false, ·) : Row V → Bool × Row V)).map (·.2) = rows := by
      simp [Function.comp_def]
    rw [SqlInsert.putAll_doNothing rfl, hmap, hstart.missing]
  have hrun : (LinkStatement.insertWith (self.bothAtOnce targets capabilities)).run server moment
      deleteFirst db =
      (server.arbiter self.joinTable [self.left, self.right]).bind fun clash =>
        (SqlInsert.putAll server moment db (self.insertion targets) clash
          (if deleteFirst then
            (self.bothAtOnce targets capabilities).survivors db ((db self.joinTable).map (false, ·))
          else (db self.joinTable).map (false, ·))
          ((self.insertion targets).newRows moment)).bind fun out =>
            (server.store db self.joinTable
              (((self.bothAtOnce targets capabilities).survivors db out.1).map (·.2))).map
                fun after => ⟨after,
                  (db self.joinTable).filter ((self.bothAtOnce targets capabilities).gone db),
                  out.2⟩ :=
    if_pos resolves_surplus
  have hgone : (self.bothAtOnce targets capabilities).gone db =
      fun row => decide (self.IsSurplus targets row) := funext fun row => gone_bothAtOnce
  rw [hrun, hrows, hgone, Option.bind_eq_some_iff]
  constructor
  · rintro ⟨clash, hclash, h⟩
    rw [hput clash hclash, Option.bind_some, hstart.survivors] at h
    obtain ⟨after, hstore, rfl⟩ := Option.map_eq_some_iff.mp h
    obtain ⟨hadmits, rfl⟩ := Server.store_eq_some.1 hstore
    exact ⟨Option.isSome_of_eq_some hclash, hadmits, rfl⟩
  · rintro ⟨hsome, hadmits, rfl⟩
    obtain ⟨clash, hclash⟩ := Option.isSome_iff_exists.mp hsome
    refine ⟨clash, hclash, ?_⟩
    rw [hput clash hclash, Option.bind_some, hstart.survivors]
    exact Option.map_eq_some_iff.mpr ⟨_, Server.store_eq_some.2 ⟨hadmits, rfl⟩, rfl⟩

/-! ### The set after `sync` -/

omit [DecidableEq V] in
lemma newRows_nil : (self.insertion []).newRows moment = [] := rfl

omit [DecidableEq V] in
lemma runAll_singleton {s : LinkStatement V} :
    LinkStatement.runAll server moment deleteFirst db [s] = s.run server moment deleteFirst db := by
  rw [LinkStatement.runAll]
  cases s.run server moment deleteFirst db <;> simp [LinkStatement.runAll]

lemma Indexed.kept (hindex : self.Indexed server db) :
    self.Indexed server (self.withLinks db (self.kept targets db)) where
  clash_eq := hindex.clash_eq
  unique hsome := by
    rw [withLinks_self]
    exact (hindex.unique hsome).filter _

/-- The join table after `sync`. -/
def synced (self : Attachment V) (moment : Moment V) (targets : List V) (db : Database V) :
    List (Row V) :=
  self.kept targets db ++ self.added moment targets db

/-- One statement or two, the rows that are left are the same. -/
lemma sync_eq_some (hindex : self.Indexed server db) :
    self.sync server moment deleteFirst targets capabilities db = some out ↔
      (targets ≠ [] → (server.arbiter self.joinTable [self.left, self.right]).isSome) ∧
        (targets ≠ [] → capabilities.dataModifyingCtes = false →
          server.admits (self.withLinks db (self.kept targets db)) = true) ∧
        server.admits (self.withLinks db (self.synced moment targets db)) = true ∧
        out = ⟨self.withLinks db (self.synced moment targets db),
          (db self.joinTable).filter fun row => self.IsSurplus targets row,
          self.added moment targets db⟩ := by
  unfold sync syncStatements synced
  by_cases htargets : targets = []
  · subst htargets
    have hhits : ∀ row, Hits self.clearStatement.filters db self.joinTable row ↔
        self.IsSurplus [] row := by simp [clearStatement, hits_scopedDelete, IsSurplus]
    rw [if_pos List.isEmpty_nil, runAll_singleton]
    refine (run_delete rfl resolves_scopedDelete hhits).trans ?_
    simp [added, newRows_nil, Rows.missing]
  · have hempty : targets.isEmpty = false := by simpa using htargets
    have hattach : self.attachStatement targets = some (self.insertion targets) := by
      rw [attachStatement, hempty, if_neg Bool.false_ne_true]
    rw [if_neg (by simp [hempty]), hattach]
    dsimp only
    split_ifs with hctes
    · rw [runAll_singleton, run_insertWith hindex]
      simp [htargets, hctes]
    · rw [LinkStatement.runAll, Option.bind_eq_some_iff]
      have hdelete : ∀ {mid}, (LinkStatement.delete (self.surplus targets capabilities)).run server
          moment deleteFirst db = some mid ↔
            server.admits (self.withLinks db (self.kept targets db)) = true ∧
              mid = ⟨self.withLinks db (self.kept targets db),
                (db self.joinTable).filter fun row => self.IsSurplus targets row, []⟩ :=
        run_delete rfl resolves_surplus fun _ => hits_surplus
      have hinsert : ∀ {last}, (LinkStatement.insert (self.insertion targets)).run server moment
          deleteFirst (self.withLinks db (self.kept targets db)) = some last ↔
            (server.arbiter self.joinTable [self.left, self.right]).isSome ∧
              server.admits (self.withLinks db
                (self.kept targets db ++ self.added moment targets db)) = true ∧
              last = ⟨self.withLinks db (self.kept targets db ++ self.added moment targets db), [],
                self.added moment targets db⟩ := by
        intro last
        have hadded : self.added moment targets (self.withLinks db (self.kept targets db)) =
            self.added moment targets db := by
          rw [added, withLinks_self, missing_kept]
        rw [run_insert hindex.kept, hadded, withLinks_self, withLinks_withLinks]
      constructor
      · rintro ⟨mid, hmid, h⟩
        obtain ⟨hkept, rfl⟩ := hdelete.mp hmid
        obtain ⟨last, hlast, rfl⟩ := Option.map_eq_some_iff.mp h
        rw [runAll_singleton] at hlast
        obtain ⟨hsome, hadmits, rfl⟩ := hinsert.mp hlast
        refine ⟨fun _ => hsome, fun _ _ => hkept, hadmits, ?_⟩
        simp
      · rintro ⟨hsome, hkept, hadmits, rfl⟩
        have hctes' : capabilities.dataModifyingCtes = false := Bool.eq_false_iff.mpr hctes
        refine ⟨_, hdelete.mpr ⟨hkept htargets hctes', rfl⟩, ?_⟩
        rw [runAll_singleton, hinsert.mpr ⟨hsome htargets, hadmits, rfl⟩, Option.map_some]
        simp

lemma mem_kept : row ∈ self.kept targets db ↔
    row ∈ db self.joinTable ∧ ¬self.IsSurplus targets row := by
  rw [kept, List.mem_filter, decide_eq_true_eq]

lemma sameLink_comm : self.sameLink new old = self.sameLink old new := by
  rw [Bool.eq_iff_iff, sameLink_eq_true, sameLink_eq_true]
  constructor <;> rintro ⟨o, t, h₁, h₂, h₃, h₄⟩ <;> exact ⟨o, t, h₃, h₄, h₁, h₂⟩

/-- The owner's links are to the targets, and to no other. -/
lemma mem_links_synced {t : V} :
    t ∈ self.links (self.withLinks db (self.synced moment targets db)) ↔ t ∈ targets := by
  rw [mem_links, withLinks_self]
  constructor
  · rintro ⟨row, hrow, hleft, hright⟩
    rcases List.mem_append.mp hrow with hrow | hrow
    · obtain ⟨-, hsurplus⟩ := mem_kept.1 hrow
      by_contra ht
      exact hsurplus ⟨hleft, fun k hk => ⟨t, hright, fun h => ht (h ▸ hk)⟩⟩
    · obtain ⟨-, t', ht', hright'⟩ := exists_of_mem_newRows (Rows.mem_of_mem_missing hrow).1
      obtain rfl := Option.some.inj (hright.symm.trans hright')
      exact ht'
  · intro ht
    obtain ⟨new, hnew, hleft, hright⟩ : ∃ row ∈ (self.insertion targets).newRows moment,
        row self.left = some self.owner ∧ row self.right = some t := exists_mem_newRows ht
    have h : new ∈ Rows.missing self.sameLink (self.kept targets db) _ ∨ _ :=
      Rows.exists_like_missing hnew
    rw [missing_kept] at h
    rcases h with h | ⟨old, hold, hlike⟩
    · exact ⟨new, List.mem_append_right _ h, hleft, hright⟩
    · obtain ⟨o, t', ho, ht', hold', hold''⟩ := sameLink_eq_true.1 hlike
      rw [hleft] at ho
      rw [hright] at ht'
      exact ⟨old, hold, hold'.trans ho.symm, hold''.trans ht'.symm⟩

lemma indexed_synced (hindex : self.Indexed server db) :
    self.Indexed server (self.withLinks db (self.synced moment targets db)) where
  clash_eq := hindex.clash_eq
  unique hsome := by
    rw [withLinks_self]
    refine List.pairwise_append.mpr ⟨(hindex.unique hsome).filter _, ?_, ?_⟩
    · exact Rows.pairwise_missing.imp fun h => (sameLink_comm).trans h
    · intro old hold new hnew
      rw [sameLink_comm]
      exact (Rows.mem_of_mem_missing hnew).2 old (mem_kept.1 hold).1

/-- With the index, no target is linked to twice. -/
lemma nodup_links (hindex : self.Indexed server db)
    (hsome : (server.arbiter self.joinTable [self.left, self.right]).isSome) :
    (self.links db).Nodup := by
  refine List.pairwise_filterMap.mpr ((hindex.unique hsome).imp fun {new old} hne => ?_)
  intro t ht t' ht' heq
  split_ifs at ht ht' with hold hnew
  subst heq
  have hlike := sameLink_eq_true.2 ⟨self.owner, t, hold, ht, hnew, ht'⟩
  exact Bool.false_ne_true (hne.symm.trans hlike)

lemma spares_synced : Spares self.left self.owner self.joinTable db
    (self.withLinks db (self.synced moment targets db)) where
  same := by
    have hadded : (self.added moment targets db).filter (foreign self.left self.owner) = [] := by
      refine List.filter_eq_nil_iff.mpr fun row hrow => ?_
      obtain ⟨hleft, -⟩ := exists_of_mem_newRows (Rows.mem_of_mem_missing hrow).1
      rw [foreign_eq_false.2 hleft]
      exact Bool.false_ne_true
    rw [withLinks_self, synced, List.filter_append, hadded, List.append_nil, kept,
      List.filter_filter]
    refine List.filter_congr fun row _ => ?_
    cases hrow : foreign self.left self.owner row with
    | false => rfl
    | true =>
      have hsurplus : ¬self.IsSurplus targets row := fun h => foreign_eq_true.1 hrow h.1
      rw [Bool.true_and, decide_eq_true hsurplus]
  elsewhere other hne := Function.update_of_ne hne _ _

/-- What is in sync stays as it is. -/
lemma synced_again {moment' : Moment V} :
    self.kept targets (self.withLinks db (self.synced moment targets db)) =
        self.synced moment targets db ∧
      self.added moment' targets (self.withLinks db (self.synced moment targets db)) = [] := by
  constructor
  · rw [kept, withLinks_self]
    refine List.filter_eq_self.mpr fun row hrow => ?_
    rw [decide_eq_true_eq]
    rcases List.mem_append.mp hrow with hrow | hrow
    · exact (mem_kept.1 hrow).2
    · obtain ⟨-, t, ht, hright⟩ := exists_of_mem_newRows (Rows.mem_of_mem_missing hrow).1
      rintro ⟨-, hne⟩
      obtain ⟨k, hk, hkt⟩ := hne t ht
      exact hkt (Option.some.inj (hk.symm.trans hright))
  · refine Rows.missing_eq_nil fun new hnew => ?_
    obtain ⟨hleft, t, ht, hright⟩ := exists_of_mem_newRows hnew
    obtain ⟨old, hold, hleft', hright'⟩ := mem_links.1 (mem_links_synced.2 ht)
    exact ⟨old, hold, sameLink_eq_true.2 ⟨_, _, hleft, hright, hleft', hright'⟩⟩

/-! ### `attach` and `detach` -/

/-- The row is a link of the owner to one of the targets. -/
def IsWanted (self : Attachment V) (targets : List V) (row : Row V) : Prop :=
  row self.left = some self.owner ∧ ∃ t ∈ targets, row self.right = some t

instance : Decidable (self.IsWanted targets row) :=
  inferInstanceAs (Decidable (_ ∧ _))

lemma attach_after (hindex : self.Indexed server db)
    (h : self.attach server moment deleteFirst targets db = some out) :
    out.after = self.withLinks db (db self.joinTable ++ self.added moment targets db) := by
  unfold attach attachStatement at h
  by_cases htargets : targets = []
  · subst htargets
    obtain rfl := Option.some.inj h
    rw [added, newRows_nil, Rows.missing, List.append_nil]
    exact (Function.update_eq_self _ _).symm
  · have hempty : targets.isEmpty = false := by simpa using htargets
    rw [if_neg (by simp [hempty]), Option.toList_some, List.map_singleton, runAll_singleton,
      run_insert hindex] at h
    rw [h.2.2]

lemma detach_after (h : self.detach server moment deleteFirst targets capabilities db = some out) :
    out.after = self.withLinks db
      ((db self.joinTable).filter fun row => ¬self.IsWanted targets row) := by
  unfold detach detachStatement at h
  by_cases htargets : targets = []
  · subst htargets
    obtain rfl := Option.some.inj h
    have hall : ((db self.joinTable).filter fun row => ¬self.IsWanted [] row) =
        db self.joinTable := by simp [IsWanted]
    rw [hall]
    exact (Function.update_eq_self _ _).symm
  · have hempty : targets.isEmpty = false := by simpa using htargets
    have hhits : ∀ row, Hits (self.scopedDelete.filters ++
        [Expr.keyMatch self.rightColumn targets capabilities]) db self.joinTable row ↔
          self.IsWanted targets row := by
      intro row
      have hsplit : Hits (self.scopedDelete.filters ++
          [Expr.keyMatch self.rightColumn targets capabilities]) db self.joinTable row ↔
            Hits self.scopedDelete.filters db self.joinTable row ∧
              (Expr.keyMatch self.rightColumn targets capabilities).Keeps db
                (Env.only self.joinTable row) := by
        simp [Hits, or_imp, forall_and]
      rw [hsplit, hits_scopedDelete, Expr.keeps_keyMatch, IsWanted]
      simp [rightColumn, Expr.column]
    rw [if_neg (by simp [hempty]), Option.toList_some, List.map_singleton, runAll_singleton,
      LinkStatement.run, Option.map_eq_some_iff] at h
    obtain ⟨⟨after, rows⟩, hrun, rfl⟩ := h
    obtain ⟨-, hstore, -⟩ := SqlDelete.run_eq_some.1 hrun
    obtain ⟨-, rfl⟩ := Server.store_eq_some.1 hstore
    refine congrArg (self.withLinks db) (List.filter_congr fun row _ => ?_)
    exact decide_eq_decide.mpr (not_congr (hhits row))

/-- Only the owner's rows go, and its links to the targets go. -/
lemma mem_links_detached {t : V} : t ∈ self.links (self.withLinks db
    ((db self.joinTable).filter fun row => ¬self.IsWanted targets row)) ↔
      t ∈ self.links db ∧ t ∉ targets := by
  rw [mem_links, mem_links, withLinks_self]
  constructor
  · rintro ⟨row, hrow, hleft, hright⟩
    obtain ⟨hrow, hwanted⟩ := List.mem_filter.mp hrow
    rw [decide_eq_true_eq] at hwanted
    exact ⟨⟨row, hrow, hleft, hright⟩, fun ht => hwanted ⟨hleft, t, ht, hright⟩⟩
  · rintro ⟨⟨row, hrow, hleft, hright⟩, ht⟩
    refine ⟨row, List.mem_filter.mpr ⟨hrow, decide_eq_true ?_⟩, hleft, hright⟩
    rintro ⟨-, t', ht', hright'⟩
    exact ht (Option.some.inj (hright.symm.trans hright') ▸ ht')

lemma spares_detached : Spares self.left self.owner self.joinTable db (self.withLinks db
    ((db self.joinTable).filter fun row => ¬self.IsWanted targets row)) where
  same := by
    rw [withLinks_self, List.filter_filter]
    refine List.filter_congr fun row _ => ?_
    cases hrow : foreign self.left self.owner row with
    | false => rfl
    | true =>
      have hwanted : ¬self.IsWanted targets row := fun h => foreign_eq_true.1 hrow h.1
      rw [Bool.true_and, decide_eq_true hwanted]
  elsewhere other hne := Function.update_of_ne hne _ _

/-- What was attached goes with what was among the targets before. -/
lemma attach_detach (hindex : self.Indexed server db) {last : Outcome V}
    {moment' : Moment V} {deleteFirst' : Bool}
    (hattach : self.attach server moment deleteFirst targets db = some out)
    (hdetach : self.detach server moment' deleteFirst' targets capabilities out.after = some last) :
    last.after = self.withLinks db
      ((db self.joinTable).filter fun row => ¬self.IsWanted targets row) := by
  have hnone : ((self.added moment targets db).filter fun row => ¬self.IsWanted targets row) =
      [] := by
    refine List.filter_eq_nil_iff.mpr fun row hrow => ?_
    rw [decide_eq_true_eq, not_not]
    exact exists_of_mem_newRows (Rows.mem_of_mem_missing hrow).1
  rw [detach_after hdetach, attach_after hindex hattach, withLinks_self, withLinks_withLinks,
    List.filter_append, hnone, List.append_nil]

/-! ### The law of the relation -/

/-- The owner's links are exactly the targets, each once. What was wanted is neither deleted nor
inserted again, and the links of other owners are as before. -/
structure Exact (links : Attachment V) (targets : List V) (db : Database V) (out : Outcome V) :
    Prop where
  nodup : (links.links out.after).Nodup
  mem_iff : ∀ t, t ∈ links.links out.after ↔ t ∈ targets
  spares : Spares links.left links.owner links.joinTable db out.after
  keeps : ((db links.joinTable).filter fun row => links.IsWanted targets row).Sublist
    (out.after links.joinTable)
  removed : ∀ row ∈ out.removed, row links.left = some links.owner ∧ ¬links.IsWanted targets row
  inserted : ∀ row ∈ out.inserted, row links.left = some links.owner ∧
    ∀ t ∈ links.links db, row links.right ≠ some t

lemma exact_of_sync (hindex : self.Indexed server db)
    (h : self.sync server moment deleteFirst targets capabilities db = some out) :
    self.Exact targets db out := by
  obtain ⟨hsome, -, -, rfl⟩ := (sync_eq_some hindex).mp h
  have hdisjoint : ∀ row, self.IsSurplus targets row → ¬self.IsWanted targets row := by
    rintro row ⟨-, hne⟩ ⟨-, t, ht, hright⟩
    obtain ⟨k, hk, hkt⟩ := hne t ht
    exact hkt (Option.some.inj (hk.symm.trans hright))
  refine ⟨?_, fun t => mem_links_synced, spares_synced, ?_, ?_, ?_⟩
  · by_cases htargets : targets = []
    · have hnil : self.links (self.withLinks db (self.synced moment targets db)) = [] := by
        refine List.eq_nil_iff_forall_not_mem.mpr fun t ht => ?_
        rw [htargets] at ht
        exact absurd (mem_links_synced.1 ht) List.not_mem_nil
      rw [hnil]
      exact .nil
    · exact nodup_links (indexed_synced hindex) (hsome htargets)
  · dsimp only
    rw [withLinks_self]
    have hkept : ((db self.joinTable).filter fun row => self.IsWanted targets row) =
        (self.kept targets db).filter fun row => self.IsWanted targets row := by
      rw [kept, List.filter_filter]
      refine List.filter_congr fun row _ => ?_
      by_cases hwanted : self.IsWanted targets row
      · have hsurplus : ¬self.IsSurplus targets row := fun h => hdisjoint row h hwanted
        rw [decide_eq_true hwanted, decide_eq_true hsurplus]
        rfl
      · rw [decide_eq_false hwanted]
        rfl
    rw [hkept]
    exact List.filter_sublist.trans (List.sublist_append_left _ _)
  · intro row hrow
    have hsurplus := of_decide_eq_true (List.mem_filter.mp hrow).2
    exact ⟨hsurplus.1, hdisjoint row hsurplus⟩
  · intro row hrow
    obtain ⟨hnew, hnone⟩ := Rows.mem_of_mem_missing hrow
    obtain ⟨hleft, t', -, hright'⟩ := exists_of_mem_newRows hnew
    refine ⟨hleft, fun t ht hright => ?_⟩
    obtain ⟨old, hold, hleft', hold'⟩ := mem_links.1 ht
    have hlike := sameLink_eq_true.2 ⟨_, _, hleft, hright, hleft', hold'⟩
    exact Bool.false_ne_true ((hnone old hold).symm.trans hlike)

/-- In either form `sync` makes the set exactly the targets, and once it has done so it does nothing
more. Attaching and detaching leaves the links that are not among the targets. -/
theorem sync_exact (self : Attachment V) (server : Server V) (db : Database V)
    (hindex : self.Indexed server db) (targets : List V) :
    (∀ moment deleteFirst capabilities out,
      self.sync server moment deleteFirst targets capabilities db = some out →
        self.Exact targets db out ∧ ∀ moment' deleteFirst' capabilities',
          self.sync server moment' deleteFirst' targets capabilities' out.after =
            some ⟨out.after, [], []⟩) ∧
    (∀ moment deleteFirst deleteFirst' capabilities capabilities' out out',
      self.sync server moment deleteFirst targets capabilities db = some out →
      self.sync server moment deleteFirst' targets capabilities' db = some out' →
        out.after = out'.after) ∧
    ∀ moment moment' deleteFirst deleteFirst' capabilities out out',
      self.attach server moment deleteFirst targets db = some out →
      self.detach server moment' deleteFirst' targets capabilities out.after = some out' →
        (∀ t, t ∈ self.links out'.after ↔ t ∈ self.links db ∧ t ∉ targets) ∧
          Spares self.left self.owner self.joinTable db out'.after := by
  refine ⟨fun moment deleteFirst capabilities out h => ⟨exact_of_sync hindex h, ?_⟩, ?_, ?_⟩
  · intro moment' deleteFirst' capabilities'
    obtain ⟨hsome, -, hadmits, rfl⟩ := (sync_eq_some hindex).mp h
    obtain ⟨hkept, hadded⟩ : self.kept targets
          (self.withLinks db (self.synced moment targets db)) = self.synced moment targets db ∧
        self.added moment' targets
          (self.withLinks db (self.synced moment targets db)) = [] := synced_again
    have hsynced : self.synced moment' targets
        (self.withLinks db (self.synced moment targets db)) = self.synced moment targets db := by
      rw [synced, hkept, hadded, List.append_nil]
    have hnone : ((self.withLinks db (self.synced moment targets db)) self.joinTable).filter
        (fun row => self.IsSurplus targets row) = [] := by
      refine List.filter_eq_nil_iff.mpr fun row hrow => ?_
      rw [withLinks_self, ← hkept] at hrow
      rw [decide_eq_true_eq]
      exact (mem_kept.mp hrow).2
    refine (sync_eq_some (indexed_synced hindex)).mpr ⟨hsome, ?_, ?_, ?_⟩
    · intro _ _
      rwa [hkept, withLinks_withLinks]
    · rwa [hsynced, withLinks_withLinks]
    · rw [hsynced, withLinks_withLinks, hnone, hadded]
  · intro moment deleteFirst deleteFirst' capabilities capabilities' out out' h h'
    obtain ⟨-, -, -, rfl⟩ := (sync_eq_some hindex).mp h
    obtain ⟨-, -, -, rfl⟩ := (sync_eq_some hindex).mp h'
    rfl
  · intro moment moment' deleteFirst deleteFirst' capabilities out out' h h'
    rw [attach_detach hindex h h']
    exact ⟨fun t => mem_links_detached, spares_detached⟩

theorem sync_exact_tags :
    let tags : Attachment ℕ := ⟨"post_tags", "post_id", "tag_id", by decide, 1⟩
    let server : Server ℕ := Server.stable .postgres (fun _ _ => false)
      ⟨fun h => absurd h Bool.false_ne_true, fun h => absurd h Bool.false_ne_true⟩ some
      (fun _ _ => some tags.sameLink) fun _ => true
    let link : ℕ → ℕ → Row ℕ := fun owner target => fun column =>
      if column = "post_id" then some owner else if column = "tag_id" then some target else none
    let db : Database ℕ := fun _ => [link 1 1, link 1 2, link 2 5]
    let moment : Moment ℕ := ⟨0, fun _ _ => none⟩
    ∃ one two on off, tags.sync server moment false [2, 3, 3] ⟨true, true⟩ db = some one ∧
      tags.sync server moment false [2, 3, 3] ⟨false, false⟩ db = some two ∧
      tags.Exact [2, 3, 3] db one ∧ one.after = two.after ∧
      tags.sync server moment true [2, 3, 3] ⟨false, false⟩ one.after =
        some ⟨one.after, [], []⟩ ∧
      tags.attach server moment false [2, 3, 3] db = some on ∧
      tags.detach server moment false [2, 3, 3] ⟨true, true⟩ on.after = some off ∧
      (∀ t, t ∈ tags.links off.after ↔ t ∈ tags.links db ∧ t ∉ [2, 3, 3]) := by
  intro tags server link db moment
  have hindex : tags.Indexed server db := by
    refine ⟨fun clash h _ _ => ?_, fun _ => ?_⟩
    · obtain rfl := Option.some.inj h
      rfl
    · decide
  obtain ⟨hsync, hforms, hattach⟩ := sync_exact tags server db hindex [2, 3, 3]
  obtain ⟨hexact, hagain⟩ := hsync moment false ⟨true, true⟩ _ rfl
  refine ⟨_, _, _, _, rfl, rfl, hexact, ?_, hagain moment true ⟨false, false⟩, rfl, rfl, ?_⟩
  · exact hforms moment false false ⟨true, true⟩ ⟨false, false⟩ _ _ rfl rfl
  · exact (hattach moment moment false false ⟨true, true⟩ _ _ rfl rfl).1

end Attachment

end Moso.Orm
