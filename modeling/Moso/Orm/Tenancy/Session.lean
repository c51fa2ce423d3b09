import Moso.Orm.Tenancy

/-!
# A caller with a tenant

Runs of requests that chose the same tenant, and what each of them may do for the rows of the other
tenants to stay as they are.
-/

namespace Moso.Orm

variable {V : Type} [DecidableEq V]

/-! ### The tenant in the rows of an insert -/

namespace Insert

variable {c : Ident} {t : V} {self : Insert V}

/-- Every row of the insert has the tenant in its column. -/
def Carries (c : Ident) (t : V) (self : Insert V) : Prop :=
  c ∈ self.columns ∧ ∀ row ∈ self.rows, row.length = self.columns.length →
    row[self.columns.idxOf c]? = some (some t)

omit [DecidableEq V] in
lemma carries_assign_self : (self.assign c (some t)).Carries c t := by
  rw [assign]
  split
  · next hc =>
    refine ⟨hc, fun row hrow hlen => ?_⟩
    obtain ⟨row₀, -, rfl⟩ := List.mem_map.mp hrow
    rw [List.length_set] at hlen
    exact List.getElem?_set_self (hlen ▸ List.idxOf_lt_length_of_mem hc)
  · next hc =>
    refine ⟨List.mem_append_right _ (List.mem_singleton.mpr rfl), fun row hrow hlen => ?_⟩
    obtain ⟨row₀, -, rfl⟩ := List.mem_map.mp hrow
    rw [List.length_append, List.length_append, List.length_singleton, List.length_singleton,
      Nat.add_right_cancel_iff] at hlen
    rw [List.idxOf_append_of_notMem hc, List.idxOf_cons_self, Nat.add_zero, ← hlen,
      List.getElem?_concat_length]

omit [DecidableEq V] in
lemma Carries.assign (h : self.Carries c t) {column : Ident} {value : Option V}
    (hv : column = c → value = some t) : (self.assign column value).Carries c t := by
  by_cases hcol : column = c
  · rw [hcol, hv hcol]
    exact carries_assign_self
  obtain ⟨hc, hrows⟩ := h
  rw [Insert.assign]
  split
  · refine ⟨hc, fun row hrow hlen => ?_⟩
    obtain ⟨row₀, hrow₀, rfl⟩ := List.mem_map.mp hrow
    rw [List.length_set] at hlen
    rw [List.getElem?_set_ne (fun hidx => hcol (List.idxOf_inj ‹_› |>.mp hidx))]
    exact hrows row₀ hrow₀ hlen
  · refine ⟨List.mem_append_left _ hc, fun row hrow hlen => ?_⟩
    obtain ⟨row₀, hrow₀, rfl⟩ := List.mem_map.mp hrow
    rw [List.length_append, List.length_append, List.length_singleton, List.length_singleton,
      Nat.add_right_cancel_iff] at hlen
    rw [List.idxOf_append_of_mem hc,
      List.getElem?_append_left (hlen ▸ List.idxOf_lt_length_of_mem hc)]
    exact hrows row₀ hrow₀ hlen

omit [DecidableEq V] in
lemma Carries.newRow (h : self.Carries c t) {row : List (Option V)} (hrow : row ∈ self.rows)
    (hlen : row.length = self.columns.length) (defaults : Row V) :
    SqlInsert.newRow self.columns row defaults c = some t := by
  rw [SqlInsert.newRow, if_pos h.1, h.2 row hrow hlen]
  rfl

/-- The insert as it is run: for the tenant, and with what was set after that. -/
def forTenant (E : Entity) (t : V) (sets : List (Ident × Option V)) (self : Insert V) : Insert V :=
  sets.foldl (fun i p => i.set p.1 p.2) (self.scopedTo E t)

omit [DecidableEq V] in
lemma carries_forTenant {E : Entity} (hE : E.tenant = some c) {sets : List (Ident × Option V)}
    (hsets : ∀ p ∈ sets, p.1 = c → p.2 = some t) : (self.forTenant E t sets).Carries c t := by
  have hstart : (self.scopedTo E t).Carries c t := by
    rw [scopedTo, hE]
    exact carries_assign_self
  rw [forTenant]
  generalize self.scopedTo E t = i at hstart
  induction sets generalizing i with
  | nil => exact hstart
  | cons p sets ih =>
    refine ih (fun q hq => hsets q (List.mem_cons_of_mem p hq)) _ ?_
    exact hstart.assign (hsets p List.mem_cons_self)

omit [DecidableEq V] in
lemma conflict_assign {column : Ident} {value : Option V} :
    (self.assign column value).conflict = self.conflict := by
  rw [assign]
  split <;> rfl

omit [DecidableEq V] in
lemma conflict_forTenant {E : Entity} {sets : List (Ident × Option V)} :
    (self.forTenant E t sets).conflict = self.conflict := by
  have hstart : (self.scopedTo E t).conflict = self.conflict := by
    rw [scopedTo]
    split
    · exact conflict_assign
    · rfl
  rw [forTenant, ← hstart]
  generalize self.scopedTo E t = i
  induction sets generalizing i with
  | nil => rfl
  | cons p sets ih => exact (ih (i.set p.1 p.2)).trans conflict_assign

omit [DecidableEq V] in
/-- What an upsert sets in the tenant's column is what the new row has there. -/
lemma conflictKeeps_of_onConflict {E : Entity} (hE : E.tenant = some c)
    {conflict : Option (OnConflict V)} (h : self.onConflict E = .ok conflict)
    {columns : List Ident} {rows : List (List (Option V))} :
    ConflictKeeps c ⟨E.table, columns, rows, conflict⟩ := by
  intro assignments hdo a ha hac
  obtain ⟨clause, hclause, hupdate⟩ := Option.bind_eq_some_iff.mp hdo
  obtain rfl : conflict = some clause := hclause
  rw [onConflict] at h
  split at h
  · cases h
  · next conflict₀ _ =>
    obtain ⟨clause', hclause', hsome⟩ := Fallible.map_eq_ok.mp h
    obtain rfl := Option.some.inj hsome
    rw [conflictClause] at hclause'
    split at hclause'
    · obtain rfl := Except.ok.inj hclause'
      cases hupdate
    · split at hclause'
      · cases hclause'
      · obtain rfl := Except.ok.inj hclause'
        obtain rfl := Option.some.inj hupdate
        rcases List.mem_append.mp ha with ha | ha
        · obtain ⟨column, -, rfl⟩ := List.mem_map.mp ha
          exact congrArg SetExpr.excluded hac
        · split at ha
          · next updatedAt hupdated =>
            split at ha
            · cases ha
            · rw [List.mem_singleton.mp ha] at hac
              exact absurd hac.symm (Entity.tenant_ne_updatedAt hE hupdated)
          · cases ha

end Insert

/-! ### Inserts in several statements -/

variable {E : Entity} {c : Ident} {t : V} {server : Server V} {moment : Moment V} {db : Database V}

/-- Statements that insert rows of the tenant, in conflict with rows of the tenant only. -/
lemma runInserts_spares {is : List (SqlInsert V)} (htable : ∀ i ∈ is, i.table = E.table)
    (hkeeps : ∀ i ∈ is, ConflictKeeps c i) (hnews : ∀ new ∈ candidates moment is, new c = some t)
    (hinside : ∀ i ∈ is, ConflictsInside server c t i (db E.table) (candidates moment is)) :
    Spares c t E.table db (runInserts server moment db is).1 ∧
      ∀ rows, (runInserts server moment db is).2 = .ok rows → ∀ row ∈ rows, row c = some t := by
  induction is generalizing moment db with
  | nil =>
    refine ⟨.refl c t E.table db, fun rows hrows row hrow => ?_⟩
    obtain rfl := Except.ok.inj hrows
    cases hrow
  | cons i is ih =>
    rw [runInserts]
    cases hrun : i.run server moment db with
    | none => exact ⟨.refl c t E.table db, fun rows hrows => by cases hrows⟩
    | some out =>
      have hi : Spares c t E.table db out.1 ∧ ∀ row ∈ out.2, row c = some t :=
        SqlInsert.spares (htable i List.mem_cons_self) hrun (hkeeps i List.mem_cons_self)
          (fun new hnew => hnews new (List.mem_append_left _ hnew))
          fun hdo clash hclash old hold hne new hnew =>
            hinside i List.mem_cons_self hdo clash hclash old hold hne new
              (List.mem_append_left _ hnew)
      have hrest := ih
        (fun j hj => htable j (List.mem_cons_of_mem i hj))
        (fun j hj => hkeeps j (List.mem_cons_of_mem i hj))
        (fun new hnew => hnews new (List.mem_append_right _ hnew))
        fun j hj hdo clash hclash old hold hne new hnew => by
          -- A row of another tenant that is there now was there before.
          have hmem : old ∈ (db E.table).filter (foreign c t) := by
            rw [← hi.1.same, List.mem_filter]
            exact ⟨hold, foreign_eq_true.2 hne⟩
          exact hinside j (List.mem_cons_of_mem i hj) hdo clash hclash old
            (List.mem_filter.mp hmem).1 hne new (List.mem_append_right _ hnew)
      refine ⟨hi.1.trans hrest.1, fun rows hrows row hrow => ?_⟩
      obtain ⟨rest, hok, rfl⟩ : ∃ rest, (runInserts server (moment.skip i.rows.length) out.1 is).2 =
          .ok rest ∧ out.2 ++ rest = rows := by
        cases hok : (runInserts server (moment.skip i.rows.length) out.1 is).2 with
        | error e =>
          simp only [hok] at hrows
          cases hrows
        | ok rest =>
          simp only [hok] at hrows
          exact ⟨rest, rfl, Except.ok.inj hrows⟩
      rcases List.mem_append.mp hrow with hrow | hrow
      · exact hi.2 row hrow
      · exact hrest.2 rest hok row hrow

/-! ### Runs of requests -/

/-- What a caller asks for. -/
inductive ScopedCall (V : Type) where
  | read (E : Entity) (query : Select V) (reading : Reading V)
  /-- Rows to insert, with what is set in them once the tenant is. -/
  | insert (E : Entity) (insert : Insert V) (sets : List (Ident × Option V)) (moment : Moment V)
  | update (E : Entity) (update : Update V) (running : Running) (moment : Moment V)
  | delete (E : Entity) (delete : Delete V) (running : Running) (moment : Moment V)

def ScopedCall.entity : ScopedCall V → Entity
  | read E .. | insert E .. | update E .. | delete E .. => E

/-- The tenant that was chosen, and what the requests meet. -/
structure Tenancy (V : Type) where
  server : Server V
  tenant : V
  /-- The tenant column of each table. -/
  column : Ident → Option Ident
  rowCap : ℕ
  maxBindParams : ℕ

structure TenantRun (V : Type) where
  db : Database V
  /-- Every row that a statement returned, with its table. -/
  returned : List (Ident × Row V)

/-- What a query returns of the entity's table; a row that an outer join made up is all `NULL`. -/
def Env.entityRow (table : Ident) (env : Env V) : Row V := (env table).getD fun _ => none

namespace TenantRun

/-- After a write. -/
def after (s : TenantRun V) (E : Entity) (out : Database V × Except Error (List (Row V))) :
    TenantRun V where
  db := out.1
  returned := match out.2 with
    | .ok rows => s.returned ++ rows.map (E.table, ·)
    | .error _ => s.returned

def answer (T : Tenancy V) (s : TenantRun V) (E : Entity)
    (statement : Except Error (SqlSelect V)) : TenantRun V :=
  match statement with
  | .error _ => s
  | .ok q => match q.run T.server s.db with
    | none => s
    | some rows =>
      { s with returned := s.returned ++ rows.map fun env => (E.table, env.entityRow E.table) }

def perform (T : Tenancy V) (s : TenantRun V) : ScopedCall V → TenantRun V
  | .read E query reading =>
    s.answer T E ({ query with tenant := some T.tenant }.statement E T.rowCap reading)
  | .insert E insert sets moment =>
    s.after E ((insert.forTenant E T.tenant sets).run T.server moment E T.maxBindParams s.db)
  | .update E update running moment =>
    s.after E ({ update with tenant := some T.tenant }.run T.server moment E running s.db)
  | .delete E delete running moment =>
    s.after E ({ delete with tenant := some T.tenant }.run T.server moment E running s.db)

/-- A request is about an entity as the tables have it. -/
def step (T : Tenancy V) (s : TenantRun V) (call : ScopedCall V) : Option (TenantRun V) :=
  if call.entity.tenant = T.column call.entity.table then some (perform T s call) else none

/-- The rows of the other tenants are those of `db`, and no row of theirs was returned. -/
def Isolated (T : Tenancy V) (db : Database V) (s : TenantRun V) : Prop :=
  (∀ table, ∀ c ∈ T.column table,
    (s.db table).filter (foreign c T.tenant) = (db table).filter (foreign c T.tenant)) ∧
  ∀ p ∈ s.returned, ∀ c ∈ T.column p.1, p.2 c = some T.tenant

/-- The request moves no row to another tenant, and its upsert is in conflict with rows of the
tenant only. -/
def StaysInside (T : Tenancy V) (s : TenantRun V) : ScopedCall V → Prop
  | .read .. | .delete .. => True
  | .insert E insert sets moment => ∀ c ∈ E.tenant, (∀ p ∈ sets, p.1 = c → p.2 = some T.tenant) ∧
    ∀ conflict ∈ insert.conflict, conflict.action.writes = true →
      ∀ clash ∈ T.server.arbiter E.table conflict.target,
        ∀ old ∈ s.db E.table, old c ≠ some T.tenant →
          ∀ new ∈ (insert.forTenant E T.tenant sets).newRows moment, clash new old = false
  | .update E update _ moment => ∀ c ∈ E.tenant, ∀ a ∈ update.assignments, a.column = c →
    ∀ row ∈ s.db E.table, a.value.eval T.server moment s.db E.table row row = some (some T.tenant)

instance decidableStaysInside (T : Tenancy V) (s : TenantRun V) :
    ∀ call, Decidable (StaysInside T s call)
  | .read .. | .delete .. => isTrue trivial
  | .insert E insert sets moment =>
    inferInstanceAs (Decidable (∀ c ∈ E.tenant, (∀ p ∈ sets, p.1 = c → p.2 = some T.tenant) ∧
      ∀ conflict ∈ insert.conflict, conflict.action.writes = true →
        ∀ clash ∈ T.server.arbiter E.table conflict.target,
          ∀ old ∈ s.db E.table, old c ≠ some T.tenant →
            ∀ new ∈ (insert.forTenant E T.tenant sets).newRows moment, clash new old = false))
  | .update E update _ moment =>
    inferInstanceAs (Decidable (∀ c ∈ E.tenant, ∀ a ∈ update.assignments, a.column = c →
      ∀ row ∈ s.db E.table,
        a.value.eval T.server moment s.db E.table row row = some (some T.tenant)))

variable {T : Tenancy V} {s : TenantRun V} {E : Entity} {c : Ident}

/-- What one request does to the rows of the others, and what it returns. -/
structure Confined (T : Tenancy V) (E : Entity) (c : Ident) (s s' : TenantRun V) : Prop where
  spares : Spares c T.tenant E.table s.db s'.db
  returned : ∀ p ∈ s'.returned, p ∈ s.returned ∨ p.1 = E.table ∧ p.2 c = some T.tenant

lemma confined_after {out : Database V × Except Error (List (Row V))}
    (hspares : Spares c T.tenant E.table s.db out.1)
    (hrows : ∀ rows, out.2 = .ok rows → ∀ row ∈ rows, row c = some T.tenant) :
    Confined T E c s (s.after E out) := by
  refine ⟨hspares, fun p hp => ?_⟩
  rw [after] at hp
  split at hp
  · next rows hok =>
    rcases List.mem_append.mp hp with hp | hp
    · exact .inl hp
    · obtain ⟨row, hrow, rfl⟩ := List.mem_map.mp hp
      exact .inr ⟨rfl, hrows rows hok row hrow⟩
  · exact .inl hp

/-- However it is run, a query returns rows of the tenant. -/
lemma confined_answer (hE : E.tenant = some c) {query : Select V} {reading : Reading V} :
    Confined T E c s
      (s.answer T E ({ query with tenant := some T.tenant }.statement E T.rowCap reading)) := by
  have hsame : Confined T E c s s := ⟨.refl c T.tenant E.table s.db, fun p hp => .inl hp⟩
  cases hq : ({ query with tenant := some T.tenant } : Select V).statement E T.rowCap reading with
  | error e => exact hsame
  | ok q =>
    obtain ⟨-, hfilters, -, -⟩ := Select.statement_eq_ok hq
    have hmem : tenantIs E c T.tenant ∈ q.filters := by
      rw [hfilters, Select.conditions]
      simp [Entity.tenantPredicate, hE, tenantIs]
    cases hrun : q.run T.server s.db with
    | none =>
      simp only [answer, hrun]
      exact hsame
    | some rows =>
      simp only [answer, hrun]
      refine ⟨.refl c T.tenant E.table s.db, fun p hp => ?_⟩
      rcases List.mem_append.mp hp with hp | hp
      · exact .inl hp
      · obtain ⟨env, henv, rfl⟩ := List.mem_map.mp hp
        have hkeeps := (SqlSelect.matches_of_mem_run hrun henv).2 _ hmem
        obtain ⟨row, hrow, hc⟩ :=
          Option.bind_eq_some_iff.mp (Expr.keeps_column_eq_bound.mp hkeeps)
        exact .inr ⟨rfl, by rw [Env.entityRow, hrow]; exact hc⟩

lemma confined_insert (hE : E.tenant = some c) {insert : Insert V}
    {sets : List (Ident × Option V)} {moment : Moment V}
    (h : StaysInside T s (.insert E insert sets moment)) :
    Confined T E c s (perform T s (.insert E insert sets moment)) := by
  obtain ⟨hsets, hconflict⟩ := h c hE
  have hcarries : (insert.forTenant E T.tenant sets).Carries c T.tenant :=
    Insert.carries_forTenant hE hsets
  have hsame : (insert.forTenant E T.tenant sets).conflict = insert.conflict :=
    Insert.conflict_forTenant
  rw [perform]
  generalize insert.forTenant E T.tenant sets = i at hcarries hconflict hsame ⊢
  rw [← hsame] at hconflict
  suffices hrun : Spares c T.tenant E.table s.db
      (i.run T.server moment E T.maxBindParams s.db).1 ∧
        ∀ rows, (i.run T.server moment E T.maxBindParams s.db).2 = .ok rows →
          ∀ row ∈ rows, row c = some T.tenant from confined_after hrun.1 hrun.2
  rw [Insert.run]
  split
  · refine ⟨.refl c T.tenant E.table s.db, fun rows hrows row hrow => ?_⟩
    obtain rfl := Except.ok.inj hrows
    cases hrow
  · split
    · exact ⟨.refl c T.tenant E.table s.db, fun rows hrows => by cases hrows⟩
    · next is his =>
      obtain ⟨-, harity, conflict, hon, rfl⟩ := Insert.statements_eq_ok his
      have hcandidates : candidates moment ((i.chunks T.maxBindParams).map fun rows =>
          (⟨E.table, i.columns, rows, conflict⟩ : SqlInsert V)) = i.newRows moment := by
        rw [candidates_groups, Insert.flatten_chunks, Insert.newRows]
      refine runInserts_spares (fun j hj => ?_) (fun j hj => ?_) ?_ fun j hj => ?_
      · obtain ⟨rows, -, rfl⟩ := List.mem_map.mp hj
        rfl
      · obtain ⟨rows, -, rfl⟩ := List.mem_map.mp hj
        exact Insert.conflictKeeps_of_onConflict hE hon
      · rw [hcandidates, Insert.newRows]
        intro new hnew
        obtain ⟨p, hp, rfl⟩ := List.mem_map.mp hnew
        have hrow := List.fst_mem_of_mem_zipIdx hp
        exact hcarries.newRow hrow (harity _ hrow) _
      · obtain ⟨rows, -, rfl⟩ := List.mem_map.mp hj
        rw [hcandidates]
        intro hdo clash hclash old hold hne new hnew
        obtain ⟨conflict₀, hconflict₀, hwrites, htarget⟩ :=
          Insert.writes_of_onConflict hon hdo hclash
        exact hconflict conflict₀ hconflict₀ hwrites clash htarget old hold hne new hnew

/-- An update or a delete that becomes a statement under the tenant's condition. -/
lemma confined_execute {moment : Moment V} {statement : Except Error (WriteStatement V)}
    {judge : List (Row V) → Except Error (List (Row V))}
    (hjudge : ∀ rows rows', judge rows = .ok rows' → rows' ⊆ rows)
    (h : ∀ w after rows, statement = .ok w → w.run T.server moment s.db = some (after, rows) →
      Spares c T.tenant E.table s.db after ∧ ∀ row ∈ rows, row c = some T.tenant) :
    Confined T E c s (s.after E
      ((WriteStatement.execute T.server moment s.db statement).1,
        (WriteStatement.execute T.server moment s.db statement).2.bind judge)) := by
  have hnone : ∀ e : Error, Confined T E c s (s.after E (s.db, .error e)) := fun e =>
    confined_after (.refl c T.tenant E.table s.db) fun rows hrows => by cases hrows
  cases statement with
  | error e => exact hnone e
  | ok w =>
    cases hrun : w.run T.server moment s.db with
    | none =>
      simp only [WriteStatement.execute, hrun]
      exact hnone .database
    | some out =>
      obtain ⟨hspares, hrows⟩ := h w out.1 out.2 rfl hrun
      simp only [WriteStatement.execute, hrun]
      refine confined_after hspares fun rows hok row hrow => ?_
      exact hrows row (hjudge out.2 rows hok hrow)

lemma confined_update (hE : E.tenant = some c) {update : Update V} {running : Running}
    {moment : Moment V} (h : StaysInside T s (.update E update running moment)) :
    Confined T E c s (perform T s (.update E update running moment)) := by
  rw [perform, Update.run]
  split
  · refine confined_after (.refl c T.tenant E.table s.db) fun rows hrows row hrow => ?_
    obtain rfl := Except.ok.inj hrows
    cases hrow
  · refine confined_execute (fun rows rows' => Running.judge_subset) fun w after rows hw hrun => ?_
    obtain ⟨u, hu, rfl⟩ := Fallible.map_eq_ok.mp hw
    obtain ⟨-, -, -, tenant, htenant, rfl⟩ := Update.toStatement_eq_ok.mp hu
    obtain rfl := Except.ok.inj ((tenantCondition_some hE).symm.trans htenant)
    refine SqlUpdate.spares rfl hrun ?_ fun a ha hac => ?_
    · simp [Update.conditions, tenantIs]
    · rcases List.mem_append.mp ha with ha | ha
      · exact h c hE a ha hac
      · -- What the builder itself sets is under other columns.
        rcases Update.column_of_mem_managed ha with hcol | hcol
        · exact absurd hac.symm (Entity.tenant_ne_updatedAt hE hcol)
        · exact absurd hac.symm (Entity.tenant_ne_version hE hcol)

lemma confined_delete (hE : E.tenant = some c) {delete : Delete V} {running : Running}
    {moment : Moment V} : Confined T E c s (perform T s (.delete E delete running moment)) := by
  rw [perform, Delete.run]
  refine confined_execute (fun rows rows' => Running.judge_subset) fun w after rows hw hrun => ?_
  obtain ⟨-, -, tenant, htenant, rfl⟩ := Delete.toStatement_eq_ok.mp hw
  obtain rfl := Except.ok.inj ((tenantCondition_some hE).symm.trans htenant)
  rw [Delete.removal] at hrun
  split at hrun
  · next column hsoft =>
    refine SqlUpdate.spares rfl hrun (by simp [Delete.conditions, tenantIs]) fun a ha hac => ?_
    rcases Delete.column_of_mem_softAssignments ha with hcol | hcol | hcol
    · exact absurd (hcol.symm.trans hac)
        (Entity.softDelete_ne_tenant (Delete.softDelete_of_softColumn hsoft) hE)
    · exact absurd hac.symm (Entity.tenant_ne_updatedAt hE hcol)
    · exact absurd hac.symm (Entity.tenant_ne_version hE hcol)
  · exact SqlDelete.spares rfl hrun (by simp [Delete.conditions, tenantIs])

/-- A request that stays inside leaves the rows of the others as they are. -/
theorem confined_perform {call : ScopedCall V} (hE : call.entity.tenant = some c)
    (h : StaysInside T s call) : Confined T call.entity c s (perform T s call) := by
  cases call with
  | read E query reading => exact confined_answer hE
  | insert E insert sets moment => exact confined_insert hE h
  | update E update running moment => exact confined_update hE h
  | delete E delete running moment => exact confined_delete hE

/-- Only the table of the entity is written, and only its rows are returned. -/
structure Local (E : Entity) (s s' : TenantRun V) : Prop where
  elsewhere : ∀ other, other ≠ E.table → s'.db other = s.db other
  tables : ∀ p ∈ s'.returned, p ∈ s.returned ∨ p.1 = E.table

omit [DecidableEq V] in
lemma local_after {out : Database V × Except Error (List (Row V))}
    (h : ∀ other, other ≠ E.table → out.1 other = s.db other) : Local E s (s.after E out) := by
  refine ⟨h, fun p hp => ?_⟩
  rw [after] at hp
  split at hp
  · rcases List.mem_append.mp hp with hp | hp
    · exact .inl hp
    · obtain ⟨row, -, rfl⟩ := List.mem_map.mp hp
      exact .inr rfl
  · exact .inl hp

theorem local_perform {call : ScopedCall V} : Local call.entity s (perform T s call) := by
  cases call with
  | read E query reading =>
    have hsame : Local E s s := ⟨fun _ _ => rfl, fun p hp => .inl hp⟩
    simp only [perform]
    cases hq : ({ query with tenant := some T.tenant } : Select V).statement E T.rowCap reading with
    | error e => exact hsame
    | ok q =>
      cases hrun : q.run T.server s.db with
      | none =>
        simp only [answer, hrun]
        exact hsame
      | some rows =>
        simp only [answer, hrun]
        refine ⟨fun _ _ => rfl, fun p hp => ?_⟩
        rcases List.mem_append.mp hp with hp | hp
        · exact .inl hp
        · obtain ⟨env, -, rfl⟩ := List.mem_map.mp hp
          exact .inr rfl
  | insert E insert sets moment =>
    exact local_after fun other ho => Insert.run_elsewhere ho
  | update E update running moment =>
    exact local_after fun other ho => Update.run_elsewhere ho
  | delete E delete running moment =>
    exact local_after fun other ho => Delete.run_elsewhere ho

lemma isolated_step {db : Database V} (call : ScopedCall V) {s' : TenantRun V}
    (hs : Isolated T db s) (h : StaysInside T s call) (hstep : step T s call = some s') :
    Isolated T db s' := by
  rw [step, Option.ite_none_right_eq_some] at hstep
  obtain ⟨hentity, rfl⟩ := hstep.imp_right Option.some.inj
  constructor
  · intro table c hc
    by_cases htable : table = call.entity.table
    · rw [htable, ← hentity] at hc
      rw [htable, (confined_perform hc h).spares.same]
      rw [hentity] at hc
      exact hs.1 _ c hc
    · rw [(local_perform).elsewhere table htable]
      exact hs.1 table c hc
  · intro p hp c hc
    rcases (local_perform).tables p hp with hold | htable
    · exact hs.2 p hold c hc
    · have hE : call.entity.tenant = some c := by
        rw [hentity, ← htable]
        exact hc
      rcases (confined_perform hE h).returned p hp with hold | ⟨-, hrow⟩
      · exact hs.2 p hold c hc
      · exact hrow

/-- A request on a tenant-scoped entity that names no tenant becomes no statement. -/
structure NeedsTenant (V : Type) [DecidableEq V] (E : Entity) : Prop where
  read : ∀ (rowCap : ℕ) (query : Select V) (reading : Reading V), query.tenant = none →
    query.acrossTenants = false → ∃ e, query.statement E rowCap reading = .error e
  insert : ∀ (n : ℕ) (insert : Insert V), (∀ c ∈ E.tenant, c ∉ insert.columns) →
    ∃ e, insert.statements E n = .error e
  update : ∀ update : Update V, update.tenant = none → update.acrossTenants = false →
    ∃ e, update.toStatement E = .error e
  delete : ∀ delete : Delete V, delete.tenant = none → delete.acrossTenants = false →
    ∃ e, delete.toStatement E = .error e

theorem needsTenant (hE : E.tenant.isSome) : NeedsTenant V E := by
  constructor
  · intro rowCap query reading ht ha
    exact Select.statement_of_no_tenant hE ht ha
  · intro n insert hc
    cases h : insert.statements E n with
    | error e => exact ⟨e, rfl⟩
    | ok is =>
      obtain ⟨c, hEc⟩ := Option.isSome_iff_exists.mp hE
      exact absurd ((Insert.statements_eq_ok h).1 c hEc) (hc c hEc)
  · intro update ht ha
    cases h : update.toStatement E with
    | error e => exact ⟨e, rfl⟩
    | ok u =>
      obtain ⟨-, -, -, tenant, htenant, -⟩ := Update.toStatement_eq_ok.mp h
      rw [ht, ha, tenantCondition_none hE] at htenant
      cases htenant
  · intro delete ht ha
    cases h : delete.toStatement E with
    | error e => exact ⟨e, rfl⟩
    | ok w =>
      obtain ⟨-, -, tenant, htenant, -⟩ := Delete.toStatement_eq_ok.mp h
      rw [ht, ha, tenantCondition_none hE] at htenant
      cases htenant

/-- In a run of requests that stay inside the tenant, its caller never changes nor sees a row of
another tenant; and without a tenant there is no request. -/
theorem isolated_of_staysInside {db : Database V} {calls : List (ScopedCall V)}
    (h : Machine.Meets (step T) (StaysInside T) ⟨db, []⟩ calls) :
    Machine.Always (step T) (Isolated T db) ⟨db, []⟩ calls ∧
      ∀ E : Entity, E.tenant.isSome → NeedsTenant V E := by
  have hstart : Isolated T db ⟨db, []⟩ :=
    ⟨fun _ _ _ => rfl, fun p hp => absurd hp List.not_mem_nil⟩
  exact ⟨Machine.always_of_meets (fun _ call _ => isolated_step call) hstart h,
    fun E hE => needsTenant hE⟩

/-! ### Two tenants with an email address each -/

def account : Entity where
  name := "Account"
  table := "accounts"
  columns := [⟨"id", .i64, true, false⟩, ⟨"tenant_id", .i64, false, false⟩,
    ⟨"email", .i64, false, false⟩, ⟨"plan", .i64, false, true⟩]
  tenant := some "tenant_id"

/-- One unique index, over the email address. -/
def accountTenancy : Tenancy ℕ where
  server := .stable .postgres (fun a b => decide (a < b)) Criteria.strictWeak_lt
    (fun n => some (n + 1))
    (fun _ target => if target = ["email"] then
      some fun row row' => (row "email").isSome && decide (row "email" = row' "email") else none)
    fun _ => true
  tenant := 1
  column table := if table = "accounts" then some "tenant_id" else none
  rowCap := 10000
  maxBindParams := 65535

def accounts : Database ℕ := fun table =>
  if table = "accounts" then
    [fun column => [("id", 1), ("tenant_id", 1), ("email", 7)].lookup column,
      fun column => [("id", 2), ("tenant_id", 2), ("email", 8)].lookup column]
  else []

/-- The account with this email address is to have this plan, whether it is there or not. -/
def upsertPlan (email plan : ℕ) : ScopedCall ℕ :=
  .insert account
    { columns := ["email", "plan"], rows := [[some email, some plan]],
      conflict := some ⟨["email"], .update ["plan"]⟩ }
    [] ⟨0, fun _ => fun column => [("id", 3)].lookup column⟩

/-- With its own addresses, an upsert of tenant 1 changes nothing for tenant 2. -/
theorem isolated_of_staysInside_own :
    Machine.Always (step accountTenancy) (Isolated accountTenancy accounts) ⟨accounts, []⟩
      [upsertPlan 7 5, upsertPlan 9 5, .read account {} .rows] ∧
        ∀ E : Entity, E.tenant.isSome → NeedsTenant ℕ E :=
  isolated_of_staysInside (by decide)

/-- With the address of tenant 2, an upsert of tenant 1 overwrites the account of tenant 2. -/
theorem isolated_fails_for_upsert :
    ∃ s, Machine.exec (step accountTenancy) ⟨accounts, []⟩ [upsertPlan 8 5] = some s ∧
      ¬Isolated accountTenancy accounts s := by
  refine ⟨_, rfl, fun h => ?_⟩
  have hplan := congrArg (List.map fun row => row "plan") (h.1 "accounts" "tenant_id" rfl)
  revert hplan
  decide

end TenantRun

end Moso.Orm
