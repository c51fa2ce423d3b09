import Moso.Foundation.Machine
import Moso.Orm.Write

/-!
# Tenants kept apart

The requests of a caller that has chosen a tenant, one after the other, on the tables of any number
of entities. Every builder adds the tenant to its statement; what an upsert rewrites is found by a
unique index, and not by a condition.
-/

namespace Moso.Orm

variable {V : Type} [DecidableEq V]

/-! ### What one statement does to the rows of the others -/

/-- The row is not one of the tenant's. -/
def foreign (c : Ident) (t : V) (row : Row V) : Bool := row c ≠ some t

lemma foreign_eq_false {c : Ident} {t : V} {row : Row V} :
    foreign c t row = false ↔ row c = some t := by
  rw [foreign, decide_eq_false_iff_not, not_not]

lemma foreign_eq_true {c : Ident} {t : V} {row : Row V} :
    foreign c t row = true ↔ row c ≠ some t := by
  rw [foreign, decide_eq_true_iff]

/-- In one table the rows of the other tenants are as before, and so are the other tables. -/
structure Spares (c : Ident) (t : V) (table : Ident) (db after : Database V) : Prop where
  same : (after table).filter (foreign c t) = (db table).filter (foreign c t)
  elsewhere : ∀ other, other ≠ table → after other = db other

namespace Spares

variable {c : Ident} {t : V} {table : Ident} {db after last : Database V}

lemma refl (c : Ident) (t : V) (table : Ident) (db : Database V) : Spares c t table db db :=
  ⟨rfl, fun _ _ => rfl⟩

lemma trans (h : Spares c t table db after) (h' : Spares c t table after last) :
    Spares c t table db last :=
  ⟨h'.same.trans h.same, fun other ho => (h'.elsewhere other ho).trans (h.elsewhere other ho)⟩

lemma of_store {server : Server V} {rows : List (Row V)}
    (h : server.store db table rows = some after)
    (hrows : rows.filter (foreign c t) = (db table).filter (foreign c t)) :
    Spares c t table db after := by
  obtain ⟨-, rfl⟩ := Server.store_eq_some.1 h
  refine ⟨?_, fun other ho => Function.update_of_ne ho _ _⟩
  rw [Function.update_self]
  exact hrows

end Spares

/-- The condition that every builder but `INSERT` adds. -/
def tenantIs (E : Entity) (c : Ident) (t : V) : Condition V :=
  (Expr.column E.table c).eq (Expr.bound (some t))

variable {E : Entity} {c : Ident} {t : V} {server : Server V} {moment : Moment V}
  {db after : Database V} {rows : List (Row V)}

lemma carries_of_hits {filters : List (Condition V)} {row : Row V} (hmem : tenantIs E c t ∈ filters)
    (h : Hits filters db E.table row) : row c = some t := by
  have := Expr.keeps_column_eq_bound.mp (h _ hmem)
  rwa [Env.cell_only] at this

/-- An update under the tenant's condition changes rows of the tenant, and leaves them to it. -/
lemma SqlUpdate.spares {u : SqlUpdate V} (htable : u.table = E.table)
    (h : u.run server moment db = some (after, rows)) (hmem : tenantIs E c t ∈ u.filters)
    (hset : ∀ a ∈ u.assignments, a.column = c → ∀ row ∈ db E.table,
      a.value.eval server moment db E.table row row = some (some t)) :
    Spares c t E.table db after ∧ ∀ row ∈ rows, row c = some t := by
  obtain ⟨-, rows', hrewrite, hstore⟩ := SqlUpdate.run_eq_some.1 h
  rw [htable] at hrewrite hstore
  have hhit : ∀ row ∈ db E.table, decide (Hits u.filters db E.table row) = true →
      row c = some t := fun row _ hrow => carries_of_hits hmem (of_decide_eq_true hrow)
  have hnew : ∀ row ∈ db E.table, decide (Hits u.filters db E.table row) = true → ∀ row',
      assignAll server moment db E.table u.assignments row row = some row' → row' c = some t :=
    fun row hrow hdec row' hassign =>
      assignFrom_keeps hassign (fun a ha hac => hset a ha hac row hrow) (hhit row hrow hdec)
  constructor
  · refine .of_store hstore (Rows.filter_rewrite ?_ ?_ hrewrite)
    · exact fun row hrow hdec => foreign_eq_false.2 (hhit row hrow hdec)
    · exact fun row hrow hdec row' hrow' => foreign_eq_false.2 (hnew row hrow hdec row' hrow')
  · intro row' hrow'
    obtain ⟨row, hrow, hdec, hassign⟩ := (Rows.mem_changed_of_rewrite hrewrite).mp hrow'
    exact hnew row hrow hdec row' hassign

/-- A delete under the tenant's condition removes rows of the tenant. -/
lemma SqlDelete.spares {d : SqlDelete V} (htable : d.table = E.table)
    (h : d.run server db = some (after, rows)) (hmem : tenantIs E c t ∈ d.filters) :
    Spares c t E.table db after ∧ ∀ row ∈ rows, row c = some t := by
  obtain ⟨-, hstore, rfl⟩ := SqlDelete.run_eq_some.1 h
  rw [htable] at hstore ⊢
  constructor
  · refine .of_store hstore ?_
    rw [List.filter_filter]
    refine List.filter_congr fun row _ => ?_
    cases hrow : foreign c t row with
    | false => rfl
    | true =>
      have hmiss : ¬Hits d.filters db E.table row := fun hhit =>
        foreign_eq_true.1 hrow (carries_of_hits hmem hhit)
      rw [Bool.true_and, decide_eq_true hmiss]
  · intro row hrow
    rw [List.mem_filter] at hrow
    exact carries_of_hits hmem (of_decide_eq_true hrow.2)

/-- What a conflict clause sets in the tenant's column is what the new row has there. -/
def ConflictKeeps (c : Ident) (i : SqlInsert V) : Prop :=
  ∀ assignments, i.conflict.bind (·.doUpdate) = some assignments →
    ∀ a ∈ assignments, a.column = c → a.value = .excluded c

/-- The insert rewrites no row of another tenant. -/
def ConflictsInside (server : Server V) (c : Ident) (t : V) (i : SqlInsert V) (table : List (Row V))
    (news : List (Row V)) : Prop :=
  (i.conflict.bind (·.doUpdate)).isSome → ∀ clash, i.clash server = some clash →
    ∀ old ∈ table, old c ≠ some t → ∀ new ∈ news, clash new old = false

namespace SqlInsert

variable {i : SqlInsert V} {clash : Row V → Row V → Bool} {table : List (Row V)}

lemma putAll_spares (hkeeps : ConflictKeeps c i) (hclash : i.clash server = some clash)
    {marked out : List (Bool × Row V)} {news : List (Row V)}
    (hinside : ConflictsInside server c t i table news) (hnews : ∀ new ∈ news, new c = some t)
    (hmarked : (marked.map (·.2)).filter (foreign c t) = table.filter (foreign c t))
    (h : putAll server moment db i clash marked news = some (out, rows)) :
    (out.map (·.2)).filter (foreign c t) = table.filter (foreign c t) ∧
      ∀ row ∈ rows, row c = some t := by
  induction news generalizing marked out rows with
  | nil =>
    obtain ⟨rfl, rfl⟩ := Prod.ext_iff.mp (Option.some.inj h)
    exact ⟨hmarked, fun row hrow => absurd hrow List.not_mem_nil⟩
  | cons new news ih =>
    obtain ⟨marked', first, rest, hone, hrest, rfl⟩ := putAll_cons_eq_some.1 h
    have hnew : new c = some t := hnews new List.mem_cons_self
    have hstep : (marked'.map (·.2)).filter (foreign c t) = table.filter (foreign c t) ∧
        ∀ row ∈ first, row c = some t := by
      rcases put_cases hone with
        ⟨rfl, rfl, -⟩ | ⟨rfl, rfl⟩ |
          ⟨l₁, old, l₂, row, assignments, hsplit, hmarked', hfirst, hhit, hdo, hassign⟩
      · refine ⟨?_, fun row hrow => by rwa [List.mem_singleton.mp hrow]⟩
        rw [List.map_append, List.filter_append, hmarked, List.map_singleton,
          List.filter_singleton, foreign_eq_false.2 hnew]
        exact List.append_nil _
      · exact ⟨hmarked, fun row hrow => absurd hrow List.not_mem_nil⟩
      · -- The row that is rewritten is one of the tenant's: the others are those of before.
        have hold : old.2 c = some t := by
          by_contra hne
          have hmem : old.2 ∈ table.filter (foreign c t) := by
            rw [← hmarked, List.mem_filter]
            exact ⟨List.mem_map_of_mem (by simp [hsplit]), foreign_eq_true.2 hne⟩
          have hmiss := hinside (by rw [hdo]; rfl) clash hclash old.2 (List.mem_filter.mp hmem).1
            hne new List.mem_cons_self
          rw [hmiss] at hhit
          cases hhit
        have hrow : row c = some t := by
          refine assignFrom_keeps hassign (fun a ha hac => ?_) hold
          rw [hkeeps assignments hdo a ha hac, SetExpr.eval, hnew]
        rw [hfirst]
        refine ⟨?_, fun q hq => by rwa [List.mem_singleton.mp hq]⟩
        rw [← hmarked, hmarked', hsplit]
        simp only [List.map_append, List.map_cons, List.filter_append, List.filter_cons,
          foreign_eq_false.2 hold, foreign_eq_false.2 hrow, if_neg Bool.false_ne_true]
    obtain ⟨hout, hrows⟩ := ih
      (fun hdo clash' hclash' old hold hne new' hnew' =>
        hinside hdo clash' hclash' old hold hne new' (List.mem_cons_of_mem new hnew'))
      (fun new' hnew' => hnews new' (List.mem_cons_of_mem new hnew')) hstep.1 hrest
    refine ⟨hout, fun row hrow => ?_⟩
    rcases List.mem_append.mp hrow with hrow | hrow
    · exact hstep.2 row hrow
    · exact hrows row hrow

/-- An insert of rows of the tenant that is in conflict with rows of the tenant only. -/
lemma spares (htable : i.table = E.table) (h : i.run server moment db = some (after, rows))
    (hkeeps : ConflictKeeps c i) (hnews : ∀ new ∈ i.newRows moment, new c = some t)
    (hinside : ConflictsInside server c t i (db E.table) (i.newRows moment)) :
    Spares c t E.table db after ∧ ∀ row ∈ rows, row c = some t := by
  obtain ⟨clash, out, hclash, hput, hstore⟩ := run_eq_some.1 h
  rw [htable] at hput hstore
  obtain ⟨hout, hrows⟩ := putAll_spares hkeeps hclash hinside hnews
    (by rw [List.map_map]; exact congrArg _ (List.map_id _)) hput
  exact ⟨.of_store hstore hout, hrows⟩

end SqlInsert

end Moso.Orm
