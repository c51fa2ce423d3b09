import Mathlib.Data.List.MinMax
import Mathlib.Logic.Function.Basic
import Moso.Foundation.Machine
import Moso.Orm.Tenant

/-!
# The router of tenants

A router keeps the pools of its tenants, up to its capacity, and opens one when a tenant without a
pool is asked for. Calls overlap: while one connects, others may open and close pools, also for its
own tenant. A pool is the number of the connection that opened it; `opened` and `handed` record for
whom pools were opened and to whom they were given.
-/

namespace Moso.Orm

/-- What is kept for a tenant, and when it was used last. -/
structure PoolEntry (T : Type) where
  key : List Char
  value : T
  used : ℕ

/-- A least-recently-used map of tenant key to pool. -/
structure TenantPools (T : Type) where
  entries : List (PoolEntry T)
  clock : ℕ

namespace TenantPools

variable {T : Type}

def empty : TenantPools T := ⟨[], 0⟩

/-- The pool for `key`, marked as just used. -/
def touch (pools : TenantPools T) (key : List Char) : Option T × TenantPools T :=
  let clock := pools.clock + 1
  match pools.entries.find? (·.key = key) with
  | none => (none, ⟨pools.entries, clock⟩)
  | some entry => (some entry.value,
      ⟨pools.entries.map fun e => if e.key = key then ⟨e.key, e.value, clock⟩ else e, clock⟩)

/-- Stores `value` under `key`, with the pool evicted to stay under `capacity`. No two entries have
one time of use, so it plays no part in which order they are looked at. -/
def insert (pools : TenantPools T) (key : List Char) (value : T) (capacity : ℕ) :
    Option T × TenantPools T :=
  let clock := pools.clock + 1
  let entries := ⟨key, value, clock⟩ :: pools.entries.filter (·.key ≠ key)
  if entries.length ≤ capacity then (none, ⟨entries, clock⟩)
  else
    match entries.argmin (·.used) with
    | none => (none, ⟨entries, clock⟩)
    | some oldest => (some oldest.value, ⟨entries.filter (·.key ≠ oldest.key), clock⟩)

/-- Empties the map. -/
def drain (pools : TenantPools T) : List T × TenantPools T :=
  (pools.entries.map (·.value), ⟨[], pools.clock⟩)

/-- What is kept under every key is related to it. -/
def All (P : List Char → T → Prop) (pools : TenantPools T) : Prop :=
  ∀ e ∈ pools.entries, P e.key e.value

variable {P : List Char → T → Prop} {pools : TenantPools T} {key : List Char} {value : T}

lemma All.touch (h : All P pools) (key : List Char) : All P (pools.touch key).2 := by
  unfold TenantPools.touch
  cases pools.entries.find? (·.key = key) with
  | none => exact h
  | some entry =>
    intro e he
    obtain ⟨e', he', rfl⟩ := List.mem_map.mp he
    split_ifs
    · exact h e' he'
    · exact h e' he'

lemma All.of_touch (h : All P pools) (htouch : (pools.touch key).1 = some value) :
    P key value := by
  unfold TenantPools.touch at htouch
  cases hfind : pools.entries.find? (·.key = key) with
  | none =>
    rw [hfind] at htouch
    cases htouch
  | some entry =>
    rw [hfind] at htouch
    obtain rfl := Option.some.inj htouch
    have hkey : entry.key = key := by simpa using List.find?_some hfind
    exact hkey ▸ h entry (List.mem_of_find?_eq_some hfind)

lemma All.insert (h : All P pools) (hvalue : P key value) (capacity : ℕ) :
    All P (pools.insert key value capacity).2 := by
  have hentries : ∀ e ∈ ⟨key, value, pools.clock + 1⟩ :: pools.entries.filter (·.key ≠ key),
      P e.key e.value := by
    intro e he
    rcases List.mem_cons.mp he with rfl | he
    · exact hvalue
    · exact h e (List.mem_of_mem_filter he)
  unfold TenantPools.insert
  dsimp only
  split_ifs
  · exact hentries
  · split
    · exact hentries
    · intro e he
      exact hentries e (List.mem_filter.mp he).1

end TenantPools

variable {valid : String → Bool} {Config : Type}

/-- A router, with the calls that are connecting. -/
structure TenantRouter (valid : String → Bool) (Config : Type) where
  capacity : ℕ
  pools : TenantPools ℕ
  evictions : ℕ
  connecting : ℕ → Option (TenantId valid × Config)
  opened : List (TenantId valid × Config)
  handed : List (TenantId valid × ℕ)

namespace TenantRouter

/-- A router that may hold no pools is raised to one. -/
def new (capacity : ℕ) : TenantRouter valid Config where
  capacity := max capacity 1
  pools := .empty
  evictions := 0
  connecting := fun _ => none
  opened := []
  handed := []

/-- What happens around a router. -/
inductive Event (valid : String → Bool) where
  /-- A call begins: it finds the pool, or starts to connect. -/
  | db (call : ℕ) (tenant : TenantId valid)
  /-- A call has its connection; it keeps the pool that landed first. -/
  | connected (call : ℕ)
  /-- The connection of a call fails, or the call is dropped. -/
  | givenUp (call : ℕ)
  | close

variable (inside : Value valid → List Char)
  (source : TenantId valid → Except ConfigurationError Config)

/-- The first half of `db`: the tenant's pool is found, or the call starts to connect. -/
def find (s : TenantRouter valid Config) (call : ℕ) (tenant : TenantId valid) :
    TenantRouter valid Config :=
  match s.pools.touch (tenant.key inside) with
  | (some existing, pools) =>
    { s with pools := pools, handed := (tenant, existing) :: s.handed }
  | (none, pools) =>
    match source tenant with
    | .error _ => { s with pools := pools }
    | .ok config => { s with
        pools := pools
        connecting := Function.update s.connecting call (some (tenant, config)) }

/-- The second half: the pool that has been opened is kept, unless another landed first. -/
def store (s : TenantRouter valid Config) (call : ℕ) (tenant : TenantId valid) (config : Config) :
    TenantRouter valid Config :=
  let connecting := Function.update s.connecting call none
  let opened := s.opened ++ [(tenant, config)]
  match s.pools.touch (tenant.key inside) with
  | (some existing, pools) =>
    -- the pool that was opened for nothing is closed
    ⟨s.capacity, pools, s.evictions + 1, connecting, opened, (tenant, existing) :: s.handed⟩
  | (none, pools) =>
    let (evicted, pools) := pools.insert (tenant.key inside) s.opened.length s.capacity
    ⟨s.capacity, pools, s.evictions + evicted.toList.length, connecting, opened,
      (tenant, s.opened.length) :: s.handed⟩

def step (s : TenantRouter valid Config) : Event valid → Option (TenantRouter valid Config)
  | .db call tenant =>
    if (s.connecting call).isSome then none else some (s.find inside source call tenant)
  | .connected call => (s.connecting call).map fun c => s.store inside call c.1 c.2
  | .givenUp call =>
    if (s.connecting call).isSome then
      some { s with connecting := Function.update s.connecting call none }
    else none
  | .close => some { s with pools := s.pools.drain.2 }

/-- The pool was opened for a tenant of this key. -/
def OpenedFor (opened : List (TenantId valid × Config)) (key : List Char) (pool : ℕ) : Prop :=
  ∃ tenant config, opened[pool]? = some (tenant, config) ∧ tenant.key inside = key

/-- Pools are kept for, and handed to, the tenants that they were opened for. -/
structure Sound (s : TenantRouter valid Config) : Prop where
  pools : s.pools.All (OpenedFor inside s.opened)
  handed : ∀ p ∈ s.handed, OpenedFor inside s.opened (p.1.key inside) p.2

variable {inside} {source} {s s' : TenantRouter valid Config} {e : Event valid}

lemma OpenedFor.append {opened : List (TenantId valid × Config)} {key : List Char} {pool : ℕ}
    (h : OpenedFor inside opened key pool) (o : TenantId valid × Config) :
    OpenedFor inside (opened ++ [o]) key pool := by
  obtain ⟨tenant, config, hopened, hkey⟩ := h
  refine ⟨tenant, config, ?_, hkey⟩
  rw [List.getElem?_append_left (List.getElem?_eq_some_iff.mp hopened).1]
  exact hopened

lemma openedFor_length (opened : List (TenantId valid × Config)) (tenant : TenantId valid)
    (config : Config) :
    OpenedFor inside (opened ++ [(tenant, config)]) (tenant.key inside) opened.length :=
  ⟨tenant, config, List.getElem?_concat_length, rfl⟩

lemma sound_new (capacity : ℕ) : Sound inside (new capacity : TenantRouter valid Config) :=
  ⟨by rintro _ ⟨⟩, by rintro _ ⟨⟩⟩

/-- A tenant is handed a pool that was opened for it. -/
lemma forall_handed {opened : List (TenantId valid × Config)} {handed : List (TenantId valid × ℕ)}
    {tenant : TenantId valid} {pool : ℕ} (hpool : OpenedFor inside opened (tenant.key inside) pool)
    (h : ∀ p ∈ handed, OpenedFor inside opened (p.1.key inside) p.2) :
    ∀ p ∈ (tenant, pool) :: handed, OpenedFor inside opened (p.1.key inside) p.2 :=
  List.forall_mem_cons.mpr ⟨hpool, h⟩

lemma sound_find (h : Sound inside s) (call : ℕ) (tenant : TenantId valid) :
    Sound inside (s.find inside source call tenant) := by
  have hpools := h.pools.touch (tenant.key inside)
  have hexisting : ∀ existing, (s.pools.touch (tenant.key inside)).1 = some existing →
      OpenedFor inside s.opened (tenant.key inside) existing := fun _ => h.pools.of_touch
  unfold find
  generalize s.pools.touch (tenant.key inside) = t at hpools hexisting ⊢
  obtain ⟨_ | existing, pools⟩ := t
  · cases source tenant with
    | error e => exact ⟨hpools, h.handed⟩
    | ok config => exact ⟨hpools, h.handed⟩
  · exact ⟨hpools, forall_handed (hexisting existing rfl) h.handed⟩

lemma sound_store (h : Sound inside s) (call : ℕ) (tenant : TenantId valid) (config : Config) :
    Sound inside (s.store inside call tenant config) := by
  have hgrown : s.pools.All (OpenedFor inside (s.opened ++ [(tenant, config)])) :=
    fun e he => (h.pools e he).append _
  have hhanded : ∀ p ∈ s.handed,
      OpenedFor inside (s.opened ++ [(tenant, config)]) (p.1.key inside) p.2 :=
    fun p hp => (h.handed p hp).append _
  have hnew : OpenedFor inside (s.opened ++ [(tenant, config)]) (tenant.key inside)
      s.opened.length := openedFor_length s.opened tenant config
  have hpools := hgrown.touch (tenant.key inside)
  have hexisting : ∀ existing, (s.pools.touch (tenant.key inside)).1 = some existing →
      OpenedFor inside (s.opened ++ [(tenant, config)]) (tenant.key inside) existing :=
    fun _ => hgrown.of_touch
  unfold store
  generalize s.pools.touch (tenant.key inside) = t at hpools hexisting ⊢
  obtain ⟨_ | existing, pools⟩ := t
  · exact ⟨hpools.insert hnew _, forall_handed hnew hhanded⟩
  · exact ⟨hpools, forall_handed (hexisting existing rfl) hhanded⟩

lemma sound_step (h : Sound inside s) (hstep : step inside source s e = some s') :
    Sound inside s' := by
  cases e with
  | db call tenant =>
    obtain ⟨-, h'⟩ := Option.ite_none_left_eq_some.mp hstep
    exact Option.some.inj h' ▸ sound_find h call tenant
  | connected call =>
    obtain ⟨c, -, rfl⟩ := Option.map_eq_some_iff.mp hstep
    exact sound_store h call c.1 c.2
  | givenUp call =>
    obtain ⟨-, h'⟩ := Option.ite_none_right_eq_some.mp hstep
    obtain rfl := Option.some.inj h'
    exact ⟨h.pools, h.handed⟩
  | close =>
    obtain rfl := Option.some.inj hstep
    exact ⟨by rintro _ ⟨⟩, h.handed⟩

/-- Two tenants are never handed one pool, unless they have one key. -/
theorem handed_apart {capacity : ℕ} {es : List (Event valid)}
    (hrun : Machine.exec (step inside source) (new capacity) es = some s) {a b : TenantId valid}
    {p q : ℕ} (ha : (a, p) ∈ s.handed) (hb : (b, q) ∈ s.handed)
    (hkey : a.key inside ≠ b.key inside) : p ≠ q := by
  have hsound : Sound inside s :=
    Machine.invariant_exec (fun _ _ _ => sound_step) (sound_new capacity) hrun
  rintro rfl
  obtain ⟨t, c, ht, hta⟩ := hsound.handed _ ha
  obtain ⟨t', c', ht', htb⟩ := hsound.handed _ hb
  rw [ht, Option.some.injEq, Prod.mk.injEq] at ht'
  obtain ⟨rfl, -⟩ := ht'
  exact hkey (hta.symm.trans htb)

end TenantRouter

namespace TenantId

/-- The schemas and the databases of two tenants differ exactly if their texts are not alike; the
pools that a router hands to them differ whenever their keys do. -/
theorem storage_apart_iff (inside : Value valid → List Char)
    (source : TenantId valid → Except ConfigurationError Config) (a b : TenantId valid) :
    (∀ start m n, a.schema inside start = .ok m → b.schema inside start = .ok n →
      (m ≠ n ↔ ¬Alike inside a b)) ∧
    (∀ urlTemplate u v,
      (TenancyModel.databasePerTenant urlTemplate).tenantUrl inside a = .ok u →
      (TenancyModel.databasePerTenant urlTemplate).tenantUrl inside b = .ok v →
      (u ≠ v ↔ ¬Alike inside a b)) ∧
    ∀ capacity es s,
      Machine.exec (TenantRouter.step inside source) (.new capacity) es = some s →
      ∀ p q, (a, p) ∈ s.handed → (b, q) ∈ s.handed → a.key inside ≠ b.key inside → p ≠ q :=
  ⟨fun _ _ _ ha hb => not_congr (schema_eq_iff ha hb),
    fun _ _ _ ha hb => not_congr (tenantUrl_eq_iff ha hb),
    fun _ _ _ hrun _ _ => TenantRouter.handed_apart hrun⟩

theorem storage_apart_iff_numbers :
    let inside : Value (fun _ => true) → List Char := fun _ => []
    let a : TenantId fun _ => true := ⟨.i64 1⟩
    let b : TenantId fun _ => true := ⟨.i64 2⟩
    let model := TenancyModel.databasePerTenant "h/\x7btenant\x7d".toList
    (∃ m n, a.schema inside "t_".toList = .ok m ∧ b.schema inside "t_".toList = .ok n ∧
      (m ≠ n ↔ ¬Alike inside a b)) ∧
    (∃ u v, model.tenantUrl inside a = .ok u ∧ model.tenantUrl inside b = .ok v ∧
      (u ≠ v ↔ ¬Alike inside a b)) ∧
    ∃ s, Machine.exec (TenantRouter.step inside fun _ => .ok ()) (.new 1)
        [.db 0 a, .db 1 b, .connected 0, .connected 1, .db 0 b] = some s ∧
      (a, 0) ∈ s.handed ∧ (b, 1) ∈ s.handed ∧ 0 ≠ 1 := by
  intro inside a b model
  have h := storage_apart_iff inside (fun _ => .ok ()) a b
  refine ⟨⟨⟨"t_1".toList, rfl⟩, ⟨"t_2".toList, rfl⟩, rfl, rfl, h.1 "t_".toList _ _ rfl rfl⟩,
    ⟨"h/1".toList, "h/2".toList, rfl, rfl, h.2.1 "h/\x7btenant\x7d".toList _ _ rfl rfl⟩, _, rfl,
      ?_, ?_, ?_⟩
  · exact .tail _ (.tail _ (.head _))
  · exact .head _
  · exact h.2.2 1 [.db 0 a, .db 1 b, .connected 0, .connected 1, .db 0 b] _ rfl 0 1
      (.tail _ (.tail _ (.head _))) (.head _) (by decide)

/-- Tenants that the router keeps apart share a schema, and they share a database. -/
theorem schema_shared :
    let inside : Value (fun _ => true) → List Char := fun _ => []
    let a : TenantId fun _ => true := ⟨.text "acme-eu"⟩
    let b : TenantId fun _ => true := ⟨.text "acme_eu"⟩
    let model := TenancyModel.databasePerTenant "h/\x7btenant\x7d".toList
    a.key inside ≠ b.key inside ∧
      (∃ name, a.schema inside "tenant_".toList = .ok name ∧
        b.schema inside "tenant_".toList = .ok name) ∧
      ∃ url, model.tenantUrl inside a = .ok url ∧ model.tenantUrl inside b = .ok url := by
  refine ⟨by decide, ⟨⟨"tenant_acme_eu".toList, rfl⟩, rfl, rfl⟩, "h/acme_eu".toList, rfl, rfl⟩

end TenantId

end Moso.Orm
