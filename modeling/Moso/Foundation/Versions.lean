import Mathlib.Data.List.Count
import Mathlib.Order.Lattice

/-!
# Versions of records

Records under keys, each with a version, and a log of what happened to them: the versions that
each key ever had, the writes, the reads that clients remember, and the writes that were made on
the strength of a read. As long as a write leaves a record with a version above all of those that
its key had, a remembered version tells whether the record was written since.
-/

namespace Versions

variable {κ V : Type*}

/-- What a client remembers of a record, and how often it had been written by then. -/
structure Read (κ V : Type*) where
  client : ℕ
  key : κ
  version : V
  writes : ℕ

structure Log (κ V : Type*) where
  /-- Every version that the record under a key ever had. -/
  held : List (κ × V)
  /-- The keys whose records were written, once for each time. -/
  writes : List κ
  reads : List (Read κ V)
  /-- The writes that expected a version, with that version. -/
  saves : List (κ × V)

variable [DecidableEq κ]

namespace Log

def read (log : Log κ V) (client : ℕ) (key : κ) (version : V) : Log κ V :=
  { log with reads := ⟨client, key, version, log.writes.count key⟩ :: log.reads }

/-- The records under the keys `touched` were written, and now have these versions. -/
def write (log : Log κ V) (touched : List κ) (version : κ → Option V) : Log κ V :=
  { log with
    held := log.held ++ touched.filterMap fun key => (version key).map (key, ·)
    writes := touched ++ log.writes }

def save (log : Log κ V) (key : κ) (version : V) : Log κ V :=
  { log with saves := (key, version) :: log.saves }

/-- The record was written since it was read. -/
def Stale (log : Log κ V) (r : Read κ V) : Prop := r.writes < log.writes.count r.key

instance (log : Log κ V) (r : Read κ V) : Decidable (log.Stale r) :=
  inferInstanceAs (Decidable (_ < _))

end Log

variable [LinearOrder V]

/-- What holds of the versions that the records have. -/
structure Law (version : κ → Option V) (log : Log κ V) : Prop where
  held : ∀ k v, version k = some v → (k, v) ∈ log.held
  newest : ∀ k v, version k = some v → ∀ w, (k, w) ∈ log.held → w ≤ v
  seen : ∀ r ∈ log.reads, r.writes ≤ log.writes.count r.key
  current : ∀ r ∈ log.reads, ¬log.Stale r → version r.key = some r.version
  behind : ∀ r ∈ log.reads, log.Stale r → ∀ v, version r.key = some v → r.version < v
  remembered : ∀ r ∈ log.reads, (r.key, r.version) ∈ log.held
  passed : ∀ p ∈ log.saves, ∀ v, version p.1 = some v → p.2 < v
  saved : ∀ p ∈ log.saves, p ∈ log.held
  once : log.saves.Nodup

/-- Only the records under `touched` change, and their versions are new. -/
structure Advances (log : Log κ V) (touched : List κ) (version version' : κ → Option V) : Prop where
  same : ∀ k, k ∉ touched → version' k = version k
  above : ∀ k ∈ touched, ∀ v, version' k = some v → ∀ w, (k, w) ∈ log.held → w < v

variable {version version' : κ → Option V} {log : Log κ V} {touched : List κ}

omit [DecidableEq κ] [LinearOrder V] in
lemma mem_held_write {k : κ} {v : V} : (k, v) ∈ (log.write touched version').held ↔
    (k, v) ∈ log.held ∨ k ∈ touched ∧ version' k = some v := by
  rw [Log.write, List.mem_append, List.mem_filterMap]
  refine or_congr_right ⟨?_, ?_⟩
  · rintro ⟨k', hk, hmap⟩
    obtain ⟨v', hv, hpair⟩ := Option.map_eq_some_iff.mp hmap
    obtain ⟨rfl, rfl⟩ := Prod.mk.inj hpair
    exact ⟨hk, hv⟩
  · rintro ⟨hk, hv⟩
    exact ⟨k, hk, Option.map_eq_some_iff.mpr ⟨v, hv, rfl⟩⟩

omit [LinearOrder V] in
lemma stale_write {r : Read κ V} (hle : r.writes ≤ log.writes.count r.key) :
    (log.write touched version').Stale r ↔ log.Stale r ∨ r.key ∈ touched := by
  rw [Log.Stale, Log.Stale, Log.write, List.count_append]
  constructor
  · intro h
    refine or_iff_not_imp_left.mpr fun hlt => List.count_pos_iff.mp ?_
    omega
  · rintro (h | hk)
    · omega
    · have := List.count_pos_iff.mpr hk
      omega

namespace Law

/-- To remember a record changes nothing about it. -/
lemma read (h : Law version log) {client : ℕ} {k : κ} {v : V} (hv : version k = some v) :
    Law version (log.read client k v) where
  held := h.held
  newest := h.newest
  seen := by
    intro r hr
    rcases List.mem_cons.mp hr with rfl | hr
    · exact le_rfl
    · exact h.seen r hr
  current := by
    intro r hr hstale
    rcases List.mem_cons.mp hr with rfl | hr
    · exact hv
    · exact h.current r hr hstale
  behind := by
    intro r hr hstale
    rcases List.mem_cons.mp hr with rfl | hr
    · exact absurd hstale (Nat.lt_irrefl _)
    · exact h.behind r hr hstale
  remembered := by
    intro r hr
    rcases List.mem_cons.mp hr with rfl | hr
    · exact h.held k v hv
    · exact h.remembered r hr
  passed := h.passed
  saved := h.saved
  once := h.once

/-- A write to new versions. -/
lemma write (h : Law version log) (hadv : Advances log touched version version') :
    Law version' (log.write touched version') where
  held := by
    intro k v hv
    rw [mem_held_write]
    by_cases hk : k ∈ touched
    · exact .inr ⟨hk, hv⟩
    · exact .inl (h.held k v (by rwa [← hadv.same k hk]))
  newest := by
    intro k v hv w hw
    rcases mem_held_write.1 hw with hw | ⟨hk, hw⟩
    · by_cases hk : k ∈ touched
      · exact (hadv.above k hk v hv w hw).le
      · exact h.newest k v (by rwa [← hadv.same k hk]) w hw
    · exact (Option.some.inj (hw.symm.trans hv)).le
  seen := by
    intro r hr
    refine (h.seen r hr).trans ?_
    rw [Log.write, List.count_append]
    exact Nat.le_add_left _ _
  current := by
    intro r hr hstale
    rw [stale_write (h.seen r hr), not_or] at hstale
    rw [hadv.same r.key hstale.2]
    exact h.current r hr hstale.1
  behind := by
    intro r hr hstale v hv
    by_cases hk : r.key ∈ touched
    · exact hadv.above r.key hk v hv r.version (h.remembered r hr)
    · rw [hadv.same r.key hk] at hv
      exact h.behind r hr (((stale_write (h.seen r hr)).mp hstale).resolve_right hk) v hv
  remembered := fun r hr => mem_held_write.2 (.inl (h.remembered r hr))
  passed := by
    intro p hp v hv
    by_cases hk : p.1 ∈ touched
    · exact hadv.above p.1 hk v hv p.2 (h.saved p hp)
    · rw [hadv.same p.1 hk] at hv
      exact h.passed p hp v hv
  saved := fun p hp => mem_held_write.2 (.inl (h.saved p hp))
  once := h.once

/-- A record that a write which expected its version has left with a later one, or removed. -/
lemma save (h : Law version log) {k : κ} {v : V} (hheld : (k, v) ∈ log.held)
    (hlater : ∀ w, version k = some w → v < w) (hnew : (k, v) ∉ log.saves) :
    Law version (log.save k v) where
  held := h.held
  newest := h.newest
  seen := h.seen
  current := h.current
  behind := h.behind
  remembered := h.remembered
  passed := by
    intro p hp
    rcases List.mem_cons.mp hp with rfl | hp
    · exact hlater
    · exact h.passed p hp
  saved := by
    intro p hp
    rcases List.mem_cons.mp hp with rfl | hp
    · exact hheld
    · exact h.saved p hp
  once := List.nodup_cons.mpr ⟨hnew, h.once⟩

end Law

end Versions
