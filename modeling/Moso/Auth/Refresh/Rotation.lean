import Moso.Auth.Refresh

/-!
# Tokens that are rotated once

What every run of the transactions keeps, whatever their order: the row of a token that a
transaction has claimed is its own until it commits, and the row of a token that was rotated is
never unused again.
-/

namespace Moso.Auth

open Parties (Separate update_eq_some update_none_eq_some)
open ReadCommitted (locked visible mem_visible nodup_visible)

variable {F S δ : Type} {family : F} {subject : S} {hash : δ} {row : RefreshRow F S δ}

/-- The deletion is of a family that was issued to a subject. -/
def Deletion.Burns (family : F) (subject : S) : Deletion F S δ → Prop
  | reused family' | revokeFamily family' => family = family'
  | revokeSubject subject' => subject = subject'
  | invalid _ | sweep _ => False

lemma Deletion.Burns.takes [DecidableEq F] [DecidableEq S] [DecidableEq δ]
    {deletion : Deletion F S δ} (h : deletion.Burns row.family row.subject) :
    deletion.takes row = true := by
  cases deletion with
  | reused family' => exact decide_eq_true h
  | revokeFamily family' => exact decide_eq_true h
  | revokeSubject subject' => exact decide_eq_true h
  | invalid hash => cases h
  | sweep now => cases h

namespace RefreshRun

variable {s s' : RefreshRun F S δ} {i : ℕ} {tx tx' : RefreshTx F S δ}

/-- The tokens that were rotated. -/
def rotated (s : RefreshRun F S δ) : List δ := s.rotations.map Rotation.hash

/-- The row that an exchange has put in the place of an unused one. -/
def Claimed (s : RefreshRun F S δ) (hash : δ) (row : RefreshRow F S δ) : Prop :=
  ∃ unused ∈ s.rows, unused.used = false ∧ unused.tokenHash = hash ∧
    row = { unused with used := true }

/-- The deletion burns these families, which were issued. -/
def Aims (s : RefreshRun F S δ) (deletion : Deletion F S δ) (families : List F) : Prop :=
  ∀ family ∈ families, ∃ subject, (family, subject) ∈ s.issued ∧ deletion.Burns family subject

/-- What holds of a transaction at the point it is at. -/
def PhaseSound (s : RefreshRun F S δ) (tx : RefreshTx F S δ) : Prop :=
  match tx.phase with
  | .claim .. | .claiming .. | .select _ _ false => tx.work = [] ∧ tx.burns = []
  | .select hash _ true => (∃ row, s.Claimed hash row ∧ tx.work = [(hash, some row)]) ∧ tx.burns = []
  | .insert hash row _ => (s.Claimed hash row ∧ tx.work = [(hash, some row)]) ∧ tx.burns = []
  | .delete deletion => tx.work = [] ∧ s.Aims deletion tx.burns
  | .deleting deletion rest => ((∀ entry ∈ tx.work, entry.2 = none) ∧
      ∀ hash ∈ rest, hash ∉ locked tx.work) ∧ s.Aims deletion tx.burns
  | .commit (.rotated hash next) => (∃ row, s.Claimed hash row ∧
      tx.work = [(next.tokenHash, some next), (hash, some row)] ∧ next.family = row.family ∧
      next.subject = row.subject ∧ next.tokenHash ∉ s.rotated) ∧ tx.burns = []
  | .commit _ => ∀ entry ∈ tx.work, entry.2 = none

structure TxSound (s : RefreshRun F S δ) (tx : RefreshTx F S δ) : Prop where
  nodup : (locked tx.work).Nodup
  minted : ∀ hash ∈ locked tx.work, hash ∈ s.minted
  burns : ∀ family ∈ tx.burns, family ∈ s.issued.map Prod.fst
  phase : s.PhaseSound tx

/-- What every run keeps. -/
structure Sound (s : RefreshRun F S δ) : Prop where
  begun : ∀ j tx, s.txs j = some tx → j ∈ s.begun
  keys : (s.rows.map RefreshRow.tokenHash).Nodup
  rows : ∀ row ∈ s.rows, row.tokenHash ∈ s.minted ∧ (row.family, row.subject) ∈ s.issued
  issued : (s.issued.map Prod.fst).Nodup
  txs : ∀ j tx, s.txs j = some tx → s.TxSound tx
  apart : Separate (fun (tx : RefreshTx F S δ) hash => hash ∈ locked tx.work) s.txs
  once : s.rotated.Nodup
  known : ∀ hash ∈ s.rotated, hash ∈ s.minted
  used : ∀ row ∈ s.rows, row.tokenHash ∈ s.rotated → row.used = true
  burned : ∀ family ∈ s.burned, family ∈ s.issued.map Prod.fst

/-! ### What a transaction keeps while others go on -/

/-- What one state keeps of another, as far as a transaction goes that has locked these keys. -/
structure Keeps (s s' : RefreshRun F S δ) (keys : List δ) : Prop where
  rows : ∀ row ∈ s.rows, row.tokenHash ∈ keys → row ∈ s'.rows
  minted : ∀ hash ∈ s.minted, hash ∈ s'.minted
  issued : ∀ entry ∈ s.issued, entry ∈ s'.issued
  rotated : ∀ hash ∈ keys, hash ∈ s'.rotated → hash ∈ s.rotated

lemma Keeps.claimed {keys : List δ} (h : Keeps s s' keys) (hmem : hash ∈ keys)
    (hclaimed : s.Claimed hash row) : s'.Claimed hash row := by
  obtain ⟨unused, hrow, hused, rfl, rfl⟩ := hclaimed
  exact ⟨unused, h.rows unused hrow hmem, hused, rfl, rfl⟩

lemma Keeps.aims {keys : List δ} (h : Keeps s s' keys) {deletion : Deletion F S δ}
    {families : List F} (haims : s.Aims deletion families) : s'.Aims deletion families := by
  intro family hfamily
  obtain ⟨subject, hissued, hburns⟩ := haims family hfamily
  exact ⟨subject, h.issued _ hissued, hburns⟩

lemma Keeps.phaseSound (h : Keeps s s' (locked tx.work)) (hsound : s.PhaseSound tx) :
    s'.PhaseSound tx := by
  obtain ⟨phase, work, burns⟩ := tx
  cases phase with
  | claim hash now => exact hsound
  | claiming hash now => exact hsound
  | select hash now claimed =>
    cases claimed with
    | false => exact hsound
    | true =>
      obtain ⟨⟨row, hclaimed, rfl⟩, hburns⟩ := hsound
      exact ⟨⟨row, h.claimed List.mem_cons_self hclaimed, rfl⟩, hburns⟩
  | insert hash row now =>
    obtain ⟨⟨hclaimed, rfl⟩, hburns⟩ := hsound
    exact ⟨⟨h.claimed List.mem_cons_self hclaimed, rfl⟩, hburns⟩
  | delete deletion => exact ⟨hsound.1, h.aims hsound.2⟩
  | deleting deletion rest => exact ⟨hsound.1, h.aims hsound.2⟩
  | commit result =>
    cases result with
    | rotated hash next =>
      obtain ⟨⟨row, hclaimed, rfl, hfamily, hsubject, hnew⟩, hburns⟩ := hsound
      exact ⟨⟨row, h.claimed (List.mem_cons_of_mem _ List.mem_cons_self) hclaimed, rfl, hfamily,
        hsubject, fun hmem => hnew (h.rotated _ List.mem_cons_self hmem)⟩, hburns⟩
    | reuseDetected family => exact hsound
    | invalid => exact hsound
    | deleted count => exact hsound

lemma Keeps.txSound (h : Keeps s s' (locked tx.work)) (hsound : s.TxSound tx) : s'.TxSound tx where
  nodup := hsound.nodup
  minted hash hmem := h.minted hash (hsound.minted hash hmem)
  burns family hfamily := by
    obtain ⟨entry, hentry, rfl⟩ := List.mem_map.mp (hsound.burns family hfamily)
    exact List.mem_map_of_mem (h.issued entry hentry)
  phase := h.phaseSound hsound.phase

/-- What holds of a transaction does not depend on the others. -/
lemma TxSound.among (h : s.TxSound tx) (txs : ℕ → Option (RefreshTx F S δ)) (begun : List ℕ) :
    ({ s with txs := txs, begun := begun } : RefreshRun F S δ).TxSound tx :=
  Keeps.txSound (s := s) ⟨fun _ hrow _ => hrow, fun _ => id, fun _ => id, fun _ _ => id⟩ h

/-- A transaction writes rows under their keys, of families that were issued, and does not write
an unused row of a token that was rotated. -/
lemma Sound.written (h : s.Sound) (htx : s.TxSound tx) {k : δ} (hmem : (k, some row) ∈ tx.work) :
    row.tokenHash = k ∧ (row.family, row.subject) ∈ s.issued ∧ (k ∈ s.rotated → row.used = true) := by
  have hclaimed : ∀ {hash row}, s.Claimed hash row →
      row.tokenHash = hash ∧ (row.family, row.subject) ∈ s.issued ∧ row.used = true := by
    rintro hash row ⟨unused, hrow, -, rfl, rfl⟩
    exact ⟨rfl, (h.rows unused hrow).2, rfl⟩
  have hdeleted : ¬ ∀ entry ∈ tx.work, entry.2 = none := fun hnone => by cases hnone _ hmem
  have hphase := htx.phase
  obtain ⟨phase, work, burns⟩ := tx
  cases phase with
  | claim hash now => exact absurd (hphase.1 ▸ hmem) List.not_mem_nil
  | claiming hash now => exact absurd (hphase.1 ▸ hmem) List.not_mem_nil
  | select hash now claimed =>
    cases claimed with
    | false => exact absurd (hphase.1 ▸ hmem) List.not_mem_nil
    | true =>
      obtain ⟨⟨row', hrow, rfl⟩, -⟩ := hphase
      obtain ⟨rfl, heq⟩ := Prod.mk.inj (List.mem_singleton.mp hmem)
      obtain rfl := Option.some.inj heq
      exact ⟨(hclaimed hrow).1, (hclaimed hrow).2.1, fun _ => (hclaimed hrow).2.2⟩
  | insert hash row' now =>
    obtain ⟨⟨hrow, rfl⟩, -⟩ := hphase
    obtain ⟨rfl, heq⟩ := Prod.mk.inj (List.mem_singleton.mp hmem)
    obtain rfl := Option.some.inj heq
    exact ⟨(hclaimed hrow).1, (hclaimed hrow).2.1, fun _ => (hclaimed hrow).2.2⟩
  | delete deletion => exact absurd (hphase.1 ▸ hmem) List.not_mem_nil
  | deleting deletion rest => exact absurd hphase.1.1 hdeleted
  | commit result =>
    cases result with
    | rotated hash next =>
      obtain ⟨⟨row', hrow, rfl, hfamily, hsubject, hnew⟩, -⟩ := hphase
      rcases List.mem_cons.mp hmem with heq | hmem
      · obtain ⟨rfl, hnext⟩ := Prod.mk.inj heq
        obtain rfl := Option.some.inj hnext
        rw [hfamily, hsubject]
        exact ⟨rfl, (hclaimed hrow).2.1, fun hmem => absurd hmem hnew⟩
      · obtain ⟨rfl, heq⟩ := Prod.mk.inj (List.mem_singleton.mp hmem)
        obtain rfl := Option.some.inj heq
        exact ⟨(hclaimed hrow).1, (hclaimed hrow).2.1, fun _ => (hclaimed hrow).2.2⟩
    | reuseDetected family => exact absurd hphase hdeleted
    | invalid => exact absurd hphase hdeleted
    | deleted count => exact absurd hphase hdeleted

/-! ### What the steps keep -/

variable [DecidableEq δ]

/-- The transaction has claimed the token, and reads the row that it has put in its place. -/
lemma eq_of_seen {hash : δ} {row row' : RefreshRow F S δ} {rows : List (RefreshRow F S δ)}
    (hrow : row' ∈ visible RefreshRow.tokenHash rows [(hash, some row)])
    (hhash : row'.tokenHash = hash) : row' = row := by
  rcases mem_visible.1 hrow with ⟨-, hnot⟩ | ⟨k, hmem⟩
  · exact absurd (hhash ▸ List.mem_cons_self) hnot
  · exact Option.some.inj (Prod.mk.inj (List.mem_singleton.mp hmem)).2

/-- The rows seen by a transaction without work are those that are committed. -/
lemma seen_of_nil {rows : List (RefreshRow F S δ)} (hwork : tx.work = []) :
    tx.seen rows = rows := by
  rw [RefreshTx.seen, hwork, ReadCommitted.visible_nil]

variable [DecidableEq F] [DecidableEq S]

/-- A statement writes nothing when it starts or finishes. -/
lemma Sound.advance (h : s.Sound) (htx : s.TxSound tx) (hstep : tx.advance s.rows = some tx') :
    s.TxSound tx' ∧ tx'.work = tx.work := by
  have hphase := htx.phase
  obtain ⟨phase, work, burns⟩ := tx
  cases phase with
  | claim hash now =>
    simp only [RefreshTx.advance] at hstep
    split at hstep
    · obtain rfl := Option.some.inj hstep
      exact ⟨⟨htx.nodup, htx.minted, htx.burns, hphase⟩, rfl⟩
    · obtain rfl := Option.some.inj hstep
      exact ⟨⟨htx.nodup, htx.minted, htx.burns, hphase⟩, rfl⟩
  | claiming hash now => cases hstep
  | select hash now claimed =>
    cases claimed with
    | true =>
      obtain ⟨⟨row, hclaimed, rfl⟩, rfl⟩ := hphase
      obtain ⟨unused, hunused, hused, rfl, rfl⟩ := hclaimed
      simp only [RefreshTx.advance, if_true] at hstep
      split at hstep
      next hfind =>
        refine absurd (decide_eq_true rfl)
          (List.find?_eq_none.mp hfind { unused with used := true } ?_)
        exact mem_visible.2 (.inr ⟨_, List.mem_cons_self⟩)
      next row' hfind =>
        have hhash := List.find?_some hfind
        obtain rfl := eq_of_seen (List.mem_of_find?_eq_some hfind) (of_decide_eq_true hhash)
        obtain rfl := Option.some.inj hstep
        exact ⟨⟨htx.nodup, htx.minted, htx.burns,
          ⟨⟨unused, hunused, hused, rfl, rfl⟩, rfl⟩, rfl⟩, rfl⟩
    | false =>
      obtain ⟨rfl, rfl⟩ := hphase
      simp only [RefreshTx.advance, Bool.false_eq_true, if_false] at hstep
      split at hstep
      next =>
        obtain rfl := Option.some.inj hstep
        exact ⟨⟨htx.nodup, htx.minted, htx.burns, fun _ hmem => absurd hmem List.not_mem_nil⟩, rfl⟩
      next row hfind =>
        have hrow := List.mem_of_find?_eq_some hfind
        rw [seen_of_nil rfl] at hrow
        have hissued := (h.rows row hrow).2
        split at hstep
        next =>
          obtain rfl := Option.some.inj hstep
          refine ⟨⟨htx.nodup, htx.minted, ?_, rfl, ?_⟩, rfl⟩
          · intro family hfamily
            obtain rfl := List.mem_singleton.mp hfamily
            exact List.mem_map_of_mem (f := Prod.fst) hissued
          · intro family hfamily
            obtain rfl := List.mem_singleton.mp hfamily
            exact ⟨row.subject, hissued, rfl⟩
        next =>
          obtain rfl := Option.some.inj hstep
          exact ⟨⟨htx.nodup, htx.minted, htx.burns, rfl, fun _ hmem => absurd hmem List.not_mem_nil⟩, rfl⟩
  | insert hash row now => cases hstep
  | delete deletion =>
    obtain rfl := Option.some.inj hstep
    obtain ⟨rfl, haims⟩ := hphase
    refine ⟨⟨htx.nodup, htx.minted, htx.burns, ⟨fun _ => ?_, fun _ _ => ?_⟩, haims⟩, rfl⟩
    · exact fun hmem => absurd hmem List.not_mem_nil
    · exact List.not_mem_nil
  | deleting deletion rest =>
    cases rest with
    | cons hash rest => cases hstep
    | nil =>
      obtain rfl := Option.some.inj hstep
      refine ⟨⟨htx.nodup, htx.minted, htx.burns, ?_⟩, rfl⟩
      cases deletion <;> exact hphase.1.1
  | commit result => cases hstep

/-- A statement gets hold of a row that it claims or deletes, or finds that it is none of its
own. -/
lemma Sound.take (h : s.Sound) (htx : s.TxSound tx) (hstep : tx.take s.rows hash = some tx') :
    s.TxSound tx' ∧ ∀ k ∈ locked tx'.work, k = hash ∨ k ∈ locked tx.work := by
  have hphase := htx.phase
  obtain ⟨phase, work, burns⟩ := tx
  cases phase with
  | claiming hash' now =>
    obtain ⟨rfl, rfl⟩ := hphase
    simp only [RefreshTx.take] at hstep
    split at hstep
    next => cases hstep
    next heq =>
      split at hstep
      next =>
        obtain rfl := Option.some.inj hstep
        exact ⟨⟨htx.nodup, htx.minted, htx.burns, rfl, rfl⟩, fun _ => .inr⟩
      next row hfind =>
        obtain rfl := Option.some.inj hstep
        have hrow := List.mem_of_find?_eq_some hfind
        have hclaimable := List.find?_some hfind
        obtain ⟨rfl, hused, -⟩ := of_decide_eq_true hclaimable
        obtain rfl := not_not.mp heq
        refine ⟨⟨List.nodup_singleton _, fun k hk => ?_, htx.burns,
          ⟨_, ⟨row, hrow, hused, rfl, rfl⟩, rfl⟩, rfl⟩, fun k hk => ?_⟩
        · obtain rfl := List.mem_singleton.mp hk
          exact (h.rows row hrow).1
        · exact .inl (List.mem_singleton.mp hk)
  | deleting deletion rest =>
    obtain ⟨⟨hdeleted, hrest⟩, haims⟩ := hphase
    simp only [RefreshTx.take] at hstep
    split at hstep
    next => cases hstep
    next hmem =>
      have hmem := not_not.mp hmem
      split at hstep
      next hany =>
        obtain rfl := Option.some.inj hstep
        obtain ⟨row, hrow, htakes⟩ := List.any_eq_true.mp hany
        obtain ⟨rfl, -⟩ := of_decide_eq_true htakes
        refine ⟨⟨List.nodup_cons.mpr ⟨hrest _ hmem, htx.nodup⟩, fun k hk => ?_, htx.burns,
          ⟨fun entry hentry => ?_, fun k hk => ?_⟩, haims⟩, fun k => List.mem_cons.mp⟩
        · rcases List.mem_cons.mp hk with rfl | hk
          · exact (h.rows row hrow).1
          · exact htx.minted k hk
        · rcases List.mem_cons.mp hentry with rfl | hentry
          · rfl
          · exact hdeleted entry hentry
        · obtain ⟨hk, hne⟩ := List.mem_filter.mp hk
          exact List.not_mem_cons_of_ne_of_not_mem (of_decide_eq_true hne) (hrest k hk)
      next =>
        obtain rfl := Option.some.inj hstep
        exact ⟨⟨htx.nodup, htx.minted, htx.burns,
          ⟨hdeleted, fun k hk => hrest k (List.mem_filter.mp hk).1⟩, haims⟩, fun _ => .inr⟩
  | claim hash now => cases hstep
  | select hash now claimed => cases hstep
  | insert hash row now => cases hstep
  | delete deletion => cases hstep
  | commit result => cases hstep

omit [DecidableEq F] [DecidableEq S] [DecidableEq δ] in
/-- A transaction goes on, with no row that another has locked. -/
lemma Sound.put (h : s.Sound) (hi : i ∈ s.begun) (htx : s.TxSound tx)
    (hlocks : ∀ hash ∈ locked tx.work, ∀ j other, j ≠ i → s.txs j = some other →
      hash ∉ locked other.work) :
    ({ s with txs := Function.update s.txs i (some tx) } : RefreshRun F S δ).Sound :=
  { h with
    begun := fun j other hj => by
      rcases update_eq_some.1 hj with ⟨rfl, -⟩ | ⟨-, hj⟩
      · exact hi
      · exact h.begun j other hj
    txs := fun j other hj => by
      rcases update_eq_some.1 hj with ⟨-, heq⟩ | ⟨-, hj⟩
      · obtain rfl := Option.some.inj heq
        exact htx.among _ _
      · exact (h.txs j other hj).among _ _
    apart := h.apart.put hlocks }

omit [DecidableEq F] [DecidableEq S] [DecidableEq δ] in
lemma Sound.leave (h : s.Sound) (i : ℕ) :
    ({ s with txs := Function.update s.txs i none } : RefreshRun F S δ).Sound :=
  { h with
    begun := fun j tx hj => h.begun j tx (update_none_eq_some.1 hj).2
    txs := fun j tx hj => (h.txs j tx (update_none_eq_some.1 hj).2).among _ _
    apart := h.apart.leave }

omit [DecidableEq F] [DecidableEq S] [DecidableEq δ] in
/-- The rows that a transaction has locked are locked by no other. -/
lemma Sound.free (h : s.Sound) (hi : s.txs i = some tx) (hhash : hash ∈ locked tx.work) :
    ∀ j other, j ≠ i → s.txs j = some other → hash ∉ locked other.work :=
  fun j other hne hj => h.apart i j tx other hash (Ne.symm hne) hi hj hhash

omit [DecidableEq F] [DecidableEq S] [DecidableEq δ] in
/-- No other transaction has the property. -/
lemma Sound.of_anyOther (h : s.Sound) {p : RefreshTx F S δ → Bool}
    (hnone : s.anyOther i p = false) :
    ∀ j other, j ≠ i → s.txs j = some other → p other = false := by
  intro j other hne hj
  cases hp : p other with
  | false => rfl
  | true =>
    have hany : s.anyOther i p = true := by
      refine List.any_eq_true.mpr ⟨j, h.begun j other hj, ?_⟩
      rw [hj, Option.any_some, hp, Bool.and_true]
      exact decide_eq_true hne
    rw [hnone] at hany
    cases hany

omit [DecidableEq F] [DecidableEq S] [DecidableEq δ] in
lemma Sound.begin_ (h : s.Sound) {phase : RefreshPhase F S δ} {burns : List F}
    (hstep : s.begin_ i phase burns = some s')
    (hburns : ∀ family ∈ burns, family ∈ s.issued.map Prod.fst)
    (hphase : s.PhaseSound ⟨phase, [], burns⟩) : s'.Sound := by
  rw [RefreshRun.begin_] at hstep
  split at hstep
  · cases hstep
  · obtain rfl := Option.some.inj hstep
    have hbegun : ({ s with begun := i :: s.begun } : RefreshRun F S δ).Sound :=
      { h with
        begun := fun j tx hj => List.mem_cons_of_mem _ (h.begun j tx hj)
        txs := fun j tx hj => (h.txs j tx hj).among _ _ }
    have htx : s.TxSound ⟨phase, [], burns⟩ :=
      ⟨List.nodup_nil, fun _ hmem => absurd hmem List.not_mem_nil, hburns, hphase⟩
    exact hbegun.put List.mem_cons_self (htx.among _ _) fun _ hmem => absurd hmem List.not_mem_nil

omit [DecidableEq F] [DecidableEq S] [DecidableEq δ] in
lemma Sound.mint (h : s.Sound) (fresh : δ) :
    ({ s with minted := fresh :: s.minted } : RefreshRun F S δ).Sound :=
  { h with
    rows := fun row hrow => ⟨List.mem_cons_of_mem _ (h.rows row hrow).1, (h.rows row hrow).2⟩
    txs := fun j tx hj => Keeps.txSound (s := s) ⟨fun _ hrow _ => hrow,
      fun _ => List.mem_cons_of_mem _, fun _ => id, fun _ _ => id⟩ (h.txs j tx hj)
    known := fun hash hhash => List.mem_cons_of_mem _ (h.known hash hhash) }

omit [DecidableEq F] [DecidableEq S] [DecidableEq δ] in
/-- An exchange inserts the token that it has minted. -/
lemma Sound.insert (h : s.Sound) (hi : s.txs i = some tx) {now expiresAt : ℕ} {fresh : δ}
    (hphase : tx.phase = .insert hash row now) (hfresh : fresh ∉ s.minted) :
    ({ s with
      minted := fresh :: s.minted
      txs := Function.update s.txs i (some { tx with
        phase := .commit (.rotated hash ⟨fresh, row.family, row.subject, now, expiresAt, false⟩)
        work := (fresh, some ⟨fresh, row.family, row.subject, now, expiresAt, false⟩) :: tx.work })
      } : RefreshRun F S δ).Sound := by
  have htx := h.txs i tx hi
  have hfree := fun k (hk : k ∈ locked tx.work) => h.free hi hk
  obtain ⟨phase, work, burns⟩ := tx
  obtain rfl : phase = _ := hphase
  obtain ⟨⟨hclaimed, rfl⟩, rfl⟩ := htx.phase
  refine (h.mint fresh).put (h.begun i _ hi) ⟨List.nodup_cons.mpr ⟨fun hmem => ?_, htx.nodup⟩,
    fun k hk => ?_, htx.burns, ⟨row, hclaimed, rfl, rfl, rfl, fun hmem => ?_⟩, rfl⟩ ?_
  · exact hfresh (htx.minted _ hmem)
  · rcases List.mem_cons.mp hk with rfl | hk
    · exact List.mem_cons_self
    · exact List.mem_cons_of_mem _ (htx.minted k hk)
  · exact hfresh (h.known _ hmem)
  · intro k hk j other hne hj
    rcases List.mem_cons.mp hk with rfl | hk
    · exact fun hmem => hfresh ((h.txs j other hj).minted _ hmem)
    · exact hfree k hk j other hne hj

omit [DecidableEq F] [DecidableEq S] [DecidableEq δ] in
lemma Sound.issue (h : s.Sound) {now expiresAt : ℕ} (hhash : hash ∉ s.minted)
    (hfamily : family ∉ s.issued.map Prod.fst) :
    ({ s with
      rows := ⟨hash, family, subject, now, expiresAt, false⟩ :: s.rows
      minted := hash :: s.minted
      issued := (family, subject) :: s.issued } : RefreshRun F S δ).Sound where
  begun := h.begun
  keys := by
    refine List.nodup_cons.mpr ⟨fun hmem => ?_, h.keys⟩
    obtain ⟨row, hrow, rfl⟩ := List.mem_map.mp hmem
    exact hhash (h.rows row hrow).1
  rows row hrow := by
    rcases List.mem_cons.mp hrow with rfl | hrow
    · exact ⟨List.mem_cons_self, List.mem_cons_self⟩
    · exact ⟨List.mem_cons_of_mem _ (h.rows row hrow).1,
        List.mem_cons_of_mem _ (h.rows row hrow).2⟩
  issued := List.nodup_cons.mpr ⟨hfamily, h.issued⟩
  txs j tx hj := Keeps.txSound (s := s) ⟨fun _ hrow _ => List.mem_cons_of_mem _ hrow,
    fun _ => List.mem_cons_of_mem _, fun _ => List.mem_cons_of_mem _, fun _ _ => id⟩ (h.txs j tx hj)
  apart := h.apart
  once := h.once
  known hash hmem := List.mem_cons_of_mem _ (h.known hash hmem)
  used row hrow hmem := by
    rcases List.mem_cons.mp hrow with rfl | hrow
    · exact absurd (h.known _ hmem) hhash
    · exact h.used row hrow hmem
  burned family hmem := List.mem_cons_of_mem _ (h.burned family hmem)

omit [DecidableEq F] [DecidableEq S] in
/-- A transaction leaves what it has done in the table. -/
lemma Sound.publish (h : s.Sound) (hi : s.txs i = some tx) :
    ({ s with
      rows := tx.seen s.rows
      txs := Function.update s.txs i none } : RefreshRun F S δ).Sound where
  begun j other hj := h.begun j other (update_none_eq_some.1 hj).2
  keys := nodup_visible h.keys (h.txs i tx hi).nodup fun _ _ hmem =>
    (h.written (h.txs i tx hi) hmem).1
  rows row hrow := by
    rcases mem_visible.1 hrow with ⟨hrow, -⟩ | ⟨k, hmem⟩
    · exact h.rows row hrow
    · obtain ⟨rfl, hissued, -⟩ := h.written (h.txs i tx hi) hmem
      exact ⟨(h.txs i tx hi).minted _ (List.mem_map_of_mem (f := Prod.fst) hmem), hissued⟩
  issued := h.issued
  txs j other hj := by
    obtain ⟨hne, hj⟩ := update_none_eq_some.1 hj
    refine Keeps.txSound (s := s) ⟨fun row hrow hmem => ?_, fun _ => id, fun _ => id,
      fun _ _ => id⟩ (h.txs j other hj)
    exact mem_visible.2 (.inl ⟨hrow, h.free hj hmem i tx (Ne.symm hne) hi⟩)
  apart := h.apart.leave
  once := h.once
  known := h.known
  used row hrow hmem := by
    rcases mem_visible.1 hrow with ⟨hrow, -⟩ | ⟨k, hwork⟩
    · exact h.used row hrow hmem
    · obtain ⟨rfl, -, hused⟩ := h.written (h.txs i tx hi) hwork
      exact hused hmem
  burned := h.burned

omit [DecidableEq F] [DecidableEq S] [DecidableEq δ] in
/-- A token has been rotated whose row is used or gone, and which no transaction has locked. -/
lemma Sound.rotate (h : s.Sound) (late : Bool) (hminted : hash ∈ s.minted) (hnew : hash ∉ s.rotated)
    (hused : ∀ row ∈ s.rows, row.tokenHash = hash → row.used = true)
    (hfree : ∀ j other, s.txs j = some other → hash ∉ locked other.work) :
    ({ s with rotations := ⟨hash, late⟩ :: s.rotations } : RefreshRun F S δ).Sound :=
  { h with
    txs := fun j other hj => by
      refine Keeps.txSound (s := s) ⟨fun _ hrow _ => hrow, fun _ => id, fun _ => id,
        fun k hk hmem => ?_⟩ (h.txs j other hj)
      rcases List.mem_cons.mp hmem with rfl | hmem
      · exact absurd hk (hfree j other hj)
      · exact hmem
    once := List.nodup_cons.mpr ⟨hnew, h.once⟩
    known := fun k hk => by
      rcases List.mem_cons.mp hk with rfl | hk
      · exact hminted
      · exact h.known k hk
    used := fun row hrow hmem => by
      rcases List.mem_cons.mp hmem with heq | hmem
      · exact hused row hrow heq
      · exact h.used row hrow hmem }

omit [DecidableEq S] in
lemma Sound.commit (h : s.Sound) (hi : s.txs i = some tx) {result : RefreshResult F S δ}
    (hphase : tx.phase = .commit result) :
    (({ s with
      rows := tx.seen s.rows
      txs := Function.update s.txs i none } : RefreshRun F S δ).conclude tx result).Sound := by
  have htx := h.txs i tx hi
  have hpublish := h.publish hi
  have hburned : ({ s with
      rows := tx.seen s.rows
      txs := Function.update s.txs i none
      burned := tx.burns ++ s.burned } : RefreshRun F S δ).Sound :=
    { hpublish with
      txs := fun j other hj => Keeps.txSound (s := { s with
          rows := tx.seen s.rows
          txs := Function.update s.txs i none }) ⟨fun _ hrow _ => hrow, fun _ => id, fun _ => id,
        fun _ _ => id⟩ (hpublish.txs j other hj)
      burned := fun family hmem => by
        rcases List.mem_append.mp hmem with hmem | hmem
        · exact htx.burns family hmem
        · exact h.burned family hmem }
  have hsound := htx.phase
  rw [PhaseSound, hphase] at hsound
  cases result with
  | rotated hash next =>
    obtain ⟨⟨row, ⟨unused, hunused, hused, rfl, rfl⟩, hwork, -⟩, -⟩ := hsound
    have hlocked : locked tx.work = [next.tokenHash, unused.tokenHash] := by
      rw [hwork]
      rfl
    have hmem : unused.tokenHash ∈ locked tx.work := by
      rw [hlocked]
      exact List.mem_cons_of_mem _ List.mem_cons_self
    refine hpublish.rotate _ (htx.minted _ hmem) (fun hrotated => ?_) (fun row hrow heq => ?_)
      fun j other hj => ?_
    · have htrue := h.used unused hunused hrotated
      rw [hused] at htrue
      cases htrue
    · rcases mem_visible.1 hrow with ⟨-, hnot⟩ | ⟨k, hrow⟩
      · exact absurd (heq ▸ hmem) hnot
      · obtain ⟨rfl, -⟩ := h.written htx hrow
        rw [hwork] at hrow
        rcases List.mem_cons.mp hrow with hnext | hrow
        · -- The successor's key is another.
          have hnodup := htx.nodup
          rw [hlocked, ← (Prod.mk.inj hnext).1, heq] at hnodup
          exact absurd List.mem_cons_self (List.nodup_cons.mp hnodup).1
        · obtain rfl := Option.some.inj (Prod.mk.inj (List.mem_singleton.mp hrow)).2
          rfl
    · obtain ⟨hne, hj⟩ := update_none_eq_some.1 hj
      exact h.free hi hmem j other hne hj
  | reuseDetected family => exact hburned
  | invalid => exact hburned
  | deleted count => exact hburned

lemma Sound.step {event : RefreshEvent F S δ} (h : s.Sound) (hstep : s.step event = some s') :
    s'.Sound := by
  cases event with
  | issue hash family subject now expiresAt =>
    simp only [RefreshRun.step] at hstep
    split at hstep
    · cases hstep
    next hnew =>
      obtain rfl := Option.some.inj hstep
      exact h.issue (fun hmem => hnew (.inl hmem)) fun hmem => hnew (.inr hmem)
  | exchange i hash now =>
    exact h.begin_ hstep (fun _ hmem => absurd hmem List.not_mem_nil) ⟨rfl, rfl⟩
  | revokeFamily i family =>
    refine h.begin_ hstep (fun family' hmem => ?_) ⟨rfl, fun family' hmem => ?_⟩
    · obtain ⟨entry, hentry, rfl⟩ := List.mem_map.mp hmem
      exact List.mem_map_of_mem (List.mem_filter.mp hentry).1
    · obtain ⟨entry, hentry, rfl⟩ := List.mem_map.mp hmem
      obtain ⟨hentry, hfamily⟩ := List.mem_filter.mp hentry
      have hfamily : entry.1 = family := of_decide_eq_true hfamily
      exact ⟨entry.2, hentry, hfamily⟩
  | revokeSubject i subject =>
    refine h.begin_ hstep (fun family hmem => ?_) ⟨rfl, fun family hmem => ?_⟩
    · obtain ⟨entry, hentry, rfl⟩ := List.mem_map.mp hmem
      exact List.mem_map_of_mem (List.mem_filter.mp hentry).1
    · obtain ⟨entry, hentry, rfl⟩ := List.mem_map.mp hmem
      obtain ⟨hentry, hsubject⟩ := List.mem_filter.mp hentry
      have hsubject : entry.2 = subject := of_decide_eq_true hsubject
      exact ⟨entry.2, hentry, hsubject⟩
  | sweep i now =>
    exact h.begin_ hstep (fun _ hmem => absurd hmem List.not_mem_nil)
      ⟨rfl, fun _ hmem => absurd hmem List.not_mem_nil⟩
  | go i =>
    cases hi : s.txs i with
    | none =>
      simp only [RefreshRun.step, hi] at hstep
      cases hstep
    | some tx =>
      simp only [RefreshRun.step, hi] at hstep
      obtain ⟨tx', hadvance, rfl⟩ := Option.map_eq_some_iff.mp hstep
      obtain ⟨htx', hwork⟩ := h.advance (h.txs i tx hi) hadvance
      refine h.put (h.begun i tx hi) htx' fun k hk => h.free hi ?_
      rwa [← hwork]
  | lock i hash =>
    cases hi : s.txs i with
    | none =>
      simp only [RefreshRun.step, hi] at hstep
      cases hstep
    | some tx =>
      simp only [RefreshRun.step, hi] at hstep
      split at hstep
      · cases hstep
      next hany =>
        obtain ⟨tx', htake, rfl⟩ := Option.map_eq_some_iff.mp hstep
        obtain ⟨htx', hlocked⟩ := h.take (h.txs i tx hi) htake
        refine h.put (h.begun i tx hi) htx' fun k hk => ?_
        rcases hlocked k hk with rfl | hk
        · intro j other hne hj
          exact of_decide_eq_false (h.of_anyOther (Bool.eq_false_iff.mpr hany) j other hne hj)
        · exact h.free hi hk
  | insert i fresh expiresAt =>
    cases hi : s.txs i with
    | none =>
      simp only [RefreshRun.step, hi] at hstep
      cases hstep
    | some tx =>
      simp only [RefreshRun.step, hi] at hstep
      split at hstep
      next hash row now hphase =>
        split at hstep
        · cases hstep
        next hfresh =>
          obtain rfl := Option.some.inj hstep
          exact h.insert hi hphase hfresh
      next => cases hstep
  | commit i =>
    cases hi : s.txs i with
    | none =>
      simp only [RefreshRun.step, hi] at hstep
      cases hstep
    | some tx =>
      simp only [RefreshRun.step, hi] at hstep
      split at hstep
      next result hphase =>
        obtain rfl := Option.some.inj hstep
        exact h.commit hi hphase
      next => cases hstep
  | abort i =>
    cases hi : s.txs i with
    | none =>
      simp only [RefreshRun.step, hi] at hstep
      cases hstep
    | some tx =>
      simp only [RefreshRun.step, hi] at hstep
      obtain rfl := Option.some.inj hstep
      exact h.leave i

omit [DecidableEq F] [DecidableEq S] [DecidableEq δ] in
lemma sound_start : (start : RefreshRun F S δ).Sound where
  begun j tx hj := by cases hj
  keys := List.nodup_nil
  rows row hrow := by cases hrow
  issued := List.nodup_nil
  txs j tx hj := by cases hj
  apart := Parties.separate_none
  once := List.nodup_nil
  known hash hmem := by cases hmem
  used row hrow := by cases hrow
  burned family hmem := by cases hmem

/-- Whatever the order of their statements, a token is rotated at most once. -/
theorem always_rotatedOnce (events : List (RefreshEvent F S δ)) :
    Machine.Always RefreshRun.step (fun s => s.rotated.Nodup) (start : RefreshRun F S δ) events :=
  (Machine.always_of_step (fun _ _ _ h hstep => h.step hstep) sound_start events).mono
    fun _ h => h.once

end RefreshRun

end Moso.Auth
