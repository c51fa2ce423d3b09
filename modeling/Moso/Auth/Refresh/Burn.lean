import Moso.Auth.Refresh.Rotation

/-!
# Families that are burned whole

What holds while exchanges keep out of the way of the burns of their families. A `delete` that
burns a family has every row of it before it or behind it, no other transaction has written one,
and once it has committed there are none.
-/

namespace Moso.Auth

open Parties (update_eq_some update_none_eq_some)
open ReadCommitted (locked mem_visible)

variable {F S δ : Type} {hash : δ} {row : RefreshRow F S δ}

/-- The keys that a `delete` has still to lock, from its start to the end of its transaction. -/
def RefreshPhase.rest : RefreshPhase F S δ → Option (List δ)
  | deleting _ rest => some rest
  | commit _ => some []
  | _ => none

namespace RefreshRun

variable {s s' : RefreshRun F S δ} {i : ℕ} {tx tx' : RefreshTx F S δ}

/-- Every row of a family that the transaction burns is one that it has locked, or has still to
lock. -/
def Covers (s : RefreshRun F S δ) (tx : RefreshTx F S δ) : Prop :=
  ∀ rest, tx.phase.rest = some rest → ∀ row ∈ s.rows, row.family ∈ tx.burns →
    row.tokenHash ∈ rest ∨ row.tokenHash ∈ locked tx.work

/-- A transaction that burns nothing has nothing to cover. -/
lemma covers_nil (hburns : tx.burns = []) : s.Covers tx := by
  intro rest _ row _ hmem
  rw [hburns] at hmem
  cases hmem

lemma covers_of_rest (hrest : tx.phase.rest = none) : s.Covers tx := by
  intro rest hsome
  rw [hrest] at hsome
  cases hsome

variable [DecidableEq F]

lemma wrote_eq_false {families : List F} :
    wrote families tx = false ↔ ∀ k row, (k, some row) ∈ tx.work → row.family ∉ families := by
  rw [← Bool.not_eq_true, wrote, List.any_eq_true]
  constructor
  · intro h k row hmem hfamily
    exact h ⟨_, hmem, decide_eq_true hfamily⟩
  · rintro h ⟨⟨k, o⟩, hmem, hany⟩
    cases o with
    | none => cases hany
    | some row => exact h k row hmem (of_decide_eq_true hany)

lemma wrote_congr (hwork : tx'.work = tx.work) (families : List F) :
    wrote families tx' = wrote families tx := by
  rw [wrote, wrote, hwork]

lemma wrote_nil (hwork : tx.work = []) (families : List F) : wrote families tx = false := by
  rw [wrote, hwork]
  rfl

lemma wrote_of_nil : wrote [] tx = false :=
  wrote_eq_false.2 fun _ _ _ => List.not_mem_nil

/-- What every run keeps in which claims keep out of burns. -/
structure Complete (s : RefreshRun F S δ) : Prop where
  covers : ∀ j tx, s.txs j = some tx → s.Covers tx
  alone : ∀ j tx, s.txs j = some tx → tx.phase.rest.isSome = true →
    ∀ k other, k ≠ j → s.txs k = some other → wrote tx.burns other = false
  gone : ∀ row ∈ s.rows, row.family ∉ s.burned
  quiet : ∀ j tx, s.txs j = some tx → wrote s.burned tx = false
  late : ∀ rotation ∈ s.rotations, rotation.late = false

/-- A transaction goes on, and writes no row of a family that is burned or that another burns. -/
lemma Complete.put (h : s.Complete) (hcovers : s.Covers tx)
    (halone : tx.phase.rest.isSome = true → ∀ j other, j ≠ i → s.txs j = some other →
      wrote tx.burns other = false)
    (hothers : ∀ j other, j ≠ i → s.txs j = some other → other.phase.rest.isSome = true →
      wrote other.burns tx = false)
    (hquiet : wrote s.burned tx = false) :
    ({ s with txs := Function.update s.txs i (some tx) } : RefreshRun F S δ).Complete where
  covers j other hj := by
    rcases update_eq_some.1 hj with ⟨-, heq⟩ | ⟨-, hj⟩
    · obtain rfl := Option.some.inj heq
      exact hcovers
    · exact h.covers j other hj
  alone j other hj hrest k third hne hk := by
    rw [update_eq_some] at hj hk
    rcases hj with ⟨rfl, heq⟩ | ⟨hji, hj⟩
    · obtain rfl := Option.some.inj heq
      rcases hk with ⟨rfl, -⟩ | ⟨-, hk⟩
      · exact absurd rfl hne
      · exact halone hrest k third hne hk
    · rcases hk with ⟨rfl, heq⟩ | ⟨-, hk⟩
      · obtain rfl := Option.some.inj heq
        exact hothers j other hji hj hrest
      · exact h.alone j other hj hrest k third hne hk
  gone := h.gone
  quiet j other hj := by
    rcases update_eq_some.1 hj with ⟨-, heq⟩ | ⟨-, hj⟩
    · obtain rfl := Option.some.inj heq
      exact hquiet
    · exact h.quiet j other hj
  late := h.late

/-- A transaction goes on without writing. -/
lemma Complete.put_of_work (h : s.Complete) (hi : s.txs i = some tx) (hwork : tx'.work = tx.work)
    (hcovers : s.Covers tx')
    (halone : tx'.phase.rest.isSome = true → ∀ j other, j ≠ i → s.txs j = some other →
      wrote tx'.burns other = false) :
    ({ s with txs := Function.update s.txs i (some tx') } : RefreshRun F S δ).Complete := by
  refine h.put hcovers halone (fun j other hne hj hrest => ?_) ?_
  · rw [wrote_congr hwork]
    exact h.alone j other hj hrest i tx (Ne.symm hne) hi
  · rw [wrote_congr hwork]
    exact h.quiet i tx hi

/-- A transaction goes on without writing, and has no `delete` of its own. -/
lemma Complete.put_of_rest (h : s.Complete) (hi : s.txs i = some tx) (hwork : tx'.work = tx.work)
    (hrest : tx'.phase.rest = none) :
    ({ s with txs := Function.update s.txs i (some tx') } : RefreshRun F S δ).Complete := by
  refine h.put_of_work hi hwork (covers_of_rest hrest) fun hsome => ?_
  rw [hrest] at hsome
  cases hsome

lemma Complete.leave (h : s.Complete) (i : ℕ) :
    ({ s with txs := Function.update s.txs i none } : RefreshRun F S δ).Complete where
  covers j tx hj := h.covers j tx (update_none_eq_some.1 hj).2
  alone j tx hj hrest k other hne hk :=
    h.alone j tx (update_none_eq_some.1 hj).2 hrest k other hne (update_none_eq_some.1 hk).2
  gone := h.gone
  quiet j tx hj := h.quiet j tx (update_none_eq_some.1 hj).2
  late := h.late

lemma Complete.begin_ (h : s.Complete) {phase : RefreshPhase F S δ} {burns : List F}
    (hstep : s.begin_ i phase burns = some s') (hrest : phase.rest = none) : s'.Complete := by
  rw [RefreshRun.begin_] at hstep
  split at hstep
  · cases hstep
  · obtain rfl := Option.some.inj hstep
    have hbegun : ({ s with begun := i :: s.begun } : RefreshRun F S δ).Complete := { h with }
    refine hbegun.put (covers_of_rest hrest) (fun hsome => ?_) (fun _ _ _ _ _ => wrote_nil rfl _)
      (wrote_nil rfl _)
    rw [hrest] at hsome
    cases hsome

lemma Complete.issue (h : s.Complete) (hs : s.Sound) {family : F} {subject : S}
    {now expiresAt : ℕ} (hfamily : family ∉ s.issued.map Prod.fst) :
    ({ s with
      rows := ⟨hash, family, subject, now, expiresAt, false⟩ :: s.rows
      minted := hash :: s.minted
      issued := (family, subject) :: s.issued } : RefreshRun F S δ).Complete where
  covers j tx hj rest hrest row hrow hmem := by
    rcases List.mem_cons.mp hrow with rfl | hrow
    · exact absurd ((hs.txs j tx hj).burns _ hmem) hfamily
    · exact h.covers j tx hj rest hrest row hrow hmem
  alone := h.alone
  gone row hrow := by
    rcases List.mem_cons.mp hrow with rfl | hrow
    · exact fun hmem => hfamily (hs.burned _ hmem)
    · exact h.gone row hrow
  quiet := h.quiet
  late := h.late

/-! ### What the steps keep -/

omit [DecidableEq F] in
/-- A `delete` takes every row of the families that it burns. -/
lemma Sound.takes [DecidableEq F] [DecidableEq S] [DecidableEq δ] (h : s.Sound)
    {deletion : Deletion F S δ} {families : List F} (haims : s.Aims deletion families)
    (hrow : row ∈ s.rows) (hmem : row.family ∈ families) : deletion.takes row = true := by
  obtain ⟨subject, hissued, hburns⟩ := haims row.family hmem
  have heq := List.inj_on_of_nodup_map h.issued hissued (h.rows row hrow).2 rfl
  obtain rfl := (Prod.mk.inj heq).2
  exact hburns.takes

variable [DecidableEq S] [DecidableEq δ]

lemma Complete.advance (h : s.Complete) (hs : s.Sound) (hi : s.txs i = some tx)
    (hstep : tx.advance s.rows = some tx')
    (hkeeps : ∀ deletion, tx.phase = .delete deletion → ∀ j other, j ≠ i → s.txs j = some other →
      wrote tx.burns other = false) :
    ({ s with txs := Function.update s.txs i (some tx') } : RefreshRun F S δ).Complete := by
  have htx := (hs.txs i tx hi).phase
  have hwork := (hs.advance (hs.txs i tx hi) hstep).2
  obtain ⟨phase, work, burns⟩ := tx
  cases phase with
  | claim hash now =>
    simp only [RefreshTx.advance] at hstep
    split at hstep
    · obtain rfl := Option.some.inj hstep
      exact h.put_of_rest hi hwork rfl
    · obtain rfl := Option.some.inj hstep
      exact h.put_of_rest hi hwork rfl
  | claiming hash now => cases hstep
  | select hash now claimed =>
    have hburns : burns = [] := by
      cases claimed with
      | true => exact htx.2
      | false => exact htx.2
    simp only [RefreshTx.advance] at hstep
    split at hstep
    · obtain rfl := Option.some.inj hstep
      refine h.put_of_work hi hwork (covers_nil hburns) fun _ _ _ _ _ => ?_
      rw [hburns]
      exact wrote_of_nil
    · split at hstep
      · obtain rfl := Option.some.inj hstep
        exact h.put_of_rest hi hwork rfl
      · split at hstep
        · obtain rfl := Option.some.inj hstep
          exact h.put_of_rest hi hwork rfl
        · obtain rfl := Option.some.inj hstep
          exact h.put_of_rest hi hwork rfl
  | insert hash row now => cases hstep
  | delete deletion =>
    obtain rfl := Option.some.inj hstep
    refine h.put_of_work hi hwork (fun rest hrest row hrow hmem => .inl ?_)
      fun _ => hkeeps deletion rfl
    obtain rfl := Option.some.inj hrest
    refine List.mem_map_of_mem (List.mem_filter.mpr ⟨?_, hs.takes htx.2 hrow hmem⟩)
    rwa [seen_of_nil htx.1]
  | deleting deletion rest =>
    cases rest with
    | cons hash rest => cases hstep
    | nil =>
      have hcovers := h.covers i _ hi
      have halone := h.alone i _ hi rfl
      obtain rfl := Option.some.inj hstep
      exact h.put_of_work hi hwork hcovers fun _ => halone
  | commit result => cases hstep

omit [DecidableEq S] in
/-- Whatever a claim gets hold of, no other transaction burns. -/
lemma Complete.not_burned (h : s.Complete) {now : ℕ}
    (hfind : s.rows.find? (RefreshRow.claimable hash now) = some row) {other : RefreshTx F S δ}
    {j : ℕ} (hj : s.txs j = some other) (hrest : other.phase.rest.isSome = true)
    (hfree : hash ∉ locked other.work) (hburning : burning row.family other = false) :
    row.family ∉ other.burns := by
  intro hmem
  have hrow := List.mem_of_find?_eq_some hfind
  have hclaimable := List.find?_some hfind
  obtain ⟨rfl, -⟩ := of_decide_eq_true hclaimable
  have hcovers := h.covers j other hj
  obtain ⟨phase, work, burns⟩ := other
  cases phase with
  | deleting deletion rest => exact of_decide_eq_false hburning hmem
  | commit result =>
    rcases hcovers [] rfl row hrow hmem with hmem | hmem
    · cases hmem
    · exact hfree hmem
  | claim hash now => cases hrest
  | claiming hash now => cases hrest
  | select hash now claimed => cases hrest
  | insert hash row now => cases hrest
  | delete deletion => cases hrest

lemma Complete.take (h : s.Complete) (hs : s.Sound) (hi : s.txs i = some tx)
    (hstep : tx.take s.rows hash = some tx')
    (hfree : ∀ j other, j ≠ i → s.txs j = some other → hash ∉ locked other.work)
    (hkeeps : ∀ hash' now row, tx.phase = .claiming hash' now →
      s.rows.find? (RefreshRow.claimable hash now) = some row →
      ∀ j other, j ≠ i → s.txs j = some other → burning row.family other = false) :
    ({ s with txs := Function.update s.txs i (some tx') } : RefreshRun F S δ).Complete := by
  have htx := (hs.txs i tx hi).phase
  obtain ⟨phase, work, burns⟩ := tx
  cases phase with
  | claiming hash' now =>
    obtain ⟨rfl, rfl⟩ := htx
    simp only [RefreshTx.take] at hstep
    split at hstep
    next => cases hstep
    next =>
      split at hstep
      next =>
        obtain rfl := Option.some.inj hstep
        exact h.put_of_rest hi rfl rfl
      next row hfind =>
        obtain rfl := Option.some.inj hstep
        refine h.put (covers_of_rest rfl) (fun hsome => by cases hsome)
          (fun j other hne hj hrest => ?_) ?_
        · refine wrote_eq_false.2 fun k row' hmem => ?_
          obtain rfl := Option.some.inj (Prod.mk.inj (List.mem_singleton.mp hmem)).2
          exact h.not_burned hfind hj hrest (hfree j other hne hj)
            (hkeeps hash' now row rfl hfind j other hne hj)
        · refine wrote_eq_false.2 fun k row' hmem => ?_
          obtain rfl := Option.some.inj (Prod.mk.inj (List.mem_singleton.mp hmem)).2
          exact h.gone row (List.mem_of_find?_eq_some hfind)
  | deleting deletion rest =>
    simp only [RefreshTx.take] at hstep
    split at hstep
    next => cases hstep
    next =>
      have hcovers := h.covers i _ hi rest rfl
      have halone := h.alone i _ hi rfl
      split at hstep
      next =>
        obtain rfl := Option.some.inj hstep
        refine h.put (fun rest' hrest row hrow hmem => ?_) (fun _ => halone)
          (fun j other hne hj hrest => ?_) ?_
        · obtain rfl := Option.some.inj hrest
          by_cases heq : row.tokenHash = hash
          · exact .inr (heq ▸ List.mem_cons_self)
          · rcases hcovers row hrow hmem with hmem | hmem
            · exact .inl (List.mem_filter.mpr ⟨hmem, decide_eq_true heq⟩)
            · exact .inr (List.mem_cons_of_mem _ hmem)
        · have hothers := h.alone j other hj hrest i _ (Ne.symm hne) hi
          exact hothers
        · have hquiet := h.quiet i _ hi
          exact hquiet
      next hnone =>
        obtain rfl := Option.some.inj hstep
        refine h.put_of_work hi rfl (fun rest' hrest row hrow hmem => ?_)
          fun _ => halone
        obtain rfl := Option.some.inj hrest
        have hne : row.tokenHash ≠ hash := fun heq => hnone (List.any_eq_true.mpr
          ⟨row, hrow, decide_eq_true ⟨heq, hs.takes htx.2 hrow hmem⟩⟩)
        exact (hcovers row hrow hmem).imp_left fun hmem =>
          List.mem_filter.mpr ⟨hmem, decide_eq_true hne⟩
  | claim hash now => cases hstep
  | select hash now claimed => cases hstep
  | insert hash row now => cases hstep
  | delete deletion => cases hstep
  | commit result => cases hstep

omit [DecidableEq S] [DecidableEq δ] in
lemma Complete.insert (h : s.Complete) (hs : s.Sound) (hi : s.txs i = some tx)
    {now expiresAt : ℕ} {fresh : δ} (hphase : tx.phase = .insert hash row now) :
    ({ s with
      minted := fresh :: s.minted
      txs := Function.update s.txs i (some { tx with
        phase := .commit (.rotated hash ⟨fresh, row.family, row.subject, now, expiresAt, false⟩)
        work := (fresh, some ⟨fresh, row.family, row.subject, now, expiresAt, false⟩) :: tx.work })
      } : RefreshRun F S δ).Complete := by
  have hsound := (hs.txs i tx hi).phase
  rw [PhaseSound, hphase] at hsound
  obtain ⟨⟨-, hwork⟩, hburns⟩ := hsound
  have hrow : (hash, some row) ∈ tx.work := by
    rw [hwork]
    exact List.mem_cons_self
  -- The new row is of the family of the claimed one.
  have hwrote : ∀ families, wrote families tx = false → wrote families
      { tx with
        phase := .commit (.rotated hash ⟨fresh, row.family, row.subject, now, expiresAt, false⟩)
        work := (fresh, some ⟨fresh, row.family, row.subject, now, expiresAt, false⟩) :: tx.work
      } = false := by
    intro families hnot
    rw [wrote_eq_false] at hnot ⊢
    intro k row' hmem
    rcases List.mem_cons.mp hmem with heq | hmem
    · obtain rfl := Option.some.inj (Prod.mk.inj heq).2
      exact hnot hash row hrow
    · exact hnot k row' hmem
  have hminted : ({ s with minted := fresh :: s.minted } : RefreshRun F S δ).Complete := { h with }
  refine hminted.put (covers_nil hburns) (fun _ _ _ _ _ => ?_)
    (fun j other hne hj hrest => hwrote _ (h.alone j other hj hrest i tx (Ne.symm hne) hi))
    (hwrote _ (h.quiet i tx hi))
  simp only [hburns]
  exact wrote_of_nil

omit [DecidableEq S] in
lemma Complete.commit (h : s.Complete) (hs : s.Sound) (hi : s.txs i = some tx)
    {result : RefreshResult F S δ} (hphase : tx.phase = .commit result) :
    (({ s with
      rows := tx.seen s.rows
      txs := Function.update s.txs i none } : RefreshRun F S δ).conclude tx result).Complete := by
  have hpublish : ({ s with
      rows := tx.seen s.rows
      txs := Function.update s.txs i none } : RefreshRun F S δ).Complete :=
    { h.leave i with
      covers := fun j other hj rest hrest row hrow hmem => by
        obtain ⟨hne, hj⟩ := update_none_eq_some.1 hj
        rcases mem_visible.1 hrow with ⟨hrow, -⟩ | ⟨k, hwork⟩
        · exact h.covers j other hj rest hrest row hrow hmem
        · have hwrote := h.alone j other hj (Option.isSome_of_eq_some hrest) i tx (Ne.symm hne) hi
          exact absurd hmem (wrote_eq_false.1 hwrote k row hwork)
      gone := fun row hrow => by
        rcases mem_visible.1 hrow with ⟨hrow, -⟩ | ⟨k, hwork⟩
        · exact h.gone row hrow
        · exact wrote_eq_false.1 (h.quiet i tx hi) k row hwork }
  have hrest : tx.phase.rest = some [] := by
    rw [hphase]
    rfl
  have hburned : (∀ entry ∈ tx.work, entry.2 = none) → ({ s with
      rows := tx.seen s.rows
      txs := Function.update s.txs i none
      burned := tx.burns ++ s.burned } : RefreshRun F S δ).Complete := by
    intro hdeleted
    exact { hpublish with
      gone := fun row hrow hmem => by
        rcases List.mem_append.mp hmem with hmem | hmem
        · obtain ⟨hrow, hnot⟩ := (ReadCommitted.mem_visible_of_deleted hdeleted).mp hrow
          rcases h.covers i tx hi [] hrest row hrow hmem with hmem | hmem
          · cases hmem
          · exact hnot hmem
        · exact hpublish.gone row hrow hmem
      quiet := fun j other hj => by
        obtain ⟨hne, hj⟩ := update_none_eq_some.1 hj
        refine wrote_eq_false.2 fun k row hwork hmem => ?_
        rcases List.mem_append.mp hmem with hmem | hmem
        · have halone := h.alone i tx hi (Option.isSome_of_eq_some hrest) j other hne hj
          exact wrote_eq_false.1 halone k row hwork hmem
        · exact wrote_eq_false.1 (h.quiet j other hj) k row hwork hmem }
  have hsound := (hs.txs i tx hi).phase
  rw [PhaseSound, hphase] at hsound
  cases result with
  | rotated hash next =>
    obtain ⟨⟨row, -, hwork, -⟩, -⟩ := hsound
    have hnext : next.family ∉ s.burned := by
      refine wrote_eq_false.1 (h.quiet i tx hi) next.tokenHash next ?_
      rw [hwork]
      exact List.mem_cons_self
    exact { hpublish with
      late := fun rotation hmem => by
        rcases List.mem_cons.mp hmem with rfl | hmem
        · exact decide_eq_false hnext
        · exact h.late rotation hmem }
  | reuseDetected family => exact hburned hsound
  | invalid => exact hburned hsound
  | deleted count => exact hburned hsound

lemma Complete.step {event : RefreshEvent F S δ} (h : s.Complete) (hs : s.Sound)
    (hkeeps : s.keepsOut event = true) (hstep : s.step event = some s') : s'.Complete := by
  cases event with
  | issue hash family subject now expiresAt =>
    simp only [RefreshRun.step] at hstep
    split at hstep
    · cases hstep
    next hnew =>
      obtain rfl := Option.some.inj hstep
      exact h.issue hs fun hmem => hnew (.inr hmem)
  | exchange i hash now => exact h.begin_ hstep rfl
  | revokeFamily i family => exact h.begin_ hstep rfl
  | revokeSubject i subject => exact h.begin_ hstep rfl
  | sweep i now => exact h.begin_ hstep rfl
  | go i =>
    cases hi : s.txs i with
    | none =>
      simp only [RefreshRun.step, hi] at hstep
      cases hstep
    | some tx =>
      simp only [RefreshRun.step, hi] at hstep
      obtain ⟨tx', hadvance, rfl⟩ := Option.map_eq_some_iff.mp hstep
      refine h.advance hs hi hadvance fun deletion hphase => hs.of_anyOther ?_
      simp only [keepsOut, hi, hphase] at hkeeps
      exact (Bool.not_eq_true' _).mp hkeeps
  | lock i hash =>
    cases hi : s.txs i with
    | none =>
      simp only [RefreshRun.step, hi] at hstep
      cases hstep
    | some tx =>
      simp only [RefreshRun.step, hi] at hstep
      split at hstep
      · cases hstep
      next hany =>
        obtain ⟨tx', htake, rfl⟩ := Option.map_eq_some_iff.mp hstep
        refine h.take hs hi htake (fun j other hne hj => ?_)
          fun hash' now row hphase hfind => hs.of_anyOther ?_
        · exact of_decide_eq_false (hs.of_anyOther (Bool.eq_false_iff.mpr hany) j other hne hj)
        · simp only [keepsOut, hi, hphase, hfind] at hkeeps
          exact (Bool.not_eq_true' _).mp hkeeps
  | insert i fresh expiresAt =>
    cases hi : s.txs i with
    | none =>
      simp only [RefreshRun.step, hi] at hstep
      cases hstep
    | some tx =>
      simp only [RefreshRun.step, hi] at hstep
      split at hstep
      next hash row now hphase =>
        split at hstep
        · cases hstep
        · obtain rfl := Option.some.inj hstep
          exact h.insert hs hi hphase
      next => cases hstep
  | commit i =>
    cases hi : s.txs i with
    | none =>
      simp only [RefreshRun.step, hi] at hstep
      cases hstep
    | some tx =>
      simp only [RefreshRun.step, hi] at hstep
      split at hstep
      next result hphase =>
        obtain rfl := Option.some.inj hstep
        exact h.commit hs hi hphase
      next => cases hstep
  | abort i =>
    cases hi : s.txs i with
    | none =>
      simp only [RefreshRun.step, hi] at hstep
      cases hstep
    | some tx =>
      simp only [RefreshRun.step, hi] at hstep
      obtain rfl := Option.some.inj hstep
      exact h.leave i

omit [DecidableEq S] [DecidableEq δ] in
lemma complete_start : (start : RefreshRun F S δ).Complete where
  covers j tx hj := by cases hj
  alone j tx hj := by cases hj
  gone row hrow := by cases hrow
  quiet j tx hj := by cases hj
  late rotation hmem := by cases hmem

/-- In every run in which claims keep out of the burns of their families, a token is rotated at
most once, and none of a family whose burn has returned. -/
theorem always_burnsWhole {events : List (RefreshEvent F S δ)}
    (hkeeps : Machine.Meets RefreshRun.step (fun s event => s.keepsOut event = true) start events) :
    Machine.Always RefreshRun.step BurnsWhole (start : RefreshRun F S δ) events := by
  have hinv : Machine.Always RefreshRun.step (fun s => s.Sound ∧ s.Complete)
      (start : RefreshRun F S δ) events :=
    Machine.always_of_meets (fun _ _ _ h hkeeps hstep =>
      ⟨h.1.step hstep, h.2.step h.1 hkeeps hstep⟩) ⟨sound_start, complete_start⟩ hkeeps
  exact hinv.mono fun _ h => ⟨h.1.once, h.2.late⟩

/-- A token is exchanged for another, by an exchange that meets nobody. -/
def rotation (i hash fresh : ℕ) : List (RefreshEvent String String ℕ) :=
  [.exchange i hash 0, .go i, .lock i hash, .go i, .insert i fresh 1000, .commit i]

/-- A token is exchanged, presented again, and its successor is presented after the burn. -/
theorem always_burnsWhole_one_by_one :
    Machine.Always RefreshRun.step BurnsWhole start
      ([.issue 1 "family" "ada" 0 1000] ++ rotation 0 1 2 ++
        [.exchange 1 1 0, .go 1, .go 1, .go 1, .lock 1 1, .lock 1 2, .go 1, .commit 1,
          .exchange 2 2 0, .go 2, .go 2, .commit 2]) :=
  always_burnsWhole (by decide)

/-- A token is exchanged while its parent is presented again: the `delete` that burns the family
starts before the successor is there. -/
def missedBurn : List (RefreshEvent String String ℕ) :=
  [.issue 1 "family" "ada" 0 1000] ++ rotation 0 1 2 ++
    [.exchange 1 2 0, .go 1, .lock 1 2, .go 1, .exchange 2 1 0, .go 2, .go 2, .go 2,
      .insert 1 3 1000, .commit 1, .lock 2 1, .lock 2 2, .go 2, .commit 2] ++ rotation 3 3 4

/-- The token whose insertion was in progress outlives the burn, and is rotated. -/
theorem always_burnsWhole_fails :
    ¬ Machine.Always RefreshRun.step BurnsWhole start missedBurn := by
  intro h
  obtain ⟨s, hs⟩ : ∃ s, Machine.exec RefreshRun.step start missedBurn = some s :=
    Option.isSome_iff_exists.mp (by decide)
  have hlate : (Machine.exec RefreshRun.step start missedBurn).map
      (fun s => s.rotations.any Rotation.late) = some true := by
    decide
  rw [hs, Option.map_some, Option.some.injEq] at hlate
  obtain ⟨rotation, hmem, hlate⟩ := List.any_eq_true.mp hlate
  rw [(h.of_exec hs).2 rotation hmem] at hlate
  cases hlate

end RefreshRun

end Moso.Auth
