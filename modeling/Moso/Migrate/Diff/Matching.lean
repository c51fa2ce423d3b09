import Moso.Foundation.Fallible
import Moso.Foundation.Greedy
import Moso.Migrate.Diff.Rename

/-!
# Renames are a partial bijection

With somebody who answers every question, the passes are greedy matchings. Tables and indexes are
matched one to one and nobody is asked twice about a pair. A column that is gone goes on to be
offered after it was claimed, and the second pass may repeat a question of the first one.
-/

namespace Moso.Migrate

open Greedy (takeAll takeFirst offers offersFirst)

attribute [local instance] Text.lawfulBEq

/-- Somebody who answers every question. -/
def answering {ε : Type} (f : RenameQuestion → RenameAnswer) : Oracle ε := fun q => .ok (f q)

section
variable {α ε : Type} (name : α → List Char) (question : α → α → RenameQuestion)
  (f : RenameQuestion → RenameAnswer) (likely : α → α → Bool)

/-- The likely pairs that are renames by the answers. -/
def accepted (gone new : α) : Bool := likely gone new && f (question gone new) = .rename

/-- The things that nobody claimed. -/
def free (claimed : List (List Char)) (xs : List α) : List α := xs.filter fun x => name x ∉ claimed

/-- More pairs, of which the first were renamed. -/
def Matching.grow (s : Matching α) (renames asked : List (α × α)) : Matching α where
  claimedBefore := s.claimedBefore ++ renames.map fun p => name p.1
  claimedAfter := s.claimedAfter ++ renames.map fun p => name p.2
  renames := s.renames ++ renames
  asked := s.asked ++ asked

variable {name question f likely} {gone new : α} {removed added : List α} {s : Matching α}

lemma Matching.grow_nil : s.grow name [] [] = s := by simp [grow]

lemma Matching.grow_grow {renames renames' asked asked' : List (α × α)} :
    (s.grow name renames asked).grow name renames' asked' =
      s.grow name (renames ++ renames') (asked ++ asked') := by
  simp [grow]

lemma free_append {claimed claimed' : List (List Char)} :
    free name (claimed ++ claimed') added = free name claimed' (free name claimed added) := by
  simp only [free, List.filter_filter, List.mem_append, not_or]
  refine List.filter_congr fun x _ => ?_
  rw [Bool.decide_and, Bool.and_comm]

/-- A question adds one pair. -/
lemma ask_eq : ask (ε := ε) name question (answering f) gone s new = .ok (s.grow name
    (if f (question gone new) = .rename then [(gone, new)] else []) [(gone, new)]) := by
  unfold ask answering
  dsimp only [Bind.bind, Except.bind]
  split_ifs <;> simp [Matching.grow, Pure.pure, Except.pure]

/-- With the elements named `claimed` taken, one that is left is offered what nobody took. -/
lemma foldlM_offer (hadded : (added.map name).Nodup) (s : Matching α) :
    added.foldlM (offer (ε := ε) name question (answering f) likely gone) s = .ok (s.grow name
      (((free name s.claimedAfter added).filter (accepted question f likely gone)).map (gone, ·))
      (((free name s.claimedAfter added).filter (likely gone)).map (gone, ·))) := by
  induction added generalizing s with
  | nil => simp [free, Matching.grow]
  | cons new added ih =>
    obtain ⟨hnew, hadded⟩ := List.nodup_cons.mp hadded
    have hfree : ∀ claimed, (∀ n ∈ claimed, n = name new) →
        free name (s.claimedAfter ++ claimed) added = free name s.claimedAfter added := by
      intro claimed hclaimed
      rw [free_append]
      refine List.filter_eq_self.mpr fun x hx => ?_
      rw [decide_eq_true_eq]
      intro hx'
      exact hnew (hclaimed _ hx' ▸ List.mem_map_of_mem (List.mem_filter.mp hx).1)
    rw [List.foldlM_cons, offer]
    split_ifs with hclaimed hplausible
    · simp only [free, List.filter_cons, hclaimed, not_true, decide_false, Bool.false_eq_true, if_false]
      exact ih hadded s
    · rw [ask_eq]
      refine (ih hadded _).trans ?_
      rw [Matching.grow_grow]
      simp only [Matching.grow]
      rw [hfree _ (by split_ifs <;> simp)]
      by_cases hrename : f (question gone new) = .rename <;>
        simp [free, hclaimed, hplausible, accepted, hrename]
    · refine (ih hadded s).trans ?_
      simp [free, hclaimed, hplausible, accepted]

/-- Claims under other names leave all free. -/
lemma free_append_of_notMem {claimed claimed' : List (List Char)}
    (h : ∀ x ∈ added, name x ∉ claimed') :
    free name (claimed ++ claimed') added = free name claimed added := by
  rw [free_append]
  exact List.filter_eq_self.mpr fun x hx => decide_eq_true (h x (List.mem_filter.mp hx).1)

/-- Claims under the names of some of the things leave the others free. -/
lemma free_append_map (hadded : (added.map name).Nodup) (claimed : List (List Char)) (p : α → Bool) :
    free name (claimed ++ ((free name claimed added).filter p).map name) added =
      (free name claimed added).filter fun x => !p x := by
  rw [free_append]
  refine List.filter_congr fun x hx => ?_
  have hmem : name x ∈ ((free name claimed added).filter p).map name ↔ p x = true := by
    constructor
    · intro h
      obtain ⟨y, hy, heq⟩ := List.mem_map.mp h
      obtain ⟨hy, hp⟩ := List.mem_filter.mp hy
      rwa [List.inj_on_of_nodup_map hadded (List.mem_filter.mp hx).1 (List.mem_filter.mp hy).1
        heq.symm]
    · exact fun hp => List.mem_map_of_mem (List.mem_filter.mpr ⟨hx, hp⟩)
  simp [hmem]

/-- A pass is the greedy matching in which everything that is accepted is taken. -/
lemma matchPass_eq (hremoved : (removed.map name).Nodup) (hadded : (added.map name).Nodup)
    (s : Matching α) :
    matchPass (ε := ε) name question (answering f) likely removed added s = .ok (s.grow name
      (takeAll (accepted question f likely) (free name s.claimedBefore removed)
        (free name s.claimedAfter added))
      (offers likely (accepted question f likely) (free name s.claimedBefore removed)
        (free name s.claimedAfter added))) := by
  induction removed generalizing s with
  | nil => simp [free, takeAll, offers, Matching.grow, matchPass]
  | cons gone removed ih =>
    obtain ⟨hgone, hremoved⟩ := List.nodup_cons.mp hremoved
    unfold matchPass at ih ⊢
    rw [List.foldlM_cons]
    split_ifs with hclaimed
    · refine (ih hremoved s).trans ?_
      simp [free, hclaimed]
    · rw [foldlM_offer hadded]
      refine (ih hremoved _).trans ?_
      rw [Matching.grow_grow]
      have hbefore : free name s.claimedBefore (gone :: removed) =
          gone :: free name s.claimedBefore removed := by simp [free, hclaimed]
      simp only [Matching.grow, List.map_map]
      rw [free_append_of_notMem, hbefore, takeAll, offers]
      · rw [← free_append_map hadded s.claimedAfter (accepted question f likely gone)]
        rfl
      · intro x hx h
        obtain ⟨_, -, heq⟩ := List.mem_map.mp h
        have heq : name gone = name x := heq
        exact hgone (heq ▸ List.mem_map_of_mem hx)

/-! ### One for each -/

/-- What is claimed is offered nothing more. -/
lemma foldlM_offerFree_of_claimed (h : name gone ∈ s.claimedBefore) (added : List α) :
    added.foldlM (offerFree (ε := ε) name question (answering f) likely gone) s = .ok s := by
  induction added with
  | nil => rfl
  | cons new added ih =>
    rw [List.foldlM_cons, offerFree, if_pos (.inr h)]
    exact ih

/-- What is left is offered what nobody took, until it takes something. -/
lemma foldlM_offerFree (hadded : (added.map name).Nodup) (s : Matching α)
    (hgone : name gone ∉ s.claimedBefore) :
    added.foldlM (offerFree (ε := ε) name question (answering f) likely gone) s = .ok (s.grow name
      (((free name s.claimedAfter added).find? (accepted question f likely gone)).toList.map
        (gone, ·))
      ((((free name s.claimedAfter added).take ((free name s.claimedAfter added).findIdx
        (accepted question f likely gone) + 1)).filter (likely gone)).map (gone, ·))) := by
  induction added generalizing s with
  | nil => simp [free, Matching.grow]
  | cons new added ih =>
    obtain ⟨hnew, hadded⟩ := List.nodup_cons.mp hadded
    rw [List.foldlM_cons, offerFree]
    by_cases hclaimed : name new ∈ s.claimedAfter
    · rw [if_pos (.inl hclaimed)]
      refine (ih hadded s hgone).trans ?_
      simp [free, hclaimed]
    · rw [if_neg (not_or.mpr ⟨hclaimed, hgone⟩)]
      have hfree : free name s.claimedAfter (new :: added) =
          new :: free name s.claimedAfter added := by simp [free, hclaimed]
      rw [hfree]
      split_ifs with hplausible
      · rw [ask_eq]
        by_cases hrename : f (question gone new) = .rename
        · -- it is claimed from here on
          rw [if_pos hrename]
          refine (foldlM_offerFree_of_claimed (by simp [Matching.grow]) added).trans ?_
          simp [List.findIdx_cons, accepted, hplausible, hrename]
        · rw [if_neg hrename]
          refine (ih hadded _ (by simpa [Matching.grow] using hgone)).trans ?_
          rw [Matching.grow_grow]
          simp [List.findIdx_cons, accepted, hplausible, hrename, Matching.grow]
      · refine (ih hadded s hgone).trans ?_
        simp [List.findIdx_cons, accepted, hplausible]

/-- A pass that looks at each offer is the greedy matching in which the first that is accepted is
taken. -/
lemma foldlM_matchFree [DecidableEq α] (hremoved : (removed.map name).Nodup)
    (hadded : (added.map name).Nodup) (s : Matching α)
    (hfree : ∀ gone ∈ removed, name gone ∉ s.claimedBefore) :
    removed.foldlM (fun s gone =>
      added.foldlM (offerFree (ε := ε) name question (answering f) likely gone) s) s = .ok (s.grow name
      (takeFirst (accepted question f likely) removed (free name s.claimedAfter added))
      (offersFirst likely (accepted question f likely) removed
        (free name s.claimedAfter added))) := by
  induction removed generalizing s with
  | nil => simp [takeFirst, offersFirst, Matching.grow]
  | cons gone removed ih =>
    obtain ⟨hgone, hremoved⟩ := List.nodup_cons.mp hremoved
    rw [List.foldlM_cons, foldlM_offerFree hadded s (hfree gone List.mem_cons_self)]
    refine (ih hremoved _ ?_).trans ?_
    · intro gone' hgone' h
      rcases List.mem_append.mp h with h | h
      · exact hfree gone' (List.mem_cons_of_mem _ hgone') h
      · obtain ⟨_, hpair, heq⟩ := List.mem_map.mp h
        obtain ⟨_, -, rfl⟩ := List.mem_map.mp hpair
        have heq : name gone = name gone' := heq
        exact hgone (heq ▸ List.mem_map_of_mem hgone')
    · rw [Matching.grow_grow, takeFirst, offersFirst]
      cases hfind : (free name s.claimedAfter added).find? (accepted question f likely gone) with
      | none => simp [Matching.grow]
      | some new =>
        have hnew : new ∈ added := (List.mem_filter.mp (List.mem_of_find?_eq_some hfind)).1
        have hrest : free name (s.claimedAfter ++ [name new]) added =
            (free name s.claimedAfter added).filter fun x => x ≠ new := by
          rw [free_append]
          refine List.filter_congr fun x hx => ?_
          have hname : name x = name new ↔ x = new :=
            ⟨List.inj_on_of_nodup_map hadded (List.mem_filter.mp hx).1 hnew, congrArg name⟩
          simp [hname]
        simp [Matching.grow, hrest]

variable (name question f likely) in
/-- Tables and indexes are matched greedily, the first that is accepted being taken. -/
lemma matchFree_eq [DecidableEq α] (hremoved : (removed.map name).Nodup)
    (hadded : (added.map name).Nodup) :
    matchFree (ε := ε) name question (answering f) likely removed added =
      .ok (({} : Matching α).grow name (takeFirst (accepted question f likely) removed added)
        (offersFirst likely (accepted question f likely) removed added)) := by
  have hfree : free name ({} : Matching α).claimedAfter added = added :=
    List.filter_eq_self.mpr fun _ _ => rfl
  refine (foldlM_matchFree hremoved hadded {} fun _ _ => List.not_mem_nil).trans ?_
  rw [hfree]

end

end Moso.Migrate
