import Mathlib.Data.List.Chain
import Moso.Foundation.Criteria

/-!
# Listings in pages

A listing that is returned in pages, each with a cursor for the next page if there is one. Two
kinds of cursor are common: the last row of a page, and the first row that did not fit on it. A
page begins strictly after its cursor, which is right for the first kind only: with the second kind
the row that the cursor names is on no page.
-/

namespace Paging

open Criteria

variable {α γ P : Type*}

/-- Following the cursors from one on, up to a page without a next one. -/
inductive Walk (fetch : Option γ → Option P) (next : P → Option γ) : Option γ → List P → Prop where
  | last {cursor page} : fetch cursor = some page → next page = none → Walk fetch next cursor [page]
  | more {cursor page cursor' pages} : fetch cursor = some page → next page = some cursor' →
      Walk fetch next (some cursor') pages → Walk fetch next cursor (page :: pages)

variable {fetch : Option γ → Option P} {next : P → Option γ} {cursor : Option γ} {pages : List P}

/-- The cursors leave no choice. -/
lemma Walk.unique {pages' : List P} (h : Walk fetch next cursor pages)
    (h' : Walk fetch next cursor pages') : pages = pages' := by
  induction h generalizing pages' with
  | last hfetch hnext =>
    cases h' with
    | last hfetch' _ => exact congrArg ([·]) (Option.some.inj (hfetch.symm.trans hfetch'))
    | more hfetch' hnext' _ =>
      obtain rfl := Option.some.inj (hfetch.symm.trans hfetch')
      cases hnext.symm.trans hnext'
  | more hfetch hnext _ ih =>
    cases h' with
    | last hfetch' hnext' =>
      obtain rfl := Option.some.inj (hfetch.symm.trans hfetch')
      cases hnext.symm.trans hnext'
    | more hfetch' hnext' hwalk =>
      obtain rfl := Option.some.inj (hfetch.symm.trans hfetch')
      obtain rfl := Option.some.inj (hnext.symm.trans hnext')
      exact congrArg (_ :: ·) (ih hwalk)

/-! ### Rows that an order tells apart -/

variable {before : α → α → Bool} {rows l l' pre post : List α} {a : α} {n : ℕ}

/-- Every row is before those that follow. -/
def Strict (before : α → α → Bool) (l : List α) : Prop := l.Pairwise fun a b => before a b = true

/-- No two of the rows are tied. -/
def Apart (before : α → α → Bool) (rows : List α) : Prop :=
  rows.Pairwise fun a b => before a b = true ∨ before b a = true

lemma Apart.perm (h : Apart before l) (hperm : l.Perm l') : Apart before l' :=
  (hperm.pairwise_iff fun hab => hab.symm).mp h

lemma strict_of_sorted (hl : Sorted before l) (hapart : Apart before l) : Strict before l :=
  (hl.and hapart).imp fun h => h.2.resolve_right (Bool.not_eq_true _ ▸ h.1)

namespace Strict

lemma sorted (h : StrictWeak before) (hl : Strict before l) : Sorted before l := hl.imp h.asymm

/-- There is one way to arrange rows that the order tells apart. -/
lemma eq_of_perm (h : StrictWeak before) (hl : Strict before l) (hl' : Sorted before l')
    (hperm : l'.Perm l) : l' = l := by
  have hstrict : Strict before l' :=
    strict_of_sorted hl' (Apart.perm (hl.imp Or.inl) hperm.symm)
  refine hperm.eq_of_pairwise (fun a b _ _ hab hba => ?_) hstrict hl
  exact absurd hba (Bool.not_eq_true _ ▸ h.asymm hab)

/-- What comes after a row of the list. -/
lemma filter_after (h : StrictWeak before) (hl : Strict before (pre ++ a :: post)) :
    (pre ++ a :: post).filter (before a) = post := by
  obtain ⟨-, hpost, hpre⟩ := List.pairwise_append.mp hl
  rw [List.filter_append, List.filter_cons, if_neg (by simp [h.irrefl a]),
    List.filter_eq_nil_iff.mpr fun b hb => ?_, List.nil_append, List.filter_eq_self]
  · exact (List.pairwise_cons.mp hpost).1
  · rw [h.asymm (hpre b hb a List.mem_cons_self)]
    exact Bool.false_ne_true

/-- What comes before a row of the list. -/
lemma filter_before (h : StrictWeak before) (hl : Strict before (pre ++ a :: post)) :
    (pre ++ a :: post).filter (fun b => before b a) = pre := by
  obtain ⟨-, hpost, hpre⟩ := List.pairwise_append.mp hl
  rw [List.filter_append, List.filter_eq_self.mpr fun b hb => hpre b hb a List.mem_cons_self,
    List.filter_eq_nil_iff.mpr fun b hb => ?_, List.append_nil]
  rcases List.mem_cons.mp hb with rfl | hb
  · rw [h.irrefl b]
    exact Bool.false_ne_true
  · rw [h.asymm ((List.pairwise_cons.mp hpost).1 b hb)]
    exact Bool.false_ne_true

end Strict

/-! ### Cursors that name the last row of a page -/

/-- Every page holds the first `n` rows after its cursor's row, and has the last of them for its
cursor where more rows follow. -/
structure Resumes (fetch : Option γ → Option P) (next : P → Option γ) (items : P → List α)
    (key : α → Option γ) (n : ℕ) (l : List α) : Prop where
  named : ∀ a ∈ l, ∃ cursor, key a = some cursor
  page : ∀ pre post, l = pre ++ post → ∃ page, fetch (pre.getLast?.bind key) = some page ∧
    items page = post.take n ∧
    next page = if n < post.length then (post.take n).getLast?.bind key else none

variable {items : P → List α} {key : α → Option γ}

namespace Resumes

lemma next_eq_some (h : Resumes fetch next items key n l) (hn : 0 < n) (hl : l = pre ++ post)
    (hmore : n < post.length) : ∃ page cursor,
      fetch (pre.getLast?.bind key) = some page ∧ items page = post.take n ∧
        next page = some cursor ∧ (pre ++ post.take n).getLast?.bind key = some cursor := by
  obtain ⟨page, hfetch, hitems, hnext⟩ := h.page pre post hl
  have hne : post.take n ≠ [] := List.ne_nil_of_length_pos (by rw [List.length_take]; omega)
  obtain ⟨a, ha⟩ := Option.ne_none_iff_exists'.mp (mt List.getLast?_eq_none_iff.mp hne)
  have hmem : a ∈ l := hl ▸ List.mem_append_right pre
    (List.mem_of_mem_take (List.mem_of_mem_getLast? ha))
  obtain ⟨cursor, hcursor⟩ := h.named a hmem
  rw [if_pos hmore, ha] at hnext
  refine ⟨page, cursor, hfetch, hitems, hnext.trans hcursor, ?_⟩
  rw [List.getLast?_append_of_ne_nil _ hne, ha]
  exact hcursor

/-- The walk returns every row, in order, in pages that are full but for the last. -/
theorem exists_walk (h : Resumes fetch next items key n l) (hn : 0 < n) (hl : l = pre ++ post) :
    ∃ pages, Walk fetch next (pre.getLast?.bind key) pages ∧ pages.flatMap items = post ∧
      ∀ page ∈ pages.dropLast, (items page).length = n := by
  induction hlength : post.length using Nat.strong_induction_on generalizing pre post with
  | _ m ih =>
  by_cases hmore : n < post.length
  · obtain ⟨page, cursor, hfetch, hitems, hnext, hcursor⟩ := h.next_eq_some hn hl hmore
    have hsplit : l = (pre ++ post.take n) ++ post.drop n := by
      rw [List.append_assoc, List.take_append_drop, hl]
    obtain ⟨pages, hwalk, hflat, hfull⟩ := ih (post.drop n).length
      (by rw [List.length_drop]; omega) hsplit rfl
    refine ⟨page :: pages, .more hfetch hnext (hcursor ▸ hwalk), ?_, fun p hp => ?_⟩
    · rw [List.flatMap_cons, hitems, hflat, List.take_append_drop]
    · cases pages with
      | nil => cases hp
      | cons page' pages =>
        rcases List.mem_cons.mp hp with rfl | hp
        · rw [hitems, List.length_take, Nat.min_eq_left hmore.le]
        · exact hfull p hp
  · obtain ⟨page, hfetch, hitems, hnext⟩ := h.page pre post hl
    rw [if_neg hmore] at hnext
    refine ⟨[page], .last hfetch hnext, ?_, fun p hp => absurd hp List.not_mem_nil⟩
    rw [List.flatMap_cons, List.flatMap_nil, List.append_nil, hitems,
      List.take_of_length_le (Nat.not_lt.mp hmore)]

/-- What holds of every full page and the one after it holds along the walk. -/
theorem isChain (h : Resumes fetch next items key n l) (hn : 0 < n) {r : P → P → Prop}
    (hr : ∀ pre mid post page page', l = pre ++ (mid ++ post) → mid.length = n → post ≠ [] →
      fetch (pre.getLast?.bind key) = some page →
      fetch ((pre ++ mid).getLast?.bind key) = some page' → r page page')
    (hl : l = pre ++ post) (hwalk : Walk fetch next (pre.getLast?.bind key) pages) :
    pages.IsChain r := by
  generalize hstart : pre.getLast?.bind key = start at hwalk
  induction hwalk generalizing pre post with
  | last => exact .singleton _
  | @more start page cursor' pages hfetch hnext hwalk ih =>
    subst hstart
    have hmore : n < post.length := by
      obtain ⟨page', hfetch', -, hnext'⟩ := h.page pre post hl
      obtain rfl := Option.some.inj (hfetch'.symm.trans hfetch)
      by_contra hle
      rw [if_neg hle, hnext] at hnext'
      cases hnext'
    obtain ⟨page', cursor, hfetch', -, hnext', hcursor⟩ := h.next_eq_some hn hl hmore
    obtain rfl := Option.some.inj (hfetch'.symm.trans hfetch)
    obtain rfl := Option.some.inj (hnext'.symm.trans hnext)
    have hsplit : l = (pre ++ post.take n) ++ post.drop n := by
      rw [List.append_assoc, List.take_append_drop, hl]
    refine List.isChain_cons.mpr ⟨fun page₂ hpage₂ => ?_, ih hsplit hcursor⟩
    have hfetch₂ : fetch (some cursor) = some page₂ := by
      cases hwalk with
      | last hfetch₂ _ => exact hfetch₂.trans hpage₂
      | more hfetch₂ _ _ => exact hfetch₂.trans hpage₂
    refine hr pre (post.take n) (post.drop n) page' page₂ ?_ ?_ ?_ hfetch (hcursor ▸ hfetch₂)
    · rw [List.take_append_drop, hl]
    · rw [List.length_take, Nat.min_eq_left hmore.le]
    · exact List.ne_nil_of_length_pos (by rw [List.length_drop]; omega)

end Resumes

/-! ### Cursors that name the first row that is left -/

/-- Every page goes through some of the rows after its cursor and has the next one for its cursor;
it holds what `f` makes of the rows, and `n` of them where a row is left. -/
def Skips {β : Type*} (fetch : Option α → Option P) (next : P → Option α) (items : P → List β)
    (f : α → Option β) (n : ℕ) (l : List α) : Prop :=
  ∀ pre post, l = pre ++ post → ∃ page done rest, post = done ++ rest ∧
    fetch pre.getLast? = some page ∧ items page = done.filterMap f ∧ next page = rest.head? ∧
    (rest ≠ [] → (items page).length = n)

/-- The walk returns the rows that no cursor names, in order. Every page but the last is full and
has a cursor. -/
theorem Skips.exists_walk {β : Type*} [DecidableEq α] {fetch : Option α → Option P}
    {next : P → Option α} {items : P → List β} {f : α → Option β}
    (h : Skips fetch next items f n l) (hnodup : l.Nodup) (hl : l = pre ++ post) :
    ∃ pages, Walk fetch next pre.getLast? pages ∧ (pages.filterMap next).Sublist post ∧
      pages.flatMap items = (post.filter fun a => a ∉ pages.filterMap next).filterMap f ∧
      pages.length = (pages.filterMap next).length + 1 ∧
      ∀ page ∈ pages.dropLast, (items page).length = n := by
  induction hlength : post.length using Nat.strong_induction_on generalizing pre post with
  | _ m ih =>
  obtain ⟨page, done, rest, hpost, hfetch, hitems, hnext, hfull⟩ := h pre post hl
  have hnodup' : post.Nodup := (hl ▸ hnodup).of_append_right
  cases rest with
  | nil =>
    rw [List.append_nil] at hpost
    subst hpost
    have hcursors : [page].filterMap next = [] := by
      rw [List.filterMap_cons_none hnext, List.filterMap_nil]
    refine ⟨[page], .last hfetch hnext, hcursors ▸ List.nil_sublist _, ?_, by simp [hcursors],
      fun p hp => absurd hp List.not_mem_nil⟩
    rw [hcursors, List.flatMap_cons, List.flatMap_nil, List.append_nil, hitems,
      List.filter_eq_self.mpr fun a _ => by simp]
  | cons c rest =>
    subst hpost
    have hsplit : l = (pre ++ done ++ [c]) ++ rest := by
      rw [hl, List.append_assoc, List.append_assoc, List.singleton_append]
    obtain ⟨pages, hwalk, hsub, hflat, hcount, hrest⟩ := ih rest.length
      (by rw [← hlength, List.length_append, List.length_cons]; omega) hsplit rfl
    rw [List.getLast?_append_of_ne_nil _ (List.cons_ne_nil c [])] at hwalk
    have hcursors : (page :: pages).filterMap next = c :: pages.filterMap next :=
      List.filterMap_cons_some hnext
    refine ⟨page :: pages, .more hfetch hnext hwalk, ?_, ?_, ?_, fun p hp => ?_⟩
    · rw [hcursors]
      exact (hsub.cons_cons c).trans (List.sublist_append_right _ _)
    · obtain ⟨-, hc, hapart⟩ := List.nodup_append.mp hnodup'
      -- the rows of this page are none of the cursors, and the cursor is none of the rows to come
      have hdone : done.filter (fun a => a ∉ c :: pages.filterMap next) = done :=
        List.filter_eq_self.mpr fun a ha => decide_eq_true fun hmem =>
          hapart a ha a ((hsub.cons_cons c).subset hmem) rfl
      have hlater : rest.filter (fun a => a ∉ c :: pages.filterMap next) =
          rest.filter fun a => a ∉ pages.filterMap next := by
        refine List.filter_congr fun a ha => ?_
        have hne : a ≠ c := fun hac => (List.nodup_cons.mp hc).1 (hac ▸ ha)
        simp [hne]
      rw [hcursors, List.flatMap_cons, hitems, hflat, List.filter_append, hdone,
        List.filter_cons_of_neg (by simp), hlater, List.filterMap_append]
    · rw [hcursors, List.length_cons, List.length_cons, hcount]
    · cases pages with
      | nil => cases hp
      | cons page' pages =>
        rcases List.mem_cons.mp hp with rfl | hp
        · exact hfull (List.cons_ne_nil c rest)
        · exact hrest p hp

end Paging
