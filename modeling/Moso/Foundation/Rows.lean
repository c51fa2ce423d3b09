import Mathlib.Data.List.Forall2

/-!
# Rewriting rows

A list of rows is rewritten in place: every row that is hit, or the first one. A row that cannot
be rewritten spoils the whole, as a statement is refused as one.
-/

namespace Rows

variable {R κ : Type*}

/-- Rewrite the rows that are hit. The second list has the rewritten rows only. -/
def rewrite (hit : R → Bool) (f : R → Option R) : List R → Option (List R × List R)
  | []      => some ([], [])
  | r :: rs =>
    (rewrite hit f rs).bind fun out =>
      if hit r then (f r).map fun r' => (r' :: out.1, r' :: out.2) else some (r :: out.1, out.2)

/-- Put `r'` in the place of the first row that is hit. -/
def replaceFirst (hit : R → Bool) (r' : R) : List R → List R
  | []      => []
  | r :: rs => if hit r then r' :: rs else r :: replaceFirst hit r' rs

/-- The rows in groups of `n`, as long as the fuel lasts; a unit of it for each row is enough. -/
def chunks (n : ℕ) : ℕ → List R → List (List R)
  | 0, _                => []
  | _ + 1, []           => []
  | fuel + 1, r :: rows => (r :: rows).take n :: chunks n fuel ((r :: rows).drop n)

variable {hit : R → Bool} {f : R → Option R} {rows rows' changed : List R}

/-- What became of one row. -/
def Became (hit : R → Bool) (f : R → Option R) (r r' : R) : Prop :=
  if hit r then f r = some r' else r' = r

lemma rewrite_cons_eq_some {r : R} :
    rewrite hit f (r :: rows) = some (rows', changed) ↔
      ∃ out, rewrite hit f rows = some out ∧
        ((hit r = true ∧ ∃ r', f r = some r' ∧ rows' = r' :: out.1 ∧ changed = r' :: out.2) ∨
          (hit r = false ∧ rows' = r :: out.1 ∧ changed = out.2)) := by
  rw [rewrite, Option.bind_eq_some_iff]
  refine exists_congr fun out => and_congr_right fun _ => ?_
  cases hr : hit r with
  | true =>
    simp only [if_true, Option.map_eq_some_iff, Prod.mk.injEq, true_and, Bool.true_eq_false,
      false_and, or_false]
    exact exists_congr fun r' => and_congr_right fun _ => and_congr eq_comm eq_comm
  | false => simp [Prod.ext_iff, eq_comm]

/-- Rewriting keeps the rows in their places. -/
theorem forall₂_of_rewrite (h : rewrite hit f rows = some (rows', changed)) :
    List.Forall₂ (Became hit f) rows rows' := by
  induction rows generalizing rows' changed with
  | nil =>
    obtain ⟨rfl, rfl⟩ := Prod.ext_iff.mp (Option.some.inj h)
    exact .nil
  | cons r rows ih =>
    obtain ⟨out, hout, ⟨hr, r', hf, rfl, rfl⟩ | ⟨hr, rfl, rfl⟩⟩ := rewrite_cons_eq_some.1 h
    · exact .cons (by rw [Became, if_pos hr]; exact hf) (ih hout)
    · exact .cons (by rw [Became, if_neg (by simp [hr])]) (ih hout)

/-- The rewritten rows are those that a row that was hit became. -/
theorem mem_changed_of_rewrite (h : rewrite hit f rows = some (rows', changed)) {r' : R} :
    r' ∈ changed ↔ ∃ r ∈ rows, hit r = true ∧ f r = some r' := by
  induction rows generalizing rows' changed with
  | nil =>
    obtain ⟨rfl, rfl⟩ := Prod.ext_iff.mp (Option.some.inj h)
    simp
  | cons r rows ih =>
    obtain ⟨out, hout, ⟨hr, r₁, hf, rfl, rfl⟩ | ⟨hr, rfl, rfl⟩⟩ := rewrite_cons_eq_some.1 h
    · rw [List.mem_cons, ih hout, List.exists_mem_cons_iff]
      refine or_congr_left ⟨?_, ?_⟩
      · rintro rfl
        exact ⟨hr, hf⟩
      · rintro ⟨-, hf'⟩
        exact Option.some.inj (hf'.symm.trans hf)
    · rw [ih hout, List.exists_mem_cons_iff, hr]
      simp

/-- Rewriting some rows leaves the others as they were, when no rewritten row was or is one of
the others. -/
theorem filter_rewrite {other : R → Bool} (hhit : ∀ r ∈ rows, hit r = true → other r = false)
    (hf : ∀ r ∈ rows, hit r = true → ∀ r', f r = some r' → other r' = false)
    (h : rewrite hit f rows = some (rows', changed)) :
    rows'.filter other = rows.filter other := by
  induction rows generalizing rows' changed with
  | nil =>
    obtain ⟨rfl, rfl⟩ := Prod.ext_iff.mp (Option.some.inj h)
    rfl
  | cons r rows ih =>
    have hrest : ∀ {rs cs}, rewrite hit f rows = some (rs, cs) →
        rs.filter other = rows.filter other :=
      ih (fun q hq => hhit q (List.mem_cons_of_mem r hq))
        fun q hq => hf q (List.mem_cons_of_mem r hq)
    obtain ⟨out, hout, ⟨hr, r', hf', rfl, rfl⟩ | ⟨hr, rfl, rfl⟩⟩ := rewrite_cons_eq_some.1 h
    · rw [List.filter_cons_of_neg (by simp [hf r List.mem_cons_self hr r' hf']),
        List.filter_cons_of_neg (by simp [hhit r List.mem_cons_self hr]), hrest hout]
    · rw [List.filter_cons, List.filter_cons, hrest hout]

/-- No row is hit, and nothing is rewritten. -/
theorem rewrite_eq_self (h : ∀ r ∈ rows, hit r = false) : rewrite hit f rows = some (rows, []) := by
  induction rows with
  | nil => rfl
  | cons r rows ih =>
    refine rewrite_cons_eq_some.2 ⟨_, ih fun q hq => h q (List.mem_cons_of_mem r hq), ?_⟩
    exact .inr ⟨h r List.mem_cons_self, rfl, rfl⟩

/-- Rows that can all be rewritten are rewritten. -/
theorem exists_rewrite (h : ∀ r ∈ rows, hit r = true → ∃ r', f r = some r') :
    ∃ out, rewrite hit f rows = some out := by
  induction rows with
  | nil => exact ⟨_, rfl⟩
  | cons r rows ih =>
    obtain ⟨out, hout⟩ := ih fun q hq => h q (List.mem_cons_of_mem r hq)
    cases hr : hit r with
    | true =>
      obtain ⟨r', hr'⟩ := h r List.mem_cons_self hr
      exact ⟨(r' :: out.1, r' :: out.2),
        rewrite_cons_eq_some.2 ⟨out, hout, .inl ⟨hr, r', hr', rfl, rfl⟩⟩⟩
    | false =>
      exact ⟨(r :: out.1, out.2), rewrite_cons_eq_some.2 ⟨out, hout, .inr ⟨hr, rfl, rfl⟩⟩⟩

/-- The first row that is hit is replaced, and the rows around it stay. -/
theorem exists_split_of_find {old : R} (h : rows.find? hit = some old) :
    ∃ l₁ l₂, rows = l₁ ++ old :: l₂ ∧ ∀ r', replaceFirst hit r' rows = l₁ ++ r' :: l₂ := by
  induction rows with
  | nil => cases h
  | cons r rows ih =>
    cases hr : hit r with
    | true =>
      rw [List.find?_cons_of_pos hr] at h
      obtain rfl := Option.some.inj h
      exact ⟨[], rows, rfl, fun r' => if_pos hr⟩
    | false =>
      rw [List.find?_cons_of_neg (by simp [hr])] at h
      obtain ⟨l₁, l₂, rfl, hput⟩ := ih h
      refine ⟨r :: l₁, l₂, rfl, fun r' => ?_⟩
      rw [replaceFirst, if_neg (by simp [hr]), hput]
      rfl

/-- Nothing is lost by grouping. -/
theorem flatten_chunks {n fuel : ℕ} (hn : 0 < n) (hfuel : rows.length ≤ fuel) :
    (chunks n fuel rows).flatten = rows := by
  induction fuel generalizing rows with
  | zero => exact (List.eq_nil_of_length_eq_zero (Nat.le_zero.mp hfuel)).symm
  | succ fuel ih =>
    match rows with
    | [] => rfl
    | r :: rows =>
      rw [chunks, List.flatten_cons, ih, List.take_append_drop]
      rw [List.length_drop]
      omega

/-! ### Rows that are added when there is none like them -/

/-- The rows of `news` that have no like among `rows` nor among those that are added before them. -/
def missing (like : R → R → Bool) (rows : List R) : List R → List R
  | []      => []
  | r :: rs =>
    if rows.any (like r) then missing like rows rs else r :: missing like (rows ++ [r]) rs

variable {like : R → R → Bool} {news : List R} {r : R}

lemma missing_cons (q : R) : missing like rows (q :: news) =
    if rows.any (like q) then missing like rows news else q :: missing like (rows ++ [q]) news := rfl

lemma mem_of_mem_missing (h : r ∈ missing like rows news) :
    r ∈ news ∧ ∀ old ∈ rows, like r old = false := by
  induction news generalizing rows with
  | nil => cases h
  | cons q news ih =>
    rw [missing_cons] at h
    split_ifs at h with hany
    · obtain ⟨hr, hrows⟩ := ih h
      exact ⟨List.mem_cons_of_mem q hr, hrows⟩
    · rcases List.mem_cons.mp h with rfl | h
      · refine ⟨List.mem_cons_self, fun old hold => ?_⟩
        rw [Bool.not_eq_true, List.any_eq_false] at hany
        exact Bool.eq_false_iff.mpr (hany old hold)
      · obtain ⟨hr, hrows⟩ := ih h
        exact ⟨List.mem_cons_of_mem q hr, fun old hold => hrows old (List.mem_append_left _ hold)⟩

/-- No two of the added rows are alike. -/
lemma pairwise_missing : (missing like rows news).Pairwise fun r r' => like r' r = false := by
  induction news generalizing rows with
  | nil => exact .nil
  | cons q news ih =>
    rw [missing_cons]
    split_ifs
    · exact ih
    · refine List.pairwise_cons.mpr ⟨fun r hr => ?_, ih⟩
      exact (mem_of_mem_missing hr).2 q (List.mem_append_right _ (List.mem_singleton_self q))

/-- Every new row is added, or has a like among the rows that are there in the end. -/
lemma exists_like_missing (h : r ∈ news) :
    r ∈ missing like rows news ∨ ∃ old ∈ rows ++ missing like rows news, like r old = true := by
  induction news generalizing rows with
  | nil => cases h
  | cons q news ih =>
    rw [missing_cons]
    split_ifs with hany
    · rcases List.mem_cons.mp h with rfl | h
      · obtain ⟨old, hold, hlike⟩ := List.any_eq_true.mp hany
        exact .inr ⟨old, List.mem_append_left _ hold, hlike⟩
      · exact ih h
    · rcases List.mem_cons.mp h with rfl | h
      · exact .inl List.mem_cons_self
      · rcases ih h with h | ⟨old, hold, hlike⟩
        · exact .inl (List.mem_cons_of_mem q h)
        · exact .inr ⟨old, by simpa using hold, hlike⟩

/-- Rows that no new row is like play no part. -/
lemma missing_congr {rows' : List R}
    (h : ∀ r ∈ news, rows.any (like r) = rows'.any (like r)) :
    missing like rows news = missing like rows' news := by
  induction news generalizing rows rows' with
  | nil => rfl
  | cons q news ih =>
    have hrest := fun r hr => h r (List.mem_cons_of_mem q hr)
    rw [missing_cons, missing_cons, h q List.mem_cons_self, ih hrest]
    congr 2
    refine ih fun r hr => ?_
    rw [List.any_append, List.any_append, hrest r hr]

/-- Nothing is added when every new row has its like. -/
lemma missing_eq_nil (h : ∀ r ∈ news, ∃ old ∈ rows, like r old = true) :
    missing like rows news = [] := by
  induction news with
  | nil => rfl
  | cons q news ih =>
    obtain ⟨old, hold, hlike⟩ := h q List.mem_cons_self
    rw [missing_cons, if_pos (List.any_eq_true.mpr ⟨old, hold, hlike⟩)]
    exact ih fun r hr => h r (List.mem_cons_of_mem q hr)

/-! ### Rows under keys -/

section

variable [DecidableEq κ] {key : R → κ} {k : κ}

/-- The row under a key. -/
def lookup (key : R → κ) (k : κ) (rows : List R) : Option R := rows.find? fun r => key r = k

lemma lookup_eq_none : lookup key k rows = none ↔ ∀ r ∈ rows, key r ≠ k := by
  rw [lookup, List.find?_eq_none]
  simp only [decide_eq_true_eq, ne_eq]

lemma key_of_lookup {r : R} (h : lookup key k rows = some r) : r ∈ rows ∧ key r = k := by
  have hkey := List.find?_some h
  exact ⟨List.mem_of_find?_eq_some h, of_decide_eq_true hkey⟩

lemma lookup_append {rows₂ : List R} :
    lookup key k (rows ++ rows₂) = (lookup key k rows).or (lookup key k rows₂) :=
  List.find?_append

/-- With one row to a key, every row is the one under its key. -/
lemma lookup_of_mem (hn : (rows.map key).Nodup) {r : R} (hr : r ∈ rows) :
    lookup key (key r) rows = some r := by
  induction rows with
  | nil => cases hr
  | cons q rows ih =>
    rw [List.map_cons, List.nodup_cons] at hn
    rcases List.mem_cons.mp hr with rfl | hr
    · exact List.find?_cons_of_pos (decide_eq_true rfl)
    · have hne : key q ≠ key r := fun heq => hn.1 (heq ▸ List.mem_map_of_mem hr)
      rw [lookup, List.find?_cons_of_neg (by simpa using hne)]
      exact ih hn.2 hr

/-- Rewriting that leaves the keys leaves each row under its key. -/
lemma lookup_forall₂ {P : R → R → Prop}
    (h : List.Forall₂ (fun r r' => key r' = key r ∧ P r r') rows rows') (k : κ) :
    lookup key k rows = none ∧ lookup key k rows' = none ∨
      ∃ r r', lookup key k rows = some r ∧ lookup key k rows' = some r' ∧ P r r' := by
  induction h with
  | nil => exact .inl ⟨rfl, rfl⟩
  | @cons r r' rows rows' hr _ ih =>
    by_cases hk : key r = k
    · have hk' : key r' = k := hr.1.trans hk
      exact .inr ⟨r, r', List.find?_cons_of_pos (decide_eq_true hk),
        List.find?_cons_of_pos (decide_eq_true hk'), hr.2⟩
    · have hk' : ¬key r' = k := fun h => hk (hr.1.symm.trans h)
      rw [lookup, lookup, List.find?_cons_of_neg (by simpa using hk),
        List.find?_cons_of_neg (by simpa using hk')]
      exact ih

/-- With one row to a key, filtering keeps the row under a key or leaves none. -/
lemma lookup_filter (hn : (rows.map key).Nodup) (p : R → Bool) (k : κ) :
    lookup key k (rows.filter p) = (lookup key k rows).filter p := by
  cases hk : lookup key k rows with
  | none =>
    refine lookup_eq_none.2 fun r hr => ?_
    exact lookup_eq_none.1 hk r (List.mem_of_mem_filter hr)
  | some r =>
    obtain ⟨hr, rfl⟩ := key_of_lookup hk
    cases hp : p r with
    | true =>
      rw [Option.filter_some_pos hp]
      exact lookup_of_mem (hn.sublist (List.filter_sublist.map key)) (List.mem_filter.mpr ⟨hr, hp⟩)
    | false =>
      rw [Option.filter_some_neg (by simp [hp])]
      refine lookup_eq_none.2 fun q hq hkey => ?_
      obtain ⟨hq, hpq⟩ := List.mem_filter.mp hq
      have hqr : q = r := Option.some.inj
        ((lookup_of_mem hn hq).symm.trans ((congrArg (lookup key · rows) hkey).trans hk))
      rw [hqr, hp] at hpq
      cases hpq

end

end Rows
