import Moso.Authz.Obligation.Apart

/-!
# Obligations in any order

Whichever of some obligations a decision carries and in whatever order, the body is sent as they
ask for it, when they are separate. When they are not, two of them, or one alone, already fail on
some body.
-/

namespace Moso.Authz

/-- Whichever of the obligations a decision carries, in whatever order, and whatever the body: it
is sent as they ask for it. -/
def Conceals (obligations : List Obligation) : Prop :=
  ∀ (chosen order : List Obligation), chosen.Sublist obligations → order.Perm chosen →
    ∀ (allowed : Bool) (body : Json),
      (⟨allowed, order⟩ : Decision).applyObligations body = concealed chosen body

/-- Applying obligations is carrying out their targets. -/
lemma applyObligations_eq {allowed : Bool} {obligations : List Obligation} {body : Json} :
    (⟨allowed, obligations⟩ : Decision).applyObligations body =
      (obligations.filterMap Obligation.target).foldl (fun body t => t.perform body) body := by
  rw [Decision.applyObligations]
  induction obligations generalizing body with
  | nil => rfl
  | cons o obligations ih =>
    rw [List.foldl_cons, ih, Obligation.apply_eq]
    cases ho : o.target with
    | none => rw [List.filterMap_cons_none ho]
    | some t => rw [List.filterMap_cons_some ho, List.foldl_cons]

/-- Targets that are apart, carried out one after the other. -/
lemma foldl_perform {ts : List Target} (done : List Target) (body : Json)
    (hsound : ∀ t ∈ done ++ ts, t.Sound = true) (hpair : (done ++ ts).Pairwise Target.Apart) :
    ts.foldl (fun body t => t.perform body) (conceal done body) = conceal (done ++ ts) body := by
  induction ts generalizing done with
  | nil => rw [List.append_nil, List.foldl_nil]
  | cons t ts ih =>
    have hdone : ∀ t' ∈ done, t.Apart t' ∧ t'.Sound = true := by
      intro t' ht'
      refine ⟨?_, hsound t' (List.mem_append_left _ ht')⟩
      have happ := (List.pairwise_append.mp hpair).2.2 t' ht' t List.mem_cons_self
      exact ⟨happ.2, happ.1⟩
    have ht := hsound t (List.mem_append_right _ List.mem_cons_self)
    have hperm : (t :: done).Perm (done ++ [t]) := (List.perm_append_singleton t done).symm
    rw [List.foldl_cons, perform_conceal ht hdone, conceal_perm hperm, ih]
    · rw [List.append_assoc, List.singleton_append]
    · rwa [List.append_assoc, List.singleton_append]
    · rwa [List.append_assoc, List.singleton_append]

/-- Separate obligations conceal what they name, in any order. -/
theorem conceals_of_separate {obligations : List Obligation} (h : Separate obligations) :
    Conceals obligations := by
  intro chosen order hchosen horder allowed body
  have hsub : (chosen.filterMap Obligation.target).Sublist
      (obligations.filterMap Obligation.target) := hchosen.filterMap _
  have hperm : (order.filterMap Obligation.target).Perm (chosen.filterMap Obligation.target) :=
    horder.filterMap _
  have hsound : ∀ t ∈ order.filterMap Obligation.target, t.Sound = true := fun t ht =>
    h.1 t (hsub.subset (hperm.subset ht))
  have hpair : (order.filterMap Obligation.target).Pairwise Target.Apart :=
    (hperm.pairwise_iff fun happ => ⟨happ.2, happ.1⟩).mpr (h.2.sublist hsub)
  have hremoves : removes (chosen.filterMap Obligation.target) = false := by
    rw [← removes_perm hperm]
    refine removes_eq_false.2 fun hmem => ?_
    cases hsound _ hmem
  rw [applyObligations_eq, concealed, hremoves, ← conceal_perm hperm]
  have hfold := foldl_perform [] body hsound hpair
  rw [conceal_nil] at hfold
  exact hfold

/-! ### A body around a value -/

/-- The value at the end of these keys, with nothing beside it. -/
def nest : List (List Char) → Json → Json
  | [], v => v
  | key :: rest, v => .object [(key, nest rest v)]

section

variable {pre path rest : List (List Char)} {token token' : List Char} {action : Action}
  {t t' : Target} {ts : List Target} {v w : Json} {i j : ℕ}

lemma nest_append : nest (pre ++ path) v = nest pre (nest path v) := by
  induction pre with
  | nil => rfl
  | cons key pre ih => simp only [List.cons_append, nest, ih]

variable (pre) in
lemma nest_injective (h : nest pre v = nest pre w) : v = w := by
  induction pre with
  | nil => exact h
  | cons key pre ih =>
    refine ih ?_
    have h := List.cons.inj (Json.object.inj h)
    exact (Prod.mk.inj h.1).2

/-- A target below the keys is carried out there. -/
lemma perform_nest (hne : ¬(path = [] ∧ action = .redact)) :
    Target.perform ⟨pre ++ path, action⟩ (nest pre v) =
      nest pre (Target.perform ⟨path, action⟩ v) := by
  induction pre with
  | nil => rfl
  | cons key pre ih =>
    have hne' : ¬(pre ++ path = [] ∧ action = .redact) := fun h =>
      hne ⟨(List.append_eq_nil_iff.mp h.1).2, h.2⟩
    rw [List.cons_append, nest, perform_object hne', List.map_singleton, if_pos rfl, ih, nest]

variable (pre ts v) in
/-- What is concealed below the keys is concealed there. -/
lemma conceal_nest (h : ∀ t ∈ ts, t.path ≠ []) :
    conceal (ts.map fun t => ⟨pre ++ t.path, t.action⟩) (nest pre v) = nest pre (conceal ts v) := by
  induction pre with
  | nil => simp [nest]
  | cons key pre ih =>
    have hkeeps : keeps (ts.map fun t => (⟨key :: pre ++ t.path, t.action⟩ : Target)) = none := by
      refine keeps_eq_none fun t ht keep heq => ?_
      obtain ⟨t', -, rfl⟩ := List.mem_map.mp ht
      cases heq
    have htargets : targetsAt (isKey key) (ts.map fun t => ⟨key :: pre ++ t.path, t.action⟩) =
        ts.map fun t => ⟨pre ++ t.path, t.action⟩ := by
      rw [targetsAt, List.filterMap_map]
      refine (congrArg (List.filterMap · ts) (funext fun t => ?_)).trans
        (congrFun List.filterMap_eq_map ts)
      exact if_pos (decide_eq_true rfl)
    have hremoves : removes (ts.map fun t => (⟨pre ++ t.path, t.action⟩ : Target)) = false := by
      refine removes_eq_false.2 fun hmem => ?_
      obtain ⟨t, ht, heq⟩ := List.mem_map.mp hmem
      exact h t ht (List.append_eq_nil_iff.mp (Target.mk.inj heq).1).2
    rw [nest, conceal, hkeeps, concealEntries, htargets, hremoves, ih]
    rfl

/-- Something that can be seen is at the end of the keys, and a target for it changes it. -/
lemma conceal_nest_ne (hne : ¬(rest = [] ∧ action = .redact)) :
    conceal [⟨rest, action⟩] (nest rest (.bool true)) ≠ nest rest (.bool true) := by
  induction rest with
  | nil =>
    cases action with
    | redact => exact absurd ⟨rfl, rfl⟩ hne
    | mask keep => exact Json.noConfusion
  | cons key rest ih =>
    rw [nest, conceal, keeps_eq_none (by simp), concealEntries,
      targetsAt_cons (decide_eq_true rfl)]
    intro h
    have h := Json.object.inj h
    split at h
    · cases h
    · next hr =>
      refine ih ?_ (Prod.mk.inj (List.cons.inj h).1).2
      rintro ⟨rfl, rfl⟩
      exact hr rfl

/-- The items of a concealed array are those that are not to be removed, concealed. -/
lemma mem_concealItems {n : ℕ} {items : List Json} : v ∈ concealItems ts n items ↔
    ∃ k w, items[k]? = some w ∧ removes (targetsAt (isIndex (n + k)) ts) = false ∧
      v = conceal (targetsAt (isIndex (n + k)) ts) w := by
  induction items generalizing n with
  | nil => simp [concealItems]
  | cons w items ih =>
    have hadd : ∀ k, n + 1 + k = n + (k + 1) := fun k => by omega
    have hmem : v ∈ concealItems ts n (w :: items) ↔
        removes (targetsAt (isIndex n) ts) = false ∧ v = conceal (targetsAt (isIndex n) ts) w ∨
          v ∈ concealItems ts (n + 1) items := by
      rw [concealItems]
      cases removes (targetsAt (isIndex n) ts) <;> simp
    rw [hmem, ih]
    constructor
    · rintro (⟨hr, hv⟩ | ⟨k, w', hw', hr, hv⟩)
      · exact ⟨0, w, rfl, hr, hv⟩
      · exact ⟨k + 1, w', hw', hadd k ▸ hr, hadd k ▸ hv⟩
    · rintro ⟨k, w', hw', hr, hv⟩
      cases k with
      | zero =>
        obtain rfl := Option.some.inj hw'
        exact .inl ⟨hr, hv⟩
      | succ k => exact .inr ⟨k, w', hw', (hadd k).symm ▸ hr, (hadd k).symm ▸ hv⟩

/-- Carrying out a target for something that can be seen changes it, and the length of its
rendering. -/
lemma length_render_perform_ne (hne : ¬(rest = [] ∧ action = .redact)) :
    (Target.perform ⟨rest, action⟩ (nest rest (.bool true))).render.length ≠
      (nest rest (.bool true)).render.length := by
  have hquote : ∀ text : List Char, text.length + 2 ≤ (Json.quote text).length := by
    intro text
    have hescape : ∀ c, 1 ≤ (Json.escapeChar c).length := fun c => by
      rw [Json.escapeChar]
      split_ifs <;> simp
    have hflat : text.length ≤ (text.flatMap Json.escapeChar).length := by
      induction text with
      | nil => exact le_rfl
      | cons c text ih =>
        rw [List.flatMap_cons, List.length_append, List.length_cons]
        have := hescape c
        omega
    simp only [Json.quote, List.cons_append, List.length_cons, List.length_append,
      List.length_nil]
    omega
  induction rest with
  | nil =>
    cases action with
    | redact => exact absurd ⟨rfl, rfl⟩ hne
    | mask keep =>
      have hlong := hquote (maskText keep ['t', 'r', 'u', 'e'])
      rw [length_maskText] at hlong
      change (Json.quote (maskText keep ['t', 'r', 'u', 'e'])).length ≠ 4
      simp only [List.length_cons, List.length_nil] at hlong
      omega
  | cons key rest ih =>
    have hlength : ∀ v, (Json.object [(key, v)]).render.length =
        (Json.quote key).length + v.render.length + 3 := by
      intro v
      simp only [Json.render, Json.renderEntries, List.cons_append, List.length_cons,
        List.length_append, List.length_nil]
      omega
    by_cases hend : rest = [] ∧ action = .redact
    · obtain ⟨rfl, rfl⟩ := hend
      have hgone : Target.perform ⟨[key], .redact⟩ (nest [key] (.bool true)) = .object [] := by
        simp [Target.perform, Json.modify, removeChild, nest]
      rw [hgone, nest, hlength]
      simp only [Json.render, Json.renderEntries, List.cons_append, List.nil_append,
        List.length_cons, List.length_nil]
      omega
    · rw [nest, perform_object hend, List.map_singleton, if_pos rfl, hlength, hlength]
      exact fun h => ih hend (Nat.add_left_cancel (Nat.add_right_cancel h))

/-- An array after a target at an index: the items in front of it are as they were, and that at the
index is gone or changed. -/
lemma perform_array_of_index (hj : Json.parseIndex token = some j) {items : List Json} :
    ∃ items', Target.perform ⟨token :: rest, action⟩ (.array items) = .array items' ∧
      (∀ k < j, items'[k]? = items[k]?) ∧
      ∀ v ∈ items', v ∈ items.eraseIdx j ∨ ¬(rest = [] ∧ action = .redact) ∧
        ∃ w, items[j]? = some w ∧ v = Target.perform ⟨rest, action⟩ w := by
  by_cases hne : rest = [] ∧ action = .redact
  · obtain ⟨rfl, rfl⟩ := hne
    refine ⟨items.eraseIdx j, ?_, fun k hk => List.getElem?_eraseIdx_of_lt hk, fun v => .inl⟩
    change removeChild token (.array items) = _
    rw [removeChild, Json.parse_of_parseIndex hj]
  · refine ⟨items.modify j (Target.perform ⟨rest, action⟩), ?_, fun k hk => ?_, fun v hv => ?_⟩
    · rw [perform_array hne, hj]
    · rw [List.getElem?_modify]
      simp [hk.ne']
    · obtain ⟨k, hk⟩ := List.mem_iff_getElem?.mp hv
      rw [List.getElem?_modify] at hk
      obtain ⟨w, hw, rfl⟩ := Option.map_eq_some_iff.mp hk
      by_cases hkj : j = k
      · subst hkj
        exact .inr ⟨hne, w, hw, if_pos rfl⟩
      · rw [if_neg hkj]
        exact .inl (List.mem_eraseIdx_iff_getElem?.mpr ⟨k, fun h => hkj h.symm, hw⟩)

/-! ### Two that are not apart -/

lemma perform_ne (hne : ¬(rest = [] ∧ action = .redact)) :
    Target.perform ⟨rest, action⟩ (nest rest (.bool true)) ≠ nest rest (.bool true) := fun h =>
  length_render_perform_ne hne (congrArg (fun v => v.render.length) h)

lemma conceal_null : conceal ts .null ≠ nest rest (.bool true) := by
  rw [conceal]
  cases keeps ts <;> cases rest <;> exact Json.noConfusion

/-- A removal, and then a target at the same index or behind it: what was there is missed. -/
lemma perform_shifted_ne (hi : Json.parseIndex token = some i)
    (hj : Json.parseIndex token' = some j) (hij : i ≤ j) :
    ∃ v, Target.perform ⟨token' :: rest, action⟩ (Target.perform ⟨[token], .redact⟩ v) ≠
      conceal [⟨[token], .redact⟩, ⟨token' :: rest, action⟩] v := by
  have herase : ∀ items, Target.perform ⟨[token], .redact⟩ (.array items) =
      .array (items.eraseIdx i) := by
    intro items
    change removeChild token (.array items) = _
    rw [removeChild, Json.parse_of_parseIndex hi]
  have hkeeps : keeps [⟨[token], .redact⟩, ⟨token' :: rest, action⟩] = none :=
    keeps_eq_none (by simp)
  rcases hij.lt_or_eq with hlt | rfl
  · -- the item at `j` has moved to `j - 1`, where the second target does not reach it
    refine ⟨.array (List.replicate j Json.null ++ [nest rest (.bool true), .null]), ?_⟩
    intro h
    rw [herase, conceal, hkeeps] at h
    obtain ⟨items, hitems, hbefore, -⟩ := perform_array_of_index hj
    rw [hitems] at h
    obtain ⟨k, rfl⟩ : ∃ k, j = k + 1 := ⟨j - 1, by omega⟩
    have hat : items[k]? = some (nest rest (.bool true)) := by
      rw [hbefore k (Nat.lt_succ_self k), List.getElem?_eraseIdx_of_ge (by omega)]
      simp
    have hmem := Json.array.inj h ▸ List.mem_of_getElem? hat
    obtain ⟨m, v, hv, hremoves, hconceal⟩ := mem_concealItems.1 hmem
    rw [Nat.zero_add] at hremoves hconceal
    by_cases hm : m = k + 1
    · subst hm
      have hnot : isIndex (k + 1) token = false := by
        rw [← Bool.not_eq_true, isIndex_eq hi]
        exact hlt.ne'
      rw [targetsAt_cons_of_not hnot, targetsAt_cons ((isIndex_eq hj).mpr rfl)] at hremoves hconceal
      obtain rfl : nest rest (.bool true) = v := by simpa using hv
      refine conceal_nest_ne ?_ hconceal.symm
      rintro ⟨rfl, rfl⟩
      cases hremoves
    · obtain rfl : v = Json.null := by
        have hv' := List.mem_of_getElem? hv
        rcases Nat.lt_or_ge m (k + 1) with hlt' | hge
        · rw [List.getElem?_append_left (by simpa using hlt')] at hv
          exact List.eq_of_mem_replicate (List.mem_of_getElem? hv)
        · obtain ⟨d, rfl⟩ : ∃ d, m = k + 1 + (d + 1) := ⟨m - (k + 2), by omega⟩
          rw [List.getElem?_append_right (by simp)] at hv
          cases d with
          | zero => simpa using hv.symm
          | succ d => simp at hv
      exact conceal_null hconceal.symm
  · -- the item behind has moved to the index, where the second target reaches it
    have hleft : (List.replicate i Json.null ++ [.null, nest rest (.bool true)]).eraseIdx i =
        List.replicate i Json.null ++ [nest rest (.bool true)] := by
      rw [List.eraseIdx_append_of_length_le (by simp)]
      simp
    refine ⟨.array (List.replicate i Json.null ++ [.null, nest rest (.bool true)]), ?_⟩
    intro h
    rw [herase, conceal, hkeeps, hleft] at h
    obtain ⟨items, hitems, -, hmem⟩ := perform_array_of_index hj
    rw [hitems] at h
    have hthere : nest rest (.bool true) ∈ items := by
      rw [Json.array.inj h]
      refine mem_concealItems.2 ⟨i + 1, nest rest (.bool true), by simp, ?_⟩
      have hnot : ∀ t, Json.parseIndex t = some i → isIndex (0 + (i + 1)) t = false := by
        intro t ht
        rw [← Bool.not_eq_true, isIndex_eq ht]
        omega
      rw [targetsAt_cons_of_not (hnot _ hi), targetsAt_cons_of_not (hnot _ hj)]
      exact ⟨rfl, (conceal_nil _).symm⟩
    rcases hmem _ hthere with hthere | ⟨hne, w, hw, heq⟩
    · rw [List.eraseIdx_append_of_length_le (by simp)] at hthere
      have hnull : nest rest (.bool true) = Json.null :=
        List.eq_of_mem_replicate (n := i) (by simpa using hthere)
      cases rest <;> cases hnull
    · obtain rfl : nest rest (.bool true) = w := by simpa using hw
      exact perform_ne hne heq.symm

/-- A mask, and a target below it: what is masked depends on which comes first. -/
lemma perform_swallowed_ne {keep : ℕ} : ∃ v,
    Target.perform ⟨token :: rest, action⟩ (Target.perform ⟨[], .mask keep⟩ v) ≠
      Target.perform ⟨[], .mask keep⟩ (Target.perform ⟨token :: rest, action⟩ v) := by
  have hstring : ∀ text, Target.perform ⟨token :: rest, action⟩ (.string text) = .string text := by
    intro text
    cases action <;> cases rest <;> rfl
  have hlength : ∀ entries, (maskValue keep (.object entries)).length =
      (Json.object entries).render.length := fun entries => length_maskText
  refine ⟨nest (token :: rest) (.bool true), ?_⟩
  intro h
  change Target.perform ⟨token :: rest, action⟩ (.string _) = .string _ at h
  rw [hstring] at h
  have hlengths := congrArg List.length (Json.string.inj h)
  obtain ⟨entries, hentries⟩ : ∃ entries, Target.perform ⟨token :: rest, action⟩
      (nest (token :: rest) (.bool true)) = .object entries := by
    by_cases hend : rest = [] ∧ action = .redact
    · obtain ⟨rfl, rfl⟩ := hend
      exact ⟨_, rfl⟩
    · exact ⟨_, perform_object hend⟩
  rw [hentries, hlength, ← hentries, nest, hlength] at hlengths
  exact length_render_perform_ne (by simp) hlengths.symm

lemma exists_of_shifts (h : shifts path rest = true) : ∃ pre token token' more i j,
    path = pre ++ [token] ∧ rest = pre ++ token' :: more ∧ Json.parseIndex token = some i ∧
      Json.parseIndex token' = some j ∧ i ≤ j := by
  induction path generalizing rest with
  | nil => cases h
  | cons token path ih =>
    cases rest with
    | nil => cases path <;> cases h
    | cons token' rest =>
      cases path with
      | nil =>
        cases hi : Json.parseIndex token with
        | none => simp [shifts, hi] at h
        | some i =>
          cases hj : Json.parseIndex token' with
          | none => simp [shifts, hi, hj] at h
          | some j =>
            exact ⟨[], token, token', rest, i, j, rfl, rfl, hi, hj, by simpa [shifts, hi, hj] using h⟩
      | cons a path =>
        rw [shifts, Bool.and_eq_true] at h
        · obtain ⟨pre, t, t', more, i, j, hpath, rfl, hrest⟩ := ih h.2
          obtain rfl := of_decide_eq_true h.1
          exact ⟨token :: pre, t, t', more, i, j, congrArg (token :: ·) hpath, rfl, hrest⟩
        · exact List.cons_ne_nil _ _

lemma exists_of_swallows (h : swallows path rest = true) :
    ∃ token more, rest = path ++ token :: more := by
  induction path generalizing rest with
  | nil =>
    cases rest with
    | nil => cases h
    | cons token rest => exact ⟨token, rest, rfl⟩
  | cons token path ih =>
    cases rest with
    | nil => cases h
    | cons token' rest =>
      rw [swallows, Bool.and_eq_true] at h
      obtain ⟨a, more, rfl⟩ := ih h.2
      obtain rfl := of_decide_eq_true h.1
      exact ⟨a, more, rfl⟩

/-- Targets of which one displaces the other: on some body, carrying them out is not what they ask
for, or it depends on which comes first. -/
lemma displaces_ne (h : t.Displaces t' = true) : ∃ body,
    t'.perform (t.perform body) ≠ conceal [t, t'] body ∨
      t'.perform (t.perform body) ≠ t.perform (t'.perform body) := by
  obtain ⟨path, action⟩ := t
  obtain ⟨path', action'⟩ := t'
  cases action with
  | redact =>
    obtain ⟨pre, token, token', more, i, j, hpath, hpath', hi, hj, hij⟩ := exists_of_shifts h
    obtain ⟨v, hv⟩ := perform_shifted_ne hi hj hij
    simp only at hpath hpath'
    subst hpath hpath'
    have hone : ∀ v, Target.perform ⟨pre ++ [token], .redact⟩ (nest pre v) =
        nest pre (Target.perform ⟨[token], .redact⟩ v) := fun v => perform_nest (by simp)
    have htwo : ∀ v, Target.perform ⟨pre ++ token' :: more, action'⟩ (nest pre v) =
        nest pre (Target.perform ⟨token' :: more, action'⟩ v) := fun v => perform_nest (by simp)
    refine ⟨nest pre v, .inl fun heq => hv (nest_injective pre ?_)⟩
    rw [hone, htwo] at heq
    rw [heq, ← conceal_nest _ _ _ (by simp)]
    rfl
  | mask keep =>
    obtain ⟨token, more, hpath'⟩ := exists_of_swallows h
    simp only at hpath'
    subst hpath'
    obtain ⟨v, hv⟩ := perform_swallowed_ne
    have hone : ∀ v, Target.perform ⟨path, .mask keep⟩ (nest path v) =
        nest path (Target.perform ⟨[], .mask keep⟩ v) := fun v => by
      have hnest : Target.perform ⟨path ++ [], .mask keep⟩ (nest path v) =
          nest path (Target.perform ⟨[], .mask keep⟩ v) := perform_nest (by simp)
      rwa [List.append_nil] at hnest
    have htwo : ∀ v, Target.perform ⟨path ++ token :: more, action'⟩ (nest path v) =
        nest path (Target.perform ⟨token :: more, action'⟩ v) := fun v => perform_nest (by simp)
    refine ⟨nest path v, .inr fun heq => hv (nest_injective path ?_)⟩
    rwa [hone, htwo, htwo, hone] at heq

/-- A removal that is not sound: on some body, carrying it out is not what it asks for. -/
lemma unsound_ne (h : t.Sound = false) : ∃ body,
    t.perform body ≠ if removes [t] then .null else conceal [t] body := by
  obtain ⟨path, action⟩ := t
  cases action with
  | mask keep => cases h
  | redact =>
    induction path using List.reverseRecOn with
    | nil => exact ⟨.string [], by simp [Target.perform, removes]⟩
    | append_singleton pre token _ =>
      have hne : Decimal.parse Json.usizeMax token ≠ Json.parseIndex token := by
        simpa [Target.Sound] using h
      obtain ⟨i, hparse, hindex⟩ : ∃ i, Decimal.parse Json.usizeMax token = some i ∧
          Json.parseIndex token = none := by
        cases hindex : Json.parseIndex token with
        | some i => exact absurd ((Json.parse_of_parseIndex hindex).trans hindex.symm) hne
        | none =>
          rw [hindex] at hne
          obtain ⟨i, hi⟩ := Option.ne_none_iff_exists'.mp hne
          exact ⟨i, hi, rfl⟩
      let items : List Json := List.replicate (i + 1) .null
      have hkept : conceal [⟨[token], .redact⟩] (.array items) = .array items := by
        rw [conceal, concealItems_cons_of_lt fun i hi => absurd (hindex.symm.trans hi) (by simp),
          concealItems_nil]
        rfl
      have hone : Target.perform ⟨pre ++ [token], .redact⟩ (nest pre (.array items)) =
          nest pre (Target.perform ⟨[token], .redact⟩ (.array items)) := perform_nest (by simp)
      have hconceal := conceal_nest pre [⟨[token], .redact⟩] (.array items) (by simp)
      rw [List.map_singleton, hkept] at hconceal
      refine ⟨nest pre (.array items), ?_⟩
      rw [if_neg (by simp [removes]), hconceal, hone]
      intro heq
      have hgone : Target.perform ⟨[token], .redact⟩ (.array items) =
          .array (items.eraseIdx i) := by
        change removeChild token (.array items) = _
        rw [removeChild, hparse]
      have hlength := congrArg List.length (Json.array.inj (hgone.symm.trans (nest_injective pre heq)))
      rw [List.length_eraseIdx] at hlength
      simp [items] at hlength

end

end Moso.Authz
