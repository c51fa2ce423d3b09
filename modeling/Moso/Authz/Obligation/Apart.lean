import Moso.Authz.Obligation

/-!
# Obligations that do not disturb each other

Removing an item of an array moves those behind it, and masking a value leaves no places below it.
Obligations are apart when none of them does this to another. Applied in any order, they then leave
the body as it is to be sent.
-/

namespace Moso.Authz

/-- Removing what the first path leads to moves or removes what the second leads to, in an array. -/
def shifts : List (List Char) → List (List Char) → Bool
  | [token], token' :: _ =>
    match Json.parseIndex token, Json.parseIndex token' with
    | some i, some j => i ≤ j
    | _, _ => false
  | token :: rest, token' :: rest' => token = token' && shifts rest rest'
  | _, _ => false

/-- The second path leads below what the first leads to. -/
def swallows : List (List Char) → List (List Char) → Bool
  | [], _ :: _ => true
  | token :: rest, token' :: rest' => token = token' && swallows rest rest'
  | _, _ => false

namespace Target

/-- Carried out first, `t` puts `t'` out of its place. -/
def Displaces (t t' : Target) : Bool :=
  match t.action with
  | .redact => shifts t.path t'.path
  | .mask _ => swallows t.path t'.path

/-- A removal is of a value in a container, and its last token is an index as pointers write it or
no number at all. -/
def Sound (t : Target) : Bool :=
  match t.action, t.path.getLast? with
  | .mask _, _ => true
  | .redact, none => false
  | .redact, some token => Decimal.parse Json.usizeMax token = Json.parseIndex token

/-- The target displaces none of the others, nor is it displaced. -/
def Apart (t t' : Target) : Prop := t.Displaces t' = false ∧ t'.Displaces t = false

instance (t t' : Target) : Decidable (t.Apart t') :=
  inferInstanceAs (Decidable (t.Displaces t' = false ∧ t'.Displaces t = false))

end Target

/-- Every obligation removes what its pointer addresses, and none displaces another. -/
def Separate (obligations : List Obligation) : Prop :=
  (∀ t ∈ obligations.filterMap Obligation.target, t.Sound = true) ∧
    (obligations.filterMap Obligation.target).Pairwise Target.Apart

instance (obligations : List Obligation) : Decidable (Separate obligations) :=
  inferInstanceAs (Decidable ((∀ t ∈ obligations.filterMap Obligation.target, t.Sound = true) ∧
    (obligations.filterMap Obligation.target).Pairwise Target.Apart))

/-! ### Below a token -/

section

variable {leads : List Char → Bool} {ts : List Target} {t : Target} {token : List Char}
  {path path' rest : List (List Char)} {action : Action} {v : Json}

lemma mem_targetsAt :
    t ∈ targetsAt leads ts ↔ ∃ token, leads token = true ∧ ⟨token :: t.path, t.action⟩ ∈ ts := by
  rw [targetsAt, List.mem_filterMap]
  constructor
  · rintro ⟨⟨path, action⟩, hmem, h⟩
    cases path with
    | nil => cases h
    | cons token rest =>
      obtain ⟨hleads, h⟩ := Option.ite_none_right_eq_some.mp h
      obtain rfl := Option.some.inj h
      exact ⟨token, hleads, hmem⟩
  · rintro ⟨token, hleads, hmem⟩
    exact ⟨_, hmem, if_pos hleads⟩

lemma targetsAt_cons (h : leads token = true) :
    targetsAt leads (⟨token :: rest, action⟩ :: ts) = ⟨rest, action⟩ :: targetsAt leads ts :=
  List.filterMap_cons_some (if_pos h)

lemma targetsAt_cons_of_not (h : leads token = false) :
    targetsAt leads (⟨token :: rest, action⟩ :: ts) = targetsAt leads ts :=
  List.filterMap_cons_none (if_neg (by simp [h]))

lemma removes_eq_false : removes ts = false ↔ ⟨[], .redact⟩ ∉ ts := by
  rw [removes, List.any_eq_false]
  simp only [decide_eq_true_eq]
  exact ⟨fun h hmem => h _ hmem rfl, fun h t ht heq => h (heq ▸ ht)⟩

lemma shifts_cons (h : shifts path path' = true) :
    shifts (token :: path) (token :: path') = true := by
  cases path with
  | nil => cases h
  | cons a path => simpa [shifts] using h

lemma swallows_cons (h : swallows path path' = true) :
    swallows (token :: path) (token :: path') = true := by
  simpa [swallows] using h

lemma displaces_cons {action' : Action} (h : Target.Displaces ⟨path, action⟩ ⟨path', action'⟩ = true) :
    Target.Displaces ⟨token :: path, action⟩ ⟨token :: path', action'⟩ = true := by
  cases action with
  | redact => exact shifts_cons h
  | mask keep => exact swallows_cons h

lemma sound_of_cons (h : Target.Sound ⟨token :: path, action⟩ = true)
    (hne : ¬(path = [] ∧ action = .redact)) : Target.Sound ⟨path, action⟩ = true := by
  cases action with
  | mask keep => rfl
  | redact =>
    cases path with
    | nil => exact absurd ⟨rfl, rfl⟩ hne
    | cons a path => simpa [Target.Sound] using h

/-- What is apart is apart below the same token, unless something is removed there. -/
lemma apart_below (hleads : ∀ {token'}, leads token' = true → token' = token)
    (h : ∀ t' ∈ ts, Target.Apart ⟨token :: rest, action⟩ t' ∧ t'.Sound = true)
    (hremoves : removes (targetsAt leads ts) = false) :
    ∀ t' ∈ targetsAt leads ts, Target.Apart ⟨rest, action⟩ t' ∧ t'.Sound = true := by
  rintro ⟨path', action'⟩ ht'
  obtain ⟨token', htoken, hmem⟩ := mem_targetsAt.1 ht'
  obtain rfl := hleads htoken
  obtain ⟨⟨happ, happ'⟩, hsound⟩ := h _ hmem
  refine ⟨⟨?_, ?_⟩, sound_of_cons hsound ?_⟩
  · by_contra hd
    rw [Bool.not_eq_false] at hd
    exact absurd (displaces_cons hd) (by rw [happ]; exact Bool.false_ne_true)
  · by_contra hd
    rw [Bool.not_eq_false] at hd
    exact absurd (displaces_cons hd) (by rw [happ']; exact Bool.false_ne_true)
  · rintro ⟨rfl, rfl⟩
    exact removes_eq_false.1 hremoves ht'

/-! ### Carrying out a target below a token -/

lemma perform_object {entries : List (List Char × Json)} (hne : ¬(rest = [] ∧ action = .redact)) :
    Target.perform ⟨token :: rest, action⟩ (.object entries) =
      .object (entries.map fun e =>
        if e.1 = token then (e.1, Target.perform ⟨rest, action⟩ e.2) else e) := by
  cases action with
  | mask keep => rfl
  | redact =>
    cases rest with
    | nil => exact absurd ⟨rfl, rfl⟩ hne
    | cons a rest => rfl

lemma perform_array {items : List Json} (hne : ¬(rest = [] ∧ action = .redact)) :
    Target.perform ⟨token :: rest, action⟩ (.array items) =
      match Json.parseIndex token with
      | some i => .array (items.modify i (Target.perform ⟨rest, action⟩))
      | none => .array items := by
  cases action with
  | mask keep => rfl
  | redact =>
    cases rest with
    | nil => exact absurd ⟨rfl, rfl⟩ hne
    | cons a rest => rfl

/-! ### Nothing to be done below -/

mutual

@[simp] theorem conceal_nil (v : Json) : conceal [] v = v := by
  cases v with
  | array items => exact congrArg Json.array (concealItems_nil 0 items)
  | object entries => exact congrArg Json.object (concealEntries_nil entries)
  | _ => rfl

theorem concealItems_nil (i : ℕ) (items : List Json) : concealItems [] i items = items := by
  cases items with
  | nil => rfl
  | cons v vs => exact congrArg₂ List.cons (conceal_nil v) (concealItems_nil (i + 1) vs)

theorem concealEntries_nil (entries : List (List Char × Json)) :
    concealEntries [] entries = entries := by
  cases entries with
  | nil => rfl
  | cons e es =>
    exact congrArg₂ List.cons (Prod.ext rfl (conceal_nil e.2)) (concealEntries_nil es)

end

lemma targetsAt_eq_nil (h : ∀ t ∈ ts, t.path = []) : targetsAt leads ts = [] := by
  refine List.eq_nil_iff_forall_not_mem.mpr fun t ht => ?_
  obtain ⟨token, -, hmem⟩ := mem_targetsAt.1 ht
  cases h _ hmem

/-- Targets at the value itself change nothing below it. -/
lemma conceal_of_here (h : ∀ t ∈ ts, t.path = []) : conceal ts v = maskTo (keeps ts) v := by
  have hnone : ∀ leads, targetsAt leads ts = [] := fun leads => targetsAt_eq_nil h
  have hitems : ∀ items i, concealItems ts i items = items := by
    intro items
    induction items with
    | nil => exact fun _ => rfl
    | cons v vs ih =>
      intro i
      rw [concealItems, hnone, ih, conceal_nil]
      rfl
  have hentries : ∀ entries, concealEntries ts entries = entries := by
    intro entries
    induction entries with
    | nil => rfl
    | cons e es ih =>
      rw [concealEntries, hnone, ih, conceal_nil]
      rfl
  cases v with
  | array items => rw [conceal, hitems]
  | object entries => rw [conceal, hentries]
  | _ => rw [conceal]

/-- Below the value itself, nothing is masked here. -/
lemma keeps_eq_none (h : ∀ t ∈ ts, ∀ keep, t ≠ ⟨[], .mask keep⟩) : keeps ts = none := by
  induction ts with
  | nil => rfl
  | cons t ts ih =>
    obtain ⟨path, action⟩ := t
    rw [keeps, ih fun t ht => h t (List.mem_cons_of_mem _ ht)]
    split
    · next keep hpath haction => exact absurd (by simp_all) (h _ List.mem_cons_self keep)
    · rfl

/-! ### One more target -/

/-- In an object, one more target below a key is carried out there. -/
lemma concealEntries_cons {entries : List (List Char × Json)}
    (hne : ¬(rest = [] ∧ action = .redact))
    (hbelow : removes (targetsAt (isKey token) ts) = false → ∀ v,
      Target.perform ⟨rest, action⟩ (conceal (targetsAt (isKey token) ts) v) =
        conceal (⟨rest, action⟩ :: targetsAt (isKey token) ts) v) :
    concealEntries (⟨token :: rest, action⟩ :: ts) entries =
      (concealEntries ts entries).map fun e =>
        if e.1 = token then (e.1, Target.perform ⟨rest, action⟩ e.2) else e := by
  induction entries with
  | nil => rfl
  | cons e es ih =>
    obtain ⟨key, v⟩ := e
    rw [concealEntries, concealEntries, ih]
    by_cases hkey : key = token
    · subst hkey
      rw [targetsAt_cons (decide_eq_true rfl)]
      have hremoves : removes (⟨rest, action⟩ :: targetsAt (isKey key) ts) =
          removes (targetsAt (isKey key) ts) := by
        rw [removes, removes, List.any_cons, decide_eq_false, Bool.false_or]
        rintro ⟨⟩
        exact hne ⟨rfl, rfl⟩
      rw [hremoves]
      cases hr : removes (targetsAt (isKey key) ts) with
      | true => rfl
      | false => simp only [Bool.false_eq_true, if_false, List.map_cons, if_true, hbelow hr]
    · rw [targetsAt_cons_of_not (decide_eq_false fun h => hkey h.symm)]
      split
      · rfl
      · rw [List.map_cons, if_neg hkey]

/-- In an object, one more removal is one entry less. -/
lemma concealEntries_cons_redact {entries : List (List Char × Json)} :
    concealEntries (⟨[token], .redact⟩ :: ts) entries =
      (concealEntries ts entries).filter fun e => e.1 ≠ token := by
  induction entries with
  | nil => rfl
  | cons e es ih =>
    obtain ⟨key, v⟩ := e
    rw [concealEntries, concealEntries, ih]
    by_cases hkey : key = token
    · subst hkey
      rw [targetsAt_cons (decide_eq_true rfl)]
      have hremoves : removes (⟨[], .redact⟩ :: targetsAt (isKey key) ts) = true := rfl
      rw [if_pos hremoves]
      split
      · rfl
      · rw [List.filter_cons_of_neg (by simp)]
    · rw [targetsAt_cons_of_not (decide_eq_false fun h => hkey h.symm)]
      split
      · rfl
      · rw [List.filter_cons_of_pos (by simpa using hkey)]

variable {i n : ℕ} {items : List Json}

lemma isIndex_eq (hi : Json.parseIndex token = some i) : isIndex n token = true ↔ n = i := by
  rw [isIndex, decide_eq_true_eq, hi, Option.some.injEq, eq_comm]

/-- Behind its index, one more target changes nothing. -/
lemma concealItems_cons_of_lt (hi : ∀ i, Json.parseIndex token = some i → i < n) :
    concealItems (⟨token :: rest, action⟩ :: ts) n items = concealItems ts n items := by
  induction items generalizing n with
  | nil => rfl
  | cons v vs ih =>
    have hnot : isIndex n token = false :=
      decide_eq_false fun h => absurd (hi n h) (lt_irrefl n)
    rw [concealItems, concealItems, targetsAt_cons_of_not hnot,
      ih fun i h => (hi i h).trans (Nat.lt_succ_self n)]

/-- In an array, one more target at an index is carried out there, if no item up to there is to be
removed. -/
lemma concealItems_cons (hi : Json.parseIndex token = some i) (hn : n ≤ i)
    (hne : ¬(rest = [] ∧ action = .redact))
    (hkeep : ∀ m ≤ i, removes (targetsAt (isIndex m) ts) = false)
    (hbelow : ∀ v, Target.perform ⟨rest, action⟩ (conceal (targetsAt (isIndex i) ts) v) =
      conceal (⟨rest, action⟩ :: targetsAt (isIndex i) ts) v) :
    concealItems (⟨token :: rest, action⟩ :: ts) n items =
      (concealItems ts n items).modify (i - n) (Target.perform ⟨rest, action⟩) := by
  induction items generalizing n with
  | nil => simp [concealItems]
  | cons v vs ih =>
    rw [concealItems, concealItems, if_neg (c := removes (targetsAt (isIndex n) ts) = true)
      (by simp [hkeep n hn])]
    rcases hn.eq_or_lt with rfl | hlt
    · rw [targetsAt_cons ((isIndex_eq hi).mpr rfl)]
      have hremoves : removes (⟨rest, action⟩ :: targetsAt (isIndex n) ts) = false := by
        rw [removes_eq_false, List.mem_cons, not_or]
        refine ⟨?_, removes_eq_false.1 (hkeep n le_rfl)⟩
        rintro ⟨⟩
        exact hne ⟨rfl, rfl⟩
      rw [if_neg (by simp [hremoves]), Nat.sub_self, List.modify_zero_cons, hbelow,
        concealItems_cons_of_lt fun j hj => ?_]
      rw [hi] at hj
      exact Option.some.inj hj ▸ Nat.lt_succ_self _
    · have hnot : isIndex n token = false := by
        rw [← Bool.not_eq_true, isIndex_eq hi]
        exact hlt.ne
      rw [targetsAt_cons_of_not hnot, if_neg (by simp [hkeep n hn]), ih hlt]
      obtain ⟨k, hk⟩ : ∃ k, i - n = k + 1 := ⟨i - n - 1, by omega⟩
      rw [hk, List.modify_succ_cons, show i - (n + 1) = k by omega]

/-- In an array, one more removal at an index is one item less, if no other item is to be
removed. -/
lemma concealItems_cons_redact (hi : Json.parseIndex token = some i) (hn : n ≤ i)
    (hkeep : ∀ m, removes (targetsAt (isIndex m) ts) = false) :
    concealItems (⟨[token], .redact⟩ :: ts) n items =
      (concealItems ts n items).eraseIdx (i - n) := by
  induction items generalizing n with
  | nil => simp [concealItems]
  | cons v vs ih =>
    rw [concealItems, concealItems, if_neg (c := removes (targetsAt (isIndex n) ts) = true)
      (by simp [hkeep n])]
    rcases hn.eq_or_lt with rfl | hlt
    · rw [targetsAt_cons ((isIndex_eq hi).mpr rfl)]
      have hremoves : removes (⟨[], .redact⟩ :: targetsAt (isIndex n) ts) = true := rfl
      rw [if_pos hremoves, Nat.sub_self, List.eraseIdx_cons_zero,
        concealItems_cons_of_lt fun j hj => ?_]
      rw [hi] at hj
      exact Option.some.inj hj ▸ Nat.lt_succ_self _
    · have hnot : isIndex n token = false := by
        rw [← Bool.not_eq_true, isIndex_eq hi]
        exact hlt.ne
      rw [targetsAt_cons_of_not hnot, if_neg (by simp [hkeep n]), ih hlt]
      obtain ⟨k, hk⟩ : ∃ k, i - n = k + 1 := ⟨i - n - 1, by omega⟩
      rw [hk, List.eraseIdx_cons_succ, show i - (n + 1) = k by omega]

/-- A removal of an item with an index up to that of another target displaces it. -/
lemma displaces_of_removes {m : ℕ} (hi : Json.parseIndex token = some i) (hm : m ≤ i)
    (h : removes (targetsAt (isIndex m) ts) = true) :
    ∃ t' ∈ ts, Target.Displaces t' ⟨token :: rest, action⟩ = true := by
  obtain ⟨t, ht, heq⟩ := List.any_eq_true.mp h
  obtain rfl := of_decide_eq_true heq
  obtain ⟨token', htoken', hmem⟩ := mem_targetsAt.1 ht
  refine ⟨_, hmem, ?_⟩
  simp only [Target.Displaces, shifts, of_decide_eq_true htoken', hi, hm, decide_true]

/-- A target that is apart from the others, carried out on the value as the others leave it, leaves
it as all of them do. -/
theorem perform_conceal (hsound : t.Sound = true)
    (h : ∀ t' ∈ ts, t.Apart t' ∧ t'.Sound = true) (v : Json) :
    t.perform (conceal ts v) = conceal (t :: ts) v := by
  obtain ⟨path, action⟩ := t
  induction path generalizing ts v with
  | nil =>
    cases action with
    | redact => cases hsound
    | mask keep =>
      -- a target below the value would be swallowed
      have hhere : ∀ t' ∈ ts, t'.path = [] := by
        intro t' ht'
        have happ := (h t' ht').1.1
        cases hpath : t'.path with
        | nil => rfl
        | cons a path => simp [Target.Displaces, swallows, hpath] at happ
      rw [conceal_of_here hhere, conceal_of_here (List.forall_mem_cons.mpr ⟨rfl, hhere⟩), keeps]
      cases hkeeps : keeps ts with
      | none => rfl
      | some k => exact congrArg Json.string maskValue_maskValue
  | cons token rest ih =>
    have hnone : keeps ts = none := by
      refine keeps_eq_none fun t' ht' keep heq => ?_
      have happ := (h t' ht').1.2
      rw [heq] at happ
      cases happ
    have hnone' : keeps (⟨token :: rest, action⟩ :: ts) = none := hnone
    have hindex : ∀ i, Json.parseIndex token = some i → ∀ m ≤ i,
        removes (targetsAt (isIndex m) ts) = false := by
      intro i hi m hm
      by_contra hr
      rw [Bool.not_eq_false] at hr
      obtain ⟨t', ht', hd⟩ := displaces_of_removes hi hm hr
      rw [(h t' ht').1.2] at hd
      cases hd
    by_cases hne : rest = [] ∧ action = .redact
    · obtain ⟨rfl, rfl⟩ := hne
      have hparse : Decimal.parse Json.usizeMax token = Json.parseIndex token :=
        of_decide_eq_true hsound
      cases v with
      | object entries =>
        rw [conceal, conceal, hnone, hnone', concealEntries_cons_redact]
        rfl
      | array items =>
        rw [conceal, conceal, hnone, hnone']
        change removeChild token (.array (concealItems ts 0 items)) = .array _
        rw [removeChild, hparse]
        cases hi : Json.parseIndex token with
        | none => rw [concealItems_cons_of_lt fun i h => absurd (hi.symm.trans h) (by simp)]
        | some i =>
          rw [concealItems_cons_redact hi (Nat.zero_le i) fun m => ?_, Nat.sub_zero]
          rcases Nat.lt_or_ge i m with hlt | hle
          · -- a removal behind this one would be shifted by it
            by_contra hr
            rw [Bool.not_eq_false] at hr
            obtain ⟨t', ht', heq⟩ := List.any_eq_true.mp hr
            obtain rfl := of_decide_eq_true heq
            obtain ⟨token', htoken', hmem⟩ := mem_targetsAt.1 ht'
            have happ := (h _ hmem).1.1
            simp [Target.Displaces, shifts, of_decide_eq_true htoken', hi, hlt.le] at happ
          · exact hindex i hi m hle
      | _ => simp only [conceal, hnone, hnone', maskTo]; rfl
    · have hbelow : ∀ leads : List Char → Bool, (∀ {token'}, leads token' = true → token' = token) →
          removes (targetsAt leads ts) = false → ∀ v,
            Target.perform ⟨rest, action⟩ (conceal (targetsAt leads ts) v) =
              conceal (⟨rest, action⟩ :: targetsAt leads ts) v :=
        fun leads hleads hr v => ih v (sound_of_cons hsound hne) (apart_below hleads h hr)
      cases v with
      | object entries =>
        rw [conceal, conceal, hnone, hnone']
        exact (perform_object hne).trans (congrArg Json.object
          (concealEntries_cons hne (hbelow _ fun h => of_decide_eq_true h)).symm)
      | array items =>
        rw [conceal, conceal, hnone, hnone']
        refine (perform_array hne).trans ?_
        cases hi : Json.parseIndex token with
        | none =>
          exact congrArg Json.array (concealItems_cons_of_lt fun i h =>
            absurd (hi.symm.trans h) (by simp)).symm
        | some i =>
          refine congrArg Json.array ((concealItems_cons hi (Nat.zero_le i) hne (hindex i hi)
            (hbelow _ ?_ (hindex i hi i le_rfl))).trans ?_).symm
          · exact fun h => Json.parseIndex_injective (of_decide_eq_true h) hi
          · rw [Nat.sub_zero]
      | _ => simp only [conceal, hnone, hnone', maskTo]; cases action <;> cases rest <;> rfl

end

end Moso.Authz
