import Moso.Core.NormalizePath

/-!
# Where redirects lead

A `Location` is a reference that the client resolves against the url of its request. One that
begins with two slashes names another host.
-/

namespace Moso.Core

/-! ### Resolving references -/

def isSchemeChar (c : Char) : Bool := c.isAlphanum || c ∈ ['+', '-', '.']

/-- The scheme of a reference, and what follows its colon. -/
def schemeOf (reference : Text) : Option (Text × Text) :=
  match reference.takeWhile isSchemeChar, reference.dropWhile isSchemeChar with
  | c :: scheme, ':' :: rest => if c.isAlpha then some (c :: scheme, rest) else none
  | _, _ => none

/-- The authority of a reference. -/
def authorityOf : Text → Option Text
  | '/' :: '/' :: rest => some (rest.takeWhile fun c => c ∉ ['/', '?', '#'])
  | _ => none

/-- The scheme and the authority of what a reference is resolved to, by RFC 3986. -/
def target (base : Option Text × Option Text) (reference : Text) : Option Text × Option Text :=
  match schemeOf reference with
  | some (scheme, rest) => (some scheme, authorityOf rest)
  | none =>
    match authorityOf reference with
    | some authority => (base.1, some authority)
    | none => base

/-! ### The library -/

/-- What the code relies on of the library: a path and query is parsed into its parts, and a path
stays one without some of its slashes. -/
structure HttpLibrary.Lawful (http : HttpLibrary) : Prop where
  parts : ∀ text path query, http.pathAndQuery text = some (path, query) →
    text = path ++ queryText query ∧ '?' ∉ path
  fromParts : ∀ scheme authority path query uri,
    http.fromParts scheme authority (path, query) = some uri →
      uri = ⟨scheme, authority, path, query⟩
  shorter : ∀ path path' query, http.pathAndQuery (path ++ queryText query) = some (path, query) →
    path'.Sublist path → path'.head? = some '/' →
      http.pathAndQuery (path' ++ queryText query) = some (path', query)
  assembles : ∀ scheme authority path path' query,
    (http.fromParts scheme authority (path, query)).isSome →
      path'.head? = some '/' → (http.fromParts scheme authority (path', query)).isSome

/-- A uri that the library has made. -/
structure HttpLibrary.Made (http : HttpLibrary) (uri : Uri) : Prop where
  parsed : http.pathAndQuery uri.pathAndQuery = some (uri.path, uri.query)
  assembled : (http.fromParts uri.scheme uri.authority (uri.path, uri.query)).isSome

/-! ### What is asked of the layer -/

/-- What the layer does with a request. -/
structure Sound (http : HttpLibrary) (config : NormalizePathConfig) (uri : Uri) : Prop where
  canonical : ∀ q, config.canonical uri.path = some q →
    q ≠ uri.path ∧ config.canonical q = none ∧ Respells uri.path q
  passed : ∀ uri', config.call http uri = .passed uri' → uri' = uri ∨
    ∃ q, config.canonical uri.path = some q ∧ uri' = { uri with path := q }
  redirected : ∀ location, config.call http uri = .redirected location →
    config.trailingSlash = .redirect
  location : ∀ location, config.call http uri = .redirected (some location) →
    (∃ q, config.canonical uri.path = some q ∧ location = q ++ queryText uri.query) ∧
      ¬ ['/', '/'] <+: location ∧ ∀ base, target base location = base

/-- The request is redirected to another host: slashes are not collapsed, and the path has two at
its beginning and one at its end, with something in between. -/
structure Escapes (http : HttpLibrary) (config : NormalizePathConfig) (uri : Uri) : Prop where
  redirects : config.trailingSlash = .redirect
  keeps : config.collapseSlashes = false
  begins : ['/', '/'] <+: uri.path
  ends : uri.path.getLast? = some '/'
  more : ∃ c ∈ uri.path, c ≠ '/'
  carried : ∀ c ∈ uri.pathAndQuery, http.carries c = true

variable {http : HttpLibrary} {config : NormalizePathConfig} {uri uri' : Uri} {q reference : Text}

lemma schemeOf_slash (reference : Text) : schemeOf ('/' :: reference) = none := by
  simp [schemeOf, isSchemeChar]

/-- A reference that begins with one slash stays on the host. -/
lemma target_eq (hslash : reference.head? = some '/') (h : ¬ ['/', '/'] <+: reference)
    (base : Option Text × Option Text) : target base reference = base := by
  obtain ⟨c, rest, rfl⟩ : ∃ c rest, reference = c :: rest := by
    cases reference with
    | nil => cases hslash
    | cons c rest => exact ⟨c, rest, rfl⟩
  obtain rfl := Option.some.inj hslash
  have hauthority : authorityOf ('/' :: rest) = none := by
    cases rest with
    | nil => rfl
    | cons d rest =>
      have hd : d ≠ '/' := fun hd => h ⟨rest, by rw [hd]; rfl⟩
      simp [authorityOf, hd]
  rw [target, schemeOf_slash, hauthority]

/-- A reference that begins with two slashes leads away from some host. -/
lemma exists_target_ne (h : ['/', '/'] <+: reference) : ∃ base, target base reference ≠ base := by
  obtain ⟨rest, rfl⟩ := h
  refine ⟨(none, none), ?_⟩
  have hscheme : schemeOf (['/', '/'] ++ rest) = none := schemeOf_slash ('/' :: rest)
  rw [target, hscheme]
  simp [authorityOf]

/-! ### Rewritten uris -/

lemma mem_wordsFrom {c : Char} (hc : c ≠ '/') (word path : Text) :
    (∃ w ∈ wordsFrom word path, c ∈ w) ↔ c ∈ word ∨ c ∈ path := by
  induction path generalizing word with
  | nil =>
    rw [wordsFrom]
    split_ifs with hword <;> simp [hword]
  | cons d path ih =>
    have hnil : ((∃ w ∈ wordsFrom [] path, c ∈ w) ↔ c ∈ path) := by simpa using ih []
    rw [wordsFrom]
    by_cases hd : d = '/'
    · have hcd : c ≠ d := fun h => hc (h.trans hd)
      rw [if_pos hd]
      split_ifs with hword <;> simp [hword, hnil, hcd]
    · rw [if_neg hd, ih]
      simp [or_assoc]

/-- Another spelling has the same characters, but for slashes. -/
lemma Respells.mem_iff {path : Text} (h : Respells path q) {c : Char} (hc : c ≠ '/') :
    c ∈ q ↔ c ∈ path := by
  have hq := mem_wordsFrom hc [] q
  have hpath := mem_wordsFrom hc [] path
  rw [← words] at hq hpath
  rw [h.words_eq] at hq
  simpa using hq.symm.trans hpath

/-- A text has one path and one query. -/
lemma queryText_inj {path path' : Text} {query query' : Option Text} (hpath : '?' ∉ path)
    (hpath' : '?' ∉ path') (h : path ++ queryText query = path' ++ queryText query') :
    path = path' ∧ query = query' := by
  have hsplit : ∀ {p : Text} (query : Option Text), '?' ∉ p →
      (p ++ queryText query).takeWhile (· ≠ '?') = p := by
    intro p query hp
    have hall : ∀ c ∈ p, decide (c ≠ '?') = true := by
      intro c hc
      refine decide_eq_true ?_
      rintro rfl
      exact hp hc
    rw [List.takeWhile_append_of_pos hall]
    cases query <;> simp [queryText]
  have heq : path = path' := by
    rw [← hsplit query hpath, ← hsplit query' hpath', h]
  subst heq
  refine ⟨rfl, ?_⟩
  have hquery := List.append_cancel_left h
  cases query with
  | none => cases query' with
    | none => rfl
    | some _ => cases hquery
  | some _ => cases query' with
    | none => cases hquery
    | some _ => exact congrArg some (List.cons.inj hquery).2

section

variable (laws : http.Lawful) (made : http.Made uri) (hpath : uri.path.head? = some '/')

include laws made hpath

omit hpath in
/-- A canonical spelling is put in the place of the path, and nothing else changes. -/
lemma withPath_eq (hq : Respells uri.path q) (h : withPath http uri q = some uri') :
    uri' = { uri with path := q } := by
  rw [withPath, Option.bind_eq_bind, Option.bind_eq_some_iff] at h
  obtain ⟨⟨path, query⟩, hparts, hassembled⟩ := h
  obtain ⟨htext, hquestion⟩ := laws.parts _ _ _ hparts
  have hnone : '?' ∉ q := by
    rw [hq.mem_iff (by decide)]
    exact (laws.parts _ _ _ made.parsed).2
  obtain ⟨rfl, rfl⟩ := queryText_inj hnone hquestion htext
  exact laws.fromParts _ _ _ _ _ hassembled

/-- The path can be trimmed. -/
lemma withPath_trimmed :
    withPath http uri (trimmed uri.path) = some { uri with path := trimmed uri.path } := by
  have hrespells := respells_trimmed hpath
  have hsub : (trimmed uri.path).Sublist uri.path := by
    rw [trimmed]
    split_ifs
    · rw [List.singleton_sublist]
      exact List.mem_of_mem_head? hpath
    · exact (List.rdropWhile_prefix _ _).sublist
  have hparts := laws.shorter _ _ _ made.parsed hsub hrespells.head
  obtain ⟨uri', huri'⟩ := Option.isSome_iff_exists.mp
    (laws.assembles _ _ _ (trimmed uri.path) _ made.assembled hrespells.head)
  have hwith : withPath http uri (trimmed uri.path) = some uri' := by
    rw [withPath, hparts]
    exact huri'
  rw [hwith, withPath_eq laws made hrespells hwith]

end

/-! ### Results -/

lemma mem_rdropWhile {path : Text} {c : Char} (hmem : c ∈ path) (hc : c ≠ '/') :
    c ∈ path.rdropWhile (· = '/') := by
  obtain ⟨n, hn⟩ := rdropWhile_append path
  rw [hn, List.mem_append, List.mem_replicate] at hmem
  exact hmem.resolve_right fun h => hc h.2

/-- A path that has more than slashes keeps those at its beginning. -/
lemma doubleSlash_trimmed_iff {path : Text} :
    ['/', '/'] <+: trimmed path ↔ ['/', '/'] <+: path ∧ ∃ c ∈ path, c ≠ '/' := by
  rw [trimmed]
  split_ifs with hnil
  · rw [List.rdropWhile_eq_nil_iff] at hnil
    refine ⟨fun h => absurd h.length_le (by simp), fun h => ?_⟩
    obtain ⟨-, c, hmem, hc⟩ := h
    exact absurd (of_decide_eq_true (hnil c hmem)) hc
  · have hprefix := List.rdropWhile_prefix (fun c : Char => decide (c = '/')) path
    constructor
    · intro h
      have hlast := List.rdropWhile_last_not (fun c : Char => decide (c = '/')) path hnil
      refine ⟨h.trans hprefix, _, hprefix.subset (List.getLast_mem hnil), ?_⟩
      exact fun heq => hlast (decide_eq_true heq)
    · rintro ⟨h, c, hmem, hc⟩
      refine (List.prefix_or_prefix_of_prefix h hprefix).resolve_right fun hshort => hc ?_
      simpa using hshort.subset (mem_rdropWhile hmem hc)

lemma doubleSlash_append_query {query : Option Text} (hq : q.head? = some '/') :
    ['/', '/'] <+: q ++ queryText query ↔ ['/', '/'] <+: q := by
  refine ⟨fun h => ?_, fun h => h.trans (List.prefix_append _ _)⟩
  match q with
  | c :: d :: q => simpa using h
  | [c] =>
    cases query <;> simp [queryText] at h

lemma getLast?_of_trimmed_ne {path : Text} (hpath : path.head? = some '/')
    (h : trimmed path ≠ path) : path.getLast? = some '/' := by
  obtain ⟨n, hn⟩ := rdropWhile_append path
  cases n with
  | zero =>
    refine absurd ?_ h
    rw [List.replicate_zero, List.append_nil] at hn
    rw [trimmed, ← hn, if_neg]
    rintro rfl
    cases hpath
  | succ n =>
    rw [hn, List.replicate_succ', ← List.append_assoc, List.getLast?_concat]

lemma trimmed_ne {path : Text} (hlast : path.getLast? = some '/') (hmore : ∃ c ∈ path, c ≠ '/') :
    trimmed path ≠ path := by
  obtain ⟨c, hmem, hc⟩ := hmore
  have hne : path.rdropWhile (· = '/') ≠ [] := List.ne_nil_of_mem (mem_rdropWhile hmem hc)
  rw [trimmed, if_neg hne]
  intro heq
  have hnot := List.rdropWhile_last_not (fun c : Char => decide (c = '/')) path hne
  simp only [heq] at hnot
  rw [List.getLast?_eq_getLast_of_ne_nil (heq ▸ hne), Option.some.injEq] at hlast
  exact hnot (decide_eq_true hlast)

lemma call_eq_passed (h : config.call http uri = .passed uri') : uri' = uri ∨
    ∃ q, config.canonical uri.path = some q ∧ withPath http uri q = some uri' := by
  rw [NormalizePathConfig.call] at h
  split at h
  · exact .inl (Outcome.passed.inj h).symm
  · next q hq =>
    split at h
    · exact .inl (Outcome.passed.inj h).symm
    · next uri'' hwith =>
      split_ifs at h
      exact .inr ⟨q, hq, hwith.trans (congrArg some (Outcome.passed.inj h))⟩

lemma call_eq_redirected {location : Option Text} (h : config.call http uri = .redirected location) :
    config.trailingSlash = .redirect ∧ ∃ q uri', config.canonical uri.path = some q ∧
      withPath http uri q = some uri' ∧ redirect http uri' = location := by
  rw [NormalizePathConfig.call] at h
  split at h
  · cases h
  · next q hq =>
    split at h
    · cases h
    · next uri' hwith =>
      split_ifs at h with hredirect
      exact ⟨hredirect, q, uri', hq, hwith, Outcome.redirected.inj h⟩

/-- The layer does what is asked of it unless it redirects to another host. -/
theorem sound_iff (laws : http.Lawful) (made : http.Made uri)
    (hpath : uri.path.head? = some '/') : Sound http config uri ↔ ¬ Escapes http config uri := by
  constructor
  · intro h hescapes
    have hne := trimmed_ne hescapes.ends hescapes.more
    have hcanonical : config.canonical uri.path = some (trimmed uri.path) := by
      simp [NormalizePathConfig.canonical, hescapes.keeps, hescapes.redirects, normalize, hne]
    have hcall : config.call http uri =
        .redirected (some (trimmed uri.path ++ queryText uri.query)) := by
      have hcarried : ∀ c ∈ trimmed uri.path ++ queryText uri.query, http.carries c = true := by
        intro c hmem
        rw [List.mem_append] at hmem
        refine hescapes.carried c (List.mem_append.mpr (hmem.imp (fun hmem => ?_) id))
        by_cases hc : c = '/'
        · exact hc ▸ List.mem_of_mem_head? hpath
        · exact ((respells_trimmed hpath).mem_iff hc).mp hmem
      have hredirect : redirect http { uri with path := trimmed uri.path } =
          some (trimmed uri.path ++ queryText uri.query) :=
        if_pos (List.all_eq_true.mpr hcarried)
      simp [NormalizePathConfig.call, hcanonical, withPath_trimmed laws made hpath,
        hescapes.redirects, hredirect]
    refine (h.location _ hcall).2.1 ?_
    rw [doubleSlash_append_query (respells_trimmed hpath).head, doubleSlash_trimmed_iff]
    exact ⟨hescapes.begins, hescapes.more⟩
  · intro h
    refine ⟨fun q hq => ?_, fun uri' hcall => ?_, fun location hcall => (call_eq_redirected hcall).1,
      fun location hcall => ?_⟩
    · obtain ⟨hne, hnone, hrespells, -⟩ := canonical_spec hpath hq
      exact ⟨hne, hnone, hrespells⟩
    · refine (call_eq_passed hcall).imp id fun hrouted => ?_
      obtain ⟨q, hq, hwith⟩ := hrouted
      exact ⟨q, hq, withPath_eq laws made (canonical_spec hpath hq).2.2.1 hwith⟩
    · obtain ⟨hpolicy, q, uri', hq, hwith, hlocation⟩ := call_eq_redirected hcall
      obtain ⟨-, -, hrespells, hsingle⟩ := canonical_spec hpath hq
      obtain rfl := withPath_eq laws made hrespells hwith
      rw [redirect, Option.ite_none_right_eq_some, Option.some.injEq] at hlocation
      obtain ⟨hcarried, rfl⟩ := hlocation
      have hhead : ({ uri with path := q } : Uri).pathAndQuery.head? = some '/' := by
        rw [Uri.pathAndQuery, List.head?_append, hrespells.head]
        rfl
      suffices hstays : ¬ ['/', '/'] <+: ({ uri with path := q } : Uri).pathAndQuery from
        ⟨⟨q, hq, rfl⟩, hstays, target_eq hhead hstays⟩
      intro hdouble
      rw [Uri.pathAndQuery, doubleSlash_append_query hrespells.head] at hdouble
      by_cases hcollapse : config.collapseSlashes = true
      · obtain ⟨rest, rfl⟩ := hdouble
        have hq := hsingle hcollapse
        simp [hasDouble] at hq
      · rw [Bool.not_eq_true] at hcollapse
        -- only the slashes at the end of the path are gone
        have hq' : trimmed uri.path ≠ uri.path ∧ trimmed uri.path = q := by
          by_cases hne : trimmed uri.path = uri.path
          · simp [NormalizePathConfig.canonical, hcollapse, hpolicy, normalize, hne] at hq
          · refine ⟨hne, ?_⟩
            simpa [NormalizePathConfig.canonical, hcollapse, hpolicy, normalize, hne] using hq
        obtain ⟨hne, rfl⟩ := hq'
        obtain ⟨hbegins, hmore⟩ := doubleSlash_trimmed_iff.mp hdouble
        refine h ⟨hpolicy, hcollapse, hbegins, getLast?_of_trimmed_ne hpath hne, hmore, ?_⟩
        intro c hmem
        refine List.all_eq_true.mp hcarried c ?_
        rw [Uri.pathAndQuery, List.mem_append] at hmem ⊢
        refine hmem.imp (fun hmem => ?_) id
        by_cases hc : c = '/'
        · exact hc ▸ List.mem_of_mem_head? hrespells.head
        · exact (hrespells.mem_iff hc).mpr hmem

/-! ### A library -/

/-- Paths and queries of any characters but `#`, split at the first question mark. -/
def originForm : HttpLibrary where
  pathAndQuery text :=
    if text.head? = some '/' ∧ '#' ∉ text then
      some (text.takeWhile (· ≠ '?'), (text.dropWhile (· ≠ '?')).tail?)
    else none
  fromParts scheme authority parts :=
    if scheme.isSome = authority.isSome then some ⟨scheme, authority, parts.1, parts.2⟩ else none
  carries c := 32 ≤ c.toNat

lemma takeWhile_query {path : Text} (h : '?' ∉ path) (query : Option Text) :
    (path ++ queryText query).takeWhile (· ≠ '?') = path ∧
      (path ++ queryText query).dropWhile (· ≠ '?') = queryText query := by
  have hall : ∀ c ∈ path, decide (c ≠ '?') = true := fun c hc =>
    decide_eq_true fun heq => h (heq ▸ hc)
  rw [List.takeWhile_append_of_pos hall, List.dropWhile_append_of_pos hall]
  cases query <;> simp [queryText]

lemma originForm_eq {text path : Text} {query : Option Text}
    (h : originForm.pathAndQuery text = some (path, query)) :
    (text.head? = some '/' ∧ '#' ∉ text) ∧ text = path ++ queryText query ∧ '?' ∉ path := by
  obtain ⟨hok, heq⟩ := Option.ite_none_right_eq_some.mp h
  obtain ⟨rfl, rfl⟩ := Prod.mk.inj (Option.some.inj heq)
  refine ⟨hok, ?_, fun hmem => ?_⟩
  · have hsplit := List.takeWhile_append_dropWhile (l := text) (p := fun c => decide (c ≠ '?'))
    refine hsplit.symm.trans ?_
    congr 1
    cases hdrop : text.dropWhile (· ≠ '?') with
    | nil => rfl
    | cons c rest =>
      have hc := List.head?_dropWhile_not (fun c : Char => decide (c ≠ '?')) text
      rw [hdrop] at hc
      have hc : c = '?' := by simpa using hc
      rw [hc]
      rfl
  · have hne := List.mem_takeWhile_imp hmem
    simp at hne

lemma originForm_lawful : originForm.Lawful := by
  refine ⟨fun text path query h => (originForm_eq h).2, fun scheme authority path query uri h => ?_,
    fun path path' query h hsub hhead => ?_, fun scheme authority path path' query h _ => ?_⟩
  · exact (Option.some.inj (Option.ite_none_right_eq_some.mp h).2).symm
  · obtain ⟨⟨-, hhash⟩, -, hquestion⟩ := originForm_eq h
    obtain ⟨htake, hdrop⟩ := takeWhile_query (fun hmem => hquestion (hsub.subset hmem)) query
    have hok : (path' ++ queryText query).head? = some '/' ∧ '#' ∉ path' ++ queryText query := by
      refine ⟨by rw [List.head?_append, hhead]; rfl, fun hmem => hhash ?_⟩
      rw [List.mem_append] at hmem ⊢
      exact hmem.imp (fun hmem => hsub.subset hmem) id
    rw [originForm]
    simp only [if_pos hok, htake, hdrop]
    cases query <;> rfl
  · simpa [originForm] using h

/-- The request for `/users/` is redirected to `/users`, on its host. -/
theorem sound_users :
    Sound originForm { trailingSlash := .redirect } ⟨none, none, "/users/".toList, none⟩ :=
  (sound_iff originForm_lawful ⟨by decide, by decide⟩ (by decide)).mpr
    fun h => absurd h.begins (by decide)

/-- The request for `//evil.example/` is redirected to the host `evil.example`. -/
theorem not_sound :
    ¬ Sound originForm { trailingSlash := .redirect } ⟨none, none, "//evil.example/".toList, none⟩ :=
  fun h => (h.location "//evil.example".toList rfl).2.1 (by decide)

end Moso.Core
