import Mathlib.Data.List.DropRight
import Mathlib.Tactic.Common
import Moso.Core.Query

/-!
# Normalising paths

What the trailing-slash policy and the collapsing of slashes make of a path, and of a request: the
path is rewritten, or answered with a redirect to the canonical spelling.

Uris and header values are those of a library, whose parsers are parameters.
-/

namespace Moso.Core

/-- The trailing-slash policy. -/
inductive TrailingSlash where
  | trim
  | append
  | redirect
  | off
  deriving DecidableEq

/-! ### Paths -/

/-- A path without the slashes at its end, but never empty. -/
def trimmed (path : Text) : Text :=
  let trimmed := path.rdropWhile (· = '/')
  if trimmed = [] then ['/'] else trimmed

/-- Apply the policy to a path, or return `none` when it is already canonical. -/
def normalize (path : Text) : TrailingSlash → Option Text
  | .off => none
  | .trim | .redirect => if trimmed path ≠ path then some (trimmed path) else none
  | .append => if path.getLast? ≠ some '/' then some (path ++ ['/']) else none

/-- Whether a path has two slashes in a row. -/
def hasDouble : Text → Bool
  | [] => false
  | c :: rest => (c = '/' && rest.head? = some '/') || hasDouble rest

/-- The loop of `collapse`, after a slash or not. -/
def collapseLoop : Bool → Text → Text
  | _, [] => []
  | previousWasSlash, c :: rest =>
    if c = '/' then
      if previousWasSlash then collapseLoop true rest else c :: collapseLoop true rest
    else c :: collapseLoop false rest

/-- Collapse repeated slashes, or return `none` when there are none. -/
def collapse (path : Text) : Option Text :=
  if hasDouble path then some (collapseLoop false path) else none

structure NormalizePathConfig where
  trailingSlash : TrailingSlash := .trim
  collapseSlashes : Bool := false

/-- The canonical spelling of a path, or `none` when it is already canonical. -/
def NormalizePathConfig.canonical (config : NormalizePathConfig) (path : Text) : Option Text :=
  let collapsed := if config.collapseSlashes then collapse path else none
  match normalize (collapsed.getD path) config.trailingSlash with
  | some normalised => some normalised
  | none => collapsed

/-! ### Requests -/

structure Uri where
  scheme : Option Text
  authority : Option Text
  path : Text
  query : Option Text

def queryText : Option Text → Text
  | some query => '?' :: query
  | none => []

/-- A path with its query. -/
def Uri.pathAndQuery (uri : Uri) : Text := uri.path ++ queryText uri.query

/-- The library of uris and header values. -/
structure HttpLibrary where
  /-- `PathAndQuery::try_from`. -/
  pathAndQuery : Text → Option (Text × Option Text)
  /-- `Uri::from_parts`. -/
  fromParts : Option Text → Option Text → Text × Option Text → Option Uri
  /-- The characters that a header value can have. -/
  carries : Char → Bool

inductive Outcome where
  /-- The request goes on with this uri. -/
  | passed (uri : Uri)
  /-- A 308, with its `Location`. -/
  | redirected (location : Option Text)

variable (http : HttpLibrary)

/-- The uri with its path replaced, keeping the query. -/
def withPath (uri : Uri) (path : Text) : Option Uri := do
  let parts ← http.pathAndQuery (path ++ queryText uri.query)
  http.fromParts uri.scheme uri.authority parts

/-- The `Location` of a 308, when it is a header value. -/
def redirect (uri : Uri) : Option Text :=
  if uri.pathAndQuery.all http.carries then some uri.pathAndQuery else none

/-- `NormalizePath::call`, up to the inner service. -/
def NormalizePathConfig.call (config : NormalizePathConfig) (uri : Uri) : Outcome :=
  match config.canonical uri.path with
  | none => .passed uri
  | some canonical =>
    match withPath http uri canonical with
    | none => .passed uri
    | some uri' =>
      if config.trailingSlash = .redirect then .redirected (redirect http uri') else .passed uri'

/-! ### Slashes -/

variable {path rest : Text} {c : Char} {prev : Bool}

/-- What a path is but for its slashes: the texts between them. -/
def wordsFrom : Text → Text → List Text
  | word, [] => if word = [] then [] else [word]
  | word, c :: rest =>
    if c = '/' then (if word = [] then [] else [word]) ++ wordsFrom [] rest
    else wordsFrom (word ++ [c]) rest

def words (path : Text) : List Text := wordsFrom [] path

lemma wordsFrom_append_slashes (word path : Text) (n : ℕ) :
    wordsFrom word (path ++ List.replicate n '/') = wordsFrom word path := by
  induction path generalizing word with
  | nil =>
    induction n generalizing word with
    | zero => rfl
    | succ n ih =>
      simp only [List.nil_append] at ih ⊢
      simp [List.replicate_succ, wordsFrom, ih]
  | cons c path ih =>
    rw [List.cons_append, wordsFrom, wordsFrom]
    split_ifs
    all_goals simp [ih]

lemma wordsFrom_collapseLoop (word path : Text) (prev : Bool) (h : prev = true → word = []) :
    wordsFrom word (collapseLoop prev path) = wordsFrom word path := by
  induction path generalizing word prev with
  | nil => rfl
  | cons c path ih =>
    rw [collapseLoop]
    by_cases hc : c = '/'
    · rw [if_pos hc]
      cases prev with
      | true =>
        rw [h rfl, if_pos rfl, ih [] true fun _ => rfl]
        simp [wordsFrom, hc]
      | false =>
        rw [if_neg (by simp), wordsFrom, wordsFrom, if_pos hc, if_pos hc, ih [] true fun _ => rfl]
    · rw [if_neg hc, wordsFrom, wordsFrom, if_neg hc, if_neg hc, ih _ false (by simp)]

lemma words_collapse (h : collapse path = some rest) : words rest = words path := by
  rw [collapse, Option.ite_none_right_eq_some, Option.some.injEq] at h
  rw [← h.2]
  exact wordsFrom_collapseLoop [] path false (by simp)

/-- Nothing of a path is lost but slashes at its end. -/
lemma rdropWhile_append (path : Text) :
    ∃ n, path = path.rdropWhile (· = '/') ++ List.replicate n '/' := by
  induction path using List.reverseRecOn with
  | nil => exact ⟨0, rfl⟩
  | append_singleton path c ih =>
    obtain ⟨n, hn⟩ := ih
    by_cases hc : c = '/'
    · refine ⟨n + 1, ?_⟩
      rw [List.rdropWhile_concat, if_pos (decide_eq_true hc), List.replicate_succ',
        ← List.append_assoc, ← hn, hc]
    · refine ⟨0, ?_⟩
      rw [List.rdropWhile_concat, if_neg (by simpa using hc)]
      exact (List.append_nil _).symm

lemma hasDouble_append_left (h : hasDouble path = true) : hasDouble (path ++ rest) = true := by
  induction path with
  | nil => cases h
  | cons c path ih =>
    rw [hasDouble, Bool.or_eq_true] at h
    rw [List.cons_append, hasDouble, Bool.or_eq_true]
    refine h.imp (fun hhead => ?_) ih
    cases path with
    | nil => simp at hhead
    | cons d path => exact hhead

lemma hasDouble_collapseLoop (prev : Bool) (path : Text) :
    hasDouble (collapseLoop prev path) = false ∧
      (prev = true → (collapseLoop prev path).head? ≠ some '/') := by
  induction path generalizing prev with
  | nil => exact ⟨rfl, fun _ => by simp [collapseLoop]⟩
  | cons c path ih =>
    rw [collapseLoop]
    by_cases hc : c = '/'
    · rw [if_pos hc]
      cases prev with
      | true => exact ih true
      | false => simp [hasDouble, (ih true).1, (ih true).2]
    · rw [if_neg hc]
      simp [hasDouble, hc, (ih false).1]

/-! ### Canonical spellings -/

variable {policy : TrailingSlash} {q : Text} {config : NormalizePathConfig}

/-- What a spelling keeps: it is a path of the same words. -/
structure Respells (path q : Text) : Prop where
  words_eq : words q = words path
  head : q.head? = some '/'

/-- The slashes at the end of a path make no difference to its words. -/
lemma respells_trimmed (hpath : path.head? = some '/') : Respells path (trimmed path) := by
  obtain ⟨n, hn⟩ := rdropWhile_append path
  have hwords : words (path.rdropWhile (· = '/')) = words path := by
    conv_rhs => rw [hn]
    exact (wordsFrom_append_slashes [] _ n).symm
  rw [trimmed]
  split_ifs with hnil
  · rw [hnil] at hwords
    exact ⟨by rw [← hwords]; rfl, rfl⟩
  · refine ⟨hwords, ?_⟩
    obtain ⟨c, rest, hrest⟩ := List.exists_cons_of_ne_nil hnil
    rw [hn, hrest] at hpath
    rw [hrest]
    exact hpath

lemma trimmed_trimmed (path : Text) : trimmed (trimmed path) = trimmed path := by
  have hidem := List.rdropWhile_idempotent (fun c : Char => decide (c = '/')) path
  by_cases hnil : path.rdropWhile (· = '/') = []
  · simp only [trimmed, hnil, if_true]
    rfl
  · simp only [trimmed, hnil, if_false, hidem]

lemma hasDouble_trimmed (h : hasDouble path = false) : hasDouble (trimmed path) = false := by
  rw [trimmed]
  split_ifs with hnil
  · rfl
  · obtain ⟨n, hn⟩ := rdropWhile_append path
    by_contra hdouble
    rw [hn, hasDouble_append_left (by simpa using hdouble)] at h
    cases h

lemma hasDouble_concat (h : hasDouble path = false) (hlast : path.getLast? ≠ some '/') :
    hasDouble (path ++ ['/']) = false := by
  induction path with
  | nil => rfl
  | cons c path ih =>
    rw [hasDouble, Bool.or_eq_false_iff] at h
    cases path with
    | nil =>
      have hc : c ≠ '/' := fun hc => hlast (hc ▸ rfl)
      simp [hasDouble, hc]
    | cons d path =>
      rw [List.cons_append, hasDouble, ih h.2 (by simpa using hlast), Bool.or_false]
      exact h.1

lemma normalize_trim_spec (hpath : path.head? = some '/')
    (h : (if trimmed path ≠ path then some (trimmed path) else none) = some q) :
    q ≠ path ∧ (if trimmed q ≠ q then some (trimmed q) else none) = none ∧ Respells path q ∧
      (hasDouble path = false → hasDouble q = false) := by
  rw [Option.ite_none_right_eq_some, Option.some.injEq] at h
  obtain ⟨hne, rfl⟩ := h
  exact ⟨hne, if_neg (not_not.mpr (trimmed_trimmed path)), respells_trimmed hpath,
    hasDouble_trimmed⟩

/-- The policy changes a path once, and makes no double slash. -/
lemma normalize_spec (hpath : path.head? = some '/') (h : normalize path policy = some q) :
    q ≠ path ∧ normalize q policy = none ∧ Respells path q ∧
      (hasDouble path = false → hasDouble q = false) := by
  cases policy with
  | off => cases h
  | trim => exact normalize_trim_spec hpath h
  | redirect => exact normalize_trim_spec hpath h
  | append =>
    rw [normalize, Option.ite_none_right_eq_some, Option.some.injEq] at h
    obtain ⟨hlast, rfl⟩ := h
    refine ⟨by simp, by simp [normalize], ⟨?_, ?_⟩, fun hsingle => hasDouble_concat hsingle hlast⟩
    · exact wordsFrom_append_slashes [] path 1
    · rw [List.head?_append, hpath]
      rfl

lemma collapse_spec (hpath : path.head? = some '/') (h : collapse path = some q) :
    hasDouble path = true ∧ hasDouble q = false ∧ Respells path q := by
  refine ⟨?_, ?_, words_collapse h, ?_⟩
  all_goals
    rw [collapse, Option.ite_none_right_eq_some, Option.some.injEq] at h
    obtain ⟨hdouble, rfl⟩ := h
  · exact hdouble
  · exact (hasDouble_collapseLoop false path).1
  · cases path with
    | nil => cases hpath
    | cons c path =>
      obtain rfl := Option.some.inj hpath
      simp [collapseLoop]

lemma collapse_eq_none (h : hasDouble path = false) : collapse path = none := by
  simp [collapse, h]

/-- The canonical spelling is another one of the same words, and canonical. -/
lemma canonical_spec (hpath : path.head? = some '/') (h : config.canonical path = some q) :
    q ≠ path ∧ config.canonical q = none ∧ Respells path q ∧
      (config.collapseSlashes = true → hasDouble q = false) := by
  rw [NormalizePathConfig.canonical] at h ⊢
  by_cases hcollapse : config.collapseSlashes = true
  · simp only [hcollapse, if_true] at h ⊢
    cases hc : collapse path with
    | none =>
      have hsingle : hasDouble path = false := by
        by_contra hdouble
        simp [collapse, hdouble] at hc
      simp only [hc, Option.getD_none] at h
      cases hn : normalize path config.trailingSlash with
      | none => simp [hn] at h
      | some q' =>
        simp only [hn, Option.some.injEq] at h
        subst h
        obtain ⟨hne, hnone, hrespells, hdouble⟩ := normalize_spec hpath hn
        simp [hne, hnone, hrespells, hdouble hsingle, collapse_eq_none]
    | some collapsed =>
      obtain ⟨hdouble, hsingle, hrespells⟩ := collapse_spec hpath hc
      simp only [hc, Option.getD_some] at h
      cases hn : normalize collapsed config.trailingSlash with
      | none =>
        simp only [hn, Option.some.injEq] at h
        subst h
        refine ⟨fun heq => ?_, by simp [collapse_eq_none hsingle, hn], hrespells, fun _ => hsingle⟩
        rw [heq, hdouble] at hsingle
        cases hsingle
      | some q' =>
        simp only [hn, Option.some.injEq] at h
        subst h
        obtain ⟨-, hnone, hrespells', hdouble'⟩ := normalize_spec hrespells.head hn
        refine ⟨fun heq => ?_, by simp [collapse_eq_none (hdouble' hsingle), hnone],
          ⟨hrespells'.words_eq.trans hrespells.words_eq, hrespells'.head⟩, fun _ => hdouble' hsingle⟩
        have hboth := hdouble' hsingle
        rw [heq, hdouble] at hboth
        cases hboth
  · rw [Bool.not_eq_true] at hcollapse
    simp only [hcollapse, Bool.false_eq_true, if_false, Option.getD_none] at h ⊢
    cases hn : normalize path config.trailingSlash with
    | none => simp [hn] at h
    | some q' =>
      simp only [hn, Option.some.injEq] at h
      subst h
      obtain ⟨hne, hnone, hrespells, -⟩ := normalize_spec hpath hn
      simp [hne, hnone, hrespells]

end Moso.Core
