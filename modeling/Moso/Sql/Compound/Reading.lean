import Moso.Foundation.Fallible
import Moso.Sql.Compound

/-!
# What a server reads in a compound query

The text of a query denotes a tree of set operations, by the server's precedence; the query that
was built is a tree too, in which each operand is combined with its own set operations. The two
are the same exactly for flat queries.
-/

namespace Moso.Sql

open Precedence Tree

variable {κ γ ω ℓ : Type}

/-- `INTERSECT` binds tighter than `UNION` and `EXCEPT` on PostgreSQL. -/
def Flavor.strength : Flavor → SetOp → ℕ
  | .postgres, .intersect | .postgres, .intersectAll => 1
  | _, _ => 0

/-- An operand: one `SELECT`, or a query with a `WITH` clause of its own. -/
inductive Branch (κ γ : Type) where
  | core (core : κ)
  | withClause (recursive : Bool) (ctes : List γ) (body : Tree (Branch κ γ) SetOp)

/-- A query: its set operations, and what belongs to all of it. -/
structure Query (κ γ ω ℓ : Type) where
  recursive : Bool
  ctes : List γ
  body : Tree (Branch κ γ) SetOp
  orderTerms : List ω
  limit : Option ℕ
  offset : Option ℕ
  lock : Option ℓ

/-- The leaf `SELECT`s of a text. -/
def Token.cores (text : List (Token κ γ ω ℓ)) : List κ :=
  text.filterMap fun
    | .core c => some c
    | _ => none

namespace Query

/-- The operators and their operands; no operand has a `WITH` clause. -/
def parseBranches : List (Token κ γ ω ℓ) → List (SetOp × κ) × List (Token κ γ ω ℓ)
  | .setOp op :: .core c :: rest => ((op, c) :: (parseBranches rest).1, (parseBranches rest).2)
  | rest => ([], rest)

def parseOrderBy : List (Token κ γ ω ℓ) → List ω × List (Token κ γ ω ℓ)
  | .orderBy terms :: rest => (terms, rest)
  | rest => ([], rest)

def parseLimit : List (Token κ γ ω ℓ) → Option ℕ × List (Token κ γ ω ℓ)
  | .limit rows :: rest => (rows, rest)
  | rest => (none, rest)

def parseOffset : List (Token κ γ ω ℓ) → Option ℕ × List (Token κ γ ω ℓ)
  | .offset rows :: rest => (some rows, rest)
  | rest => (none, rest)

def parseLock : List (Token κ γ ω ℓ) → Option ℓ × List (Token κ γ ω ℓ)
  | .lock l :: rest => (some l, rest)
  | rest => (none, rest)

/-- What follows the `WITH` clause. -/
def parseBody (flavor : Flavor) (recursive : Bool) (ctes : List γ) :
    List (Token κ γ ω ℓ) → Option (Query κ γ ω ℓ)
  | .core c :: rest =>
    let (branches, rest) := parseBranches rest
    let (orderTerms, rest) := parseOrderBy rest
    let (limit, rest) := parseLimit rest
    let (offset, rest) := parseOffset rest
    let (lock, rest) := parseLock rest
    if rest.isEmpty then
      some
        { recursive := recursive
          ctes := ctes
          body := Precedence.parse flavor.strength (.core c)
            (branches.map (Prod.map id .core))
          orderTerms := orderTerms
          limit := limit
          offset := offset
          lock := lock }
    else none
  | _ => none

/-- The query that a server reads in a text, if it reads one. -/
def parse (flavor : Flavor) : List (Token κ γ ω ℓ) → Option (Query κ γ ω ℓ)
  | .withClause recursive ctes :: rest => parseBody flavor recursive ctes rest
  | rest => parseBody flavor false [] rest

end Query

namespace Select

mutual

/-- The set operations of a query, from left to right, each operand with its own. -/
def tree : Select κ γ ω ℓ → Tree (Branch κ γ) SetOp
  | ⟨_, _, core, _, _, _, _, setOps⟩ => combine (leaf (.core core)) setOps

def combine (t : Tree (Branch κ γ) SetOp) :
    List (SetOp × Select κ γ ω ℓ) → Tree (Branch κ γ) SetOp
  | [] => t
  | (op, other) :: rest =>
    combine (node op t (if other.ctes.isEmpty then other.tree
      else leaf (.withClause other.recursive other.ctes other.tree))) rest

end

mutual

/-- The leaf `SELECT`s of the tree. -/
def cores : Select κ γ ω ℓ → List κ
  | ⟨_, _, core, _, _, _, _, setOps⟩ => core :: coresOf setOps

def coresOf : List (SetOp × Select κ γ ω ℓ) → List κ
  | [] => []
  | (_, other) :: rest => other.cores ++ coresOf rest

end

/-- What an operand contributes to the tree. -/
def branch (other : Select κ γ ω ℓ) : Tree (Branch κ γ) SetOp :=
  if other.ctes.isEmpty then other.tree
  else leaf (.withClause other.recursive other.ctes other.tree)

/-- The query that was built. -/
def query (s : Select κ γ ω ℓ) : Query κ γ ω ℓ where
  recursive := s.recursive && !s.ctes.isEmpty
  ctes := s.ctes
  body := s.tree
  orderTerms := s.orderTerms
  limit := s.limit
  offset := s.offset
  lock := s.lock

/-- A text has every leaf `SELECT` of a query once, and a server reads the query in it. -/
def Denotes (flavor : Flavor) (s : Select κ γ ω ℓ) (text : List (Token κ γ ω ℓ)) : Prop :=
  Token.cores text = s.cores ∧ Query.parse flavor text = some s.query

/-- No operand has set operations or a `WITH` clause of its own, and no set operation binds tighter
than one before it. -/
def Flat (flavor : Flavor) (s : Select κ γ ω ℓ) : Prop :=
  (∀ p ∈ s.setOps, p.2.setOps.isEmpty = true ∧ p.2.ctes.isEmpty = true) ∧
    (s.setOps.map fun p => flavor.strength p.1).Pairwise (· ≥ ·)

instance (flavor : Flavor) (s : Select κ γ ω ℓ) : Decidable (s.Flat flavor) :=
  inferInstanceAs (Decidable (_ ∧ _))

/-! ### The tree and its leaves -/

lemma combine_eq (t : Tree (Branch κ γ) SetOp) (setOps : List (SetOp × Select κ γ ω ℓ)) :
    combine t setOps = leftFold t (setOps.map fun p => (p.1, p.2.branch)) := by
  induction setOps generalizing t with
  | nil => rfl
  | cons p rest ih => exact ih _

lemma tree_eq (s : Select κ γ ω ℓ) :
    s.tree = leftFold (leaf (.core s.core)) (s.setOps.map fun p => (p.1, p.2.branch)) := by
  obtain ⟨_, _, core, _, _, _, _, setOps⟩ := s
  exact combine_eq _ setOps

lemma coresOf_eq (setOps : List (SetOp × Select κ γ ω ℓ)) :
    coresOf setOps = setOps.flatMap fun p => p.2.cores := by
  induction setOps with
  | nil => rfl
  | cons p rest ih => exact congrArg (p.2.cores ++ ·) ih

lemma cores_eq (s : Select κ γ ω ℓ) :
    s.cores = s.core :: s.setOps.flatMap fun p => p.2.cores := by
  obtain ⟨_, _, core, _, _, _, _, setOps⟩ := s
  exact congrArg (core :: ·) (coresOf_eq setOps)

/-- The operands are the leaves only if none of them has set operations. -/
lemma setOps_isEmpty_of_cores {setOps : List (SetOp × Select κ γ ω ℓ)}
    (h : (setOps.map fun p => p.2.core) = setOps.flatMap fun p => p.2.cores) :
    ∀ p ∈ setOps, p.2.setOps.isEmpty = true := by
  have hlength : ∀ rest : List (SetOp × Select κ γ ω ℓ),
      rest.length ≤ (rest.flatMap fun p => p.2.cores).length := by
    intro rest
    induction rest with
    | nil => exact le_rfl
    | cons p rest ih =>
      rw [List.flatMap_cons, List.length_append, cores_eq]
      simp only [List.length_cons]
      omega
  induction setOps with
  | nil => exact fun _ => nofun
  | cons p rest ih =>
    rw [List.map_cons, List.flatMap_cons, cores_eq, List.cons_append, List.cons_inj_right] at h
    have hle := hlength rest
    have hfirst := hlength p.2.setOps
    have heq := congrArg List.length h
    rw [List.length_map, List.length_append] at heq
    have hnil : p.2.setOps = [] := List.length_eq_zero_iff.mp (by omega)
    rw [hnil] at h
    rintro q hq
    rcases List.mem_cons.mp hq with rfl | hq
    · rw [hnil]
      rfl
    · exact ih h q hq

lemma flatMap_cores_of_isEmpty {setOps : List (SetOp × Select κ γ ω ℓ)}
    (h : ∀ p ∈ setOps, p.2.setOps.isEmpty = true) :
    (setOps.flatMap fun p => p.2.cores) = setOps.map fun p => p.2.core := by
  induction setOps with
  | nil => rfl
  | cons p rest ih =>
    rw [List.flatMap_cons, cores_eq, List.isEmpty_iff.mp (h p List.mem_cons_self),
      ih fun q hq => h q (List.mem_cons_of_mem _ hq)]
    rfl

lemma branch_of_flat {p : SetOp × Select κ γ ω ℓ} (hops : p.2.setOps.isEmpty = true)
    (hctes : p.2.ctes.isEmpty = true) : p.2.branch = leaf (.core p.2.core) := by
  rw [branch, if_pos hctes, tree_eq, List.isEmpty_iff.mp hops]
  rfl

end Select

/-! ### The text -/

namespace Renderer

variable (r : Renderer κ γ ω ℓ)

def withTokens (ctes : List γ) (recursive : Bool) : List (Token κ γ ω ℓ) :=
  if ctes.isEmpty then [] else [.withClause recursive ctes]

def branchTokens (setOps : List (SetOp × Select κ γ ω ℓ)) : List (Token κ γ ω ℓ) :=
  setOps.flatMap fun p => .setOp p.1 :: (withTokens p.2.ctes p.2.recursive ++ [.core p.2.core])

def lastTokens (s : Select κ γ ω ℓ) : List (Token κ γ ω ℓ) :=
  (if s.orderTerms.isEmpty then [] else [.orderBy s.orderTerms]) ++
    r.limitOffset s.limit s.offset ++ (s.lock.map .lock).toList

variable {r} {s : Select κ γ ω ℓ} {text : List (Token κ γ ω ℓ)}

lemma withClause_ok {ctes : List γ} {recursive : Bool} (h : r.withClause ctes recursive = .ok text) :
    text = withTokens ctes recursive := by
  rw [withClause] at h
  rw [withTokens]
  split at h
  · next hctes =>
    rw [if_pos hctes]
    exact (Except.ok.inj h).symm
  · next hctes =>
    rw [if_neg hctes]
    obtain ⟨_, -, hpure⟩ := Fallible.bind_eq_ok.mp h
    exact (Except.ok.inj hpure).symm

lemma selectCore_ok {core : κ} (h : r.selectCore core = .ok text) : text = [.core core] := by
  obtain ⟨_, -, hpure⟩ := Fallible.bind_eq_ok.mp h
  exact (Except.ok.inj hpure).symm

lemma setOperator_ok {op : SetOp} (h : r.setOperator op = .ok text) : text = [.setOp op] := by
  rw [setOperator] at h
  split at h
  · cases h
  · exact (Except.ok.inj h).symm

lemma setOperations_ok {setOps : List (SetOp × Select κ γ ω ℓ)}
    (h : r.setOperations setOps = .ok text) : text = branchTokens setOps := by
  induction setOps generalizing text with
  | nil => exact (Except.ok.inj h).symm
  | cons p rest ih =>
    obtain ⟨operator, hoperator, h⟩ := Fallible.bind_eq_ok.mp h
    obtain ⟨_, -, h⟩ := Fallible.bind_eq_ok.mp h
    obtain ⟨ctes, hctes, h⟩ := Fallible.bind_eq_ok.mp h
    obtain ⟨core, hcore, h⟩ := Fallible.bind_eq_ok.mp h
    obtain ⟨later, hlater, h⟩ := Fallible.bind_eq_ok.mp h
    rw [← Except.ok.inj h, setOperator_ok hoperator, withClause_ok hctes, selectCore_ok hcore,
      ih hlater]
    simp [branchTokens]

lemma orderBy_ok {terms : List ω} (h : r.orderBy terms = .ok text) :
    text = if terms.isEmpty then [] else [.orderBy terms] := by
  rw [orderBy] at h
  split at h
  · next hterms =>
    rw [if_pos hterms]
    exact (Except.ok.inj h).symm
  · next hterms =>
    rw [if_neg hterms]
    obtain ⟨_, -, hpure⟩ := Fallible.bind_eq_ok.mp h
    exact (Except.ok.inj hpure).symm

lemma lock_ok {lock : Option ℓ} (h : r.lock s lock = .ok text) :
    text = (lock.map .lock).toList := by
  cases lock with
  | none => exact (Except.ok.inj h).symm
  | some lock =>
    rw [Renderer.lock] at h
    split at h
    · cases h
    split at h
    · cases h
    obtain ⟨_, -, hpure⟩ := Fallible.bind_eq_ok.mp h
    exact (Except.ok.inj hpure).symm

/-- What is written, if anything is. -/
lemma select_ok (h : r.select s = .ok text) : text = withTokens s.ctes s.recursive ++
    .core s.core :: (branchTokens s.setOps ++ r.lastTokens s) := by
  obtain ⟨ctes, hctes, h⟩ := Fallible.bind_eq_ok.mp h
  obtain ⟨core, hcore, h⟩ := Fallible.bind_eq_ok.mp h
  obtain ⟨branches, hbranches, h⟩ := Fallible.bind_eq_ok.mp h
  obtain ⟨orderBy, horderBy, h⟩ := Fallible.bind_eq_ok.mp h
  obtain ⟨locked, hlocked, h⟩ := Fallible.bind_eq_ok.mp h
  rw [← Except.ok.inj h, withClause_ok hctes, selectCore_ok hcore, setOperations_ok hbranches,
    orderBy_ok horderBy, lock_ok hlocked]
  simp [lastTokens]

/-! ### What is read in it -/

lemma cores_branchTokens (setOps : List (SetOp × Select κ γ ω ℓ)) :
    Token.cores (branchTokens setOps) = setOps.map fun p => p.2.core := by
  induction setOps with
  | nil => rfl
  | cons p rest ih =>
    rw [List.map_cons, ← ih, branchTokens, List.flatMap_cons, ← branchTokens, withTokens]
    split <;> simp [Token.cores]

lemma cores_lastTokens : Token.cores (r.lastTokens s) = [] := by
  obtain ⟨_, _, _, terms, limit, offset, lock, _⟩ := s
  obtain ⟨flavor, _, _, _, _, _⟩ := r
  cases terms <;> cases limit <;> cases offset <;> cases lock <;> cases flavor <;> rfl

/-- The leaves that are written: those of the query itself, not those of its operands. -/
lemma cores_of_select_ok (h : r.select s = .ok text) :
    Token.cores text = s.core :: s.setOps.map fun p => p.2.core := by
  have hwith : Token.cores (withTokens s.ctes s.recursive : List (Token κ γ ω ℓ)) = [] := by
    rw [withTokens]
    split <;> rfl
  have hcore : Token.cores (.core s.core :: (branchTokens s.setOps ++ r.lastTokens s)) =
      s.core :: Token.cores (branchTokens s.setOps ++ r.lastTokens s) := rfl
  have happend : ∀ text text' : List (Token κ γ ω ℓ),
      Token.cores (text ++ text') = Token.cores text ++ Token.cores text' :=
    fun _ _ => List.filterMap_append
  rw [select_ok h, happend, hwith, hcore, happend, cores_branchTokens, cores_lastTokens,
    List.append_nil, List.nil_append]

/-- The clauses at the end are read as they were given. -/
lemma parse_lastTokens {flavor : Flavor} {recursive : Bool} {ctes : List γ} {core : κ}
    {branches : List (SetOp × κ)} {before : List (Token κ γ ω ℓ)}
    (hbefore : Query.parseBranches (before ++ r.lastTokens s) = (branches, r.lastTokens s)) :
    Query.parseBody flavor recursive ctes (.core core :: (before ++ r.lastTokens s)) = some
      { recursive := recursive
        ctes := ctes
        body := Precedence.parse flavor.strength (.core core) (branches.map (Prod.map id .core))
        orderTerms := s.orderTerms
        limit := s.limit
        offset := s.offset
        lock := s.lock } := by
  rw [Query.parseBody, hbefore]
  obtain ⟨_, _, _, terms, limit, offset, lock, _⟩ := s
  obtain ⟨flavor, _, _, _, _, _⟩ := r
  cases terms <;> cases limit <;> cases offset <;> cases lock <;> cases flavor <;> rfl

lemma parseBranches_lastTokens :
    Query.parseBranches (r.lastTokens s) = ([], r.lastTokens s) := by
  obtain ⟨_, _, _, terms, limit, offset, lock, _⟩ := s
  obtain ⟨flavor, _, _, _, _, _⟩ := r
  cases terms <;> cases limit <;> cases offset <;> cases lock <;> cases flavor <;> rfl

lemma branchTokens_cons {p : SetOp × Select κ γ ω ℓ} {rest : List (SetOp × Select κ γ ω ℓ)}
    (hp : p.2.ctes.isEmpty = true) :
    branchTokens (p :: rest) = .setOp p.1 :: .core p.2.core :: branchTokens rest := by
  rw [branchTokens, List.flatMap_cons, withTokens, if_pos hp]
  rfl

/-- Operands without a `WITH` clause are read one after the other. -/
lemma parseBranches_branchTokens {setOps : List (SetOp × Select κ γ ω ℓ)}
    (hctes : ∀ p ∈ setOps, p.2.ctes.isEmpty = true) :
    Query.parseBranches (branchTokens setOps ++ r.lastTokens s) =
      (setOps.map fun p => (p.1, p.2.core), r.lastTokens s) := by
  induction setOps with
  | nil => exact parseBranches_lastTokens
  | cons p rest ih =>
    have hp := hctes p List.mem_cons_self
    rw [branchTokens_cons hp, List.cons_append, List.cons_append, Query.parseBranches,
      ih fun q hq => hctes q (List.mem_cons_of_mem _ hq)]
    rfl

/-- A `WITH` clause in front of an operand is not read. -/
lemma parseBody_branchTokens {flavor : Flavor} {recursive : Bool} {ctes : List γ} {core : κ}
    {setOps : List (SetOp × Select κ γ ω ℓ)} {after : List (Token κ γ ω ℓ)}
    (h : (Query.parseBody flavor recursive ctes
      (.core core :: (branchTokens setOps ++ after))).isSome = true) :
    ∀ p ∈ setOps, p.2.ctes.isEmpty = true := by
  -- the branches are read up to the first such operand, and an operator is left over
  have hstops : ∀ rest : List (SetOp × Select κ γ ω ℓ), (∃ p ∈ rest, ¬ p.2.ctes.isEmpty = true) →
      ∃ branches op tokens,
        Query.parseBranches (branchTokens rest ++ after) = (branches, .setOp op :: tokens) := by
    intro rest
    induction rest with
    | nil => rintro ⟨_, ⟨⟩, _⟩
    | cons p rest ih =>
      rintro ⟨q, hq, hctes⟩
      by_cases hp : p.2.ctes.isEmpty = true
      · rcases List.mem_cons.mp hq with rfl | hq
        · exact absurd hp hctes
        · obtain ⟨branches, op, tokens, hrest⟩ := ih ⟨q, hq, hctes⟩
          refine ⟨(p.1, p.2.core) :: branches, op, tokens, ?_⟩
          rw [branchTokens_cons hp, List.cons_append, List.cons_append, Query.parseBranches, hrest]
      · rw [branchTokens, List.flatMap_cons, withTokens, if_neg hp]
        exact ⟨[], _, _, rfl⟩
  by_contra hnot
  push Not at hnot
  obtain ⟨branches, op, tokens, hrest⟩ := hstops setOps hnot
  rw [Query.parseBody, hrest] at h
  cases h

end Renderer

/-- **What the renderer writes for a query denotes the query exactly when it is flat**: every
operand is a plain `SELECT`, and no set operation binds tighter than one before it. -/
theorem denotes_iff_flat (r : Renderer κ γ ω ℓ) {s : Select κ γ ω ℓ} {text : List (Token κ γ ω ℓ)}
    (h : r.select s = .ok text) : s.Denotes r.flavor text ↔ s.Flat r.flavor := by
  have hcores := Renderer.cores_of_select_ok h
  have hparse : Query.parse r.flavor text =
      Query.parseBody r.flavor (s.recursive && !s.ctes.isEmpty) s.ctes
        (.core s.core :: (Renderer.branchTokens s.setOps ++ r.lastTokens s)) := by
    rw [Renderer.select_ok h, Renderer.withTokens]
    split
    · next hctes =>
      rw [hctes, List.isEmpty_iff.mp hctes, Bool.not_true, Bool.and_false]
      rfl
    · next hctes =>
      rw [Bool.eq_false_iff.mpr hctes, Bool.not_false, Bool.and_true]
      rfl
  have hread : ∀ hctes : ∀ p ∈ s.setOps, p.2.ctes.isEmpty = true,
      Query.parse r.flavor text = some { s.query with
        body := Precedence.parse r.flavor.strength (.core s.core)
          (s.setOps.map fun p => (p.1, .core p.2.core)) } := by
    intro hctes
    rw [hparse, Renderer.parse_lastTokens (Renderer.parseBranches_branchTokens hctes), List.map_map]
    rfl
  have hstrength : (s.setOps.map fun p => r.flavor.strength p.1) =
      (s.setOps.map fun p => (p.1, Branch.core (γ := γ) p.2.core)).map
        fun p => r.flavor.strength p.1 := by
    rw [List.map_map]
    rfl
  have htree : (∀ p ∈ s.setOps, p.2.setOps.isEmpty = true ∧ p.2.ctes.isEmpty = true) →
      s.tree = leftFold (leaf (.core s.core))
        ((s.setOps.map fun p => (p.1, Branch.core p.2.core)).map (Prod.map id leaf)) := by
    intro hflat
    rw [Select.tree_eq, List.map_map]
    refine congrArg _ (List.map_congr_left fun p hp => ?_)
    rw [Select.branch_of_flat (hflat p hp).1 (hflat p hp).2]
    rfl
  constructor
  · rintro ⟨hleaves, hquery⟩
    rw [hcores, Select.cores_eq, List.cons_inj_right] at hleaves
    have hops := Select.setOps_isEmpty_of_cores hleaves
    have hctes : ∀ p ∈ s.setOps, p.2.ctes.isEmpty = true := by
      have hsome := Option.isSome_of_eq_some (hparse.symm.trans hquery)
      exact Renderer.parseBody_branchTokens hsome
    have hflat := fun p hp => And.intro (hops p hp) (hctes p hp)
    refine ⟨hflat, ?_⟩
    rw [hread hctes, Option.some.injEq] at hquery
    rw [hstrength, ← parse_eq_leftFold_iff, ← htree hflat]
    exact congrArg Query.body hquery
  · rintro ⟨hflat, hpairwise⟩
    constructor
    · rw [hcores, Select.cores_eq, Select.flatMap_cores_of_isEmpty fun p hp => (hflat p hp).1]
    · rw [hread fun p hp => (hflat p hp).2]
      rw [hstrength, ← parse_eq_leftFold_iff, ← htree hflat] at hpairwise
      rw [hpairwise]
      rfl

/-- A renderer that refuses none of the pieces. -/
def Renderer.accepting (flavor : Flavor) : Renderer String String String String where
  flavor := flavor
  checkCore _ := .ok ()
  checkCte _ := .ok ()
  checkOrderTerms _ := .ok ()
  checkLock _ := .ok ()
  aggregates _ := false

/-- `SELECT * FROM table`, say. -/
def Select.fromTable (table : String) : Select String String String String where
  ctes := []
  recursive := false
  core := table
  orderTerms := []
  limit := none
  offset := none
  lock := none
  setOps := []

theorem denotes_iff_flat_mixed :
    (((Select.fromTable "a").intersect (.fromTable "b")).union (.fromTable "c")).Denotes .postgres
      [.core "a", .setOp .intersect, .core "b", .setOp .union, .core "c"] :=
  (denotes_iff_flat (.accepting .postgres) rfl).mpr (by decide)

/-- The set operations of an operand are not written. -/
theorem denotes_fails_for_nested : ∃ s text, (Renderer.accepting .sqlite).select s = .ok text ∧
    s = (Select.fromTable "a").union ((Select.fromTable "b").union (.fromTable "c")) ∧
      text = [.core "a", .setOp .union, .core "b"] ∧ ¬ s.Denotes .sqlite text := by
  refine ⟨_, _, rfl, rfl, rfl, fun h => ?_⟩
  exact absurd h.1 (by decide)

/-- An `INTERSECT` after a `UNION` takes the second table of the `UNION` away from it. -/
example : ¬ (((Select.fromTable "a").union (.fromTable "b")).intersect (.fromTable "c")).Flat
    .postgres := by decide

end Moso.Sql
