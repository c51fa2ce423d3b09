import Moso.Foundation.Json

/-!
# Obligations on a response body

What a decision requires of the body that is sent: a field removed, or a field masked but for its
last characters. The obligations are applied one after the other, each to what the ones before
have left.
-/

namespace Moso.Authz

/-- A side effect that a decision requires of whoever acts on it. -/
inductive Obligation where
  | redact (pointer : List Char)
  | mask (pointer : List Char) (keep : ℕ)
  /-- Something that the application interprets. -/
  | custom (key : List Char) (value : Json)

/-- All but the last `keep` characters, replaced. -/
def maskText (keep : ℕ) (text : List Char) : List Char :=
  let hidden := text.length - keep
  List.replicate hidden '•' ++ text.drop hidden

/-- The masked rendering of a value; a string is its own. -/
def maskValue (keep : ℕ) : Json → List Char
  | .string text => maskText keep text
  | other        => maskText keep other.render

/-- Remove the value under a key, or at an index that there is. -/
def removeChild (key : List Char) : Json → Json
  | .object entries => .object (entries.filter fun e => e.1 ≠ key)
  | .array items =>
    match Decimal.parse Json.usizeMax key with
    | some i => .array (items.eraseIdx i)
    | none => .array items
  | v => v

/-- Remove whatever a pointer addresses, if anything. -/
def removeAt (pointer : List Char) (body : Json) : Json :=
  match Json.rsplitOnce '/' pointer with
  | none => body
  | some (parent, last) =>
    let key := Json.unescapeToken last
    if parent = [] then removeChild key body else Json.modifyAt parent (removeChild key) body

def Obligation.apply : Obligation → Json → Json
  | .redact pointer, body    => removeAt pointer body
  | .mask pointer keep, body => Json.modifyAt pointer (fun v => .string (maskValue keep v)) body
  | .custom .., body         => body

/-- A decision, as far as the body is concerned. -/
structure Decision where
  allowed : Bool
  obligations : List Obligation

def Decision.applyObligations (self : Decision) (body : Json) : Json :=
  self.obligations.foldl (fun body obligation => obligation.apply body) body

/-! ### What the obligations address -/

inductive Action where
  | redact
  | mask (keep : ℕ)
  deriving DecidableEq

/-- What is to be done to the value that these tokens lead to. -/
structure Target where
  path : List (List Char)
  action : Action
  deriving DecidableEq

/-- What an obligation is about; nothing, when its pointer is none or the application interprets
it. -/
def Obligation.target : Obligation → Option Target
  | .redact pointer    => (Json.tokens pointer).map (⟨·, .redact⟩)
  | .mask pointer keep => (Json.tokens pointer).map (⟨·, .mask keep⟩)
  | .custom ..         => none

/-- What carrying out a target does to a body. -/
def Target.perform (t : Target) (body : Json) : Json :=
  match t.action with
  | .mask keep => Json.modify (fun v => .string (maskValue keep v)) t.path body
  | .redact => match t.path.getLast? with
    | none => body
    | some key => Json.modify (removeChild key) t.path.dropLast body

@[simp] lemma length_maskText {k : ℕ} {text : List Char} :
    (maskText k text).length = text.length := by
  simp only [maskText, List.length_append, List.length_replicate, List.length_drop]
  omega

/-- Masking twice keeps what both keep. -/
lemma maskText_maskText {j k : ℕ} {text : List Char} :
    maskText j (maskText k text) = maskText (min j k) text := by
  have hmin : text.length - min j k = max (text.length - j) (text.length - k) := by omega
  rw [maskText, length_maskText, maskText, maskText, hmin, List.drop_append, List.drop_replicate,
    List.length_replicate, List.drop_drop, ← List.append_assoc, List.replicate_append_replicate]
  congr 2 <;> omega

lemma maskValue_maskValue {j k : ℕ} {v : Json} :
    maskValue j (.string (maskValue k v)) = maskValue (min j k) v := by
  cases v <;> exact maskText_maskText

/-- An obligation carries out its target. -/
lemma Obligation.apply_eq {o : Obligation} {body : Json} :
    o.apply body = match o.target with
      | some t => t.perform body
      | none => body := by
  cases o with
  | custom key value => rfl
  | mask pointer keep =>
    rw [apply, target, Json.modifyAt]
    cases Json.tokens pointer <;> rfl
  | redact pointer =>
    rw [apply, target, removeAt]
    cases hsplit : Json.rsplitOnce '/' pointer with
    | none =>
      rw [Json.tokens_of_rsplitOnce_none hsplit]
      by_cases hp : pointer = []
      · rw [if_pos hp]
        rfl
      · rw [if_neg hp]
        rfl
    | some pair =>
      obtain ⟨parent, last⟩ := pair
      rw [Json.tokens_of_rsplitOnce hsplit]
      cases hparent : Json.tokens parent with
      | none =>
        have hne : parent ≠ [] := by
          rintro rfl
          cases hparent
        simp only [if_neg hne, Json.modifyAt, hparent, Option.map_none]
      | some path =>
        simp only [Option.map_some, Target.perform, List.getLast?_concat, List.dropLast_concat,
          Json.modifyAt, hparent]
        split
        · next hnil =>
          subst hnil
          obtain rfl := Option.some.inj hparent
          rfl
        · rfl

end Moso.Authz

/-!
## The body as it is to be sent

What a list of obligations asks for, read off the body that they were written for: the tokens of
each lead to a place in it, and what becomes of that place does not depend on the others. This is
compared with applying them one after the other.
-/

namespace Moso.Authz

/-- What is to be done below the values that a token leads to. -/
def Target.below (leads : List Char → Bool) (t : Target) : Option Target :=
  match t.path with
  | [] => none
  | token :: rest => if leads token then some ⟨rest, t.action⟩ else none

def targetsAt (leads : List Char → Bool) (ts : List Target) : List Target :=
  ts.filterMap (Target.below leads)

def isKey (key token : List Char) : Bool := token = key

def isIndex (i : ℕ) (token : List Char) : Bool := Json.parseIndex token = some i

/-- The value is to be removed. -/
def removes (ts : List Target) : Bool := ts.any fun t => t = ⟨[], .redact⟩

/-- How many characters of the value are to be kept, if it is to be masked. -/
def keeps : List Target → Option ℕ
  | [] => none
  | t :: ts => match t.path, t.action with
    | [], .mask keep => some ((keeps ts).elim keep (min keep))
    | _, _ => keeps ts

def maskTo (keep : Option ℕ) (v : Json) : Json :=
  match keep with
  | none => v
  | some keep => .string (maskValue keep v)

mutual

/-- The value with everything below it as it is to be sent, and masked itself if it is to be. -/
def conceal (ts : List Target) : Json → Json
  | .array items => maskTo (keeps ts) (.array (concealItems ts 0 items))
  | .object entries => maskTo (keeps ts) (.object (concealEntries ts entries))
  | .null => maskTo (keeps ts) .null
  | .bool value => maskTo (keeps ts) (.bool value)
  | .number text => maskTo (keeps ts) (.number text)
  | .string text => maskTo (keeps ts) (.string text)

def concealItems (ts : List Target) (i : ℕ) : List Json → List Json
  | [] => []
  | v :: vs =>
    let here := targetsAt (isIndex i) ts
    if removes here then concealItems ts (i + 1) vs
    else conceal here v :: concealItems ts (i + 1) vs

def concealEntries (ts : List Target) : List (List Char × Json) → List (List Char × Json)
  | [] => []
  | (key, v) :: es =>
    let here := targetsAt (isKey key) ts
    if removes here then concealEntries ts es
    else (key, conceal here v) :: concealEntries ts es

end

/-- The body as the obligations ask for it; of a body that is to be removed, nothing is left. -/
def concealed (obligations : List Obligation) (body : Json) : Json :=
  let ts := obligations.filterMap Obligation.target
  if removes ts then .null else conceal ts body

/-! ### The order is immaterial -/

section

variable {ts ts' : List Target} {leads : List Char → Bool}

lemma targetsAt_perm (h : ts.Perm ts') : (targetsAt leads ts).Perm (targetsAt leads ts') :=
  h.filterMap _

lemma removes_perm (h : ts.Perm ts') : removes ts = removes ts' := h.any_eq

lemma keeps_perm (h : ts.Perm ts') : keeps ts = keeps ts' := by
  induction h with
  | nil => rfl
  | cons t _ ih => rw [keeps, keeps, ih]
  | swap t t' ts =>
    obtain ⟨path, action⟩ := t
    obtain ⟨path', action'⟩ := t'
    cases path <;> cases path' <;> cases action <;> cases action' <;>
      cases hk : keeps ts <;> simp [keeps, hk, min_comm, min_left_comm]
  | trans _ _ ih ih' => exact ih.trans ih'

mutual

theorem conceal_perm {ts ts' : List Target} (h : ts.Perm ts') (v : Json) : conceal ts v = conceal ts' v := by
  cases v with
  | array items => rw [conceal, conceal, keeps_perm h, concealItems_perm h 0 items]
  | object entries => rw [conceal, conceal, keeps_perm h, concealEntries_perm h entries]
  | _ => rw [conceal, conceal, keeps_perm h]

theorem concealItems_perm {ts ts' : List Target} (h : ts.Perm ts') (i : ℕ) (items : List Json) :
    concealItems ts i items = concealItems ts' i items := by
  cases items with
  | nil => rfl
  | cons v vs =>
    rw [concealItems, concealItems, removes_perm (targetsAt_perm h),
      conceal_perm (targetsAt_perm h) v, concealItems_perm h (i + 1) vs]

theorem concealEntries_perm {ts ts' : List Target} (h : ts.Perm ts') (entries : List (List Char × Json)) :
    concealEntries ts entries = concealEntries ts' entries := by
  cases entries with
  | nil => rfl
  | cons e es =>
    rw [concealEntries, concealEntries, removes_perm (targetsAt_perm h),
      conceal_perm (targetsAt_perm h) e.2, concealEntries_perm h es]

end

end

end Moso.Authz
