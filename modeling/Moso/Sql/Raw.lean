import Moso.Foundation.Fallible
import Moso.Foundation.Utf8
import Mathlib.Data.List.Basic

/-!
# Raw fragments

SQL text in which `?` stands for the next bound value and `??` for a question mark. It is read in
three places: where the placeholders are counted, where the query renderer binds the values, and
where a schema change writes them into the text. All of them read the same pieces.
-/

namespace Moso.Sql

variable {ν : Type}

/-! ### What a fragment says -/

/-- The characters of a fragment and, as `none`, its placeholders. -/
def scan : List Char → List (Option Char)
  | [] => []
  | c :: rest =>
    if c = '?' then
      match rest with
      | [] => [none]
      | d :: rest' => if d = '?' then some '?' :: scan rest' else none :: scan (d :: rest')
    else some c :: scan rest

/-- The pieces of a fragment with the values in the places of the placeholders, from left to
right. A placeholder without a value stays. -/
def interleave : List (Option Char) → List ν → List (Char ⊕ ν)
  | [], _ => []
  | some c :: pieces, args => .inl c :: interleave pieces args
  | none :: pieces, arg :: args => .inr arg :: interleave pieces args
  | none :: pieces, [] => .inl '?' :: interleave pieces []

/-- Every value has its place, in their order. -/
lemma filterMap_getRight_interleave {pieces : List (Option Char)} {args : List ν}
    (h : args.length = pieces.count none) :
    (interleave pieces args).filterMap Sum.getRight? = args := by
  induction pieces, args using interleave.induct with
  | case1 args => exact (List.length_eq_zero_iff.mp h).symm
  | case2 c pieces args ih =>
    rw [interleave, List.filterMap_cons_none rfl]
    exact ih (by simpa using h)
  | case3 pieces arg args ih => exact congrArg (arg :: ·) (ih (by simpa using h))
  | case4 pieces => simp at h

/-! ### Counting -/

/-- The byte of a question mark. -/
def questionMark : UInt8 := '?'.toNat.toUInt8

/-- The loop of `RawExpr::placeholder_count`, at what is left of the bytes. -/
def countLoop : List UInt8 → ℕ
  | [] => 0
  | b :: rest =>
    if b = questionMark then
      match rest with
      | [] => 1
      | b' :: rest' => if b' = questionMark then countLoop rest' else countLoop (b' :: rest') + 1
    else countLoop rest

/-- How many placeholders the fragment has. -/
def placeholderCount (fragment : List Char) : ℕ := countLoop (Utf8.bytes fragment)

lemma countLoop_append {bs : List UInt8} (h : questionMark ∉ bs) (rest : List UInt8) :
    countLoop (bs ++ rest) = countLoop rest := by
  induction bs with
  | nil => rfl
  | cons b bs ih =>
    rw [List.mem_cons, not_or] at h
    rw [List.cons_append, countLoop.eq_def]
    simp [Ne.symm h.1, ih h.2]

lemma countLoop_double (rest : List UInt8) :
    countLoop (questionMark :: questionMark :: rest) = countLoop rest := by
  simp [countLoop]

lemma countLoop_single {rest : List UInt8} (h : rest.head? ≠ some questionMark) :
    countLoop (questionMark :: rest) = countLoop rest + 1 := by
  cases rest with
  | nil => rfl
  | cons b rest =>
    have hb : b ≠ questionMark := fun hb => h (congrArg some hb)
    rw [countLoop.eq_def]
    simp [hb]

lemma bytes_questionMark (rest : List Char) :
    Utf8.bytes ('?' :: rest) = questionMark :: Utf8.bytes rest := rfl

lemma questionMark_notMem {c : Char} (h : c ≠ '?') : questionMark ∉ String.utf8EncodeChar c :=
  fun hmem => Utf8.ne_of_mem_utf8EncodeChar h (by decide) hmem rfl

/-- The bytes of a text begin with a question mark if the text does. -/
lemma head?_bytes {c : Char} (h : c ≠ '?') (rest : List Char) :
    (Utf8.bytes (c :: rest)).head? ≠ some questionMark := by
  intro hhead
  refine questionMark_notMem h ?_
  rw [Utf8.bytes_cons, List.head?_append_of_ne_nil _ String.utf8EncodeChar_ne_nil] at hhead
  exact List.mem_of_mem_head? hhead

/-- The placeholders that are counted are those of the fragment. -/
theorem placeholderCount_eq (fragment : List Char) :
    placeholderCount fragment = (scan fragment).count none := by
  unfold placeholderCount
  fun_induction scan fragment with
  | case1 => rfl
  | case2 => rfl
  | case3 rest ih =>
    rw [bytes_questionMark, bytes_questionMark, countLoop_double, ih]
    simp
  | case4 d rest hd ih =>
    rw [bytes_questionMark, countLoop_single (head?_bytes hd rest), ih]
    simp
  | case5 c rest hc ih =>
    rw [Utf8.bytes_cons, countLoop_append (questionMark_notMem hc), ih]
    simp

/-! ### Bound values -/

/-- What rendering a fragment may fail with. -/
inductive RawError where
  | rawArity (fragment : List Char) (expected found : ℕ)
  | unsupported (construct help : String)
  /-- A slice or an index that does not exist: the program stops. -/
  | panicked
  deriving DecidableEq

/-- What the renderer knows of the dialect and of values. -/
structure Binder (ν : Type) where
  placeholder : ℕ → List Char
  isArray : ν → Bool
  arrays : Bool

/-- The text so far, with the values that are bound to it. -/
structure Rendered (ν : Type) where
  out : List Char
  args : List ν

namespace Rendered

def pushStr (text : List Char) (self : Rendered ν) : Rendered ν :=
  { self with out := self.out ++ text }

/-- `Renderer::value`, where values become parameters. -/
def value (binder : Binder ν) (value : ν) (self : Rendered ν) : Except RawError (Rendered ν) :=
  if binder.isArray value && !binder.arrays then
    .error (.unsupported "array parameters"
      "bind the elements one by one with `is_in(..)`, or store the list as JSON text")
  else .ok ⟨self.out ++ binder.placeholder self.args.length, self.args ++ [value]⟩

end Rendered

/-- The loop of `Renderer::raw_fragment`, over the bytes from `index` on. The text up to
`copiedTo` is written. -/
def fragmentLoop (binder : Binder ν) (fragment : List Char) (args : List ν) :
    List UInt8 → ℕ → ℕ → ℕ → Rendered ν → Except RawError (Rendered ν)
  | [], index, copiedTo, _, o =>
    match Utf8.slice? fragment copiedTo index with
    | none => .error .panicked
    | some text => .ok (o.pushStr text)
  | b :: rest, index, copiedTo, nextArg, o =>
    if b ≠ questionMark then fragmentLoop binder fragment args rest (index + 1) copiedTo nextArg o
    else
      match Utf8.slice? fragment copiedTo index with
      | none => .error .panicked
      | some text =>
        match rest with
        | b' :: rest' =>
          if b' = questionMark then
            fragmentLoop binder fragment args rest' (index + 2) (index + 2) nextArg
              ((o.pushStr text).pushStr ['?'])
          else
            match args[nextArg]? with
            | none => .error .panicked
            | some arg => do
              let o ← (o.pushStr text).value binder arg
              fragmentLoop binder fragment args (b' :: rest') (index + 1) (index + 1) (nextArg + 1)
                o
        | [] =>
          match args[nextArg]? with
          | none => .error .panicked
          | some arg => do
            let o ← (o.pushStr text).value binder arg
            fragmentLoop binder fragment args [] (index + 1) (index + 1) (nextArg + 1) o

/-- `Renderer::raw_fragment`. -/
def rawFragment (binder : Binder ν) (fragment : List Char) (args : List ν) (o : Rendered ν) :
    Except RawError (Rendered ν) :=
  if placeholderCount fragment ≠ args.length then
    .error (.rawArity fragment (placeholderCount fragment) args.length)
  else fragmentLoop binder fragment args (Utf8.bytes fragment) 0 0 0 o

/-! ### Values in the text -/

/-- `render_raw`: the fragment with the values as literals. -/
def renderRaw (literal : ν → List Char) : List Char → List ν → List Char
  | [], _ => []
  | ch :: chars, args =>
    if ch ≠ '?' then ch :: renderRaw literal chars args
    else
      match chars with
      | [] =>
        match args with
        | value :: _ => literal value
        | [] => ['?']
      | next :: chars' =>
        if next = '?' then '?' :: renderRaw literal chars' args
        else
          match args with
          | value :: args' => literal value ++ renderRaw literal (next :: chars') args'
          | [] => '?' :: renderRaw literal (next :: chars') []

/-- The text of a piece. -/
def pieceChars (literal : ν → List Char) : Char ⊕ ν → List Char := Sum.elim (fun c => [c]) literal

lemma renderRaw_eq (literal : ν → List Char) (fragment : List Char) (args : List ν) :
    renderRaw literal fragment args =
      (interleave (scan fragment) args).flatMap (pieceChars literal) := by
  fun_induction scan fragment generalizing args with
  | case1 => simp [renderRaw, interleave]
  | case2 => cases args <;> simp [renderRaw, interleave, pieceChars]
  | case3 rest ih => simp [renderRaw, interleave, pieceChars, ih]
  | case4 d rest hd ih => cases args <;> simp [renderRaw, interleave, pieceChars, ih, hd]
  | case5 c rest hc ih =>
    rw [renderRaw.eq_def]
    simp [interleave, pieceChars, ih, hc]


/-- `raw`: text of the planner's as a fragment without values. -/
def raw (sql : List Char) : List Char := sql.flatMap fun c => if c = '?' then ['?', '?'] else [c]

/-! ### The query renderer reads the same pieces -/

/-- The pieces one by one, each character as it is and each value bound. -/
def place (binder : Binder ν) : List (Char ⊕ ν) → Rendered ν → Except RawError (Rendered ν)
  | [], o => .ok o
  | .inl c :: pieces, o => place binder pieces (o.pushStr [c])
  | .inr arg :: pieces, o => o.value binder arg >>= place binder pieces

/-- The text of the pieces, with the placeholders numbered from `n`. -/
def spell (binder : Binder ν) : ℕ → List (Char ⊕ ν) → List Char
  | _, [] => []
  | n, .inl c :: pieces => c :: spell binder n pieces
  | n, .inr _ :: pieces => binder.placeholder n ++ spell binder (n + 1) pieces

variable {binder : Binder ν} {fragment pending rest front : List Char} {args : List ν}
  {index copiedTo nextArg : ℕ} {o o' : Rendered ν} {pieces : List (Char ⊕ ν)}

@[simp] lemma pushStr_nil : o.pushStr [] = o := by
  rw [Rendered.pushStr, List.append_nil]

lemma pushStr_append (s t : List Char) : (o.pushStr s).pushStr t = o.pushStr (s ++ t) := by
  rw [Rendered.pushStr, Rendered.pushStr, Rendered.pushStr, List.append_assoc]

/-- Bytes that are no question mark are passed over. -/
lemma fragmentLoop_skip {bs : List UInt8} (h : questionMark ∉ bs) (more : List UInt8) :
    fragmentLoop binder fragment args (bs ++ more) index copiedTo nextArg o =
      fragmentLoop binder fragment args more (index + bs.length) copiedTo nextArg o := by
  induction bs generalizing index with
  | nil => rfl
  | cons b bs ih =>
    rw [List.mem_cons, not_or] at h
    rw [List.cons_append, fragmentLoop.eq_def]
    simp only [ne_eq, Ne.symm h.1, not_false_eq_true, if_true]
    rw [ih h.2, List.length_cons, Nat.add_right_comm, Nat.add_assoc]

lemma fragmentLoop_double {text : List Char} {more : List UInt8}
    (hslice : Utf8.slice? fragment copiedTo index = some text) :
    fragmentLoop binder fragment args (questionMark :: questionMark :: more) index copiedTo nextArg
        o =
      fragmentLoop binder fragment args more (index + 2) (index + 2) nextArg
        (o.pushStr (text ++ ['?'])) := by
  rw [← pushStr_append, fragmentLoop.eq_def]
  simp [hslice]

lemma fragmentLoop_single {text : List Char} {more : List UInt8} {arg : ν}
    (hhead : more.head? ≠ some questionMark)
    (hslice : Utf8.slice? fragment copiedTo index = some text) (harg : args[nextArg]? = some arg) :
    fragmentLoop binder fragment args (questionMark :: more) index copiedTo nextArg o =
      ((o.pushStr text).value binder arg >>=
        fragmentLoop binder fragment args more (index + 1) (index + 1) (nextArg + 1)) := by
  cases more with
  | nil =>
    rw [fragmentLoop.eq_def]
    simp [hslice, harg]
  | cons b more =>
    have hb : b ≠ questionMark := fun hb => hhead (congrArg some hb)
    rw [fragmentLoop.eq_def]
    simp [hslice, harg, hb]

lemma fragmentLoop_nil {text : List Char}
    (hslice : Utf8.slice? fragment copiedTo index = some text) :
    fragmentLoop binder fragment args [] index copiedTo nextArg o = .ok (o.pushStr text) := by
  rw [fragmentLoop, hslice]

/-- A placeholder takes the next value, where the loop goes on rightly after it. -/
lemma fragmentLoop_placeholder {pieces : List (Option Char)}
    (hslice : Utf8.slice? fragment copiedTo index = some pending)
    (hhead : (Utf8.bytes rest).head? ≠ some questionMark)
    (hcount : (args.drop nextArg).length = (none :: pieces).count none)
    (hrest : ∀ o, (args.drop (nextArg + 1)).length = pieces.count none →
      fragmentLoop binder fragment args (Utf8.bytes rest) (index + 1) (index + 1) (nextArg + 1) o =
        place binder (interleave pieces (args.drop (nextArg + 1))) o) :
    fragmentLoop binder fragment args (Utf8.bytes ('?' :: rest)) index copiedTo nextArg o =
      place binder (interleave (none :: pieces) (args.drop nextArg)) (o.pushStr pending) := by
  obtain ⟨arg, later, hdrop⟩ : ∃ arg later, args.drop nextArg = arg :: later :=
    List.exists_cons_of_length_pos (by rw [hcount]; simp)
  have harg : args[nextArg]? = some arg := by
    rw [← Nat.add_zero nextArg, ← List.getElem?_drop, hdrop]
    rfl
  have hlater : args.drop (nextArg + 1) = later := by
    rw [← List.tail_drop, hdrop]
    rfl
  rw [hlater] at hrest
  rw [bytes_questionMark, fragmentLoop_single hhead hslice harg, hdrop, interleave, place]
  refine congrArg _ (funext fun o' => hrest o' ?_)
  rw [hdrop] at hcount
  simpa using hcount

/-- The loop writes what is pending, and then the pieces of what is left. No slice is off a
boundary between characters, and no index is past the values. -/
theorem fragmentLoop_eq (hfragment : fragment = front ++ (pending ++ rest))
    (hcount : (args.drop nextArg).length = (scan rest).count none) :
    fragmentLoop binder fragment args (Utf8.bytes rest) (Utf8.size (front ++ pending))
        (Utf8.size front) nextArg o =
      place binder (interleave (scan rest) (args.drop nextArg)) (o.pushStr pending) := by
  have hslice : ∀ front pending rest : List Char, fragment = front ++ (pending ++ rest) →
      Utf8.slice? fragment (Utf8.size front) (Utf8.size (front ++ pending)) = some pending :=
    fun _ _ _ h => h ▸ Utf8.slice?_append
  have hone : ∀ text : List Char, Utf8.size (text ++ ['?']) = Utf8.size text + 1 := fun _ =>
    Utf8.size_append
  have htwo : ∀ text : List Char, Utf8.size (text ++ ['?', '?']) = Utf8.size text + 2 := fun _ =>
    Utf8.size_append
  fun_induction scan rest generalizing front pending nextArg o with
  | case1 => rw [Utf8.bytes_nil, fragmentLoop_nil (hslice _ _ _ hfragment), interleave, place]
  | case2 =>
    refine fragmentLoop_placeholder (hslice _ _ _ hfragment) (by simp) hcount fun o' _ => ?_
    have hend := hslice fragment [] [] (by simp)
    rw [List.append_nil] at hend
    rw [← hone, List.append_assoc, ← hfragment, Utf8.bytes_nil, fragmentLoop_nil hend, pushStr_nil,
      interleave, place]
  | case3 rest ih =>
    have hrest := @ih [] (front ++ pending ++ ['?', '?']) nextArg
      (o.pushStr (pending ++ ['?'])) (by simp [hfragment]) (by simpa using hcount)
    rw [List.append_nil, htwo, pushStr_nil, ← pushStr_append] at hrest
    rw [bytes_questionMark, bytes_questionMark, fragmentLoop_double (hslice _ _ _ hfragment),
      ← pushStr_append, hrest, interleave, place]
  | case4 d rest hd ih =>
    refine fragmentLoop_placeholder (hslice _ _ _ hfragment) (head?_bytes hd rest) hcount
      fun o' hcount' => ?_
    have hrest := @ih [] (front ++ pending ++ ['?']) _ o'
      (by simp [hfragment]) hcount'
    rw [List.append_nil, hone, pushStr_nil] at hrest
    exact hrest
  | case5 c rest hc ih =>
    have hrest := @ih (pending ++ [c]) front nextArg o
      (by simp [hfragment]) (by simpa using hcount)
    rw [← List.append_assoc, Utf8.size_append, ← pushStr_append] at hrest
    rw [Utf8.bytes_cons, fragmentLoop_skip (questionMark_notMem hc), interleave, place]
    simpa [Utf8.size] using hrest

lemma value_eq_ok {arg : ν} : o.value binder arg = .ok o' ↔
    (binder.isArray arg = true → binder.arrays = true) ∧
      o' = ⟨o.out ++ binder.placeholder o.args.length, o.args ++ [arg]⟩ := by
  rw [Rendered.value]
  by_cases hrefused : (binder.isArray arg && !binder.arrays) = true
  · rw [if_pos hrefused]
    rw [Bool.and_eq_true, Bool.not_eq_true'] at hrefused
    simp [hrefused]
  · rw [if_neg hrefused, Except.ok.injEq, eq_comm, and_iff_right]
    simpa using hrefused

/-- Placing succeeds when every value can be bound, and then writes the text and binds the values
in order. -/
lemma place_eq_ok : place binder pieces o = .ok o' ↔
    (∀ arg ∈ pieces.filterMap Sum.getRight?, binder.isArray arg = true → binder.arrays = true) ∧
      o' = ⟨o.out ++ spell binder o.args.length pieces,
        o.args ++ pieces.filterMap Sum.getRight?⟩ := by
  induction pieces generalizing o with
  | nil =>
    rw [place, Except.ok.injEq, spell, List.filterMap_nil, List.append_nil, List.append_nil,
      eq_comm]
    exact (and_iff_right fun _ h => absurd h List.not_mem_nil).symm
  | cons piece pieces ih =>
    cases piece with
    | inl c =>
      rw [place, ih, spell, List.filterMap_cons_none rfl]
      simp [Rendered.pushStr]
    | inr arg =>
      rw [place, List.filterMap_cons_some (by rfl), List.forall_mem_cons, spell, and_assoc,
        Fallible.bind_eq_ok]
      constructor
      · rintro ⟨o₁, hvalue, hplace⟩
        obtain ⟨harg, rfl⟩ := value_eq_ok.1 hvalue
        obtain ⟨hrest, rfl⟩ := ih.1 hplace
        exact ⟨harg, hrest, by simp⟩
      · rintro ⟨harg, hrest, rfl⟩
        refine ⟨_, value_eq_ok.2 ⟨harg, rfl⟩, ih.2 ⟨hrest, ?_⟩⟩
        simp

lemma place_ne_panicked : place binder pieces o ≠ .error .panicked := by
  induction pieces generalizing o with
  | nil =>
    intro h
    cases h
  | cons piece pieces ih =>
    cases piece with
    | inl c => exact ih
    | inr arg =>
      rw [place, Rendered.value]
      split_ifs with hrefused
      · intro h
        cases h
      · exact ih

lemma rawFragment_eq_place (hcount : placeholderCount fragment = args.length) :
    rawFragment binder fragment args o = place binder (interleave (scan fragment) args) o := by
  have hall : (args.drop 0).length = (scan fragment).count none := by
    rw [List.drop_zero, ← placeholderCount_eq, hcount]
  have hloop : fragmentLoop binder fragment args (Utf8.bytes fragment) 0 0 0 o =
      place binder (interleave (scan fragment) args) (o.pushStr []) :=
    @fragmentLoop_eq _ binder fragment [] fragment [] args 0 o rfl hall
  rw [pushStr_nil] at hloop
  rw [rawFragment, if_neg (not_not.mpr hcount)]
  exact hloop

/-- The readers agree on every fragment. The query renderer takes a fragment when the values are as
many as were counted and the dialect can bind each; it then binds them in order, in placeholders
that are numbered on from those before, and writes the rest of the text as it is. A schema change
writes the same pieces. No slice and no index is wrong. -/
theorem raw_readers_agree (binder : Binder ν) (literal : ν → List Char) (fragment : List Char)
    (args : List ν) (o o' : Rendered ν) :
    (rawFragment binder fragment args o = .ok o' ↔
      placeholderCount fragment = args.length ∧
      (∀ arg ∈ args, binder.isArray arg = true → binder.arrays = true) ∧
      o' = ⟨o.out ++ spell binder o.args.length (interleave (scan fragment) args),
        o.args ++ args⟩) ∧
    renderRaw literal fragment args =
      (interleave (scan fragment) args).flatMap (pieceChars literal) ∧
    placeholderCount fragment = (scan fragment).count none ∧
    rawFragment binder fragment args o ≠ .error .panicked := by
  by_cases hcount : placeholderCount fragment = args.length
  · rw [rawFragment_eq_place hcount, place_eq_ok,
      filterMap_getRight_interleave (by rw [← placeholderCount_eq, hcount])]
    exact ⟨(and_iff_right hcount).symm, renderRaw_eq literal fragment args,
      placeholderCount_eq fragment, place_ne_panicked⟩
  · rw [rawFragment, if_pos hcount]
    refine ⟨by simp [hcount], renderRaw_eq literal fragment args, placeholderCount_eq fragment,
      fun h => ?_⟩
    cases h

/-- What the planner escapes is text without placeholders. -/
lemma scan_raw (sql : List Char) : scan (raw sql) = sql.map some := by
  induction sql with
  | nil => rfl
  | cons c sql ih =>
    by_cases hc : c = '?'
    · subst hc
      change some '?' :: scan (raw sql) = _
      rw [ih, List.map_cons]
    · have hcons : raw (c :: sql) = c :: raw sql := by simp [raw, hc]
      rw [hcons, List.map_cons, ← ih, scan.eq_def]
      simp [hc]

lemma interleave_map_some (sql : List Char) :
    interleave (sql.map some) ([] : List ν) = sql.map .inl := by
  induction sql with
  | nil => rfl
  | cons c sql ih => exact congrArg (_ :: ·) ih

lemma spell_map_inl (n : ℕ) (sql : List Char) : spell binder n (sql.map .inl) = sql := by
  induction sql with
  | nil => rfl
  | cons c sql ih => exact congrArg (c :: ·) ih

/-- What the planner escapes is read back as it was, by all readers: it has no placeholder. -/
theorem raw_read_back (binder : Binder ν) (literal : ν → List Char) (sql : List Char)
    (o : Rendered ν) : placeholderCount (raw sql) = 0 ∧ renderRaw literal (raw sql) [] = sql ∧
      rawFragment binder (raw sql) [] o = .ok (o.pushStr sql) := by
  have hcount : placeholderCount (raw sql) = 0 := by
    rw [placeholderCount_eq, scan_raw, List.count_eq_zero]
    simp
  have hnone : (sql.map .inl).filterMap (Sum.getRight? : Char ⊕ ν → Option ν) = [] := by
    rw [List.filterMap_map]
    exact List.filterMap_eq_nil_iff.mpr fun _ _ => rfl
  refine ⟨hcount, ?_, ?_⟩
  · rw [renderRaw_eq, scan_raw, interleave_map_some, List.flatMap_map]
    exact List.flatMap_singleton' sql
  · rw [rawFragment_eq_place hcount, scan_raw, interleave_map_some, place_eq_ok, hnone,
      spell_map_inl, List.append_nil]
    exact ⟨fun _ h => absurd h List.not_mem_nil, rfl⟩

end Moso.Sql
