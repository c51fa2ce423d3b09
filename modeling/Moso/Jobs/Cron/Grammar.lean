import Moso.Jobs.Cron
import Mathlib.Data.Set.Defs

/-!
# The grammar of a cron field

A field is a comma-separated list of items: `*`, a value or a range of them, each with an optional
step. Every text of the grammar is accepted exactly when its numbers are in the range of the field,
and then the mask holds the values of its items, but for a value with an explicit step of one.
-/

namespace Moso.Jobs.Cron

open Decimal (isWhitespace trim trim_of_forall)
open Json (split_append split_of_notMem)
open Text (splitOnce_append splitOnce_eq_none)

/-! ### Texts -/

/-- A number or a name, and its value. -/
inductive Reads (names : List (String × ℕ)) : List Char → ℕ → Prop
  | number {text : List Char} (hne : text ≠ []) (hdigit : ∀ c ∈ text, c.isDigit = true) :
    Reads names text (Nat.ofDigitChars 10 text 0)
  | name {text : List Char} {name : String} {value : ℕ} (hmem : (name, value) ∈ names)
    (htext : toAsciiLowercase text = name.toList) : Reads names text value

inductive Range where
  | star
  | single (value : ℕ)
  | span (first last : ℕ)
  deriving DecidableEq

structure Item where
  range : Range
  step : Option ℕ
  deriving DecidableEq

inductive Range.Spells (names : List (String × ℕ)) : List Char → Range → Prop
  | star : Spells names ['*'] .star
  | single {text : List Char} {value : ℕ} (h : Reads names text value) :
    Spells names text (.single value)
  | span {lo hi : List Char} {first last : ℕ} (hlo : Reads names lo first)
    (hhi : Reads names hi last) : Spells names (lo ++ '-' :: hi) (.span first last)

inductive Item.Spells (names : List (String × ℕ)) : List Char → Item → Prop
  | bare {text : List Char} {range : Range} (h : range.Spells names text) :
    Spells names text ⟨range, none⟩
  | stepped {text digits : List Char} {range : Range} (h : range.Spells names text)
    (hne : digits ≠ []) (hdigit : ∀ c ∈ digits, c.isDigit = true) :
    Spells names (text ++ '/' :: digits) ⟨range, some (Nat.ofDigitChars 10 digits 0)⟩

inductive Spelled (names : List (String × ℕ)) : List Char → List Item → Prop
  | one {text : List Char} {item : Item} (h : item.Spells names text) : Spelled names text [item]
  | cons {text rest : List Char} {item : Item} {items : List Item} (h : item.Spells names text)
    (hrest : Spelled names rest items) : Spelled names (text ++ ',' :: rest) (item :: items)

/-! ### Meanings -/

namespace Range

def numbers : Range → List ℕ
  | star            => []
  | single value    => [value]
  | span first last => [first, last]

def first (min : ℕ) : Range → ℕ
  | star         => min
  | single value => value
  | span first _ => first

/-- With or without a step of its own, a value goes on to the end or stands alone. -/
def last (max : ℕ) (goesOn : Bool) : Range → ℕ
  | star         => max
  | single value => if goesOn then max else value
  | span _ last  => last

end Range

namespace Item

variable (min max : ℕ) (item : Item)

/-- The numbers are in range and in order, and the step is one that is allowed. -/
structure Accepted : Prop where
  inRange : ∀ n ∈ item.range.numbers, min ≤ n ∧ n ≤ max
  inOrder : ∀ first last, item.range = .span first last → first ≤ last
  step : ∀ s, item.step = some s → 1 ≤ s ∧ s ≤ 255

/-- What an item stands for. -/
def values : Set ℕ :=
  {i | ∃ k, i = item.range.first min + k * item.step.getD 1 ∧
    i ≤ item.range.last max item.step.isSome}

/-- What is marked for it. -/
def marked : Set ℕ :=
  {i | ∃ k, i = item.range.first min + k * item.step.getD 1 ∧
    i ≤ item.range.last max (1 < item.step.getD 1)}

end Item

/-- The fields that an expression has. -/
structure Field.Used (field : Field) : Prop where
  names : field.names ∈ [[], months, weekdays]
  min_le_max : field.min ≤ field.max
  max_lt : field.max < 64

/-- A field means what the items of its text do. -/
structure Field.Denotes (field : Field) (text : List Char) (items : List Item) : Prop where
  accepts : (∃ mask, field.parseField text = .ok mask) ↔
    ∀ item ∈ items, item.Accepted field.min field.max
  denotes : ∀ mask, field.parseField text = .ok mask → ∀ i,
    mask.testBit i = true ↔ ∃ item ∈ items, i ∈ item.values field.min field.max

/-- If the field is accepted, what comes after a value with an explicit step of one is in another
item as well. -/
def Covered (field : Field) (items : List Item) : Prop :=
  (∀ item ∈ items, item.Accepted field.min field.max) →
    ∀ value, ⟨.single value, some 1⟩ ∈ items → ∀ i, value < i → i ≤ field.max →
      ∃ item ∈ items, i ∈ item.values field.min field.max ∧
        ∀ other, item = ⟨.single other, some 1⟩ → i = other

/-- The days of the week of an expression are those of its last field, with 7 for 0. -/
def KeepsWeekdays : Prop :=
  ∀ text expr, Expression.parse text = .ok expr →
    ∃ minute hour day month weekday mask,
      splitWhitespace (expand (trim text)) = [minute, hour, day, month, weekday] ∧
      (Field.mk (trim text) "day-of-week" 0 7 weekdays).parseField weekday = .ok mask ∧
      ∀ i, expr.weekdays.testBit i = true ↔
        i < 7 ∧ mask.testBit i = true ∨ i = 0 ∧ mask.testBit 7 = true

/-! ### The characters of the grammar -/

/-- No white space and no separator. -/
def Plain (text : List Char) : Prop := ∀ c ∈ text, 48 ≤ c.toNat ∧ c.toNat ≤ 122

variable {names : List (String × ℕ)} {text rest : List Char} {value i : ℕ} {item : Item}
  {items : List Item} {range : Range} {field : Field}

lemma toLower_of_not_upper {c : Char} (h : c.toNat < 65 ∨ 90 < c.toNat) : c.toLower = c := by
  unfold Char.toLower
  refine dif_neg fun hupper => ?_
  have hle : 65 ≤ c.toNat ∧ c.toNat ≤ 90 :=
    ⟨UInt32.le_iff_toNat_le.mp hupper.1, UInt32.le_iff_toNat_le.mp hupper.2⟩
  omega

lemma lowercase_of_mem (hnames : names ∈ [[], months, weekdays]) {name : String}
    (hmem : (name, value) ∈ names) : name ≠ "" ∧ ∀ c ∈ name.toList, 97 ≤ c.toNat ∧ c.toNat ≤ 122 := by
  have hall : ∀ names ∈ [[], months, weekdays], ∀ entry ∈ names, entry.1 ≠ "" ∧
      (entry.1.toList.all fun c => 97 ≤ c.toNat ∧ c.toNat ≤ 122) = true := by decide
  obtain ⟨hne, hletters⟩ := hall names hnames (name, value) hmem
  exact ⟨hne, fun c hc => of_decide_eq_true (List.all_eq_true.mp hletters c hc)⟩

/-- A letter before it is lowered is still one. -/
lemma plain_of_lowercase {cs : List Char} (htext : toAsciiLowercase text = cs)
    (h : ∀ c ∈ cs, 97 ≤ c.toNat ∧ c.toNat ≤ 122) : ∀ c ∈ text, 65 ≤ c.toNat ∧ c.toNat ≤ 122 := by
  intro c hc
  have hlower := h c.toLower (htext ▸ List.mem_map_of_mem hc)
  by_cases hupper : c.toNat < 65 ∨ 90 < c.toNat
  · rw [toLower_of_not_upper hupper] at hlower
    omega
  · omega

lemma plain_of_isDigit (h : ∀ c ∈ text, c.isDigit = true) : Plain text := by
  intro c hc
  have := Decimal.toNat_of_isDigit (h c hc)
  omega

lemma Reads.plain (hnames : names ∈ [[], months, weekdays]) (h : Reads names text value) :
    text ≠ [] ∧ Plain text := by
  cases h with
  | number hne hdigit => exact ⟨hne, plain_of_isDigit hdigit⟩
  | name hmem htext =>
    obtain ⟨hne, hlower⟩ := lowercase_of_mem hnames hmem
    refine ⟨?_, fun c hc => ?_⟩
    · rintro rfl
      exact hne (String.toList_eq_nil_iff.mp htext.symm)
    · have := plain_of_lowercase htext hlower c hc
      omega

lemma Plain.notMem (h : Plain text) {c : Char} (hc : c.toNat < 48) : c ∉ text := by
  intro hmem
  have := h c hmem
  omega

lemma isWhitespace_of_le {c : Char} (h : 33 ≤ c.toNat ∧ c.toNat ≤ 122) : isWhitespace c = false := by
  simp only [isWhitespace, Bool.or_eq_false_iff, Bool.and_eq_false_iff, decide_eq_false_iff_not]
  omega

/-! ### Numbers and names -/

lemma parse_digits (hne : text ≠ []) (hdigit : ∀ c ∈ text, c.isDigit = true) :
    Decimal.parse 255 text = if Nat.ofDigitChars 10 text 0 ≤ 255 then
      some (Nat.ofDigitChars 10 text 0) else none := by
  have hall : text.all Char.isDigit = true := List.all_eq_true.mpr hdigit
  rw [Decimal.parse_of_isDigit hdigit, Decimal.parseDigits]
  simp only [ne_eq, hne, not_false_eq_true, hall, true_and]

/-- A name begins with a letter. -/
lemma parse_letters (hne : text ≠ []) (hletter : ∀ c ∈ text, 65 ≤ c.toNat ∧ c.toNat ≤ 122) :
    Decimal.parse 255 text = none := by
  obtain ⟨c, cs, rfl⟩ := List.exists_cons_of_ne_nil hne
  have hc := hletter c List.mem_cons_self
  have hdigit : c.isDigit = false := by
    by_contra hdigit
    have := Decimal.toNat_of_isDigit (by simpa using hdigit)
    omega
  have hplus : c ≠ '+' := by
    rintro rfl
    exact absurd hc (by decide)
  unfold Decimal.parse
  split
  · next heq => exact absurd (List.cons.inj heq).1 hplus
  · simp [Decimal.parseDigits, hdigit]

/-- A number is read if it is a byte; the names all are. -/
lemma Reads.valueOf_eq (hnames : names ∈ [[], months, weekdays]) (h : Reads names text value) :
    valueOf text names = if value ≤ 255 then some value else none := by
  have htrim : trim text = text := by
    refine trim_of_forall fun c hc => isWhitespace_of_le ?_
    have := (h.plain hnames).2 c hc
    omega
  unfold valueOf
  rw [htrim]
  cases h with
  | number hne hdigit =>
    rw [parse_digits hne hdigit]
    split_ifs
    · rfl
    · have hfind : ∀ entry ∈ names, ¬entry.1.toList = toAsciiLowercase text := by
        rintro ⟨name, value⟩ hmem heq
        obtain ⟨c, cs, rfl⟩ := List.exists_cons_of_ne_nil hne
        have hlower := plain_of_lowercase heq.symm (lowercase_of_mem hnames hmem).2 c
          List.mem_cons_self
        have := Decimal.toNat_of_isDigit (hdigit c List.mem_cons_self)
        omega
      simpa using fun name value hmem => hfind (name, value) hmem
  | name hmem htext =>
    rename_i word
    have hletters := plain_of_lowercase htext (lowercase_of_mem hnames hmem).2
    have hne := (Reads.name hmem htext).plain hnames |>.1
    have hall : ∀ names ∈ [[], months, weekdays], ∀ entry ∈ names, entry.2 ≤ 255 ∧
        (names.find? fun other => other.1.toList = entry.1.toList) = some entry := by decide
    obtain ⟨hle, hfind⟩ := hall names hnames (word, value) hmem
    rw [parse_letters hne hletters, htext, hfind, if_pos hle]
    rfl

/-! ### Separators -/

/-- The characters of an item, other than its separators. -/
lemma Range.Spells.chars (hnames : names ∈ [[], months, weekdays]) (h : range.Spells names text) :
    text ≠ [] ∧ ∀ c ∈ text, c = '*' ∨ c = '-' ∨ 48 ≤ c.toNat ∧ c.toNat ≤ 122 := by
  cases h with
  | star => exact ⟨by decide, fun c hc => .inl (List.mem_singleton.mp hc)⟩
  | single h =>
    obtain ⟨hne, hplain⟩ := h.plain hnames
    exact ⟨hne, fun c hc => .inr (.inr (hplain c hc))⟩
  | span hlo hhi =>
    refine ⟨by simp, fun c hc => ?_⟩
    rcases List.mem_append.mp hc with hc | hc
    · exact .inr (.inr ((hlo.plain hnames).2 c hc))
    · rcases List.mem_cons.mp hc with rfl | hc
      · exact .inr (.inl rfl)
      · exact .inr (.inr ((hhi.plain hnames).2 c hc))

lemma Range.Spells.notMem (hnames : names ∈ [[], months, weekdays]) (h : range.Spells names text)
    {c : Char} (hc : c = '/' ∨ c = ',') : c ∉ text := by
  intro hmem
  rcases (h.chars hnames).2 c hmem with rfl | rfl | hle
  · exact absurd hc (by decide)
  · exact absurd hc (by decide)
  · rcases hc with rfl | rfl <;> exact absurd hle (by decide)

lemma Item.Spells.chars (hnames : names ∈ [[], months, weekdays]) (h : item.Spells names text) :
    text ≠ [] ∧ ',' ∉ text ∧ trim text = text := by
  have hrange : ∀ {text : List Char} {range : Range}, range.Spells names text →
      ∀ c ∈ text, isWhitespace c = false := by
    intro text range h c hc
    rcases (h.chars hnames).2 c hc with rfl | rfl | hle
    · rfl
    · rfl
    · exact isWhitespace_of_le ⟨by omega, hle.2⟩
  cases h with
  | bare h => exact ⟨(h.chars hnames).1, h.notMem hnames (.inr rfl), trim_of_forall (hrange h)⟩
  | stepped h hne hdigit =>
    refine ⟨by simp, fun hmem => ?_, trim_of_forall fun c hc => ?_⟩
    · rcases List.mem_append.mp hmem with hmem | hmem
      · exact h.notMem hnames (.inr rfl) hmem
      · rcases List.mem_cons.mp hmem with heq | hmem
        · exact absurd heq (by decide)
        · exact (plain_of_isDigit hdigit).notMem (by decide) hmem
    · rcases List.mem_append.mp hc with hc | hc
      · exact hrange h c hc
      · rcases List.mem_cons.mp hc with rfl | hc
        · rfl
        · exact Decimal.isWhitespace_of_isDigit (hdigit c hc)

/-! ### One item -/

/-- What the code reads of a range: its bounds, if each number is a byte. -/
lemma boundsOf_eq (hfield : field.Used) (h : range.Spells field.names text) (part : List Char)
    (step : ℕ) : field.boundsOf part text step =
      if ∀ n ∈ range.numbers, n ≤ 255 then
        .ok (range.first field.min, range.last field.max (1 < step))
      else .error (field.badField part) := by
  have hvalue : ∀ {text : List Char} {value : ℕ}, Reads field.names text value →
      field.value part text =
        if value ≤ 255 then .ok value else .error (field.badField part) := by
    intro text value h
    rw [Field.value, h.valueOf_eq hfield.names]
    split_ifs <;> rfl
  have hstar : ∀ {text : List Char} {value : ℕ}, Reads field.names text value → ∀ rest,
      text ++ rest ≠ ['*'] := by
    rintro text value h rest heq
    obtain ⟨hne, hplain⟩ := h.plain hfield.names
    obtain ⟨c, cs, rfl⟩ := List.exists_cons_of_ne_nil hne
    obtain rfl := (List.cons.inj heq).1
    exact absurd (hplain '*' List.mem_cons_self) (by decide)
  have hdash : ∀ {text : List Char} {value : ℕ}, Reads field.names text value → '-' ∉ text :=
    fun h => (h.plain hfield.names).2.notMem (by decide)
  unfold Field.boundsOf
  cases h with
  | star => rfl
  | @single text value h =>
    have hne := hstar h []
    rw [List.append_nil] at hne
    rw [if_neg hne, splitOnce_eq_none (hdash h)]
    simp only [hvalue h, Range.numbers, List.mem_singleton, forall_eq, Range.first, Range.last,
      decide_eq_true_eq]
    by_cases hle : value ≤ 255
    · rw [if_pos hle, if_pos hle]
      rfl
    · rw [if_neg hle, if_neg hle]
      rfl
  | @span lo hi first last hlo hhi =>
    rw [if_neg (hstar hlo _), splitOnce_append _ (hdash hlo)]
    simp only [hvalue hlo, hvalue hhi, Range.numbers, List.mem_cons, List.not_mem_nil, or_false,
      forall_eq_or_imp, forall_eq]
    by_cases hfirst : first ≤ 255 <;> by_cases hlast : last ≤ 255 <;>
      simp [hfirst, hlast] <;> rfl

/-- An item is accepted when its bounds are. -/
lemma accepted_iff (hfield : field.Used) : item.Accepted field.min field.max ↔
    (∀ n ∈ item.range.numbers, n ≤ 255) ∧ (∀ s, item.step = some s → 1 ≤ s ∧ s ≤ 255) ∧
      ¬(item.range.first field.min < field.min ∨
        field.max < item.range.last field.max (1 < item.step.getD 1) ∨
        item.range.last field.max (1 < item.step.getD 1) < item.range.first field.min) := by
  have hmin := hfield.min_le_max
  have hmax := hfield.max_lt
  obtain ⟨range, step⟩ := item
  have hiff : (Item.mk range step).Accepted field.min field.max ↔
      (∀ n ∈ range.numbers, field.min ≤ n ∧ n ≤ field.max) ∧
        (∀ first last, range = .span first last → first ≤ last) ∧
        ∀ s, step = some s → 1 ≤ s ∧ s ≤ 255 := ⟨fun h => ⟨h.1, h.2, h.3⟩, fun h => ⟨h.1, h.2.1, h.2.2⟩⟩
  rw [hiff]
  cases range with
  | star =>
    simp only [Range.numbers, List.not_mem_nil, false_implies, implies_true, reduceCtorEq, true_and,
      Range.first, Range.last]
    refine (and_iff_left ?_).symm
    omega
  | single value =>
    simp only [Range.numbers, List.mem_singleton, forall_eq, reduceCtorEq, false_implies,
      implies_true, true_and, Range.first, Range.last, decide_eq_true_eq]
    split_ifs <;> constructor <;> rintro ⟨h, h'⟩ <;> refine ⟨by omega, ?_⟩
    · exact ⟨h', by omega⟩
    · exact h'.1
    · exact ⟨h', by omega⟩
    · exact h'.1
  | span first last =>
    simp only [Range.numbers, List.mem_cons, List.not_mem_nil, or_false, forall_eq_or_imp, forall_eq,
      Range.span.injEq, Range.first, Range.last]
    constructor
    · rintro ⟨h, horder, hstep⟩
      have := horder first last ⟨rfl, rfl⟩
      exact ⟨by omega, hstep, by omega⟩
    · rintro ⟨h, hstep, h'⟩
      exact ⟨by omega, by rintro _ _ ⟨rfl, rfl⟩; omega, hstep⟩

variable {mask mask' step : ℕ}

/-- What an item adds to the mask once its step is read. -/
lemma boundsOf_bind_eq_ok (hfield : field.Used) (h : range.Spells field.names text)
    (part : List Char) (mask mask' step : ℕ) : (do
      let (lo, hi) ← field.boundsOf part text step
      if lo < field.min ∨ field.max < hi ∨ hi < lo then .error (field.badField part)
      else return mark hi step (hi + 1 - lo) lo mask : Except String ℕ) = .ok mask' ↔
    (∀ n ∈ range.numbers, n ≤ 255) ∧
      ¬(range.first field.min < field.min ∨ field.max < range.last field.max (1 < step) ∨
        range.last field.max (1 < step) < range.first field.min) ∧
      mask' = mark (range.last field.max (1 < step)) step
        (range.last field.max (1 < step) + 1 - range.first field.min) (range.first field.min)
        mask := by
  rw [boundsOf_eq hfield h, Fallible.bind_eq_ok]
  constructor
  · rintro ⟨⟨lo, hi⟩, hbounds, hmark⟩
    split_ifs at hbounds with hbytes
    obtain ⟨rfl, rfl⟩ := Prod.mk.inj (Except.ok.inj hbounds)
    dsimp only at hmark
    split_ifs at hmark with hrange
    exact ⟨hbytes, hrange, (Except.ok.inj hmark).symm⟩
  · rintro ⟨hbytes, hrange, rfl⟩
    refine ⟨_, if_pos hbytes, ?_⟩
    dsimp only
    rw [if_neg hrange]
    rfl

lemma parsePart_eq_ok (hfield : field.Used) (h : item.Spells field.names text) :
    field.parsePart mask text = .ok mask' ↔ item.Accepted field.min field.max ∧
      mask' = mark (item.range.last field.max (1 < item.step.getD 1)) (item.step.getD 1)
        (item.range.last field.max (1 < item.step.getD 1) + 1 - item.range.first field.min)
        (item.range.first field.min) mask := by
  obtain ⟨hne, -, htrim⟩ := h.chars hfield.names
  rw [accepted_iff hfield, Field.parsePart, htrim, if_neg hne]
  cases h with
  | bare h =>
    have hstep : field.stepOf text = .ok (text, 1) := by
      rw [Field.stepOf, splitOnce_eq_none (h.notMem hfield.names (.inl rfl))]
    have hbind := boundsOf_bind_eq_ok hfield h text mask mask' 1
    rw [hstep]
    refine hbind.trans ?_
    simp only [Option.getD_none, reduceCtorEq, false_implies, implies_true, true_and, and_assoc]
  | @stepped before digits range h hdigits hdigit =>
    have hsplit := splitOnce_append digits (h.notMem hfield.names (.inl rfl))
    have hparse := parse_digits hdigits hdigit
    generalize Nat.ofDigitChars 10 digits 0 = step at hparse
    have hbind := boundsOf_bind_eq_ok hfield h (before ++ '/' :: digits) mask mask' step
    rw [Fallible.bind_eq_ok]
    simp only [Option.some.injEq, Option.getD_some, forall_eq']
    have hstep : ∀ pair, field.stepOf (before ++ '/' :: digits) = .ok pair ↔
        (1 ≤ step ∧ step ≤ 255) ∧ pair = (before, step) := by
      intro pair
      rw [Field.stepOf, hsplit]
      dsimp only
      rw [hparse]
      rcases step with _ | step
      · simp
      · by_cases hle : step + 1 ≤ 255
        · simp [hle, eq_comm]
        · simp [hle]
    constructor
    · rintro ⟨pair, hpair, hrest⟩
      obtain ⟨hle, rfl⟩ := (hstep pair).mp hpair
      obtain ⟨hbytes, hrange, hmark⟩ := hbind.mp hrest
      exact ⟨⟨hbytes, hle, hrange⟩, hmark⟩
    · rintro ⟨⟨hbytes, hle, hrange⟩, hmark⟩
      exact ⟨(before, step), (hstep _).mpr ⟨hle, rfl⟩, hbind.mpr ⟨hbytes, hrange, hmark⟩⟩

/-! ### The mask -/

lemma testBit_mark_iff {hi fuel : ℕ} (hstep : 0 < step) (hfuel : hi + 1 ≤ value + fuel) :
    (mark hi step fuel value mask).testBit i = true ↔
      mask.testBit i = true ∨ ∃ k, i = value + k * step ∧ i ≤ hi := by
  induction fuel generalizing value mask with
  | zero =>
    refine ⟨.inl, fun h => h.resolve_right ?_⟩
    rintro ⟨k, rfl, hle⟩
    omega
  | succ fuel ih =>
    rw [mark]
    split_ifs with hle
    · have hbit : (mask ||| 1 <<< value).testBit i = true ↔ mask.testBit i = true ∨ i = value := by
        rw [Nat.testBit_or, Nat.one_shiftLeft, Nat.testBit_two_pow, Bool.or_eq_true,
          decide_eq_true_eq, eq_comm (a := value)]
      rw [ih (by omega), hbit, or_assoc]
      refine or_congr_right ⟨?_, ?_⟩
      · rintro (rfl | ⟨k, rfl, hk⟩)
        · exact ⟨0, by omega, hle⟩
        · exact ⟨k + 1, by rw [Nat.succ_mul]; omega, hk⟩
      · rintro ⟨k, rfl, hk⟩
        cases k with
        | zero => exact .inl (by omega)
        | succ k => exact .inr ⟨k, by rw [Nat.succ_mul]; omega, hk⟩
    · refine ⟨.inl, fun h => h.resolve_right ?_⟩
      rintro ⟨k, rfl, hk⟩
      omega

lemma parsePart_marks (hfield : field.Used) (h : item.Spells field.names text) :
    field.parsePart mask text = .ok mask' → item.Accepted field.min field.max ∧
      ∀ i, mask'.testBit i = true ↔
        mask.testBit i = true ∨ i ∈ item.marked field.min field.max := by
  intro hparse
  obtain ⟨haccepted, rfl⟩ := (parsePart_eq_ok hfield h).mp hparse
  have hpos : 0 < item.step.getD 1 := by
    cases hstep : item.step with
    | none => exact Nat.one_pos
    | some s => exact (haccepted.step s hstep).1
  exact ⟨haccepted, fun i => testBit_mark_iff hpos (by omega)⟩

/-- The items of a field are accepted one by one, and each adds what is marked for it. -/
lemma foldlM_parsePart (hfield : field.Used) (h : Spelled field.names text items) (mask : ℕ) :
    (∀ mask', (Json.split ',' text).foldlM field.parsePart mask = .ok mask' →
      (∀ item ∈ items, item.Accepted field.min field.max) ∧
        ∀ i, mask'.testBit i = true ↔
          mask.testBit i = true ∨ ∃ item ∈ items, i ∈ item.marked field.min field.max) ∧
    ((∀ item ∈ items, item.Accepted field.min field.max) →
      ∃ mask', (Json.split ',' text).foldlM field.parsePart mask = .ok mask') := by
  induction h generalizing mask with
  | one h =>
    rw [split_of_notMem (h.chars hfield.names).2.1, List.foldlM_cons]
    constructor
    · intro mask' hfold
      obtain ⟨next, hnext, hrest⟩ := Fallible.bind_eq_ok.mp hfold
      obtain rfl := Except.ok.inj hrest
      obtain ⟨haccepted, hbits⟩ := parsePart_marks hfield h hnext
      simpa using ⟨haccepted, hbits⟩
    · intro haccepted
      exact ⟨_, Fallible.bind_eq_ok.mpr ⟨_, (parsePart_eq_ok hfield h).mpr
        ⟨haccepted _ List.mem_cons_self, rfl⟩, rfl⟩⟩
  | cons h hrest ih =>
    rw [split_append (h.chars hfield.names).2.1, List.foldlM_cons]
    constructor
    · intro mask' hfold
      obtain ⟨next, hnext, hfold⟩ := Fallible.bind_eq_ok.mp hfold
      obtain ⟨haccepted, hbits⟩ := parsePart_marks hfield h hnext
      obtain ⟨hall, hbits'⟩ := (ih next).1 mask' hfold
      refine ⟨List.forall_mem_cons.mpr ⟨haccepted, hall⟩, fun i => ?_⟩
      rw [hbits', hbits, or_assoc, List.exists_mem_cons_iff]
    · intro haccepted
      obtain ⟨hitem, hitems⟩ := List.forall_mem_cons.mp haccepted
      obtain ⟨mask', hmask'⟩ := (ih _).2 hitems
      exact ⟨mask', Fallible.bind_eq_ok.mpr ⟨_, (parsePart_eq_ok hfield h).mpr ⟨hitem, rfl⟩, hmask'⟩⟩

/-! ### The law -/

/-- What is marked for an item are its values, but for a bare start with a step of one. -/
lemma mem_marked (h : item.Accepted field.min field.max) :
    i ∈ item.marked field.min field.max ↔ i ∈ item.values field.min field.max ∧
      ∀ other, item = ⟨.single other, some 1⟩ → i = other := by
  obtain ⟨range, step⟩ := item
  cases range with
  | star => simp [Item.marked, Item.values, Range.last]
  | span first last => simp [Item.marked, Item.values, Range.last]
  | single value =>
    have hvalue := h.inRange value List.mem_cons_self
    cases step with
    | none => simp [Item.marked, Item.values, Range.last]
    | some s =>
      have hs := (h.step s rfl).1
      simp only [Item.marked, Item.values, Set.mem_ofPred_eq, Range.first, Range.last,
        Option.getD_some, Option.isSome_some, if_true, decide_eq_true_eq, Item.mk.injEq,
        Range.single.injEq, Option.some.injEq]
      rcases hs.eq_or_lt with rfl | hlt
      · rw [if_neg (lt_irrefl 1)]
        constructor
        · rintro ⟨k, rfl, hk⟩
          exact ⟨⟨k, rfl, by omega⟩, fun other hother => by omega⟩
        · rintro ⟨-, hother⟩
          exact ⟨0, by simpa using hother value ⟨rfl, rfl⟩, (hother value ⟨rfl, rfl⟩).le⟩
      · rw [if_pos hlt]
        exact (and_iff_left fun other hother => absurd hother.2 hlt.ne').symm

/-- Whatever the text of a field, no bit past its last value is set. -/
lemma le_max_of_testBit (hparse : field.parseField text = .ok mask) (hi : mask.testBit i = true) :
    i ≤ field.max := by
  have hmark : ∀ {hi step fuel value mask : ℕ}, (mark hi step fuel value mask).testBit i = true →
      mask.testBit i = true ∨ i ≤ hi := by
    intro hi step fuel value mask h
    induction fuel generalizing value mask with
    | zero => exact .inl h
    | succ fuel ih =>
      rw [mark] at h
      split_ifs at h with hle
      · refine (ih h).elim (fun hbit => ?_) .inr
        rw [Nat.testBit_or, Nat.one_shiftLeft, Nat.testBit_two_pow, Bool.or_eq_true,
          decide_eq_true_eq] at hbit
        refine hbit.imp_right ?_
        rintro rfl
        exact hle
      · exact .inl h
  have hfold : ∀ (parts : List (List Char)) (mask mask' : ℕ),
      parts.foldlM field.parsePart mask = .ok mask' → mask'.testBit i = true →
        mask.testBit i = true ∨ i ≤ field.max := by
    intro parts
    induction parts with
    | nil =>
      intro mask mask' h hbit
      exact .inl (Except.ok.inj h ▸ hbit)
    | cons part parts ih =>
      intro mask mask' h hbit
      rw [List.foldlM_cons] at h
      obtain ⟨next, hnext, h⟩ := Fallible.bind_eq_ok.mp h
      refine (ih next mask' h hbit).elim (fun hbit => ?_) .inr
      unfold Field.parsePart at hnext
      split_ifs at hnext with hpart
      obtain ⟨⟨range, step⟩, -, hnext⟩ := Fallible.bind_eq_ok.mp hnext
      obtain ⟨⟨lo, hi⟩, -, hnext⟩ := Fallible.bind_eq_ok.mp hnext
      dsimp only at hnext
      split_ifs at hnext with hrange
      obtain rfl := Except.ok.inj hnext
      exact (hmark hbit).imp_right fun hle => by omega
  exact (hfold _ 0 mask hparse hi).resolve_left (by simp)

lemma keepsWeekdays : KeepsWeekdays := by
  intro text expr h
  unfold Expression.parse at h
  dsimp only at h
  split at h
  · next minute hour day month weekday hfields =>
    obtain ⟨minutes, -, h⟩ := Fallible.bind_eq_ok.mp h
    obtain ⟨hours, -, h⟩ := Fallible.bind_eq_ok.mp h
    obtain ⟨days, -, h⟩ := Fallible.bind_eq_ok.mp h
    obtain ⟨months, -, h⟩ := Fallible.bind_eq_ok.mp h
    obtain ⟨mask, hmask, h⟩ := Fallible.bind_eq_ok.mp h
    obtain rfl := Except.ok.inj h
    refine ⟨minute, hour, day, month, weekday, mask, hfields, hmask, fun i => ?_⟩
    rw [Nat.testBit_and, Nat.testBit_or, Nat.testBit_shiftRight,
      show 0x7f = 2 ^ 7 - 1 from rfl, Nat.testBit_two_pow_sub_one, Bool.and_eq_true,
      Bool.or_eq_true, decide_eq_true_eq]
    constructor
    · rintro ⟨hbit | hbit, hlt⟩
      · exact .inl ⟨hlt, hbit⟩
      · have hle : 7 + i ≤ 7 := le_max_of_testBit hmask hbit
        obtain rfl : i = 0 := by omega
        exact .inr ⟨rfl, hbit⟩
    · rintro (⟨hlt, hbit⟩ | ⟨rfl, hbit⟩)
      · exact ⟨.inl hbit, hlt⟩
      · exact ⟨.inr hbit, by decide⟩
  · cases h

/-- A field means what the items of its text do exactly when no value is lost to an explicit step
of one. -/
theorem denotes_iff_covered (hfield : field.Used) (h : Spelled field.names text items) :
    field.Denotes text items ∧ KeepsWeekdays ↔ Covered field items := by
  obtain ⟨hok, haccept⟩ := foldlM_parsePart hfield h 0
  have hbits : ∀ mask, field.parseField text = .ok mask → ∀ i, mask.testBit i = true ↔
      ∃ item ∈ items, i ∈ item.values field.min field.max ∧
        ∀ other, item = ⟨.single other, some 1⟩ → i = other := by
    intro mask hmask i
    obtain ⟨hall, hbits⟩ := hok mask hmask
    rw [hbits, Nat.zero_testBit, or_iff_right Bool.false_ne_true]
    exact exists_congr fun item => and_congr_right fun hitem => mem_marked (hall item hitem)
  refine ⟨fun ⟨hdenotes, _⟩ haccepted value hvalue i hlt hle => ?_, fun hcovered =>
    ⟨⟨⟨fun ⟨mask, hmask⟩ => (hok mask hmask).1, haccept⟩, fun mask hmask i => ?_⟩, keepsWeekdays⟩⟩
  · obtain ⟨mask, hmask⟩ := haccept haccepted
    refine (hbits mask hmask i).mp ((hdenotes.denotes mask hmask i).mpr ⟨_, hvalue, ?_⟩)
    exact ⟨i - value, by simp [Range.first]; omega, by simpa [Range.last] using hle⟩
  · rw [hbits mask hmask i]
    refine ⟨fun ⟨item, hitem, hvalues, _⟩ => ⟨item, hitem, hvalues⟩, ?_⟩
    rintro ⟨item, hitem, hvalues⟩
    by_cases hother : ∀ other, item = ⟨.single other, some 1⟩ → i = other
    · exact ⟨item, hitem, hvalues, hother⟩
    · push Not at hother
      obtain ⟨value, rfl, hne⟩ := hother
      obtain ⟨k, rfl, hle⟩ := hvalues
      simp only [Range.first, Option.getD_some, mul_one] at hne hle ⊢
      simp only [Range.last, Option.isSome_some, if_true] at hle
      exact hcovered (hok mask hmask).1 value hitem _ (by omega) hle

/-- Every fifth minute from the tenth, and two more. -/
theorem denotes_iff_covered_minutes :
    (Field.mk [] "minute" 0 59 []).Denotes "10/5,3-4".toList
      [⟨.single 10, some 5⟩, ⟨.span 3 4, none⟩] ∧ KeepsWeekdays := by
  have hdigits : ∀ n ∈ ["10", "5", "3", "4"], ∀ c ∈ n.toList, c.isDigit = true := by
    simp only [← List.all_eq_true]
    decide
  have hreads : ∀ n ∈ ["10", "5", "3", "4"],
      Reads [] n.toList (Nat.ofDigitChars 10 n.toList 0) := by
    intro n hn
    refine .number ?_ (hdigits n hn)
    revert n
    decide
  have hspelled : Spelled [] "10/5,3-4".toList [⟨.single 10, some 5⟩, ⟨.span 3 4, none⟩] :=
    .cons (.stepped (.single (hreads "10" (by decide))) (by decide) (hdigits "5" (by decide)))
      (.one (.bare (.span (hreads "3" (by decide)) (hreads "4" (by decide)))))
  refine (denotes_iff_covered ⟨by decide, by decide, by decide⟩ hspelled).mpr ?_
  intro _ value hvalue
  simp at hvalue

/-- `5/1` marks the fifth minute alone. -/
theorem denotes_iff_covered_fails : ¬∀ (field : Field) (text : List Char) (items : List Item),
    field.Used → Spelled field.names text items → field.Denotes text items ∧ KeepsWeekdays := by
  intro h
  have hdigits : ∀ c ∈ "5".toList, c.isDigit = true := List.all_eq_true.mp rfl
  have hone : ∀ c ∈ "1".toList, c.isDigit = true := List.all_eq_true.mp rfl
  have hspelled : Spelled [] "5/1".toList [⟨.single 5, some 1⟩] :=
    .one (.stepped (.single (.number (by decide) hdigits)) (by decide) hone)
  have hdenotes := (h (Field.mk [] "minute" 0 59 []) _ _ ⟨by decide, by decide, by decide⟩
    hspelled).1.denotes 32 rfl 6
  have hmem : 6 ∈ (Item.mk (.single 5) (some 1)).values 0 59 := ⟨1, rfl, by decide⟩
  exact absurd (hdenotes.mpr ⟨_, List.mem_singleton_self _, hmem⟩) (by decide)

end Moso.Jobs.Cron
