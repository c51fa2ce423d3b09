import Mathlib.Data.Nat.Notation
import Mathlib.Tactic.Common

/-!
# Texts by their bytes

The bytes of a text in UTF-8, and slices of a text at offsets in bytes, which exist where the
offsets are between characters.
-/

namespace Utf8

/-- The bytes of a text. -/
def bytes (text : List Char) : List UInt8 := text.flatMap String.utf8EncodeChar

/-- The length of a text in bytes. -/
def size (text : List Char) : ℕ := (bytes text).length

/-- A text up to an offset and from there, if the offset is between two characters. -/
def splitAt? : List Char → ℕ → Option (List Char × List Char)
  | [], offset        => if offset = 0 then some ([], []) else none
  | c :: text, offset =>
    if offset = 0 then some ([], c :: text)
    else if c.utf8Size ≤ offset then
      (splitAt? text (offset - c.utf8Size)).map fun parts => (c :: parts.1, parts.2)
    else none

/-- The text between two offsets. -/
def slice? (text : List Char) (start stop : ℕ) : Option (List Char) :=
  if start ≤ stop then do
    let parts ← splitAt? text start
    let parts ← splitAt? parts.2 (stop - start)
    some parts.1
  else none

def isContinuation (b : UInt8) : Bool := 0x80 ≤ b.toNat && b.toNat < 0xC0

/-- Whether two bytes can begin a character of three bytes. -/
def beginsThree (b c : UInt8) : Bool :=
  isContinuation c &&
    (b.toNat ≠ 0xE0 || 0xA0 ≤ c.toNat) && (b.toNat ≠ 0xED || c.toNat < 0xA0)

/-- Whether two bytes can begin a character of four bytes. -/
def beginsFour (b c : UInt8) : Bool :=
  isContinuation c &&
    (b.toNat ≠ 0xF0 || 0x90 ≤ c.toNat) && (b.toNat ≠ 0xF4 || c.toNat < 0x90)

/-- The character that stands for bytes that are none. -/
def replacement : Char := Char.ofNat 0xFFFD

/-- The text of some bytes, in which every longest beginning of a character that is broken off is
replaced. -/
def decodeLossy : List UInt8 → List Char
  | [] => []
  | b :: rest =>
    if b.toNat < 0x80 then Char.ofNat b.toNat :: decodeLossy rest
    else if 0xC2 ≤ b.toNat && b.toNat < 0xE0 then
      match rest with
      | [] => [replacement]
      | c :: rest =>
        if isContinuation c then
          Char.ofNat (b.toNat % 32 * 64 + c.toNat % 64) :: decodeLossy rest
        else replacement :: decodeLossy (c :: rest)
    else if 0xE0 ≤ b.toNat && b.toNat < 0xF0 then
      match rest with
      | [] => [replacement]
      | [c] => if beginsThree b c then [replacement] else replacement :: decodeLossy [c]
      | c :: d :: rest =>
        if !beginsThree b c then replacement :: decodeLossy (c :: d :: rest)
        else if isContinuation d then
          Char.ofNat (b.toNat % 16 * 4096 + c.toNat % 64 * 64 + d.toNat % 64) :: decodeLossy rest
        else replacement :: decodeLossy (d :: rest)
    else if 0xF0 ≤ b.toNat && b.toNat < 0xF5 then
      match rest with
      | [] => [replacement]
      | [c] => if beginsFour b c then [replacement] else replacement :: decodeLossy [c]
      | [c, d] =>
        if !beginsFour b c then replacement :: decodeLossy [c, d]
        else if isContinuation d then [replacement]
        else replacement :: decodeLossy [d]
      | c :: d :: e :: rest =>
        if !beginsFour b c then replacement :: decodeLossy (c :: d :: e :: rest)
        else if !isContinuation d then replacement :: decodeLossy (d :: e :: rest)
        else if isContinuation e then
          Char.ofNat (b.toNat % 8 * 262144 + c.toNat % 64 * 4096 + d.toNat % 64 * 64 +
            e.toNat % 64) :: decodeLossy rest
        else replacement :: decodeLossy (e :: rest)
    else replacement :: decodeLossy rest

example : decodeLossy [0xE2, 0x82, 0xAC, 0xF0, 0x90, 0x41] = ['€', replacement, 'A'] := by decide

variable {text front middle back : List Char}

@[simp] lemma bytes_nil : bytes [] = [] := rfl

@[simp] lemma bytes_cons (c : Char) : bytes (c :: text) = String.utf8EncodeChar c ++ bytes text :=
  rfl

@[simp] lemma bytes_append : bytes (front ++ back) = bytes front ++ bytes back :=
  List.flatMap_append

@[simp] lemma size_nil : size [] = 0 := rfl

@[simp] lemma size_cons (c : Char) : size (c :: text) = c.utf8Size + size text := by
  simp [size]

@[simp] lemma size_append : size (front ++ back) = size front + size back := by
  simp [size]

/-- A byte of a character is the character itself, or not ASCII. -/
lemma mem_utf8EncodeChar {b : UInt8} {ch : Char} (h : b ∈ String.utf8EncodeChar ch) :
    (ch.toNat < 0x80 ∧ b.toNat = ch.toNat) ∨ 0x80 ≤ b.toNat := by
  change (ch.val.toNat < 0x80 ∧ b.toNat = ch.val.toNat) ∨ 0x80 ≤ b.toNat
  unfold String.utf8EncodeChar at h
  dsimp only at h
  split_ifs at h <;> simp only [List.mem_cons, List.not_mem_nil, or_false] at h
  · subst h
    rw [UInt8.toNat_ofNat']
    omega
  · rcases h with rfl | rfl <;> rw [UInt8.toNat_ofNat'] <;> omega
  · rcases h with rfl | rfl | rfl <;> rw [UInt8.toNat_ofNat'] <;> omega
  · rcases h with rfl | rfl | rfl | rfl <;> rw [UInt8.toNat_ofNat'] <;> omega

/-- An ASCII character is a byte of no other character. -/
lemma ne_of_mem_utf8EncodeChar {b : UInt8} {c d : Char} (hne : c ≠ d) (hascii : d.toNat < 0x80)
    (h : b ∈ String.utf8EncodeChar c) : b ≠ d.toNat.toUInt8 := by
  intro hb
  have hd : b.toNat = d.toNat := by
    rw [hb, UInt8.toNat_ofNat']
    omega
  rcases mem_utf8EncodeChar h with ⟨-, hc⟩ | hge
  · exact hne (Char.toNat_inj.mp (hc.symm.trans hd))
  · omega

lemma splitAt?_append : splitAt? (front ++ back) (size front) = some (front, back) := by
  induction front with
  | nil => cases back <;> rfl
  | cons c front ih =>
    have hpos := Char.utf8Size_pos c
    rw [size_cons, List.cons_append, splitAt?, if_neg (by omega), if_pos (Nat.le_add_right _ _),
      Nat.add_sub_cancel_left, ih, Option.map_some]

lemma slice?_append :
    slice? (front ++ (middle ++ back)) (size front) (size (front ++ middle)) = some middle := by
  rw [slice?, if_pos (by simp), splitAt?_append, size_append, Nat.add_sub_cancel_left]
  simp [splitAt?_append]

end Utf8
