import Moso.Auth.Totp
import Moso.Foundation.BitBuffer

/-!
# Base32

How a second factor's secret is written for a person to type: five bits to a letter. Both
directions run the bits through a 32-bit buffer that is never cleared.

A computation that would stop the program is `none`.
-/

namespace Moso.Auth.Base32

open BitBuffer

abbrev Byte := BitVec 8

/-! ### Arithmetic on 32 bits -/

def add (m n : ℕ) : Option ℕ := if m + n < 2 ^ 32 then some (m + n) else none

def sub (m n : ℕ) : Option ℕ := if n ≤ m then some (m - n) else none

def shl (x : BitVec 32) (n : ℕ) : Option (BitVec 32) := if n < 32 then some (x <<< n) else none

def shr (x : BitVec 32) (n : ℕ) : Option (BitVec 32) := if n < 32 then some (x >>> n) else none

/-! ### Encoding -/

/-- The RFC 4648 alphabet. -/
def alphabet : List Char := "ABCDEFGHIJKLMNOPQRSTUVWXYZ234567".toList

def letter (x : BitVec 32) : Option Char := alphabet[(x &&& 0x1f).toNat]?

/-- The letters that the buffer is good for. -/
def drain (buffer : BitVec 32) : ℕ → List Char → Option (ℕ × List Char)
  | bits + 5, out => do
    let index ← shr buffer bits
    let c ← letter index
    drain buffer bits (out ++ [c])
  | bits, out => some (bits, out)

def encodeLoop : List Byte → BitVec 32 → ℕ → List Char → Option (List Char)
  | [], buffer, bits, out =>
    if 0 < bits then do
      let missing ← sub 5 bits
      let index ← shl buffer missing
      let c ← letter index
      some (out ++ [c])
    else some out
  | byte :: bytes, buffer, bits, out => do
    let shifted ← shl buffer 8
    let buffer := shifted ||| byte.setWidth 32
    let bits ← add bits 8
    let (bits, out) ← drain buffer bits out
    encodeLoop bytes buffer bits out

/-- Encode, uppercase, without padding. -/
def encode (bytes : List Byte) : Option (List Char) := encodeLoop bytes 0 0 []

/-! ### Decoding -/

/-- What a character of the text is. -/
inductive Reading where
  | value (value : BitVec 32)
  | skipped
  | invalid
  deriving DecidableEq

def read (character : Char) : Reading :=
  if 'A'.toNat ≤ character.toNat ∧ character.toNat ≤ 'Z'.toNat then
    .value (BitVec.ofNat 32 (character.toNat - 'A'.toNat))
  else if 'a'.toNat ≤ character.toNat ∧ character.toNat ≤ 'z'.toNat then
    .value (BitVec.ofNat 32 (character.toNat - 'a'.toNat))
  else if '2'.toNat ≤ character.toNat ∧ character.toNat ≤ '7'.toNat then
    .value (BitVec.ofNat 32 (character.toNat - '2'.toNat + 26))
  else if character ∈ ['=', ' ', '-', '\t', '\n', '\r'] then .skipped
  else .invalid

/-- `u8::try_from`, or the default. -/
def toByte (x : BitVec 32) : Byte := if x.toNat < 256 then x.setWidth 8 else 0

def decodeLoop : List Char → BitVec 32 → ℕ → List Byte → Option (Option (List Byte))
  | [], buffer, bits, out =>
    if 0 < bits then do
      let one ← shl 1 bits
      some (if buffer &&& (one - 1) ≠ 0 then none else some out)
    else some (some out)
  | character :: text, buffer, bits, out =>
    match read character with
    | .value value => do
      let shifted ← shl buffer 5
      let buffer := shifted ||| value
      let bits ← add bits 5
      if 8 ≤ bits then do
        let byte ← shr buffer (bits - 8)
        decodeLoop text buffer (bits - 8) (out ++ [toByte (byte &&& 0xff)])
      else decodeLoop text buffer bits out
    | .skipped => decodeLoop text buffer bits out
    | .invalid => some none

/-- Decode, ignoring case, padding, spaces and hyphens. -/
def decode (text : List Char) : Option (Option (List Byte)) := decodeLoop text 0 0 []

/-! ### Secrets -/

/-- The shortest secret that is accepted from storage. -/
def minSecretBytes : ℕ := 16

/-- Read a secret back out of storage. -/
def fromBase32 (text : List Char) : Option (Except Error TotpSecret) := do
  match ← decode text with
  | none => some (.error (.config "a TOTP secret must be base32 (A–Z and 2–7)"))
  | some bytes =>
    if bytes.length < minSecretBytes then
      some (.error (.config ("a TOTP secret must be at least " ++ toString minSecretBytes ++
        " bytes (RFC 4226 § 4); this one decodes to " ++ toString bytes.length)))
    else do
      let secret ← encode bytes
      some (.ok (String.ofList secret))

/-- The raw key bytes, for the HMAC. -/
def keyBytes (secret : TotpSecret) : Option (Except Error (List Byte)) := do
  match ← decode secret.toList with
  | none => some (.error (.config "the stored TOTP secret is not valid base32"))
  | some bytes => some (.ok bytes)

/-! ### What the letters stand for -/

/-- The characters that a person adds. -/
def ignored : List Char := ['=', ' ', '-', '\t', '\n', '\r']

/-- The letters of a text in upper case, without what a person adds. -/
def clean (text : List Char) : List Char :=
  (text.map Char.toUpper).filter fun c => c ∉ ignored

/-- The five bits of a letter. -/
def letterBits (c : Char) : List Bool := low 5 (BitVec.ofNat 32 (alphabet.idxOf c))

/-- The bits that a text spells. -/
def textBits (text : List Char) : List Bool := (clean text).flatMap letterBits

/-- The bits of a text that do not make a whole byte. -/
def leftover (text : List Char) : List Bool :=
  (textBits text).drop (8 * ((textBits text).length / 8))

/-- The bits of a string of bytes. -/
def byteBits (bytes : List Byte) : List Bool := bytes.flatMap (low 8)

/-- The unpadded text of RFC 4648: the letters of the bits, five by five, with zeros at the end to
make the last five full. -/
def Spells (text : List Char) (bytes : List Byte) : Prop :=
  (∀ c ∈ text, c ∈ alphabet) ∧
    ∃ k < 5, text.flatMap letterBits = byteBits bytes ++ List.replicate k false

/-! ### Reading -/

lemma alphabet_eq : alphabet =
    ['A', 'B', 'C', 'D', 'E', 'F', 'G', 'H', 'I', 'J', 'K', 'L', 'M', 'N', 'O', 'P', 'Q', 'R', 'S',
      'T', 'U', 'V', 'W', 'X', 'Y', 'Z', '2', '3', '4', '5', '6', '7'] := String.toList_ofList

lemma nodup_alphabet : alphabet.Nodup := by
  rw [alphabet_eq]
  decide

lemma letters : ∀ k < 26, alphabet[k]? = some (Char.ofNat (65 + k)) := by
  rw [alphabet_eq]
  decide

lemma digits : ∀ k < 6, alphabet[26 + k]? = some (Char.ofNat (50 + k)) := by
  rw [alphabet_eq]
  decide

lemma toNat_of_mem (c : Char) (h : c ∈ alphabet) :
    65 ≤ c.toNat ∧ c.toNat ≤ 90 ∨ 50 ≤ c.toNat ∧ c.toNat ≤ 55 := by
  have hall : alphabet.all (fun c =>
      decide (65 ≤ c.toNat ∧ c.toNat ≤ 90 ∨ 50 ≤ c.toNat ∧ c.toNat ≤ 55)) = true := by
    rw [alphabet_eq]
    decide
  exact of_decide_eq_true (List.all_eq_true.mp hall c h)

lemma toNat_of_mem_ignored (c : Char) (h : c ∈ ignored) : c.toNat < 50 ∨ c.toNat = 61 := by
  have hall : ignored.all (fun c => decide (c.toNat < 50 ∨ c.toNat = 61)) = true := by decide
  exact of_decide_eq_true (List.all_eq_true.mp hall c h)

lemma toUpper_eq (c : Char) : c.toUpper =
    if 97 ≤ c.toNat ∧ c.toNat ≤ 122 then Char.ofNat (c.toNat - 32) else c := by
  unfold Char.toUpper
  by_cases h : 'a'.val ≤ c.val ∧ c.val ≤ 'z'.val
  · have ha : 97 ≤ c.toNat := h.1
    have hz : c.toNat ≤ 122 := h.2
    have hval : (c.val + ('A'.val - 'a'.val)).toNat = c.toNat - 32 := by
      have hstep : ('A'.val - 'a'.val).toNat = 2 ^ 32 - 32 := by decide
      rw [UInt32.toNat_add, hstep, Char.toNat_val]
      omega
    rw [dif_pos h, if_pos ⟨ha, hz⟩]
    exact (Char.ofNat_toNat _).symm.trans (congrArg Char.ofNat hval)
  · exact (dif_neg h).trans (if_neg h).symm

/-- The `k`-th character of the alphabet is read as `k`. -/
lemma idxOf_of_getElem? {c : Char} {k : ℕ} (h : alphabet[k]? = some c) :
    c ∈ alphabet ∧ alphabet.idxOf c = k := by
  obtain ⟨hk, rfl⟩ := List.getElem?_eq_some_iff.mp h
  exact ⟨List.getElem_mem hk, (nodup_alphabet).idxOf_getElem k hk⟩

lemma idxOf_upper {c : Char} (h : 65 ≤ c.toNat) (h' : c.toNat ≤ 90) :
    c ∈ alphabet ∧ alphabet.idxOf c = c.toNat - 65 := by
  refine idxOf_of_getElem? ((letters (c.toNat - 65) (by omega)).trans ?_)
  rw [Nat.add_sub_cancel' h, Char.ofNat_toNat]

lemma idxOf_digit {c : Char} (h : 50 ≤ c.toNat) (h' : c.toNat ≤ 55) :
    c ∈ alphabet ∧ alphabet.idxOf c = c.toNat - 50 + 26 := by
  rw [Nat.add_comm]
  refine idxOf_of_getElem? ((digits (c.toNat - 50) (by omega)).trans ?_)
  rw [Nat.add_sub_cancel' h, Char.ofNat_toNat]

/-- A character is read as the letter that it is in upper case. -/
lemma read_eq (c : Char) : read c =
    if c.toUpper ∈ alphabet then .value (BitVec.ofNat 32 (alphabet.idxOf c.toUpper))
    else if c.toUpper ∈ ignored then .skipped else .invalid := by
  change (if 65 ≤ c.toNat ∧ c.toNat ≤ 90 then _ else if 97 ≤ c.toNat ∧ c.toNat ≤ 122 then _
    else if 50 ≤ c.toNat ∧ c.toNat ≤ 55 then _ else if c ∈ ignored then _ else _) = _
  by_cases hlower : 97 ≤ c.toNat ∧ c.toNat ≤ 122
  · have hcase : c.toUpper = Char.ofNat (c.toNat - 32) := by rw [toUpper_eq, if_pos hlower]
    have hmem := idxOf_of_getElem? (letters (c.toNat - 97) (by omega))
    rw [show 65 + (c.toNat - 97) = c.toNat - 32 by omega] at hmem
    rw [hcase, if_neg (by omega), if_pos hlower, if_pos hmem.1, hmem.2]
    rfl
  · have hcase : c.toUpper = c := by rw [toUpper_eq, if_neg hlower]
    rw [hcase, if_neg hlower]
    by_cases hupper : 65 ≤ c.toNat ∧ c.toNat ≤ 90
    · have hmem := idxOf_upper hupper.1 hupper.2
      rw [if_pos hupper, if_pos hmem.1, hmem.2]
      rfl
    · rw [if_neg hupper]
      by_cases hdigit : 50 ≤ c.toNat ∧ c.toNat ≤ 55
      · have hmem := idxOf_digit hdigit.1 hdigit.2
        rw [if_pos hdigit, if_pos hmem.1, hmem.2]
        rfl
      · have hnone : c ∉ alphabet := fun h => (toNat_of_mem c h).elim hupper hdigit
        rw [if_neg hdigit, if_neg hnone]

lemma toUpper_toUpper (c : Char) : c.toUpper.toUpper = c.toUpper := by
  rw [toUpper_eq c]
  split_ifs with hlower
  · have hmem := idxOf_of_getElem? (letters (c.toNat - 97) (by omega))
    rw [show 65 + (c.toNat - 97) = c.toNat - 32 by omega] at hmem
    have hcode := toNat_of_mem _ hmem.1
    rw [toUpper_eq, if_neg (by omega)]
  · rw [toUpper_eq, if_neg hlower]

lemma read_toUpper (c : Char) : read c.toUpper = read c := by
  rw [read_eq, read_eq, toUpper_toUpper]

lemma toUpper_of_mem (c : Char) (h : c ∈ alphabet) : c.toUpper = c ∧ c ∉ ignored := by
  have hcode := toNat_of_mem c h
  refine ⟨by rw [toUpper_eq, if_neg (by omega)], fun hignored => ?_⟩
  have := toNat_of_mem_ignored c hignored
  omega

/-- The letter of five bits spells them. -/
lemma letter_eq (x : BitVec 32) : ∃ c ∈ alphabet, letter x = some c ∧ letterBits c = low 5 x := by
  have hvalue : (x &&& 0x1f).toNat = x.toNat % 2 ^ 5 := toNat_and_mask (n := 5) (by decide) x
  have hindex : (x &&& 0x1f).toNat < alphabet.length := hvalue ▸ Nat.mod_lt _ (by decide)
  refine ⟨alphabet[(x &&& 0x1f).toNat], List.getElem_mem _, List.getElem?_eq_getElem hindex, ?_⟩
  rw [letterBits, (nodup_alphabet).idxOf_getElem, BitVec.ofNat_toNat, BitVec.setWidth_eq]
  exact low_and_mask (n := 5) (by decide) x

/-! ### What is encoded -/

/-- The loop over the buffer leaves fewer bits than a letter has. -/
lemma drain_eq (buffer : BitVec 32) {bits : ℕ} (hbits : bits ≤ 32) (out : List Char) :
    ∃ rest cs, drain buffer bits out = some (rest, out ++ cs) ∧ rest < 5 ∧ rest ≤ bits ∧
      (∀ c ∈ cs, c ∈ alphabet) ∧ low bits buffer = cs.flatMap letterBits ++ low rest buffer := by
  fun_induction drain buffer bits out with
  | case1 bits out ih =>
    obtain ⟨c, hc, hletter, hspelt⟩ := letter_eq (buffer >>> bits)
    obtain ⟨rest, cs, hdrain, hlt, hle, hcs, hlow⟩ := ih c (by omega)
    refine ⟨rest, c :: cs, ?_, hlt, by omega, List.forall_mem_cons.mpr ⟨hc, hcs⟩, ?_⟩
    · simp [shr, show bits < 32 by omega, hletter, hdrain]
    · have hsplit : low (bits + 5) buffer = low 5 (buffer >>> bits) ++ low bits buffer := by
        rw [Nat.add_comm, low_add]
      exact hsplit.trans (by rw [← hspelt, hlow, List.flatMap_cons, List.append_assoc])
  | case2 bits out hlt =>
    refine ⟨bits, [], by simp, ?_, Nat.le_refl _, by simp, by simp⟩
    by_contra hge
    exact hlt (bits - 5) (by omega)

lemma encodeLoop_eq (bytes : List Byte) (buffer : BitVec 32) {bits : ℕ} (hbits : bits < 5)
    (out : List Char) :
    ∃ cs, encodeLoop bytes buffer bits out = some (out ++ cs) ∧ (∀ c ∈ cs, c ∈ alphabet) ∧
      ∃ k < 5, cs.flatMap letterBits =
        low bits buffer ++ byteBits bytes ++ List.replicate k false := by
  induction bytes generalizing buffer bits out with
  | nil =>
    by_cases hpos : 0 < bits
    · obtain ⟨c, hc, hletter, hspelt⟩ := letter_eq (buffer <<< (5 - bits))
      refine ⟨[c], ?_, by simpa using hc, 5 - bits, by omega, ?_⟩
      · have hle : bits ≤ 5 := by omega
        have hlt : 5 - bits < 32 := by omega
        simp [encodeLoop, hpos, sub, shl, hle, hlt, hletter]
      · have hpush := low_push (n := bits) (k := 5 - bits) (x := buffer) (y := 0#32) (by omega)
          (Nat.two_pow_pos _)
        have hzero : low (5 - bits) 0#32 = List.replicate (5 - bits) false :=
          (and_mask_eq_zero_iff (by omega) 0#32).mp BitVec.zero_and
        rw [BitVec.or_zero, Nat.add_sub_cancel' (by omega), hzero] at hpush
        simp [byteBits, hspelt, hpush]
    · obtain rfl : bits = 0 := by omega
      exact ⟨[], by simp [encodeLoop], by simp, 0, by decide, by simp [byteBits, low]⟩
  | cons byte bytes ih =>
    have hbyte : (byte.setWidth 32).toNat < 2 ^ 8 := by
      rw [BitVec.toNat_setWidth]
      exact Nat.lt_of_le_of_lt (Nat.mod_le _ _) byte.isLt
    have hpush := low_push (n := bits) (x := buffer) (by omega) hbyte
    have hlow : low 8 (byte.setWidth 32) = low 8 byte := low_congr fun i hi => by
      rw [BitVec.getLsbD_setWidth, decide_eq_true (by omega), Bool.true_and]
    obtain ⟨rest, cs, hdrain, hrest, -, hcs, hspelt⟩ :=
      drain_eq (buffer <<< 8 ||| byte.setWidth 32) (show bits + 8 ≤ 32 by omega) out
    obtain ⟨cs', hloop, hcs', k, hk, hspelt'⟩ :=
      ih (buffer <<< 8 ||| byte.setWidth 32) hrest (out ++ cs)
    refine ⟨cs ++ cs', ?_, ?_, k, hk, ?_⟩
    · have hadd : bits + 8 < 2 ^ 32 := by omega
      simp only [encodeLoop, shl, add, hadd, if_true, Option.bind_eq_bind, Option.bind_some]
      simp [hdrain, hloop]
    · exact List.forall_mem_append.mpr ⟨hcs, hcs'⟩
    · rw [List.flatMap_append, hspelt', ← List.append_assoc, ← List.append_assoc, ← hspelt, hpush,
        hlow]
      simp [byteBits]

/-! ### What is decoded -/

@[simp] lemma length_byteBits (bytes : List Byte) : (byteBits bytes).length = 8 * bytes.length := by
  induction bytes with
  | nil => rfl
  | cons byte bytes ih =>
    rw [byteBits, List.flatMap_cons, List.length_append, length_low, List.length_cons]
    rw [byteBits] at ih
    omega

/-- Bits are whole bytes and less than a byte in one way. -/
lemma byteBits_append_inj {bytes bytes' : List Byte} {rest rest' : List Bool}
    (h : byteBits bytes ++ rest = byteBits bytes' ++ rest') (hrest : rest.length < 8)
    (hrest' : rest'.length < 8) : bytes = bytes' ∧ rest = rest' := by
  induction bytes generalizing bytes' with
  | nil =>
    cases bytes' with
    | nil => exact ⟨rfl, h⟩
    | cons byte' bytes' =>
      have hlen := congrArg List.length h
      simp only [List.length_append, length_byteBits, List.length_nil, List.length_cons] at hlen
      omega
  | cons byte bytes ih =>
    cases bytes' with
    | nil =>
      have hlen := congrArg List.length h
      simp only [List.length_append, length_byteBits, List.length_nil, List.length_cons] at hlen
      omega
    | cons byte' bytes' =>
      rw [byteBits, byteBits, List.flatMap_cons, List.flatMap_cons, List.append_assoc,
        List.append_assoc] at h
      obtain ⟨hbyte, hbytes⟩ := List.append_inj h (by simp)
      obtain ⟨rfl, hrest⟩ := ih hbytes
      exact ⟨by rw [low_injective hbyte], hrest⟩

lemma toByte_and_mask (x : BitVec 32) : low 8 (toByte (x &&& 0xff)) = low 8 x := by
  have hvalue : (x &&& 0xff).toNat = x.toNat % 2 ^ 8 := toNat_and_mask (n := 8) (by decide) x
  have hlt : (x &&& 0xff).toNat < 256 := hvalue ▸ Nat.mod_lt _ (by decide)
  rw [toByte, if_pos hlt]
  refine (low_congr fun i hi => ?_).trans (low_and_mask (n := 8) (by decide) x)
  rw [BitVec.getLsbD_setWidth, decide_eq_true hi, Bool.true_and]
  rfl

@[simp] lemma textBits_nil : textBits [] = [] := rfl

lemma textBits_cons (c : Char) (text : List Char) : textBits (c :: text) =
    (if c.toUpper ∈ ignored then [] else letterBits c.toUpper) ++ textBits text := by
  by_cases h : c.toUpper ∈ ignored <;> simp [textBits, clean, h]

/-- The loop of the decoder, when every character is one of the alphabet or ignored. -/
lemma decodeLoop_eq {text : List Char} (htext : ∀ c ∈ text, read c ≠ .invalid)
    (buffer : BitVec 32) {bits : ℕ} (hbits : bits < 8) (out : List Byte) :
    ∃ bytes rest, low bits buffer ++ textBits text = byteBits bytes ++ rest ∧ rest.length < 8 ∧
      decodeLoop text buffer bits out =
        some (if rest = List.replicate rest.length false then some (out ++ bytes) else none) := by
  induction text generalizing buffer bits out with
  | nil =>
    refine ⟨[], low bits buffer, by simp [byteBits], by simpa using hbits, ?_⟩
    by_cases hpos : 0 < bits
    · have hmask := and_mask_eq_zero_iff (n := bits) (by omega) buffer
      have hlt : bits < 32 := by omega
      simp only [decodeLoop, hpos, if_true, shl, hlt, Option.bind_eq_bind, Option.bind_some,
        length_low, List.append_nil, ← hmask, ne_eq, ite_not]
      rfl
    · obtain rfl : bits = 0 := by omega
      simp [decodeLoop, low]
  | cons c text ih =>
    rw [List.forall_mem_cons] at htext
    obtain ⟨hc, htext⟩ := htext
    rw [decodeLoop, textBits_cons]
    rw [read_eq] at hc ⊢
    by_cases hletter : c.toUpper ∈ alphabet
    · rw [if_pos hletter, if_neg (toUpper_of_mem _ hletter).2]
      have hvalue : (BitVec.ofNat 32 (alphabet.idxOf c.toUpper)).toNat < 2 ^ 5 := by
        have hlt : alphabet.idxOf c.toUpper < 2 ^ 5 := List.idxOf_lt_length_of_mem hletter
        rw [BitVec.toNat_ofNat, Nat.mod_eq_of_lt (by omega)]
        exact hlt
      have hpush : low (bits + 5) (buffer <<< 5 ||| BitVec.ofNat 32 (alphabet.idxOf c.toUpper)) =
          low bits buffer ++ letterBits c.toUpper := low_push (by omega) hvalue
      have hadd : bits + 5 < 2 ^ 32 := by omega
      simp only [shl, add, hadd, show 5 < 32 by decide, if_true, Option.bind_eq_bind,
        Option.bind_some]
      generalize buffer <<< 5 ||| BitVec.ofNat 32 (alphabet.idxOf c.toUpper) = next at hpush ⊢
      rw [← List.append_assoc, ← hpush]
      by_cases hfull : 8 ≤ bits + 5
      · have hsplit : low (bits + 5) next =
            low 8 (next >>> (bits + 5 - 8)) ++ low (bits + 5 - 8) next := by
          rw [← low_add, Nat.add_sub_cancel' hfull]
        obtain ⟨bytes, rest, hbits', hrest, hloop⟩ :=
          ih htext next (show bits + 5 - 8 < 8 by omega)
            (out ++ [toByte (next >>> (bits + 5 - 8) &&& 0xff)])
        refine ⟨toByte (next >>> (bits + 5 - 8) &&& 0xff) :: bytes, rest, ?_, hrest, ?_⟩
        · rw [hsplit, List.append_assoc, hbits', byteBits, byteBits, List.flatMap_cons,
            toByte_and_mask, List.append_assoc]
        · have hlt : bits + 5 - 8 < 32 := by omega
          simp only [hfull, if_true, shr, hlt, Option.bind_some]
          rw [hloop, List.append_assoc, List.singleton_append]
      · rw [if_neg hfull]
        exact ih htext next (by omega) out
    · rw [if_neg hletter] at hc ⊢
      by_cases hignored : c.toUpper ∈ ignored
      · rw [if_pos hignored, if_pos hignored]
        exact ih htext buffer hbits out
      · exact absurd (if_neg hignored) hc

/-- A character of neither kind spoils the text. -/
lemma decodeLoop_invalid {text : List Char} (h : ∃ c ∈ text, read c = .invalid)
    (buffer : BitVec 32) {bits : ℕ} (hbits : bits < 8) (out : List Byte) :
    decodeLoop text buffer bits out = some none := by
  induction text generalizing buffer bits out with
  | nil => exact absurd h (by simp)
  | cons c text ih =>
    rw [decodeLoop]
    cases hc : read c with
    | invalid => rfl
    | skipped =>
      have h' : ∃ c ∈ text, read c = .invalid := by simpa [hc] using h
      exact ih h' buffer hbits out
    | value value =>
      have h' : ∃ c ∈ text, read c = .invalid := by simpa [hc] using h
      have hadd : bits + 5 < 2 ^ 32 := by omega
      simp only [shl, add, hadd, show 5 < 32 by decide, if_true, Option.bind_eq_bind,
        Option.bind_some]
      by_cases hfull : 8 ≤ bits + 5
      · have hlt : bits + 5 - 8 < 32 := by omega
        simp only [hfull, if_true, shr, hlt, Option.bind_some]
        exact ih h' _ (by omega) _
      · rw [if_neg hfull]
        exact ih h' _ (by omega) _

/-- What a person adds and the case of letters make no difference. -/
lemma decodeLoop_clean (text : List Char) (buffer : BitVec 32) (bits : ℕ) (out : List Byte) :
    decodeLoop (clean text) buffer bits out = decodeLoop text buffer bits out := by
  induction text generalizing buffer bits out with
  | nil => rfl
  | cons c text ih =>
    by_cases hignored : c.toUpper ∈ ignored
    · have hclean : clean (c :: text) = clean text := by simp [clean, hignored]
      have hletter : c.toUpper ∉ alphabet := fun h => (toUpper_of_mem _ h).2 hignored
      rw [hclean, ih, decodeLoop, read_eq, if_neg hletter, if_pos hignored]
    · have hclean : clean (c :: text) = c.toUpper :: clean text := by simp [clean, hignored]
      rw [hclean, decodeLoop, decodeLoop, read_toUpper]
      simp only [ih]

/-- The characters that are left are letters when all can be read. -/
lemma read_ne_invalid_iff {text : List Char} :
    (∀ c ∈ text, read c ≠ .invalid) ↔ ∀ c ∈ clean text, c ∈ alphabet := by
  simp only [clean, List.mem_filter, List.mem_map, decide_eq_true_eq, and_imp,
    forall_exists_index, forall_apply_eq_imp_iff₂]
  refine forall₂_congr fun c _ => ?_
  rw [read_eq]
  by_cases hletter : c.toUpper ∈ alphabet
  · simp [hletter]
  · by_cases hignored : c.toUpper ∈ ignored <;> simp [hletter, hignored]

/-! ### Results -/

lemma leftover_eq {text : List Char} {bytes : List Byte} {rest : List Bool}
    (h : textBits text = byteBits bytes ++ rest) (hrest : rest.length < 8) :
    leftover text = rest := by
  have hlen : (textBits text).length / 8 = bytes.length := by
    rw [h, List.length_append, length_byteBits]
    omega
  rw [leftover, hlen, h, ← length_byteBits, List.drop_left]

/-- Decoding gives the whole bytes of the bits, unless another character occurs or a bit is left
over that is not zero. -/
lemma decode_eq (text : List Char) :
    ∃ result, decode text = some result ∧
      (result = none ↔ (∃ c ∈ clean text, c ∉ alphabet) ∨ true ∈ leftover text) ∧
      ∀ bytes, result = some bytes ↔
        (∀ c ∈ clean text, c ∈ alphabet) ∧ true ∉ leftover text ∧
          textBits text = byteBits bytes ++ leftover text := by
  by_cases hread : ∀ c ∈ text, read c ≠ .invalid
  · have hletters := read_ne_invalid_iff.1 hread
    have hnone : ¬ ∃ c ∈ clean text, c ∉ alphabet := fun ⟨c, hc, h⟩ => h (hletters c hc)
    obtain ⟨bytes, rest, hbits, hrest, hloop⟩ := decodeLoop_eq hread 0 (show 0 < 8 by decide) []
    have hbits : textBits text = byteBits bytes ++ rest := hbits
    have hzero : rest = List.replicate rest.length false ↔ true ∉ rest := by
      rw [List.eq_replicate_iff]
      simp
    refine ⟨_, hloop, ?_, fun bytes' => ?_⟩
    · simp [leftover_eq hbits hrest, hzero, hnone]
    · rw [leftover_eq hbits hrest]
      by_cases hrest' : true ∈ rest
      · simp [hzero, hrest']
      · simp only [hzero, hrest', not_false_iff, if_true, List.nil_append, Option.some.injEq,
          true_and]
        refine ⟨fun h => ⟨hletters, h ▸ hbits⟩, fun h => ?_⟩
        exact (byteBits_append_inj (hbits.symm.trans h.2) hrest hrest).1
  · have hletters := mt read_ne_invalid_iff.2 hread
    push Not at hread hletters
    refine ⟨none, decodeLoop_invalid hread 0 (by decide) [], ?_, fun bytes => ?_⟩
    · simp [hletters]
    · obtain ⟨c, hc, hletter⟩ := hletters
      simp only [reduceCtorEq, false_iff]
      exact fun h => hletter (h.1 c hc)

lemma decode_clean (text : List Char) : decode (clean text) = decode text :=
  decodeLoop_clean text 0 0 []

lemma clean_of_letters {text : List Char} (h : ∀ c ∈ text, c ∈ alphabet) : clean text = text := by
  rw [clean, List.map_congr_left (fun c hc => (toUpper_of_mem c (h c hc)).1), List.map_id',
    List.filter_eq_self]
  exact fun c hc => decide_eq_true (toUpper_of_mem c (h c hc)).2

/-- Bytes are encoded as the text that spells them. -/
lemma encode_eq (bytes : List Byte) : ∃ text, encode bytes = some text ∧ Spells text bytes := by
  obtain ⟨cs, hloop, hcs, k, hk, hspelt⟩ := encodeLoop_eq bytes 0 (show 0 < 5 by decide) []
  exact ⟨cs, hloop, hcs, k, hk, hspelt⟩

/-- A text that spells bytes is decoded to them. -/
lemma decode_of_spells {text : List Char} {bytes : List Byte} (h : Spells text bytes) :
    decode text = some (some bytes) := by
  obtain ⟨hletters, k, hk, hspelt⟩ := h
  have hbits : textBits text = byteBits bytes ++ List.replicate k false := by
    rw [textBits, clean_of_letters hletters, hspelt]
  have hleft := leftover_eq hbits (by rw [List.length_replicate]; omega)
  obtain ⟨result, hdecode, -, hresult⟩ := decode_eq text
  rw [hdecode, (hresult bytes).mpr]
  refine ⟨?_, by simp [hleft], hleft ▸ hbits⟩
  rw [clean_of_letters hletters]
  exact hletters

/-- A secret that was read is spelled as it is written. -/
lemma fromBase32_spelled {text : List Char} {secret : TotpSecret}
    (h : fromBase32 text = some (.ok secret)) : fromBase32 secret.toList = some (.ok secret) := by
  rw [fromBase32, Option.bind_eq_bind, Option.bind_eq_some_iff] at h
  obtain ⟨result, -, h⟩ := h
  cases result with
  | none => simp at h
  | some bytes =>
    simp only at h
    split_ifs at h with hshort
    · simp at h
    · obtain ⟨cs, hencode, hspells⟩ := encode_eq bytes
      obtain rfl : String.ofList cs = secret := by simpa [hencode] using h
      rw [fromBase32, String.toList_ofList, decode_of_spells hspells]
      simp [hshort, hencode]

lemma keyBytes_of_encode {bytes : List Byte} {text : List Char} (h : encode bytes = some text) :
    keyBytes (String.ofList text) = some (.ok bytes) := by
  obtain ⟨text', htext, hspells⟩ := encode_eq bytes
  obtain rfl := Option.some.inj (h.symm.trans htext)
  simp [keyBytes, decode_of_spells hspells]

/-- The codec is exact: encoding writes the text of RFC 4648 and decoding reads it back, whatever
a person adds to it, and the secret that is read from a text has its key. No step overflows. -/
theorem exact_codec :
    (∀ bytes, ∃ text, encode bytes = some text ∧ Spells text bytes ∧
      decode text = some (some bytes)) ∧
    (∀ text, decode text = decode (clean text)) ∧
    (∀ text, ∃ result, decode text = some result ∧
      (result = none ↔ (∃ c ∈ clean text, c ∉ alphabet) ∨ true ∈ leftover text) ∧
      ∀ bytes, result = some bytes ↔
        (∀ c ∈ clean text, c ∈ alphabet) ∧ true ∉ leftover text ∧
          textBits text = byteBits bytes ++ leftover text) ∧
    (∀ text, ∃ result, fromBase32 text = some result ∧
      ∀ secret, result = .ok secret ↔ ∃ bytes, decode text = some (some bytes) ∧
        minSecretBytes ≤ bytes.length ∧ encode bytes = some secret.toList ∧
          keyBytes secret = some (.ok bytes)) := by
  refine ⟨fun bytes => ?_, fun text => (decode_clean text).symm, decode_eq, fun text => ?_⟩
  · obtain ⟨text, htext, hspells⟩ := encode_eq bytes
    exact ⟨text, htext, hspells, decode_of_spells hspells⟩
  · obtain ⟨result, hdecode, -⟩ := decode_eq text
    rw [fromBase32, hdecode, Option.bind_eq_bind, Option.bind_some]
    cases result with
    | none => exact ⟨_, rfl, fun secret => by simp⟩
    | some bytes =>
      by_cases hshort : bytes.length < minSecretBytes
      · refine ⟨_, if_pos hshort, fun secret => ?_⟩
        simp only [reduceCtorEq, Option.some.injEq, exists_eq_left', false_iff, not_and]
        exact fun hlong => absurd hlong (Nat.not_le.mpr hshort)
      · obtain ⟨spelt, hspelt, -⟩ := encode_eq bytes
        refine ⟨.ok (String.ofList spelt), by simp [hshort, hspelt], fun secret => ?_⟩
        simp only [Except.ok.injEq, Option.some.injEq, exists_eq_left', hspelt,
          Nat.not_lt.mp hshort, true_and]
        constructor
        · rintro rfl
          exact ⟨(String.toList_ofList).symm, keyBytes_of_encode hspelt⟩
        · rintro ⟨rfl, -⟩
          exact String.ofList_toList

/-- The first vectors of RFC 4648. -/
example : encode [0x66, 0x6f] = some "MZXQ".toList ∧
    decode "mzx q====".toList = some (some [0x66, 0x6f]) ∧ decode "MZXR".toList = some none := by
  decide

end Moso.Auth.Base32
