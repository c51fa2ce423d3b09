import Moso.Foundation.Fallible
import Mathlib.Algebra.Group.Int.Defs
import Mathlib.Algebra.Group.Nat.Defs
import Mathlib.Data.List.Basic
import Mathlib.Data.List.Induction
import Mathlib.Tactic.Common

/-!
# Readers over byte strings

A reader stands at a position of a byte string and takes what comes next; each access is checked,
and an access that the checks have missed is a fault of its own. What a reading accepts is a
relation between values and the bytes that spell them: the rules say which relation a composed
reading has, and that it does not leave the string.
-/

namespace Wire

/-- Why a reading ends: the input is refused, or an access leaves its bounds. -/
inductive Fault where
  | malformed
  | panic
  deriving DecidableEq

/-- A position of a byte string. -/
structure Reader where
  bytes : List UInt8
  position : ℕ
  position_le : position ≤ bytes.length
  position_lt : position < 2 ^ 64

abbrev Read (α : Type) := StateT Reader (Except Fault) α

def Reader.new (bytes : List UInt8) : Reader := ⟨bytes, 0, Nat.zero_le _, by decide⟩

/-- The next `count` bytes; neither the new position nor the slice may leave its bounds. -/
def take (count : ℕ) : Read (List UInt8) := fun r =>
  if hlt : r.position + count < 2 ^ 64 then
    if hle : r.position + count ≤ r.bytes.length then
      .ok ((r.bytes.drop r.position).take count, ⟨r.bytes, r.position + count, hle, hlt⟩)
    else .error .malformed
  else .error .malformed

/-- The first byte of a slice, which has to be there. -/
def first : List UInt8 → Read UInt8
  | [] => throw .panic
  | b :: _ => pure b

def byte : Read UInt8 := do
  first (← take 1)

/-- A copy of a slice into an array of `n` bytes, which has to be as long. -/
def copied (n : ℕ) (slice : List UInt8) : Read (List UInt8) :=
  if slice.length = n then pure slice else throw .panic

/-- The next `n` bytes, as an array. -/
def array (n : ℕ) : Read (List UInt8) := do
  copied n (← take n)

def isExhausted : Read Bool := fun r => .ok (decide (r.position = r.bytes.length), r)

/-- A value if there is one. -/
def ofOption {α : Type} : Option α → Read α
  | some a => pure a
  | none => throw .malformed

/-! ### Numbers, their highest byte first -/

def beBytes : ℕ → ℕ → List UInt8
  | 0, _ => []
  | n + 1, v => beBytes n (v / 256) ++ [UInt8.ofNat v]

def beValue (bytes : List UInt8) : ℕ := bytes.foldl (fun v b => 256 * v + b.toNat) 0

@[simp] lemma length_beBytes (n v : ℕ) : (beBytes n v).length = n := by
  induction n generalizing v with
  | zero => rfl
  | succ n ih => rw [beBytes, List.length_append, ih, List.length_singleton]

lemma beValue_append (bytes : List UInt8) (b : UInt8) :
    beValue (bytes ++ [b]) = 256 * beValue bytes + b.toNat := by
  simp [beValue]

lemma beValue_beBytes (n v : ℕ) : beValue (beBytes n v) = v % 256 ^ n := by
  induction n generalizing v with
  | zero => rw [pow_zero, Nat.mod_one]; rfl
  | succ n ih =>
    rw [beBytes, beValue_append, ih, pow_succ', Nat.mod_mul, UInt8.toNat_ofNat']
    omega

lemma beBytes_beValue (bytes : List UInt8) : beBytes bytes.length (beValue bytes) = bytes := by
  induction bytes using List.reverseRecOn with
  | nil => rfl
  | append_singleton bytes b ih =>
    have hb := b.toNat_lt
    rw [List.length_append, List.length_singleton, beBytes, beValue_append]
    have hdiv : (256 * beValue bytes + b.toNat) / 256 = beValue bytes := by omega
    rw [hdiv, ih]
    refine congrArg (bytes ++ [·]) (UInt8.toNat.inj ?_)
    rw [UInt8.toNat_ofNat']
    omega

/-- The next `8 * n` bits, as a number. -/
def number (n : ℕ) : Read (BitVec (8 * n)) := do
  return BitVec.ofNat (8 * n) (beValue (← array n))

/-- The bytes of a number. -/
def toBeBytes {n : ℕ} (v : BitVec (8 * n)) : List UInt8 := beBytes n v.toNat

@[simp] lemma length_toBeBytes {n : ℕ} (v : BitVec (8 * n)) : (toBeBytes v).length = n :=
  length_beBytes n _

lemma ofNat_beValue_toBeBytes {n : ℕ} (v : BitVec (8 * n)) :
    BitVec.ofNat (8 * n) (beValue (toBeBytes v)) = v := by
  have hpow : 256 ^ n = 2 ^ (8 * n) := by rw [Nat.pow_mul]
  refine BitVec.eq_of_toNat_eq ?_
  rw [toBeBytes, beValue_beBytes, hpow, BitVec.toNat_ofNat, Nat.mod_mod, Nat.mod_eq_of_lt v.isLt]

lemma toBeBytes_ofNat_beValue (bytes : List UInt8) :
    toBeBytes (BitVec.ofNat (8 * bytes.length) (beValue bytes)) = bytes := by
  have hpow : 2 ^ (8 * bytes.length) = 256 ^ bytes.length := by rw [Nat.pow_mul]
  have hvalue : beValue bytes % 256 ^ bytes.length = beValue bytes := by
    conv_rhs => rw [← beBytes_beValue bytes, beValue_beBytes]
  rw [toBeBytes, BitVec.toNat_ofNat, hpow, hvalue, beBytes_beValue]

lemma toInt_ofInt {w : ℕ} {v : ℤ} (hle : -2 ^ w ≤ 2 * v) (hlt : 2 * v < 2 ^ w) :
    (BitVec.ofInt w v).toInt = v := by
  have hpow : ((2 ^ w : ℕ) : ℤ) = 2 ^ w := by push_cast; rfl
  rw [BitVec.toInt_ofInt, Int.bmod_eq_of_le_mul_two] <;> rw [hpow] <;> omega

lemma toNat_ofNat {w n : ℕ} (h : n < 2 ^ w) : (BitVec.ofNat w n).toNat = n := by
  rw [BitVec.toNat_ofNat, Nat.mod_eq_of_lt h]

/-! ### What a reading accepts -/

/-- A reader has passed over some bytes. -/
structure Step (r : Reader) (chunk : List UInt8) (r' : Reader) : Prop where
  bytes_eq : r'.bytes = r.bytes
  position_eq : r'.position = r.position + chunk.length
  isPrefix : chunk <+: r.bytes.drop r.position

/-- A reading accepts the bytes that spell a value, and stays in bounds on all others. -/
structure Reads {α : Type} (m : Read α) (Spells : α → List UInt8 → Prop) : Prop where
  eq_ok_iff : ∀ r a r', m r = .ok (a, r') ↔ ∃ chunk, Spells a chunk ∧ Step r chunk r'
  ne_panic : ∀ r, m r ≠ .error .panic

variable {α β : Type} {m : Read α} {f : α → Read β} {r r' r'' : Reader} {a b : List UInt8}
  {S T : α → List UInt8 → Prop} {U : α → β → List UInt8 → Prop}

lemma Reader.ext_iff' : r = r' ↔ r'.bytes = r.bytes ∧ r'.position = r.position := by
  cases r
  cases r'
  simp [eq_comm]

lemma Step.nil_iff : Step r [] r' ↔ r = r' := by
  rw [Reader.ext_iff']
  exact ⟨fun h => ⟨h.bytes_eq, h.position_eq⟩, fun h => ⟨h.1, h.2, List.nil_prefix⟩⟩

lemma Step.append (h : Step r a r') (h' : Step r' b r'') : Step r (a ++ b) r'' := by
  refine ⟨h'.bytes_eq.trans h.bytes_eq, ?_, ?_⟩
  · rw [h'.position_eq, h.position_eq, List.length_append, Nat.add_assoc]
  · obtain ⟨rest, hrest⟩ := h.isPrefix
    have hdrop : r'.bytes.drop r'.position = rest := by
      rw [h.bytes_eq, h.position_eq, ← List.drop_drop, ← hrest, List.drop_left]
    rw [← hrest]
    exact (List.prefix_append_right_inj a).mpr (hdrop ▸ h'.isPrefix)

lemma Step.length_le (h : Step r a r') : r.position + a.length ≤ r.bytes.length := by
  rw [← h.position_eq, ← h.bytes_eq]
  exact r'.position_le

/-- A step over two words stops between them. -/
lemma Step.split (h : Step r (a ++ b) r'') : ∃ r', Step r a r' ∧ Step r' b r'' := by
  have hle := h.length_le
  have hlt := r''.position_lt
  rw [h.position_eq] at hlt
  rw [List.length_append] at hle hlt
  obtain ⟨rest, hrest⟩ := h.isPrefix
  rw [List.append_assoc] at hrest
  refine ⟨⟨r.bytes, r.position + a.length, by omega, by omega⟩, ⟨rfl, rfl, _, hrest⟩,
    h.bytes_eq, ?_, ?_⟩
  · rw [h.position_eq, List.length_append, Nat.add_assoc]
  · dsimp only
    rw [← List.drop_drop, ← hrest, List.drop_left]
    exact List.prefix_append b rest

lemma Reads.pure (a : α) : Reads (pure a : Read α) fun x chunk => x = a ∧ chunk = [] := by
  refine ⟨fun r x r' => ?_, fun r h => by cases h⟩
  constructor
  · intro h
    obtain ⟨rfl, rfl⟩ := Prod.mk.inj (Except.ok.inj h)
    exact ⟨[], ⟨rfl, rfl⟩, Step.nil_iff.2 rfl⟩
  · rintro ⟨_, ⟨rfl, rfl⟩, hstep⟩
    obtain rfl := Step.nil_iff.1 hstep
    rfl

/-- A sequence of readings; the second may rely on what the first accepts. -/
lemma Reads.bind (hm : Reads m S) (hf : ∀ a c, S a c → Reads (f a) (U a)) :
    Reads (m >>= f) fun y chunk => ∃ a c d, S a c ∧ U a y d ∧ chunk = c ++ d := by
  constructor
  · intro r y r''
    have hbind : (m >>= f) r = .ok (y, r'') ↔
        ∃ p, m r = .ok p ∧ f p.1 p.2 = .ok (y, r'') := Fallible.bind_eq_ok
    rw [hbind]
    constructor
    · rintro ⟨⟨a, r'⟩, ha, hy⟩
      obtain ⟨c, hc, hstep⟩ := (hm.eq_ok_iff r a r').mp ha
      obtain ⟨d, hd, hstep'⟩ := ((hf a c hc).eq_ok_iff r' y r'').mp hy
      exact ⟨c ++ d, ⟨a, c, d, hc, hd, rfl⟩, hstep.append hstep'⟩
    · rintro ⟨_, ⟨a, c, d, hc, hd, rfl⟩, hstep⟩
      obtain ⟨r', hc', hd'⟩ := hstep.split
      exact ⟨(a, r'), (hm.eq_ok_iff r a r').mpr ⟨c, hc, hc'⟩,
        ((hf a c hc).eq_ok_iff r' y r'').mpr ⟨d, hd, hd'⟩⟩
  · intro r h
    cases hmr : m r with
    | error e =>
      have herror : (m >>= f) r = .error e := by
        change (m r >>= _) = _
        rw [hmr]
        rfl
      rw [herror] at h
      obtain rfl := Except.error.inj h
      exact hm.ne_panic r hmr
    | ok p =>
      have hok : (m >>= f) r = f p.1 p.2 := by
        change (m r >>= _) = _
        rw [hmr]
        rfl
      obtain ⟨c, hc, -⟩ := (hm.eq_ok_iff r p.1 p.2).mp hmr
      exact (hf p.1 c hc).ne_panic p.2 (hok ▸ h)

/-- What a reading accepts may be put in other words. -/
lemma Reads.congr (hm : Reads m S) (h : ∀ a c, S a c ↔ T a c) : Reads m T := by
  refine ⟨fun r a r' => ?_, hm.ne_panic⟩
  rw [hm.eq_ok_iff]
  exact exists_congr fun c => and_congr_left' (h a c)

lemma Reads.take (n : ℕ) : Reads (take n) fun slice chunk => chunk = slice ∧ slice.length = n := by
  constructor
  · intro r slice r'
    unfold Wire.take
    split_ifs with hlt hle
    · rw [Except.ok.injEq, Prod.mk.injEq]
      have hlength : ((r.bytes.drop r.position).take n).length = n := by
        rw [List.length_take, List.length_drop]
        omega
      constructor
      · rintro ⟨rfl, rfl⟩
        exact ⟨_, ⟨rfl, hlength⟩, rfl, by rw [hlength], List.take_prefix _ _⟩
      · rintro ⟨_, ⟨rfl, rfl⟩, hstep⟩
        refine ⟨(List.prefix_iff_eq_take.mp hstep.isPrefix).symm, ?_⟩
        exact Reader.ext_iff'.2 ⟨hstep.bytes_eq, hstep.position_eq⟩
    · simp only [false_iff]
      rintro ⟨_, ⟨rfl, rfl⟩, hstep⟩
      exact hle hstep.length_le
    · simp only [false_iff]
      rintro ⟨_, ⟨rfl, rfl⟩, hstep⟩
      exact hlt (hstep.position_eq ▸ r'.position_lt)
  · intro r
    unfold Wire.take
    split_ifs <;> exact fun h => by cases h

/-- Of two spellings neither goes on with the other. -/
lemma Reads.unique (hm : Reads m S) {x y : α} {c d s t : List UInt8} (hc : S x c) (hd : S y d)
    (hclt : c.length < 2 ^ 64) (hdlt : d.length < 2 ^ 64) (heq : c ++ s = d ++ t) :
    x = y ∧ c = d := by
  have hstep : ∀ (e u : List UInt8) (hlt : e.length < 2 ^ 64) (heu : e ++ u = c ++ s),
      Step (Reader.new (c ++ s)) e ⟨c ++ s, e.length, by
        rw [← heu, List.length_append]
        omega, hlt⟩ := by
    intro e u hlt heu
    refine ⟨rfl, (Nat.zero_add _).symm, ?_⟩
    change e <+: (c ++ s).drop 0
    rw [List.drop_zero, ← heu]
    exact List.prefix_append e u
  have hx := (hm.eq_ok_iff _ _ _).mpr ⟨c, hc, hstep c s hclt rfl⟩
  have hy := (hm.eq_ok_iff _ _ _).mpr ⟨d, hd, hstep d t hdlt heq.symm⟩
  rw [hx, Except.ok.injEq, Prod.mk.injEq, Reader.mk.injEq] at hy
  refine ⟨hy.1, ?_⟩
  exact (List.append_inj heq hy.2.2).1

/-- A reading passes over all of a string when the string spells what it returns. -/
lemma Reads.whole_iff (hm : Reads m S) {x : α} {bytes : List UInt8} :
    (∃ r, m (Reader.new bytes) = .ok (x, r) ∧ r.position = r.bytes.length) ↔
      bytes.length < 2 ^ 64 ∧ S x bytes := by
  constructor
  · rintro ⟨r, hr, hend⟩
    obtain ⟨chunk, hchunk, hstep⟩ := (hm.eq_ok_iff _ _ _).mp hr
    have hbytes : r.bytes = bytes := hstep.bytes_eq
    have hlength : chunk.length = bytes.length := by
      rw [← hbytes, ← hend, hstep.position_eq]
      exact (Nat.zero_add _).symm
    obtain rfl : chunk = bytes := hstep.isPrefix.eq_of_length hlength
    exact ⟨hbytes ▸ hend ▸ r.position_lt, hchunk⟩
  · rintro ⟨hlt, hx⟩
    refine ⟨⟨bytes, bytes.length, Nat.le_refl _, hlt⟩, (hm.eq_ok_iff _ _ _).mpr ⟨bytes, hx, ?_⟩, rfl⟩
    exact ⟨rfl, (Nat.zero_add _).symm, List.prefix_refl bytes⟩

lemma Reads.malformed : Reads (throw .malformed : Read α) fun _ _ => False :=
  ⟨fun _ _ _ => iff_of_false (fun h => by cases h) fun ⟨_, h, _⟩ => h, fun _ h => by cases h⟩

lemma Reads.ofOption (o : Option α) :
    Reads (ofOption o) fun a chunk => o = some a ∧ chunk = [] := by
  cases o with
  | none => exact (Reads.malformed).congr fun a chunk => by simp
  | some x => exact (Reads.pure x).congr fun a chunk => by simp [eq_comm]

lemma Reads.byte : Reads byte fun x chunk => chunk = [x] := by
  have hfirst : ∀ slice chunk, chunk = slice ∧ slice.length = 1 →
      Reads (first slice) fun x rest => slice = [x] ∧ rest = [] := by
    rintro slice _ ⟨rfl, hlen⟩
    obtain ⟨y, rfl⟩ := List.length_eq_one_iff.mp hlen
    exact (Reads.pure y).congr fun x chunk => by simp [eq_comm]
  refine ((Reads.take 1).bind hfirst).congr fun x chunk => ?_
  constructor
  · rintro ⟨slice, _, _, ⟨rfl, -⟩, ⟨rfl, rfl⟩, rfl⟩
    rfl
  · rintro rfl
    exact ⟨[x], [x], [], ⟨rfl, rfl⟩, ⟨rfl, rfl⟩, rfl⟩

lemma Reads.array (n : ℕ) : Reads (array n) fun slice chunk => chunk = slice ∧ slice.length = n := by
  have hcopied : ∀ slice chunk, chunk = slice ∧ slice.length = n →
      Reads (copied n slice) fun x rest => x = slice ∧ rest = [] := by
    rintro slice _ ⟨rfl, hlen⟩
    rw [copied, if_pos hlen]
    exact Reads.pure _
  refine ((Reads.take n).bind hcopied).congr fun x chunk => ?_
  constructor
  · rintro ⟨slice, _, _, ⟨rfl, hlen⟩, ⟨rfl, rfl⟩, rfl⟩
    exact ⟨List.append_nil _, hlen⟩
  · rintro ⟨rfl, hlen⟩
    exact ⟨_, _, [], ⟨rfl, hlen⟩, ⟨rfl, rfl⟩, (List.append_nil _).symm⟩

lemma Reads.number (n : ℕ) : Reads (number n) fun v chunk => chunk = toBeBytes v := by
  refine ((Reads.array n).bind fun slice _ _ => Reads.pure _).congr fun v chunk => ?_
  constructor
  · rintro ⟨slice, _, _, ⟨rfl, rfl⟩, ⟨rfl, rfl⟩, rfl⟩
    rw [toBeBytes_ofNat_beValue, List.append_nil]
  · rintro rfl
    exact ⟨toBeBytes v, toBeBytes v, [], ⟨rfl, length_toBeBytes v⟩,
      ⟨(ofNat_beValue_toBeBytes v).symm, rfl⟩, (List.append_nil _).symm⟩

/-- A reading that is followed by a function of its result. -/
lemma Reads.map {g : α → β} (hm : Reads m S) :
    Reads (do return g (← m)) fun y chunk => ∃ a, y = g a ∧ S a chunk := by
  refine (hm.bind fun a _ _ => Reads.pure (g a)).congr fun y chunk => ?_
  constructor
  · rintro ⟨a, c, _, ha, ⟨rfl, rfl⟩, rfl⟩
    exact ⟨a, rfl, by rwa [List.append_nil]⟩
  · rintro ⟨a, rfl, ha⟩
    exact ⟨a, chunk, [], ha, ⟨rfl, rfl⟩, (List.append_nil _).symm⟩

/-- A reading that is followed by a conversion of its result, which may be refused. -/
lemma Reads.bindOption {g : α → Option β} (hm : Reads m S) :
    Reads (do Wire.ofOption (g (← m))) fun y chunk => ∃ a, S a chunk ∧ g a = some y := by
  refine (hm.bind fun a _ _ => Reads.ofOption (g a)).congr fun y chunk => ?_
  constructor
  · rintro ⟨a, c, _, ha, ⟨hy, rfl⟩, rfl⟩
    exact ⟨a, by rwa [List.append_nil], hy⟩
  · rintro ⟨a, ha, hy⟩
    exact ⟨a, chunk, [], ha, ⟨hy, rfl⟩, (List.append_nil _).symm⟩

end Wire
