import Moso.Kv.Key
import Moso.Foundation.Decimal
import Moso.Foundation.Framing
import Moso.Foundation.Utf8
import Mathlib.Tactic.Common

/-!
# Keys cannot be forged

A finished key is the sentinel and then the header's fields and the segments, each preceded by a
colon that nothing between the colons contains. So a text can be split at its colons, a segment
can be decoded, and a prefix that ends in a colon is a prefix of whole fields.
-/

namespace Moso.Kv

open Framing

/-! ### What is written -/

@[simp] lemma toList_pushAll (out : String) (chars : List Char) :
    (pushAll out chars).toList = out.toList ++ chars := by
  unfold pushAll
  induction chars generalizing out with
  | nil => simp
  | cons ch chars ih => simp [ih, String.toList_push]

@[simp] lemma toList_escapeInto (out part : String) :
    (escapeInto out part).toList = out.toList ++ part.toList.flatMap escapeChar := by
  unfold escapeInto
  induction part.toList generalizing out with
  | nil => simp
  | cons ch chars ih => simp [ih]

lemma digitChar_eq_ofNat {d : ℕ} (h : d < 10) : d.digitChar = Char.ofNat (48 + d) := by
  decide +revert

/-- Within its room, the digit loop of `push_u64` writes the decimal digits. -/
lemma u64Digits_eq {room value : ℕ} (digits : List Char) (hpos : value ≠ 0)
    (hroom : value < 10 ^ room) :
    u64Digits room value digits = Nat.toDigits 10 value ++ digits := by
  induction room generalizing value digits with
  | zero => omega
  | succ room ih =>
    rw [u64Digits, if_neg hpos, Nat.toDigits_eq_if (by decide),
      ← digitChar_eq_ofNat (Nat.mod_lt _ (by decide))]
    split_ifs with hlt
    · rw [Nat.div_eq_of_lt hlt, Nat.mod_eq_of_lt hlt]
      cases room <;> rfl
    · rw [ih _ (by omega) (by omega), List.append_assoc]
      rfl

lemma toList_pushU64 (out : String) {value : ℕ} (h : value < 10 ^ 20) :
    (pushU64 out value).toList = out.toList ++ Nat.toDigits 10 value := by
  unfold pushU64
  split_ifs with hzero
  · rw [hzero, String.toList_push, Nat.toDigits_zero]
  · rw [toList_pushAll, u64Digits_eq [] hzero h, List.append_nil]

lemma toDigits_injective : Function.Injective (Nat.toDigits 10) := fun m n h => by
  rw [← Nat.ofDigitChars_ten_toDigits (n := m), h, Nat.ofDigitChars_ten_toDigits]

/-! ### Bytes -/

lemma asBytes_eq (s : String) : asBytes s = s.toList.flatMap String.utf8EncodeChar := by
  rw [asBytes, ← String.utf8Encode_toList, List.utf8Encode]
  simp

lemma mem_asBytes_of_ascii {s : String} {ch : Char} (h : ch ∈ s.toList) (hascii : ch.toNat < 0x80) :
    ch.toNat.toUInt8 ∈ asBytes s := by
  rw [asBytes_eq, List.mem_flatMap]
  refine ⟨ch, h, ?_⟩
  have hv : ch.val.toNat ≤ 0x7f := Nat.le_of_lt_succ hascii
  simp only [String.utf8EncodeChar, if_pos hv]
  exact List.mem_singleton_self _

/-- The character is not a control character. -/
def Clean (ch : Char) : Prop := 0x20 ≤ ch.toNat ∧ ch.toNat ≠ 0x7f

/-- A text of clean characters has no control byte. -/
lemma bytes_of_clean {s : String} (h : ∀ ch ∈ s.toList, Clean ch) :
    ∀ b ∈ asBytes s, 0x20 ≤ b ∧ b ≠ 0x7f := by
  intro b hb
  rw [asBytes_eq, List.mem_flatMap] at hb
  obtain ⟨ch, hch, hb⟩ := hb
  have hclean := h ch hch
  rw [UInt8.le_iff_toNat_le, ne_eq, ← UInt8.toNat_inj]
  change 32 ≤ b.toNat ∧ ¬ b.toNat = 127
  unfold Clean at hclean
  rcases Utf8.mem_utf8EncodeChar hb with ⟨-, heq⟩ | hge <;> omega

/-! ### The escape code -/

lemma hexDigit_injective : Function.Injective hexDigit := by
  have h : ∀ m n : Fin 16, hexDigit m = hexDigit n → m = n := by decide
  exact h

lemma hexByte_injective : Function.Injective hexByte := by
  intro b b' h
  simp only [hexByte, List.cons.injEq, (hexDigit_injective).eq_iff, Fin.mk.injEq, and_true] at h
  rw [← UInt8.toNat_inj]
  omega

lemma length_hexByte (b : UInt8) : (hexByte b).length = 2 := rfl

lemma prefixFree_hexByte : PrefixFree hexByte :=
  prefixFree_of_length length_hexByte hexByte_injective

lemma toUInt8_inj_of_ascii {a b : Char} (ha : a.toNat < 0x80) (hb : b.toNat < 0x80)
    (h : a.toNat.toUInt8 = b.toNat.toUInt8) : a = b := by
  have := congrArg UInt8.toNat h
  rw [UInt8.toNat_ofNat', UInt8.toNat_ofNat'] at this
  exact Char.toNat_inj.mp (by omega)

/-- The escapes differ in their second character, and two escaped control bytes in their digits;
a character that stands for itself is not the backslash. -/
lemma prefixFree_escapeChar : PrefixFree escapeChar := by
  intro a b h
  unfold escapeChar at h
  split_ifs at h <;> simp_all [List.cons_prefix_cons]
  case pos ha _ _ _ hb =>
    exact toUInt8_inj_of_ascii (by omega) (by omega) (prefixFree_hexByte _ _ h)

lemma escapeChar_ne_nil (ch : Char) : escapeChar ch ≠ [] := by
  unfold escapeChar
  split_ifs <;> simp

lemma hexDigit_mem (n : Fin 16) : hexDigit n ≠ ':' ∧ hexDigit n ≠ '#' ∧ Clean (hexDigit n) := by
  have h : ∀ n : Fin 16, hexDigit n ≠ ':' ∧ hexDigit n ≠ '#' ∧ 0x20 ≤ (hexDigit n).toNat ∧
      (hexDigit n).toNat ≠ 0x7f := by decide
  exact h n

lemma mem_hexByte {byte : UInt8} {ch : Char} (h : ch ∈ hexByte byte) :
    ch ≠ ':' ∧ ch ≠ '#' ∧ Clean ch := by
  simp only [hexByte, List.mem_cons, List.not_mem_nil, or_false] at h
  rcases h with rfl | rfl <;> exact hexDigit_mem _

/-- What is written for a character holds no separator, no marker and no control character. -/
lemma mem_escapeChar {ch c : Char} (h : c ∈ escapeChar ch) : c ≠ ':' ∧ c ≠ '#' ∧ Clean c := by
  unfold escapeChar at h
  split_ifs at h with h₁ h₂ h₃ h₄
  · simp only [List.mem_cons, List.not_mem_nil, or_false, or_self] at h
    subst h
    exact ⟨by decide, by decide, by decide, by decide⟩
  · simp only [List.mem_cons, List.not_mem_nil, or_false] at h
    rcases h with rfl | rfl <;> exact ⟨by decide, by decide, by decide, by decide⟩
  · simp only [List.mem_cons, List.not_mem_nil, or_false] at h
    rcases h with rfl | rfl <;> exact ⟨by decide, by decide, by decide, by decide⟩
  · rw [List.mem_cons, List.mem_cons] at h
    rcases h with rfl | rfl | h
    · exact ⟨by decide, by decide, by decide, by decide⟩
    · exact ⟨by decide, by decide, by decide, by decide⟩
    · exact mem_hexByte h
  · rw [List.mem_singleton] at h
    subst h
    exact ⟨h₂, h₃, by omega, by omega⟩

/-! ### Segments -/

/-- The characters of a segment, after its separator. -/
def encode : String ⊕ List UInt8 → List Char
  | .inl text => text.toList.flatMap escapeChar
  | .inr bytes => '#' :: bytes.flatMap hexByte

lemma not_marker_mem_text (text : String) : '#' ∉ encode (.inl text) := fun h => by
  obtain ⟨ch, -, hch⟩ := List.mem_flatMap.mp h
  exact (mem_escapeChar hch).2.1 rfl

/-- A segment determines what it is about, and a text segment is never a byte segment. -/
lemma encode_injective : Function.Injective encode := by
  rintro (text | bytes) (text' | bytes') h
  · have := (prefixFree_escapeChar).flatMap_injective escapeChar_ne_nil h
    rw [String.toList_injective this]
  · exact absurd (show '#' ∈ encode (.inl text) from h ▸ List.mem_cons_self)
      (not_marker_mem_text text)
  · exact absurd (show '#' ∈ encode (.inl text') from h ▸ List.mem_cons_self)
      (not_marker_mem_text text')
  · have := (prefixFree_hexByte).flatMap_injective (fun _ => List.cons_ne_nil _ _)
      (List.cons.inj h).2
    rw [this]

lemma mem_encode {content : String ⊕ List UInt8} {c : Char} (h : c ∈ encode content) :
    c ≠ ':' ∧ Clean c := by
  cases content with
  | inl text =>
    obtain ⟨ch, -, hch⟩ := List.mem_flatMap.mp h
    exact ⟨(mem_escapeChar hch).1, (mem_escapeChar hch).2.2⟩
  | inr bytes =>
    rcases List.mem_cons.mp h with rfl | h
    · exact ⟨by decide, by decide, by decide⟩
    · obtain ⟨byte, -, hc⟩ := List.mem_flatMap.mp h
      exact ⟨(mem_hexByte hc).1, (mem_hexByte hc).2.2⟩

namespace KeyBuf

lemma toList_foldl_escapeInto (out : String) (chunks : List String) :
    (chunks.foldl escapeInto out).toList =
      out.toList ++ (chunks.flatMap String.toList).flatMap escapeChar := by
  induction chunks generalizing out with
  | nil => simp
  | cons chunk chunks ih => simp [ih, List.flatMap_append]

lemma toList_foldl_hexByte (out : String) (part : List UInt8) :
    (part.foldl (fun text byte => pushAll text (hexByte byte)) out).toList =
      out.toList ++ part.flatMap hexByte := by
  induction part generalizing out with
  | nil => simp
  | cons byte part ih => simp [ih]

/-- Every call on the buffer appends the separator and the segment; how a text is cut into chunks
makes no difference. -/
lemma toList_segment (buf : KeyBuf) (seg : Segment) :
    (buf.segment seg).text.toList = buf.text.toList ++ ':' :: encode seg.content := by
  cases seg with
  | str part => simp [segment, segmentStr, Segment.content, encode, String.toList_push]
  | display chunks =>
    simp [segment, segmentDisplay, Segment.content, encode, String.toList_push,
      toList_foldl_escapeInto]
  | bytes part =>
    simp [segment, segmentBytes, Segment.content, encode, String.toList_push,
      toList_foldl_hexByte]

lemma toList_segments (buf : KeyBuf) (segs : List Segment) :
    (segs.foldl segment buf).text.toList =
      buf.text.toList ++ preceded ':' (segs.map fun seg => encode seg.content) := by
  induction segs generalizing buf with
  | nil => simp
  | cons seg segs ih => simp [ih, toList_segment]

end KeyBuf

/-! ### The header -/

/-- The characters of a valid name are neither separators nor control characters. -/
lemma mem_of_isValidName {name : String} (h : isValidName name = true) {ch : Char}
    (hch : ch ∈ name.toList) : ch ≠ ':' ∧ Clean ch := by
  by_cases hascii : ch.toNat < 0x80
  · have hall : (asBytes name).all isNameByte = true := by
      unfold isValidName at h
      dsimp only at h
      split_ifs at h
      exact h
    have hbyte := List.all_eq_true.mp hall _ (mem_asBytes_of_ascii hch hascii)
    have hnat : ch.toNat.toUInt8.toNat = ch.toNat := by
      rw [UInt8.toNat_ofNat']
      omega
    simp only [isNameByte, Bool.or_eq_true, Bool.and_eq_true, decide_eq_true_eq, beq_iff_eq,
      UInt8.le_iff_toNat_le, ← UInt8.toNat_inj, hnat] at hbyte
    have hcolon : (':' : Char).toNat = 58 := by decide
    refine ⟨?_, ?_⟩
    · rintro rfl
      simp [hcolon] at hbyte
    · simp at hbyte
      unfold Clean
      omega
  · have hcolon : (':' : Char).toNat = 58 := by decide
    refine ⟨?_, by unfold Clean; omega⟩
    rintro rfl
    omega

/-- What stands between the colons of a header, after the sentinel. -/
def headerFields (app namespace_ : String) (version : UInt16) : List (List Char) :=
  [keyFormat.toList, app.toList, namespace_.toList, Nat.toDigits 10 version.toNat]

lemma mem_headerFields {app namespace_ : String} {version : UInt16}
    (happ : isValidName app = true) (hns : isValidName namespace_ = true) :
    ∀ f ∈ headerFields app namespace_ version, ∀ ch ∈ f, ch ≠ ':' ∧ Clean ch := by
  intro f hf ch hch
  simp only [headerFields, List.mem_cons, List.not_mem_nil, or_false] at hf
  rcases hf with rfl | rfl | rfl | rfl
  · have h : ∀ ch ∈ keyFormat.toList, ch ≠ ':' ∧ 0x20 ≤ ch.toNat ∧ ch.toNat ≠ 0x7f := by
      simp [keyFormat]
    exact h ch hch
  · exact mem_of_isValidName happ hch
  · exact mem_of_isValidName hns hch
  · have hdigit := Decimal.toNat_of_isDigit
      (Nat.isDigit_of_mem_toDigits (by decide) (by decide) hch)
    have hcolon : (':' : Char).toNat = 58 := by decide
    refine ⟨?_, by unfold Clean; omega⟩
    rintro rfl
    omega

lemma headerFields_inj {app app' namespace_ namespace' : String} {version version' : UInt16}
    (h : headerFields app namespace_ version = headerFields app' namespace' version') :
    app = app' ∧ namespace_ = namespace' ∧ version = version' := by
  simp only [headerFields, List.cons.injEq, true_and, and_true] at h
  exact ⟨String.toList_injective h.1, String.toList_injective h.2.1,
    UInt16.toNat_inj.mp (toDigits_injective h.2.2)⟩

/-- A sequence of checks succeeds when each of them does. -/
lemma bind_eq_ok {ε α β : Type} {x : Except ε α} {f : α → Except ε β} {b : β} :
    (x >>= f) = .ok b ↔ ∃ a, x = .ok a ∧ f a = .ok b := by
  cases x <;> simp [bind, Except.bind]

namespace KeyBuf

lemma validateName_eq_ok {kind name : String} :
    validateName kind name = .ok () ↔ isValidName name = true := by
  unfold validateName
  split_ifs with h <;> simp [h]

lemma toList_new {app namespace_ : String} {version : UInt16} {buf : KeyBuf}
    (h : new app namespace_ version = .ok buf) :
    isValidName app = true ∧ isValidName namespace_ = true ∧
      buf.text.toList =
        keySentinel.toList ++ preceded ':' (headerFields app namespace_ version) := by
  have hv := version.toNat_lt
  unfold new at h
  obtain ⟨_, happ, h⟩ := bind_eq_ok.1 h
  obtain ⟨_, hns, h⟩ := bind_eq_ok.1 h
  obtain rfl := Except.ok.inj h
  refine ⟨validateName_eq_ok.1 happ, validateName_eq_ok.1 hns, ?_⟩
  rw [toList_pushU64 _ (by omega)]
  simp [headerFields, String.toList_push]

lemma finish_eq_ok {buf : KeyBuf} {key : Key} (h : buf.finish = .ok key) :
    key.text = buf.text := by
  unfold finish at h
  split_ifs at h
  rw [← Except.ok.inj h]

/-- A key is its header and its segments, each preceded by a colon. -/
lemma toList_build {app namespace_ : String} {version : UInt16} {segs : List Segment} {key : Key}
    (h : build app namespace_ version segs = .ok key) :
    isValidName app = true ∧ isValidName namespace_ = true ∧
      key.text.toList = keySentinel.toList ++ preceded ':'
        (headerFields app namespace_ version ++ segs.map fun seg => encode seg.content) := by
  obtain ⟨buf, hbuf, hfinish⟩ := bind_eq_ok.1 h
  obtain ⟨happ, hns, htext⟩ := toList_new hbuf
  refine ⟨happ, hns, ?_⟩
  rw [finish_eq_ok hfinish, toList_segments, htext, preceded_append, List.append_assoc]

/-- A namespace's prefix is its header and one more colon. -/
lemma toList_buildPrefix {app namespace_ : String} {version : UInt16} {key : Key}
    (h : buildPrefix app namespace_ version = .ok key) :
    isValidName app = true ∧ isValidName namespace_ = true ∧
      key.text.toList = keySentinel.toList ++
        (preceded ':' (headerFields app namespace_ version) ++ [':']) := by
  obtain ⟨buf, hbuf, hfinish⟩ := bind_eq_ok.1 h
  obtain ⟨happ, hns, htext⟩ := toList_new hbuf
  refine ⟨happ, hns, ?_⟩
  rw [finish_eq_ok hfinish, String.toList_push, htext, List.append_assoc]

variable {app app' namespace_ namespace' : String} {version version' : UInt16}
  {segs segs' : List Segment} {key key' start : Key}

lemma mem_fields (happ : isValidName app = true) (hns : isValidName namespace_ = true) :
    ∀ f ∈ headerFields app namespace_ version ++ segs.map fun seg => encode seg.content,
      ∀ ch ∈ f, ch ≠ ':' ∧ Clean ch := by
  intro f hf ch hch
  rcases List.mem_append.mp hf with hf | hf
  · exact mem_headerFields happ hns f hf ch hch
  · obtain ⟨seg, -, rfl⟩ := List.mem_map.mp hf
    exact mem_encode hch

/-- Headers have one length, so the fields of two keys agree header by header and segment by
segment. -/
lemma fields_inj
    (h : headerFields app namespace_ version ++ (segs.map fun seg => encode seg.content) =
      headerFields app' namespace' version' ++ segs'.map fun seg => encode seg.content) :
    (app = app' ∧ namespace_ = namespace' ∧ version = version') ∧
      segs.map Segment.content = segs'.map Segment.content := by
  obtain ⟨hheader, hsegs⟩ := List.append_inj h rfl
  refine ⟨headerFields_inj hheader, ?_⟩
  have : (segs.map Segment.content).map encode = (segs'.map Segment.content).map encode := by
    rw [List.map_map, List.map_map]
    exact hsegs
  exact List.map_injective_iff.mpr encode_injective this

/-- Equal texts come from the same header and the same segments. -/
lemma build_inj (h : build app namespace_ version segs = .ok key)
    (h' : build app' namespace' version' segs' = .ok key') (heq : key.text = key'.text) :
    (app = app' ∧ namespace_ = namespace' ∧ version = version') ∧
      segs.map Segment.content = segs'.map Segment.content := by
  obtain ⟨happ, hns, htext⟩ := toList_build h
  obtain ⟨happ', hns', htext'⟩ := toList_build h'
  refine fields_inj (preceded_inj (fun f hf hmem => ?_) (fun f hf hmem => ?_)
    (List.append_cancel_left (htext.symm.trans ((congrArg String.toList heq).trans htext'))))
  · exact (mem_fields happ hns f hf ':' hmem).1 rfl
  · exact (mem_fields happ' hns' f hf ':' hmem).1 rfl

/-- A key starts with a namespace's prefix exactly when it has a segment and that header. -/
lemma startsWith_iff (h : build app namespace_ version segs = .ok key)
    (h' : buildPrefix app' namespace' version' = .ok start) :
    key.startsWith start = true ↔
      segs ≠ [] ∧ app = app' ∧ namespace_ = namespace' ∧ version = version' := by
  obtain ⟨happ, hns, htext⟩ := toList_build h
  obtain ⟨happ', hns', htext'⟩ := toList_buildPrefix h'
  rw [Key.startsWith, List.isPrefixOf_iff_prefix, htext, htext', List.prefix_append_right_inj,
    preceded_append_sep_prefix_iff
      (fun f hf hmem => (mem_headerFields happ' hns' f hf ':' hmem).1 rfl)
      (fun f hf hmem => (mem_fields happ hns f hf ':' hmem).1 rfl)]
  constructor
  · rintro ⟨H, hne, heq⟩
    obtain ⟨hheader, rfl⟩ := List.append_inj heq rfl
    exact ⟨fun hnil => hne (by rw [hnil]; rfl), headerFields_inj hheader⟩
  · rintro ⟨hne, rfl, rfl, rfl⟩
    exact ⟨_, by simpa using hne, rfl⟩

/-- No key holds a control byte. -/
lemma bytes_of_build (h : build app namespace_ version segs = .ok key) :
    ∀ b ∈ asBytes key.text, 0x20 ≤ b ∧ b ≠ 0x7f := by
  obtain ⟨happ, hns, htext⟩ := toList_build h
  refine bytes_of_clean fun ch hch => ?_
  rw [htext, List.mem_append] at hch
  rcases hch with hch | hch
  · have hclean : ∀ ch ∈ keySentinel.toList, 0x20 ≤ ch.toNat ∧ ch.toNat ≠ 0x7f := by
      simp [keySentinel]
    exact hclean ch hch
  · obtain ⟨f, hf, hch⟩ := List.mem_flatMap.mp hch
    rcases List.mem_cons.mp hch with rfl | hch
    · exact ⟨by decide, by decide⟩
    · exact (mem_fields happ hns f hf ch hch).2

/-- Keys are injective and cannot forge a namespace: a finished text determines the application,
the namespace, the version and the segments, it starts with a namespace's prefix exactly when it
was built with a segment under that header, and it has no control byte. -/
theorem build_injective {app₀ namespace₀ : String} {version₀ : UInt16}
    (h : build app namespace_ version segs = .ok key)
    (h' : build app' namespace' version' segs' = .ok key')
    (hstart : buildPrefix app₀ namespace₀ version₀ = .ok start) :
    (key.text = key'.text →
      (app = app' ∧ namespace_ = namespace' ∧ version = version') ∧
        segs.map Segment.content = segs'.map Segment.content) ∧
      (key.startsWith start = true ↔
        segs ≠ [] ∧ app = app₀ ∧ namespace_ = namespace₀ ∧ version = version₀) ∧
      ∀ b ∈ asBytes key.text, 0x20 ≤ b ∧ b ≠ 0x7f :=
  ⟨build_inj h h', startsWith_iff h hstart, bytes_of_build h⟩

/-- One profile, written as a string and as two chunks. -/
theorem build_injective_profile :
    ∃ key key' start, build "shop" "profile" 1 [.str "a:b"] = .ok key ∧
      build "shop" "profile" 1 [.display ["a", ":b"]] = .ok key' ∧
      buildPrefix "shop" "profile" 1 = .ok start ∧
      (key.text = key'.text →
        ("shop" = "shop" ∧ "profile" = "profile" ∧ (1 : UInt16) = 1) ∧
          [Segment.str "a:b"].map Segment.content =
            [Segment.display ["a", ":b"]].map Segment.content) ∧
      (key.startsWith start = true ↔
        [Segment.str "a:b"] ≠ [] ∧ "shop" = "shop" ∧ "profile" = "profile" ∧ (1 : UInt16) = 1) ∧
      ∀ b ∈ asBytes key.text, 0x20 ≤ b ∧ b ≠ 0x7f := by
  refine ⟨⟨"moso:v1:shop:profile:1:a\\cb", 22⟩, ⟨"moso:v1:shop:profile:1:a\\cb", 22⟩,
    ⟨"moso:v1:shop:profile:1:", 22⟩, by decide, by decide, by decide, ?_⟩
  exact build_injective (by decide) (by decide) (by decide)

end KeyBuf

end Moso.Kv
