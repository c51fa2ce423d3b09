import Moso.Kv.Key.Injective

/-!
# Adopted keys and their headers

A key knows where its header ends: `KeyBuf` from where it wrote the header, `from_raw` from the
fifth colon of an adopted text, and `joined` from the key that it appends a segment to. The three
agree but when a segment is joined onto an adopted text of fewer than four colons, where another
header ends with every colon that is appended. Such a key differs from the same text adopted.
-/

namespace Moso.Kv

open Framing

/-- The loop of `header_len`, with the separators seen and the index reached. -/
def headerLenLoop (seen index : ℕ) : List UInt8 → Option ℕ
  | [] => none
  | byte :: bytes =>
    if byte = 58 then
      if seen + 1 = 5 then some index else headerLenLoop (seen + 1) (index + 1) bytes
    else headerLenLoop seen (index + 1) bytes

/-- Where the header ends in an adopted key. -/
def headerLen (text : String) : ℕ :=
  (headerLenLoop 0 0 (asBytes text)).getD text.utf8ByteSize

namespace Key

/-- Adopt an already-formed key string. What the error shows of a text is the library's. -/
def fromRaw (escapeDebug : String → String) (text : String) : Except KeyError Key :=
  if text.utf8ByteSize > maxKeyLen then .error (.tooLong text.utf8ByteSize maxKeyLen)
  else if 0 ∈ asBytes text then
    .error (.invalidName "key" (escapeDebug text) "a key must not contain a NUL byte")
  else .ok { text := text, prefixLen := headerLen text }

/-- A new key with `suffix` appended as one more escaped segment. -/
def joined (key : Key) (suffix : String) : Except KeyError Key :=
  let text := escapeInto (key.text.push ':') suffix
  if text.utf8ByteSize > maxKeyLen then .error (.tooLong text.utf8ByteSize maxKeyLen)
  else .ok { text := text, prefixLen := key.prefixLen }

end Key

/-- How a key is obtained. -/
inductive KeyRecipe where
  | finish (app namespace_ : String) (version : UInt16) (segments : List Segment)
  | finishPrefix (app namespace_ : String) (version : UInt16) (segments : List Segment)
  | fromRaw (text : String)
  | joined (recipe : KeyRecipe) (suffix : String)

namespace KeyRecipe

def make (escapeDebug : String → String) : KeyRecipe → Except KeyError Key
  | finish app namespace_ version segments => KeyBuf.build app namespace_ version segments
  | finishPrefix app namespace_ version segments => do
    let buf ← KeyBuf.new app namespace_ version
    (segments.foldl KeyBuf.segment buf).finishPrefix
  | fromRaw text => Key.fromRaw escapeDebug text
  | joined recipe suffix => do
    let key ← recipe.make escapeDebug
    key.joined suffix

/-- The adopted text that the key goes back to, and the segments joined onto it. -/
def adopted : KeyRecipe → Option (String × List String)
  | finish ..              => none
  | finishPrefix ..        => none
  | fromRaw text           => some (text, [])
  | joined recipe suffix =>
    recipe.adopted.map fun parts => (parts.1, parts.2 ++ [suffix])

/-- How many segments were joined onto an adopted text of fewer than four colons. -/
def stray (recipe : KeyRecipe) : ℕ :=
  match recipe.adopted with
  | some (text, suffixes) => if text.toList.count ':' < 4 then suffixes.length else 0
  | none                  => 0

end KeyRecipe

/-! ### The end of the header -/

lemma headerLenLoop_eq {seen : ℕ} (hseen : seen < 5) (index : ℕ) (bytes : List UInt8) :
    (headerLenLoop seen index bytes).getD (index + bytes.length) =
      index + fieldsEnd 58 (4 - seen) bytes := by
  induction bytes generalizing seen index with
  | nil => simp [headerLenLoop, fieldsEnd]
  | cons byte bytes ih =>
    have hindex : index + (byte :: bytes).length = index + 1 + bytes.length := by
      rw [List.length_cons]
      omega
    rw [headerLenLoop, hindex]
    by_cases hbyte : byte = 58
    · rw [if_pos hbyte]
      by_cases hlast : seen + 1 = 5
      · obtain rfl : seen = 4 := by omega
        rw [if_pos rfl, Option.getD_some, fieldsEnd, if_pos hbyte, Nat.add_zero]
      · obtain ⟨n, hn⟩ : ∃ n, 4 - seen = n + 1 := ⟨3 - seen, by omega⟩
        rw [if_neg hlast, ih (by omega), hn, fieldsEnd, if_pos hbyte,
          show 4 - (seen + 1) = n by omega]
        omega
    · rw [if_neg hbyte, ih hseen]
      cases 4 - seen <;> rw [fieldsEnd, if_neg hbyte] <;> omega

lemma length_asBytes (text : String) : (asBytes text).length = text.utf8ByteSize := rfl

lemma headerLen_eq (text : String) : headerLen text = fieldsEnd 58 4 (asBytes text) := by
  have h := headerLenLoop_eq (by decide : 0 < 5) 0 (asBytes text)
  rwa [Nat.zero_add, Nat.zero_add, length_asBytes] at h

/-- The bytes hold as many separators as the text does. -/
lemma count_bytes (text : List Char) : (Utf8.bytes text).count 58 = text.count ':' := by
  induction text with
  | nil => rfl
  | cons c text ih =>
    rw [Utf8.bytes_cons, List.count_append, ih, List.count_cons]
    by_cases hc : c = ':'
    · subst hc
      exact Nat.add_comm _ _
    · have hnone : (58 : UInt8) ∉ String.utf8EncodeChar c := fun hmem =>
        Utf8.ne_of_mem_utf8EncodeChar hc (by decide) hmem rfl
      rw [List.count_eq_zero_of_not_mem hnone]
      simp [hc]

variable {text text' : String} {rest : List Char}

lemma bytes_cons_colon (rest : List Char) : Utf8.bytes (':' :: rest) = 58 :: Utf8.bytes rest := rfl

lemma utf8ByteSize_eq (text : String) : text.utf8ByteSize = (Utf8.bytes text.toList).length :=
  congrArg List.length (asBytes_eq text)

lemma headerLen_of_count_le (h : text.toList.count ':' ≤ 4) :
    headerLen text = text.utf8ByteSize := by
  rw [headerLen_eq, asBytes_eq, utf8ByteSize_eq]
  exact fieldsEnd_of_count_le ((count_bytes _).trans_le h)

/-- Behind four colons the header ends before the next one, whatever is appended. -/
lemma headerLen_append (h : text'.toList = text.toList ++ ':' :: rest)
    (hcount : 4 ≤ text.toList.count ':') : headerLen text' = headerLen text := by
  rw [headerLen_eq, headerLen_eq, asBytes_eq, asBytes_eq, h]
  change fieldsEnd 58 4 (Utf8.bytes _) = fieldsEnd 58 4 (Utf8.bytes _)
  rw [Utf8.bytes_append, bytes_cons_colon]
  exact fieldsEnd_append_sep (hcount.trans_eq (count_bytes _).symm)

/-- With fewer colons the header goes on into what is appended. -/
lemma lt_headerLen_append (h : text'.toList = text.toList ++ ':' :: rest)
    (hcount : text.toList.count ':' < 4) : text.utf8ByteSize < headerLen text' := by
  rw [headerLen_eq, asBytes_eq, h, utf8ByteSize_eq]
  change _ < fieldsEnd 58 4 (Utf8.bytes _)
  rw [Utf8.bytes_append, bytes_cons_colon]
  exact lt_fieldsEnd_append_sep ((count_bytes _).trans_lt hcount)

/-! ### What the operations make -/

variable {escapeDebug : String → String} {key key' : Key}

lemma Key.joined_eq_finish (key : Key) (suffix : String) :
    key.joined suffix =
      (({ text := key.text, prefixLen := key.prefixLen } : KeyBuf).segmentStr suffix).finish :=
  rfl

lemma KeyBuf.finish_ok {buf : KeyBuf} (h : buf.finish = .ok key) :
    key.text = buf.text ∧ key.prefixLen = buf.prefixLen ∧ key.text.utf8ByteSize ≤ maxKeyLen := by
  unfold finish at h
  split_ifs at h with hlong
  obtain rfl := Except.ok.inj h
  exact ⟨rfl, rfl, not_lt.mp hlong⟩

/-- A joined key has one more segment, and the header of the key it was joined onto. -/
lemma Key.joined_ok {suffix : String} (h : key.joined suffix = .ok key') :
    key'.text.toList = key.text.toList ++ ':' :: encode (.inl suffix) ∧
      key'.prefixLen = key.prefixLen ∧ key'.text.utf8ByteSize ≤ maxKeyLen := by
  rw [joined_eq_finish] at h
  obtain ⟨htext, hheader, hlen⟩ := KeyBuf.finish_ok h
  refine ⟨?_, hheader, hlen⟩
  rw [htext]
  exact KeyBuf.toList_segment _ (.str suffix)

lemma Key.fromRaw_ok (h : Key.fromRaw escapeDebug text = .ok key) :
    key = ⟨text, headerLen text⟩ ∧ text.utf8ByteSize ≤ maxKeyLen ∧ 0 ∉ asBytes text := by
  unfold fromRaw at h
  split_ifs at h with hlong hnul
  exact ⟨(Except.ok.inj h).symm, not_lt.mp hlong, hnul⟩

lemma Key.fromRaw_eq (hlen : text.utf8ByteSize ≤ maxKeyLen) (hnul : 0 ∉ asBytes text) :
    Key.fromRaw escapeDebug text = .ok ⟨text, headerLen text⟩ := by
  rw [fromRaw, if_neg (not_lt.mpr hlen), if_neg hnul]

namespace KeyBuf

lemma prefixLen_segments (buf : KeyBuf) (segs : List Segment) :
    (segs.foldl segment buf).prefixLen = buf.prefixLen := by
  induction segs generalizing buf with
  | nil => rfl
  | cons seg segs ih =>
    rw [List.foldl_cons, ih]
    cases seg <;> rfl

/-- A header has four colons, and ends where the buffer says. -/
lemma new_ok {app namespace_ : String} {version : UInt16} {buf : KeyBuf}
    (h : new app namespace_ version = .ok buf) :
    buf.text.toList.count ':' = 4 ∧ buf.prefixLen = buf.text.utf8ByteSize := by
  obtain ⟨happ, hns, htext⟩ := toList_new h
  constructor
  · rw [htext, List.count_append, count_preceded fun f hf hmem =>
      (mem_headerFields happ hns f hf ':' hmem).1 rfl]
    rfl
  · unfold new at h
    obtain ⟨_, -, h⟩ := bind_eq_ok.1 h
    obtain ⟨_, -, h⟩ := bind_eq_ok.1 h
    obtain rfl := Except.ok.inj h
    rfl

/-- A key from a buffer: its text is a header and perhaps more, from a colon on. -/
lemma headerLen_of_new {app namespace_ : String} {version : UInt16} {buf : KeyBuf}
    (h : new app namespace_ version = .ok buf)
    (htext : key.text.toList = buf.text.toList ++ rest) (hrest : AtSep ':' rest)
    (hheader : key.prefixLen = buf.prefixLen) :
    4 ≤ key.text.toList.count ':' ∧ key.prefixLen = headerLen key.text := by
  obtain ⟨hcount, hlen⟩ := new_ok h
  refine ⟨?_, ?_⟩
  · rw [htext, List.count_append, hcount]
    exact Nat.le_add_right _ _
  · rw [hheader, hlen, ← headerLen_of_count_le hcount.le]
    cases rest with
    | nil =>
      rw [List.append_nil] at htext
      rw [String.toList_injective htext]
    | cons c rest =>
      obtain rfl : c = ':' := hrest c rfl
      exact (headerLen_append htext hcount.ge).symm

end KeyBuf

namespace KeyRecipe

variable {recipe recipe' : KeyRecipe}

/-- A prefix is a key whose last segment is empty. -/
lemma make_finishPrefix (app namespace_ : String) (version : UInt16) (segs : List Segment) :
    (finishPrefix app namespace_ version segs).make escapeDebug =
      (finish app namespace_ version (segs ++ [.str ""])).make escapeDebug := by
  simp only [make, KeyBuf.build, List.foldl_append]
  rfl

lemma headerLen_of_finish {app namespace_ : String} {version : UInt16} {segs : List Segment}
    (h : (finish app namespace_ version segs).make escapeDebug = .ok key) :
    4 ≤ key.text.toList.count ':' ∧ key.prefixLen = headerLen key.text := by
  obtain ⟨buf, hbuf, hfinish⟩ := bind_eq_ok.1 h
  obtain ⟨htext, hheader, -⟩ := KeyBuf.finish_ok hfinish
  have hkey : key.text.toList =
      buf.text.toList ++ preceded ':' (segs.map fun seg => encode seg.content) := by
    rw [htext, KeyBuf.toList_segments]
  exact KeyBuf.headerLen_of_new hbuf hkey atSep_preceded
    (hheader.trans (KeyBuf.prefixLen_segments buf segs))

/-- The header of a key that goes back to a buffer ends before the fifth colon. -/
lemma headerLen_of_adopted_eq_none (h : recipe.make escapeDebug = .ok key)
    (hnone : recipe.adopted = none) :
    4 ≤ key.text.toList.count ':' ∧ key.prefixLen = headerLen key.text := by
  induction recipe generalizing key with
  | finish => exact headerLen_of_finish h
  | finishPrefix =>
    rw [make_finishPrefix] at h
    exact headerLen_of_finish h
  | fromRaw text => cases hnone
  | joined recipe suffix ih =>
    obtain ⟨key₀, hkey₀, hjoined⟩ := bind_eq_ok.1 h
    obtain ⟨htext, hheader, -⟩ := Key.joined_ok hjoined
    obtain ⟨hcount, hlen⟩ := ih hkey₀ (Option.map_eq_none_iff.mp hnone)
    refine ⟨?_, by rw [hheader, hlen, headerLen_append htext hcount]⟩
    rw [htext, List.count_append]
    exact hcount.trans (Nat.le_add_right _ _)

/-- A key that goes back to an adopted text: the text and the segments joined onto it, with the
header of the text. -/
lemma toList_of_adopted_eq_some {suffixes : List String} (h : recipe.make escapeDebug = .ok key)
    (hsome : recipe.adopted = some (text, suffixes)) :
    key.text.toList =
        text.toList ++ preceded ':' (suffixes.map fun suffix => encode (.inl suffix)) ∧
      key.prefixLen = headerLen text := by
  induction recipe generalizing key suffixes with
  | finish => cases hsome
  | finishPrefix => cases hsome
  | fromRaw text₀ =>
    obtain ⟨rfl, rfl⟩ := Prod.mk.inj (Option.some.inj hsome)
    obtain ⟨rfl, -, -⟩ := Key.fromRaw_ok h
    exact ⟨(List.append_nil _).symm, rfl⟩
  | joined recipe suffix ih =>
    obtain ⟨key₀, hkey₀, hjoined⟩ := bind_eq_ok.1 h
    obtain ⟨htext, hheader, -⟩ := Key.joined_ok hjoined
    obtain ⟨⟨text₀, suffixes₀⟩, hadopted, hparts⟩ := Option.map_eq_some_iff.mp hsome
    obtain ⟨rfl, rfl⟩ := Prod.mk.inj hparts
    obtain ⟨htext₀, hheader₀⟩ := ih hkey₀ hadopted
    refine ⟨?_, hheader.trans hheader₀⟩
    rw [htext, htext₀]
    simp

lemma zero_notMem {bytes : List UInt8} (h : ∀ b ∈ bytes, 0x20 ≤ b ∧ b ≠ 0x7f) : 0 ∉ bytes :=
  fun hmem => absurd (h 0 hmem).1 (by decide)

lemma adoptable_of_finish {app namespace_ : String} {version : UInt16} {segs : List Segment}
    (h : (finish app namespace_ version segs).make escapeDebug = .ok key) :
    key.text.utf8ByteSize ≤ maxKeyLen ∧ 0 ∉ asBytes key.text := by
  obtain ⟨buf, -, hfinish⟩ := bind_eq_ok.1 h
  exact ⟨(KeyBuf.finish_ok hfinish).2.2, zero_notMem (KeyBuf.bytes_of_build h)⟩

/-- What is obtained is short enough and holds no NUL, so that it can be adopted. -/
lemma adoptable_of_make (h : recipe.make escapeDebug = .ok key) :
    key.text.utf8ByteSize ≤ maxKeyLen ∧ 0 ∉ asBytes key.text := by
  induction recipe generalizing key with
  | finish => exact adoptable_of_finish h
  | finishPrefix =>
    rw [make_finishPrefix] at h
    exact adoptable_of_finish h
  | fromRaw text =>
    obtain ⟨rfl, hlen, hnul⟩ := Key.fromRaw_ok h
    exact ⟨hlen, hnul⟩
  | joined recipe suffix ih =>
    obtain ⟨key₀, hkey₀, hjoined⟩ := bind_eq_ok.1 h
    obtain ⟨htext, -, hlen⟩ := Key.joined_ok hjoined
    refine ⟨hlen, fun hmem => ?_⟩
    rw [asBytes_eq, htext, List.flatMap_append, List.mem_append, ← asBytes_eq] at hmem
    rcases hmem with hmem | hmem
    · exact (ih hkey₀).2 hmem
    · have hclean : ∀ ch ∈ (String.ofList (':' :: encode (.inl suffix))).toList, Clean ch := by
        intro ch hch
        rw [String.toList_ofList, List.mem_cons] at hch
        rcases hch with rfl | hch
        · exact ⟨by decide, by decide⟩
        · exact (mem_encode hch).2
      refine zero_notMem (bytes_of_clean hclean) ?_
      rwa [asBytes_eq, String.toList_ofList]

/-! ### Stray segments -/

lemma exists_of_stray_ne_zero (hne : recipe.stray ≠ 0) :
    ∃ text suffixes, recipe.adopted = some (text, suffixes) ∧ text.toList.count ':' < 4 ∧
      recipe.stray = suffixes.length := by
  unfold stray at hne ⊢
  rcases hadopted : recipe.adopted with _ | ⟨text, suffixes⟩
  · rw [hadopted] at hne
    exact absurd rfl hne
  · rw [hadopted] at hne
    dsimp only at hne ⊢
    split_ifs at hne ⊢ with hcount
    · exact ⟨text, suffixes, rfl, hcount, rfl⟩
    · exact absurd rfl hne

lemma headerLen_append_preceded {F : List (List Char)}
    (h : text'.toList = text.toList ++ preceded ':' F) (hcount : 4 ≤ text.toList.count ':') :
    headerLen text' = headerLen text := by
  cases F with
  | nil =>
    rw [preceded_nil, List.append_nil] at h
    rw [String.toList_injective h]
  | cons f F => exact headerLen_append h hcount

/-- The header of a key is that of its text, but for stray segments. -/
lemma prefixLen_eq_headerLen_iff (h : recipe.make escapeDebug = .ok key) :
    key.prefixLen = headerLen key.text ↔ recipe.stray = 0 := by
  constructor
  · intro heq
    by_contra hne
    obtain ⟨text, suffixes, hadopted, hcount, hstray⟩ := exists_of_stray_ne_zero hne
    obtain ⟨htext, hheader⟩ := toList_of_adopted_eq_some h hadopted
    cases suffixes with
    | nil => exact hne hstray
    | cons suffix suffixes =>
      have hlt := lt_headerLen_append htext hcount
      rw [← heq, hheader, headerLen_of_count_le (by omega)] at hlt
      exact absurd hlt (lt_irrefl _)
  · intro hstray
    rcases hadopted : recipe.adopted with _ | ⟨text, suffixes⟩
    · exact (headerLen_of_adopted_eq_none h hadopted).2
    · obtain ⟨htext, hheader⟩ := toList_of_adopted_eq_some h hadopted
      rw [hheader]
      by_cases hcount : text.toList.count ':' < 4
      · simp only [stray, hadopted, if_pos hcount, List.length_eq_zero_iff] at hstray
        subst hstray
        rw [List.map_nil, preceded_nil, List.append_nil] at htext
        rw [String.toList_injective htext]
      · exact (headerLen_append_preceded htext (not_lt.mp hcount)).symm

/-- Two beginnings of one text that are as long in bytes are the same. -/
lemma eq_of_size_eq {front front' back back' : List Char} (h : front ++ back = front' ++ back')
    (hsize : Utf8.size front = Utf8.size front') : front = front' := by
  have hnil : ∀ {m : List Char}, Utf8.size m = 0 → m = [] := by
    intro m hm
    cases m with
    | nil => rfl
    | cons c m =>
      have := Char.utf8Size_pos c
      rw [Utf8.size_cons] at hm
      omega
  rcases List.append_eq_append_iff.mp h with ⟨m, rfl, -⟩ | ⟨m, rfl, -⟩
  · rw [Utf8.size_append] at hsize
    rw [hnil (by omega : Utf8.size m = 0), List.append_nil]
  · rw [Utf8.size_append] at hsize
    rw [hnil (by omega : Utf8.size m = 0), List.append_nil]

lemma colon_notMem_encode {suffixes : List String} :
    ∀ f ∈ suffixes.map (fun suffix => encode (.inl suffix)), ':' ∉ f := by
  intro f hf hmem
  obtain ⟨suffix, -, rfl⟩ := List.mem_map.mp hf
  exact (mem_encode hmem).1 rfl

/-- Two keys of one text have one header when they have as many stray segments. -/
lemma prefixLen_eq_prefixLen_iff (h : recipe.make escapeDebug = .ok key)
    (h' : recipe'.make escapeDebug = .ok key') (htext : key.text = key'.text) :
    key.prefixLen = key'.prefixLen ↔ recipe.stray = recipe'.stray := by
  have hiff := prefixLen_eq_headerLen_iff h
  have hiff' := prefixLen_eq_headerLen_iff h'
  by_cases hstray : recipe.stray = 0
  · rw [hiff.mpr hstray, hstray, htext, eq_comm, hiff', eq_comm]
  · by_cases hstray' : recipe'.stray = 0
    · rw [hiff'.mpr hstray', hstray', ← htext, hiff]
    · obtain ⟨text, suffixes, hadopted, hcount, hlen⟩ := exists_of_stray_ne_zero hstray
      obtain ⟨text', suffixes', hadopted', hcount', hlen'⟩ := exists_of_stray_ne_zero hstray'
      obtain ⟨hkey, hheader⟩ := toList_of_adopted_eq_some h hadopted
      obtain ⟨hkey', hheader'⟩ := toList_of_adopted_eq_some h' hadopted'
      have heq := hkey.symm.trans ((congrArg String.toList htext).trans hkey')
      rw [hheader, hheader', headerLen_of_count_le (by omega), headerLen_of_count_le (by omega),
        hlen, hlen', utf8ByteSize_eq, utf8ByteSize_eq]
      constructor
      · intro hsize
        rw [eq_of_size_eq heq hsize] at heq
        have hfields := preceded_inj colon_notMem_encode colon_notMem_encode
          (List.append_cancel_left heq)
        simpa using congrArg List.length hfields
      · intro hsuffixes
        rw [(append_preceded_inj colon_notMem_encode colon_notMem_encode
          (by simpa using hsuffixes) heq).1]

/-- Keys compare by their text exactly where they have as many stray segments, and a key is its
text adopted again exactly when it has none. -/
theorem eq_iff_text_eq_iff (h : recipe.make escapeDebug = .ok key)
    (h' : recipe'.make escapeDebug = .ok key') :
    ((key = key' ↔ key.text = key'.text) ↔
        (key.text = key'.text → recipe.stray = recipe'.stray)) ∧
      (Key.fromRaw escapeDebug key.text = .ok key ↔ recipe.stray = 0) := by
  constructor
  · constructor
    · intro heq htext
      exact (prefixLen_eq_prefixLen_iff h h' htext).mp (congrArg Key.prefixLen (heq.mpr htext))
    · intro hstray
      refine ⟨fun heq => heq ▸ rfl, fun htext => ?_⟩
      have hheader := (prefixLen_eq_prefixLen_iff h h' htext).mpr (hstray htext)
      cases key
      cases key'
      obtain rfl := htext
      obtain rfl := hheader
      rfl
  · obtain ⟨hlen, hnul⟩ := adoptable_of_make h
    rw [Key.fromRaw_eq hlen hnul, ← prefixLen_eq_headerLen_iff h]
    refine ⟨fun heq => ?_, fun hheader => ?_⟩
    · rw [← Except.ok.inj heq]
    · rw [← hheader]

/-- A key beside a lock, adopted and built. -/
theorem eq_iff_text_eq_iff_fence :
    let recipe := KeyRecipe.joined (.finish "shop" "lock" 1 [.str "import"]) "fence"
    let recipe' := KeyRecipe.fromRaw "moso:v1:shop:lock:1:import:fence"
    let key : Key := ⟨"moso:v1:shop:lock:1:import:fence", 19⟩
    recipe.make id = .ok key ∧ recipe'.make id = .ok key ∧
      ((key = key ↔ key.text = key.text) ↔ (key.text = key.text → recipe.stray = recipe'.stray)) ∧
      (Key.fromRaw id key.text = .ok key ↔ recipe.stray = 0) := by
  have h : (joined (.finish "shop" "lock" 1 [.str "import"]) "fence").make id =
      .ok ⟨"moso:v1:shop:lock:1:import:fence", 19⟩ := by decide
  have h' : (KeyRecipe.fromRaw "moso:v1:shop:lock:1:import:fence").make id =
      .ok ⟨"moso:v1:shop:lock:1:import:fence", 19⟩ := by decide
  exact ⟨h, h', eq_iff_text_eq_iff h h'⟩

/-- A segment joined onto a text of no colon, and the same text adopted. -/
theorem joined_ne_fromRaw :
    (joined (.fromRaw "jobs") "fence").make id = .ok ⟨"jobs:fence", 4⟩ ∧
      (KeyRecipe.fromRaw "jobs:fence").make id = .ok ⟨"jobs:fence", 10⟩ ∧
      (⟨"jobs:fence", 4⟩ : Key) ≠ ⟨"jobs:fence", 10⟩ ∧
      Key.fromRaw id "jobs:fence" ≠ .ok ⟨"jobs:fence", 4⟩ := by
  decide

end KeyRecipe

end Moso.Kv
