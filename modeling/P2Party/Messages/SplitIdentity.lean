import P2Party.Messages.Split

/-!
# Splitting and putting together again

Every chunk of a split tells the sender and the receiver the same: the first chunks, as many
as the message needs, carry a slice each, the others carry nothing, and the slices in order
are the message. It fails only where the type of a file is no number: the table of
extensions is a plain object, and looking `constructor` or `__proto__` up in it finds what
every object inherits. That is written as type 0, which no receiver accepts.

- `ReadsAsReal`, `ReadsAsDecoy`, `SplitIdentity`: what a split is for;
- `staged_real`, `staged_decoy`: the chunks of the closed form;
- `flatMap_sliceAt`: the slices are the message;
- `split_identity`: every message, fill fraction and random choice;
- `split_identity_inherited`: a file that no receiver accepts.
-/

namespace P2Party

open Base

/-! ## What a split is for -/

/-- The bytes a receiver takes out of a chunk. -/
def realSlice (c : StagedChunk) : Option Bytes :=
  match receivedSlice c.metadata c.data with
  | .ok (some (_, bytes)) => some bytes
  | _ => none

/-- Sender and receiver read bytes of the message, inside the padded chunk. -/
def ReadsAsReal (c : StagedChunk) : Prop :=
  ∃ m, deserializeMetadata c.metadata = .ok m ∧ m.chunkIndex = c.chunkIndex ∧
    assertMetadataV1 m = .ok () ∧ m.chunkStartIndex < m.chunkEndIndex ∧
    m.chunkEndIndex ≤ c.data.length ∧ isRealChunk m = true ∧
    receivedSlice c.metadata c.data =
      .ok (some (m, slice c.data m.chunkStartIndex (m.chunkEndIndex - m.chunkStartIndex)))

/-- Sender and receiver read a decoy. -/
def ReadsAsDecoy (c : StagedChunk) : Prop :=
  ∃ m, deserializeMetadata c.metadata = .ok m ∧ m.chunkIndex = c.chunkIndex ∧
    assertMetadataV1 m = .ok () ∧ isRealChunk m = false ∧
    receivedSlice c.metadata c.data = .ok none

/-- The chunks are those of the message: the first `realChunks` of them carry it. -/
structure SplitIdentity (bytes : Bytes) (chunkSize realChunks : Nat) (chunks : List StagedChunk) : Prop where
  enough : realChunks ≤ chunks.length
  padded : ∀ (i : Nat) (c : StagedChunk), chunks[i]? = some c → c.chunkIndex = i ∧ c.data.length = chunkSize
  real : ∀ (i : Nat) (c : StagedChunk), chunks[i]? = some c → i < realChunks → ReadsAsReal c
  decoy : ∀ (i : Nat) (c : StagedChunk), chunks[i]? = some c → realChunks ≤ i → ReadsAsDecoy c
  reassembled : (chunks.filterMap realSlice).flatten = bytes

/-- A file whose extension names a property every object inherits. -/
def Inherited : Outgoing → Prop
  | .text _ => False
  | .file name _ => fileExtension name ∈ inheritedProperties

instance : (message : Outgoing) → Decidable (Inherited message)
  | .text _ => isFalse id
  | .file name _ => inferInstanceAs (Decidable (fileExtension name ∈ inheritedProperties))

/-- The type is a number unless the lookup finds an inherited property. -/
theorem getMessageType_number_iff {message : Outgoing} :
    (∃ n, getMessageType message = .number n) ↔ ¬ Inherited message := by
  cases message with
  | text content => simp [getMessageType, Inherited]
  | file name content =>
    have hdisjoint : ∀ ext ∈ inheritedProperties, extensionToMessageType.lookup ext = none := by
      decide +kernel
    have hproto : "__proto__" ∈ inheritedProperties := by decide +kernel
    unfold getMessageType Inherited
    dsimp only
    cases hlook : extensionToMessageType.lookup (fileExtension name) with
    | some t =>
      refine iff_of_true ⟨t, rfl⟩ fun hmem => ?_
      rw [hdisjoint _ hmem] at hlook
      cases hlook
    | none =>
      by_cases hp : fileExtension name = "__proto__"
      · simp [hp, hproto]
      · by_cases hmem : fileExtension name ∈ inheritedProperties
        · simp [hp, hmem]
        · simp [hp, hmem]

theorem toByte_eq_zero {message : Outgoing} (h : Inherited message) : (getMessageType message).toByte = 0 := by
  cases htype : getMessageType message with
  | number n => exact absurd h (getMessageType_number_iff.mp ⟨n, htype⟩)
  | inheritedFunction => rfl
  | inheritedObject => rfl

/-! ## Lists -/

/-- The slices of a byte string, one after another. -/
theorem flatMap_sliceAt (bytes : Bytes) (maxBytes n : Nat) :
    (List.range n).flatMap (sliceAt bytes maxBytes) = bytes.take (n * maxBytes) := by
  induction n with
  | zero => simp
  | succ n ih =>
    rw [List.range_succ, List.flatMap_append, ih, List.flatMap_singleton, sliceAt, slice, Nat.succ_mul,
      List.take_add]

theorem flatten_filterMap {α β : Type} (f : α → Option (List β)) (l : List α) :
    (l.filterMap f).flatten = l.flatMap fun a => (f a).getD [] := by
  induction l with
  | nil => rfl
  | cons a l ih =>
    rw [List.filterMap_cons, List.flatMap_cons, ← ih]
    cases f a <;> rfl

theorem lt_ceilDiv_iff {a b i : Nat} (hb : 0 < b) : i < ceilDiv a b ↔ i * b < a := by
  rw [ceilDiv, Nat.lt_iff_add_one_le, Nat.le_div_iff_mul_le hb, Nat.add_mul, Nat.one_mul]
  omega

/-! ## The chunks of the closed form -/

section Chunks

variable (L : LibCrypto) {chunkSize : Nat} (coins : SplitCoins chunkSize) {m : Metadata} {time : Nat} {file : Bytes}
  {maxStart maxBytes : Nat}

/-- What is read from the metadata of chunk `i`. -/
def readAt {chunkSize : Nat} (coins : SplitCoins chunkSize) (m : Metadata) (file : Bytes) (maxStart maxBytes i : Nat) :
    Metadata :=
  { metadataAt coins m file maxStart maxBytes i with
    name := sanitizeName (utf8Decode (nameField m.name)) }

/-- Metadata whose type is a number passes the receiver's check. -/
theorem assertMetadataV1_readAt (hb : SplitBounds chunkSize file.length maxStart maxBytes)
    (hm : MetadataFits m time) (hschema : m.schemaVersion = 1)
    (htotal : 1 ≤ m.totalSize ∧ m.totalSize ≤ MAX_MESSAGE_SIZE)
    (htype : 1 ≤ m.messageType ∧ m.messageType ≤ 64) {i : Nat} (hi : i ≤ MAX_SAFE_INTEGER) :
    assertMetadataV1 (readAt coins m file maxStart maxBytes i) = .ok () := by
  have hend := end_le_safe coins hb i
  have htime : ∃ t ∈ m.date, -(MAX_SAFE_INTEGER : Int) ≤ t ∧ t ≤ MAX_SAFE_INTEGER := by
    have hle := hm.time
    refine ⟨(time : Int), hm.date, ?_⟩
    simp only [MAX_SAFE_INTEGER]
    omega
  refine assertMetadataV1_eq_ok.mpr ?_
  simp only [readAt, metadataAt]
  exact ⟨hschema, htype, hm.hash, htotal, htime, Nat.le_of_add_right_le hend, hend, hi, Nat.le_add_right _ _⟩

theorem deserialize_stagedAt (hb : SplitBounds chunkSize file.length maxStart maxBytes)
    (hm : MetadataFits m time) {i : Nat} (hi : i ≤ MAX_SAFE_INTEGER) :
    deserializeMetadata (stagedAt L coins m time file maxStart maxBytes i).metadata
      = .ok (readAt coins m file maxStart maxBytes i) :=
  deserializeMetadata_eq (metadataAt_fits coins hb hm hi)

theorem length_dataAt (hb : SplitBounds chunkSize file.length maxStart maxBytes) (i : Nat) :
    (dataAt coins file maxStart maxBytes i).length = chunkSize := by
  have hnoise := (coins.noise i).property
  have hstart := startAt_lt coins hb i
  have hlength := length_sliceAt file maxBytes i
  have hfits := hb.fits
  rw [dataAt, overwrite, List.length_append, List.length_append, List.length_take, List.length_drop, hnoise]
  omega

/-- The bytes written into a chunk are read back. -/
theorem slice_dataAt (hb : SplitBounds chunkSize file.length maxStart maxBytes) (i : Nat) :
    slice (dataAt coins file maxStart maxBytes i) (startAt coins maxStart i)
      (sliceAt file maxBytes i).length = sliceAt file maxBytes i := by
  have hnoise := (coins.noise i).property
  have hstart := startAt_lt coins hb i
  have hfits := hb.fits
  refine slice_append ?_ rfl
  rw [List.length_take, hnoise]
  omega

theorem readAt_start (m : Metadata) (maxStart i : Nat) :
    (readAt coins m file maxStart maxBytes i).chunkStartIndex = startAt coins maxStart i := rfl

theorem readAt_end (m : Metadata) (maxStart i : Nat) : (readAt coins m file maxStart maxBytes i).chunkEndIndex
    = startAt coins maxStart i + claimedLength coins file maxStart maxBytes i := rfl

theorem readAt_totalSize (m : Metadata) (maxStart i : Nat) :
    (readAt coins m file maxStart maxBytes i).totalSize = m.totalSize := by
  unfold readAt
  rfl

/-- The range a chunk in front of the end of the message tells. -/
theorem readAt_range (m : Metadata) (maxStart : Nat) {i : Nat} (hreal : i * maxBytes < file.length) :
    (readAt coins m file maxStart maxBytes i).chunkEndIndex
      - (readAt coins m file maxStart maxBytes i).chunkStartIndex = (sliceAt file maxBytes i).length := by
  rw [readAt_start, readAt_end, Nat.add_sub_cancel_left]
  exact if_pos hreal

/-- That range is in the padded chunk, and not empty. -/
theorem readAt_inside (m : Metadata) (hb : SplitBounds chunkSize file.length maxStart maxBytes) {i : Nat}
    (hreal : i * maxBytes < file.length) :
    (readAt coins m file maxStart maxBytes i).chunkStartIndex
        < (readAt coins m file maxStart maxBytes i).chunkEndIndex ∧
      (readAt coins m file maxStart maxBytes i).chunkEndIndex ≤ chunkSize := by
  have hclaimed : claimedLength coins file maxStart maxBytes i = (sliceAt file maxBytes i).length :=
    if_pos hreal
  have hlength := length_sliceAt file maxBytes i
  have hbytes := hb.bytes
  have hstart := startAt_lt coins hb i
  have hfits := hb.fits
  rw [readAt_start, readAt_end]
  omega

theorem receivedChunkSize_readAt (hb : SplitBounds chunkSize file.length maxStart maxBytes)
    (htotal : m.totalSize = file.length) {i : Nat} (hreal : i * maxBytes < file.length) :
    receivedChunkSize (readAt coins m file maxStart maxBytes i) = (sliceAt file maxBytes i).length := by
  have hlength := length_sliceAt file maxBytes i
  have hfits := hb.fits
  have hchunk := hb.chunkSize
  have hmsg : (sliceAt file maxBytes i).length ≤ MESSAGE_LEN := by
    simp only [CHUNK_LEN, MESSAGE_LEN] at *
    omega
  have htot : (sliceAt file maxBytes i).length ≤ (readAt coins m file maxStart maxBytes i).totalSize := by
    rw [readAt_totalSize]
    omega
  rw [receivedChunkSize, readAt_range coins m maxStart hreal, if_neg (Nat.not_lt.mpr htot), if_neg (Nat.not_lt.mpr hmsg)]

/-- The receiver takes the slice out of a chunk in front of the end of the message. -/
theorem receivedSlice_real (hb : SplitBounds chunkSize file.length maxStart maxBytes)
    (hm : MetadataFits m time) (htotal : m.totalSize = file.length) {i : Nat} (hi : i ≤ MAX_SAFE_INTEGER)
    (hassert : assertMetadataV1 (readAt coins m file maxStart maxBytes i) = .ok ())
    (hreal : i * maxBytes < file.length) :
    receivedSlice (stagedAt L coins m time file maxStart maxBytes i).metadata
        (stagedAt L coins m time file maxStart maxBytes i).data
      = .ok (some (readAt coins m file maxStart maxBytes i, sliceAt file maxBytes i)) := by
  have hdata : (stagedAt L coins m time file maxStart maxBytes i).data.length = chunkSize :=
    length_dataAt coins hb i
  obtain ⟨hlt, hend⟩ := readAt_inside coins m hb hreal
  have hsize := receivedChunkSize_readAt coins hb htotal hreal
  have hrange := readAt_range coins m maxStart hreal
  have hstorable : isStorableChunkRange (readAt coins m file maxStart maxBytes i).chunkStartIndex
      (readAt coins m file maxStart maxBytes i).chunkEndIndex
      (stagedAt L coins m time file maxStart maxBytes i).data.length = true := by
    have hsafe := (assertMetadataV1_eq_ok.mp hassert).2.2.2.2.2
    simp only [isStorableChunkRange, Bool.and_eq_true, decide_eq_true_eq, hdata]
    exact ⟨⟨⟨hsafe.1, hsafe.2.1⟩, Nat.le_of_lt hlt⟩, hend⟩
  unfold receivedSlice
  rw [deserialize_stagedAt L coins hb hm hi, ok_bind, hassert, ok_bind, if_neg (by omega), if_pos hstorable,
    hrange]
  exact congrArg (fun b => Except.ok (some (readAt coins m file maxStart maxBytes i, b)))
    (slice_dataAt coins hb i)

/-- A chunk in front of the end of the message carries its slice. -/
theorem staged_real (hb : SplitBounds chunkSize file.length maxStart maxBytes) (hm : MetadataFits m time)
    (htotal : m.totalSize = file.length) {i : Nat} (hi : i ≤ MAX_SAFE_INTEGER)
    (hassert : assertMetadataV1 (readAt coins m file maxStart maxBytes i) = .ok ())
    (hreal : i * maxBytes < file.length) :
    ReadsAsReal (stagedAt L coins m time file maxStart maxBytes i) ∧
      realSlice (stagedAt L coins m time file maxStart maxBytes i) = some (sliceAt file maxBytes i) := by
  have hdata : (stagedAt L coins m time file maxStart maxBytes i).data.length = chunkSize :=
    length_dataAt coins hb i
  obtain ⟨hlt, hend⟩ := readAt_inside coins m hb hreal
  have hlength := length_sliceAt file maxBytes i
  have hrange := readAt_range coins m maxStart hreal
  have hreceived := receivedSlice_real L coins hb hm htotal hi hassert hreal
  constructor
  · refine ⟨readAt coins m file maxStart maxBytes i, deserialize_stagedAt L coins hb hm hi, rfl, hassert, hlt,
      ?_, ?_, ?_⟩
    · rw [hdata]
      exact hend
    · simp only [isRealChunk, Bool.and_eq_true, decide_eq_true_eq, hrange]
      refine ⟨hlt, ?_⟩
      rw [readAt_totalSize]
      omega
    · rw [hreceived, hrange]
      exact congrArg (fun b => Except.ok (some (readAt coins m file maxStart maxBytes i, b)))
        (slice_dataAt coins hb i).symm
  · rw [realSlice, hreceived]

/-- A chunk behind the end of the message tells more than the message has. -/
theorem readAt_long (hb : SplitBounds chunkSize file.length maxStart maxBytes)
    (htotal : m.totalSize = file.length) {i : Nat} (hdecoy : file.length ≤ i * maxBytes) :
    (readAt coins m file maxStart maxBytes i).totalSize
      < (readAt coins m file maxStart maxBytes i).chunkEndIndex
        - (readAt coins m file maxStart maxBytes i).chunkStartIndex := by
  rw [readAt_start, readAt_end, Nat.add_sub_cancel_left, readAt_totalSize, htotal]
  exact (claimedLength_decoy coins hb hdecoy).1

/-- The receiver takes nothing out of a chunk behind the end of the message. -/
theorem receivedSlice_decoy (hb : SplitBounds chunkSize file.length maxStart maxBytes)
    (hm : MetadataFits m time) (htotal : m.totalSize = file.length) {i : Nat} (hi : i ≤ MAX_SAFE_INTEGER)
    (hassert : assertMetadataV1 (readAt coins m file maxStart maxBytes i) = .ok ())
    (hdecoy : file.length ≤ i * maxBytes) :
    receivedSlice (stagedAt L coins m time file maxStart maxBytes i).metadata
      (stagedAt L coins m time file maxStart maxBytes i).data = .ok none := by
  unfold receivedSlice
  rw [deserialize_stagedAt L coins hb hm hi, ok_bind, hassert, ok_bind, receivedChunkSize,
    if_pos (readAt_long coins hb htotal hdecoy), if_pos rfl]
  rfl

/-- A chunk behind the end of the message carries nothing. -/
theorem staged_decoy (hb : SplitBounds chunkSize file.length maxStart maxBytes) (hm : MetadataFits m time)
    (htotal : m.totalSize = file.length) {i : Nat} (hi : i ≤ MAX_SAFE_INTEGER)
    (hassert : assertMetadataV1 (readAt coins m file maxStart maxBytes i) = .ok ())
    (hdecoy : file.length ≤ i * maxBytes) :
    ReadsAsDecoy (stagedAt L coins m time file maxStart maxBytes i) ∧
      realSlice (stagedAt L coins m time file maxStart maxBytes i) = none := by
  have hreceived := receivedSlice_decoy L coins hb hm htotal hi hassert hdecoy
  constructor
  · refine ⟨readAt coins m file maxStart maxBytes i, deserialize_stagedAt L coins hb hm hi, rfl, hassert, ?_,
      hreceived⟩
    simp only [isRealChunk, Bool.and_eq_false_iff, decide_eq_false_iff_not]
    exact Or.inr (Nat.not_le.mpr (readAt_long coins hb htotal hdecoy))
  · rw [realSlice, hreceived]

end Chunks

/-! ## Every split -/

section Whole

variable (L : LibCrypto) {message : Outgoing} {minChunks chunkSize : Nat} {fill : ℚ} {availableSpace : Nat}
  (time : TimeValue) (coins : SplitCoins chunkSize)

/-- A split that returns has passed its checks. -/
theorem splittable_of_ok {result : SplitResult}
    (h : splitToChunks L message minChunks chunkSize fill 1 availableSpace time coins = .ok result) :
    Splittable message.bytes.length minChunks chunkSize fill availableSpace := by
  unfold splitToChunks at h
  obtain ⟨-, -, h⟩ := except_bind_eq_ok.mp h
  obtain ⟨totalChunks, hplan, h⟩ := except_bind_eq_ok.mp h
  obtain ⟨staging, hestimate, h⟩ := except_bind_eq_ok.mp h
  obtain ⟨_, hspace, -⟩ := except_bind_eq_ok.mp h
  obtain ⟨bytes, hbytes, hle⟩ := demand_eq_ok.mp hspace
  cases hbytes
  exact { (accepted_splittable hplan hestimate).1 with
    space := Nat.le_trans (accepted_splittable hplan hestimate).1.space hle }

/-- The slices of the message, in the order of their chunks, are the message. -/
theorem reassembled (h : Splittable message.bytes.length minChunks chunkSize fill availableSpace)
    (hslice : ∀ i < plannedChunks message.bytes.length minChunks chunkSize fill,
      (realSlice (stagedAt L coins (messageMetadata L message coins time) time.val message.bytes
        (maxChunkStartIndex chunkSize fill) (maxBytesToCopy chunkSize fill) i)).getD []
      = sliceAt message.bytes (maxBytesToCopy chunkSize fill) i) :
    ((splitChunks L message minChunks fill coins time).filterMap realSlice).flatten = message.bytes := by
  have hb := splitBounds h.chunk h.fraction h.size.2
  have hcover : message.bytes.length
      ≤ plannedChunks message.bytes.length minChunks chunkSize fill * maxBytesToCopy chunkSize fill := by
    have hnot : ¬ plannedChunks message.bytes.length minChunks chunkSize fill
        < ceilDiv message.bytes.length (maxBytesToCopy chunkSize fill) :=
      Nat.not_lt.mpr (Nat.le_max_right _ _)
    rw [lt_ceilDiv_iff hb.bytes] at hnot
    exact Nat.not_lt.mp hnot
  calc ((splitChunks L message minChunks fill coins time).filterMap realSlice).flatten
      = (List.range (plannedChunks message.bytes.length minChunks chunkSize fill)).flatMap fun i =>
          (realSlice (stagedAt L coins (messageMetadata L message coins time) time.val message.bytes
            (maxChunkStartIndex chunkSize fill) (maxBytesToCopy chunkSize fill) i)).getD [] := by
        rw [flatten_filterMap, splitChunks, List.flatMap_map]
    _ = (List.range (plannedChunks message.bytes.length minChunks chunkSize fill)).flatMap
          (sliceAt message.bytes (maxBytesToCopy chunkSize fill)) :=
        List.flatMap_congr fun i hi => hslice i (List.mem_range.mp hi)
    _ = message.bytes := by
        rw [flatMap_sliceAt, List.take_of_length_le hcover]

/-- The chunk at an index. -/
theorem getElem?_splitChunks {i : Nat} {c : StagedChunk}
    (hc : (splitChunks L message minChunks fill coins time)[i]? = some c) :
    i < plannedChunks message.bytes.length minChunks chunkSize fill ∧
      c = stagedAt L coins (messageMetadata L message coins time) time.val message.bytes
        (maxChunkStartIndex chunkSize fill) (maxBytesToCopy chunkSize fill) i := by
  rw [splitChunks, List.getElem?_map, Option.map_eq_some_iff] at hc
  obtain ⟨j, hj, rfl⟩ := hc
  obtain ⟨hlt, hget⟩ := List.getElem?_eq_some_iff.mp hj
  rw [List.getElem_range] at hget
  rw [List.length_range] at hlt
  exact ⟨hlt, by rw [hget]⟩

/-- The chunks of a message whose type is a number are those of the message. -/
theorem splitChunks_identity (h : Splittable message.bytes.length minChunks chunkSize fill availableSpace)
    {n : Nat} (htype : getMessageType message = .number n) :
    SplitIdentity message.bytes chunkSize (ceilDiv message.bytes.length (maxBytesToCopy chunkSize fill))
      (splitChunks L message minChunks fill coins time) := by
  have hb := splitBounds h.chunk h.fraction h.size.2
  have hm := messageMetadata_fits L coins time h.size.2
  have hsafe := planned_le_safe h
  have hassert : ∀ i ≤ MAX_SAFE_INTEGER, assertMetadataV1 (readAt coins (messageMetadata L message coins time)
      message.bytes (maxChunkStartIndex chunkSize fill) (maxBytesToCopy chunkSize fill) i) = .ok () := by
    intro i hi
    refine assertMetadataV1_readAt coins hb hm rfl h.size ?_ hi
    show 1 ≤ (getMessageType message).toByte ∧ (getMessageType message).toByte ≤ 64
    rw [htype]
    exact getMessageType_le htype
  have hreal : ∀ i ≤ MAX_SAFE_INTEGER, i * maxBytesToCopy chunkSize fill < message.bytes.length → _ :=
    fun i hi => staged_real L coins hb hm rfl hi (hassert i hi)
  have hdecoy : ∀ i ≤ MAX_SAFE_INTEGER, message.bytes.length ≤ i * maxBytesToCopy chunkSize fill → _ :=
    fun i hi => staged_decoy L coins hb hm rfl hi (hassert i hi)
  refine ⟨?_, ?_, ?_, ?_, ?_⟩
  · rw [splitChunks, List.length_map, List.length_range]
    exact Nat.le_max_right _ _
  · intro i c hc
    obtain ⟨-, rfl⟩ := getElem?_splitChunks L time coins hc
    exact ⟨rfl, length_dataAt coins hb i⟩
  · intro i c hc hi
    obtain ⟨hlt, rfl⟩ := getElem?_splitChunks L time coins hc
    exact (hreal i (by omega) ((lt_ceilDiv_iff hb.bytes).mp hi)).1
  · intro i c hc hi
    obtain ⟨hlt, rfl⟩ := getElem?_splitChunks L time coins hc
    refine (hdecoy i (by omega) (Nat.not_lt.mp fun hlt => ?_)).1
    exact absurd ((lt_ceilDiv_iff hb.bytes).mpr hlt) (Nat.not_lt.mpr hi)
  · refine reassembled L time coins h fun i hi => ?_
    by_cases hin : i * maxBytesToCopy chunkSize fill < message.bytes.length
    · rw [(hreal i (by omega) hin).2, Option.getD_some]
    · have hempty : sliceAt message.bytes (maxBytesToCopy chunkSize fill) i = [] := by
        refine List.eq_nil_of_length_eq_zero ?_
        rw [length_sliceAt]
        omega
      rw [(hdecoy i (by omega) (Nat.not_lt.mp hin)).2, Option.getD_none, hempty]

/-- The chunks of a file whose type is no number are refused. -/
theorem not_splitIdentity (h : Splittable message.bytes.length minChunks chunkSize fill availableSpace)
    (hinherited : Inherited message) :
    ¬ SplitIdentity message.bytes chunkSize (ceilDiv message.bytes.length (maxBytesToCopy chunkSize fill))
      (splitChunks L message minChunks fill coins time) := by
  have hb := splitBounds h.chunk h.fraction h.size.2
  have hm := messageMetadata_fits L coins time h.size.2
  intro hid
  have hfirst : 0 < ceilDiv message.bytes.length (maxBytesToCopy chunkSize fill) := by
    rw [lt_ceilDiv_iff hb.bytes, Nat.zero_mul]
    exact h.size.1
  have hzero : (splitChunks L message minChunks fill coins time)[0]? = some
      (stagedAt L coins (messageMetadata L message coins time) time.val message.bytes
        (maxChunkStartIndex chunkSize fill) (maxBytesToCopy chunkSize fill) 0) := by
    have hpos : 0 < plannedChunks message.bytes.length minChunks chunkSize fill :=
      Nat.lt_of_lt_of_le hfirst (Nat.le_max_right _ _)
    rw [splitChunks, List.getElem?_map, List.getElem?_range hpos, Option.map_some]
  obtain ⟨m, hread, -, hassert, -⟩ := hid.real 0 _ hzero hfirst
  rw [deserialize_stagedAt L coins hb hm (by decide)] at hread
  cases hread
  have hle := (assertMetadataV1_eq_ok.mp hassert).2.1.1
  replace hle : 1 ≤ (getMessageType message).toByte := hle
  rw [toByte_eq_zero hinherited] at hle
  exact absurd hle (by decide)

end Whole

/-- For every message, number of chunks, fill fraction and random choice: what a split
returns is undone by its receiver exactly when the extension of a file names no property
every object inherits; and with enough space such a split returns. -/
theorem split_identity (L : LibCrypto) (message : Outgoing)
    (hsize : 1 ≤ message.bytes.length ∧ message.bytes.length ≤ MAX_MESSAGE_SIZE) (minChunks : Nat)
    (hmin : 1 ≤ minChunks) (fill : ℚ) (hfill : 1 / 10000 ≤ fill ∧ fill ≤ 99 / 100) (availableSpace : Nat)
    (time : TimeValue) (coins : SplitCoins CHUNK_LEN) :
    (∀ result, splitToChunks L message minChunks CHUNK_LEN fill 1 availableSpace time coins = .ok result →
      (SplitIdentity message.bytes CHUNK_LEN (ceilDiv message.bytes.length (maxBytesToCopy CHUNK_LEN fill))
        result.chunks ↔ ¬ Inherited message)) ∧
    (stagingBytes message.bytes.length minChunks CHUNK_LEN fill ≤ min MAX_SAFE_INTEGER availableSpace →
      ((∃ result, splitToChunks L message minChunks CHUNK_LEN fill 1 availableSpace time coins = .ok result ∧
        SplitIdentity message.bytes CHUNK_LEN (ceilDiv message.bytes.length (maxBytesToCopy CHUNK_LEN fill))
          result.chunks) ↔ ¬ Inherited message)) := by
  have hiff : ∀ result,
      splitToChunks L message minChunks CHUNK_LEN fill 1 availableSpace time coins = .ok result →
      (SplitIdentity message.bytes CHUNK_LEN (ceilDiv message.bytes.length (maxBytesToCopy CHUNK_LEN fill))
        result.chunks ↔ ¬ Inherited message) := by
    intro result hresult
    have h := splittable_of_ok L time coins hresult
    obtain ⟨merkleRoot, heq⟩ := splitToChunks_eq L time coins h
    rw [hresult] at heq
    split at heq
    · cases heq
    · cases heq
      by_cases hinherited : Inherited message
      · exact iff_of_false (not_splitIdentity L time coins h hinherited) (not_not.mpr hinherited)
      · obtain ⟨n, htype⟩ := getMessageType_number_iff.mpr hinherited
        exact iff_of_true (splitChunks_identity L time coins h htype) hinherited
  refine ⟨hiff, fun hspace => ⟨fun ⟨result, hresult, hid⟩ => (hiff result hresult).mp hid, fun hinherited => ?_⟩⟩
  obtain ⟨hsafe, hle⟩ := Nat.le_min.mp hspace
  obtain ⟨merkleRoot, heq⟩ := splitToChunks_eq L time coins ⟨hsize, hmin, by decide, hfill, hsafe, hle⟩
  obtain ⟨n, htype⟩ := getMessageType_number_iff.mpr hinherited
  rw [if_neg (by rw [htype]; nofun)] at heq
  exact ⟨_, heq, (hiff _ heq).mpr hinherited⟩

/-- Some random choices. -/
def sampleSplitCoins : SplitCoins CHUNK_LEN where
  name := "name"
  noise := fun _ => default
  startValue := fun i => 7 * i
  endValue := fun i => i

/-- A one-byte picture in at least three chunks. -/
theorem split_identity_picture :
    ∃ result, splitToChunks LibCrypto.transparent (.file "a.png" [1]) 3 CHUNK_LEN (9 / 10) 1 300000
        ⟨0, by decide⟩ sampleSplitCoins = .ok result ∧
      SplitIdentity [1] CHUNK_LEN (ceilDiv 1 (maxBytesToCopy CHUNK_LEN (9 / 10))) result.chunks :=
  ((split_identity LibCrypto.transparent (.file "a.png" [1]) (by decide) 3 (by decide) (9 / 10)
    (by norm_num) 300000 ⟨0, by decide⟩ sampleSplitCoins).2 (by decide +kernel)).mpr (by decide +kernel)

/-- A split has room for one chunk of a short message. -/
theorem splittable_one : Splittable 1 1 CHUNK_LEN (9 / 10) 70000 := by
  refine ⟨by decide, by decide, by decide, by norm_num, ?_, ?_⟩ <;> decide +kernel

/-- A one-byte file that no receiver accepts. -/
theorem split_identity_inherited :
    ∃ result, splitToChunks LibCrypto.transparent (.file "a.__proto__" [1]) 1 CHUNK_LEN (9 / 10) 1 70000
        ⟨0, by decide⟩ sampleSplitCoins = .ok result ∧
      ¬ SplitIdentity [1] CHUNK_LEN (ceilDiv 1 (maxBytesToCopy CHUNK_LEN (9 / 10))) result.chunks := by
  obtain ⟨merkleRoot, heq⟩ := @splitToChunks_eq LibCrypto.transparent (.file "a.__proto__" [1]) 1 CHUNK_LEN (9 / 10) 70000
    ⟨0, by decide⟩ sampleSplitCoins splittable_one
  rw [if_neg (by decide +kernel)] at heq
  refine ⟨_, heq, ?_⟩
  exact @not_splitIdentity LibCrypto.transparent (.file "a.__proto__" [1]) 1 CHUNK_LEN (9 / 10) 70000 ⟨0, by decide⟩
    sampleSplitCoins splittable_one (by decide +kernel)

end P2Party
