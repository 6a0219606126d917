import Mathlib.Data.Rat.Floor
import Mathlib.Tactic.Linarith
import P2Party.Messages.MessageChunk

/-!
# Splitting a message (`utils/splitToChunks.ts`)

A message is cut into slices of at most `maxBytesToCopy` bytes; every slice is laid at a
random offset of a chunk of noise, and chunks of noise alone are added up to the number
asked for. A chunk tells where its bytes are in its metadata; one of noise alone tells a
range longer than the message. The fill fraction is an exact rational.

- `Outgoing`, `getMessageType`: a text or a file, and its type;
- `planMessageChunkCount`, `estimateOutboundStagingBytes`, `splitToChunks`: the functions
  of the source;
- `isRealChunk`, `receivedSlice`: the tests of the sender and of the receiver;
- `splitToChunks_eq`: every chunk in closed form.
-/

namespace P2Party

open Base

/-! ## Messages and their types (`utils/messageTypes.ts`) -/

/-- `string | File`. -/
inductive Outgoing
  | text (content : String)
  | file (name : String) (content : Bytes)

/-- The bytes of a message. -/
def Outgoing.bytes : Outgoing → Bytes
  | .text content => textEncode content
  | .file _ content => content

/-- `extensionToMessageType` (messageTypes.ts:215-279). -/
def extensionToMessageType : List (String × Nat) :=
  [("png", 2), ("jpeg", 3), ("jpg", 4), ("gif", 5), ("bmp", 6), ("tiff", 7), ("svg", 8), ("webp", 9),
    ("heic", 10), ("pdf", 11), ("doc", 12), ("docx", 13), ("xls", 14), ("xlsx", 15), ("ppt", 16),
    ("pptx", 17), ("txt", 18), ("rtf", 19), ("odt", 20), ("mp3", 21), ("wav", 22), ("aac", 23),
    ("flac", 24), ("ogg", 25), ("m4a", 26), ("mp4", 27), ("avi", 28), ("mkv", 29), ("mov", 30),
    ("wmv", 31), ("flv", 32), ("webm", 33), ("zip", 34), ("rar", 35), ("7z", 36), ("tar", 37),
    ("gz", 38), ("html", 39), ("css", 40), ("js", 41), ("ts", 43), ("jsx", 42), ("tsx", 44),
    ("json", 45), ("xml", 46), ("py", 47), ("java", 48), ("c", 49), ("cpp", 50), ("cs", 51),
    ("rb", 52), ("php", 53), ("sql", 54), ("epub", 55), ("mobi", 56), ("azw", 57), ("ttf", 58),
    ("otf", 59), ("ico", 60), ("exe", 61), ("dmg", 62), ("apk", 63)]

/-- The properties a plain object inherits from `Object.prototype`. -/
def inheritedProperties : List String :=
  ["__defineGetter__", "__defineSetter__", "__lookupGetter__", "__lookupSetter__", "__proto__",
    "constructor", "hasOwnProperty", "isPrototypeOf", "propertyIsEnumerable", "toLocaleString",
    "toString", "valueOf"]

/-- `toLowerCase`, as far as it leads to ASCII: besides the capitals only the Kelvin sign
does, and the keys compared with are ASCII. -/
def lowerCase (c : Char) : Char := if c = Char.ofNat 0x212a then 'k' else c.toLower

/-- `name.split(".").pop()?.toLowerCase()`. -/
def fileExtension (name : String) : String :=
  String.ofList ((name.toList.reverse.takeWhile (· ≠ '.')).reverse.map lowerCase)

/-- What a lookup in the table gives. -/
inductive TypeValue
  | number (n : Nat)
  | inheritedFunction
  | inheritedObject
deriving DecidableEq

/-- The byte an element of a `Uint8Array` is set to: a value that is not a number becomes 0. -/
def TypeValue.toByte : TypeValue → Nat
  | .number n => n
  | .inheritedFunction => 0
  | .inheritedObject => 0

/-- `getMessageType` (messageTypes.ts:211-282). The table is a plain object, so the lookup
also finds what it inherits: `__proto__` is an object, the other properties are functions. -/
def getMessageType : Outgoing → TypeValue
  | .text _ => .number 1
  | .file name _ =>
    match extensionToMessageType.lookup (fileExtension name) with
    | some messageType => .number messageType
    | none =>
      if fileExtension name = "__proto__" then .inheritedObject
      else if fileExtension name ∈ inheritedProperties then .inheritedFunction
      else .number 64

/-- `substring(0, n)`, which counts UTF-16 code units; half a surrogate pair is not a
character and is encoded as the replacement character. -/
def takeUnits : Nat → List Char → List Char
  | 0, _ => []
  | _, [] => []
  | 1, c :: _ => [if c.toNat < 0x10000 then c else replacement]
  | n + 2, c :: cs => if c.toNat < 0x10000 then c :: takeUnits (n + 1) cs else c :: takeUnits n cs

/-! ## Planning -/

/-- `CHUNK_SIZE_FLOOR` (constants.ts:45). -/
abbrev CHUNK_SIZE_FLOOR : Nat := MESSAGE_LEN - CHUNK_LEN

/-- `Math.ceil(a / b)`. -/
def ceilDiv (a b : Nat) : Nat := (a + b - 1) / b

/-- The bytes of the message in a full chunk (splitToChunks.ts:62-64, 221). The product with the fill is
exact here, in `maxChunkStartIndex` and in `planMessageChunkCount`, where the source rounds it to a
double: the number of chunks and the range of the offsets may differ by one. -/
def maxBytesToCopy (chunkSize : Nat) (fill : ℚ) : Nat := ⌈(chunkSize : ℚ) * fill⌉₊

/-- `maxChunkStartIndex` (splitToChunks.ts:218-220). -/
def maxChunkStartIndex (chunkSize : Nat) (fill : ℚ) : Nat := ⌊(chunkSize : ℚ) * (1 - fill)⌋₊

/-- `planMessageChunkCount` (splitToChunks.ts:40-68). -/
def planMessageChunkCount (totalSize minChunks chunkSize : Nat) (fill : ℚ) : Except JsError Nat := do
  demand (1 ≤ minChunks) (.error "Need at least one chunk.")
  demand (1 / 10000 ≤ fill ∧ fill ≤ 99 / 100)
    (.error "Percentage of useful data in chunk should be in (0, 0.99].")
  demand (CHUNK_SIZE_FLOOR < chunkSize ∧ chunkSize ≤ CHUNK_LEN)
    (.error "Chunk length needs to be between 3624 and 61912")
  demand (totalSize ≤ MAX_SAFE_INTEGER ∧ 1 ≤ totalSize) (.error "No data to split in chunks")
  demand (totalSize ≤ MAX_MESSAGE_SIZE) (.error "Message exceeds the 10737418240 byte protocol limit")
  return max minChunks (ceilDiv totalSize (maxBytesToCopy chunkSize fill))

/-- `OUTBOUND_CHUNK_RECORD_OVERHEAD` (splitToChunks.ts:75). -/
abbrev OUTBOUND_CHUNK_RECORD_OVERHEAD : Nat := 2048

/-- `estimateOutboundStagingBytes` (splitToChunks.ts:76-99); `none` is infinity. -/
def estimateOutboundStagingBytes (totalSize totalChunks chunkSize : Nat) : Except JsError (Option Nat) := do
  demand (totalSize ≤ MAX_SAFE_INTEGER ∧ totalChunks ≤ MAX_SAFE_INTEGER ∧ 1 ≤ totalChunks ∧
      chunkSize ≤ MAX_SAFE_INTEGER ∧ 1 ≤ chunkSize)
    (.error "Invalid outbound staging geometry")
  let estimate := totalSize +
    totalChunks * (chunkSize + METADATA_LEN + PROOF_LEN + OUTBOUND_CHUNK_RECORD_OVERHEAD)
  return if estimate ≤ MAX_SAFE_INTEGER then some estimate else none

/-- What `randomNumberInRange` (cryptography/utils.ts:5-46) makes of the value it accepts; what it
draws before is in `Cryptography/Sampling`. -/
def numberOfAccepted (min max value : Nat) : Except JsError Nat :=
  if min = max then .ok min
  else if max < min then .error (.rangeError "randomNumberInRange: max must be >= min")
  else .ok (min + value % (max - min))

/-! ## Splitting -/

/-- What a split draws: the name of a text, and for every chunk its noise and the values
of its two random numbers. -/
structure SplitCoins (chunkSize : Nat) where
  name : String
  noise : Nat → RandomBytes chunkSize
  startValue : Nat → Nat
  endValue : Nat → Nat

/-- The record of a chunk to send, as far as a split fills it. -/
structure StagedChunk where
  chunkIndex : Nat
  leafHash : Bytes
  data : Bytes
  metadata : Bytes
deriving DecidableEq

/-- `chunk.set(blob, offset)` within bounds. -/
def overwrite (chunk : Bytes) (offset : Nat) (blob : Bytes) : Bytes :=
  chunk.take offset ++ (blob ++ chunk.drop (offset + blob.length))

section Loop

variable (L : LibCrypto) {chunkSize : Nat} (coins : SplitCoins chunkSize) (m : Metadata) (file : Bytes)
  (maxStart maxBytes : Nat)

/-- One round of the loop (splitToChunks.ts:223-273): the chunk and the next offset. The
metadata `m` is that of the message. -/
def splitRound (i offset : Nat) : Except JsError (StagedChunk × Nat) := do
  let chunkStartIndex ← numberOfAccepted 0 maxStart (coins.startValue i)
  let remainingBytes := file.length - offset
  let bytesToCopy := min remainingBytes maxBytes
  let chunkEndIndex := chunkStartIndex + bytesToCopy
  let (chunk, chunkEndIndex, offset) ←
    if 0 < remainingBytes then do
      let blob := slice file offset bytesToCopy
      demand (chunkStartIndex + blob.length ≤ chunkSize) (.rangeError "offset is out of bounds")
      pure (overwrite (coins.noise i).val chunkStartIndex blob, chunkEndIndex, offset + bytesToCopy)
    else do
      let start := chunkEndIndex + file.length + 1
      let r ← numberOfAccepted start (MAX_SAFE_INTEGER - start) (coins.endValue i)
      pure ((coins.noise i).val, chunkEndIndex + r, offset)
  let metadata ← serializeMetadata { m with chunkStartIndex, chunkEndIndex, chunkIndex := i }
  return (⟨i, hashMerkleLeaf L chunk, chunk, metadata⟩, offset)

/-- The loop over the chunks from `i` on. -/
def splitLoop : Nat → Nat → Nat → Except JsError (List StagedChunk)
  | 0, _, _ => .ok []
  | count + 1, i, offset => do
    let (chunk, offset) ← splitRound L coins m file maxStart maxBytes i offset
    let rest ← splitLoop count (i + 1) offset
    return chunk :: rest

end Loop

/-- What `splitToChunks` returns, with the chunks it staged. -/
structure SplitResult where
  merkleRoot : Bytes
  hash : Bytes
  totalChunks : Nat
  totalSize : Nat
  messageType : TypeValue
  chunks : List StagedChunk

/-- `splitToChunks` (splitToChunks.ts:115-417), for a transfer that is not cancelled and a
storage that does not fail; `availableSpace` is what the storage estimates and `time` the
clock. -/
def splitToChunks (L : LibCrypto) (message : Outgoing) (minChunks chunkSize : Nat) (fill : ℚ)
    (metadataSchemaVersion : Nat) (availableSpace : Nat) (time : TimeValue) (coins : SplitCoins chunkSize) :
    Except JsError SplitResult := do
  demand (metadataSchemaVersion = 1) (.error "Unknown metadata version schema.")
  let messageType := getMessageType message
  let name := match message with
    | .text _ => coins.name
    | .file name _ => String.ofList (takeUnits 255 name.toList)
  let file := message.bytes
  let totalSize := file.length
  let totalChunks ← planMessageChunkCount totalSize minChunks chunkSize fill
  let stagingBytes ← estimateOutboundStagingBytes totalSize totalChunks chunkSize
  demand (∃ bytes ∈ stagingBytes, bytes ≤ availableSpace)
    (.error "Not enough space to stage the padded encrypted transfer in the browser.")
  let hash := L.sha512 file
  let m : Metadata :=
    { schemaVersion := metadataSchemaVersion, messageType := messageType.toByte, hash, totalSize,
      date := some time.val, name, chunkStartIndex := 0, chunkEndIndex := 0, chunkIndex := 0 }
  let chunks ← splitLoop L coins m file (maxChunkStartIndex chunkSize fill) (maxBytesToCopy chunkSize fill)
    totalChunks 0 0
  let merkleRoot ← getMerkleRoot L (chunks.flatMap (·.leafHash))
  -- the type is posted to the database worker with the row of the message
  demand (messageType ≠ .inheritedFunction)
    (.error "function Object() \x7b [native code] \x7d could not be cloned.")
  return { merkleRoot, hash, totalChunks, totalSize, messageType, chunks }

/-! ## Real chunks and decoys -/

/-- `isRealChunk` (handleSendMessage.ts:180-182). -/
def isRealChunk (metadata : Metadata) : Bool :=
  metadata.chunkStartIndex < metadata.chunkEndIndex &&
    metadata.chunkEndIndex - metadata.chunkStartIndex ≤ metadata.totalSize

/-- `chunkSize` (handleReceiveMessage.ts:217-222). -/
def receivedChunkSize (metadata : Metadata) : Nat :=
  let length := metadata.chunkEndIndex - metadata.chunkStartIndex
  if metadata.totalSize < length then 0 else if MESSAGE_LEN < length then 0 else length

/-- `isStorableChunkRange` (chunkBounds.ts:9-18). -/
def isStorableChunkRange (chunkStartIndex chunkEndIndex chunkLength : Nat) : Bool :=
  chunkStartIndex ≤ MAX_SAFE_INTEGER && chunkEndIndex ≤ MAX_SAFE_INTEGER &&
    chunkStartIndex ≤ chunkEndIndex && chunkEndIndex ≤ chunkLength

/-- The metadata and the bytes of a received chunk (handleReceiveMessage.ts:211-265);
`none` is a chunk that is not stored. -/
def receivedSlice (metadata chunk : Bytes) : Except JsError (Option (Metadata × Bytes)) := do
  let metadata ← deserializeMetadata metadata
  assertMetadataV1 metadata
  if receivedChunkSize metadata = 0 then return none
  else if isStorableChunkRange metadata.chunkStartIndex metadata.chunkEndIndex chunk.length then
    return some (metadata, slice chunk metadata.chunkStartIndex
      (metadata.chunkEndIndex - metadata.chunkStartIndex))
  else return none

/-! ## Every chunk in closed form -/

section ClosedForm

variable (L : LibCrypto) {chunkSize : Nat} (coins : SplitCoins chunkSize) (m : Metadata) (time : Nat)
  (file : Bytes) (maxStart maxBytes : Nat)

/-- Where the bytes of chunk `i` begin. -/
def startAt (i : Nat) : Nat := coins.startValue i % maxStart

/-- The bytes of the message in chunk `i`. -/
def sliceAt (i : Nat) : Bytes := slice file (i * maxBytes) maxBytes

/-- The least length a decoy claims. -/
def decoyFloor (i : Nat) : Nat := startAt coins maxStart i + file.length + 1

/-- The length chunk `i` claims. -/
def claimedLength (i : Nat) : Nat :=
  if i * maxBytes < file.length then (sliceAt file maxBytes i).length
  else decoyFloor coins file maxStart i +
    coins.endValue i % (MAX_SAFE_INTEGER - decoyFloor coins file maxStart i - decoyFloor coins file maxStart i)

/-- The bytes of chunk `i`. -/
def dataAt (i : Nat) : Bytes :=
  overwrite (coins.noise i).val (startAt coins maxStart i) (sliceAt file maxBytes i)

/-- The metadata of chunk `i`. -/
def metadataAt (i : Nat) : Metadata :=
  { m with
    chunkStartIndex := startAt coins maxStart i
    chunkEndIndex := startAt coins maxStart i + claimedLength coins file maxStart maxBytes i
    chunkIndex := i }

/-- Chunk `i`. -/
def stagedAt (i : Nat) : StagedChunk where
  chunkIndex := i
  leafHash := hashMerkleLeaf L (dataAt coins file maxStart maxBytes i)
  data := dataAt coins file maxStart maxBytes i
  metadata := metadataBytes (metadataAt coins m file maxStart maxBytes i) time

end ClosedForm

/-- The numbers a split works with. -/
structure SplitBounds (chunkSize totalSize maxStart maxBytes : Nat) : Prop where
  start : 0 < maxStart
  bytes : 0 < maxBytes
  fits : maxStart + maxBytes ≤ chunkSize
  chunkSize : chunkSize ≤ CHUNK_LEN
  totalSize : totalSize ≤ MAX_MESSAGE_SIZE

theorem splitBounds {chunkSize totalSize : Nat} {fill : ℚ}
    (hchunk : CHUNK_SIZE_FLOOR < chunkSize ∧ chunkSize ≤ CHUNK_LEN)
    (hfill : 1 / 10000 ≤ fill ∧ fill ≤ 99 / 100) (htotal : totalSize ≤ MAX_MESSAGE_SIZE) :
    SplitBounds chunkSize totalSize (maxChunkStartIndex chunkSize fill) (maxBytesToCopy chunkSize fill) := by
  obtain ⟨hlow, hhigh⟩ := hfill
  have hlarge : (100 : ℚ) ≤ chunkSize := by
    have hnat : 100 ≤ chunkSize := Nat.le_of_lt (Nat.lt_of_le_of_lt (by decide) hchunk.1)
    exact_mod_cast hnat
  have hroom : (1 : ℚ) ≤ (chunkSize : ℚ) * (1 - fill) := by
    have hrest : (1 : ℚ) / 100 ≤ 1 - fill := by linarith
    calc (1 : ℚ) = 100 * (1 / 100) := by norm_num
      _ ≤ chunkSize * (1 - fill) := mul_le_mul hlarge hrest (by norm_num) (by linarith)
  have hused : (0 : ℚ) < (chunkSize : ℚ) * fill := mul_pos (by linarith) (by linarith)
  have hfloor : ((maxChunkStartIndex chunkSize fill : Nat) : ℚ) ≤ (chunkSize : ℚ) * (1 - fill) :=
    Nat.floor_le (by linarith)
  have hsplit : (chunkSize : ℚ) * (1 - fill) = chunkSize - chunkSize * fill := by ring
  refine ⟨?_, ?_, ?_, hchunk.2, htotal⟩
  · refine Nat.le_floor ?_
    rw [Nat.cast_one]
    exact hroom
  · refine Nat.lt_ceil.mpr ?_
    rw [Nat.cast_zero]
    exact hused
  · have hle : maxChunkStartIndex chunkSize fill ≤ chunkSize := by
      have hcast : ((maxChunkStartIndex chunkSize fill : Nat) : ℚ) ≤ (chunkSize : ℚ) := by linarith
      exact_mod_cast hcast
    have hceil : maxBytesToCopy chunkSize fill ≤ chunkSize - maxChunkStartIndex chunkSize fill := by
      refine Nat.ceil_le.mpr ?_
      rw [Nat.cast_sub hle]
      linarith
    omega

section Rounds

variable {chunkSize : Nat} (coins : SplitCoins chunkSize) {m : Metadata} {time : Nat} {file : Bytes}
  {maxStart maxBytes : Nat}

theorem startAt_lt (hb : SplitBounds chunkSize file.length maxStart maxBytes) (i : Nat) :
    startAt coins maxStart i < maxStart :=
  Nat.mod_lt _ hb.start

theorem length_sliceAt (file : Bytes) (maxBytes i : Nat) :
    (sliceAt file maxBytes i).length = min maxBytes (file.length - i * maxBytes) := by
  simp [sliceAt, slice]

/-- A decoy claims more than the message, and its end is a safe integer. -/
theorem claimedLength_decoy (hb : SplitBounds chunkSize file.length maxStart maxBytes) {i : Nat}
    (hi : file.length ≤ i * maxBytes) :
    file.length < claimedLength coins file maxStart maxBytes i ∧
      startAt coins maxStart i + claimedLength coins file maxStart maxBytes i ≤ MAX_SAFE_INTEGER := by
  have hstart := startAt_lt coins hb i
  have hfits := hb.fits
  have hchunk := hb.chunkSize
  have htotal := hb.totalSize
  have hfloor : decoyFloor coins file maxStart i = startAt coins maxStart i + file.length + 1 := rfl
  simp only [CHUNK_LEN, MAX_MESSAGE_SIZE] at hchunk htotal
  have hmod := Nat.mod_lt (coins.endValue i)
    (show 0 < MAX_SAFE_INTEGER - decoyFloor coins file maxStart i - decoyFloor coins file maxStart i by
      simp only [MAX_SAFE_INTEGER]
      omega)
  rw [claimedLength, if_neg (Nat.not_lt.mpr hi)]
  simp only [MAX_SAFE_INTEGER] at hmod ⊢
  omega

/-- The end of every chunk is a safe integer. -/
theorem end_le_safe (hb : SplitBounds chunkSize file.length maxStart maxBytes) (i : Nat) :
    startAt coins maxStart i + claimedLength coins file maxStart maxBytes i ≤ MAX_SAFE_INTEGER := by
  by_cases hi : i * maxBytes < file.length
  · have hstart := startAt_lt coins hb i
    have hfits := hb.fits
    have hchunk := hb.chunkSize
    have hlength := length_sliceAt file maxBytes i
    rw [claimedLength, if_pos hi]
    simp only [CHUNK_LEN, MAX_SAFE_INTEGER] at hchunk ⊢
    omega
  · exact (claimedLength_decoy coins hb (Nat.not_lt.mp hi)).2

/-- The metadata of a chunk fits its place on the wire. -/
theorem metadataAt_fits (hb : SplitBounds chunkSize file.length maxStart maxBytes)
    (hm : MetadataFits m time) {i : Nat} (hi : i ≤ MAX_SAFE_INTEGER) :
    MetadataFits (metadataAt coins m file maxStart maxBytes i) time := by
  have hend := end_le_safe coins hb i
  have hsafe : MAX_SAFE_INTEGER < 256 ^ 8 := by decide
  exact { hm with
    chunkStartIndex := Nat.lt_of_le_of_lt (Nat.le_of_add_right_le hend) hsafe
    chunkEndIndex := Nat.lt_of_le_of_lt hend hsafe
    chunkIndex := Nat.lt_of_le_of_lt hi hsafe }

theorem overwrite_nil (chunk : Bytes) (offset : Nat) : overwrite chunk offset [] = chunk := by
  simp [overwrite]

/-- One round, at the offset the rounds before it have reached. -/
theorem splitRound_eq (L : LibCrypto) (hb : SplitBounds chunkSize file.length maxStart maxBytes)
    (hm : MetadataFits m time) {i : Nat} (hi : i ≤ MAX_SAFE_INTEGER) :
    splitRound L coins m file maxStart maxBytes i (min (i * maxBytes) file.length) =
      .ok (stagedAt L coins m time file maxStart maxBytes i, min ((i + 1) * maxBytes) file.length) := by
  have hstart := startAt_lt coins hb i
  have hdraw : numberOfAccepted 0 maxStart (coins.startValue i) = .ok (startAt coins maxStart i) := by
    rw [numberOfAccepted, if_neg (Nat.ne_of_lt hb.start), if_neg (Nat.not_lt_zero _), Nat.sub_zero,
      Nat.zero_add]
    rfl
  have hserial := serializeMetadata_eq (metadataAt_fits coins hb hm hi)
  have hlength := length_sliceAt file maxBytes i
  have hfits := hb.fits
  have hnext : (i + 1) * maxBytes = i * maxBytes + maxBytes := Nat.succ_mul i maxBytes
  unfold splitRound
  rw [hdraw, ok_bind]
  by_cases hreal : i * maxBytes < file.length
  · have hoffset : min (i * maxBytes) file.length = i * maxBytes := Nat.min_eq_left (Nat.le_of_lt hreal)
    have hremain : 0 < file.length - i * maxBytes := by omega
    have hslice : slice file (i * maxBytes) (min (file.length - i * maxBytes) maxBytes)
        = sliceAt file maxBytes i := by
      rw [sliceAt, slice, slice, Nat.min_comm, List.take_eq_take_iff, List.length_drop]
      omega
    have hclaimed : claimedLength coins file maxStart maxBytes i = min (file.length - i * maxBytes) maxBytes := by
      rw [claimedLength, if_pos hreal, hlength, Nat.min_comm]
    rw [hoffset, if_pos hremain, hslice]
    have hbound : startAt coins maxStart i + (sliceAt file maxBytes i).length ≤ chunkSize := by omega
    rw [metadataAt, hclaimed] at hserial
    simp only [demand_of hbound, ok_bind, pure_bind, hserial]
    rw [show i * maxBytes + min (file.length - i * maxBytes) maxBytes = min ((i + 1) * maxBytes) file.length by
      omega]
    rw [← hclaimed]
    rfl
  · have hoffset : min (i * maxBytes) file.length = file.length := Nat.min_eq_right (Nat.not_lt.mp hreal)
    have hremain : ¬ 0 < file.length - file.length := by omega
    have hnone : sliceAt file maxBytes i = [] := List.eq_nil_of_length_eq_zero (by omega)
    have hdecoy : numberOfAccepted (decoyFloor coins file maxStart i)
        (MAX_SAFE_INTEGER - decoyFloor coins file maxStart i) (coins.endValue i)
        = .ok (claimedLength coins file maxStart maxBytes i) := by
      have htotal := hb.totalSize
      have hchunk := hb.chunkSize
      have hfloor : decoyFloor coins file maxStart i = startAt coins maxStart i + file.length + 1 := rfl
      simp only [CHUNK_LEN, MAX_MESSAGE_SIZE] at hchunk htotal
      rw [numberOfAccepted, if_neg (by simp only [MAX_SAFE_INTEGER]; omega),
        if_neg (by simp only [MAX_SAFE_INTEGER]; omega), claimedLength, if_neg hreal]
    rw [hoffset, if_neg hremain]
    simp only [Nat.sub_self, Nat.zero_min, Nat.add_zero]
    rw [decoyFloor] at hdecoy
    rw [hdecoy, ok_bind, pure_bind]
    rw [metadataAt] at hserial
    simp only [hserial, ok_bind]
    have hdata : dataAt coins file maxStart maxBytes i = (coins.noise i).val := by
      rw [dataAt, hnone, overwrite_nil]
    rw [stagedAt, hdata, Nat.min_eq_right (show file.length ≤ (i + 1) * maxBytes by omega)]
    rfl

/-- The loop stages the chunks of the closed form. -/
theorem splitLoop_eq (L : LibCrypto) (hb : SplitBounds chunkSize file.length maxStart maxBytes)
    (hm : MetadataFits m time) {count i : Nat} (hi : i + count ≤ MAX_SAFE_INTEGER) :
    splitLoop L coins m file maxStart maxBytes count i (min (i * maxBytes) file.length) =
      .ok ((List.range' i count).map (stagedAt L coins m time file maxStart maxBytes)) := by
  induction count generalizing i with
  | zero => rfl
  | succ count ih =>
    rw [splitLoop, splitRound_eq coins L hb hm (by omega), ok_bind]
    dsimp only
    rw [ih (by omega), ok_bind]
    rfl

end Rounds

/-! ## The whole split -/

/-- The metadata of a message, before a chunk fills in its range. -/
def messageMetadata (L : LibCrypto) (message : Outgoing) {chunkSize : Nat} (coins : SplitCoins chunkSize) (time : TimeValue) :
    Metadata where
  schemaVersion := 1
  messageType := (getMessageType message).toByte
  hash := L.sha512 message.bytes
  totalSize := message.bytes.length
  date := some time.val
  name := match message with
    | .text _ => coins.name
    | .file name _ => String.ofList (takeUnits 255 name.toList)
  chunkStartIndex := 0
  chunkEndIndex := 0
  chunkIndex := 0

theorem lookup_le {ext : String} {messageType : Nat}
    (h : extensionToMessageType.lookup ext = some messageType) : 1 ≤ messageType ∧ messageType ≤ 64 := by
  have hall : ∀ e ∈ extensionToMessageType, 1 ≤ e.2 ∧ e.2 ≤ 64 := by decide
  obtain ⟨l₁, l₂, heq, -⟩ := List.lookup_eq_some_iff.mp h
  exact hall (ext, messageType) (heq ▸ List.mem_append_right l₁ List.mem_cons_self)

/-- Every type that is a number is one of the list. -/
theorem getMessageType_le {message : Outgoing} {n : Nat} (h : getMessageType message = .number n) :
    1 ≤ n ∧ n ≤ 64 := by
  cases message with
  | text content =>
    cases h
    decide
  | file name content =>
    unfold getMessageType at h
    dsimp only at h
    split at h
    case h_1 hlook =>
      cases h
      exact lookup_le hlook
    case h_2 =>
      split at h
      · cases h
      · split at h
        · cases h
        · cases h
          decide

theorem messageMetadata_fits (L : LibCrypto) {message : Outgoing} {chunkSize : Nat} (coins : SplitCoins chunkSize)
    (time : TimeValue) (hsize : message.bytes.length ≤ MAX_MESSAGE_SIZE) :
    MetadataFits (messageMetadata L message coins time) time.val where
  schemaVersion := by
    show 1 < 256 ^ 8
    decide
  messageType := by
    show (getMessageType message).toByte < 256
    cases htype : getMessageType message with
    | number n => exact Nat.lt_of_le_of_lt (getMessageType_le htype).2 (by decide)
    | inheritedFunction => decide
    | inheritedObject => decide
  hash := L.length_sha512 _
  totalSize := Nat.lt_of_le_of_lt hsize (by decide)
  date := rfl
  time := time.property
  chunkStartIndex := Nat.pow_pos (by decide)
  chunkEndIndex := Nat.pow_pos (by decide)
  chunkIndex := Nat.pow_pos (by decide)

/-- The chunks of a message. -/
def plannedChunks (totalSize minChunks chunkSize : Nat) (fill : ℚ) : Nat :=
  max minChunks (ceilDiv totalSize (maxBytesToCopy chunkSize fill))

/-- What the chunks take in the storage. -/
def stagingBytes (totalSize minChunks chunkSize : Nat) (fill : ℚ) : Nat :=
  totalSize + plannedChunks totalSize minChunks chunkSize fill *
    (chunkSize + METADATA_LEN + PROOF_LEN + OUTBOUND_CHUNK_RECORD_OVERHEAD)

/-- The conditions the source checks before it splits. -/
structure Splittable (totalSize minChunks chunkSize : Nat) (fill : ℚ) (availableSpace : Nat) : Prop where
  size : 1 ≤ totalSize ∧ totalSize ≤ MAX_MESSAGE_SIZE
  count : 1 ≤ minChunks
  chunk : CHUNK_SIZE_FLOOR < chunkSize ∧ chunkSize ≤ CHUNK_LEN
  fraction : 1 / 10000 ≤ fill ∧ fill ≤ 99 / 100
  safe : stagingBytes totalSize minChunks chunkSize fill ≤ MAX_SAFE_INTEGER
  space : stagingBytes totalSize minChunks chunkSize fill ≤ availableSpace

/-- What the plan and the estimate accept. -/
theorem accepted_splittable {totalSize minChunks chunkSize totalChunks bytes : Nat} {fill : ℚ}
    (hplan : planMessageChunkCount totalSize minChunks chunkSize fill = .ok totalChunks)
    (hestimate : estimateOutboundStagingBytes totalSize totalChunks chunkSize = .ok (some bytes)) :
    Splittable totalSize minChunks chunkSize fill bytes ∧
      totalChunks = plannedChunks totalSize minChunks chunkSize fill := by
  unfold planMessageChunkCount at hplan
  obtain ⟨_, hmin, hplan⟩ := except_bind_eq_ok.mp hplan
  obtain ⟨_, hfill, hplan⟩ := except_bind_eq_ok.mp hplan
  obtain ⟨_, hchunk, hplan⟩ := except_bind_eq_ok.mp hplan
  obtain ⟨_, hsize, hplan⟩ := except_bind_eq_ok.mp hplan
  obtain ⟨_, hlimit, hplan⟩ := except_bind_eq_ok.mp hplan
  rw [demand_eq_ok] at hmin hfill hchunk hsize hlimit
  have htotal : totalChunks = plannedChunks totalSize minChunks chunkSize fill := (Except.ok.inj hplan).symm
  subst htotal
  unfold estimateOutboundStagingBytes at hestimate
  obtain ⟨_, -, hestimate⟩ := except_bind_eq_ok.mp hestimate
  dsimp only at hestimate
  split at hestimate
  · rename_i hsafe
    cases hestimate
    exact ⟨⟨⟨hsize.2, hlimit⟩, hmin, hchunk, hfill, hsafe, Nat.le_refl _⟩, rfl⟩
  · cases hestimate

/-- The chunks of a split. -/
def splitChunks (L : LibCrypto) (message : Outgoing) (minChunks : Nat) {chunkSize : Nat} (fill : ℚ)
    (coins : SplitCoins chunkSize) (time : TimeValue) : List StagedChunk :=
  (List.range (plannedChunks message.bytes.length minChunks chunkSize fill)).map
    (stagedAt L coins (messageMetadata L message coins time) time.val message.bytes
      (maxChunkStartIndex chunkSize fill) (maxBytesToCopy chunkSize fill))

theorem planned_le_safe {totalSize minChunks chunkSize : Nat} {fill : ℚ} {availableSpace : Nat}
    (h : Splittable totalSize minChunks chunkSize fill availableSpace) :
    plannedChunks totalSize minChunks chunkSize fill ≤ MAX_SAFE_INTEGER := by
  have hstaging := h.safe
  unfold stagingBytes at hstaging
  have hmul : plannedChunks totalSize minChunks chunkSize fill
      ≤ plannedChunks totalSize minChunks chunkSize fill *
        (chunkSize + METADATA_LEN + PROOF_LEN + OUTBOUND_CHUNK_RECORD_OVERHEAD) :=
    Nat.le_mul_of_pos_right _ (by simp)
  omega

theorem getMerkleRoot_isOk (L : LibCrypto) {chunks : List StagedChunk}
    (hlen : ∀ c ∈ chunks, c.leafHash.length = HASH_BYTES) (hne : chunks ≠ []) :
    ∃ root, getMerkleRoot L (chunks.flatMap (·.leafHash)) = .ok root := by
  have hlength : (chunks.flatMap (·.leafHash)).length = HASH_BYTES * chunks.length := by
    rw [List.length_flatMap, List.map_congr_left hlen, List.map_const', List.sum_replicate_nat,
      Nat.mul_comm]
  have hpos : 0 < chunks.length := List.length_pos_of_ne_nil hne
  unfold getMerkleRoot
  rw [hlength, demand_of (Nat.mul_mod_right _ _), ok_bind, Nat.mul_div_cancel_left _ (by decide)]
  dsimp only
  rw [demand_of (Nat.ne_of_gt hpos), ok_bind]
  split
  · exact ⟨_, rfl⟩
  · exact ⟨_, rfl⟩

/-- What a split returns. -/
def splitResult (L : LibCrypto) (message : Outgoing) (minChunks : Nat) {chunkSize : Nat} (fill : ℚ) (time : TimeValue)
    (coins : SplitCoins chunkSize) (merkleRoot : Bytes) : SplitResult where
  merkleRoot := merkleRoot
  hash := L.sha512 message.bytes
  totalChunks := plannedChunks message.bytes.length minChunks chunkSize fill
  totalSize := message.bytes.length
  messageType := getMessageType message
  chunks := splitChunks L message minChunks fill coins time

/-- The loop of a split that passes its checks. -/
theorem splitLoop_planned (L : LibCrypto) {message : Outgoing} {minChunks chunkSize : Nat} {fill : ℚ}
    {availableSpace : Nat} (time : TimeValue) (coins : SplitCoins chunkSize)
    (h : Splittable message.bytes.length minChunks chunkSize fill availableSpace) :
    splitLoop L coins (messageMetadata L message coins time) message.bytes
      (maxChunkStartIndex chunkSize fill) (maxBytesToCopy chunkSize fill)
      (plannedChunks message.bytes.length minChunks chunkSize fill) 0 0 =
      .ok (splitChunks L message minChunks fill coins time) := by
  have hsafe := planned_le_safe h
  have hzero := splitLoop_eq coins L (splitBounds h.chunk h.fraction h.size.2)
    (messageMetadata_fits L coins time h.size.2)
    (show 0 + plannedChunks message.bytes.length minChunks chunkSize fill ≤ MAX_SAFE_INTEGER by omega)
  rw [Nat.zero_mul, Nat.zero_min] at hzero
  rw [hzero, splitChunks, List.range_eq_range']

/-- A split that passes its checks stages the chunks of the closed form, and returns unless
the type is a function. -/
theorem splitToChunks_eq (L : LibCrypto) {message : Outgoing} {minChunks chunkSize : Nat} {fill : ℚ}
    {availableSpace : Nat} (time : TimeValue) (coins : SplitCoins chunkSize)
    (h : Splittable message.bytes.length minChunks chunkSize fill availableSpace) :
    ∃ merkleRoot, splitToChunks L message minChunks chunkSize fill 1 availableSpace time coins =
      if getMessageType message = .inheritedFunction then
        .error (.error "function Object() \x7b [native code] \x7d could not be cloned.")
      else .ok (splitResult L message minChunks fill time coins merkleRoot) := by
  have hsafeSize : message.bytes.length ≤ MAX_SAFE_INTEGER := Nat.le_trans h.size.2 (by decide)
  have hchunks : 1 ≤ plannedChunks message.bytes.length minChunks chunkSize fill :=
    Nat.le_trans h.count (Nat.le_max_left _ _)
  have hsafeChunks := planned_le_safe h
  have hplan : planMessageChunkCount message.bytes.length minChunks chunkSize fill
      = .ok (plannedChunks message.bytes.length minChunks chunkSize fill) := by
    unfold planMessageChunkCount
    simp only [demand_of h.count, demand_of h.fraction,
      demand_of h.chunk,
      demand_of (And.intro hsafeSize h.size.1), demand_of h.size.2, ok_bind]
    rfl
  have hestimate : estimateOutboundStagingBytes message.bytes.length
      (plannedChunks message.bytes.length minChunks chunkSize fill) chunkSize
      = .ok (some (stagingBytes message.bytes.length minChunks chunkSize fill)) := by
    unfold estimateOutboundStagingBytes
    rw [demand_of ⟨hsafeSize, hsafeChunks, hchunks, Nat.le_trans h.chunk.2 (by decide),
      Nat.lt_of_le_of_lt (Nat.zero_le _) h.chunk.1⟩, ok_bind]
    have hstaging := h.safe
    unfold stagingBytes at hstaging
    dsimp only
    rw [if_pos hstaging]
    rfl
  have hloop := splitLoop_planned L time coins h
  obtain ⟨merkleRoot, hroot⟩ : ∃ root,
      getMerkleRoot L ((splitChunks L message minChunks fill coins time).flatMap (·.leafHash)) = .ok root := by
    refine getMerkleRoot_isOk L ?_ (List.ne_nil_of_length_pos ?_)
    · intro c hc
      obtain ⟨i, -, rfl⟩ := List.mem_map.mp hc
      exact L.length_sha512 _
    · rw [splitChunks, List.length_map, List.length_range]
      exact hchunks
  refine ⟨merkleRoot, ?_⟩
  unfold splitToChunks
  rw [demand_of rfl, ok_bind]
  dsimp only
  rw [hplan, ok_bind, hestimate, ok_bind,
    demand_of ⟨stagingBytes message.bytes.length minChunks chunkSize fill, rfl, h.space⟩, ok_bind]
  refine (congrArg (· >>= _) hloop).trans ?_
  rw [ok_bind, hroot, ok_bind, demand_bind, ite_not]
  rfl

end P2Party
