import P2Party.Base.Codec
import P2Party.Base.Utf8
import P2Party.Messages.Merkle

/-!
# Chunk metadata (`utils/metadata.ts`)

Every chunk carries the same 369 bytes of metadata in front of its Merkle proof.
The integers of the wire format are unsigned 64-bit; a value above
`Number.MAX_SAFE_INTEGER` is not a safe integer before or after the rounding of
`Number`, and every reader checks that, so the model keeps the exact value.

- `serializeMetadata`, `deserializeMetadata`: the codec;
- `assertMetadataV1`: the check of what was read;
- `serializeMetadata_eq`, `deserializeMetadata_eq`: what is written, and that
  every field but the name reads back as it was.
-/

namespace P2Party

open Base

/-- `NAME_LEN` (constants.ts:16). -/
abbrev NAME_LEN : Nat := 256

/-- `METADATA_LEN` (constants.ts:17-26). -/
abbrev METADATA_LEN : Nat := 369

/-- `MessageType.Unknown` (messageTypes.ts). -/
abbrev MESSAGE_TYPE_UNKNOWN : Nat := 64

/-- `Metadata` (metadata.ts:6-19); an invalid `Date` is `none`. -/
structure Metadata where
  schemaVersion : Nat
  messageType : Nat
  hash : Bytes
  totalSize : Nat
  date : Option Int
  name : String
  chunkStartIndex : Nat
  chunkEndIndex : Nat
  chunkIndex : Nat
deriving DecidableEq

/-- `serializeMetadata` (metadata.ts:69-117). -/
def serializeMetadata (metadata : Metadata) : Except JsError Bytes :=
  match metadata.date with
  | none => .error (.rangeError
      "The number NaN cannot be converted to a BigInt because it is not an integer")
  | some time => .ok (
      beBytes 8 metadata.schemaVersion ++ ([UInt8.ofNat metadata.messageType] ++
      (LibCrypto.pad HASH_BYTES metadata.hash ++ (beBytes 8 metadata.totalSize ++
      (beBytes 8 (time % 2 ^ 64).toNat ++ (LibCrypto.pad NAME_LEN (textEncode metadata.name) ++
      (beBytes 8 metadata.chunkStartIndex ++ (beBytes 8 metadata.chunkEndIndex ++
      beBytes 8 metadata.chunkIndex))))))))

/-- What `new Date()` reads: a time value after 1970. -/
abbrev TimeValue := { time : Nat // time ≤ 8640000000000000 }

/-- `new Date(time)`: times beyond the range of a time value are invalid. -/
def newDate (time : Nat) : Option Int := if time ≤ 8640000000000000 then some time else none

/-- Trailing zero characters dropped (metadata.ts:158). -/
def stripTrailingZeros (chars : List Char) : List Char :=
  (chars.reverse.dropWhile (· == Char.ofNat 0)).reverse

/-- A character that is replaced by an underscore (metadata.ts:160-162). -/
def isUnsafeChar (c : Char) : Bool := "/\\<>:\"'|?*".toList.contains c

/-- A character that is dropped (metadata.ts:164). -/
def isControlChar (c : Char) : Bool := c.toNat ≤ 0x1f || c.toNat == 0x7f

/-- The sanitised name (metadata.ts:158-164). -/
def sanitizeName (chars : List Char) : String :=
  String.ofList (((stripTrailingZeros chars).map fun c => if isUnsafeChar c then '_' else c).filter
    fun c => !isControlChar c)

/-- `deserializeMetadata` (metadata.ts:119-206). -/
def deserializeMetadata (buffer : Bytes) : Except JsError Metadata := do
  demand (buffer.length = METADATA_LEN) (.error "Invalid metadata buffer totalSize")
  return {
    schemaVersion := beNat (slice buffer 0 8)
    messageType := (buffer.getD 8 0).toNat
    hash := slice buffer 9 HASH_BYTES
    totalSize := beNat (slice buffer 73 8)
    date := newDate (beNat (slice buffer 81 8))
    name := sanitizeName (utf8Decode (slice buffer 89 NAME_LEN))
    chunkStartIndex := beNat (slice buffer 345 8)
    chunkEndIndex := beNat (slice buffer 353 8)
    chunkIndex := beNat (slice buffer 361 8) }

/-- `MAX_MESSAGE_SIZE` (constants.ts:10). -/
abbrev MAX_MESSAGE_SIZE : Nat := 10 * 1024 * 1024 * 1024

/-- One index of `assertMetadataV1`. -/
def assertIndex (name : String) (value : Nat) : Except JsError Unit :=
  demand (value ≤ MAX_SAFE_INTEGER) (.error ("Invalid metadata " ++ name))

/-- `assertMetadataV1` (metadata.ts:27-56). -/
def assertMetadataV1 (metadata : Metadata) : Except JsError Unit := do
  demand (metadata.schemaVersion = 1) (.error "Unsupported metadata schema version")
  demand (1 ≤ metadata.messageType ∧ metadata.messageType ≤ 64)
    (.error "Invalid metadata message type")
  demand (metadata.hash.length = HASH_BYTES) (.error "Invalid metadata hash")
  demand (1 ≤ metadata.totalSize ∧ metadata.totalSize ≤ MAX_MESSAGE_SIZE)
    (.error "Invalid metadata total size")
  demand (∃ time ∈ metadata.date, -(MAX_SAFE_INTEGER : Int) ≤ time ∧ time ≤ MAX_SAFE_INTEGER)
    (.error "Invalid metadata timestamp")
  assertIndex "chunkStartIndex" metadata.chunkStartIndex
  assertIndex "chunkEndIndex" metadata.chunkEndIndex
  assertIndex "chunkIndex" metadata.chunkIndex
  demand (metadata.chunkStartIndex ≤ metadata.chunkEndIndex) (.error "Invalid metadata chunk range")

theorem assertMetadataV1_eq_ok {m : Metadata} :
    assertMetadataV1 m = .ok () ↔
      m.schemaVersion = 1 ∧ (1 ≤ m.messageType ∧ m.messageType ≤ 64) ∧ m.hash.length = HASH_BYTES ∧
      (1 ≤ m.totalSize ∧ m.totalSize ≤ MAX_MESSAGE_SIZE) ∧
      (∃ time ∈ m.date, -(MAX_SAFE_INTEGER : Int) ≤ time ∧ time ≤ MAX_SAFE_INTEGER) ∧
      m.chunkStartIndex ≤ MAX_SAFE_INTEGER ∧ m.chunkEndIndex ≤ MAX_SAFE_INTEGER ∧
      m.chunkIndex ≤ MAX_SAFE_INTEGER ∧ m.chunkStartIndex ≤ m.chunkEndIndex := by
  unfold assertMetadataV1 assertIndex
  simp only [except_bind_eq_ok, demand_eq_ok, exists_const]

/-! ## Reading back what was written -/

/-- Metadata every field of which fits its place on the wire. -/
structure MetadataFits (m : Metadata) (time : Nat) : Prop where
  schemaVersion : m.schemaVersion < 256 ^ 8
  messageType : m.messageType < 256
  hash : m.hash.length = HASH_BYTES
  totalSize : m.totalSize < 256 ^ 8
  date : m.date = some (time : Int)
  time : time ≤ 8640000000000000
  chunkStartIndex : m.chunkStartIndex < 256 ^ 8
  chunkEndIndex : m.chunkEndIndex < 256 ^ 8
  chunkIndex : m.chunkIndex < 256 ^ 8

/-- The 256 bytes of a name. -/
def nameField (name : String) : Bytes := LibCrypto.pad NAME_LEN (textEncode name)

/-- The bytes of metadata. -/
def metadataBytes (m : Metadata) (time : Nat) : Bytes :=
  beBytes 8 m.schemaVersion ++ ([UInt8.ofNat m.messageType] ++ (m.hash ++ (beBytes 8 m.totalSize ++
    (beBytes 8 time ++ (nameField m.name ++ (beBytes 8 m.chunkStartIndex ++
    (beBytes 8 m.chunkEndIndex ++ beBytes 8 m.chunkIndex)))))))

variable {m : Metadata} {time : Nat}

theorem serializeMetadata_eq (h : MetadataFits m time) :
    serializeMetadata m = .ok (metadataBytes m time) := by
  have htime : ((time : Int) % 2 ^ 64).toNat = time := by
    have := h.time
    omega
  unfold serializeMetadata
  rw [h.date]
  simp only [htime, LibCrypto.pad_of_length h.hash]
  rfl

theorem length_metadataBytes (hhash : m.hash.length = HASH_BYTES) (time : Nat) :
    (metadataBytes m time).length = METADATA_LEN := by
  have hhash : m.hash.length = 64 := hhash
  have hname : (nameField m.name).length = 256 := LibCrypto.length_pad _ _
  simp [metadataBytes, hname, hhash]

/-- Metadata whose numbers fit their places on the wire. -/
structure FieldsFit (m : Metadata) : Prop where
  schemaVersion : m.schemaVersion < 256 ^ 8
  messageType : m.messageType < 256
  hash : m.hash.length = HASH_BYTES
  totalSize : m.totalSize < 256 ^ 8
  chunkStartIndex : m.chunkStartIndex < 256 ^ 8
  chunkEndIndex : m.chunkEndIndex < 256 ^ 8
  chunkIndex : m.chunkIndex < 256 ^ 8

/-- Every field but the date and the name reads back as it was written; the date is made of the
unsigned number, and the name is the sanitised decoding of its 256 bytes. -/
theorem deserializeMetadata_bytes (h : FieldsFit m) (htime : time < 256 ^ 8) :
    deserializeMetadata (metadataBytes m time) =
      .ok { m with date := newDate time, name := sanitizeName (utf8Decode (nameField m.name)) } := by
  have hname : (nameField m.name).length = 256 := LibCrypto.length_pad _ _
  have hhash : m.hash.length = 64 := h.hash
  have htype : (UInt8.ofNat m.messageType).toNat = m.messageType :=
    UInt8.toNat_ofNat_of_lt' h.messageType
  -- each field is read at its offset: the fields before it have its offset as total length
  have hschema : slice (metadataBytes m time) 0 8 = beBytes 8 m.schemaVersion :=
    @slice_append [] _ _ 0 8 rfl (length_beBytes 8 _)
  have hbyte : (metadataBytes m time).getD 8 0 = UInt8.ofNat m.messageType := by
    rw [metadataBytes, List.getD_eq_getElem?_getD, List.getElem?_append_right (by simp)]
    simp
  have hhashAt : slice (metadataBytes m time) 9 HASH_BYTES = m.hash := by
    rw [metadataBytes, ← List.append_assoc]
    exact slice_append (by simp) hhash
  have htotal : slice (metadataBytes m time) 73 8 = beBytes 8 m.totalSize := by
    rw [metadataBytes]
    iterate 2 rw [← List.append_assoc]
    exact slice_append (by simp [hhash]) (length_beBytes 8 _)
  have htimeAt : slice (metadataBytes m time) 81 8 = beBytes 8 time := by
    rw [metadataBytes]
    iterate 3 rw [← List.append_assoc]
    exact slice_append (by simp [hhash]) (length_beBytes 8 _)
  have hnameAt : slice (metadataBytes m time) 89 NAME_LEN = nameField m.name := by
    rw [metadataBytes]
    iterate 4 rw [← List.append_assoc]
    exact slice_append (by simp [hhash]) hname
  have hstart : slice (metadataBytes m time) 345 8 = beBytes 8 m.chunkStartIndex := by
    rw [metadataBytes]
    iterate 5 rw [← List.append_assoc]
    exact slice_append (by simp [hhash, hname]) (length_beBytes 8 _)
  have hend : slice (metadataBytes m time) 353 8 = beBytes 8 m.chunkEndIndex := by
    rw [metadataBytes]
    iterate 6 rw [← List.append_assoc]
    exact slice_append (by simp [hhash, hname]) (length_beBytes 8 _)
  have hindex : slice (metadataBytes m time) 361 8 = beBytes 8 m.chunkIndex := by
    rw [metadataBytes]
    iterate 7 rw [← List.append_assoc]
    rw [← List.append_nil (beBytes 8 m.chunkIndex)]
    rw [slice_append (by simp [hhash, hname]) (length_beBytes 8 _), List.append_nil]
  unfold deserializeMetadata
  simp only [demand_of (length_metadataBytes h.hash time), ok_bind, hschema, hbyte, hhashAt, htotal, htimeAt,
    hnameAt, hstart, hend, hindex, htype, beNat_beBytes h.schemaVersion, beNat_beBytes h.totalSize,
    beNat_beBytes htime, beNat_beBytes h.chunkStartIndex, beNat_beBytes h.chunkEndIndex,
    beNat_beBytes h.chunkIndex]
  rfl

/-- Every field but the name reads back as it was written; the name reads back
as the sanitised decoding of its 256 bytes. -/
theorem deserializeMetadata_eq (h : MetadataFits m time) :
    deserializeMetadata (metadataBytes m time) =
      .ok { m with name := sanitizeName (utf8Decode (nameField m.name)) } := by
  have hdate : newDate time = some (time : Int) := if_pos h.time
  have htime : time < 256 ^ 8 := Nat.lt_of_le_of_lt h.time (by decide)
  rw [deserializeMetadata_bytes ⟨h.schemaVersion, h.messageType, h.hash, h.totalSize, h.chunkStartIndex,
    h.chunkEndIndex, h.chunkIndex⟩ htime, hdate, ← h.date]

end P2Party
