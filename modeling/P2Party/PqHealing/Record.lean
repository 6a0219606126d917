import P2Party.Base.Codec
import P2Party.Cryptography.LibCrypto

/-!
# PQ healing records (`cryptography/pqHealing.ts`)

The canonical byte formats of the sparse-PQ exchange: OFFER, ADVANCE and the
64-byte acknowledgement. Every record starts with one 64-byte header and an
ADVANCE embeds the complete OFFER it answers.

- `encodeOffer`, `encodeAdvance`, `encodePqHealingAck` and their decoders;
- `decodeOffer_offerRecord`, `decodeAdvance_advanceRecord`, `decodePqHealingAck_ackRecord`:
  what was encoded decodes to the same fields;
- `decodeOffer_spec`, `decodeAdvance_spec`: what an accepted record satisfies;
- `inspectPqHealingRecord`: routing by record type.
-/

namespace P2Party

open Base

namespace PqHealing

/-! ## Constants and checks -/

/-- `PQ_HEALING_BINDING_BYTES` (pqHealing.ts:32). -/
abbrev PQ_HEALING_BINDING_BYTES : Nat := 32

/-- `PQ_HEALING_ROOT_BYTES` (pqHealing.ts:33). -/
abbrev PQ_HEALING_ROOT_BYTES : Nat := 32

/-- `PQ_HEALING_RECORD_HEADER_BYTES` (pqHealing.ts:34). -/
abbrev PQ_HEALING_RECORD_HEADER_BYTES : Nat := 64

/-- `PQ_HEALING_ACK_BYTES` (pqHealing.ts:35). -/
abbrev PQ_HEALING_ACK_BYTES : Nat := 64

/-- `MAGIC`, "P2QH" (pqHealing.ts:38). -/
def MAGIC : Bytes := [0x50, 0x32, 0x51, 0x48]

/-- `FORMAT_VERSION` (pqHealing.ts:39). -/
def FORMAT_VERSION : UInt8 := 1

/-- Record types (pqHealing.ts:40-42). -/
def OFFER_TYPE : UInt8 := 1

@[inherit_doc OFFER_TYPE] def ADVANCE_TYPE : UInt8 := 2

@[inherit_doc OFFER_TYPE] def ACK_TYPE : UInt8 := 3

/-- `RESERVED_FLAGS` (pqHealing.ts:43). -/
def RESERVED_FLAGS : UInt8 := 0

/-- `MAX_U64` (pqHealing.ts:45). -/
def MAX_U64 : Nat := 2 ^ 64 - 1

/-- `fail` (pqHealing.ts:276-278). -/
def failure (code : PqHealingErrorCode) (message : String) : JsError :=
  .pqHealingError code ("pqHealing: " ++ message)

/-- `requireBytes` (pqHealing.ts:280-294). -/
def requireBytes (value : Bytes) (name : String) (expectedLength : Nat) : Except JsError Unit :=
  demand (value.length = expectedLength)
    (failure .invalidRecord (name ++ " must be exactly " ++ toString expectedLength ++ " bytes"))

/-- `requireU64` (pqHealing.ts:296-299). -/
def requireU64 (value : Nat) (name : String) : Except JsError Unit :=
  demand (value ≤ MAX_U64) (failure .overflow (name ++ " is outside the unsigned 64-bit range"))

/-- `requireIncrementableU64` (pqHealing.ts:301-305). -/
def requireIncrementableU64 (value : Nat) (name : String) : Except JsError Unit := do
  requireU64 value name
  demand (value ≠ MAX_U64) (failure .overflow (name ++ " cannot advance beyond uint64"))

/-- `parameterSetToTag` (pqHealing.ts:425-431). -/
def parameterSetToTag : MlKemParameterSet → UInt8
  | .mlkem768 => 1
  | .mlkem512 => 2
  | .mlkem1024 => 3

/-- `tagToParameterSet` (pqHealing.ts:433-438). -/
def tagToParameterSet (tag : UInt8) : Except JsError MlKemParameterSet :=
  if tag = 1 then .ok .mlkem768
  else if tag = 2 then .ok .mlkem512
  else if tag = 3 then .ok .mlkem1024
  else .error (failure .invalidRecord "record has an unknown ML-KEM suite tag")

theorem tagToParameterSet_parameterSetToTag (p : MlKemParameterSet) :
    tagToParameterSet (parameterSetToTag p) = .ok p := by
  cases p <;> rfl

/-- `offerLength` (pqHealing.ts:484-485). -/
def offerLength (suite : MlKemParameterSet) : Nat :=
  PQ_HEALING_RECORD_HEADER_BYTES + suite.publicKeyBytes

/-- `advanceLength` (pqHealing.ts:487-488). -/
def advanceLength (suite : MlKemParameterSet) : Nat :=
  PQ_HEALING_RECORD_HEADER_BYTES + offerLength suite + suite.ciphertextBytes

/-! ## Headers -/

/-- The 64 bytes every record starts with. The last three fields are the counter
and the two epochs of an OFFER or ADVANCE. -/
def headerBytes (type : UInt8) (suite : MlKemParameterSet) (binding : Bytes)
    (counter second third : Nat) : Bytes :=
  MAGIC ++ ([FORMAT_VERSION, type, parameterSetToTag suite, RESERVED_FLAGS] ++ (binding ++
    (beBytes 8 counter ++ (beBytes 8 second ++ beBytes 8 third))))

/-- The byte at an offset. -/
def byteAt (record : Bytes) (off : Nat) : UInt8 := record.getD off 0

/-- `encodeHeader` (pqHealing.ts:588-620). The zero-filled payload that follows the
header is appended by the callers. -/
def encodeHeader (type : UInt8) (suite : MlKemParameterSet) (binding : Bytes)
    (senderCounter fromEpoch toEpoch : Nat) : Except JsError Bytes := do
  requireBytes binding "binding" PQ_HEALING_BINDING_BYTES
  requireU64 senderCounter "sender counter"
  requireU64 fromEpoch "from epoch"
  requireU64 toEpoch "to epoch"
  demand (fromEpoch ≠ MAX_U64 ∧ toEpoch = fromEpoch + 1)
    (failure .invalidRecord "record must advance exactly one PQ epoch")
  return headerBytes type suite binding senderCounter fromEpoch toEpoch

/-- `DecodedHeader` (pqHealing.ts:211-215). -/
structure DecodedHeader where
  senderCounter : Nat
  fromEpoch : Nat
  toEpoch : Nat
deriving DecidableEq

/-- `decodeHeader` (pqHealing.ts:622-672); the expected binding is optional. -/
def decodeHeader (record : Bytes) (expectedType : UInt8) (suite : MlKemParameterSet)
    (binding : Option Bytes) : Except JsError DecodedHeader := do
  demand (PQ_HEALING_RECORD_HEADER_BYTES ≤ record.length)
    (failure .invalidRecord "record is shorter than its canonical header")
  demand (slice record 0 4 = MAGIC) (failure .invalidRecord "record magic is invalid")
  demand (byteAt record 4 = FORMAT_VERSION)
    (failure .invalidRecord "record version is unsupported")
  demand (byteAt record 5 = expectedType) (failure .invalidRecord "record type is unexpected")
  demand (byteAt record 7 = RESERVED_FLAGS)
    (failure .invalidRecord "record reserved flags must be zero")
  let recordParameterSet ← tagToParameterSet (byteAt record 6)
  demand (recordParameterSet = suite)
    (failure .suiteMismatch "record suite differs from the authenticated room suite")
  demand (∀ b ∈ binding, slice record 8 32 = b)
    (failure .bindingMismatch "record belongs to a different authenticated edge")
  let senderCounter := beNat (slice record 40 8)
  let fromEpoch := beNat (slice record 48 8)
  let toEpoch := beNat (slice record 56 8)
  demand (fromEpoch ≠ MAX_U64 ∧ toEpoch = fromEpoch + 1)
    (failure .invalidRecord "record must advance exactly one PQ epoch")
  return { senderCounter, fromEpoch, toEpoch }

/-! ## OFFER and ADVANCE -/

/-- `DecodedOffer` (pqHealing.ts:217-220). -/
structure DecodedOffer where
  bytes : Bytes
  publicKey : Bytes
  senderCounter : Nat
  fromEpoch : Nat
  toEpoch : Nat
deriving DecidableEq

/-- `DecodedAdvance` (pqHealing.ts:222-226). -/
structure DecodedAdvance where
  bytes : Bytes
  offer : DecodedOffer
  ciphertext : Bytes
  senderCounter : Nat
  fromEpoch : Nat
  toEpoch : Nat
deriving DecidableEq

/-- `decodeOffer` (pqHealing.ts:674-687). -/
def decodeOffer (record : Bytes) (suite : MlKemParameterSet) (binding : Option Bytes) :
    Except JsError DecodedOffer := do
  let header ← decodeHeader record OFFER_TYPE suite binding
  demand (record.length = offerLength suite)
    (failure .invalidRecord "OFFER length is not canonical for its suite")
  return {
    bytes := record
    publicKey := record.drop PQ_HEALING_RECORD_HEADER_BYTES
    senderCounter := header.senderCounter
    fromEpoch := header.fromEpoch
    toEpoch := header.toEpoch }

/-- `decodeAdvance` (pqHealing.ts:689-716). -/
def decodeAdvance (record : Bytes) (suite : MlKemParameterSet) (binding : Option Bytes) :
    Except JsError DecodedAdvance := do
  let header ← decodeHeader record ADVANCE_TYPE suite binding
  demand (record.length = advanceLength suite)
    (failure .invalidRecord "ADVANCE length is not canonical for its suite")
  let offer ← decodeOffer (slice record PQ_HEALING_RECORD_HEADER_BYTES (offerLength suite)) suite
    binding
  demand (offer.fromEpoch = header.fromEpoch ∧ offer.toEpoch = header.toEpoch)
    (failure .fork "ADVANCE epoch does not exactly match its embedded OFFER")
  return {
    bytes := record
    offer := offer
    ciphertext := record.drop (PQ_HEALING_RECORD_HEADER_BYTES + offerLength suite)
    senderCounter := header.senderCounter
    fromEpoch := header.fromEpoch
    toEpoch := header.toEpoch }

/-- `encodeOffer` (pqHealing.ts:779-798). -/
def encodeOffer (suite : MlKemParameterSet) (binding : Bytes) (senderCounter fromEpoch : Nat)
    (publicKey : Bytes) : Except JsError Bytes := do
  requireBytes publicKey "ML-KEM public key" suite.publicKeyBytes
  let record ← encodeHeader OFFER_TYPE suite binding senderCounter fromEpoch (fromEpoch + 1)
  return record ++ publicKey

/-- `encodeAdvance` (pqHealing.ts:800-820). -/
def encodeAdvance (suite : MlKemParameterSet) (binding : Bytes) (senderCounter : Nat)
    (offer : DecodedOffer) (ciphertext : Bytes) : Except JsError Bytes := do
  requireBytes ciphertext "ML-KEM ciphertext" suite.ciphertextBytes
  let record ← encodeHeader ADVANCE_TYPE suite binding senderCounter offer.fromEpoch offer.toEpoch
  return record ++ (offer.bytes ++ ciphertext)

/-- What routing needs of an inspected record (pqHealing.ts:93-121). -/
inductive PqHealingRecord
  | offer (binding : Bytes) (offer : DecodedOffer)
  | advance (binding : Bytes) (advance : DecodedAdvance)
deriving DecidableEq

/-- `inspectPqHealingRecord` (pqHealing.ts:723-777). -/
def inspectPqHealingRecord (record : Bytes) (suite : MlKemParameterSet) :
    Except JsError PqHealingRecord := do
  demand (PQ_HEALING_RECORD_HEADER_BYTES ≤ record.length)
    (failure .invalidRecord "record is shorter than its canonical header")
  if byteAt record 5 = OFFER_TYPE then
    let offer ← decodeOffer record suite none
    return .offer (slice offer.bytes 8 32) offer
  else if byteAt record 5 = ADVANCE_TYPE then
    let advance ← decodeAdvance record suite none
    return .advance (slice advance.bytes 8 32) advance
  else
    .error (failure .invalidRecord "record type is unknown")

/-! ## Acknowledgements -/

/-- `PqHealingAdvanceAcknowledgement` (pqHealing.ts:95-103). -/
structure PqHealingAdvanceAcknowledgement where
  epoch : Nat
  advanceCounter : Nat
deriving DecidableEq

/-- `requireAcknowledgement` (pqHealing.ts:307-356): the range checks. -/
def requireAcknowledgement (ack : PqHealingAdvanceAcknowledgement) :
    Except JsError PqHealingAdvanceAcknowledgement := do
  requireU64 ack.epoch "advance acknowledgement epoch"
  requireU64 ack.advanceCounter "advance acknowledgement counter"
  return ack

/-- `encodePqHealingAck` (pqHealing.ts:508-535). -/
def encodePqHealingAck (acknowledgement : PqHealingAdvanceAcknowledgement)
    (suite : MlKemParameterSet) (binding : Bytes) : Except JsError Bytes := do
  requireBytes binding "binding" PQ_HEALING_BINDING_BYTES
  let ack ← requireAcknowledgement acknowledgement
  return headerBytes ACK_TYPE suite binding ack.advanceCounter ack.epoch 0

/-- `decodePqHealingAck` (pqHealing.ts:538-586). -/
def decodePqHealingAck (record : Bytes) (suite : MlKemParameterSet) (binding : Bytes) :
    Except JsError PqHealingAdvanceAcknowledgement := do
  requireBytes binding "binding" PQ_HEALING_BINDING_BYTES
  requireBytes record "ACK" PQ_HEALING_ACK_BYTES
  demand (slice record 0 4 = MAGIC) (failure .invalidRecord "ACK magic is invalid")
  demand (byteAt record 4 = FORMAT_VERSION) (failure .invalidRecord "ACK version is unsupported")
  demand (byteAt record 5 = ACK_TYPE) (failure .invalidRecord "ACK type is unexpected")
  demand (byteAt record 7 = RESERVED_FLAGS)
    (failure .invalidRecord "ACK reserved flags must be zero")
  let recordParameterSet ← tagToParameterSet (byteAt record 6)
  demand (recordParameterSet = suite)
    (failure .suiteMismatch "ACK suite differs from the authenticated room suite")
  demand (slice record 8 32 = binding)
    (failure .bindingMismatch "ACK belongs to a different authenticated edge")
  demand (beNat (slice record 56 8) = 0)
    (failure .invalidRecord "ACK reserved bytes must be zero")
  return { epoch := beNat (slice record 48 8), advanceCounter := beNat (slice record 40 8) }

/-! ## Reading a header back -/

section Header

variable {type : UInt8} {suite : MlKemParameterSet} {binding payload : Bytes}
  {counter second third : Nat}

theorem length_headerBytes (hb : binding.length = 32) :
    (headerBytes type suite binding counter second third).length = 64 := by
  simp [headerBytes, MAGIC, hb]

theorem slice_header_magic :
    slice (headerBytes type suite binding counter second third ++ payload) 0 4 = MAGIC := by
  simp [slice, headerBytes, MAGIC]

theorem byteAt_header_version :
    byteAt (headerBytes type suite binding counter second third ++ payload) 4 =
      FORMAT_VERSION := by
  simp [byteAt, headerBytes, MAGIC]

theorem byteAt_header_type :
    byteAt (headerBytes type suite binding counter second third ++ payload) 5 = type := by
  simp [byteAt, headerBytes, MAGIC]

theorem byteAt_header_suite :
    byteAt (headerBytes type suite binding counter second third ++ payload) 6 =
      parameterSetToTag suite := by
  simp [byteAt, headerBytes, MAGIC]

theorem byteAt_header_flags :
    byteAt (headerBytes type suite binding counter second third ++ payload) 7 =
      RESERVED_FLAGS := by
  simp [byteAt, headerBytes, MAGIC]

theorem slice_header_binding (hb : binding.length = 32) :
    slice (headerBytes type suite binding counter second third ++ payload) 8 32 = binding := by
  have hshape : headerBytes type suite binding counter second third ++ payload =
      (MAGIC ++ [FORMAT_VERSION, type, parameterSetToTag suite, RESERVED_FLAGS]) ++ (binding ++
        (beBytes 8 counter ++ (beBytes 8 second ++ (beBytes 8 third ++ payload)))) := by
    simp [headerBytes]
  rw [hshape]
  exact slice_append rfl hb

theorem slice_header_counter (hb : binding.length = 32) :
    slice (headerBytes type suite binding counter second third ++ payload) 40 8 =
      beBytes 8 counter := by
  have hshape : headerBytes type suite binding counter second third ++ payload =
      (MAGIC ++ [FORMAT_VERSION, type, parameterSetToTag suite, RESERVED_FLAGS] ++ binding) ++
        (beBytes 8 counter ++ (beBytes 8 second ++ (beBytes 8 third ++ payload))) := by
    simp [headerBytes]
  rw [hshape]
  exact slice_append (by simp [MAGIC, hb]) (length_beBytes 8 counter)

theorem slice_header_second (hb : binding.length = 32) :
    slice (headerBytes type suite binding counter second third ++ payload) 48 8 =
      beBytes 8 second := by
  have hshape : headerBytes type suite binding counter second third ++ payload =
      (MAGIC ++ [FORMAT_VERSION, type, parameterSetToTag suite, RESERVED_FLAGS] ++ binding ++
        beBytes 8 counter) ++ (beBytes 8 second ++ (beBytes 8 third ++ payload)) := by
    simp [headerBytes]
  rw [hshape]
  exact slice_append (by simp [MAGIC, hb]) (length_beBytes 8 second)

theorem slice_header_third (hb : binding.length = 32) :
    slice (headerBytes type suite binding counter second third ++ payload) 56 8 =
      beBytes 8 third := by
  have hshape : headerBytes type suite binding counter second third ++ payload =
      (MAGIC ++ [FORMAT_VERSION, type, parameterSetToTag suite, RESERVED_FLAGS] ++ binding ++
        beBytes 8 counter ++ beBytes 8 second) ++ (beBytes 8 third ++ payload) := by
    simp [headerBytes]
  rw [hshape]
  exact slice_append (by simp [MAGIC, hb]) (length_beBytes 8 third)

end Header

theorem lt_256_pow_8 {n : Nat} (h : n ≤ MAX_U64) : n < 256 ^ 8 := by
  have : (256 : Nat) ^ 8 = 2 ^ 64 := by decide
  have : MAX_U64 < 2 ^ 64 := by decide
  omega

/-- The fields of an OFFER or ADVANCE header that the encoder accepts. -/
structure HeaderFits (binding : Bytes) (counter fromEpoch : Nat) : Prop where
  binding : binding.length = 32
  counter : counter ≤ MAX_U64
  fromEpoch : fromEpoch < MAX_U64

theorem encodeHeader_eq {type : UInt8} {suite : MlKemParameterSet} {binding : Bytes}
    {counter fromEpoch : Nat} (h : HeaderFits binding counter fromEpoch) :
    encodeHeader type suite binding counter fromEpoch (fromEpoch + 1) =
      .ok (headerBytes type suite binding counter fromEpoch (fromEpoch + 1)) := by
  have hfrom : fromEpoch ≤ MAX_U64 := Nat.le_of_lt h.fromEpoch
  have hto : fromEpoch + 1 ≤ MAX_U64 := h.fromEpoch
  have hne : fromEpoch ≠ MAX_U64 := Nat.ne_of_lt h.fromEpoch
  simp only [encodeHeader, requireBytes, requireU64, demand_bind]
  simp [h.binding, h.counter, hfrom, hto, hne]

/-- A header in front of any payload decodes to its fields. -/
theorem decodeHeader_eq {type : UInt8} {suite : MlKemParameterSet} {binding payload : Bytes}
    {counter fromEpoch : Nat} (h : HeaderFits binding counter fromEpoch) {expected : Option Bytes}
    (hexp : ∀ b ∈ expected, b = binding) :
    decodeHeader (headerBytes type suite binding counter fromEpoch (fromEpoch + 1) ++ payload)
      type suite expected = .ok ⟨counter, fromEpoch, fromEpoch + 1⟩ := by
  have hlen : PQ_HEALING_RECORD_HEADER_BYTES ≤
      (headerBytes type suite binding counter fromEpoch (fromEpoch + 1) ++ payload).length := by
    rw [List.length_append, length_headerBytes h.binding]
    exact Nat.le_add_right _ _
  have hcounter : beNat (beBytes 8 counter) = counter := beNat_beBytes (lt_256_pow_8 h.counter)
  have hfrom : beNat (beBytes 8 fromEpoch) = fromEpoch :=
    beNat_beBytes (lt_256_pow_8 (Nat.le_of_lt h.fromEpoch))
  have hto : beNat (beBytes 8 (fromEpoch + 1)) = fromEpoch + 1 :=
    beNat_beBytes (lt_256_pow_8 h.fromEpoch)
  have hne : fromEpoch ≠ MAX_U64 := Nat.ne_of_lt h.fromEpoch
  have hbind : ∀ b ∈ expected, binding = b := fun b hb => (hexp b hb).symm
  simp only [decodeHeader, demand_bind, slice_header_magic, byteAt_header_version,
    byteAt_header_type, byteAt_header_flags, byteAt_header_suite,
    tagToParameterSet_parameterSetToTag, slice_header_binding h.binding,
    slice_header_counter h.binding, slice_header_second h.binding, slice_header_third h.binding,
    hcounter, hfrom, hto, ok_bind, if_pos hlen, if_pos hbind]
  simp [hne]

/-! ## Round trips -/

/-- The canonical bytes of an OFFER. -/
def offerRecord (suite : MlKemParameterSet) (binding : Bytes) (counter fromEpoch : Nat)
    (publicKey : Bytes) : Bytes :=
  headerBytes OFFER_TYPE suite binding counter fromEpoch (fromEpoch + 1) ++ publicKey

/-- The OFFER with the given fields. -/
def offerOf (suite : MlKemParameterSet) (binding : Bytes) (counter fromEpoch : Nat)
    (publicKey : Bytes) : DecodedOffer where
  bytes := offerRecord suite binding counter fromEpoch publicKey
  publicKey := publicKey
  senderCounter := counter
  fromEpoch := fromEpoch
  toEpoch := fromEpoch + 1

section RoundTrip

variable {suite : MlKemParameterSet} {binding publicKey ciphertext : Bytes}
  {counter fromEpoch : Nat}

theorem length_offerRecord (hb : binding.length = 32)
    (hpk : publicKey.length = suite.publicKeyBytes) :
    (offerRecord suite binding counter fromEpoch publicKey).length = offerLength suite := by
  rw [offerRecord, List.length_append, length_headerBytes hb, hpk, offerLength]

theorem encodeOffer_eq (h : HeaderFits binding counter fromEpoch)
    (hpk : publicKey.length = suite.publicKeyBytes) :
    encodeOffer suite binding counter fromEpoch publicKey =
      .ok (offerRecord suite binding counter fromEpoch publicKey) := by
  simp only [encodeOffer, requireBytes, demand_bind, encodeHeader_eq h, ok_bind]
  simp [hpk, offerRecord]

/-- An encoded OFFER decodes to its fields, with or without an expected binding. -/
theorem decodeOffer_offerRecord (h : HeaderFits binding counter fromEpoch)
    (hpk : publicKey.length = suite.publicKeyBytes) {expected : Option Bytes}
    (hexp : ∀ b ∈ expected, b = binding) :
    decodeOffer (offerRecord suite binding counter fromEpoch publicKey) suite expected =
      .ok (offerOf suite binding counter fromEpoch publicKey) := by
  have hlen : (offerRecord suite binding counter fromEpoch publicKey).length = offerLength suite :=
    length_offerRecord h.binding hpk
  have hdrop : (offerRecord suite binding counter fromEpoch publicKey).drop
      PQ_HEALING_RECORD_HEADER_BYTES = publicKey :=
    drop_append_of_length (length_headerBytes h.binding)
  simp only [decodeOffer, demand_bind, hlen, hdrop]
  rw [offerRecord, decodeHeader_eq h hexp]
  rfl

/-! ### What decoding guarantees -/

/-- The ranges and sizes of an accepted header. -/
theorem decodeHeader_spec {record : Bytes} {type : UInt8} {expected : Option Bytes}
    {header : DecodedHeader} (h : decodeHeader record type suite expected = .ok header) :
    header.fromEpoch < MAX_U64 ∧ header.toEpoch = header.fromEpoch + 1 ∧
      header.senderCounter ≤ MAX_U64 ∧ (∀ b ∈ expected, slice record 8 32 = b) ∧
      byteAt record 5 = type ∧ decodeHeader record type suite none = .ok header := by
  have hmax : ∀ bs : Bytes, beNat (slice bs 40 8) ≤ MAX_U64 := by
    intro bs
    have hlt := beNat_lt (slice bs 40 8)
    have hlen : (slice bs 40 8).length ≤ 8 := by
      rw [slice, List.length_take]
      exact Nat.min_le_left _ _
    have hpow : (256 : Nat) ^ (slice bs 40 8).length ≤ 256 ^ 8 :=
      Nat.pow_le_pow_right (by decide) hlen
    have : (256 : Nat) ^ 8 = MAX_U64 + 1 := by decide
    omega
  have hmax48 : beNat (slice record 48 8) ≤ MAX_U64 := by
    have := hmax (record.drop 8)
    rwa [slice, List.drop_drop, ← slice] at this
  simp only [decodeHeader, demand_bind] at h ⊢
  simp only [ite_eq_iff, reduceCtorEq, and_false, or_false] at h
  obtain ⟨hlen, hmagic, hversion, htype, hflags, h⟩ := h
  obtain ⟨ps, hps, h⟩ := except_bind_eq_ok.mp h
  simp only [ite_eq_iff, reduceCtorEq, and_false, or_false, except_pure_eq_ok] at h
  obtain ⟨rfl, hbind, ⟨hne, hto⟩, rfl⟩ := h
  refine ⟨Nat.lt_of_le_of_ne hmax48 hne, hto, hmax record, hbind, htype, ?_⟩
  simp [hlen, hmagic, hversion, htype, hflags, hps, hne, hto]

/-- What an accepted OFFER satisfies. -/
structure OfferAccepted (suite : MlKemParameterSet) (expected : Option Bytes) (record : Bytes)
    (offer : DecodedOffer) : Prop where
  bytes_eq : offer.bytes = record
  length_eq : record.length = offerLength suite
  from_lt : offer.fromEpoch < MAX_U64
  to_eq : offer.toEpoch = offer.fromEpoch + 1
  counter_le : offer.senderCounter ≤ MAX_U64
  publicKey_eq : offer.publicKey = record.drop PQ_HEALING_RECORD_HEADER_BYTES
  binding_eq : ∀ b ∈ expected, slice record 8 32 = b
  type_eq : byteAt record 5 = OFFER_TYPE
  decode_none : decodeOffer record suite none = .ok offer

theorem decodeOffer_spec {record : Bytes} {expected : Option Bytes} {offer : DecodedOffer}
    (h : decodeOffer record suite expected = .ok offer) :
    OfferAccepted suite expected record offer := by
  simp only [decodeOffer] at h
  obtain ⟨header, hheader, h⟩ := except_bind_eq_ok.mp h
  obtain ⟨hfrom, hto, hcounter, hbind, htype, hnone⟩ := decodeHeader_spec hheader
  simp only [demand_bind, ite_eq_iff, reduceCtorEq, and_false, or_false, except_pure_eq_ok] at h
  obtain ⟨hlen, rfl⟩ := h
  refine ⟨rfl, hlen, hfrom, hto, hcounter, rfl, hbind, htype, ?_⟩
  simp only [decodeOffer, hnone, ok_bind, demand_bind, hlen, if_true]
  rfl

/-- What an accepted ADVANCE satisfies. -/
structure AdvanceAccepted (suite : MlKemParameterSet) (expected : Option Bytes) (record : Bytes)
    (advance : DecodedAdvance) : Prop where
  bytes_eq : advance.bytes = record
  length_eq : record.length = advanceLength suite
  from_lt : advance.fromEpoch < MAX_U64
  to_eq : advance.toEpoch = advance.fromEpoch + 1
  counter_le : advance.senderCounter ≤ MAX_U64
  offer_from : advance.offer.fromEpoch = advance.fromEpoch
  offer_decodes : decodeOffer advance.offer.bytes suite expected = .ok advance.offer
  binding_eq : ∀ b ∈ expected, slice record 8 32 = b
  type_eq : byteAt record 5 = ADVANCE_TYPE
  decode_none : decodeAdvance record suite none = .ok advance
  ciphertext_length : advance.ciphertext.length = suite.ciphertextBytes

theorem decodeAdvance_spec {record : Bytes} {expected : Option Bytes} {advance : DecodedAdvance}
    (h : decodeAdvance record suite expected = .ok advance) :
    AdvanceAccepted suite expected record advance := by
  simp only [decodeAdvance] at h
  obtain ⟨header, hheader, h⟩ := except_bind_eq_ok.mp h
  obtain ⟨hfrom, hto, hcounter, hbind, htype, hnone⟩ := decodeHeader_spec hheader
  simp only [demand_bind, ite_eq_iff, reduceCtorEq, and_false, or_false] at h
  obtain ⟨hlen, h⟩ := h
  obtain ⟨offer, hoffer, h⟩ := except_bind_eq_ok.mp h
  simp only [ite_eq_iff, reduceCtorEq, and_false, or_false, except_pure_eq_ok] at h
  obtain ⟨⟨hofrom, hoto⟩, rfl⟩ := h
  have hspec := decodeOffer_spec hoffer
  refine ⟨rfl, hlen, hfrom, hto, hcounter, hofrom, ?_, hbind, htype, ?_, ?_⟩
  · show decodeOffer offer.bytes suite expected = .ok offer
    rw [hspec.bytes_eq]
    exact hoffer
  · simp only [decodeAdvance, hnone, hspec.decode_none, ok_bind, demand_bind, hlen, hofrom, hoto,
      and_self, if_true]
    rfl
  · rw [List.length_drop, hlen, advanceLength]
    omega

/-- The canonical bytes of an ADVANCE that answers `offer`. -/
def advanceRecord (suite : MlKemParameterSet) (binding : Bytes) (counter : Nat)
    (offer : DecodedOffer) (ciphertext : Bytes) : Bytes :=
  headerBytes ADVANCE_TYPE suite binding counter offer.fromEpoch (offer.fromEpoch + 1) ++
    (offer.bytes ++ ciphertext)

/-- The ADVANCE with the given fields. -/
def advanceOf (suite : MlKemParameterSet) (binding : Bytes) (counter : Nat) (offer : DecodedOffer)
    (ciphertext : Bytes) : DecodedAdvance where
  bytes := advanceRecord suite binding counter offer ciphertext
  offer := offer
  ciphertext := ciphertext
  senderCounter := counter
  fromEpoch := offer.fromEpoch
  toEpoch := offer.fromEpoch + 1

theorem encodeAdvance_eq {offer : DecodedOffer} (h : HeaderFits binding counter offer.fromEpoch)
    (hto : offer.toEpoch = offer.fromEpoch + 1) (hct : ciphertext.length = suite.ciphertextBytes) :
    encodeAdvance suite binding counter offer ciphertext =
      .ok (advanceRecord suite binding counter offer ciphertext) := by
  simp only [encodeAdvance, requireBytes, demand_bind, hto, encodeHeader_eq h, ok_bind]
  simp [hct, advanceRecord]

/-- An encoded ADVANCE decodes to its fields and to the OFFER it embeds. -/
theorem decodeAdvance_advanceRecord {offer : DecodedOffer} {expected : Option Bytes}
    (h : HeaderFits binding counter offer.fromEpoch) (hexp : ∀ b ∈ expected, b = binding)
    (hoffer : decodeOffer offer.bytes suite expected = .ok offer)
    (hct : ciphertext.length = suite.ciphertextBytes) :
    decodeAdvance (advanceRecord suite binding counter offer ciphertext) suite expected =
      .ok (advanceOf suite binding counter offer ciphertext) := by
  have hspec := decodeOffer_spec hoffer
  have holen := hspec.length_eq
  have hto := hspec.to_eq
  have hlen : (advanceRecord suite binding counter offer ciphertext).length =
      advanceLength suite := by
    rw [advanceRecord, List.length_append, length_headerBytes h.binding, List.length_append, holen,
      hct, advanceLength, Nat.add_assoc]
  have hslice : slice (advanceRecord suite binding counter offer ciphertext)
      PQ_HEALING_RECORD_HEADER_BYTES (offerLength suite) = offer.bytes :=
    slice_append (length_headerBytes h.binding) holen
  have hdrop : (advanceRecord suite binding counter offer ciphertext).drop
      (PQ_HEALING_RECORD_HEADER_BYTES + offerLength suite) = ciphertext := by
    rw [advanceRecord, ← List.append_assoc]
    exact drop_append_of_length (by rw [List.length_append, length_headerBytes h.binding, holen])
  simp only [decodeAdvance, demand_bind, hlen, hslice, hdrop, hoffer, ok_bind]
  rw [advanceRecord, decodeHeader_eq h hexp, ok_bind, if_pos trivial, if_pos ⟨rfl, hto⟩]
  rfl

/-- The canonical bytes of an acknowledgement. -/
def ackRecord (suite : MlKemParameterSet) (binding : Bytes)
    (ack : PqHealingAdvanceAcknowledgement) : Bytes :=
  headerBytes ACK_TYPE suite binding ack.advanceCounter ack.epoch 0

/-- The fields of an acknowledgement that the encoder accepts. -/
structure AckFits (binding : Bytes) (ack : PqHealingAdvanceAcknowledgement) : Prop where
  binding : binding.length = 32
  epoch : ack.epoch ≤ MAX_U64
  advanceCounter : ack.advanceCounter ≤ MAX_U64

theorem requireAcknowledgement_eq {ack : PqHealingAdvanceAcknowledgement}
    (hepoch : ack.epoch ≤ MAX_U64) (hcounter : ack.advanceCounter ≤ MAX_U64) :
    requireAcknowledgement ack = .ok ack := by
  simp only [requireAcknowledgement, requireU64, demand_bind]
  simp [hepoch, hcounter]

theorem encodePqHealingAck_eq {ack : PqHealingAdvanceAcknowledgement} (h : AckFits binding ack) :
    encodePqHealingAck ack suite binding = .ok (ackRecord suite binding ack) := by
  simp only [encodePqHealingAck, requireBytes, demand_bind,
    requireAcknowledgement_eq h.epoch h.advanceCounter, ok_bind]
  simp [h.binding, ackRecord]

theorem length_ackRecord {ack : PqHealingAdvanceAcknowledgement} (hb : binding.length = 32) :
    (ackRecord suite binding ack).length = PQ_HEALING_ACK_BYTES :=
  length_headerBytes hb

/-- An encoded acknowledgement decodes to its fields. -/
theorem decodePqHealingAck_ackRecord {ack : PqHealingAdvanceAcknowledgement}
    (h : AckFits binding ack) :
    decodePqHealingAck (ackRecord suite binding ack) suite binding = .ok ack := by
  have hlen : (ackRecord suite binding ack).length = PQ_HEALING_ACK_BYTES :=
    length_ackRecord h.binding
  have hnil : ackRecord suite binding ack = ackRecord suite binding ack ++ [] :=
    (List.append_nil _).symm
  have hepoch : beNat (beBytes 8 ack.epoch) = ack.epoch := beNat_beBytes (lt_256_pow_8 h.epoch)
  have hcounter : beNat (beBytes 8 ack.advanceCounter) = ack.advanceCounter :=
    beNat_beBytes (lt_256_pow_8 h.advanceCounter)
  have hzero : beNat (beBytes 8 0) = 0 := by decide
  simp only [decodePqHealingAck, requireBytes, demand_bind, hlen]
  rw [hnil, ackRecord]
  simp only [slice_header_magic, byteAt_header_version, byteAt_header_type, byteAt_header_flags,
    byteAt_header_suite, tagToParameterSet_parameterSetToTag, slice_header_binding h.binding,
    slice_header_counter h.binding, slice_header_second h.binding, slice_header_third h.binding,
    hcounter, hepoch, hzero, ok_bind]
  simp [h.binding]

end RoundTrip

end PqHealing

end P2Party
