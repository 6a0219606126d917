import P2Party.PqHealing.Machine
import P2Party.Cryptography.SealedCell

/-!
# Sealed control frames (`cryptography/pqHealingFrame.ts`)

A control record travels in a cell of the same size as every chunk frame: a
public header, then the AEAD of the record and its zero padding under a key
derived from the PQ root of the frame's epoch. The random nonce is an argument.

- `sealPqControlFrame`, `openPqControlFrame`: the two functions of the source;
- `sealedFrame`: the bytes of a frame, `sealPqControlFrame_eq`;
- `openPqControlFrame_sealedFrame`: opening a sealed frame gives its record;
- `openPqControlFrame_wrong_epoch`: a frame of another epoch is refused.
-/

namespace P2Party

open Base PqHealing

/-! ## Wire constants (utils/constants.ts) -/

/-- `FRAME_TYPE_CHUNK`. -/
def FRAME_TYPE_CHUNK : UInt8 := 2

/-- `FRAME_TYPE_PQ_CONTROL`. -/
def FRAME_TYPE_PQ_CONTROL : UInt8 := 5

/-- `RATCHET_NONCE_LEN`. -/
abbrev RATCHET_NONCE_LEN : Nat := 12

/-- `WIRE_CHUNK_FRAME_LEN`. -/
abbrev WIRE_CHUNK_FRAME_LEN : Nat := 65490

/-- A nonce drawn by `crypto.getRandomValues` on a buffer of `RATCHET_NONCE_LEN` bytes. -/
abbrev Nonce := { bytes : Bytes // bytes.length = RATCHET_NONCE_LEN }

instance : Inhabited Nonce := ⟨⟨List.replicate 12 0, length_zeros_twelve⟩⟩

namespace PqControlFrame

/-- `PQ_CONTROL_FRAME_HEADER_BYTES` (pqHealingFrame.ts:44-50). -/
abbrev PQ_CONTROL_FRAME_HEADER_BYTES : Nat := 69

/-- `PQ_CONTROL_FRAME_PLAINTEXT_BYTES` (pqHealingFrame.ts:51-54). -/
abbrev PQ_CONTROL_FRAME_PLAINTEXT_BYTES : Nat := 65405

/-- `RECORD_LENGTH_BYTES` (pqHealingFrame.ts:56). -/
abbrev RECORD_LENGTH_BYTES : Nat := 4

/-- `KEY_DOMAIN` (pqHealingFrame.ts:58-60). -/
def KEY_DOMAIN : Bytes := textEncode "p2party/pq-control-frame/key/v1" ++ [0]

/-- `PqControlDirection` (pqHealingFrame.ts:62-63). -/
inductive PqControlDirection
  | initiatorToResponder
  | responderToInitiator
deriving DecidableEq, Repr

/-- `fail` (pqHealingFrame.ts:112-114). -/
def failure (code : PqControlFrameErrorCode) (message : String) : JsError :=
  .pqControlFrameError code ("pqHealingFrame: " ++ message)

/-- `requireBytes` (pqHealingFrame.ts:124-134). -/
def requireBytes (value : Bytes) (name : String) (length : Nat) : Except JsError Unit :=
  demand (value.length = length)
    (failure .invalidFrame (name ++ " must be exactly " ++ toString length ++ " bytes"))

/-- `requireU64` (pqHealingFrame.ts:136-140). -/
def requireU64 (value : Nat) (name : String) : Except JsError Unit :=
  demand (value ≤ MAX_U64)
    (failure .invalidFrame (name ++ " must be an unsigned 64-bit bigint"))

/-- `directionTag` (pqHealingFrame.ts:142-146). -/
def directionTag : PqControlDirection → UInt8
  | .initiatorToResponder => 1
  | .responderToInitiator => 2

/-- `suiteTag` (pqHealingFrame.ts:148-165). -/
def suiteTag : MlKemParameterSet → UInt8
  | .mlkem768 => 1
  | .mlkem512 => 2
  | .mlkem1024 => 3

variable (L : LibCrypto)

/-- The `info` of `deriveFrameKey` (pqHealingFrame.ts:185-192). -/
def frameKeyInfo (suite : MlKemParameterSet) (binding : Bytes) (direction : PqControlDirection)
    (keyEpoch : Nat) : Bytes :=
  KEY_DOMAIN ++ (suiteTag suite :: directionTag direction :: (binding ++ beBytes 8 keyEpoch))

/-- `deriveFrameKey` (pqHealingFrame.ts:173-207). -/
def deriveFrameKey (suite : MlKemParameterSet) (rootKey binding : Bytes)
    (direction : PqControlDirection) (keyEpoch : Nat) : Except JsError Bytes := do
  requireBytes rootKey "PQ root" PQ_HEALING_ROOT_BYTES
  requireBytes binding "binding" PQ_HEALING_BINDING_BYTES
  requireU64 keyEpoch "keyEpoch"
  return L.hkdfExpand (L.hkdfExtract rootKey binding)
    (frameKeyInfo suite binding direction keyEpoch) 32

/-- `InspectedControlRecord` (pqHealingFrame.ts:209-212). -/
structure InspectedControlRecord where
  counter : Nat
  keyEpoch : Nat
deriving DecidableEq

/-- `inspectControlRecord` (pqHealingFrame.ts:214-236). -/
def inspectControlRecord (record : Bytes) (suite : MlKemParameterSet) (binding : Bytes) :
    Except JsError InspectedControlRecord := do
  if record.length = PQ_HEALING_ACK_BYTES then
    let ack ← decodePqHealingAck record suite binding
    return { counter := ack.advanceCounter, keyEpoch := ack.epoch }
  else
    match ← inspectPqHealingRecord record suite with
    | .offer recordBinding offer =>
      demand (recordBinding = binding) (failure .bindingMismatch
        "control record belongs to another authenticated edge")
      return { counter := offer.senderCounter, keyEpoch := offer.fromEpoch }
    | .advance recordBinding advance =>
      demand (recordBinding = binding) (failure .bindingMismatch
        "control record belongs to another authenticated edge")
      return { counter := advance.senderCounter, keyEpoch := advance.fromEpoch }

/-- The public header of a frame (pqHealingFrame.ts:385-397). -/
def controlHeader (binding : Bytes) (counter keyEpoch : Nat) (nonce : Bytes) : Bytes :=
  [FRAME_TYPE_PQ_CONTROL] ++
    (binding ++ (beBytes 8 counter ++ (beBytes 8 0 ++ (beBytes 8 keyEpoch ++ nonce))))

/-- The padded plaintext of a record (pqHealingFrame.ts:399-405). -/
def paddedRecord (record : Bytes) : Bytes :=
  beBytes 4 record.length ++
    (record ++ List.replicate
      (PQ_CONTROL_FRAME_PLAINTEXT_BYTES - RECORD_LENGTH_BYTES - record.length) 0)

/-- `sealPqControlFrame` (pqHealingFrame.ts:354-420). -/
def sealPqControlFrame (suite : MlKemParameterSet) (rootKey binding : Bytes)
    (direction : PqControlDirection) (keyEpoch : Nat) (record : Bytes) (nonce : Nonce) :
    Except JsError Bytes := do
  requireBytes binding "binding" PQ_HEALING_BINDING_BYTES
  requireU64 keyEpoch "keyEpoch"
  let inspected ← inspectControlRecord record suite binding
  demand (inspected.keyEpoch = keyEpoch) (failure .epochMismatch
    "control record is not authenticated under its required epoch")
  demand (¬ record.length > PQ_CONTROL_FRAME_PLAINTEXT_BYTES - RECORD_LENGTH_BYTES)
    (failure .invalidFrame "control record does not fit the uniform cell")
  let header := controlHeader binding inspected.counter keyEpoch nonce.val
  let key ← deriveFrameKey L suite rootKey binding direction keyEpoch
  return header ++ L.aeadSeal key nonce.val header (paddedRecord record)

/-- `openPqControlFrame` (pqHealingFrame.ts:426-505). -/
def openPqControlFrame (suite : MlKemParameterSet) (rootKey binding : Bytes)
    (direction : PqControlDirection) (keyEpoch : Nat) (frame : Bytes) : Except JsError Bytes := do
  requireBytes frame "control frame" WIRE_CHUNK_FRAME_LEN
  requireBytes binding "binding" PQ_HEALING_BINDING_BYTES
  requireU64 keyEpoch "keyEpoch"
  demand (byteAt frame 0 = FRAME_TYPE_PQ_CONTROL)
    (failure .invalidFrame "frame type is not PQ control")
  demand (slice frame 1 32 = binding)
    (failure .bindingMismatch "control frame belongs to another edge")
  let header := frame.take PQ_CONTROL_FRAME_HEADER_BYTES
  let headerCounter := beNat (slice frame 33 8)
  demand (beNat (slice frame 41 8) = 0)
    (failure .invalidFrame "control-frame reserved header must be zero")
  demand (beNat (slice frame 49 8) = keyEpoch)
    (failure .epochMismatch "control-frame epoch is not the expected epoch")
  let nonce := slice frame 57 RATCHET_NONCE_LEN
  let ciphertext := frame.drop PQ_CONTROL_FRAME_HEADER_BYTES
  let key ← deriveFrameKey L suite rootKey binding direction keyEpoch
  match L.aeadOpen key nonce header ciphertext with
  | none => .error (failure .authenticationFailed "control-frame authentication failed")
  | some plaintext =>
    let recordLength := beNat (slice plaintext 0 4)
    demand (¬ (recordLength = 0 ∨
        recordLength > PQ_CONTROL_FRAME_PLAINTEXT_BYTES - RECORD_LENGTH_BYTES))
      (failure .invalidPadding "encrypted control-record length is invalid")
    demand (∀ b ∈ plaintext.drop (RECORD_LENGTH_BYTES + recordLength), b = 0)
      (failure .invalidPadding "encrypted control padding must be all zero")
    let record := slice plaintext RECORD_LENGTH_BYTES recordLength
    let inspected ← inspectControlRecord record suite binding
    demand (inspected.keyEpoch = keyEpoch) (failure .epochMismatch
      "decrypted control record does not match its frame epoch")
    demand (inspected.counter = headerCounter) (failure .recordMismatch
      "decrypted control counter does not match its public header")
    return record

/-! ## Sealed frames -/

/-- The key of a frame. -/
def frameKey (suite : MlKemParameterSet) (rootKey binding : Bytes)
    (direction : PqControlDirection) (keyEpoch : Nat) : Bytes :=
  L.hkdfExpand (L.hkdfExtract rootKey binding) (frameKeyInfo suite binding direction keyEpoch) 32

/-- The bytes of the frame that carries a record. -/
def sealedFrame (suite : MlKemParameterSet) (rootKey binding : Bytes)
    (direction : PqControlDirection) (counter keyEpoch : Nat) (record : Bytes) (nonce : Nonce) :
    Bytes :=
  controlHeader binding counter keyEpoch nonce.val ++
    L.aeadSeal (frameKey L suite rootKey binding direction keyEpoch) nonce.val
      (controlHeader binding counter keyEpoch nonce.val) (paddedRecord record)

/-- A record of this edge that a frame can carry, with its counter and key epoch. -/
structure Sealable (suite : MlKemParameterSet) (binding record : Bytes) (counter keyEpoch : Nat) :
    Prop where
  inspect : inspectControlRecord record suite binding = .ok { counter, keyEpoch }
  binding : binding.length = 32
  counter : counter ≤ MAX_U64
  keyEpoch : keyEpoch ≤ MAX_U64
  nonempty : 0 < record.length
  fits : record.length ≤ 65401

section RoundTrip

variable {L} {suite : MlKemParameterSet} {rootKey binding record : Bytes}
  {direction : PqControlDirection} {counter keyEpoch : Nat} {nonce : Nonce}

theorem deriveFrameKey_eq (hroot : rootKey.length = 32) (hb : binding.length = 32)
    (he : keyEpoch ≤ MAX_U64) :
    deriveFrameKey L suite rootKey binding direction keyEpoch =
      .ok (frameKey L suite rootKey binding direction keyEpoch) := by
  simp only [deriveFrameKey, requireBytes, requireU64, demand_of hroot, demand_of hb, demand_of he,
    ok_bind]
  rfl

theorem sealPqControlFrame_eq (h : Sealable suite binding record counter keyEpoch)
    (hroot : rootKey.length = 32) :
    sealPqControlFrame L suite rootKey binding direction keyEpoch record nonce =
      .ok (sealedFrame L suite rootKey binding direction counter keyEpoch record nonce) := by
  have hfits : ¬ record.length > PQ_CONTROL_FRAME_PLAINTEXT_BYTES - RECORD_LENGTH_BYTES :=
    Nat.not_lt.mpr h.fits
  simp only [sealPqControlFrame, requireBytes, requireU64, demand_of h.binding, demand_of h.keyEpoch,
    h.inspect, demand_of, demand_of hfits, deriveFrameKey_eq hroot h.binding h.keyEpoch, ok_bind]
  rfl

/-! ### The fields of a header -/

theorem length_controlHeader (hb : binding.length = 32) :
    (controlHeader binding counter keyEpoch nonce.val).length = PQ_CONTROL_FRAME_HEADER_BYTES :=
  length_cellHeader hb nonce.property

theorem length_paddedRecord (h : record.length ≤ 65401) :
    (paddedRecord record).length = PQ_CONTROL_FRAME_PLAINTEXT_BYTES := by
  simp only [paddedRecord, List.length_append, length_beBytes, List.length_replicate,
    PQ_CONTROL_FRAME_PLAINTEXT_BYTES, RECORD_LENGTH_BYTES]
  omega

theorem length_sealedFrame (h : Sealable suite binding record counter keyEpoch) :
    (sealedFrame L suite rootKey binding direction counter keyEpoch record nonce).length =
      WIRE_CHUNK_FRAME_LEN := by
  rw [sealedFrame, List.length_append, length_controlHeader h.binding, L.length_aeadSeal,
    length_paddedRecord h.fits]
  rfl

variable {rest : Bytes}

theorem slice_controlHeader_binding (hb : binding.length = 32) :
    slice (controlHeader binding counter keyEpoch nonce.val ++ rest) 1 32 = binding :=
  slice_cellHeader_binding hb

theorem slice_controlHeader_counter (hb : binding.length = 32) :
    slice (controlHeader binding counter keyEpoch nonce.val ++ rest) 33 8 = beBytes 8 counter :=
  slice_cellHeader_counter hb

theorem slice_controlHeader_reserved (hb : binding.length = 32) :
    slice (controlHeader binding counter keyEpoch nonce.val ++ rest) 41 8 = beBytes 8 0 :=
  slice_cellHeader_reserved hb

theorem slice_controlHeader_epoch (hb : binding.length = 32) :
    slice (controlHeader binding counter keyEpoch nonce.val ++ rest) 49 8 = beBytes 8 keyEpoch :=
  slice_cellHeader_epoch hb

theorem slice_controlHeader_nonce (hb : binding.length = 32) :
    slice (controlHeader binding counter keyEpoch nonce.val ++ rest) 57 RATCHET_NONCE_LEN =
      nonce.val :=
  slice_cellHeader_nonce hb nonce.property

/-! ### Opening -/

/-- A frame sealed for another epoch is refused before it is decrypted. -/
theorem openPqControlFrame_wrong_epoch (h : Sealable suite binding record counter keyEpoch)
    {opened : Nat} (hopened : opened ≤ MAX_U64) (hne : keyEpoch ≠ opened) (root : Bytes)
    (dir : PqControlDirection) :
    openPqControlFrame L suite root binding dir opened
        (sealedFrame L suite rootKey binding direction counter keyEpoch record nonce) =
      .error (failure .epochMismatch "control-frame epoch is not the expected epoch") := by
  have htype : byteAt (sealedFrame L suite rootKey binding direction counter keyEpoch record
      nonce) 0 = FRAME_TYPE_PQ_CONTROL := rfl
  have hzero : beNat (beBytes 8 0) = 0 := by decide
  have hepoch : beNat (beBytes 8 keyEpoch) = keyEpoch := beNat_beBytes (lt_256_pow_8 h.keyEpoch)
  simp only [openPqControlFrame, requireBytes, requireU64, demand_of (length_sealedFrame h),
    demand_of h.binding, demand_of hopened, demand_of htype, ok_bind]
  simp only [sealedFrame, slice_controlHeader_binding h.binding,
    slice_controlHeader_reserved h.binding, slice_controlHeader_epoch h.binding, hzero, hepoch,
    demand_of, ok_bind]
  rw [demand_bind, if_neg hne]

theorem slice_paddedRecord_length : slice (paddedRecord record) 0 4 = beBytes 4 record.length := by
  have h := slice_append (a := []) (b := beBytes 4 record.length) (c := record ++ List.replicate
    (PQ_CONTROL_FRAME_PLAINTEXT_BYTES - RECORD_LENGTH_BYTES - record.length) 0) rfl
    (length_beBytes 4 record.length)
  exact h

theorem slice_paddedRecord_record :
    slice (paddedRecord record) RECORD_LENGTH_BYTES record.length = record :=
  slice_append (length_beBytes 4 record.length) rfl

theorem drop_paddedRecord : ∀ b ∈ (paddedRecord record).drop (RECORD_LENGTH_BYTES + record.length),
    b = 0 := by
  intro b hb
  rw [paddedRecord, ← List.append_assoc, drop_append_of_length (by simp [RECORD_LENGTH_BYTES])] at hb
  exact (List.mem_replicate.mp hb).2

/-- Opening a frame under the root, direction and epoch it was sealed with gives its record. -/
theorem openPqControlFrame_sealedFrame (hL : L.AeadLaws)
    (h : Sealable suite binding record counter keyEpoch) (hroot : rootKey.length = 32) :
    openPqControlFrame L suite rootKey binding direction keyEpoch
        (sealedFrame L suite rootKey binding direction counter keyEpoch record nonce) =
      .ok record := by
  have htype : byteAt (sealedFrame L suite rootKey binding direction counter keyEpoch record
      nonce) 0 = FRAME_TYPE_PQ_CONTROL := rfl
  have hzero : beNat (beBytes 8 0) = 0 := by decide
  have hepoch : beNat (beBytes 8 keyEpoch) = keyEpoch := beNat_beBytes (lt_256_pow_8 h.keyEpoch)
  have hcounter : beNat (beBytes 8 counter) = counter := beNat_beBytes (lt_256_pow_8 h.counter)
  have hlength : beNat (beBytes 4 record.length) = record.length :=
    beNat_beBytes (Nat.lt_of_le_of_lt h.fits (by decide))
  have htake : (controlHeader binding counter keyEpoch nonce.val ++
      L.aeadSeal (frameKey L suite rootKey binding direction keyEpoch) nonce.val
        (controlHeader binding counter keyEpoch nonce.val) (paddedRecord record)).take
      PQ_CONTROL_FRAME_HEADER_BYTES = controlHeader binding counter keyEpoch nonce.val := by
    rw [← @length_controlHeader binding counter keyEpoch nonce h.binding]
    exact List.take_left
  have hguard : ¬ (record.length = 0 ∨
      record.length > PQ_CONTROL_FRAME_PLAINTEXT_BYTES - RECORD_LENGTH_BYTES) := by
    have := h.nonempty
    have := h.fits
    simp only [PQ_CONTROL_FRAME_PLAINTEXT_BYTES, RECORD_LENGTH_BYTES]
    omega
  simp only [openPqControlFrame, requireBytes, requireU64, demand_of (length_sealedFrame h),
    demand_of h.binding, demand_of h.keyEpoch, demand_of htype, ok_bind]
  simp only [sealedFrame, slice_controlHeader_binding h.binding,
    slice_controlHeader_reserved h.binding, slice_controlHeader_epoch h.binding,
    slice_controlHeader_nonce h.binding, slice_controlHeader_counter h.binding, hzero, hepoch,
    hcounter, demand_of, ok_bind, deriveFrameKey_eq hroot h.binding h.keyEpoch, htake,
    drop_append_of_length (length_controlHeader h.binding), hL.open_seal, slice_paddedRecord_length,
    hlength, demand_of hguard, demand_of drop_paddedRecord, slice_paddedRecord_record, h.inspect]
  rfl

/-! ## The three records can be sealed -/

theorem inspectPqHealingRecord_offer {offer : DecodedOffer}
    (h : decodeOffer record suite (some binding) = .ok offer) :
    inspectPqHealingRecord record suite = .ok (.offer binding offer) := by
  have hspec := decodeOffer_spec h
  have hlen : PQ_HEALING_RECORD_HEADER_BYTES ≤ record.length := by
    rw [hspec.length_eq]
    exact Nat.le_add_right _ _
  simp only [inspectPqHealingRecord, demand_bind, if_pos hlen, if_pos hspec.type_eq,
    hspec.decode_none, ok_bind, hspec.bytes_eq, hspec.binding_eq binding rfl]
  rfl

theorem inspectPqHealingRecord_advance {advance : DecodedAdvance}
    (h : decodeAdvance record suite (some binding) = .ok advance) :
    inspectPqHealingRecord record suite = .ok (.advance binding advance) := by
  have hspec := decodeAdvance_spec h
  have hlen : PQ_HEALING_RECORD_HEADER_BYTES ≤ record.length := by
    rw [hspec.length_eq, advanceLength, Nat.add_assoc]
    exact Nat.le_add_right _ _
  have htype : byteAt record 5 ≠ OFFER_TYPE := by
    rw [hspec.type_eq]
    decide
  simp only [inspectPqHealingRecord, demand_bind, if_pos hlen, if_neg htype, if_pos hspec.type_eq,
    hspec.decode_none, ok_bind, hspec.bytes_eq, hspec.binding_eq binding rfl]
  rfl

theorem offerLength_bounds (suite : MlKemParameterSet) :
    PQ_HEALING_ACK_BYTES < offerLength suite ∧ offerLength suite ≤ 65401 := by
  cases suite <;> decide

theorem advanceLength_bounds (suite : MlKemParameterSet) :
    PQ_HEALING_ACK_BYTES < advanceLength suite ∧ advanceLength suite ≤ 65401 := by
  cases suite <;> decide

theorem sealable_offer {offer : DecodedOffer} (hb : binding.length = 32)
    (h : decodeOffer record suite (some binding) = .ok offer) :
    Sealable suite binding record offer.senderCounter offer.fromEpoch := by
  have hspec := decodeOffer_spec h
  obtain ⟨hlow, hhigh⟩ := offerLength_bounds suite
  refine ⟨?_, hb, hspec.counter_le, Nat.le_of_lt hspec.from_lt, ?_, hspec.length_eq ▸ hhigh⟩
  · have hne : record.length ≠ PQ_HEALING_ACK_BYTES := hspec.length_eq ▸ Nat.ne_of_gt hlow
    simp only [inspectControlRecord, if_neg hne, inspectPqHealingRecord_offer h, ok_bind, demand_of]
    rfl
  · rw [hspec.length_eq]
    exact Nat.lt_of_le_of_lt (Nat.zero_le _) hlow

theorem sealable_advance {advance : DecodedAdvance} (hb : binding.length = 32)
    (h : decodeAdvance record suite (some binding) = .ok advance) :
    Sealable suite binding record advance.senderCounter advance.fromEpoch := by
  have hspec := decodeAdvance_spec h
  obtain ⟨hlow, hhigh⟩ := advanceLength_bounds suite
  refine ⟨?_, hb, hspec.counter_le, Nat.le_of_lt hspec.from_lt, ?_, hspec.length_eq ▸ hhigh⟩
  · have hne : record.length ≠ PQ_HEALING_ACK_BYTES := hspec.length_eq ▸ Nat.ne_of_gt hlow
    simp only [inspectControlRecord, if_neg hne, inspectPqHealingRecord_advance h, ok_bind,
      demand_of]
    rfl
  · rw [hspec.length_eq]
    exact Nat.lt_of_le_of_lt (Nat.zero_le _) hlow

theorem sealable_ack {ack : PqHealingAdvanceAcknowledgement} (h : AckFits binding ack) :
    Sealable suite binding (ackRecord suite binding ack) ack.advanceCounter ack.epoch := by
  have hlen : (ackRecord suite binding ack).length = PQ_HEALING_ACK_BYTES :=
    length_ackRecord h.binding
  refine ⟨?_, h.binding, h.advanceCounter, h.epoch, hlen ▸ by decide, hlen ▸ by decide⟩
  simp only [inspectControlRecord, if_pos hlen, decodePqHealingAck_ackRecord h, ok_bind]
  rfl

end RoundTrip

end PqControlFrame

end P2Party
