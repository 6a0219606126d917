import P2Party.PqHealing.Frame

/-!
# Cover cells (`cryptography/coverCell.ts`)

Every slot of a scheduled lane that has no transfer chunk to send carries an authenticated cell
of the same size: a dummy, a CANCEL or a receipt. What kind of cell it is stands in its
plaintext only.

- `sealCoverCell`, `openCoverCell`: the two functions of the source;
- `sealCoverCell_eq`, `openCoverCell_sealedCell`: opening gives back content and counter;
- `decodePlaintext_canonical`: a content has one accepted plaintext;
- `openCoverCell_succeeds`: an opened cell is an AEAD opening that succeeded;
- `cover_cell_sealed`: length, round trip, uniqueness, and that nothing else opens.
-/

namespace P2Party

open Base

namespace CoverCell

/-! ## Constants and checks -/

/-- `FRAME_TYPE_COVER` (constants.ts:61). -/
def FRAME_TYPE_COVER : UInt8 := 4

/-- `COVER_CELL_HEADER_BYTES` (coverCell.ts:50-56). -/
abbrev COVER_CELL_HEADER_BYTES : Nat := 69

/-- `COVER_CELL_PLAINTEXT_BYTES` (coverCell.ts:57-60). -/
abbrev COVER_CELL_PLAINTEXT_BYTES : Nat := 65405

/-- `COVER_CELL_BINDING_BYTES` (coverCell.ts:61). -/
abbrev COVER_CELL_BINDING_BYTES : Nat := 32

/-- `COVER_CELL_ROOT_BYTES` (coverCell.ts:62). -/
abbrev COVER_CELL_ROOT_BYTES : Nat := 32

/-- `COVER_CELL_TOKEN_BYTES` (coverCell.ts:63). -/
abbrev COVER_CELL_TOKEN_BYTES : Nat := 64

/-- `SUBTYPE_BYTES` (coverCell.ts:65). -/
abbrev SUBTYPE_BYTES : Nat := 1

/-- `PAYLOAD_LENGTH_BYTES` (coverCell.ts:66). -/
abbrev PAYLOAD_LENGTH_BYTES : Nat := 4

/-- `COVER_CELL_MAX_PAYLOAD_BYTES` (coverCell.ts:67-68). -/
abbrev COVER_CELL_MAX_PAYLOAD_BYTES : Nat :=
  COVER_CELL_PLAINTEXT_BYTES - SUBTYPE_BYTES - PAYLOAD_LENGTH_BYTES

/-- `MAX_U64` (coverCell.ts:70). -/
def MAX_U64 : Nat := 2 ^ 64 - 1

/-- `KEY_DOMAIN` (coverCell.ts:71-73). -/
def KEY_DOMAIN : Bytes := textEncode "p2party/cover-cell/key/v1" ++ [0]

/-- `CoverCellDirection` (coverCell.ts:75-77). -/
inductive CoverCellDirection
  | initiatorToResponder
  | responderToInitiator
deriving DecidableEq, Repr

/-- `CoverCellContent` (coverCell.ts:79-94). -/
inductive CoverCellContent
  | dummy
  | cancel (merkleRoot : Bytes)
  | receipt (merkleRoot token : Bytes)
deriving DecidableEq, Repr

/-- `CoverCellErrorCode` (coverCell.ts:96-103). -/
inductive CoverCellErrorCode
  | authenticationFailed
  | bindingMismatch
  | epochMismatch
  | invalidCell
  | invalidDirection
  | invalidPadding
  | replayedCounter
deriving DecidableEq, Repr

/-- `CoverCellError` (coverCell.ts:105-113). -/
structure CoverCellError where
  code : CoverCellErrorCode
  message : String
deriving DecidableEq, Repr

/-- `fail` (coverCell.ts:115-117). -/
def failure (code : CoverCellErrorCode) (message : String) : CoverCellError :=
  ⟨code, "coverCell: " ++ message⟩

/-- `requireBytes` (coverCell.ts:127-137). -/
def requireBytes (value : Bytes) (name : String) (length : Nat) : Except CoverCellError Unit :=
  demand (value.length = length)
    (failure .invalidCell (name ++ " must be exactly " ++ toString length ++ " bytes"))

/-- `requireU64` (coverCell.ts:139-143). -/
def requireU64 (value : Nat) (name : String) : Except CoverCellError Unit :=
  demand (value ≤ MAX_U64) (failure .invalidCell (name ++ " must be an unsigned 64-bit bigint"))

/-- `suiteTag` (coverCell.ts:145-150). -/
def suiteTag : RatchetRootSuite → UInt8
  | .hybridMlkem768 => 1
  | .hybridMlkem512 => 2
  | .hybridMlkem1024 => 3

/-- `directionTag` (coverCell.ts:152-156). -/
def directionTag : CoverCellDirection → UInt8
  | .initiatorToResponder => 1
  | .responderToInitiator => 2

/-- `subtypeTag` (coverCell.ts:158-163). -/
def subtypeTag : CoverCellContent → UInt8
  | .dummy => 1
  | .cancel _ => 2
  | .receipt _ _ => 3

/-! ## Keys and contents -/

variable (L : LibCrypto)

/-- The `info` of `deriveCellKey` (coverCell.ts:182-189). -/
def cellKeyInfo (rootSuite : RatchetRootSuite) (binding : Bytes) (direction : CoverCellDirection)
    (keyEpoch : Nat) : Bytes :=
  KEY_DOMAIN ++ (suiteTag rootSuite :: directionTag direction :: (binding ++ beBytes 8 keyEpoch))

/-- `deriveCellKey` (coverCell.ts:165-202). -/
def deriveCellKey (rootSuite : RatchetRootSuite) (rootKey binding : Bytes)
    (direction : CoverCellDirection) (keyEpoch : Nat) : Except CoverCellError Bytes := do
  requireBytes rootKey "PQ message root" COVER_CELL_ROOT_BYTES
  requireBytes binding "edge binding" COVER_CELL_BINDING_BYTES
  requireU64 keyEpoch "keyEpoch"
  return L.hkdfExpand (L.hkdfExtract rootKey binding)
    (cellKeyInfo rootSuite binding direction keyEpoch) 32

/-- `encodeContent` (coverCell.ts:204-228). -/
def encodeContent : CoverCellContent → Except CoverCellError Bytes
  | .dummy => return []
  | .cancel merkleRoot => do
    requireBytes merkleRoot "cancel transfer root" COVER_CELL_TOKEN_BYTES
    return merkleRoot
  | .receipt merkleRoot token => do
    requireBytes merkleRoot "receipt transfer root" COVER_CELL_TOKEN_BYTES
    requireBytes token "receipt token" COVER_CELL_TOKEN_BYTES
    return merkleRoot ++ token

/-- `decodeContent` (coverCell.ts:230-254). -/
def decodeContent (subtype : UInt8) (payload : Bytes) : Except CoverCellError CoverCellContent :=
  if subtype = 1 then do
    demand (payload.length = 0) (failure .invalidCell "dummy cover cells carry no payload")
    return .dummy
  else if subtype = 2 then do
    demand (payload.length = COVER_CELL_TOKEN_BYTES)
      (failure .invalidCell "CANCEL payload must be one 64-byte transfer root")
    return .cancel payload
  else if subtype = 3 then do
    demand (payload.length = COVER_CELL_TOKEN_BYTES * 2)
      (failure .invalidCell "receipt payload must be root ‖ token")
    return .receipt (payload.take COVER_CELL_TOKEN_BYTES) (payload.drop COVER_CELL_TOKEN_BYTES)
  else
    .error (failure .invalidCell "cover-cell subtype is unknown")

/-! ## Sealing and opening -/

/-- The public header of a cell (coverCell.ts:418-429). -/
def coverHeader (binding : Bytes) (counter keyEpoch : Nat) (nonce : Bytes) : Bytes :=
  cellHeader FRAME_TYPE_COVER binding counter keyEpoch nonce

/-- The zero-padded plaintext of a cell (coverCell.ts:431-438). -/
def coverPlaintext (subtype : UInt8) (payload : Bytes) : Bytes :=
  subtype :: (beBytes 4 payload.length ++
    (payload ++ List.replicate (COVER_CELL_MAX_PAYLOAD_BYTES - payload.length) 0))

/-- `sealCoverCell` (coverCell.ts:404-459). -/
def sealCoverCell (rootSuite : RatchetRootSuite) (rootKey binding : Bytes)
    (direction : CoverCellDirection) (keyEpoch counter : Nat) (content : CoverCellContent)
    (nonce : Nonce) : Except CoverCellError Bytes := do
  requireBytes binding "edge binding" COVER_CELL_BINDING_BYTES
  requireU64 keyEpoch "keyEpoch"
  requireU64 counter "counter"
  let payload ← encodeContent content
  demand (¬ payload.length > COVER_CELL_MAX_PAYLOAD_BYTES)
    (failure .invalidCell "cover payload does not fit the uniform cell")
  let header := coverHeader binding counter keyEpoch nonce.val
  let plaintext := coverPlaintext (subtypeTag content) payload
  let key ← deriveCellKey L rootSuite rootKey binding direction keyEpoch
  return header ++ L.aeadSeal key nonce.val header plaintext

/-- `OpenedCoverCell` (coverCell.ts:399-402). -/
structure OpenedCoverCell where
  content : CoverCellContent
  counter : Nat
deriving DecidableEq

/-- What `openCoverCell` does with the plaintext of an authenticated cell
(coverCell.ts:516-534). -/
def decodePlaintext (plaintext : Bytes) : Except CoverCellError CoverCellContent := do
  let payloadLength := beNat (slice plaintext SUBTYPE_BYTES 4)
  demand (¬ payloadLength > COVER_CELL_MAX_PAYLOAD_BYTES)
    (failure .invalidPadding "encrypted cover payload length is invalid")
  let payloadOffset := SUBTYPE_BYTES + PAYLOAD_LENGTH_BYTES
  let paddingOffset := payloadOffset + payloadLength
  demand (∀ b ∈ plaintext.drop paddingOffset, b = 0)
    (failure .invalidPadding "encrypted cover padding must be all zero")
  decodeContent (PqHealing.byteAt plaintext 0) (slice plaintext payloadOffset payloadLength)

/-- The ordering check of `openCoverCell` (coverCell.ts:497-501). -/
def requireNewer (counter : Nat) : Option Nat → Except CoverCellError Unit
  | none => .ok ()
  | some counterAbove => do
    requireU64 counterAbove "counterAbove"
    demand (¬ counter ≤ counterAbove)
      (failure .replayedCounter "cover-cell counter is not strictly newer")

/-- `openCoverCell` (coverCell.ts:461-540); `counterAbove` is optional. -/
def openCoverCell (rootSuite : RatchetRootSuite) (rootKey binding : Bytes)
    (direction : CoverCellDirection) (keyEpoch : Nat) (counterAbove : Option Nat)
    (frame : Bytes) : Except CoverCellError OpenedCoverCell := do
  requireBytes frame "cover cell" WIRE_CHUNK_FRAME_LEN
  requireBytes binding "edge binding" COVER_CELL_BINDING_BYTES
  requireU64 keyEpoch "keyEpoch"
  demand (PqHealing.byteAt frame 0 = FRAME_TYPE_COVER)
    (failure .invalidCell "frame type is not a cover cell")
  demand (slice frame 1 32 = binding)
    (failure .bindingMismatch "cover cell belongs to another edge")
  let header := frame.take COVER_CELL_HEADER_BYTES
  let counter := beNat (slice frame 33 8)
  demand (beNat (slice frame 41 8) = 0)
    (failure .invalidCell "cover-cell reserved header must be zero")
  demand (beNat (slice frame 49 8) = keyEpoch)
    (failure .epochMismatch "cover-cell epoch is not the expected epoch")
  requireNewer counter counterAbove
  let nonce := slice frame 57 RATCHET_NONCE_LEN
  let ciphertext := frame.drop COVER_CELL_HEADER_BYTES
  let key ← deriveCellKey L rootSuite rootKey binding direction keyEpoch
  match L.aeadOpen key nonce header ciphertext with
  | none => .error (failure .authenticationFailed "cover-cell authentication failed")
  | some plaintext =>
    let content ← decodePlaintext plaintext
    return { content, counter }

/-! ## Sealed cells -/

/-- The payload of a content (what `encodeContent` writes for one that fits). -/
def payloadOf : CoverCellContent → Bytes
  | .dummy => []
  | .cancel merkleRoot => merkleRoot
  | .receipt merkleRoot token => merkleRoot ++ token

/-- A content whose root and token have their fixed length. -/
def CoverCellContent.Fits : CoverCellContent → Prop
  | .dummy => True
  | .cancel merkleRoot => merkleRoot.length = COVER_CELL_TOKEN_BYTES
  | .receipt merkleRoot token =>
    merkleRoot.length = COVER_CELL_TOKEN_BYTES ∧ token.length = COVER_CELL_TOKEN_BYTES

/-- Parameters and content of the right lengths and ranges. -/
structure CellFits (rootKey binding : Bytes) (keyEpoch counter : Nat) (content : CoverCellContent) :
    Prop where
  rootKey : rootKey.length = COVER_CELL_ROOT_BYTES
  binding : binding.length = COVER_CELL_BINDING_BYTES
  keyEpoch : keyEpoch ≤ MAX_U64
  counter : counter ≤ MAX_U64
  content : content.Fits

/-- The bytes of a sealed cell. -/
def sealedCell (rootSuite : RatchetRootSuite) (rootKey binding : Bytes)
    (direction : CoverCellDirection) (keyEpoch counter : Nat) (content : CoverCellContent)
    (nonce : Nonce) : Bytes :=
  coverHeader binding counter keyEpoch nonce.val ++
    L.aeadSeal (L.hkdfExpand (L.hkdfExtract rootKey binding)
        (cellKeyInfo rootSuite binding direction keyEpoch) 32) nonce.val
      (coverHeader binding counter keyEpoch nonce.val)
      (coverPlaintext (subtypeTag content) (payloadOf content))

section Cells

variable {L} {rootSuite : RatchetRootSuite} {rootKey binding frame plaintext payload : Bytes}
  {direction : CoverCellDirection} {keyEpoch counter : Nat} {content : CoverCellContent}
  {counterAbove : Option Nat} {nonce : Nonce}

theorem lt_256_pow_8 {n : Nat} (h : n ≤ MAX_U64) : n < 256 ^ 8 :=
  Nat.lt_of_le_of_lt h (by decide)

theorem encodeContent_eq (h : content.Fits) : encodeContent content = .ok (payloadOf content) := by
  cases content with
  | dummy => rfl
  | cancel merkleRoot =>
    have hroot : merkleRoot.length = COVER_CELL_TOKEN_BYTES := h
    simp only [encodeContent, requireBytes, demand_of hroot, ok_bind]
    rfl
  | receipt merkleRoot token =>
    obtain ⟨hroot, htoken⟩ := h
    simp only [encodeContent, requireBytes, demand_of hroot, demand_of htoken, ok_bind]
    rfl

theorem length_payloadOf_le (h : content.Fits) : (payloadOf content).length ≤ 128 := by
  cases content with
  | dummy => exact Nat.zero_le _
  | cancel merkleRoot =>
    have hroot : merkleRoot.length = 64 := h
    show merkleRoot.length ≤ 128
    omega
  | receipt merkleRoot token =>
    have hroot : merkleRoot.length = 64 := h.1
    have htoken : token.length = 64 := h.2
    show (merkleRoot ++ token).length ≤ 128
    rw [List.length_append]
    omega

theorem decodeContent_payloadOf (h : content.Fits) :
    decodeContent (subtypeTag content) (payloadOf content) = .ok content := by
  cases content with
  | dummy => rfl
  | cancel merkleRoot =>
    have hroot : merkleRoot.length = COVER_CELL_TOKEN_BYTES := h
    show (demand (merkleRoot.length = _) _ >>= _) = _
    rw [demand_of hroot]
    rfl
  | receipt merkleRoot token =>
    obtain ⟨hroot, htoken⟩ := h
    have hlen : (merkleRoot ++ token).length = COVER_CELL_TOKEN_BYTES * 2 := by
      rw [List.length_append, hroot, htoken, Nat.mul_two]
    have htake : (merkleRoot ++ token).take COVER_CELL_TOKEN_BYTES = merkleRoot := by
      rw [← hroot, List.take_left]
    show (demand ((merkleRoot ++ token).length = _) _ >>= _) = _
    rw [demand_of hlen, ok_bind, payloadOf, htake, drop_append_of_length hroot]
    rfl

/-- The plaintext of every content has the same length. -/
theorem length_coverPlaintext {subtype : UInt8} (h : payload.length ≤ COVER_CELL_MAX_PAYLOAD_BYTES) :
    (coverPlaintext subtype payload).length = COVER_CELL_PLAINTEXT_BYTES := by
  have hle : payload.length ≤ 65400 := h
  simp only [coverPlaintext, List.length_cons, List.length_append, length_beBytes,
    List.length_replicate, COVER_CELL_MAX_PAYLOAD_BYTES, COVER_CELL_PLAINTEXT_BYTES, SUBTYPE_BYTES,
    PAYLOAD_LENGTH_BYTES]
  omega

theorem deriveCellKey_eq (h : CellFits rootKey binding keyEpoch counter content) :
    deriveCellKey L rootSuite rootKey binding direction keyEpoch =
      .ok (L.hkdfExpand (L.hkdfExtract rootKey binding)
        (cellKeyInfo rootSuite binding direction keyEpoch) 32) := by
  simp only [deriveCellKey, requireBytes, requireU64, demand_of h.rootKey, demand_of h.binding,
    demand_of h.keyEpoch, ok_bind]
  rfl

/-- Everything that fits is sealed. -/
theorem sealCoverCell_eq (h : CellFits rootKey binding keyEpoch counter content) :
    sealCoverCell L rootSuite rootKey binding direction keyEpoch counter content nonce =
      .ok (sealedCell L rootSuite rootKey binding direction keyEpoch counter content nonce) := by
  have hpayload : ¬ (payloadOf content).length > COVER_CELL_MAX_PAYLOAD_BYTES := by
    have := length_payloadOf_le h.content
    show ¬ (payloadOf content).length > 65400
    omega
  simp only [sealCoverCell, requireBytes, requireU64, demand_of h.binding, demand_of h.keyEpoch,
    demand_of h.counter, encodeContent_eq h.content, demand_of hpayload, deriveCellKey_eq h, ok_bind]
  rfl

/-- Every sealed cell has the uniform length. -/
theorem length_sealedCell (h : CellFits rootKey binding keyEpoch counter content) :
    (sealedCell L rootSuite rootKey binding direction keyEpoch counter content nonce).length =
      WIRE_CHUNK_FRAME_LEN := by
  have hpayload : (payloadOf content).length ≤ COVER_CELL_MAX_PAYLOAD_BYTES :=
    Nat.le_trans (length_payloadOf_le h.content) (by decide)
  rw [sealedCell, List.length_append, coverHeader, length_cellHeader h.binding nonce.property,
    L.length_aeadSeal, length_coverPlaintext hpayload]
  rfl

/-! ## The plaintext of a cell -/

theorem decodePlaintext_coverPlaintext (h : content.Fits) :
    decodePlaintext (coverPlaintext (subtypeTag content) (payloadOf content)) = .ok content := by
  have hle := length_payloadOf_le h
  have hsplit : coverPlaintext (subtypeTag content) (payloadOf content) =
      [subtypeTag content] ++ (beBytes 4 (payloadOf content).length ++ (payloadOf content ++
        List.replicate (COVER_CELL_MAX_PAYLOAD_BYTES - (payloadOf content).length) 0)) := rfl
  have hlength : slice (coverPlaintext (subtypeTag content) (payloadOf content)) SUBTYPE_BYTES 4 =
      beBytes 4 (payloadOf content).length := by
    rw [hsplit]
    exact slice_append rfl (length_beBytes 4 _)
  have hvalue : beNat (beBytes 4 (payloadOf content).length) = (payloadOf content).length :=
    beNat_beBytes (Nat.lt_of_le_of_lt hle (by decide))
  have hpayload : slice (coverPlaintext (subtypeTag content) (payloadOf content))
      (SUBTYPE_BYTES + PAYLOAD_LENGTH_BYTES) (payloadOf content).length = payloadOf content := by
    rw [hsplit, ← List.append_assoc]
    exact slice_append (by simp only [List.length_append, length_beBytes]; rfl) rfl
  have hpadding : ∀ b ∈ (coverPlaintext (subtypeTag content) (payloadOf content)).drop
      (SUBTYPE_BYTES + PAYLOAD_LENGTH_BYTES + (payloadOf content).length), b = 0 := by
    intro b hb
    have hfront : ([subtypeTag content] ++ beBytes 4 (payloadOf content).length ++
        payloadOf content).length =
          SUBTYPE_BYTES + PAYLOAD_LENGTH_BYTES + (payloadOf content).length := by
      rw [List.length_append, List.length_append, length_beBytes]
      rfl
    rw [hsplit, ← List.append_assoc, ← List.append_assoc, drop_append_of_length hfront] at hb
    exact (List.mem_replicate.mp hb).2
  have hfits : ¬ (payloadOf content).length > COVER_CELL_MAX_PAYLOAD_BYTES := by
    show ¬ (payloadOf content).length > 65400
    omega
  simp only [decodePlaintext, hlength, hvalue, hpayload, demand_of hfits, demand_of hpadding, ok_bind]
  exact decodeContent_payloadOf h

/-- What `decodeContent` accepts is the payload of what it returns. -/
theorem decodeContent_canonical {subtype : UInt8} (h : decodeContent subtype payload = .ok content) :
    content.Fits ∧ subtypeTag content = subtype ∧ payloadOf content = payload := by
  unfold decodeContent at h
  split_ifs at h with hdummy hcancel hreceipt
  · simp only [except_bind_eq_ok, demand_eq_ok, exists_const, except_pure_eq_ok] at h
    obtain ⟨hlen, rfl⟩ := h
    exact ⟨trivial, hdummy.symm, (List.length_eq_zero_iff.mp hlen).symm⟩
  · simp only [except_bind_eq_ok, demand_eq_ok, exists_const, except_pure_eq_ok] at h
    obtain ⟨hlen, rfl⟩ := h
    exact ⟨hlen, hcancel.symm, rfl⟩
  · simp only [except_bind_eq_ok, demand_eq_ok, exists_const, except_pure_eq_ok] at h
    obtain ⟨hlen, rfl⟩ := h
    have hlen' : payload.length = 128 := hlen
    refine ⟨⟨?_, ?_⟩, hreceipt.symm, List.take_append_drop _ _⟩
    · rw [List.length_take]
      omega
    · rw [List.length_drop]
      omega

/-- **A content has one accepted plaintext**: the one the sealer writes. -/
theorem decodePlaintext_canonical (hlen : plaintext.length = COVER_CELL_PLAINTEXT_BYTES)
    (h : decodePlaintext plaintext = .ok content) :
    content.Fits ∧ plaintext = coverPlaintext (subtypeTag content) (payloadOf content) := by
  have hlen' : plaintext.length = 65405 := hlen
  simp only [decodePlaintext, except_bind_eq_ok, demand_eq_ok, exists_const] at h
  obtain ⟨hfits, hpadding, hcontent⟩ := h
  obtain ⟨hwf, htag, hpayload⟩ := decodeContent_canonical hcontent
  generalize hn : beNat (slice plaintext SUBTYPE_BYTES 4) = n at hfits hpadding hpayload
  have hle : n ≤ 65400 := Nat.not_lt.mp hfits
  have hpayloadLength : (payloadOf content).length = n := by
    rw [hpayload]
    refine length_slice ?_
    simp only [SUBTYPE_BYTES, PAYLOAD_LENGTH_BYTES]
    omega
  -- what follows the payload is as many zeros as the sealer writes
  have hzeros : List.replicate (COVER_CELL_MAX_PAYLOAD_BYTES - n) 0 =
      plaintext.drop (SUBTYPE_BYTES + PAYLOAD_LENGTH_BYTES + n) := by
    refine (List.eq_replicate_iff.mpr ⟨?_, hpadding⟩).symm
    simp only [List.length_drop, hlen', COVER_CELL_MAX_PAYLOAD_BYTES, COVER_CELL_PLAINTEXT_BYTES,
      SUBTYPE_BYTES, PAYLOAD_LENGTH_BYTES]
    omega
  refine ⟨hwf, ?_⟩
  rw [coverPlaintext, hpayloadLength, htag, hpayload, hzeros, slice_append_drop, ← hn]
  have hfield : beBytes 4 (beNat (slice plaintext SUBTYPE_BYTES 4)) ++
      plaintext.drop (SUBTYPE_BYTES + 4) = plaintext.drop SUBTYPE_BYTES :=
    beBytes_slice_append_drop (by rw [hlen']; decide)
  rw [hfield]
  exact (getD_cons_drop (show 0 < plaintext.length by omega)).symm

/-! ## Opening -/

theorem requireNewer_eq (h : ∀ above ∈ counterAbove, above < counter) (hc : counter ≤ MAX_U64) :
    requireNewer counter counterAbove = .ok () := by
  cases counterAbove with
  | none => rfl
  | some above =>
    have hlt : above < counter := h above rfl
    have habove : above ≤ MAX_U64 := Nat.le_trans (Nat.le_of_lt hlt) hc
    simp only [requireNewer, requireU64, demand_of habove, ok_bind]
    exact demand_of (Nat.not_le.mpr hlt)

/-- A sealed cell opens to its content and counter under its own parameters. -/
theorem openCoverCell_sealedCell (hL : L.AeadLaws)
    (h : CellFits rootKey binding keyEpoch counter content)
    (hnewer : ∀ above ∈ counterAbove, above < counter) :
    openCoverCell L rootSuite rootKey binding direction keyEpoch counterAbove
        (sealedCell L rootSuite rootKey binding direction keyEpoch counter content nonce) =
      .ok ⟨content, counter⟩ := by
  have htype : PqHealing.byteAt (sealedCell L rootSuite rootKey binding direction keyEpoch counter
      content nonce) 0 = FRAME_TYPE_COVER := rfl
  have hzero : beNat (beBytes 8 0) = 0 := by decide
  have hepoch : beNat (beBytes 8 keyEpoch) = keyEpoch := beNat_beBytes (lt_256_pow_8 h.keyEpoch)
  have hcounter : beNat (beBytes 8 counter) = counter := beNat_beBytes (lt_256_pow_8 h.counter)
  simp only [openCoverCell, requireBytes, requireU64, demand_of (length_sealedCell h),
    demand_of h.binding, demand_of h.keyEpoch, demand_of htype, ok_bind]
  simp only [sealedCell, coverHeader, slice_cellHeader_binding h.binding,
    slice_cellHeader_reserved h.binding, slice_cellHeader_epoch h.binding,
    slice_cellHeader_counter h.binding, slice_cellHeader_nonce h.binding nonce.property,
    take_cellHeader h.binding nonce.property, drop_cellHeader h.binding nonce.property, hzero,
    hepoch, hcounter, requireNewer_eq hnewer h.counter, deriveCellKey_eq h, demand_of, ok_bind,
    hL.open_seal, decodePlaintext_coverPlaintext h.content]
  rfl

/-- The parameters of a cell as the key derivation takes them. -/
def coverParams (rootSuite : RatchetRootSuite) (rootKey binding : Bytes)
    (direction : CoverCellDirection) (keyEpoch : Nat) : CellParams where
  suiteTag := suiteTag rootSuite
  directionTag := directionTag direction
  rootKey := rootKey
  binding := binding
  keyEpoch := keyEpoch

theorem suiteTag_injective : Function.Injective suiteTag := by
  intro a b h
  cases a <;> cases b <;> first | rfl | exact absurd h (by decide)

theorem directionTag_injective : Function.Injective directionTag := by
  intro a b h
  cases a <;> cases b <;> first | rfl | exact absurd h (by decide)

/-- A cell that was opened is one the AEAD opened, under an epoch of the range. -/
theorem openCoverCell_succeeds {opened : OpenedCoverCell}
    (h : openCoverCell L rootSuite rootKey binding direction keyEpoch counterAbove frame =
      .ok opened) :
    keyEpoch ≤ MAX_U64 ∧
      ((coverParams rootSuite rootKey binding direction keyEpoch).opening L KEY_DOMAIN
        frame).Succeeds L := by
  simp only [openCoverCell, deriveCellKey, requireBytes, requireU64, except_bind_eq_ok,
    demand_eq_ok, exists_const, except_pure_eq_ok] at h
  obtain ⟨-, -, he, -, -, -, -, _, -, _, ⟨-, -, -, rfl⟩, h⟩ := h
  refine ⟨he, ?_⟩
  by_contra hnone
  have hfails : L.aeadOpen (L.hkdfExpand (L.hkdfExtract rootKey binding)
      (cellKeyInfo rootSuite binding direction keyEpoch) 32) (slice frame 57 RATCHET_NONCE_LEN)
      (frame.take COVER_CELL_HEADER_BYTES) (frame.drop COVER_CELL_HEADER_BYTES) = none :=
    Option.not_isSome_iff_eq_none.mp hnone
  rw [hfails] at h
  cases h

/-- **Cover cells.** Every content that fits is sealed into a cell of the uniform length, which
opens to the same content and counter under the same parameters; a content has one accepted
plaintext; and any other cell, and this cell under any other suite, root, binding, direction or
epoch, is refused, unless the AEAD is forged or two inputs derive one key. -/
theorem cover_cell_sealed (hL : L.AeadLaws)
    (hfits : CellFits rootKey binding keyEpoch counter content) :
    ∃ frame, sealCoverCell L rootSuite rootKey binding direction keyEpoch counter content nonce =
        .ok frame ∧
      frame.length = WIRE_CHUNK_FRAME_LEN ∧
      (∀ counterAbove : Option Nat, (∀ above ∈ counterAbove, above < counter) →
        openCoverCell L rootSuite rootKey binding direction keyEpoch counterAbove frame =
          .ok ⟨content, counter⟩) ∧
      (∀ plaintext : Bytes, plaintext.length = COVER_CELL_PLAINTEXT_BYTES →
        (decodePlaintext plaintext = .ok content ↔
          plaintext = coverPlaintext (subtypeTag content) (payloadOf content))) ∧
      ∀ rootSuite' rootKey' binding' direction' keyEpoch' frame',
        (rootSuite', rootKey', binding', direction', keyEpoch', frame') ≠
          (rootSuite, rootKey, binding, direction, keyEpoch, frame) →
        ¬ KeyInput.Collide L
          ((coverParams rootSuite' rootKey' binding' direction' keyEpoch').keyInput KEY_DOMAIN)
          ((coverParams rootSuite rootKey binding direction keyEpoch).keyInput KEY_DOMAIN) →
        ¬ Opening.Forged L
          ((coverParams rootSuite rootKey binding direction keyEpoch).opening L KEY_DOMAIN frame)
          ((coverParams rootSuite' rootKey' binding' direction' keyEpoch').opening L KEY_DOMAIN
            frame') →
        ∀ counterAbove, ∃ e, openCoverCell L rootSuite' rootKey' binding' direction' keyEpoch'
          counterAbove frame' = .error e := by
  refine ⟨_, sealCoverCell_eq hfits, length_sealedCell hfits, ?_, ?_, ?_⟩
  · intro counterAbove hnewer
    exact openCoverCell_sealedCell hL hfits hnewer
  · intro plaintext hlen
    constructor
    · intro h
      exact (decodePlaintext_canonical hlen h).2
    · rintro rfl
      exact decodePlaintext_coverPlaintext hfits.content
  · intro rootSuite' rootKey' binding' direction' keyEpoch' frame' hne hkeys hideal counterAbove
    cases hopen : openCoverCell L rootSuite' rootKey' binding' direction' keyEpoch' counterAbove
        frame' with
    | error e => exact ⟨e, rfl⟩
    | ok opened =>
      obtain ⟨he, hsucceeds⟩ := openCoverCell_succeeds hopen
      obtain ⟨hparams, rfl⟩ := CellParams.eq_of_succeeds (lt_256_pow_8 he)
        (lt_256_pow_8 hfits.keyEpoch) hkeys hideal hsucceeds
      obtain ⟨hsuite, hdirection, rfl, rfl, rfl⟩ := CellParams.mk.inj hparams
      cases suiteTag_injective hsuite
      cases directionTag_injective hdirection
      exact absurd rfl hne

/-- A CANCEL, opened by its edge and refused by another. -/
theorem cover_cell_sealed_sample :
    ∃ frame, sealCoverCell LibCrypto.transparent .hybridMlkem768 (List.replicate 32 9)
        (List.replicate 32 1) .initiatorToResponder 3 7 (.cancel (List.replicate 64 5)) default =
          .ok frame ∧
      openCoverCell LibCrypto.transparent .hybridMlkem768 (List.replicate 32 9)
        (List.replicate 32 1) .initiatorToResponder 3 (some 6) frame =
          .ok ⟨.cancel (List.replicate 64 5), 7⟩ ∧
      ∃ e, openCoverCell LibCrypto.transparent .hybridMlkem768 (List.replicate 32 9)
        (List.replicate 32 2) .initiatorToResponder 3 none frame = .error e := by
  have hfits : CellFits (List.replicate 32 9) (List.replicate 32 1) 3 7
      (.cancel (List.replicate 64 5)) :=
    ⟨List.length_replicate, List.length_replicate, by decide, by decide, List.length_replicate⟩
  obtain ⟨frame, hsealed, -, hopen, -, hrefused⟩ := @cover_cell_sealed LibCrypto.transparent
    .hybridMlkem768 _ _ .initiatorToResponder _ _ _ default LibCrypto.transparent_aeadLaws hfits
  refine ⟨frame, hsealed, hopen (some 6) (by decide), hrefused .hybridMlkem768
    (List.replicate 32 9) (List.replicate 32 2) .initiatorToResponder 3 frame (fun h => ?_)
    (fun h => ?_) (fun h => ?_) none⟩
  · have hbinding : List.replicate 32 (2 : UInt8) = List.replicate 32 1 :=
      (Prod.mk.inj (Prod.mk.inj (Prod.mk.inj h).2).2).1
    exact absurd hbinding (by decide)
  · exact absurd h.2 (by decide)
  · -- the other binding derives a key with another tag
    have hframe := Except.ok.inj ((sealCoverCell_eq hfits).symm.trans hsealed)
    rw [← hframe] at h
    exact CellParams.transparent_refuses List.length_replicate rfl (by decide) h.2

end Cells

end CoverCell

end P2Party
