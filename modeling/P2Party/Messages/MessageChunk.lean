import P2Party.Messages.ChunkFrame
import P2Party.Messages.Merkle
import P2Party.Messages.Metadata

/-!
# Sealing and receiving chunks (`handlers/messageChunkCrypto.ts`)

One ratchet step gives the key of a whole message; every chunk of it is sealed
under that key combined with the PQ root of the current epoch, with a fresh nonce.
The receiver derives the key on a clone of its ratchet, adopts the clone once a
chunk authenticates and caches the combined key for the chunks that follow. The
C function `receive_message_with_key` (pake_ratchet.c) opens a chunk and checks
its Merkle proof.

- `sealChunk`, `decryptMessageChunk`, `receiveMessageWithKey`: the functions of the
  source;
- `sealChunk_eq`, `sealedChunk_parts`, `receive_sealedChunk`: the bytes of a sealed chunk,
  and that they open under the key that sealed them;
- `decryptMessageChunk_unresolved`, `decryptMessageChunk_hit`,
  `decryptMessageChunk_miss`: the three ways through a receive;
- `decryptMessageChunk_blank`: the last of them, for a chunk of zeros.
-/

namespace P2Party

open Base PqHealing

/-! ## Constants (utils/constants.ts) -/

/-- `MESSAGE_LEN` (constants.ts:6). -/
abbrev MESSAGE_LEN : Nat := 65536

/-- `PROOF_LEN` (constants.ts:27-29). -/
abbrev PROOF_LEN : Nat := 3124

/-- `DECRYPTED_LEN`, also `CHUNK_PLAINTEXT_LEN` (constants.ts:37, 43). -/
abbrev DECRYPTED_LEN : Nat := 65405

/-- `CHUNK_LEN` (constants.ts:38). -/
abbrev CHUNK_LEN : Nat := 61912

variable (L : LibCrypto)

/-! ## Sending -/

/-- `buildAad` (messageChunkCrypto.ts:81-94). -/
def buildAad (merkleRoot frameHeader : Bytes) : Except JsError Bytes := do
  demand (CHUNK_AAD_HEADER_LEN ≤ frameHeader.length)
    (.error "messageChunkCrypto: incomplete chunk frame header")
  return merkleRoot ++ frameHeader.take CHUNK_AAD_HEADER_LEN

/-- `sealChunk` (messageChunkCrypto.ts:246-281), with its random nonce. -/
def sealChunk (messageKey : Bytes) (header : RatchetHeader) (chunk merkleRoot : Bytes)
    (pqContext : Option PqMessageKeyContext) (nonce : Nonce) : Except JsError Bytes := do
  demand (merkleRoot.length = HASH_BYTES)
    (.error "messageChunkCrypto: merkleRoot must be 64 bytes")
  let frameHeader ← packChunkFrameHeader header nonce.val ((pqContext.map (·.epoch)).getD 0)
  let aad ← buildAad merkleRoot frameHeader
  let aeadKey ← match pqContext with
    | some context => combinePqMessageKey L messageKey context header
    | none => pure messageKey
  return frameHeader ++ L.aeadSeal aeadKey nonce.val aad chunk

/-! ## The C receive path -/

/-- What a chunk's plaintext says about its Merkle proof: its length in bytes
(pake_ratchet.c:149-152). -/
def proofLength (decrypted : Bytes) : Nat := beNat (slice decrypted METADATA_LEN 4)

/-- The leaf of a chunk's plaintext (pake_ratchet.c:157-167). -/
def chunkLeaf (decrypted : Bytes) : Bytes :=
  hashMerkleLeaf L (decrypted.drop (METADATA_LEN + PROOF_LEN))

/-- The plaintext with the leaf written over the start of its proof
(pake_ratchet.c:175). -/
def withReceipt (decrypted : Bytes) : Bytes :=
  decrypted.take METADATA_LEN ++ (chunkLeaf L decrypted ++ decrypted.drop (METADATA_LEN + HASH_BYTES))

/-- `receive_message_with_key` (pake_ratchet.c:120-177): the decrypted buffer, or
the negative return code. -/
def receiveMessageWithKey (message merkleRoot messageKey : Bytes) : Except Int Bytes :=
  let aad := merkleRoot ++ message.take CHUNK_AAD_HEADER_LEN
  let nonce := slice message CHUNK_AAD_HEADER_LEN RATCHET_NONCE_LEN
  match L.aeadOpen messageKey nonce aad (slice message CHUNK_FRAME_HEADER_LEN (DECRYPTED_LEN + 16)) with
  | none => .error (-2)
  | some decrypted =>
    if proofLength decrypted % (HASH_BYTES + 1) ≠ 0 ∨ proofLength decrypted > PROOF_LEN then
      .error (-3)
    else if verifyMerkleProof L (proofLength decrypted / (HASH_BYTES + 1)) (chunkLeaf L decrypted)
        merkleRoot (decrypted.drop (METADATA_LEN + 4)) ≠ 0 then
      .error (-6)
    else .ok (withReceipt L decrypted)

/-- `receiveWithKey` (messageChunkCrypto.ts:181-231): the frame in a zero-filled
buffer of `MESSAGE_LEN` bytes. -/
def receiveWithKey (frame merkleRoot key : Bytes) : Except Int Bytes :=
  receiveMessageWithKey L (LibCrypto.pad MESSAGE_LEN frame) merkleRoot key

/-! ## Receiving -/

/-- `DecryptedChunk` (messageChunkCrypto.ts:283-294). -/
structure DecryptedChunk where
  decrypted : Option Bytes
  ok : Bool
  stateAdvanced : Bool
deriving DecidableEq

/-- The objects `decryptMessageChunk` mutates: the ratchet and the key cache. -/
@[ext] structure ChunkReceiver where
  state : RatchetState
  cache : OrdMap String Bytes
deriving DecidableEq

/-- `PqMessageKeyContextResolver` (messageChunkCrypto.ts:300-302). -/
abbrev PqMessageKeyContextResolver := Nat → Except JsError (Option PqMessageKeyContext)

/-- `resolvedContextMatches` (messageChunkCrypto.ts:304-314). -/
def resolvedContextMatches (context : PqMessageKeyContext) (epoch : Nat)
    (rootSuite : RatchetRootSuite) : Bool :=
  context.epoch == epoch && context.rootSuite == rootSuite &&
    context.rootKey.length == 32 && context.binding.length == 32

/-- The epoch gate (messageChunkCrypto.ts:354-370): `none` rejects the frame,
`some none` is the context-free path of epoch zero. -/
def gateEpoch (resolver : Option PqMessageKeyContextResolver) (pqEpoch : Nat)
    (rootSuite : RatchetRootSuite) : Option (Option PqMessageKeyContext) :=
  match resolver with
  | none => if pqEpoch = 0 then some none else none
  | some resolve =>
    match resolve pqEpoch with
    | .ok (some context) =>
      if resolvedContextMatches context pqEpoch rootSuite then some (some context) else none
    | _ => none

/-- The key of a message, derived on a clone of the ratchet and combined with the
context (messageChunkCrypto.ts:394-407); `none` when either part throws. -/
def deriveMessageKey (state : RatchetState) (header : RatchetHeader)
    (pqContext : Option PqMessageKeyContext) (secretKey : Bytes) : Option (Bytes × RatchetState) :=
  match (ratchetDecrypt L header secretKey).run (cloneRatchet state) with
  | .error _ _ => none
  | .ok messageKey clone =>
    match pqContext with
    | none => some (messageKey, clone)
    | some context =>
      match combinePqMessageKey L messageKey context header with
      | .ok key => some (key, clone)
      | .error _ => none

/-- A chunk that is dropped with nothing changed. -/
def droppedChunk : DecryptedChunk := ⟨none, false, false⟩

/-- The outcome of a chunk the key of which is known. -/
def receivedChunk (received : Except Int Bytes) (stateAdvanced : Bool) : DecryptedChunk :=
  match received with
  | .ok decrypted => ⟨some decrypted, true, stateAdvanced⟩
  | .error _ => ⟨none, false, stateAdvanced⟩

theorem receivedChunk_decrypted {received : Except Int Bytes} {stateAdvanced : Bool} {decrypted : Bytes}
    (h : (receivedChunk received stateAdvanced).decrypted = some decrypted) : received = .ok decrypted := by
  cases received with
  | ok value =>
    cases h
    rfl
  | error code => cases h

/-- `decryptMessageChunk` (messageChunkCrypto.ts:341-431), with the secret of the
key pair a DH step would generate. -/
def decryptMessageChunk (frame merkleRoot : Bytes)
    (resolver : Option PqMessageKeyContextResolver) (secretKey : Bytes) :
    EStateM JsError ChunkReceiver DecryptedChunk := do
  ensure (merkleRoot.length = HASH_BYTES)
    (.error "messageChunkCrypto: merkleRoot must be 64 bytes")
  let parsed ← attempt (parseChunkFrameHeader frame)
  let receiver ← get
  match gateEpoch resolver parsed.pqEpoch receiver.state.rootSuite with
  | none => return droppedChunk
  | some pqContext =>
    let cacheK ← attempt (messageCacheKey parsed.header.dhPub parsed.header.N
      (if resolver.isSome then some parsed.pqEpoch else none))
    match receiver.cache.get cacheK with
    | some cached => return receivedChunk (receiveWithKey L frame merkleRoot cached) false
    | none =>
      match deriveMessageKey L receiver.state parsed.header pqContext secretKey with
      | none => return droppedChunk
      | some (messageKey, clone) =>
        let received := receiveWithKey L frame merkleRoot messageKey
        if received = .error (-2) then return droppedChunk
        else
          set ({ state := clone, cache := receiver.cache.set cacheK messageKey } : ChunkReceiver)
          return receivedChunk received true

/-! ## Sealed chunks -/

variable {L} {header : RatchetHeader} {pqEpoch : Nat} {nonce : Nonce}
  {merkleRoot chunk key messageKey secretKey : Bytes} {context : PqMessageKeyContext}

/-- The associated data of a chunk. -/
def chunkAad (merkleRoot : Bytes) (header : RatchetHeader) (pqEpoch : Nat) : Bytes :=
  merkleRoot ++ ([FRAME_TYPE_CHUNK] ++ (header.dhPub ++ (beBytes 8 header.N ++
    (beBytes 8 header.PN ++ beBytes 8 pqEpoch))))

/-- The bytes of a chunk sealed under a key. -/
def sealedChunk (L : LibCrypto) (key : Bytes) (header : RatchetHeader) (pqEpoch : Nat)
    (chunk merkleRoot : Bytes) (nonce : Nonce) : Bytes :=
  chunkHeader header pqEpoch nonce.val ++
    L.aeadSeal key nonce.val (chunkAad merkleRoot header pqEpoch) chunk

/-- The associated data is the header without its nonce. -/
theorem take_chunkHeader (h : header.dhPub.length = 32) (nonce rest : Bytes) :
    (chunkHeader header pqEpoch nonce ++ rest).take CHUNK_AAD_HEADER_LEN =
      [FRAME_TYPE_CHUNK] ++ (header.dhPub ++ (beBytes 8 header.N ++ (beBytes 8 header.PN ++
        beBytes 8 pqEpoch))) := by
  have hsplit : chunkHeader header pqEpoch nonce ++ rest =
      ([FRAME_TYPE_CHUNK] ++ (header.dhPub ++ (beBytes 8 header.N ++ (beBytes 8 header.PN ++
        beBytes 8 pqEpoch)))) ++ (nonce ++ rest) := by
    simp [chunkHeader]
  rw [hsplit, List.take_left' (by simp [h])]

theorem buildAad_chunkHeader (h : HeaderFits header pqEpoch) :
    buildAad merkleRoot (chunkHeader header pqEpoch nonce.val) = .ok (chunkAad merkleRoot header pqEpoch) := by
  have hlen := @length_chunkHeader header pqEpoch nonce.val h.dhPub nonce.property
  have htake := @take_chunkHeader header pqEpoch h.dhPub nonce.val []
  rw [List.append_nil] at htake
  unfold buildAad
  rw [demand_of (by rw [hlen]; decide), ok_bind, htake]
  rfl

theorem sealChunk_eq (hroot : merkleRoot.length = HASH_BYTES) (h : HeaderFits header context.epoch)
    (hkey : messageKey.length = 32) (hctxRoot : context.rootKey.length = 32)
    (hbinding : context.binding.length = 32) :
    sealChunk L messageKey header chunk merkleRoot (some context) nonce =
      .ok (sealedChunk L (combinedKey L messageKey context header) header context.epoch chunk
        merkleRoot nonce) := by
  have haad : buildAad merkleRoot (chunkHeader header context.epoch nonce.val) =
      .ok (chunkAad merkleRoot header context.epoch) := buildAad_chunkHeader h
  unfold sealChunk
  simp only [demand_of hroot, Option.map_some, Option.getD_some,
    packChunkFrameHeader_eq h nonce.property, haad, combinePqMessageKey_eq hkey hctxRoot hbinding h,
    ok_bind]
  rfl

/-- Without a context the message key seals the chunk itself. -/
theorem sealChunk_plain (hroot : merkleRoot.length = HASH_BYTES) (h : HeaderFits header 0) :
    sealChunk L messageKey header chunk merkleRoot none nonce =
      .ok (sealedChunk L messageKey header 0 chunk merkleRoot nonce) := by
  have haad : buildAad merkleRoot (chunkHeader header 0 nonce.val) = .ok (chunkAad merkleRoot header 0) :=
    buildAad_chunkHeader h
  unfold sealChunk
  simp only [demand_of hroot, Option.map_none, Option.getD_none, packChunkFrameHeader_eq h nonce.property,
    haad, ok_bind]
  rfl

theorem length_sealedChunk (h : header.dhPub.length = 32) (hchunk : chunk.length = DECRYPTED_LEN) :
    (sealedChunk L key header pqEpoch chunk merkleRoot nonce).length = WIRE_CHUNK_FRAME_LEN := by
  rw [sealedChunk, List.length_append, length_chunkHeader h nonce.property, L.length_aeadSeal,
    hchunk]
  rfl

theorem parse_sealedChunk (h : HeaderFits header pqEpoch) :
    parseChunkFrameHeader (sealedChunk L key header pqEpoch chunk merkleRoot nonce) =
      .ok ⟨header, pqEpoch, nonce.val,
        L.aeadSeal key nonce.val (chunkAad merkleRoot header pqEpoch) chunk⟩ :=
  parse_chunkHeader h nonce.property _

/-- The nonce of a frame. -/
def frameNonce (frame : Bytes) : Bytes :=
  slice (LibCrypto.pad MESSAGE_LEN frame) CHUNK_AAD_HEADER_LEN RATCHET_NONCE_LEN

/-- The associated data of a frame. -/
def frameAad (merkleRoot frame : Bytes) : Bytes :=
  merkleRoot ++ (LibCrypto.pad MESSAGE_LEN frame).take CHUNK_AAD_HEADER_LEN

/-- The ciphertext of a frame, with its tag. -/
def frameCiphertext (frame : Bytes) : Bytes :=
  slice (LibCrypto.pad MESSAGE_LEN frame) CHUNK_FRAME_HEADER_LEN (DECRYPTED_LEN + 16)

/-- The parts of a sealed chunk: the buffer is the frame followed by zeros, and every field
stands where the sender put it. -/
theorem sealedChunk_parts (h : header.dhPub.length = 32) (hchunk : chunk.length = DECRYPTED_LEN) :
    frameNonce (sealedChunk L key header pqEpoch chunk merkleRoot nonce) = nonce.val ∧
      frameAad merkleRoot (sealedChunk L key header pqEpoch chunk merkleRoot nonce)
        = chunkAad merkleRoot header pqEpoch ∧
      frameCiphertext (sealedChunk L key header pqEpoch chunk merkleRoot nonce)
        = L.aeadSeal key nonce.val (chunkAad merkleRoot header pqEpoch) chunk := by
  have hheader := @length_chunkHeader header pqEpoch nonce.val h nonce.property
  have hbuffer : LibCrypto.pad MESSAGE_LEN
      (sealedChunk L key header pqEpoch chunk merkleRoot nonce) =
      chunkHeader header pqEpoch nonce.val ++
        (L.aeadSeal key nonce.val (chunkAad merkleRoot header pqEpoch) chunk ++
          List.replicate (MESSAGE_LEN - WIRE_CHUNK_FRAME_LEN) 0) := by
    have hlen := @length_sealedChunk L header pqEpoch nonce merkleRoot chunk key h hchunk
    rw [LibCrypto.pad, List.take_append, hlen, List.take_of_length_le (by rw [hlen]; decide),
      List.take_replicate, sealedChunk, List.append_assoc]
    rfl
  unfold frameNonce frameAad frameCiphertext
  rw [hbuffer]
  refine ⟨?_, ?_, slice_append hheader (by rw [L.length_aeadSeal, hchunk])⟩
  · have hsplit : chunkHeader header pqEpoch nonce.val =
        ([FRAME_TYPE_CHUNK] ++ (header.dhPub ++ (beBytes 8 header.N ++ (beBytes 8 header.PN ++
          beBytes 8 pqEpoch)))) ++ nonce.val := by
      simp [chunkHeader]
    rw [hsplit, List.append_assoc]
    exact slice_append (by simp [h]) nonce.property
  · rw [take_chunkHeader h]
    rfl

/-- A plaintext whose Merkle proof leads to the root. -/
structure ProvesLeaf (L : LibCrypto) (merkleRoot chunk : Bytes) : Prop where
  length : chunk.length = DECRYPTED_LEN
  artifacts : proofLength chunk % (HASH_BYTES + 1) = 0
  fits : proofLength chunk ≤ PROOF_LEN
  verifies : verifyMerkleProof L (proofLength chunk / (HASH_BYTES + 1)) (chunkLeaf L chunk) merkleRoot
    (chunk.drop (METADATA_LEN + 4)) = 0

/-- A sealed chunk opens under the key that sealed it. -/
theorem receive_sealedChunk (haead : L.AeadLaws) (h : HeaderFits header pqEpoch)
    (hproof : ProvesLeaf L merkleRoot chunk) :
    receiveWithKey L (sealedChunk L key header pqEpoch chunk merkleRoot nonce) merkleRoot key =
      .ok (withReceipt L chunk) := by
  obtain ⟨hnonce, haad, hciphertext⟩ :=
    @sealedChunk_parts L header pqEpoch nonce merkleRoot chunk key h.dhPub hproof.length
  have hchecks : ¬ (proofLength chunk % (HASH_BYTES + 1) ≠ 0 ∨ proofLength chunk > PROOF_LEN) := by
    rintro (hmod | hgt)
    · exact hmod hproof.artifacts
    · exact absurd hproof.fits (Nat.not_le_of_gt hgt)
  unfold frameNonce at hnonce
  unfold frameAad at haad
  unfold frameCiphertext at hciphertext
  unfold receiveWithKey receiveMessageWithKey
  simp only [haad, hnonce, hciphertext, haead.open_seal, if_neg hchecks, hproof.verifies, ne_eq,
    not_true_eq_false, if_false]

/-! ## The ways through a receive -/

variable {frame : Bytes} {resolver : Option PqMessageKeyContextResolver} {parsed : ParsedChunkFrame}
  {receiver : ChunkReceiver} {pqContext : Option PqMessageKeyContext} {cacheK : String}

/-- A frame that does not parse changes nothing. -/
theorem decryptMessageChunk_unparsed (hroot : merkleRoot.length = HASH_BYTES) {e : JsError}
    (hparse : parseChunkFrameHeader frame = .error e) :
    (decryptMessageChunk L frame merkleRoot resolver secretKey).run receiver = .error e receiver := by
  unfold decryptMessageChunk
  rw [run_ensure_of hroot, run_attempt_of_error hparse]

/-- A frame of an epoch the resolver does not know is dropped before the cache is
looked at. -/
theorem decryptMessageChunk_unresolved (hroot : merkleRoot.length = HASH_BYTES)
    (hparse : parseChunkFrameHeader frame = .ok parsed)
    (hgate : gateEpoch resolver parsed.pqEpoch receiver.state.rootSuite = none) :
    (decryptMessageChunk L frame merkleRoot resolver secretKey).run receiver =
      .ok droppedChunk receiver := by
  unfold decryptMessageChunk
  rw [run_ensure_of hroot, run_attempt_of_ok hparse, run_get_bind, hgate]
  rfl

section Keyed

variable (hroot : merkleRoot.length = HASH_BYTES)
    (hparse : parseChunkFrameHeader frame = .ok parsed)
    (hgate : gateEpoch resolver parsed.pqEpoch receiver.state.rootSuite = some pqContext)
    (hkey : messageCacheKey parsed.header.dhPub parsed.header.N
      (if resolver.isSome then some parsed.pqEpoch else none) = .ok cacheK)
include hroot hparse hgate hkey

/-- A chunk of a message whose key is cached leaves ratchet and cache alone. -/
theorem decryptMessageChunk_hit (hcached : receiver.cache.get cacheK = some key) :
    (decryptMessageChunk L frame merkleRoot resolver secretKey).run receiver =
      .ok (receivedChunk (receiveWithKey L frame merkleRoot key) false) receiver := by
  unfold decryptMessageChunk
  rw [run_ensure_of hroot, run_attempt_of_ok hparse, run_get_bind, hgate]
  show (attempt _ >>= _).run receiver = _
  rw [run_attempt_of_ok hkey, hcached]
  rfl

/-- The first chunk of a message: the key is derived on a clone, which is adopted
exactly when the chunk authenticates. -/
theorem decryptMessageChunk_miss (hcached : receiver.cache.get cacheK = none) :
    (decryptMessageChunk L frame merkleRoot resolver secretKey).run receiver =
      match deriveMessageKey L receiver.state parsed.header pqContext secretKey with
      | none => .ok droppedChunk receiver
      | some (messageKey, clone) =>
        if receiveWithKey L frame merkleRoot messageKey = .error (-2) then .ok droppedChunk receiver
        else .ok (receivedChunk (receiveWithKey L frame merkleRoot messageKey) true)
          ⟨clone, receiver.cache.set cacheK messageKey⟩ := by
  unfold decryptMessageChunk
  rw [run_ensure_of hroot, run_attempt_of_ok hparse, run_get_bind, hgate]
  show (attempt _ >>= _).run receiver = _
  rw [run_attempt_of_ok hkey, hcached]
  cases hderive : deriveMessageKey L receiver.state parsed.header pqContext secretKey with
  | none => rfl
  | some derived =>
    obtain ⟨messageKey, clone⟩ := derived
    show (if _ then _ else _ : EStateM JsError ChunkReceiver DecryptedChunk).run receiver = _
    rw [run_ite]
    rfl

end Keyed

/-- What a receive that returns has done: nothing, or it has adopted the clone and
cached the key it derived. -/
theorem decryptMessageChunk_cases {receiver' : ChunkReceiver} {result : DecryptedChunk}
    (h : (decryptMessageChunk L frame merkleRoot resolver secretKey).run receiver =
      .ok result receiver') :
    (result.stateAdvanced = false ∧ receiver' = receiver) ∨
      ∃ parsed pqContext cacheK messageKey clone, parseChunkFrameHeader frame = .ok parsed ∧
        messageCacheKey parsed.header.dhPub parsed.header.N
          (if resolver.isSome then some parsed.pqEpoch else none) = .ok cacheK ∧
        receiver.cache.get cacheK = none ∧
        deriveMessageKey L receiver.state parsed.header pqContext secretKey =
          some (messageKey, clone) ∧
        result.stateAdvanced = true ∧ receiver' = ⟨clone, receiver.cache.set cacheK messageKey⟩ := by
  unfold decryptMessageChunk at h
  obtain ⟨-, h⟩ := ensure_bind_eq_ok.mp h
  obtain ⟨parsed, hparse, h⟩ := attempt_bind_eq_ok.mp h
  rw [run_get_bind] at h
  have hadvanced : ∀ (received : Except Int Bytes) (advanced : Bool),
      (receivedChunk received advanced).stateAdvanced = advanced := by
    intro received advanced
    cases received with
    | ok _ => rfl
    | error _ => rfl
  cases hgate : gateEpoch resolver parsed.pqEpoch receiver.state.rootSuite with
  | none =>
    rw [hgate] at h
    cases h
    exact .inl ⟨rfl, rfl⟩
  | some pqContext =>
    simp only [hgate] at h
    obtain ⟨cacheK, hkey, h⟩ := attempt_bind_eq_ok.mp h
    cases hcached : receiver.cache.get cacheK with
    | some cached =>
      rw [hcached] at h
      cases h
      exact .inl ⟨hadvanced _ _, rfl⟩
    | none =>
      simp only [hcached] at h
      cases hderive : deriveMessageKey L receiver.state parsed.header pqContext secretKey with
      | none =>
        rw [hderive] at h
        cases h
        exact .inl ⟨rfl, rfl⟩
      | some derived =>
        obtain ⟨messageKey, clone⟩ := derived
        simp only [hderive] at h
        rw [run_ite] at h
        split at h
        · cases h
          exact .inl ⟨rfl, rfl⟩
        · cases h
          exact .inr ⟨parsed, pqContext, cacheK, messageKey, clone, hparse, hkey, hcached, hderive,
            hadvanced _ _, rfl⟩

/-! ## A chunk of zeros -/

/-- A ratchet at the start of a receiving chain. -/
def sampleReceiving : RatchetState where
  rootSuite := .hybridMlkem768
  rootKey := List.replicate 32 0
  sendingChainKey := none
  receivingChainKey := some (List.replicate 32 0)
  dhSelfPub := List.replicate 32 5
  dhSelfSec := List.replicate 32 5
  dhRemotePub := some (List.replicate 32 9)
  Ns := 0
  Nr := 0
  PN := 0
  skipped := .empty

/-- A plaintext with an empty Merkle proof. -/
def blankChunk : Bytes := List.replicate DECRYPTED_LEN 0

/-- The root of the tree with that one leaf. -/
def blankRoot : Bytes := chunkLeaf .transparent blankChunk

theorem blank_proves : ProvesLeaf .transparent blankRoot blankChunk := by
  have hproof : proofLength blankChunk = 0 := by
    unfold proofLength blankChunk slice
    rw [List.drop_replicate, List.take_replicate]
    decide
  refine ⟨List.length_replicate, ?_, ?_, ?_⟩
  · rw [hproof]
    exact Nat.zero_mod _
  · rw [hproof]
    exact Nat.zero_le _
  · rw [hproof]
    unfold verifyMerkleProof
    simp [verifyLoop, blankRoot]

/-- Sealed under the key its header derives, it is received, and the key is cached. -/
theorem decryptMessageChunk_blank {state clone : RatchetState} {cache : OrdMap String Bytes} {key : Bytes}
    (h : HeaderFits header pqEpoch) (hgate : gateEpoch resolver pqEpoch state.rootSuite = some pqContext)
    (hkey : messageCacheKey header.dhPub header.N (if resolver.isSome then some pqEpoch else none) = .ok cacheK)
    (hcached : cache.get cacheK = none)
    (hderive : deriveMessageKey .transparent state header pqContext secretKey = some (key, clone)) (nonce : Nonce) :
    (decryptMessageChunk .transparent (sealedChunk .transparent key header pqEpoch blankChunk blankRoot nonce)
        blankRoot resolver secretKey).run ⟨state, cache⟩ =
      .ok ⟨some (withReceipt .transparent blankChunk), true, true⟩ ⟨clone, cache.set cacheK key⟩ := by
  have hopens := @receive_sealedChunk .transparent header pqEpoch nonce blankRoot blankChunk key
    LibCrypto.transparent_aeadLaws h blank_proves
  have hparse := @parse_sealedChunk .transparent header pqEpoch nonce blankRoot blankChunk key h
  have hrun := @decryptMessageChunk_miss .transparent blankRoot secretKey _ resolver _ ⟨state, cache⟩ pqContext cacheK
    (LibCrypto.length_sha512 _ _) hparse hgate hkey hcached
  simp only [hderive] at hrun
  rw [hopens, if_neg (by rintro ⟨⟩)] at hrun
  exact hrun

end P2Party
