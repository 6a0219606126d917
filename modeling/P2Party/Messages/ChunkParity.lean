import P2Party.Messages.MessageChunk

/-!
# One layout in two languages (`handlers/chunkFrame.ts`, `cryptography/pake_ratchet.c`)

The sender packs a header, authenticates the part of it before the nonce, and seals. The receiver
in C knows the frame only as bytes: it copies the same part, with offsets from its own constants,
and takes the nonce from behind it.

- `PakeRatchet`: the constants of `utils.h`, and what `receive_message_with_key` takes from a frame;
- `packed_parses`, `parsed_packs`: the header codec is inverse in both directions;
- `sealChunk_ok`: what `sealChunk` has used;
- `chunk_header_codec`: the two codec laws, and that both sides use the same data and nonce.
-/

namespace P2Party

open Base PqHealing

/-! ## The C side -/

namespace PakeRatchet

/-- The sizes of `utils.h` (:30-35, :44-55). -/
def FRAME_TYPE_LEN : Nat := 1

@[inherit_doc FRAME_TYPE_LEN] def RATCHET_DHPUB_LEN : Nat := 32

@[inherit_doc FRAME_TYPE_LEN] def RATCHET_N_LEN : Nat := 8

@[inherit_doc FRAME_TYPE_LEN] def RATCHET_PN_LEN : Nat := 8

@[inherit_doc FRAME_TYPE_LEN] def PQ_EPOCH_LEN : Nat := 8

@[inherit_doc FRAME_TYPE_LEN] def RATCHET_NONCE_LEN : Nat := 12

@[inherit_doc FRAME_TYPE_LEN] def CHUNK_AAD_HEADER_LEN : Nat :=
  FRAME_TYPE_LEN + RATCHET_DHPUB_LEN + RATCHET_N_LEN + RATCHET_PN_LEN + PQ_EPOCH_LEN

@[inherit_doc FRAME_TYPE_LEN] def CHUNK_HEADER_LEN : Nat :=
  RATCHET_DHPUB_LEN + RATCHET_N_LEN + RATCHET_PN_LEN + PQ_EPOCH_LEN + RATCHET_NONCE_LEN

@[inherit_doc FRAME_TYPE_LEN] def MESSAGE_START : Nat := FRAME_TYPE_LEN + CHUNK_HEADER_LEN

/-- `aad` of `receive_message_with_key` (pake_ratchet.c:126-128). -/
def aad (message merkleRoot : Bytes) : Bytes :=
  merkleRoot.take HASH_BYTES ++ message.take CHUNK_AAD_HEADER_LEN

/-- `nonce` of `receive_message_with_key` (pake_ratchet.c:135), read to its 12 bytes. -/
def nonce (message : Bytes) : Bytes := slice message CHUNK_AAD_HEADER_LEN RATCHET_NONCE_LEN

/-- The ciphertext that it opens (pake_ratchet.c:139-141). -/
def ciphertext (message : Bytes) : Bytes := slice message MESSAGE_START (DECRYPTED_LEN + 16)

/-- What it does with what has been opened (pake_ratchet.c:143-176). -/
def afterOpen (L : LibCrypto) (merkleRoot : Bytes) : Option Bytes → Except Int Bytes
  | none => .error (-2)
  | some decrypted =>
    if proofLength decrypted % (HASH_BYTES + 1) ≠ 0 ∨ proofLength decrypted > PROOF_LEN then
      .error (-3)
    else if verifyMerkleProof L (proofLength decrypted / (HASH_BYTES + 1)) (chunkLeaf L decrypted)
        merkleRoot (decrypted.drop (METADATA_LEN + 4)) ≠ 0 then
      .error (-6)
    else .ok (withReceipt L decrypted)

end PakeRatchet

variable {L : LibCrypto} {header : RatchetHeader} {pqEpoch : Nat}

/-- The receiver opens with the data and the nonce that its own constants point at. -/
theorem receiveMessageWithKey_reads {message merkleRoot : Bytes} (hroot : merkleRoot.length = HASH_BYTES)
    (key : Bytes) :
    receiveMessageWithKey L message merkleRoot key = PakeRatchet.afterOpen L merkleRoot
      (L.aeadOpen key (PakeRatchet.nonce message) (PakeRatchet.aad message merkleRoot)
        (PakeRatchet.ciphertext message)) := by
  have htake : merkleRoot.take HASH_BYTES = merkleRoot := List.take_of_length_le (Nat.le_of_eq hroot)
  unfold receiveMessageWithKey PakeRatchet.aad
  rw [htake]
  show (match L.aeadOpen key (PakeRatchet.nonce message)
    (merkleRoot ++ message.take PakeRatchet.CHUNK_AAD_HEADER_LEN) (PakeRatchet.ciphertext message) with
    | none => _
    | some decrypted => _) = _
  cases L.aeadOpen key (PakeRatchet.nonce message)
    (merkleRoot ++ message.take PakeRatchet.CHUNK_AAD_HEADER_LEN) (PakeRatchet.ciphertext message) with
  | none => rfl
  | some decrypted => rfl

/-! ## The codec, in both directions -/

/-- Whatever follows a packed header, its fields come back. -/
theorem packed_parses {nonce bytes : Bytes} (h : packChunkFrameHeader header nonce pqEpoch = .ok bytes)
    (ciphertext : Bytes) :
    parseChunkFrameHeader (bytes ++ ciphertext) = .ok ⟨header, pqEpoch, nonce, ciphertext⟩ := by
  obtain ⟨hfits, hnonce⟩ := headerFits_of_pack h
  rw [packChunkFrameHeader_eq hfits hnonce] at h
  obtain rfl := Except.ok.inj h
  exact parse_chunkHeader hfits hnonce ciphertext

/-- The fields of a frame that parses. -/
theorem parse_fields {frame : Bytes} {parsed : ParsedChunkFrame}
    (h : parseChunkFrameHeader frame = .ok parsed) :
    CHUNK_FRAME_HEADER_LEN ≤ frame.length ∧ byteAt frame 0 = FRAME_TYPE_CHUNK ∧
      parsed = ⟨⟨slice frame 1 32, beNat (slice frame 33 8), beNat (slice frame 41 8)⟩,
        beNat (slice frame 49 8), slice frame 57 12, frame.drop CHUNK_FRAME_HEADER_LEN⟩ := by
  unfold parseChunkFrameHeader readU64BE at h
  simp only [demand_bind, ite_eq_iff, reduceCtorEq, and_false, or_false] at h
  obtain ⟨hlen, htype, h⟩ := h
  obtain ⟨N, hN, h⟩ := except_bind_eq_ok.mp h
  obtain ⟨PN, hPN, h⟩ := except_bind_eq_ok.mp h
  simp only [ite_eq_iff, reduceCtorEq, and_false, or_false, except_pure_eq_ok] at hN hPN h
  obtain ⟨-, rfl⟩ := hN
  obtain ⟨-, rfl⟩ := hPN
  exact ⟨hlen, htype, h.symm⟩

/-- A frame that parses starts with the header that its fields pack to. -/
theorem parsed_packs {frame : Bytes} {parsed : ParsedChunkFrame}
    (h : parseChunkFrameHeader frame = .ok parsed) :
    packChunkFrameHeader parsed.header parsed.nonce parsed.pqEpoch =
        .ok (frame.take CHUNK_FRAME_HEADER_LEN) ∧
      parsed.ciphertext = frame.drop CHUNK_FRAME_HEADER_LEN := by
  have hfits := headerFits_of_parse h
  obtain ⟨hlen, htype, rfl⟩ := parse_fields h
  have hlong : ∀ {n : Nat}, n ≤ 69 → n ≤ frame.length := fun hn => Nat.le_trans hn hlen
  have hnonce : (slice frame 57 12).length = 12 := length_slice (hlong (by decide))
  -- field by field, what starts at an offset is the field and what starts after it
  have hframe : chunkHeader ⟨slice frame 1 32, beNat (slice frame 33 8), beNat (slice frame 41 8)⟩
      (beNat (slice frame 49 8)) (slice frame 57 12) ++ frame.drop 69 = frame := by
    unfold chunkHeader
    simp only [List.append_assoc]
    rw [slice_append_drop frame 57 12, beBytes_slice_append_drop (hlong (by decide)),
      beBytes_slice_append_drop (hlong (by decide)), beBytes_slice_append_drop (hlong (by decide)),
      slice_append_drop frame 1 32, ← htype]
    exact @getD_cons_drop frame 0 (hlong (by decide))
  have hheader := @length_chunkHeader _ (beNat (slice frame 49 8)) _ hfits.dhPub hnonce
  refine ⟨?_, rfl⟩
  rw [packChunkFrameHeader_eq hfits hnonce]
  refine congrArg Except.ok ?_
  conv_rhs => rw [← hframe]
  exact (List.take_left' hheader).symm

/-! ## What both sides use -/

/-- What a call of `sealChunk` that returns has used. -/
theorem sealChunk_ok {messageKey chunk merkleRoot frame : Bytes} {pqContext : Option PqMessageKeyContext}
    {nonce : Nonce} (h : sealChunk L messageKey header chunk merkleRoot pqContext nonce = .ok frame) :
    ∃ frameHeader aad aeadKey,
      packChunkFrameHeader header nonce.val ((pqContext.map (·.epoch)).getD 0) = .ok frameHeader ∧
      buildAad merkleRoot frameHeader = .ok aad ∧ merkleRoot.length = HASH_BYTES ∧
      frame = frameHeader ++ L.aeadSeal aeadKey nonce.val aad chunk := by
  unfold sealChunk at h
  simp only [demand_bind, ite_eq_iff, reduceCtorEq, and_false, or_false] at h
  obtain ⟨hroot, h⟩ := h
  obtain ⟨frameHeader, hpack, h⟩ := except_bind_eq_ok.mp h
  obtain ⟨aad, haad, h⟩ := except_bind_eq_ok.mp h
  cases pqContext with
  | none =>
    obtain ⟨aeadKey, -, h⟩ := except_bind_eq_ok.mp h
    exact ⟨frameHeader, aad, aeadKey, hpack, haad, hroot, (except_pure_eq_ok.mp h).symm⟩
  | some context =>
    obtain ⟨aeadKey, -, h⟩ := except_bind_eq_ok.mp h
    exact ⟨frameHeader, aad, aeadKey, hpack, haad, hroot, (except_pure_eq_ok.mp h).symm⟩

/-- The start of the buffer that the receiver gets is the start of the frame. -/
theorem take_pad_append {a b : Bytes} {n size : Nat} (hn : n ≤ a.length) (hsize : n ≤ size) :
    (LibCrypto.pad size (a ++ b)).take n = a.take n := by
  rw [LibCrypto.pad, List.take_take, Nat.min_eq_left hsize, List.append_assoc,
    List.take_append_of_le_length hn]

theorem slice_pad_append {a b : Bytes} {off len size : Nat} (hn : off + len ≤ a.length)
    (hsize : off + len ≤ size) : slice (LibCrypto.pad size (a ++ b)) off len = slice a off len := by
  have hboth : ∀ bs : Bytes, slice bs off len = (bs.take (off + len)).drop off := fun bs => by
    rw [slice, List.drop_take, Nat.add_sub_cancel_left]
  rw [hboth, hboth, take_pad_append hn hsize]

/-- The header codec is inverse in both directions, for all counters and epochs that the two sides
accept; and for every chunk that `sealChunk` seals, with any header, epoch and Merkle root, the
receiver opens the frame with the associated data and the nonce that it was sealed with. -/
theorem chunk_header_codec (L : LibCrypto) :
    (∀ (header : RatchetHeader) (nonce : Bytes) (pqEpoch : Nat) (bytes : Bytes),
      packChunkFrameHeader header nonce pqEpoch = .ok bytes → ∀ ciphertext,
        parseChunkFrameHeader (bytes ++ ciphertext) = .ok ⟨header, pqEpoch, nonce, ciphertext⟩) ∧
    (∀ (frame : Bytes) (parsed : ParsedChunkFrame), parseChunkFrameHeader frame = .ok parsed →
      packChunkFrameHeader parsed.header parsed.nonce parsed.pqEpoch =
          .ok (frame.take CHUNK_FRAME_HEADER_LEN) ∧
        parsed.ciphertext = frame.drop CHUNK_FRAME_HEADER_LEN) ∧
    (∀ (messageKey : Bytes) (header : RatchetHeader) (chunk merkleRoot : Bytes)
      (pqContext : Option PqMessageKeyContext) (nonce : Nonce) (frame : Bytes),
      sealChunk L messageKey header chunk merkleRoot pqContext nonce = .ok frame →
      ∃ frameHeader aad aeadKey,
        packChunkFrameHeader header nonce.val ((pqContext.map (·.epoch)).getD 0) = .ok frameHeader ∧
        buildAad merkleRoot frameHeader = .ok aad ∧
        frame = frameHeader ++ L.aeadSeal aeadKey nonce.val aad chunk ∧
        PakeRatchet.aad (LibCrypto.pad MESSAGE_LEN frame) merkleRoot = aad ∧
        PakeRatchet.nonce (LibCrypto.pad MESSAGE_LEN frame) = nonce.val ∧
        ∀ key, receiveWithKey L frame merkleRoot key = PakeRatchet.afterOpen L merkleRoot
          (L.aeadOpen key nonce.val aad
            (PakeRatchet.ciphertext (LibCrypto.pad MESSAGE_LEN frame)))) := by
  refine ⟨fun _ _ _ _ h => packed_parses h, fun _ _ h => parsed_packs h, ?_⟩
  intro messageKey header chunk merkleRoot pqContext nonce frame h
  obtain ⟨frameHeader, aad, aeadKey, hpack, haad, hroot, rfl⟩ := sealChunk_ok h
  obtain ⟨hfits, hnonce⟩ := headerFits_of_pack hpack
  rw [packChunkFrameHeader_eq hfits hnonce] at hpack
  obtain rfl := Except.ok.inj hpack
  have hlen := @length_chunkHeader _ ((pqContext.map (·.epoch)).getD 0) _ hfits.dhPub hnonce
  have hsame : PakeRatchet.aad (LibCrypto.pad MESSAGE_LEN (chunkHeader header
      ((pqContext.map (·.epoch)).getD 0) nonce.val ++ L.aeadSeal aeadKey nonce.val aad chunk))
      merkleRoot = aad := by
    unfold buildAad at haad
    rw [demand_of (by rw [hlen]; decide), ok_bind] at haad
    rw [← except_pure_eq_ok.mp haad, PakeRatchet.aad,
      take_pad_append (by rw [hlen]; decide) (by decide), List.take_of_length_le (Nat.le_of_eq hroot)]
    rfl
  have hnonceSame : PakeRatchet.nonce (LibCrypto.pad MESSAGE_LEN (chunkHeader header
      ((pqContext.map (·.epoch)).getD 0) nonce.val ++ L.aeadSeal aeadKey nonce.val aad chunk)) =
        nonce.val := by
    have hsplit : chunkHeader header ((pqContext.map (·.epoch)).getD 0) nonce.val =
        ([FRAME_TYPE_CHUNK] ++ (header.dhPub ++ (beBytes 8 header.N ++ (beBytes 8 header.PN ++
          beBytes 8 ((pqContext.map (·.epoch)).getD 0))))) ++ (nonce.val ++ []) := by
      simp [chunkHeader]
    rw [PakeRatchet.nonce, slice_pad_append (by rw [hlen]; decide) (by decide), hsplit]
    exact slice_append (by simp [hfits.dhPub]; rfl) hnonce
  refine ⟨_, aad, aeadKey, packChunkFrameHeader_eq hfits hnonce, haad, rfl, hsame, hnonceSame,
    fun key => ?_⟩
  rw [receiveWithKey, receiveMessageWithKey_reads hroot, hsame, hnonceSame]

end P2Party
