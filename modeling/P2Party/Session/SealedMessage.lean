import P2Party.Cryptography.RatchetTurns
import P2Party.Messages.SendGeometry
import P2Party.Messages.SplitIdentity
import P2Party.Session.Snapshot

/-!
# The message a session seals

A plaintext of any length a buffer can have is cut into chunks, at least one; every chunk goes
with its metadata and its Merkle proof into one cell, and every cell is sealed under the one key
of the message. What a receiver takes out of an opened cell is that metadata and that part of
the plaintext.

- `Prepared`, `prepareMessage_eq`: the cells of a plaintext and what a receiver reads in them;
- `SealedAs`: a message with the cells, the header and the key it was sealed from;
- `sealMessage_eq`, `sealMessage_sealed`: every plaintext is sealed, and only so.
-/

namespace P2Party

open Base PqHealing PqHealingRuntime

namespace Session

variable {L : LibCrypto}

/-! ## Chunks of a plaintext -/

theorem chunkCount_pos (totalSize : Nat) : 0 < chunkCount totalSize :=
  Nat.le_max_left _ _

/-- The chunks reach the end of the plaintext. -/
theorem le_chunkCount_mul (totalSize : Nat) : totalSize ≤ chunkCount totalSize * CHUNK_LEN := by
  unfold chunkCount
  simp only [CHUNK_LEN]
  omega

/-- A buffer has fewer chunks than 48 artifacts can place. -/
theorem chunkCount_le {totalSize : Nat} (h : totalSize ≤ MAX_SAFE_INTEGER) :
    chunkCount totalSize ≤ 2 ^ 48 := by
  unfold chunkCount
  simp only [CHUNK_LEN, MAX_SAFE_INTEGER] at h ⊢
  omega

/-- The part of the plaintext that a chunk carries. -/
def partAt (plaintext : Bytes) (index : Nat) : Bytes :=
  slice plaintext (index * CHUNK_LEN) (usefulLength plaintext.length index)

theorem length_partAt (plaintext : Bytes) (index : Nat) :
    (partAt plaintext index).length = usefulLength plaintext.length index := by
  unfold partAt slice usefulLength
  rw [List.length_take, List.length_drop]
  omega

/-- The parts, one after another, are the plaintext. -/
theorem flatten_parts (plaintext : Bytes) :
    ((List.range (chunkCount plaintext.length)).map (partAt plaintext)).flatten = plaintext := by
  have hpart : ∀ i, partAt plaintext i = sliceAt plaintext CHUNK_LEN i := by
    intro i
    unfold partAt usefulLength sliceAt slice
    rw [List.take_eq_take_iff, List.length_drop]
    omega
  calc ((List.range (chunkCount plaintext.length)).map (partAt plaintext)).flatten
      = (List.range (chunkCount plaintext.length)).flatMap (sliceAt plaintext CHUNK_LEN) := by
        rw [← List.flatMap_def]
        exact List.flatMap_congr fun i _ => hpart i
    _ = plaintext := by
        rw [flatMap_sliceAt, List.take_of_length_le (le_chunkCount_mul _)]

theorem paddedChunk_eq (plaintext : Bytes) (index : Nat) (padding : RandomBytes CHUNK_LEN) :
    paddedChunk plaintext index padding =
      partAt plaintext index ++ padding.val.drop (usefulLength plaintext.length index) := rfl

theorem length_paddedChunk (plaintext : Bytes) (index : Nat) (padding : RandomBytes CHUNK_LEN) :
    (paddedChunk plaintext index padding).length = CHUNK_LEN := by
  have hle : usefulLength plaintext.length index ≤ CHUNK_LEN := Nat.min_le_left _ _
  rw [paddedChunk_eq, List.length_append, length_partAt, List.length_drop, padding.property]
  omega

theorem take_paddedChunk (plaintext : Bytes) (index : Nat) (padding : RandomBytes CHUNK_LEN) :
    (paddedChunk plaintext index padding).take (usefulLength plaintext.length index) =
      partAt plaintext index := by
  rw [paddedChunk_eq, List.take_left' (length_partAt plaintext index)]

/-! ## What an opened cell says -/

section Cell

variable {metadata proof chunk : Bytes}

/-- The receiver's note of the leaf does not touch the metadata. -/
theorem take_withReceipt (h : metadata.length = METADATA_LEN) :
    (withReceipt L (metadata ++ (proof ++ chunk))).take METADATA_LEN = metadata := by
  unfold withReceipt
  rw [List.take_left' h, List.take_left' h]

/-- Nor does it touch the chunk. -/
theorem drop_withReceipt (h : metadata.length = METADATA_LEN) (hproof : proof.length = PROOF_LEN) :
    (withReceipt L (metadata ++ (proof ++ chunk))).drop (METADATA_LEN + PROOF_LEN) = chunk := by
  have hleaf : (chunkLeaf L (metadata ++ (proof ++ chunk))).length = HASH_BYTES := length_hashMerkleLeaf _
  have hrest : proof.drop HASH_BYTES ++ chunk = (proof ++ chunk).drop HASH_BYTES :=
    (List.drop_append_of_le_length (by rw [hproof]; decide)).symm
  have hlong : (proof.drop HASH_BYTES).length = PROOF_LEN - HASH_BYTES := by
    rw [List.length_drop, hproof]
  unfold withReceipt
  rw [List.take_left' h, ← List.drop_drop, List.drop_left' h, ← List.drop_drop, List.drop_left' h, ← hrest,
    ← List.append_assoc, List.drop_left']
  rw [List.length_append, hleaf, hlong]
  decide

end Cell

/-- The name of a session's chunks reads back as it was written. -/
theorem sessionName_reads :
    sanitizeName (utf8Decode (nameField SESSION_METADATA_NAME)) = SESSION_METADATA_NAME := by
  decide +kernel

theorem sessionMetadata_fits {plaintext : Bytes} (hsize : plaintext.length ≤ MAX_SAFE_INTEGER) {index : Nat}
    (hindex : index < chunkCount plaintext.length) :
    MetadataFits (sessionMetadata (L.sha512 plaintext) plaintext.length index) 0 := by
  have hcount := chunkCount_le hsize
  have huseful : usefulLength plaintext.length index ≤ CHUNK_LEN := Nat.min_le_left _ _
  have hbound : MAX_SAFE_INTEGER < 256 ^ 8 := by decide
  exact {
    schemaVersion := show 1 < 256 ^ 8 by decide
    messageType := show MESSAGE_TYPE_UNKNOWN < 256 by decide
    hash := L.length_sha512 _
    totalSize := Nat.lt_of_le_of_lt hsize hbound
    date := rfl
    time := Nat.zero_le _
    chunkStartIndex := show 0 < 256 ^ 8 by decide
    chunkEndIndex := Nat.lt_of_le_of_lt huseful (by decide)
    chunkIndex := Nat.lt_of_lt_of_le hindex (Nat.le_trans hcount (by decide)) }

/-! ## Preparing a message -/

/-- The cells of a plaintext under a root: each one proves its leaf, and an opened one gives back
the metadata of its chunk and its part of the plaintext. -/
structure Prepared (L : LibCrypto) (plaintext root : Bytes) (cell : Nat → Bytes) : Prop where
  rootLength : root.length = HASH_BYTES
  proves : ∀ i < chunkCount plaintext.length, ProvesLeaf L root (cell i)
  metadata : ∀ i < chunkCount plaintext.length,
    deserializeMetadata ((withReceipt L (cell i)).take METADATA_LEN) =
      .ok (sessionMetadata (L.sha512 plaintext) plaintext.length i)
  part : ∀ i < chunkCount plaintext.length,
    ((withReceipt L (cell i)).drop (METADATA_LEN + PROOF_LEN)).take (usefulLength plaintext.length i) =
      partAt plaintext i

/-- A chunk among the leaves has a proof that makes a proving cell of any metadata. -/
theorem getMerkleProof_proves {leaves : List Bytes} {root chunk : Bytes}
    (hdigests : Digests leaves) (hsmall : leaves.length ≤ 2 ^ 48)
    (hroot : getMerkleRoot L leaves.flatten = .ok root) (hleaf : hashMerkleLeaf L chunk ∈ leaves)
    (hchunk : chunk.length = CHUNK_LEN) (padding : RandomBytes PROOF_LEN) :
    ∃ proof, getMerkleProof L leaves.flatten (hashMerkleLeaf L chunk) padding = .ok proof ∧
      proof.length = PROOF_LEN ∧ ∀ metadata, metadata.length = METADATA_LEN →
        ProvesLeaf L root (metadata ++ (proof ++ chunk)) := by
  obtain ⟨root', proof, hroot', hproof, hlength, -, haccepted⟩ :=
    merkle_completeness (List.ne_nil_of_mem hleaf) hdigests hsmall hleaf padding
  obtain rfl := Except.ok.inj (hroot'.symm.trans hroot)
  refine ⟨proof, hproof, hlength, fun metadata hmetadata => ?_⟩
  obtain ⟨hwhole, hfits, hverifies⟩ := haccepted metadata chunk hmetadata
  have hdrop : (metadata ++ (proof ++ chunk)).drop (METADATA_LEN + PROOF_LEN) = chunk := by
    rw [← List.drop_drop, List.drop_left' hmetadata, List.drop_left' hlength]
  refine ⟨?_, hwhole, hfits, ?_⟩
  · rw [List.length_append, List.length_append, hmetadata, hlength, hchunk]
    rfl
  · rw [chunkLeaf, hdrop]
    exact hverifies

/-- Every plaintext a buffer can hold is prepared. -/
theorem prepareMessage_eq {plaintext : Bytes} (hsize : plaintext.length ≤ MAX_SAFE_INTEGER)
    (ρ : EncryptRandomness) : ∃ root cell,
      prepareMessage L plaintext ρ = .ok ⟨root, (List.range (chunkCount plaintext.length)).map cell⟩ ∧
      Prepared L plaintext root cell := by
  let chunk : Nat → Bytes := fun i => paddedChunk plaintext i (ρ.chunk i)
  let leaves := (List.range (chunkCount plaintext.length)).map fun i => hashMerkleLeaf L (chunk i)
  have hleaf : ∀ i < chunkCount plaintext.length, hashMerkleLeaf L (chunk i) ∈ leaves := fun i hi =>
    List.mem_map_of_mem (List.mem_range.mpr hi)
  have hdigests : Digests leaves := by
    intro hash hhash
    obtain ⟨i, -, rfl⟩ := List.mem_map.mp hhash
    exact length_hashMerkleLeaf _
  have hsmall : leaves.length ≤ 2 ^ 48 := by
    rw [List.length_map, List.length_range]
    exact chunkCount_le hsize
  have hflat : ((List.range (chunkCount plaintext.length)).map chunk).flatMap (hashMerkleLeaf L) =
      leaves.flatten := by
    rw [List.flatMap_def, List.map_map]
    rfl
  have hfirst := hleaf 0 (chunkCount_pos _)
  obtain ⟨root, -, hroot, -⟩ :=
    merkle_completeness (List.ne_nil_of_mem hfirst) hdigests hsmall hfirst (ρ.proof 0)
  have hproofs : ∀ i, ∃ proof, i < chunkCount plaintext.length →
      getMerkleProof L leaves.flatten (hashMerkleLeaf L (chunk i)) (ρ.proof i) = .ok proof ∧
      proof.length = PROOF_LEN ∧ ∀ metadata, metadata.length = METADATA_LEN →
        ProvesLeaf L root (metadata ++ (proof ++ chunk i)) := by
    intro i
    by_cases hi : i < chunkCount plaintext.length
    · obtain ⟨proof, hproof⟩ := getMerkleProof_proves hdigests hsmall hroot (hleaf i hi)
        (length_paddedChunk plaintext i _) (ρ.proof i)
      exact ⟨proof, fun _ => hproof⟩
    · exact ⟨[], fun h => absurd h hi⟩
  choose proof hproof using hproofs
  let metadata : Nat → Bytes := fun i =>
    metadataBytes (sessionMetadata (L.sha512 plaintext) plaintext.length i) 0
  have hmetadata : ∀ i < chunkCount plaintext.length, (metadata i).length = METADATA_LEN := fun i hi =>
    length_metadataBytes (sessionMetadata_fits hsize hi).hash _
  refine ⟨root, fun i => metadata i ++ (proof i ++ chunk i), ?_, length_getMerkleRoot hdigests hroot,
    fun i hi => (hproof i hi).2.2 _ (hmetadata i hi), fun i hi => ?_, fun i hi => ?_⟩
  · unfold prepareMessage
    dsimp only
    rw [hflat, hroot, ok_bind, mapM_zipIdx_ok (h := fun i => metadata i ++ (proof i ++ chunk i))]
    · rfl
    · intro i hi
      obtain ⟨hgot, hlength, -⟩ := hproof i hi
      rw [hgot, ok_bind, serializeMetadata_eq (sessionMetadata_fits hsize hi), ok_bind, cellPlaintext,
        LibCrypto.pad_of_length hlength]
      rfl
  · rw [take_withReceipt (hmetadata i hi), deserializeMetadata_eq (sessionMetadata_fits hsize hi)]
    exact congrArg (fun name => Except.ok
      { sessionMetadata (L.sha512 plaintext) plaintext.length i with name }) sessionName_reads
  · rw [drop_withReceipt (hmetadata i hi) (hproof i hi).2.1]
    exact take_paddedChunk plaintext i (ρ.chunk i)

/-! ## Sealing a message -/

/-- A message with what it was sealed from: the cells of a plaintext, each in a frame of its own
under the one header, epoch and key of the message. -/
structure SealedAs (L : LibCrypto) (plaintext : Bytes) (header : RatchetHeader) (epoch : Nat)
    (key : Bytes) (nonce : Nat → Nonce) (message : EncryptedSessionMessage) (cell : Nat → Bytes) : Prop
    extends Prepared L plaintext message.root cell where
  version : message.protocolVersion = PROTOCOL_VERSION
  fits : HeaderFits header epoch
  frames : message.frames = (List.range (chunkCount plaintext.length)).map fun i =>
    sealedChunk L key header epoch (cell i) message.root (nonce i)

variable {s : Session} {plaintext : Bytes} {ρ : EncryptRandomness} {message : EncryptedSessionMessage}
  {next : RatchetState}

/-- The epoch a session seals under. -/
def epoch (s : Session) : Nat := s.pq.currentMessageContext.epoch

/-- The key of a session's next message: its message key combined with the current PQ root. -/
def combined (L : LibCrypto) (s : Session) (messageKey : Bytes) : Bytes :=
  combinedKey L messageKey s.pq.currentMessageContext s.state.header

/-- The context of a well-formed session has its lengths. -/
theorem WellFormed.context (h : s.WellFormed) : s.pq.currentMessageContext.rootKey.length = 32 ∧
    s.pq.currentMessageContext.binding.length = 32 ∧ s.epoch ≤ MAX_U64 := by
  refine ⟨?_, h.runtime.binding_length, h.runtime.machine.epoch⟩
  show s.pq.messageRoot.length = 32
  rw [h.runtime.messageRoot_eq]
  exact h.runtime.machine.root

/-- A message key is combined when the header fits its frame. -/
theorem combine_eq (h : s.WellFormed) (hfits : HeaderFits s.state.header s.epoch) {messageKey : Bytes}
    (hkey : messageKey.length = 32) :
    combinePqMessageKey L messageKey s.pq.currentMessageContext s.state.header =
      .ok (s.combined L messageKey) :=
  combinePqMessageKey_eq hkey h.context.1 h.context.2.1 hfits

/-- A chunk that was sealed has a header that fits its frame. -/
theorem headerFits_of_sealChunk {messageKey chunk root frame : Bytes} {header : RatchetHeader}
    {context : PqMessageKeyContext} {nonce : Nonce}
    (h : sealChunk L messageKey header chunk root (some context) nonce = .ok frame) :
    HeaderFits header context.epoch := by
  unfold sealChunk at h
  obtain ⟨_, -, h⟩ := except_bind_eq_ok.mp h
  obtain ⟨frameHeader, hpack, -⟩ := except_bind_eq_ok.mp h
  exact (headerFits_of_pack hpack).1

/-- Every plaintext is sealed once the ratchet gives a key whose header fits. -/
theorem sealMessage_eq (h : s.WellFormed) (hsize : plaintext.length ≤ MAX_SAFE_INTEGER)
    (hfits : HeaderFits s.state.header s.epoch) {messageKey : Bytes}
    (hsent : RatchetSent L s.state next messageKey) (ρ : EncryptRandomness) :
    ∃ message cell, sealMessage L s plaintext ρ = .ok (message, next) ∧
      SealedAs L plaintext s.state.header s.epoch (s.combined L messageKey) ρ.nonce message cell := by
  obtain ⟨chainKey, hchain, rfl, rfl⟩ := hsent.step
  obtain ⟨root, cell, hprepared, hcells⟩ := prepareMessage_eq (L := L) hsize ρ
  have hrun := ratchetEncrypt_run L hchain
  have hkey : (kdfCk L chainKey).2.length = 32 := (length_kdfCk chainKey).2
  refine ⟨⟨PROTOCOL_VERSION, root, (List.range (chunkCount plaintext.length)).map fun i =>
    sealedChunk L (s.combined L (kdfCk L chainKey).2) s.state.header s.epoch (cell i) root (ρ.nonce i)⟩,
    cell, ?_, ⟨hcells, rfl, hfits, rfl⟩⟩
  unfold sealMessage
  rw [cloneRatchet_eq h.ratchet.canonical, hprepared, ok_bind]
  dsimp only
  rw [hrun]
  dsimp only
  rw [mapM_zipIdx_ok fun i _ => sealChunk_eq hcells.rootLength hfits hkey h.context.1 h.context.2.1]
  rfl

/-- What was sealed was prepared and sealed cell by cell, after one step of the ratchet. -/
theorem sealMessage_steps (h : s.WellFormed) (hseal : sealMessage L s plaintext ρ = .ok (message, next)) :
    ∃ prepared messageKey frames, prepareMessage L plaintext ρ = .ok prepared ∧
      RatchetSent L s.state next messageKey ∧
      (prepared.plaintexts.zipIdx.mapM fun (chunk, index) => sealChunk L messageKey s.state.header chunk
        prepared.root (some s.pq.currentMessageContext) (ρ.nonce index)) = .ok frames := by
  unfold sealMessage at hseal
  rw [cloneRatchet_eq h.ratchet.canonical] at hseal
  obtain ⟨prepared, hprepared, hseal⟩ := except_bind_eq_ok.mp hseal
  cases hchain : s.state.sendingChainKey with
  | none =>
    have herr : (ratchetEncrypt L).run s.state = .error (.error "ratchet: no sending chain") s.state := by
      unfold ratchetEncrypt
      rw [run_get_bind, hchain]
      rfl
    rw [herr] at hseal
    cases hseal
  | some chainKey =>
    rw [ratchetEncrypt_run L hchain] at hseal
    obtain ⟨frames, hframes, hseal⟩ := except_bind_eq_ok.mp hseal
    obtain ⟨-, rfl⟩ := Prod.mk.inj (except_pure_eq_ok.mp hseal)
    exact ⟨prepared, _, frames, hprepared, ⟨chainKey, hchain, rfl, rfl⟩, hframes⟩

/-- A plaintext that was sealed was sealed from its cells, with one step of the ratchet. -/
theorem sealMessage_sealed (h : s.WellFormed) (hsize : plaintext.length ≤ MAX_SAFE_INTEGER)
    (hseal : sealMessage L s plaintext ρ = .ok (message, next)) :
    ∃ messageKey cell, RatchetSent L s.state next messageKey ∧
      SealedAs L plaintext s.state.header s.epoch (s.combined L messageKey) ρ.nonce message cell := by
  obtain ⟨prepared, messageKey, frames, hprepared, hsent, hframes⟩ := sealMessage_steps h hseal
  obtain ⟨root, cell, hprepared', -⟩ := prepareMessage_eq (L := L) hsize ρ
  obtain rfl := Except.ok.inj (hprepared.symm.trans hprepared')
  -- the first frame was packed, so the header fits
  have hfits : HeaderFits s.state.header s.epoch := by
    have hfirst : (cell 0, 0) ∈ ((List.range (chunkCount plaintext.length)).map cell).zipIdx :=
      List.mem_zipIdx_iff_getElem?.mpr (by simp [chunkCount_pos])
    obtain ⟨frame, -, hframe⟩ := mapM_isOk hframes hfirst
    exact headerFits_of_sealChunk hframe
  obtain ⟨message', cell', hseal', hsealed⟩ := sealMessage_eq h hsize hfits hsent ρ
  obtain ⟨rfl, -⟩ := Prod.mk.inj (Except.ok.inj (hseal.symm.trans hseal'))
  exact ⟨messageKey, cell', hsent, hsealed⟩

end Session

end P2Party
