import P2Party.Messages.Merkle
import P2Party.Messages.MerkleCompleteness
import P2Party.Messages.Split

/-!
# Which geometries can be sealed

A cell is the metadata of a chunk, its Merkle proof and its data. The plan of a send accepts
every chunk size above a floor and up to `CHUNK_LEN`, and a split stages chunks of that size;
`sendChunks` then refuses a cell that is not `DECRYPTED_LEN` bytes long, and the sealer of
scheduled slots seals it as it is. The metadata and the proof have one length each, so of all
the sizes the plan accepts only the largest can be sent.

- `outboundProof`, `sendChunkCell`, `sealSlotCell`: how the two senders make a frame;
- `cell_length`: the length of a staged cell;
- `send_geometry`: a staged chunk is sent just when the chunk size is `CHUNK_LEN`.
-/

namespace P2Party

open Base PqHealing

variable (L : LibCrypto)

/-! ## The two senders -/

/-- What a transfer seals with, as the ratchet and the edge hand it out. -/
structure CellCipher where
  messageKey : Bytes
  header : RatchetHeader
  pqContext : Option PqMessageKeyContext
  key : messageKey.length = 32
  fits : HeaderFits header ((pqContext.map (·.epoch)).getD 0)
  context : ∀ c, pqContext = some c → c.rootKey.length = 32 ∧ c.binding.length = 32

/-- The proof of a cell (handleSendMessage.ts:204-218, 992-1004): computed for a record that
has none yet, and else taken from it; `stored` is the proof in the record. -/
def outboundProof (chunkHashes leafHash stored : Bytes) (padding : RandomBytes PROOF_LEN) :
    Except JsError Bytes := do
  let proof ← if stored.length = 0 then getMerkleProof L chunkHashes leafHash padding else .ok stored
  demand (proof.length ≤ PROOF_LEN) (.rangeError "offset is out of bounds")
  return LibCrypto.pad PROOF_LEN proof

/-- The frame `sendChunks` makes of a staged chunk (handleSendMessage.ts:204-319). -/
def sendChunkCell (cipher : CellCipher) (chunkHashes merkleRoot : Bytes) (chunk : StagedChunk)
    (stored : Bytes) (padding : RandomBytes PROOF_LEN) (nonce : Nonce) : Except JsError Bytes := do
  let merkleProof ← outboundProof L chunkHashes chunk.leafHash stored padding
  demand (DECRYPTED_LEN = chunk.metadata.length + merkleProof.length + chunk.data.length)
    (.error "Outbound staged chunk has invalid cell length")
  sealChunk L cipher.messageKey cipher.header (chunk.metadata ++ (merkleProof ++ chunk.data)) merkleRoot
    cipher.pqContext nonce

/-- The frame the sealer of scheduled slots makes of a staged chunk
(handleSendMessage.ts:985-1047), which does not look at the length. -/
def sealSlotCell (cipher : CellCipher) (chunkHashes merkleRoot : Bytes) (chunk : StagedChunk)
    (stored : Bytes) (padding : RandomBytes PROOF_LEN) (nonce : Nonce) : Except JsError Bytes := do
  let merkleProof ← outboundProof L chunkHashes chunk.leafHash stored padding
  sealChunk L cipher.messageKey cipher.header (chunk.metadata ++ (merkleProof ++ chunk.data)) merkleRoot
    cipher.pqContext nonce

/-! ## Proofs and roots of staged chunks -/

variable {L}

theorem length_merkleRootLoop (rounds : Nat) {level : List Bytes} (hne : level ≠ [])
    (h : Digests level) : (merkleRootLoop L rounds level).length = HASH_BYTES := by
  induction rounds generalizing level with
  | zero =>
    cases level with
    | nil => exact absurd rfl hne
    | cons a rest => exact h a List.mem_cons_self
  | succ rounds ih =>
    match level, hne, h with
    | [a], _, h => exact h a List.mem_cons_self
    | a :: b :: rest, _, h => exact ih (List.cons_ne_nil _ _) h.parentLevel

/-- The root of digests is a digest. -/
theorem length_getMerkleRoot {leaves : List Bytes} (h : Digests leaves) {root : Bytes}
    (hroot : getMerkleRoot L leaves.flatten = .ok root) : root.length = HASH_BYTES := by
  have hlength := length_flatten_digests h
  have hcount : leaves.flatten.length / HASH_BYTES = leaves.length := by
    rw [hlength]
    exact Nat.mul_div_cancel _ (by decide)
  unfold getMerkleRoot at hroot
  obtain ⟨_, -, hroot⟩ := except_bind_eq_ok.mp hroot
  obtain ⟨_, hsome, hroot⟩ := except_bind_eq_ok.mp hroot
  rw [demand_eq_ok, hcount] at hsome
  rw [hcount] at hroot
  split at hroot
  · cases hroot
    rw [hlength, ‹leaves.length = 1›, Nat.one_mul]
  · rw [unpackHashes_flatten h] at hroot
    cases hroot
    refine length_merkleRootLoop _ (fun hnil => hsome ?_) h
    rw [hnil]
    rfl

/-- A leaf has a proof of the fixed length. -/
theorem getMerkleProof_isOk {leaves : List Bytes} (h : Digests leaves) (hsmall : leaves.length ≤ 2 ^ 48)
    {leaf : Bytes} (hleaf : leaf ∈ leaves) (padding : RandomBytes PROOF_LEN) :
    ∃ proof, getMerkleProof L leaves.flatten leaf padding = .ok proof ∧ proof.length = PROOF_LEN := by
  by_cases htwo : 2 ≤ leaves.length
  · obtain ⟨k, -, hpos, hfits⟩ := @proof_fits L _ h htwo hsmall _ hleaf
    exact ⟨_, (getMerkle_many h htwo hleaf padding hpos hfits).2, length_fixedProof hfits⟩
  · have hpos : 0 < leaves.length := List.length_pos_of_mem hleaf
    obtain ⟨only, rfl⟩ := List.length_eq_one_iff.mp (show leaves.length = 1 by omega)
    obtain rfl := List.mem_singleton.mp hleaf
    have hdigest : leaf.length = HASH_BYTES := h leaf hleaf
    refine ⟨_, getMerkleProof_single ?_ hdigest (by decide) padding, length_fixedProof ?_⟩
    · rw [List.flatten_cons, List.flatten_nil, List.append_nil, hdigest]
    · rw [artifact, List.length_append, hdigest]
      decide

/-- Both senders have a proof of the fixed length, computed or stored. -/
theorem outboundProof_isOk {leaves : List Bytes} (h : Digests leaves) (hsmall : leaves.length ≤ 2 ^ 48)
    {leaf : Bytes} (hleaf : leaf ∈ leaves) {stored : Bytes}
    (hstored : stored.length = 0 ∨ stored.length = PROOF_LEN) (padding : RandomBytes PROOF_LEN) :
    ∃ proof, outboundProof L leaves.flatten leaf stored padding = .ok proof ∧ proof.length = PROOF_LEN := by
  unfold outboundProof
  rcases hstored with hnone | hsome
  · obtain ⟨proof, hproof, hlength⟩ := getMerkleProof_isOk (L := L) h hsmall hleaf padding
    rw [if_pos hnone, hproof, ok_bind]
    dsimp only
    rw [demand_of (Nat.le_of_eq hlength), ok_bind]
    exact ⟨_, rfl, LibCrypto.length_pad _ _⟩
  · rw [if_neg (by rw [hsome]; decide), ok_bind]
    dsimp only
    rw [demand_of (Nat.le_of_eq hsome), ok_bind]
    exact ⟨_, rfl, LibCrypto.length_pad _ _⟩

/-- A cell of any length is sealed, and its frame is longer by a header and a tag. -/
theorem sealChunk_isOk (cipher : CellCipher) (cell : Bytes) {merkleRoot : Bytes}
    (hroot : merkleRoot.length = HASH_BYTES) (nonce : Nonce) :
    ∃ frame, sealChunk L cipher.messageKey cipher.header cell merkleRoot cipher.pqContext nonce = .ok frame ∧
      frame.length = CHUNK_FRAME_HEADER_LEN + (cell.length + 16) := by
  have hfits := cipher.fits
  have hlength : ∀ key epoch, (sealedChunk L key cipher.header epoch cell merkleRoot nonce).length =
      CHUNK_FRAME_HEADER_LEN + (cell.length + 16) := by
    intro key epoch
    rw [sealedChunk, List.length_append, length_chunkHeader hfits.dhPub nonce.property, L.length_aeadSeal]
  cases hcontext : cipher.pqContext with
  | none =>
    rw [hcontext] at hfits
    exact ⟨_, sealChunk_plain hroot hfits, hlength _ _⟩
  | some context =>
    rw [hcontext] at hfits
    obtain ⟨hrootKey, hbinding⟩ := cipher.context context hcontext
    exact ⟨_, sealChunk_eq hroot hfits cipher.key hrootKey hbinding, hlength _ _⟩

/-! ## Staged chunks -/

section Staged

variable {message : Outgoing} {minChunks chunkSize availableSpace : Nat} {fill : ℚ} {time : TimeValue}
  {coins : SplitCoins chunkSize}

/-- The lengths in a staged chunk. -/
theorem staged_lengths (h : Splittable message.bytes.length minChunks chunkSize fill availableSpace)
    {chunk : StagedChunk} (hchunk : chunk ∈ splitChunks L message minChunks fill coins time) :
    chunk.metadata.length = METADATA_LEN ∧ chunk.data.length = chunkSize ∧
      chunk.leafHash.length = HASH_BYTES := by
  have hb := splitBounds h.chunk h.fraction h.size.2
  have hm := messageMetadata_fits L coins time h.size.2
  have hsafe := planned_le_safe h
  unfold splitChunks at hchunk
  obtain ⟨i, hi, rfl⟩ := List.mem_map.mp hchunk
  have hi : i < plannedChunks message.bytes.length minChunks chunkSize fill := List.mem_range.mp hi
  refine ⟨length_metadataBytes (metadataAt_fits coins hb hm (by omega)).hash _, ?_, L.length_sha512 _⟩
  have hstart := startAt_lt coins hb i
  have hslice := length_sliceAt message.bytes (maxBytesToCopy chunkSize fill) i
  have hfits := hb.fits
  have hnoise := (coins.noise i).property
  show (dataAt coins message.bytes _ _ i).length = chunkSize
  unfold dataAt overwrite
  rw [List.length_append, List.length_append, List.length_take, List.length_drop, hnoise]
  omega

/-- Only the largest chunks fill a cell. -/
theorem cell_length (h : Splittable message.bytes.length minChunks chunkSize fill availableSpace)
    {chunk : StagedChunk} (hchunk : chunk ∈ splitChunks L message minChunks fill coins time) :
    chunk.metadata.length + PROOF_LEN + chunk.data.length = DECRYPTED_LEN ↔ chunkSize = CHUNK_LEN := by
  obtain ⟨hmetadata, hdata, -⟩ := staged_lengths h hchunk
  have hcell : METADATA_LEN + PROOF_LEN + CHUNK_LEN = DECRYPTED_LEN := rfl
  rw [hmetadata, hdata, ← hcell]
  constructor
  · exact fun heq => Nat.add_left_cancel heq
  · rintro rfl
    rfl

/-- A split makes fewer chunks than 48 artifacts can place. -/
theorem planned_small (h : Splittable message.bytes.length minChunks chunkSize fill availableSpace) :
    plannedChunks message.bytes.length minChunks chunkSize fill ≤ 2 ^ 48 := by
  have hsafe := h.safe
  unfold stagingBytes at hsafe
  have hlarge : 2 ^ 10 ≤ chunkSize + METADATA_LEN + PROOF_LEN + OUTBOUND_CHUNK_RECORD_OVERHEAD :=
    Nat.le_trans (by decide) (Nat.le_add_left OUTBOUND_CHUNK_RECORD_OVERHEAD _)
  have hmul := Nat.mul_le_mul_left (plannedChunks message.bytes.length minChunks chunkSize fill) hlarge
  simp only [MAX_SAFE_INTEGER] at hsafe
  omega

/-- The hashes of staged chunks. -/
theorem staged_hashes (h : Splittable message.bytes.length minChunks chunkSize fill availableSpace) :
    Digests ((splitChunks L message minChunks fill coins time).map (·.leafHash)) := by
  intro hash hhash
  obtain ⟨chunk, hchunk, rfl⟩ := List.mem_map.mp hhash
  exact (staged_lengths h hchunk).2.2

/-- What both senders make of a staged chunk. -/
theorem sends_staged (h : Splittable message.bytes.length minChunks chunkSize fill availableSpace)
    {chunk : StagedChunk} (hchunk : chunk ∈ splitChunks L message minChunks fill coins time)
    {merkleRoot : Bytes} (hroot : merkleRoot.length = HASH_BYTES) (cipher : CellCipher) {stored : Bytes}
    (hstored : stored.length = 0 ∨ stored.length = PROOF_LEN) (padding : RandomBytes PROOF_LEN)
    (nonce : Nonce) :
    ∃ frame, frame.length =
        CHUNK_FRAME_HEADER_LEN + (chunk.metadata.length + (PROOF_LEN + chunk.data.length) + 16) ∧
      sealSlotCell L cipher ((splitChunks L message minChunks fill coins time).flatMap (·.leafHash))
        merkleRoot chunk stored padding nonce = .ok frame ∧
      sendChunkCell L cipher ((splitChunks L message minChunks fill coins time).flatMap (·.leafHash))
        merkleRoot chunk stored padding nonce =
        if chunkSize = CHUNK_LEN then .ok frame
        else .error (.error "Outbound staged chunk has invalid cell length") := by
  have hsmall : ((splitChunks L message minChunks fill coins time).map (·.leafHash)).length ≤ 2 ^ 48 := by
    rw [List.length_map, splitChunks, List.length_map, List.length_range]
    exact planned_small h
  obtain ⟨proof, hproof, hlength⟩ := outboundProof_isOk (L := L) (staged_hashes h) hsmall
    (List.mem_map.mpr ⟨chunk, hchunk, rfl⟩) hstored padding
  obtain ⟨frame, hframe, hframeLength⟩ := sealChunk_isOk (L := L) cipher
    (chunk.metadata ++ (proof ++ chunk.data)) hroot nonce
  rw [List.length_append, List.length_append, hlength] at hframeLength
  refine ⟨frame, hframeLength, ?_, ?_⟩
  · unfold sealSlotCell
    rw [List.flatMap_def, hproof, ok_bind]
    exact hframe
  · have hcell := cell_length h hchunk
    unfold sendChunkCell
    rw [List.flatMap_def, hproof, ok_bind, hlength, demand_bind]
    by_cases hsize : chunkSize = CHUNK_LEN
    · rw [if_pos hsize, if_pos (hcell.mpr hsize).symm]
      exact hframe
    · rw [if_neg hsize, if_neg fun heq => hsize (hcell.mp heq.symm)]

end Staged

/-! ## The accepted geometries -/

/-- A staged chunk that both senders make a whole frame of, with any cipher and with the proof
of any pass before. -/
structure Sendable (L : LibCrypto) (chunkHashes merkleRoot : Bytes) (chunk : StagedChunk) : Prop where
  length : chunk.metadata.length + PROOF_LEN + chunk.data.length = DECRYPTED_LEN
  immediate : ∀ (cipher : CellCipher) (stored : Bytes) (padding : RandomBytes PROOF_LEN) (nonce : Nonce),
    stored.length = 0 ∨ stored.length = PROOF_LEN →
    ∃ frame, sendChunkCell L cipher chunkHashes merkleRoot chunk stored padding nonce = .ok frame ∧
      frame.length = WIRE_CHUNK_FRAME_LEN
  scheduled : ∀ (cipher : CellCipher) (stored : Bytes) (padding : RandomBytes PROOF_LEN) (nonce : Nonce),
    stored.length = 0 ∨ stored.length = PROOF_LEN →
    ∃ frame, sealSlotCell L cipher chunkHashes merkleRoot chunk stored padding nonce = .ok frame ∧
      frame.length = WIRE_CHUNK_FRAME_LEN

/-- For every message, number of chunks, chunk size and fill fraction that the plan and the
estimate accept: the split stages its chunks, and they can be sent just when the chunk size is
`CHUNK_LEN`; with any other size each of them is refused by `sendChunks`, and the scheduled
sealer makes a frame of it that is too short. -/
theorem send_geometry {message : Outgoing} {minChunks chunkSize totalChunks bytes : Nat} {fill : ℚ}
    (hplan : planMessageChunkCount message.bytes.length minChunks chunkSize fill = .ok totalChunks)
    (hestimate : estimateOutboundStagingBytes message.bytes.length totalChunks chunkSize = .ok (some bytes))
    (time : TimeValue) (coins : SplitCoins chunkSize) :
    ∃ chunks merkleRoot, chunks.length = totalChunks ∧
      splitLoop L coins (messageMetadata L message coins time) message.bytes
        (maxChunkStartIndex chunkSize fill) (maxBytesToCopy chunkSize fill) totalChunks 0 0 = .ok chunks ∧
      getMerkleRoot L (chunks.flatMap (·.leafHash)) = .ok merkleRoot ∧
      ((∀ chunk ∈ chunks, Sendable L (chunks.flatMap (·.leafHash)) merkleRoot chunk) ↔
        chunkSize = CHUNK_LEN) ∧
      (chunkSize ≠ CHUNK_LEN → ∀ chunk ∈ chunks, ∀ (cipher : CellCipher) (padding : RandomBytes PROOF_LEN)
        (nonce : Nonce),
        sendChunkCell L cipher (chunks.flatMap (·.leafHash)) merkleRoot chunk [] padding nonce =
            .error (.error "Outbound staged chunk has invalid cell length") ∧
          ∃ frame, sealSlotCell L cipher (chunks.flatMap (·.leafHash)) merkleRoot chunk [] padding nonce =
              .ok frame ∧ frame.length < WIRE_CHUNK_FRAME_LEN) := by
  obtain ⟨h, rfl⟩ := accepted_splittable hplan hestimate
  have hcount : 1 ≤ plannedChunks message.bytes.length minChunks chunkSize fill :=
    Nat.le_trans h.count (Nat.le_max_left _ _)
  have hlength : (splitChunks L message minChunks fill coins time).length =
      plannedChunks message.bytes.length minChunks chunkSize fill := by
    rw [splitChunks, List.length_map, List.length_range]
  have hne : splitChunks L message minChunks fill coins time ≠ [] :=
    List.ne_nil_of_length_pos (by omega)
  obtain ⟨merkleRoot, hroot⟩ := getMerkleRoot_isOk L (fun c hc => (staged_lengths h hc).2.2) hne
  have hrootLength : merkleRoot.length = HASH_BYTES := by
    rw [List.flatMap_def] at hroot
    exact length_getMerkleRoot (staged_hashes h) hroot
  refine ⟨_, merkleRoot, hlength, splitLoop_planned L time coins h, hroot, ⟨fun hall => ?_, fun hsize => ?_⟩,
    fun hsize chunk hchunk cipher padding nonce => ?_⟩
  · obtain ⟨chunk, hchunk⟩ := List.exists_mem_of_ne_nil _ hne
    exact (cell_length h hchunk).mp (hall chunk hchunk).length
  · intro chunk hchunk
    have hcell := (cell_length h hchunk).mpr hsize
    have hwire : CHUNK_FRAME_HEADER_LEN + (chunk.metadata.length + (PROOF_LEN + chunk.data.length) + 16) =
        WIRE_CHUNK_FRAME_LEN := by
      rw [← Nat.add_assoc chunk.metadata.length, hcell]
      rfl
    refine ⟨hcell, ?_, ?_⟩
    · intro cipher stored padding nonce hstored
      obtain ⟨frame, hframe, -, hsent⟩ := sends_staged h hchunk hrootLength cipher hstored padding nonce
      rw [if_pos hsize] at hsent
      exact ⟨frame, hsent, hframe.trans hwire⟩
    · intro cipher stored padding nonce hstored
      obtain ⟨frame, hframe, hsealed, -⟩ := sends_staged h hchunk hrootLength cipher hstored padding nonce
      exact ⟨frame, hsealed, hframe.trans hwire⟩
  · have hnone : ([] : Bytes).length = 0 ∨ ([] : Bytes).length = PROOF_LEN := .inl rfl
    obtain ⟨frame, hframe, hsealed, hsent⟩ :=
      sends_staged h hchunk hrootLength cipher hnone padding nonce
    rw [if_neg hsize] at hsent
    refine ⟨hsent, frame, hsealed, ?_⟩
    obtain ⟨hmetadata, hdata, -⟩ := staged_lengths h hchunk
    have hle := h.chunk.2
    rw [hframe, hmetadata, hdata]
    simp only [CHUNK_LEN] at hle hsize
    simp only [METADATA_LEN, PROOF_LEN, CHUNK_FRAME_HEADER_LEN, WIRE_CHUNK_FRAME_LEN]
    omega

/-- Random choices for chunks of any size. -/
def plainCoins (chunkSize : Nat) : SplitCoins chunkSize where
  name := "name"
  noise := fun _ => default
  startValue := fun i => i
  endValue := fun i => i

/-- A picture whose bytes fill two chunks of `CHUNK_LEN`, and a third at random. -/
theorem send_geometry_picture :
    ∃ (chunks : List StagedChunk) (merkleRoot : Bytes), chunks.length = 3 ∧
      2 * maxBytesToCopy CHUNK_LEN (9 / 10) = (Outgoing.bytes (.file "a.png" (List.replicate 111442 7))).length ∧
      getMerkleRoot LibCrypto.transparent (chunks.flatMap (·.leafHash)) = .ok merkleRoot ∧
      ∀ chunk ∈ chunks, Sendable LibCrypto.transparent (chunks.flatMap (·.leafHash)) merkleRoot chunk := by
  have hlength : (Outgoing.bytes (.file "a.png" (List.replicate 111442 7))).length = 111442 := List.length_replicate
  have hplan : planMessageChunkCount (Outgoing.bytes (.file "a.png" (List.replicate 111442 7))).length 3 CHUNK_LEN
      (9 / 10) = .ok 3 := by
    rw [hlength]
    decide +kernel
  have hestimate : estimateOutboundStagingBytes (Outgoing.bytes (.file "a.png" (List.replicate 111442 7))).length 3
      CHUNK_LEN = .ok (some 313801) := by
    rw [hlength]
    decide +kernel
  obtain ⟨chunks, merkleRoot, hcount, -, hroot, hiff, -⟩ :=
    @send_geometry LibCrypto.transparent _ _ _ _ _ _ hplan hestimate ⟨0, by decide⟩ (plainCoins CHUNK_LEN)
  exact ⟨chunks, merkleRoot, hcount, by rw [hlength]; decide +kernel, hroot, hiff.mpr rfl⟩

/-- A cipher without a PQ context. -/
def sampleCipher : CellCipher where
  messageKey := List.replicate 32 1
  header := ⟨List.replicate 32 2, 0, 0⟩
  pqContext := none
  key := rfl
  fits := ⟨rfl, by decide, by decide, by decide⟩
  context := nofun

/-- A one-byte picture in chunks of 4000 bytes: accepted, staged and then refused. -/
theorem send_geometry_refused :
    planMessageChunkCount 1 1 4000 (9 / 10) = .ok 1 ∧
    estimateOutboundStagingBytes 1 1 4000 = .ok (some 9542) ∧
    ∃ chunk merkleRoot,
      splitLoop LibCrypto.transparent (plainCoins 4000)
        (messageMetadata LibCrypto.transparent (.file "a.png" [1]) (plainCoins 4000) ⟨0, by decide⟩) [1]
        (maxChunkStartIndex 4000 (9 / 10)) (maxBytesToCopy 4000 (9 / 10)) 1 0 0 = .ok [chunk] ∧
      getMerkleRoot LibCrypto.transparent chunk.leafHash = .ok merkleRoot ∧
      chunk.metadata.length + PROOF_LEN + chunk.data.length ≠ DECRYPTED_LEN ∧
      sendChunkCell LibCrypto.transparent sampleCipher chunk.leafHash merkleRoot chunk [] default default =
        .error (.error "Outbound staged chunk has invalid cell length") := by
  have hsplit : Splittable (Outgoing.bytes (.file "a.png" [1])).length 1 4000 (9 / 10) 9542 := by
    refine ⟨by decide, by decide, by decide, by norm_num, ?_, ?_⟩ <;> decide +kernel
  have hloop := @splitLoop_planned LibCrypto.transparent (.file "a.png" [1]) 1 4000 (9 / 10) 9542
    ⟨0, by decide⟩ (plainCoins 4000) hsplit
  have hplanned : plannedChunks (Outgoing.bytes (.file "a.png" [1])).length 1 4000 (9 / 10) = 1 := by
    decide +kernel
  obtain ⟨chunk, hchunks⟩ : ∃ chunk, splitChunks LibCrypto.transparent (.file "a.png" [1]) 1 (9 / 10)
      (plainCoins 4000) ⟨0, by decide⟩ = [chunk] := by
    rw [← List.length_eq_one_iff, splitChunks, List.length_map, List.length_range]
    exact hplanned
  have hmem : chunk ∈ splitChunks LibCrypto.transparent (.file "a.png" [1]) 1 (9 / 10) (plainCoins 4000)
      ⟨0, by decide⟩ := by
    rw [hchunks]
    exact List.mem_singleton_self chunk
  have hdigest := (staged_lengths hsplit hmem).2.2
  have hnone : ([] : Bytes).length = 0 ∨ ([] : Bytes).length = PROOF_LEN := .inl rfl
  obtain ⟨_, -, -, hsent⟩ := sends_staged hsplit hmem hdigest sampleCipher hnone default default
  rw [hchunks, List.flatMap_cons, List.flatMap_nil, List.append_nil] at hsent
  refine ⟨by decide +kernel, by decide +kernel, chunk, chunk.leafHash, ?_, getMerkleRoot_single hdigest,
    fun heq => absurd ((cell_length hsplit hmem).mp heq) (by decide), hsent⟩
  rw [← hchunks, ← hloop]
  exact congrArg (fun n => splitLoop _ _ _ _ _ _ n 0 0) hplanned.symm

end P2Party
