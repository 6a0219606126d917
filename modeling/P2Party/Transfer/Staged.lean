import P2Party.Transfer.Delivery

/-!
# What a receiver's database can say of one transfer

The chunks of a split transfer under its root: which records a database may have, what it has when
it has them all, and what one call of the store leaves.

- `Sliced`, `sliced_of_split`: what a split tells of its chunks;
- `Transfer.call`, `HasChunk`, `HasAll`: the call a peer makes for a chunk, and what it then has;
- `OnlyChunks`, `RowAgrees`: there is nothing under the root but the transfer;
- `hasAll_of_indices`: with all indices the database has all;
- `store_staged`, `store_nothingNew`: what a call leaves to its own transfer and to the others.
-/

namespace P2Party

open Base Storage

namespace Delivery

variable (L : LibCrypto) (getMimeType : Nat → String) (me : String)

/-! ## The chunks of a split -/

/-- The call a peer makes for a chunk of a transfer, if it is a real one. -/
def Transfer.call (t : Transfer) (s : StagedChunk) : Option ReceiveChunk :=
  receiveChunkOf getMimeType ⟨t.roomId, me, t.label⟩ t.result.merkleRoot s

/-- The token of a chunk. -/
def Transfer.tokenOf (t : Transfer) (s : StagedChunk) : Bytes :=
  L.sha512 (receiptInput t.result.merkleRoot s.chunkIndex s.leafHash)

/-- The proof of a chunk holds in a cell with it. -/
structure Proving (t : Transfer) (s : StagedChunk) (proof : Bytes) : Prop where
  length : proof.length = PROOF_LEN
  artifacts : proofLength (s.metadata ++ (proof ++ s.data)) % (HASH_BYTES + 1) = 0
  fits : proofLength (s.metadata ++ (proof ++ s.data)) ≤ PROOF_LEN
  verifies : verifyMerkleProof L (proofLength (s.metadata ++ (proof ++ s.data)) / (HASH_BYTES + 1)) s.leafHash
    t.result.merkleRoot ((s.metadata ++ (proof ++ s.data)).drop (METADATA_LEN + 4)) = 0

/-- What a split tells of its chunks. -/
structure Sliced (t : Transfer) (maxBytes : Nat) : Prop where
  bytes : 0 < maxBytes
  fits : maxBytes ≤ CHUNK_LEN
  hash : t.result.hash = L.sha512 t.message.bytes
  leaf : ∀ s ∈ t.result.chunks, s.leafHash = hashMerkleLeaf L s.data
  index : ∀ s ∈ t.result.chunks, ∀ s' ∈ t.result.chunks, s.chunkIndex = s'.chunkIndex → s = s'
  safe : ∀ s ∈ t.result.chunks, s.chunkIndex ≤ MAX_SAFE_INTEGER
  metadata : ∀ s ∈ t.result.chunks, ∃ m, deserializeMetadata s.metadata = .ok m ∧
    m.chunkIndex = s.chunkIndex ∧ m.hash = t.result.hash
  honest : ∀ s ∈ t.result.chunks, ∀ s' ∈ t.result.chunks, ∀ like c, t.call getMimeType me s' = some like →
    t.call getMimeType me s = some c → Honest maxBytes like c
  called : ∀ s ∈ t.result.chunks, ∀ c, t.call getMimeType me s = some c → c.chunkIndex = s.chunkIndex ∧
    c.merkleRoot = t.rootHex ∧ c.hash = uint8ArrayToHex t.result.hash ∧ c.totalSize = t.message.bytes.length
  covers : (∃ s ∈ t.result.chunks, (t.call getMimeType me s).isSome = true) →
    ∀ i < ceilDiv t.message.bytes.length maxBytes,
      ∃ s ∈ t.result.chunks, s.chunkIndex = i ∧ (t.call getMimeType me s).isSome = true
  root : t.result.merkleRoot.length = HASH_BYTES
  lengths : ∀ s ∈ t.result.chunks, s.metadata.length = METADATA_LEN ∧ s.leafHash.length = HASH_BYTES
  proof : ∀ s ∈ t.result.chunks, ∀ (stored : Bytes) (padding : RandomBytes PROOF_LEN),
    stored.length = 0 ∨ Proving L t s stored → ∃ proof,
      outboundProof L (t.result.chunks.flatMap (·.leafHash)) s.leafHash stored padding = .ok proof ∧
        Proving L t s proof

variable {L getMimeType me}

theorem receiveChunkOf_leafHash {o : Origin} {root : Bytes} {s : StagedChunk} {c : ReceiveChunk}
    (h : receiveChunkOf getMimeType o root s = some c) : c.leafHash = uint8ArrayToHex s.leafHash := by
  unfold receiveChunkOf at h
  split at h
  · cases h
    rfl
  · cases h

/-- The root of a split is that of its leaves. -/
theorem root_of_split {message : Outgoing} {minChunks chunkSize availableSpace : Nat} {fill : ℚ}
    {time : TimeValue} {coins : SplitCoins chunkSize} {result : SplitResult}
    (h : splitToChunks L message minChunks chunkSize fill 1 availableSpace time coins = .ok result) :
    getMerkleRoot L (result.chunks.flatMap (·.leafHash)) = .ok result.merkleRoot := by
  unfold splitToChunks at h
  obtain ⟨_, -, h⟩ := except_bind_eq_ok.mp h
  obtain ⟨_, -, h⟩ := except_bind_eq_ok.mp h
  obtain ⟨_, -, h⟩ := except_bind_eq_ok.mp h
  obtain ⟨_, -, h⟩ := except_bind_eq_ok.mp h
  obtain ⟨_, -, h⟩ := except_bind_eq_ok.mp h
  obtain ⟨_, hroot, h⟩ := except_bind_eq_ok.mp h
  obtain ⟨_, -, h⟩ := except_bind_eq_ok.mp h
  cases except_pure_eq_ok.mp h
  exact hroot

theorem sliced_of_split {t : Transfer} (h : Split L t) : ∃ maxBytes, Sliced L getMimeType me t maxBytes := by
  obtain ⟨minChunks, chunkSize, fill, availableSpace, time, coins, hsplit⟩ := h.split
  have hok := splittable_of_ok L time coins hsplit
  have hb := splitBounds hok.chunk hok.fraction hok.size.2
  have hm := messageMetadata_fits L coins time hok.size.2
  have hplanned := planned_le_safe hok
  obtain ⟨merkleRoot, heq⟩ := splitToChunks_eq L time coins hok
  rw [hsplit] at heq
  have hresult : t.result.chunks = splitChunks L t.message minChunks fill coins time ∧
      t.result.hash = L.sha512 t.message.bytes := by
    split at heq
    · cases heq
    · rw [Except.ok.inj heq]
      exact ⟨rfl, rfl⟩
  have hstaged : ∀ s ∈ t.result.chunks, ∃ i < plannedChunks t.message.bytes.length minChunks chunkSize fill,
      s = stagedAt L coins (messageMetadata L t.message coins time) time.val t.message.bytes
        (maxChunkStartIndex chunkSize fill) (maxBytesToCopy chunkSize fill) i := by
    intro s hs
    rw [hresult.1] at hs
    obtain ⟨i, hi, rfl⟩ := List.mem_map.mp hs
    exact ⟨i, List.mem_range.mp hi, rfl⟩
  have hcount : t.result.chunks.length = plannedChunks t.message.bytes.length minChunks chunkSize fill := by
    rw [hresult.1, splitChunks, List.length_map, List.length_range]
  have hlengths : ∀ s ∈ t.result.chunks, s.metadata.length = METADATA_LEN ∧ s.leafHash.length = HASH_BYTES := by
    intro s hs
    rw [hresult.1] at hs
    exact ⟨(staged_lengths hok hs).1, (staged_lengths hok hs).2.2⟩
  have hdigests : Digests (t.result.chunks.map (·.leafHash)) := by
    rw [hresult.1]
    exact staged_hashes hok
  refine ⟨maxBytesToCopy chunkSize fill, hb.bytes, ?_, hresult.2, ?_, ?_, ?_, ?_, ?_, ?_, ?_, ?_, hlengths, ?_⟩
  · have hfits := hb.fits
    have hchunk := hb.chunkSize
    omega
  · intro s hs
    obtain ⟨i, -, rfl⟩ := hstaged s hs
    rfl
  · intro s hs s' hs' hindex
    obtain ⟨i, -, rfl⟩ := hstaged s hs
    obtain ⟨j, -, rfl⟩ := hstaged s' hs'
    have hij : i = j := hindex
    rw [hij]
  · intro s hs
    obtain ⟨i, hi, rfl⟩ := hstaged s hs
    exact Nat.le_trans (Nat.le_of_lt hi) hplanned
  · intro s hs
    obtain ⟨i, hi, rfl⟩ := hstaged s hs
    exact ⟨_, deserialize_stagedAt L coins hb hm (Nat.le_trans (Nat.le_of_lt hi) hplanned), rfl, hresult.2.symm⟩
  · intro s hs s' hs' like c hlike hc
    rw [hresult.1] at hs hs'
    exact honest_of_split hok hs hs' hlike hc
  · intro s hs c hc
    obtain ⟨i, hi, rfl⟩ := hstaged s hs
    obtain ⟨-, -, hindex, -, -, -, -, -, -, -, hroot, hhash, -, -, htotal⟩ := receiveChunkOf_staged hok hi hc
    exact ⟨hindex, hroot, by rw [hhash, hresult.2], htotal⟩
  · -- if a peer takes one chunk, the type is one it takes, and it takes every chunk with bytes
    rintro ⟨s, hs, hcall⟩ i hi
    obtain ⟨c, hc⟩ := Option.isSome_iff_exists.mp hcall
    obtain ⟨j, hj, rfl⟩ := hstaged s hs
    obtain ⟨-, hassert, -⟩ := receiveChunkOf_staged hok hj hc
    have htype := (assertMetadataV1_eq_ok.mp hassert).2.1
    have hplan : i < plannedChunks t.message.bytes.length minChunks chunkSize fill :=
      Nat.lt_of_lt_of_le hi (Nat.le_max_right _ _)
    have hsafe := Nat.le_trans (Nat.le_of_lt hplan) hplanned
    obtain ⟨r, hr, -⟩ := receiveChunkOf_index getMimeType ⟨t.roomId, me, t.label⟩ t.result.merkleRoot
      (receivedSlice_real L coins hb hm rfl hsafe (assertMetadataV1_readAt coins hb hm rfl hok.size htype hsafe)
        ((lt_ceilDiv_iff hb.bytes).mp hi))
    refine ⟨_, ?_, rfl, Option.isSome_iff_exists.mpr ⟨r, hr⟩⟩
    rw [hresult.1]
    exact List.mem_map.mpr ⟨i, List.mem_range.mpr hplan, rfl⟩
  · have hroot := root_of_split hsplit
    rw [List.flatMap_def] at hroot
    exact length_getMerkleRoot hdigests hroot
  · intro s hs stored padding hstored
    have hmem : s.leafHash ∈ t.result.chunks.map (·.leafHash) := List.mem_map.mpr ⟨s, hs, rfl⟩
    have hsmall : (t.result.chunks.map (·.leafHash)).length ≤ 2 ^ 48 := by
      rw [List.length_map, hcount]
      exact planned_small hok
    obtain ⟨root, proof, hroot, hmade, hlength, -, hholds⟩ :=
      @merkle_completeness L _ (List.ne_nil_of_mem hmem) hdigests hsmall _ hmem padding
    rw [← List.flatMap_def, root_of_split hsplit] at hroot
    cases hroot
    obtain ⟨hartifacts, hfits, hverifies⟩ := hholds s.metadata s.data (hlengths s hs).1
    rw [← List.flatMap_def] at hmade
    unfold outboundProof
    rcases hstored with hnone | hold
    · refine ⟨proof, ?_, hlength, hartifacts, hfits, hverifies⟩
      rw [if_pos hnone, hmade, ok_bind]
      dsimp only
      rw [demand_of (Nat.le_of_eq hlength), ok_bind, LibCrypto.pad_of_length hlength]
      rfl
    · refine ⟨stored, ?_, hold⟩
      rw [if_neg (by rw [hold.length]; decide), ok_bind]
      dsimp only
      rw [demand_of (Nat.le_of_eq hold.length), ok_bind, LibCrypto.pad_of_length hold.length]
      rfl

/-- A chunk is told by its token, and the last receipt is none of the tokens. -/
theorem token_apart {t : Transfer} {maxBytes : Nat} (h : Split L t) (ht : Sliced L getMimeType me t maxBytes)
    {s : StagedChunk} (hs : s ∈ t.result.chunks) :
    t.tokenOf L s ≠ t.result.hash ∧
      ∀ s' ∈ t.result.chunks, t.tokenOf L s = t.tokenOf L s' → s = s' := by
  have hmem : ∀ s ∈ t.result.chunks,
      receiptInput t.result.merkleRoot s.chunkIndex s.leafHash ∈ t.receiptInputs :=
    fun s hs => List.mem_map.mpr ⟨s, hs, rfl⟩
  constructor
  · intro heq
    rw [ht.hash] at heq
    have hinput := h.noCollision _ (List.mem_cons_of_mem _ (hmem s hs)) _ List.mem_cons_self heq
    exact h.apart (hinput ▸ hmem s hs)
  · intro s' hs' heq
    have hinput := h.noCollision _ (List.mem_cons_of_mem _ (hmem s hs)) _
      (List.mem_cons_of_mem _ (hmem s' hs')) heq
    exact ht.index s hs s' hs' (receiptInput_inj rfl (ht.safe s hs) (ht.safe s' hs') hinput).2.1

/-- The token of a staged chunk can be made. -/
theorem Sliced.token {t : Transfer} {maxBytes : Nat} (ht : Sliced L getMimeType me t maxBytes) {s : StagedChunk}
    (hs : s ∈ t.result.chunks) :
    createChunkReceiptToken L t.result.merkleRoot s.chunkIndex s.leafHash = .ok (t.tokenOf L s) :=
  createChunkReceiptToken_eq_ok.mpr ⟨ht.root, (ht.lengths s hs).2, ht.safe s hs, rfl⟩

theorem tokenOf_mem {t : Transfer} {s : StagedChunk} (hs : s ∈ t.result.chunks) : t.tokenOf L s ∈ t.tokens L :=
  List.mem_cons_of_mem _ (List.mem_map.mpr ⟨_, List.mem_map.mpr ⟨s, hs, rfl⟩, rfl⟩)

/-! ## What a database has of a transfer -/

variable (getMimeType me)

/-- The database has the record of a chunk: its index, its length and its leaf hash. -/
def HasChunk (t : Transfer) (s : StagedChunk) (db : Database) : Prop :=
  ∃ c w, t.call getMimeType me s = some c ∧ c.record w ∈ db.chunks.rows

/-- The database has every real chunk of a transfer, and with them the bytes of the message. -/
structure HasAll (t : Transfer) (db : Database) : Prop where
  chunks : ∀ s ∈ t.result.chunks, (t.call getMimeType me s).isSome = true → HasChunk getMimeType me t s db
  bytes : bytesOf (db.slotsOf t.rootHex) = t.message.bytes.length

/-- Under the root there are chunks of the transfer only. -/
def OnlyChunks (t : Transfer) (db : Database) : Prop :=
  ∀ r ∈ db.chunks.rows, r.merkleRoot = t.rootHex →
    ∃ s ∈ t.result.chunks, ∃ c w, t.call getMimeType me s = some c ∧ r = c.record w

/-- The row of the root is that of the transfer. -/
def RowAgrees (t : Transfer) (db : Database) : Prop :=
  ∀ m, db.messageData.lookup t.rootHex = some m → m.hash = uint8ArrayToHex t.result.hash ∧
    ∀ s ∈ t.result.chunks, ∀ c, t.call getMimeType me s = some c → c.Matches m

variable {getMimeType me}

section Database

variable {t : Transfer} {maxBytes : Nat} {db : Database} {s : StagedChunk} {c : ReceiveChunk}

theorem mem_slotsOf {root : String} {r : Slot} :
    r ∈ db.slotsOf root ↔ ∃ x ∈ db.chunks.rows, x.merkleRoot = root ∧ x.slot = r := by
  simp only [Database.slotsOf, Database.chunksOf, List.mem_map, List.mem_filter, decide_eq_true_eq, and_assoc]

/-- Records of one root have different indices. -/
theorem nodup_slotsOf (db : Database) (root : String) : ((db.slotsOf root).map (·.chunkIndex)).Nodup := by
  unfold Database.slotsOf Database.chunksOf
  rw [List.map_map, List.Nodup, List.pairwise_map]
  refine (db.chunks.ascending.filter _).imp_of_mem ?_
  intro a b ha hb hlt heq
  have hroots := (of_decide_eq_true (List.mem_filter.mp ha).2).trans
    (of_decide_eq_true (List.mem_filter.mp hb).2).symm
  exact ne_of_lt hlt (Chunk.key_eq_iff.mpr ⟨hroots, heq⟩)

theorem OnlyChunks.canonical (ht : Sliced L getMimeType me t maxBytes) (h : OnlyChunks getMimeType me t db) :
    Canonical t.message.bytes.length maxBytes (db.slotsOf t.rootHex) := by
  refine ⟨fun r hr => ?_, nodup_slotsOf db _⟩
  obtain ⟨x, hx, hroot, rfl⟩ := mem_slotsOf.mp hr
  obtain ⟨s, hs, c, w, hc, rfl⟩ := h x hx hroot
  have hhonest := ht.honest s hs s hs c c hc hc
  rw [← (ht.called s hs c hc).2.2.2]
  exact ⟨hhonest.index, hhonest.length⟩

/-- A record with the key of a call is the record of its chunk. -/
theorem OnlyChunks.hasChunk (ht : Sliced L getMimeType me t maxBytes) (h : OnlyChunks getMimeType me t db)
    (hs : s ∈ t.result.chunks) (hc : t.call getMimeType me s = some c) {r : Chunk} (hr : r ∈ db.chunks.rows)
    (hroot : r.merkleRoot = t.rootHex) (hindex : r.chunkIndex = c.chunkIndex) :
    HasChunk getMimeType me t s db := by
  obtain ⟨s', hs', c', w, hc', rfl⟩ := h r hr hroot
  have hsame : s' = s := by
    refine ht.index s' hs' s hs ?_
    rw [← (ht.called s' hs' c' hc').1, ← (ht.called s hs c hc).1]
    exact hindex
  subst hsame
  exact ⟨c', w, hc', hr⟩

/-- With all indices the database has all. -/
theorem hasAll_of_indices (ht : Sliced L getMimeType me t maxBytes) (h : OnlyChunks getMimeType me t db)
    (hall : ∀ i < ceilDiv t.message.bytes.length maxBytes, i ∈ (db.slotsOf t.rootHex).map (·.chunkIndex)) :
    HasAll getMimeType me t db := by
  refine ⟨fun s hs hcall => ?_, ((h.canonical ht).bytesOf_eq_iff ht.bytes).mpr hall⟩
  obtain ⟨c, hc⟩ := Option.isSome_iff_exists.mp hcall
  have hindex := (ht.honest s hs s hs c c hc hc).index
  rw [(ht.called s hs c hc).2.2.2] at hindex
  obtain ⟨slot, hslot, heq⟩ := List.mem_map.mp (hall _ hindex)
  obtain ⟨r, hr, hroot, rfl⟩ := mem_slotsOf.mp hslot
  exact h.hasChunk ht hs hc hr hroot heq

theorem hasAll_of_bytes (ht : Sliced L getMimeType me t maxBytes) (h : OnlyChunks getMimeType me t db)
    (hbytes : bytesOf (db.slotsOf t.rootHex) = t.message.bytes.length) : HasAll getMimeType me t db :=
  hasAll_of_indices ht h (((h.canonical ht).bytesOf_eq_iff ht.bytes).mp hbytes)

end Database

/-! ## One call of the store -/

/-- A call leaves other roots alone. -/
theorem store_nothingNew {call : StoreCall} {root : String} (hroot : call.chunk.merkleRoot ≠ root) (db : Database) :
    NothingNew root db (call.store db).2 := by
  obtain ⟨e, h⟩ | ⟨p, h, -⟩ | ⟨p, chunks, messages, rooms, h, -, -, hput, hrow⟩ := store_spec call db
  · rw [h]
    exact ⟨fun _ hc _ => hc, fun _ hm => hm⟩
  · rw [h]
    exact ⟨fun _ hc _ => hc, fun _ hm => hm⟩
  · rw [h]
    constructor
    · intro c hc hcroot
      rcases (Table.mem_put hput).mp hc with rfl | ⟨hold, -⟩
      · exact absurd hcroot hroot
      · exact hold
    · intro m hm
      obtain ⟨hmem, hmroot⟩ := Table.lookup_eq_some_iff.mp hm
      rcases (Table.mem_put hrow).mp hmem with rfl | ⟨hold, -⟩
      · exact absurd hmroot hroot
      · exact Table.lookup_eq_some_iff.mpr ⟨hold, hmroot⟩

section Store

variable {t : Transfer} {maxBytes : Nat} {db : Database} {s : StagedChunk} {c : ReceiveChunk}

/-- The row a call writes is that of the transfer. -/
theorem RowAgrees.row (ht : Sliced L getMimeType me t maxBytes) (h : RowAgrees getMimeType me t db)
    (hs : s ∈ t.result.chunks) (hc : t.call getMimeType me s = some c) (savedSize : Nat) {s' : StagedChunk}
    (hs' : s' ∈ t.result.chunks) {c' : ReceiveChunk} (hc' : t.call getMimeType me s' = some c') :
    c'.Matches (c.row (db.messageData.lookup c.merkleRoot) savedSize) := by
  obtain ⟨hroot, hroom, hfrom, hhash, htotal, htype, hname, hlabel, htime⟩ := (ht.honest s hs s' hs' c' c hc' hc).same
  refine ⟨hroom.symm, hfrom.symm, hhash.symm, htotal.symm, htype.symm, hname.symm, hlabel.symm, ?_⟩
  show ((db.messageData.lookup c.merkleRoot).map (·.timestamp)).getD c.timestamp = c'.timestamp
  rw [(ht.called s hs c hc).2.1]
  cases hlook : db.messageData.lookup t.rootHex with
  | none => exact htime.symm
  | some m => exact ((h m hlook).2 s' hs' c' hc').2.2.2.2.2.2.2

/-- What a call for a chunk of a transfer leaves to the transfer. -/
theorem store_staged (ht : Sliced L getMimeType me t maxBytes) (hs : s ∈ t.result.chunks)
    (hc : t.call getMimeType me s = some c) (w committed : Bool) (honly : OnlyChunks getMimeType me t db)
    (hrow : RowAgrees getMimeType me t db) :
    OnlyChunks getMimeType me t ((⟨c, w, committed⟩ : StoreCall).store db).2 ∧
      RowAgrees getMimeType me t ((⟨c, w, committed⟩ : StoreCall).store db).2 ∧
      (∀ m, ((⟨c, w, committed⟩ : StoreCall).store db).2.messageData.lookup t.rootHex = some m →
        db.messageData.lookup t.rootHex = some m ∨
          (m.savedSize = m.totalSize → HasAll getMimeType me t ((⟨c, w, committed⟩ : StoreCall).store db).2)) ∧
      ∀ r, ((⟨c, w, committed⟩ : StoreCall).store db).1 = .ok r →
        HasChunk getMimeType me t s ((⟨c, w, committed⟩ : StoreCall).store db).2 ∧
          (r.complete = true → HasAll getMimeType me t ((⟨c, w, committed⟩ : StoreCall).store db).2) := by
  obtain ⟨hindex, hroot, hhash, htotal⟩ := ht.called s hs c hc
  obtain ⟨hpos, hsize⟩ := (ht.honest s hs s hs c c hc hc).totalSize_pos
  rw [htotal] at hpos hsize
  obtain ⟨e, h⟩ | ⟨p, h, hpresent, hv⟩ | ⟨p, chunks, messages, rooms, h, hv, hnew, hput, hmessage⟩ :=
    store_spec ⟨c, w, committed⟩ db
  · rw [h]
    refine ⟨honly, hrow, fun m hm => Or.inl hm, ?_⟩
    intro r hr
    cases hr
  · -- the record is there: the answer is that of the database
    rw [h]
    have hlayout := validateLayout_canonical ht.bytes ht.fits hpos hsize (honly.canonical ht)
    rw [hroot, htotal, hlayout] at hv
    obtain ⟨r, hr⟩ := Option.ne_none_iff_exists'.mp hpresent
    obtain ⟨hmem, hkey⟩ := Table.get_eq_some_iff.mp hr
    obtain ⟨hkroot, hkindex⟩ := Chunk.key_eq_iff.mp (hkey.trans (c.record_key w).symm)
    refine ⟨honly, hrow, fun m hm => Or.inl hm, ?_⟩
    intro answer hanswer
    cases hanswer
    refine ⟨honly.hasChunk ht hs hc hmem (hkroot.trans hroot) hkindex, fun hcomplete => ?_⟩
    cases hv
    exact hasAll_of_indices ht honly (of_decide_eq_true hcomplete)
  · -- the record is added
    have honly' : OnlyChunks getMimeType me t ⟨chunks, messages, rooms⟩ := by
      intro x hx hxroot
      rcases (Table.mem_put hput).mp hx with rfl | ⟨hold, -⟩
      · exact ⟨s, hs, c, w, hc, rfl⟩
      · exact honly x hold hxroot
    have hperm := slotsOf_put hnew hput messages rooms
    have hlayout := validateLayout_canonical ht.bytes ht.fits hpos hsize
      ((honly'.canonical ht).perm (hroot ▸ hperm))
    dsimp only at hv
    rw [htotal, hroot, hlayout] at hv
    have hsaved : p.savedSize = bytesOf (Database.slotsOf ⟨chunks, messages, rooms⟩ t.rootHex) := by
      rw [bytesOf_perm (hroot ▸ hperm)]
      cases hv
      rfl
    rw [h]
    refine ⟨honly', ?_, ?_, ?_⟩
    · intro m hm
      obtain ⟨hmem, hmroot⟩ := Table.lookup_eq_some_iff.mp hm
      rcases (Table.mem_put hmessage).mp hmem with rfl | ⟨hold, -⟩
      · exact ⟨hhash, fun s' hs' c' hc' => hrow.row ht hs hc _ hs' hc'⟩
      · exact hrow m (Table.lookup_eq_some_iff.mpr ⟨hold, hmroot⟩)
    · intro m hm
      obtain ⟨hmem, hmroot⟩ := Table.lookup_eq_some_iff.mp hm
      rcases (Table.mem_put hmessage).mp hmem with rfl | ⟨hold, -⟩
      · refine Or.inr fun hfull => hasAll_of_bytes ht honly' ?_
        rw [← hsaved, ← htotal]
        exact hfull
      · exact Or.inl (Table.lookup_eq_some_iff.mpr ⟨hold, hmroot⟩)
    · intro answer hanswer
      cases hanswer
      refine ⟨⟨c, w, hc, (Table.mem_put hput).mpr (Or.inl rfl)⟩, fun hcomplete => ?_⟩
      cases hv
      refine hasAll_of_indices ht honly' fun i hi => ?_
      exact ((hroot ▸ hperm).map _).mem_iff.mpr (of_decide_eq_true hcomplete i hi)

end Store

end Delivery

end P2Party
