import P2Party.Persistence.Layout

/-!
# Receiving a whole message

A receiver stores the chunks of a message in whatever order they arrive, and again and
again. Each is accepted once, the progress is that of the chunks stored, and the message is
complete exactly when all of its chunks are there. Whatever a sender sends instead, a call
that throws changes nothing, no record changes after it was stored, and a message is
reported complete only with the indices `0..k-1` and its declared size.

- `StoreCall`, `storeAll`: calls for received chunks, one after another;
- `store_cases`: what one call does;
- `Honest`, `Holds`: the chunks of one transfer, and a database that has some of them;
- `store_honest`: one chunk of a transfer;
- `receiveChunkOf`, `honest_of_split`: the chunks of a split are those of one transfer;
- `receive_store_complete`: every order of arrival, and every sequence of calls.
-/

namespace P2Party

open Base

namespace Storage

/-! ## Calls -/

/-- A call of `storeReceiveChunkLocked`, whether its bytes were placed and whether the
storage commits it. -/
structure StoreCall where
  chunk : ReceiveChunk
  wroteToOPFS : Bool
  committed : Bool

/-- The answer to a call, and the database after it. -/
def StoreCall.store (call : StoreCall) (db : Database) : Except Fault ReceiveChunkStoreResult × Database :=
  storeReceiveChunkLocked call.chunk call.wroteToOPFS call.committed db

/-- The database after some calls. -/
def storeAll (db : Database) (calls : List StoreCall) : Database :=
  calls.foldl (fun db call => (call.store db).2) db

/-- The records of a root once a record of it was added. -/
theorem slotsOf_put {db : Database} {c : ReceiveChunk} {w : Bool} {chunks : Table Chunk.key Chunk.key}
    (hnew : db.chunks.get c.key = none) (hput : db.chunks.put (c.record w) = some chunks)
    (messages : Table MessageData.key MessageData.merkleRoot)
    (rooms : Table UniqueRoom.roomId UniqueRoom.roomUrl) :
    (Database.slotsOf ⟨chunks, messages, rooms⟩ c.merkleRoot).Perm (db.slotsOf c.merkleRoot ++ [c.slot]) := by
  have hperm := Table.perm_put_new hput (Table.get_eq_none_iff.mp hnew)
  have hfilter := (hperm.filter fun x => x.merkleRoot = c.merkleRoot).map Chunk.slot
  rw [List.filter_append, List.map_append] at hfilter
  have hone : [c.record w].filter (fun x => x.merkleRoot = c.merkleRoot) = [c.record w] := by
    simp [ReceiveChunk.record]
  rw [hone] at hfilter
  exact hfilter

/-- A call throws and changes nothing; or it finds its record and changes nothing; or it adds the
record and writes the row of its message. -/
theorem store_spec (call : StoreCall) (db : Database) :
    (∃ e, call.store db = (.error e, db)) ∨
    (∃ p, call.store db = (.ok { p with stored := false }, db) ∧ db.chunks.get call.chunk.key ≠ none ∧
      validateLayout call.chunk.totalSize (db.slotsOf call.chunk.merkleRoot) = .ok p) ∨
    (∃ p chunks messages rooms, call.store db = (.ok { p with stored := true }, ⟨chunks, messages, rooms⟩) ∧
      validateLayout call.chunk.totalSize (db.slotsOf call.chunk.merkleRoot ++ [call.chunk.slot]) = .ok p ∧
      db.chunks.get call.chunk.key = none ∧ db.chunks.put (call.chunk.record call.wroteToOPFS) = some chunks ∧
      db.messageData.put (call.chunk.row (db.messageData.lookup call.chunk.merkleRoot) p.savedSize)
        = some messages) := by
  obtain ⟨c, w, committed⟩ := call
  unfold StoreCall.store storeReceiveChunkLocked
  dsimp only
  cases hchecks : receiveChecks c db with
  | error e => exact Or.inl ⟨.thrown e, rfl⟩
  | ok answer =>
    unfold receiveChecks at hchecks
    obtain ⟨present, hexists, hchecks⟩ := except_bind_eq_ok.mp hchecks
    unfold receiveExists at hexists
    obtain ⟨_, -, hexists⟩ := except_bind_eq_ok.mp hexists
    obtain ⟨_, -, hexists⟩ := except_bind_eq_ok.mp hexists
    rw [except_pure_eq_ok] at hexists
    split at hchecks
    case isTrue hpresent =>
      obtain ⟨result, hdup, hchecks⟩ := except_bind_eq_ok.mp hchecks
      cases except_pure_eq_ok.mp hchecks
      unfold receiveDuplicate at hdup
      obtain ⟨_, -, hdup⟩ := except_bind_eq_ok.mp hdup
      obtain ⟨p, hv, hdup⟩ := except_bind_eq_ok.mp hdup
      cases except_pure_eq_ok.mp hdup
      refine Or.inr (Or.inl ⟨p, rfl, ?_, hv⟩)
      intro hnone
      rw [← hexists, hnone] at hpresent
      cases hpresent
    case isFalse habsent =>
      obtain ⟨_, hpreflight, hchecks⟩ := except_bind_eq_ok.mp hchecks
      cases except_pure_eq_ok.mp hchecks
      cases committed with
      | false => exact Or.inl ⟨.request "AbortError", rfl⟩
      | true =>
        unfold receivePreflight at hpreflight
        obtain ⟨_, hmanifest, hpreflight⟩ := except_bind_eq_ok.mp hpreflight
        obtain ⟨p, hv, -⟩ := except_bind_eq_ok.mp hpreflight
        have hnew : db.chunks.get c.key = none := by
          rw [← hexists] at habsent
          exact Option.isNone_iff_eq_none.mp (by simpa using habsent)
        obtain ⟨chunks, hput, ⟨e, hbad, -⟩ | ⟨messages, rooms, -, hrow, hrun, -⟩⟩ :=
          @receiveCommit_fit c w db p hnew hv
        · rw [hmanifest] at hbad
          cases hbad
        · refine Or.inr (Or.inr ⟨p, chunks, messages, rooms, ?_, hv, hnew, hput, hrow⟩)
          rw [if_pos rfl, transact, hrun]

/-- What a call does: it throws and changes nothing; it finds the chunk there and changes
nothing; or it adds the record. -/
theorem store_cases (call : StoreCall) (db : Database) :
    (∃ e, call.store db = (.error e, db)) ∨
    (∃ p, call.store db = (.ok { p with stored := false }, db) ∧
      validateLayout call.chunk.totalSize (db.slotsOf call.chunk.merkleRoot) = .ok p) ∨
    (∃ p db', call.store db = (.ok { p with stored := true }, db') ∧
      validateLayout call.chunk.totalSize (db.slotsOf call.chunk.merkleRoot ++ [call.chunk.slot]) = .ok p ∧
      (db'.slotsOf call.chunk.merkleRoot).Perm (db.slotsOf call.chunk.merkleRoot ++ [call.chunk.slot]) ∧
      ∀ c ∈ db.chunks.rows, c ∈ db'.chunks.rows) := by
  obtain h | ⟨p, h, -, hv⟩ | ⟨p, chunks, messages, rooms, h, hv, hnew, hput, -⟩ := store_spec call db
  · exact Or.inl h
  · exact Or.inr (Or.inl ⟨p, h, hv⟩)
  · refine Or.inr (Or.inr ⟨p, _, h, hv, slotsOf_put hnew hput messages rooms, fun x hx => ?_⟩)
    exact (Table.mem_put hput).mpr (Or.inr ⟨hx, Table.get_eq_none_iff.mp hnew x hx⟩)

/-- No record changes after it was stored. -/
theorem mem_storeAll {db : Database} {c : Chunk} (hc : c ∈ db.chunks.rows) (calls : List StoreCall) :
    c ∈ (storeAll db calls).chunks.rows := by
  induction calls generalizing db with
  | nil => exact hc
  | cons call rest ih =>
    refine @ih (call.store db).2 ?_
    obtain ⟨e, h⟩ | ⟨p, h, -⟩ | ⟨p, db', h, -, -, hkeep⟩ := store_cases call db
    · rwa [h]
    · rwa [h]
    · rw [h]
      exact hkeep c hc

/-! ## The chunks of one transfer -/

/-- Two chunks tell the same message. -/
structure SameMessage (a b : ReceiveChunk) : Prop where
  merkleRoot : a.merkleRoot = b.merkleRoot
  roomId : a.roomId = b.roomId
  fromPeerId : a.fromPeerId = b.fromPeerId
  hash : a.hash = b.hash
  totalSize : a.totalSize = b.totalSize
  messageType : a.messageType = b.messageType
  filename : a.filename = b.filename
  channelLabel : a.channelLabel = b.channelLabel
  timestamp : a.timestamp = b.timestamp

/-- A chunk of the transfer that `like` tells, in slices of `maxBytes`. -/
structure Honest (maxBytes : Nat) (like c : ReceiveChunk) : Prop where
  same : SameMessage like c
  bounds : assertBounds c = .ok ()
  index : c.chunkIndex < ceilDiv c.totalSize maxBytes
  length : c.realLen = chunkLength c.totalSize maxBytes c.chunkIndex

/-- The database has the chunks of the transfer at the given indices. -/
structure Holds (maxBytes : Nat) (like : ReceiveChunk) (indices : List Nat) (db : Database) : Prop where
  records : Canonical like.totalSize maxBytes (db.slotsOf like.merkleRoot)
  exactly : ∀ i, i ∈ (db.slotsOf like.merkleRoot).map (·.chunkIndex) ↔ i ∈ indices
  row : ∀ m, db.messageData.lookup like.merkleRoot = some m → like.Matches m

section Honest

variable {maxBytes : Nat} {like c : ReceiveChunk} {indices : List Nat} {db : Database}

/-- Chunks of one message agree with the same rows. -/
theorem Honest.assertManifest (h : Honest maxBytes like c) (hdb : Holds maxBytes like indices db) :
    assertManifest c (db.messageData.lookup c.merkleRoot) = .ok () := by
  refine assertManifest_eq_ok.mpr fun m hm => ?_
  obtain ⟨h1, h2, h3, h4, h5, h6, h7, h8⟩ := hdb.row m (h.same.merkleRoot ▸ hm)
  exact ⟨h1.trans h.same.roomId, h2.trans h.same.fromPeerId, h3.trans h.same.hash,
    h4.trans h.same.totalSize, h5.trans h.same.messageType, h6.trans h.same.filename,
    h7.trans h.same.channelLabel, h8.trans h.same.timestamp⟩

/-- An index is recorded exactly when its record is there. -/
theorem Holds.present_iff (hdb : Holds maxBytes like indices db) (h : Honest maxBytes like c) :
    (db.chunks.get c.key).isSome = true ↔ c.chunkIndex ∈ indices := by
  rw [← hdb.exactly, Option.isSome_iff_exists]
  constructor
  · rintro ⟨r, hr⟩
    obtain ⟨hmem, hkey⟩ := Table.get_eq_some_iff.mp hr
    obtain ⟨hroot, hindex⟩ := Chunk.key_eq_iff.mp (hkey.trans (c.record_key false).symm)
    refine List.mem_map.mpr ⟨r.slot, List.mem_map.mpr ⟨r, ?_, rfl⟩, hindex⟩
    exact List.mem_filter.mpr ⟨hmem, by simpa using hroot.trans h.same.merkleRoot.symm⟩
  · intro hi
    obtain ⟨s, hs, hindex⟩ := List.mem_map.mp hi
    obtain ⟨r, hr, rfl⟩ := List.mem_map.mp hs
    obtain ⟨hmem, hroot⟩ := List.mem_filter.mp hr
    refine ⟨r, Table.get_eq_some_iff.mpr ⟨hmem, ?_⟩⟩
    refine (Chunk.key_eq_iff.mpr ⟨?_, hindex⟩).trans (c.record_key false)
    exact (of_decide_eq_true hroot).trans h.same.merkleRoot

theorem Honest.totalSize_pos (h : Honest maxBytes like c) :
    0 < like.totalSize ∧ like.totalSize ≤ MAX_MESSAGE_SIZE := by
  have hbounds := demand_eq_ok.mp h.bounds
  rw [h.same.totalSize]
  exact ⟨hbounds.2.2.2.2.2.2.1, hbounds.2.2.2.2.2.2.2.1⟩

/-- The records once a new chunk of the transfer is added. -/
theorem Holds.canonical_append (hdb : Holds maxBytes like indices db) (h : Honest maxBytes like c)
    (hnew : c.chunkIndex ∉ indices) :
    Canonical like.totalSize maxBytes (db.slotsOf like.merkleRoot ++ [c.slot]) := by
  constructor
  · intro r hr
    rcases List.mem_append.mp hr with hr | hr
    · exact hdb.records.slots r hr
    · rw [List.mem_singleton.mp hr, h.same.totalSize]
      exact ⟨h.index, h.length⟩
  · rw [List.map_append, List.nodup_append]
    refine ⟨hdb.records.nodup, List.nodup_singleton _, ?_⟩
    rintro a ha b hb rfl
    rw [List.mem_singleton.mp hb, hdb.exactly] at ha
    exact hnew ha

/-- The row of a chunk tells its message. -/
theorem Honest.matches_row (h : Honest maxBytes like c) (hdb : Holds maxBytes like indices db)
    (savedSize : Nat) : like.Matches (c.row (db.messageData.lookup c.merkleRoot) savedSize) := by
  have htime : ((db.messageData.lookup c.merkleRoot).map (·.timestamp)).getD c.timestamp = like.timestamp := by
    cases hlook : db.messageData.lookup c.merkleRoot with
    | none => exact h.same.timestamp.symm
    | some m => exact (hdb.row m (h.same.merkleRoot ▸ hlook)).2.2.2.2.2.2.2
  exact ⟨h.same.roomId.symm, h.same.fromPeerId.symm, h.same.hash.symm, h.same.totalSize.symm,
    h.same.messageType.symm, h.same.filename.symm, h.same.channelLabel.symm, htime⟩

/-- One chunk of a transfer: it is accepted, and reported as the database then is. -/
theorem store_honest (hb : 0 < maxBytes) (hchunk : maxBytes ≤ CHUNK_LEN) (w : Bool)
    (h : Honest maxBytes like c) (hdb : Holds maxBytes like indices db) :
    ∃ db', (⟨c, w, true⟩ : StoreCall).store db = (.ok
        { savedSize := bytesOf (db'.slotsOf like.merkleRoot)
          complete := decide (∀ i < ceilDiv like.totalSize maxBytes,
            i ∈ (db'.slotsOf like.merkleRoot).map (·.chunkIndex))
          stored := decide (c.chunkIndex ∉ indices) }, db') ∧
      Holds maxBytes like (indices ++ [c.chunkIndex]) db' := by
  obtain ⟨hpos, hsize⟩ := h.totalSize_pos
  have hmanifest := h.assertManifest hdb
  have hexists : receiveExists c db = .ok (db.chunks.get c.key).isSome := by
    rw [receiveExists, h.bounds, ok_bind, hmanifest, ok_bind]
    rfl
  by_cases hin : c.chunkIndex ∈ indices
  · have hlayout := validateLayout_canonical hb hchunk hpos hsize hdb.records
    rw [h.same.merkleRoot, h.same.totalSize] at hlayout
    refine ⟨db, ?_, ⟨hdb.records, fun i => ?_, hdb.row⟩⟩
    · unfold StoreCall.store storeReceiveChunkLocked receiveChecks
      rw [hexists, ok_bind, if_pos ((hdb.present_iff h).mpr hin), receiveDuplicate, hmanifest, ok_bind, hlayout,
        h.same.merkleRoot, h.same.totalSize]
      simp [hin]
    · rw [hdb.exactly, List.mem_append, List.mem_singleton]
      exact ⟨Or.inl, fun hi => hi.elim id fun he => he ▸ hin⟩
  · have habsent : db.chunks.get c.key = none := by
      have hnone : ¬ (db.chunks.get c.key).isSome = true := fun hp => hin ((hdb.present_iff h).mp hp)
      simpa using hnone
    have hcanonical := hdb.canonical_append h hin
    have hlayout := validateLayout_canonical hb hchunk hpos hsize hcanonical
    rw [h.same.merkleRoot, h.same.totalSize] at hlayout
    obtain ⟨chunks, hput, ⟨e, hbad, -⟩ | ⟨messages, rooms, -, hrow, hrun, -⟩⟩ :=
      @receiveCommit_fit c w db _ habsent hlayout
    · rw [hmanifest] at hbad
      cases hbad
    · have hperm := slotsOf_put habsent hput messages rooms
      rw [← h.same.merkleRoot] at hperm
      have hmem : ∀ i, i ∈ (Database.slotsOf ⟨chunks, messages, rooms⟩ like.merkleRoot).map (·.chunkIndex)
          ↔ i ∈ (db.slotsOf like.merkleRoot ++ [c.slot]).map (·.chunkIndex) :=
        fun i => (hperm.map _).mem_iff
      refine ⟨⟨chunks, messages, rooms⟩, ?_, hcanonical.perm hperm.symm, fun i => ?_, fun m hm => ?_⟩
      · unfold StoreCall.store storeReceiveChunkLocked receiveChecks
        rw [hexists, habsent, ok_bind]
        simp only [Option.isSome_none, Bool.false_eq_true, if_false, receivePreflight, hmanifest, hlayout,
          ok_bind, if_true]
        rw [show (pure () >>= fun _ => pure none : Except JsError (Option ReceiveChunkStoreResult)) = .ok none
          from rfl]
        dsimp only
        rw [transact, hrun, bytesOf_perm hperm, h.same.merkleRoot, h.same.totalSize]
        simp only [← h.same.merkleRoot, hmem, hin, not_false_eq_true, decide_true]
      · rw [hmem, List.map_append, List.mem_append, List.mem_append, hdb.exactly]
        rfl
      · have hlook : messages.lookup like.merkleRoot
            = some (c.row (db.messageData.lookup c.merkleRoot) _) :=
          Table.lookup_eq_some_iff.mpr ⟨(Table.mem_put hrow).mpr (Or.inl rfl), h.same.merkleRoot.symm⟩
        rw [show Database.messageData ⟨chunks, messages, rooms⟩ = messages from rfl, hlook] at hm
        cases hm
        exact h.matches_row hdb _

/-- The database after some chunks of a transfer. -/
theorem holds_storeAll (hb : 0 < maxBytes) (hchunk : maxBytes ≤ CHUNK_LEN) {calls : List StoreCall}
    (hcalls : ∀ call ∈ calls, Honest maxBytes like call.chunk ∧ call.committed = true)
    (hdb : Holds maxBytes like indices db) :
    Holds maxBytes like (indices ++ calls.map (·.chunk.chunkIndex)) (storeAll db calls) := by
  induction calls generalizing db indices with
  | nil => simpa [storeAll] using hdb
  | cons call rest ih =>
    obtain ⟨c, w, committed⟩ := call
    obtain ⟨hhonest, hcommitted⟩ := hcalls _ List.mem_cons_self
    cases hcommitted
    obtain ⟨db', hstore, hdb'⟩ := store_honest hb hchunk w hhonest hdb
    have hrest := ih (fun x hx => hcalls x (List.mem_cons_of_mem _ hx)) hdb'
    rw [List.append_assoc, List.singleton_append] at hrest
    rw [List.map_cons, storeAll, List.foldl_cons, hstore]
    exact hrest

end Honest

/-! ## The chunks of a split -/

/-- Whom a transfer comes from, and where to. -/
structure Origin where
  roomId : String
  fromPeerId : String
  channelLabel : String

/-- `uint8ArrayToHex`. -/
def uint8ArrayToHex (bytes : Bytes) : String := String.ofList (hexChars bytes)

/-- The call the receiver makes for a chunk (handleReceiveMessage.ts:211-296), if it stores
it; the type of a mime is a table. -/
def receiveChunkOf (getMimeType : Nat → String) (o : Origin) (merkleRoot : Bytes) (c : StagedChunk) :
    Option ReceiveChunk :=
  match receivedSlice c.metadata c.data with
  | .ok (some (metadata, data)) => some {
      schemaVersion := metadata.schemaVersion
      roomId := o.roomId
      fromPeerId := o.fromPeerId
      channelLabel := o.channelLabel
      timestamp := metadata.date.getD 0
      merkleRoot := uint8ArrayToHex merkleRoot
      hash := uint8ArrayToHex metadata.hash
      filename := metadata.name
      messageType := metadata.messageType
      chunkIndex := metadata.chunkIndex
      mimeType := getMimeType metadata.messageType
      leafHash := uint8ArrayToHex c.leafHash
      realLen := receivedChunkSize metadata
      totalSize := metadata.totalSize
      data
      storage := if metadata.messageType = 1 then .indexeddb else .opfs }
  | _ => none

section Split

variable {L : LibCrypto} {message : Outgoing} {minChunks chunkSize : Nat} {fill : ℚ} {availableSpace : Nat}
  {time : TimeValue} {coins : SplitCoins chunkSize} {getMimeType : Nat → String} {o : Origin}
  {merkleRoot : Bytes}

/-- The call for chunk `i` of a split. -/
theorem receiveChunkOf_staged (h : Splittable message.bytes.length minChunks chunkSize fill availableSpace)
    {i : Nat} (hi : i < plannedChunks message.bytes.length minChunks chunkSize fill) {c : ReceiveChunk}
    (hc : receiveChunkOf getMimeType o merkleRoot
      (stagedAt L coins (messageMetadata L message coins time) time.val message.bytes
        (maxChunkStartIndex chunkSize fill) (maxBytesToCopy chunkSize fill) i) = some c) :
    i * maxBytesToCopy chunkSize fill < message.bytes.length ∧
      assertMetadataV1 (readAt coins (messageMetadata L message coins time) message.bytes
        (maxChunkStartIndex chunkSize fill) (maxBytesToCopy chunkSize fill) i) = .ok () ∧
      c.chunkIndex = i ∧ c.realLen = (sliceAt message.bytes (maxBytesToCopy chunkSize fill) i).length ∧
      c.data = sliceAt message.bytes (maxBytesToCopy chunkSize fill) i ∧ c.schemaVersion = 1 ∧
      c.roomId = o.roomId ∧ c.fromPeerId = o.fromPeerId ∧ c.channelLabel = o.channelLabel ∧
      c.timestamp = time.val ∧ c.merkleRoot = uint8ArrayToHex merkleRoot ∧
      c.hash = uint8ArrayToHex (L.sha512 message.bytes) ∧
      c.filename = sanitizeName (utf8Decode (nameField (messageMetadata L message coins time).name)) ∧
      c.messageType = (getMessageType message).toByte ∧ c.totalSize = message.bytes.length := by
  have hb := splitBounds h.chunk h.fraction h.size.2
  have hm := messageMetadata_fits L coins time h.size.2
  have hsafe : i ≤ MAX_SAFE_INTEGER := Nat.le_trans (Nat.le_of_lt hi) (planned_le_safe h)
  unfold receiveChunkOf at hc
  have hassert : assertMetadataV1 (readAt coins (messageMetadata L message coins time) message.bytes
      (maxChunkStartIndex chunkSize fill) (maxBytesToCopy chunkSize fill) i) = .ok () := by
    cases ha : assertMetadataV1 (readAt coins (messageMetadata L message coins time) message.bytes
        (maxChunkStartIndex chunkSize fill) (maxBytesToCopy chunkSize fill) i) with
    | ok u => rfl
    | error e =>
      rw [receivedSlice, deserialize_stagedAt L coins hb hm hsafe, ok_bind, ha, error_bind] at hc
      cases hc
  by_cases hreal : i * maxBytesToCopy chunkSize fill < message.bytes.length
  · rw [receivedSlice_real L coins hb hm rfl hsafe hassert hreal] at hc
    cases hc
    exact ⟨hreal, hassert, rfl, receivedChunkSize_readAt coins hb rfl hreal, rfl, rfl, rfl, rfl, rfl, rfl, rfl,
      rfl, rfl, rfl, rfl⟩
  · rw [receivedSlice_decoy L coins hb hm rfl hsafe hassert (Nat.not_lt.mp hreal)] at hc
    cases hc

/-- The chunks of a split that a receiver stores are those of one transfer. -/
theorem honest_of_split (h : Splittable message.bytes.length minChunks chunkSize fill availableSpace)
    {s s' : StagedChunk} (hs : s ∈ splitChunks L message minChunks fill coins time)
    (hs' : s' ∈ splitChunks L message minChunks fill coins time) {like c : ReceiveChunk}
    (hlike : receiveChunkOf getMimeType o merkleRoot s' = some like)
    (hc : receiveChunkOf getMimeType o merkleRoot s = some c) :
    Honest (maxBytesToCopy chunkSize fill) like c := by
  have hb := splitBounds h.chunk h.fraction h.size.2
  obtain ⟨i, hi, rfl⟩ := List.mem_map.mp hs
  obtain ⟨j, hj, rfl⟩ := List.mem_map.mp hs'
  obtain ⟨-, -, -, -, -, -, k1, k2, k3, k4, k5, k6, k7, k8, k9⟩ :=
    receiveChunkOf_staged h (List.mem_range.mp hj) hlike
  obtain ⟨hreal, hassert, hindex, hlength, hdata, hschema, l1, l2, l3, l4, l5, l6, l7, l8, l9⟩ :=
    receiveChunkOf_staged h (List.mem_range.mp hi) hc
  obtain ⟨-, htype, -, htotal, -, -, -, hsafe, -⟩ := assertMetadataV1_eq_ok.mp hassert
  have hslice := length_sliceAt message.bytes (maxBytesToCopy chunkSize fill) i
  have hbytes := hb.bytes
  have hfits := hb.fits
  have hchunk := hb.chunkSize
  have hmul : i ≤ i * maxBytesToCopy chunkSize fill := Nat.le_mul_of_pos_right _ hbytes
  refine ⟨⟨k5.trans l5.symm, k1.trans l1.symm, k2.trans l2.symm, k6.trans l6.symm, k9.trans l9.symm,
    k8.trans l8.symm, k7.trans l7.symm, k3.trans l3.symm, k4.trans l4.symm⟩, demand_of ?_, ?_, ?_⟩
  · rw [hschema, l8, hindex, hlength, hdata, l9, l4]
    refine ⟨rfl, htype.1, htype.2, hsafe, by omega, by omega, h.size.1, h.size.2, by omega, by omega, rfl, ?_⟩
    have htime := time.property
    simp only [SafeTime, MAX_SAFE_INTEGER]
    omega
  · rw [hindex, l9, lt_ceilDiv_iff hbytes]
    exact hreal
  · rw [hlength, hindex, l9, hslice, chunkLength]

end Split

/-! ## Every order of arrival, and every sequence of calls -/

/-- Nothing of a root is stored. -/
def Database.Lacks (db : Database) (root : String) : Prop :=
  db.chunksOf root = [] ∧ db.messageData.lookup root = none

/-- The calls a receiver makes for the chunks that arrive; the flags say which bytes are
placed. -/
def arrivals (getMimeType : Nat → String) (o : Origin) (merkleRoot : Bytes)
    (chunks : List (StagedChunk × Bool)) : List StoreCall :=
  chunks.filterMap fun s => (receiveChunkOf getMimeType o merkleRoot s.1).map fun c => ⟨c, s.2, true⟩

/-- Whenever a call says so, the message is whole. -/
def CompleteIsWhole (call : StoreCall) (db : Database) : Prop :=
  ∀ r, (call.store db).1 = .ok r → r.complete = true →
    bytesOf ((call.store db).2.slotsOf call.chunk.merkleRoot) = call.chunk.totalSize ∧
    (((call.store db).2.slotsOf call.chunk.merkleRoot).map (·.chunkIndex)).Perm
      (List.range ((call.store db).2.slotsOf call.chunk.merkleRoot).length)

theorem completeIsWhole (call : StoreCall) (db : Database) : CompleteIsWhole call db := by
  intro r hr hcomplete
  obtain ⟨e, h⟩ | ⟨p, h, hv⟩ | ⟨p, db', h, hv, hperm, -⟩ := store_cases call db
  · rw [h] at hr
    cases hr
  · rw [h] at hr ⊢
    cases hr
    exact (validateLayout_ok hv).2 hcomplete
  · rw [h] at hr ⊢
    cases hr
    obtain ⟨hsum, hindices⟩ := (validateLayout_ok hv).2 hcomplete
    refine ⟨(bytesOf_perm hperm).trans hsum, ?_⟩
    rw [hperm.length_eq]
    exact (hperm.map _).trans hindices

/-- For the chunks of a split in any order, with any repetition: no call is refused, each
reports the bytes of the distinct chunks then stored, which are those that have arrived, and
completion exactly when every real chunk is. For any sequence of calls: completion means the
indices `0..k-1` and the declared size, records stay as they are, and a call that throws
changes nothing. -/
theorem receive_store_complete :
    (∀ (L : LibCrypto) (message : Outgoing) (minChunks chunkSize : Nat) (fill : ℚ) (availableSpace : Nat)
        (time : TimeValue) (coins : SplitCoins chunkSize) (result : SplitResult)
        (getMimeType : Nat → String) (o : Origin) (db : Database) (chunks : List (StagedChunk × Bool)),
      splitToChunks L message minChunks chunkSize fill 1 availableSpace time coins = .ok result →
      db.Lacks (uint8ArrayToHex result.merkleRoot) → (∀ s ∈ chunks, s.1 ∈ result.chunks) →
      ∀ before call after,
        arrivals getMimeType o result.merkleRoot chunks = before ++ call :: after →
        ∃ r db', call.store (storeAll db before) = (.ok r, db') ∧
          r.savedSize = bytesOf (db'.slotsOf (uint8ArrayToHex result.merkleRoot)) ∧
          ((db'.slotsOf (uint8ArrayToHex result.merkleRoot)).map (·.chunkIndex)).Nodup ∧
          (∀ i, i ∈ (db'.slotsOf (uint8ArrayToHex result.merkleRoot)).map (·.chunkIndex) ↔
            i ∈ (before ++ [call]).map (·.chunk.chunkIndex)) ∧
          (r.complete = true ↔ ∀ i < ceilDiv message.bytes.length (maxBytesToCopy chunkSize fill),
            i ∈ (db'.slotsOf (uint8ArrayToHex result.merkleRoot)).map (·.chunkIndex))) ∧
    (∀ (db : Database) (before : List StoreCall) (call : StoreCall) (after : List StoreCall),
      CompleteIsWhole call (storeAll db before) ∧
      (∀ c ∈ (storeAll db before).chunks.rows, c ∈ (storeAll db (before ++ call :: after)).chunks.rows) ∧
      ∀ e, (call.store (storeAll db before)).1 = .error e →
        (call.store (storeAll db before)).2 = storeAll db before) := by
  refine ⟨?_, fun db before call after => ⟨completeIsWhole _ _, fun c hc => ?_, fun e he => ?_⟩⟩
  · intro L message minChunks chunkSize fill availableSpace time coins result getMimeType o db chunks hresult
      hlacks hchunks before call after hcalls
    have h := splittable_of_ok L time coins hresult
    have hb := splitBounds h.chunk h.fraction h.size.2
    have hmax : maxBytesToCopy chunkSize fill ≤ CHUNK_LEN := by
      have hfits := hb.fits
      have hchunk := hb.chunkSize
      omega
    have hsplit : result.chunks = splitChunks L message minChunks fill coins time := by
      obtain ⟨merkleRoot, heq⟩ := splitToChunks_eq L time coins h
      rw [hresult] at heq
      split at heq
      · cases heq
      · cases heq
        rfl
    have harrived : ∀ x ∈ before ++ call :: after, ∃ s ∈ splitChunks L message minChunks fill coins time,
        receiveChunkOf getMimeType o result.merkleRoot s = some x.chunk ∧ x.committed = true := by
      intro x hx
      rw [← hcalls] at hx
      obtain ⟨s, hs, hmap⟩ := List.mem_filterMap.mp hx
      obtain ⟨c, hc, rfl⟩ := Option.map_eq_some_iff.mp hmap
      exact ⟨s.1, hsplit ▸ hchunks s hs, hc, rfl⟩
    obtain ⟨s, hs, hlike, hcommitted⟩ :=
      harrived call (List.mem_append_right before List.mem_cons_self)
    have hhonest : ∀ x ∈ before ++ call :: after,
        Honest (maxBytesToCopy chunkSize fill) call.chunk x.chunk ∧ x.committed = true := by
      intro x hx
      obtain ⟨s', hs', hx', hcommitted'⟩ := harrived x hx
      exact ⟨honest_of_split h hs' hs hlike hx', hcommitted'⟩
    obtain ⟨i, hi, rfl⟩ := List.mem_map.mp hs
    obtain ⟨-, -, -, -, -, -, -, -, -, -, hroot, -, -, -, htotal⟩ :=
      receiveChunkOf_staged h (List.mem_range.mp hi) hlike
    rw [← hroot] at hlacks ⊢
    have hnone : Holds (maxBytesToCopy chunkSize fill) call.chunk [] db := by
      have hslots : db.slotsOf call.chunk.merkleRoot = [] := by
        rw [Database.slotsOf, hlacks.1]
        rfl
      refine ⟨⟨fun r hr => ?_, ?_⟩, fun i => ?_, fun m hm => ?_⟩
      · rw [hslots] at hr
        exact absurd hr List.not_mem_nil
      · rw [hslots]
        exact List.nodup_nil
      · rw [hslots]
        rfl
      · rw [hlacks.2] at hm
        cases hm
    have hbefore := holds_storeAll hb.bytes hmax
      (fun x hx => hhonest x (List.mem_append_left _ hx)) hnone
    obtain ⟨c, w, committed⟩ := call
    cases hcommitted
    obtain ⟨db', hstore, hdb'⟩ := store_honest hb.bytes hmax w
      (hhonest _ (List.mem_append_right before List.mem_cons_self)).1 hbefore
    refine ⟨_, db', hstore, rfl, hdb'.records.nodup, fun i => ?_, ?_⟩
    · rw [hdb'.exactly, List.map_append]
      rfl
    · rw [← htotal]
      exact decide_eq_true_iff
  · rw [storeAll, List.foldl_append]
    exact mem_storeAll hc (call :: after)
  · obtain ⟨e', h⟩ | ⟨p, h, -⟩ | ⟨p, db', h, -⟩ := store_cases call (storeAll db before)
    · rw [h]
    · rw [h]
    · rw [h] at he
      cases he

theorem receiveChunkOf_index (getMimeType : Nat → String) (o : Origin) (merkleRoot : Bytes) {c : StagedChunk}
    {metadata : Metadata} {data : Bytes}
    (h : receivedSlice c.metadata c.data = .ok (some (metadata, data))) :
    ∃ r, receiveChunkOf getMimeType o merkleRoot c = some r ∧ r.chunkIndex = metadata.chunkIndex := by
  unfold receiveChunkOf
  rw [h]
  exact ⟨_, rfl, rfl⟩

/-- The bytes of a picture in three chunks. -/
def sampleBytes : Bytes := List.replicate 120000 7

/-- Random choices with which a chunk begins with its bytes and ends with its index. -/
def sampleCoins : SplitCoins CHUNK_LEN where
  name := "name"
  noise := fun i => ⟨List.replicate CHUNK_LEN (UInt8.ofNat i), List.length_replicate⟩
  startValue := fun _ => 0
  endValue := fun i => i

theorem length_sampleBytes : (Outgoing.file "a.png" sampleBytes).bytes.length = 120000 := List.length_replicate

theorem splittable_sample :
    Splittable (Outgoing.file "a.png" sampleBytes).bytes.length 1 CHUNK_LEN (9 / 10) 900000 := by
  rw [length_sampleBytes]
  refine ⟨by decide, by decide, by decide, by norm_num, ?_, ?_⟩ <;> decide +kernel

/-- The picture is split in three chunks, and a peer takes each. -/
theorem sample_split (L : LibCrypto) : ∃ (result : SplitResult) (c0 c1 c2 : StagedChunk),
    splitToChunks L (.file "a.png" sampleBytes) 1 CHUNK_LEN (9 / 10) 1 900000 ⟨0, by decide⟩ sampleCoins
      = .ok result ∧
    result.chunks = [c0, c1, c2] ∧ c0.chunkIndex = 0 ∧ c1.chunkIndex = 1 ∧ c2.chunkIndex = 2 ∧
    ∀ c ∈ result.chunks, c.data.length = CHUNK_LEN ∧ c.leafHash = hashMerkleLeaf L c.data ∧
      c.data.getLast? = some (UInt8.ofNat c.chunkIndex) ∧
      ∃ call, receiveChunkOf (fun _ => "image/png") ⟨"r", "p", "main"⟩ result.merkleRoot c = some call ∧
        call.chunkIndex = c.chunkIndex := by
  have h := splittable_sample
  have hb := splitBounds h.chunk h.fraction h.size.2
  have hm := messageMetadata_fits L sampleCoins ⟨0, by decide⟩ h.size.2
  obtain ⟨merkleRoot, heq⟩ := @splitToChunks_eq L _ _ _ _ _ ⟨0, by decide⟩ sampleCoins h
  rw [if_neg (by decide +kernel)] at heq
  have hthree : plannedChunks (Outgoing.file "a.png" sampleBytes).bytes.length 1 CHUNK_LEN (9 / 10) = 3 := by
    rw [length_sampleBytes]
    decide +kernel
  have hmax : maxBytesToCopy CHUNK_LEN (9 / 10) = 55721 := by decide +kernel
  obtain ⟨result, hresult, hchunks⟩ : ∃ result, splitToChunks L (.file "a.png" sampleBytes) 1 CHUNK_LEN (9 / 10) 1
      900000 ⟨0, by decide⟩ sampleCoins = .ok result ∧
      result.chunks = splitChunks L (.file "a.png" sampleBytes) 1 (9 / 10) sampleCoins ⟨0, by decide⟩ := by
    refine ⟨splitResult L (.file "a.png" sampleBytes) 1 (9 / 10) ⟨0, by decide⟩ sampleCoins merkleRoot, ?_, ?_⟩
    · exact heq
    · rw [splitResult]
  have hstaged : ∀ c ∈ result.chunks, c ∈ splitChunks L (.file "a.png" sampleBytes) 1 (9 / 10) sampleCoins
      ⟨0, by decide⟩ := fun c hc => hchunks ▸ hc
  rw [splitChunks, hthree, show List.range 3 = [0, 1, 2] from rfl, List.map_cons, List.map_cons, List.map_cons,
    List.map_nil] at hchunks
  refine ⟨result, _, _, _, hresult, hchunks, rfl, rfl, rfl, fun c hc => ?_⟩
  obtain ⟨i, hi, rfl⟩ := List.mem_map.mp (hstaged c hc)
  rw [hthree, List.mem_range] at hi
  have hsafe : i ≤ MAX_SAFE_INTEGER := Nat.le_trans (Nat.le_of_lt hi) (by decide)
  have htype : 1 ≤ (getMessageType (.file "a.png" sampleBytes)).toByte ∧
      (getMessageType (.file "a.png" sampleBytes)).toByte ≤ 64 := by decide +kernel
  have hslice := receivedSlice_real L sampleCoins hb hm rfl hsafe
    (assertMetadataV1_readAt sampleCoins hb hm rfl h.size htype hsafe) (by rw [length_sampleBytes, hmax]; omega)
  refine ⟨length_dataAt sampleCoins hb i, rfl, ?_, receiveChunkOf_index _ _ _ hslice⟩
  show (overwrite (List.replicate CHUNK_LEN (UInt8.ofNat i)) 0 _).getLast? = some (UInt8.ofNat i)
  have hshort : (sliceAt (Outgoing.file "a.png" sampleBytes).bytes (maxBytesToCopy CHUNK_LEN (9 / 10)) i).length
      ≤ 55721 := by
    rw [sliceAt, slice, List.length_take, hmax]
    exact Nat.min_le_left _ _
  have hnoise : CHUNK_LEN - (0 + (sliceAt (Outgoing.file "a.png" sampleBytes).bytes
      (maxBytesToCopy CHUNK_LEN (9 / 10)) i).length) ≠ 0 := by
    have hlong : 55721 < CHUNK_LEN := by decide
    omega
  rw [overwrite, List.drop_replicate, ← List.append_assoc, List.getLast?_append, List.getLast?_replicate,
    if_neg hnoise]
  rfl

/-- The picture in three chunks, the last of them first. -/
theorem receive_store_complete_picture :
    ∃ result first second third, splitToChunks LibCrypto.transparent (.file "a.png" sampleBytes) 1 CHUNK_LEN
        (9 / 10) 1 900000 ⟨0, by decide⟩ sampleCoins = .ok result ∧
      arrivals (fun _ => "image/png") ⟨"r", "p", "main"⟩ result.merkleRoot
        (result.chunks.reverse.map fun s => (s, true)) = [first, second, third] ∧
      first.chunk.chunkIndex = 2 ∧ second.chunk.chunkIndex = 1 ∧ third.chunk.chunkIndex = 0 ∧
      ∃ r db', third.store (storeAll Database.empty [first, second]) = (.ok r, db') ∧ r.complete = true := by
  obtain ⟨result, c0, c1, c2, heq, hchunks, h0, h1, h2, hall⟩ := sample_split LibCrypto.transparent
  obtain ⟨r0, hr0, hi0⟩ := (hall c0 (by simp [hchunks])).2.2.2
  obtain ⟨r1, hr1, hi1⟩ := (hall c1 (by simp [hchunks])).2.2.2
  obtain ⟨r2, hr2, hi2⟩ := (hall c2 (by simp [hchunks])).2.2.2
  have hcalls : arrivals (fun _ => "image/png") ⟨"r", "p", "main"⟩ result.merkleRoot
      (result.chunks.reverse.map fun s => (s, true)) = [⟨r2, true, true⟩, ⟨r1, true, true⟩, ⟨r0, true, true⟩] := by
    rw [hchunks]
    simp only [arrivals, List.reverse_cons, List.reverse_nil, List.nil_append, List.cons_append, List.map_cons,
      List.map_nil, List.filterMap_cons, List.filterMap_nil, hr0, hr1, hr2, Option.map_some]
  have hfrom : ∀ s ∈ result.chunks.reverse.map (fun s => (s, true)), s.1 ∈ result.chunks := by
    intro s hs
    obtain ⟨x, hx, rfl⟩ := List.mem_map.mp hs
    exact List.mem_reverse.mp hx
  obtain ⟨r, db', hstore, -, -, hstored, hcomplete⟩ := receive_store_complete.1 LibCrypto.transparent
    (.file "a.png" sampleBytes) 1 CHUNK_LEN (9 / 10) 900000 ⟨0, by decide⟩ sampleCoins _ (fun _ => "image/png")
    ⟨"r", "p", "main"⟩ Database.empty _ heq ⟨rfl, rfl⟩ hfrom [⟨r2, true, true⟩, ⟨r1, true, true⟩]
    ⟨r0, true, true⟩ [] hcalls
  refine ⟨_, _, _, _, heq, hcalls, hi2.trans h2, hi1.trans h1, hi0.trans h0, r, db', hstore,
    hcomplete.mpr fun i hi => ?_⟩
  rw [length_sampleBytes, show ceilDiv 120000 (maxBytesToCopy CHUNK_LEN (9 / 10)) = 3 by decide +kernel] at hi
  rw [hstored]
  simp only [List.cons_append, List.nil_append, List.map_cons, List.map_nil, hi0, hi1, hi2, h0, h1, h2, List.mem_cons]
  omega

end Storage

end P2Party
