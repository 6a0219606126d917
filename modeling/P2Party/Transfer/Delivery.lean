import P2Party.Base.Runs
import P2Party.Transfer.Receipts
import P2Party.Messages.SendGeometry

/-!
# A sender, its receivers and the receipts between them

A sender stages the chunks of a message and sends them, to any of its peers and as often as it
likes. A peer stores what it opens and answers with receipts, and repeats its receipts when a
channel is opened again. Frames and receipts may be lost, repeated, delayed and reordered: what
was ever put on a channel can arrive at any time, any number of times. Storage may fail, calls may
be aborted, and a peer may lose what it stored.

Sends are in immediate mode: that the receipt of a scheduled send calls `markTransferComplete` too
(coverEdge.ts:115-121) is not modelled. What a peer has is told by its records of chunks and of
messages; the bytes that the records stand for are written elsewhere (OPFS).

- `Transfer`, `Channel`, `System`: the sends, the message channels and the two ends;
- `sendRound`: a round of `sendChunks`;
- `handleReceiveMessage`, `processMessage`: a frame that arrives, once it is opened or is not;
- `replayTokens`, `replayTerminal`: the receipts a peer repeats;
- `Event`, `System.step`, `Allowed`: what happens, and what is assumed of it.
-/

namespace P2Party

open Base Storage

namespace Delivery

/-! ## Sends and channels -/

/-- What `handleSendMessage` holds of a send once its message is split. -/
structure Transfer where
  roomId : String
  transferId : String
  label : String
  message : Outgoing
  result : SplitResult

namespace Transfer

/-- `merkleRootHex`. -/
def rootHex (t : Transfer) : String := uint8ArrayToHex t.result.merkleRoot

/-- The message of the room (splitToChunks.ts:390-406). -/
def roomMessage (t : Transfer) : RoomMessage :=
  ⟨t.rootHex, uint8ArrayToHex t.result.hash, some t.transferId⟩

/-- The row of a staged chunk (splitToChunks.ts:264-274). -/
def newChunk (t : Transfer) (s : StagedChunk) : NewChunk where
  transferId := t.transferId
  hash := uint8ArrayToHex t.result.hash
  chunkIndex := s.chunkIndex
  merkleRoot := ""
  leafHash := uint8ArrayToHex s.leafHash
  receiptToken := ""
  data := s.data
  metadata := s.metadata
  merkleProof := []

end Transfer

/-- A message channel to a peer, and what its label says. -/
structure Channel where
  roomId : String
  peerId : String
  label : String
  merkleRoot : Bytes
deriving DecidableEq

/-- The channel of a send to a peer. -/
def Transfer.channel (t : Transfer) (peerId : String) : Channel := ⟨t.roomId, peerId, t.label, t.result.merkleRoot⟩

/-- The parts of a cell that is sealed. -/
structure Cell where
  metadata : Bytes
  merkleProof : Bytes
  data : Bytes
deriving DecidableEq

/-- The sender's sends, rooms, staged chunks and edges; the databases of the peers; and what was ever
put on a channel. -/
structure System where
  transfers : List Transfer
  rooms : List Room
  newChunks : NewChunks
  edges : Edges
  stores : String → Database
  frames : Channel → List Cell
  receipts : Channel → List Bytes

/-- Nothing is sent yet. -/
def System.start (rooms : List Room) (newChunks : NewChunks) (stores : String → Database) : System where
  transfers := []
  rooms := rooms
  newChunks := newChunks
  edges := OrdMap.empty
  stores := stores
  frames := fun _ => []
  receipts := fun _ => []

variable (L : LibCrypto)

/-! ## The sender -/

/-- The token of a row (handleSendMessage.ts:220-230): computed for a row that has none yet, and else
taken from it. -/
def outboundToken (merkleRoot : Bytes) (chunkIndex : Nat) (leafHash : Bytes) (stored : String) :
    Except JsError String :=
  if stored.length = HASH_BYTES * 2 then .ok stored
  else (createChunkReceiptToken L merkleRoot chunkIndex leafHash).map uint8ArrayToHex

/-- What a round has of a chunk before it sends it (handleSendMessage.ts:165-236): `none` for a chunk
that the pass skips, and else the row as it is to be. -/
def prepareChunk (t : Transfer) (i : Nat) (reconcileAcked : Option (Finset Nat))
    (padding : RandomBytes PROOF_LEN) (rows : NewChunks) : Except JsError (Option (NewChunk × NewChunk)) := do
  match fnGetDBNewChunk t.transferId i rows with
  | none => throw (.error s!"Missing staged outbound chunk {i}")
  | some row =>
    let metadata ← deserializeMetadata row.metadata
    demand (metadata.chunkIndex = i ∧ row.chunkIndex = i)
      (.error "Outbound chunk index does not match its staging key")
    if ∃ acked ∈ reconcileAcked, isRealChunk metadata = false ∨ metadata.chunkIndex ∈ acked then return none
    else
      let leafHash := hexDecode row.leafHash.toList
      let merkleProof ← outboundProof L (t.result.chunks.flatMap (·.leafHash)) leafHash row.merkleProof padding
      let receiptToken ← outboundToken L t.result.merkleRoot metadata.chunkIndex leafHash row.receiptToken
      return some (row, { row with
        hash := uint8ArrayToHex t.result.hash, merkleRoot := t.rootHex, receiptToken, merkleProof })

/-- A round of `sendChunks` on an open channel (handleSendMessage.ts:163-325), as far as the cell it
seals: the row is written before the cell is sent. -/
def sendRound (t : Transfer) (i : Nat) (reconcileAcked : Option (Finset Nat))
    (padding : RandomBytes PROOF_LEN) (rows : NewChunks) : Except JsError (Option Cell) × NewChunks :=
  match prepareChunk L t i reconcileAcked padding rows with
  | .error e => (.error e, rows)
  | .ok none => (.ok none, rows)
  | .ok (some (old, row)) =>
    let rows :=
      if old.merkleProof.length = 0 ∨ old.merkleRoot ≠ row.merkleRoot ∨ old.receiptToken ≠ row.receiptToken then
        fnSetDBNewChunk row rows
      else rows
    if DECRYPTED_LEN = row.metadata.length + row.merkleProof.length + row.data.length then
      (.ok (some ⟨row.metadata, row.merkleProof, row.data⟩), rows)
    else (.error (.error "Outbound staged chunk has invalid cell length"), rows)

/-! ## A peer -/

/-- `ReceiveMessageResult` (handleReceiveMessage.ts:22-34), what receipts need of it; no index stands
for -1. -/
structure ReceiveMessageResult where
  chunkIndex : Option Nat
  chunkSize : Nat
  receivedFullSize : Bool
  totalSize : Nat
  chunkHash : Bytes
  messageHash : Bytes
deriving DecidableEq

/-- `dropped` (handleReceiveMessage.ts:39-50). -/
def dropped : ReceiveMessageResult := ⟨none, 0, false, 0, [], []⟩

/-- `rejectedResult` (handleReceiveMessage.ts:224-235). -/
def rejectedResult (m : Metadata) (leafHash : Bytes) : ReceiveMessageResult :=
  ⟨none, 0, false, m.totalSize, leafHash, m.hash⟩

/-- How it goes with a frame: whether it opens and its proof holds, when its call is aborted, what the
storage does, whether the file of the message closes, and a random receipt. -/
structure Reception where
  opened : Bool
  aborted : Bool
  wroteToOPFS : Bool
  committed : Bool
  abortedAfterStore : Bool
  abortedAtLast : Bool
  fileClosed : Bool
  decoy : Bytes

section Peer

variable (getMimeType : Nat → String) (me : String)

/-- The metadata of a chunk, checked (handleReceiveMessage.ts:214-215). -/
def checkedMetadata (metadata : Bytes) : Except JsError Metadata := do
  let m ← deserializeMetadata metadata
  assertMetadataV1 m
  return m

/-- `handleReceiveMessage` (handleReceiveMessage.ts:101-329) from the decrypted cell on; `me` is the
peer the frames come from. -/
def handleReceiveMessage (c : Channel) (cell : Cell) (r : Reception) (db : Database) :
    ReceiveMessageResult × Database :=
  if r.opened = false ∨ r.aborted = true then (dropped, db)
  else
    match checkedMetadata cell.metadata with
    | .error _ => (dropped, db)
    | .ok m =>
      let leafHash := hashMerkleLeaf L cell.data
      match receiveChunkOf getMimeType ⟨c.roomId, me, c.label⟩ c.merkleRoot
          ⟨m.chunkIndex, leafHash, cell.data, cell.metadata⟩ with
      | none => (rejectedResult m leafHash, db)
      | some chunk =>
        match createChunkReceiptToken L c.merkleRoot m.chunkIndex leafHash with
        | .error _ => (dropped, db)
        | .ok receiptToken =>
          match storeReceiveChunkLocked chunk r.wroteToOPFS r.committed db with
          | (.error _, db) => (dropped, db)
          | (.ok progress, db) =>
            if r.abortedAfterStore then (dropped, db)
            else (⟨some m.chunkIndex, chunk.realLen, progress.complete, m.totalSize, receiptToken, m.hash⟩, db)

/-- The token `sendReceiveFrameReceipt` sends (handleMessageQueueing.ts:300-317). -/
def sendReceiveFrameReceipt (result : ReceiveMessageResult) (decoy : Bytes) : Bytes :=
  if 0 < result.totalSize ∧ result.chunkHash.length = HASH_BYTES ∧ result.chunkIndex.isSome = true ∧
      0 < result.chunkSize then result.chunkHash
  else decoy

/-- `processMessage` without scheduled cover (handleMessageQueueing.ts:319-445), once the gate is
open: the tokens it sends, and the database. -/
def processMessage (c : Channel) (cell : Cell) (r : Reception) (db : Database) : List Bytes × Database :=
  let (result, db) := handleReceiveMessage L getMimeType me c cell r db
  if r.abortedAtLast then ([], db)
  else
    (sendReceiveFrameReceipt result r.decoy ::
      if result.receivedFullSize = true ∧ r.fileClosed = true then [result.messageHash] else [], db)

/-- `fnGetDBAllChunkLeafHashes` (db.worker.ts:733-765). -/
def fnGetDBAllChunkLeafHashes (merkleRootHex : String) (db : Database) : List (Nat × Option String) :=
  if merkleRootHex.length ≠ 2 * HASH_BYTES then []
  else (db.chunksOf merkleRootHex).map fun c => (c.chunkIndex, c.leafHash)

/-- The tokens of stored chunks (handleOpenChannel.ts:965-976). -/
def storedTokens (merkleRoot : Bytes) : List (Nat × Option String) → Except JsError (List Bytes)
  | [] => .ok []
  | (chunkIndex, leafHash) :: rest =>
    match leafHash with
    | none => storedTokens merkleRoot rest
    | some leafHash =>
      if leafHash.length ≠ HASH_BYTES * 2 then storedTokens merkleRoot rest
      else do
        let token ← createChunkReceiptToken L merkleRoot chunkIndex (hexDecode leafHash.toList)
        let tokens ← storedTokens merkleRoot rest
        return token :: tokens

/-- What a peer sends first on a channel that is opened again (handleOpenChannel.ts:955-985). -/
def replayTokens (c : Channel) (db : Database) : List Bytes :=
  ((storedTokens L c.merkleRoot (fnGetDBAllChunkLeafHashes (uint8ArrayToHex c.merkleRoot) db)).toOption).getD []

/-- What it sends then, for a message it has whole (handleOpenChannel.ts:987-997). -/
def replayTerminal (c : Channel) (db : Database) : List Bytes :=
  match db.messageData.lookup (uint8ArrayToHex c.merkleRoot) with
  | none => []
  | some md =>
    if 0 < md.totalSize ∧ md.savedSize = md.totalSize ∧ md.hash.length = HASH_BYTES * 2 then
      [hexDecode md.hash.toList]
    else []

end Peer

/-! ## What happens -/

/-- `sendReceiptFrame`, on what is on the channel. -/
def sendReceiptFrame (receipts : List Bytes) (token : Bytes) : List Bytes :=
  receipts ++ (encodeReceiptFrame token).toOption.toList

/-- A peer sends receipts. -/
def System.answered (s : System) (c : Channel) (tokens : List Bytes) : System :=
  { s with receipts := Function.update s.receipts c (tokens.foldl sendReceiptFrame (s.receipts c)) }

/-- The database of a peer changes. -/
def System.stored (s : System) (peerId : String) (db : Database) : System :=
  { s with stores := Function.update s.stores peerId db }

@[simp] theorem answered_stores (s : System) (c : Channel) (tokens : List Bytes) :
    (s.answered c tokens).stores = s.stores := rfl

@[simp] theorem answered_receipts (s : System) (c : Channel) (tokens : List Bytes) :
    (s.answered c tokens).receipts c = tokens.foldl sendReceiptFrame (s.receipts c) :=
  Function.update_self ..

theorem answered_receipts_ne (s : System) {c c' : Channel} (tokens : List Bytes) (h : c' ≠ c) :
    (s.answered c tokens).receipts c' = s.receipts c' :=
  Function.update_of_ne h ..

@[simp] theorem stored_stores (s : System) (peerId : String) (db : Database) :
    (s.stored peerId db).stores peerId = db :=
  Function.update_self ..

/-- What happens to the sender, the channels and the peers. -/
inductive Event
  /-- `splitToChunks` returns. -/
  | stage (t : Transfer)
  /-- Another message is noted in a room. -/
  | note (roomId : String) (m : RoomMessage)
  /-- Messages are dropped from a room. -/
  | forget (roomId : String) (kept : RoomMessage → Bool)
  /-- The staged chunks of a send are released. -/
  | release (transferId : String)
  /-- `clearTransfer`. -/
  | clear (roomId peerId transferId : String)
  /-- `getAckedChunks`. -/
  | read (roomId peerId transferId : String)
  /-- A round of a pass, for the send at a position. -/
  | send (n : Nat) (peerId : String) (i : Nat) (reconcileAcked : Option (Finset Nat))
      (padding : RandomBytes PROOF_LEN)
  /-- A frame arrives. -/
  | receive (c : Channel) (k : Nat) (r : Reception)
  /-- A frame arrives that no send made. -/
  | cover (c : Channel) (decoy : Bytes)
  /-- A peer repeats the receipts of its chunks. -/
  | replayChunks (c : Channel)
  /-- A peer repeats the last receipt. -/
  | replayTerminal (c : Channel)
  /-- Something else happens to the database of a peer. -/
  | other (peerId : String) (db : Database)
  /-- A receipt arrives. -/
  | receipt (c : Channel) (k : Nat)

variable (getMimeType : Nat → String) (me : String)

/-- What an event does. -/
def System.step : Event → System → System
  | .stage t, s =>
    { s with
      transfers := s.transfers ++ [t]
      rooms := s.rooms.map fun r =>
        if r.id = t.roomId then { r with messages := r.messages ++ [t.roomMessage] } else r
      newChunks := t.result.chunks.foldl (fun rows c => fnSetDBNewChunk (t.newChunk c) rows) s.newChunks }
  | .note roomId m, s =>
    { s with rooms := s.rooms.map fun r =>
        if r.id = roomId then { r with messages := r.messages ++ [m] } else r }
  | .forget roomId kept, s =>
    { s with rooms := s.rooms.map fun r =>
        if r.id = roomId then { r with messages := r.messages.filter kept } else r }
  | .release transferId, s => { s with newChunks := fnDeleteDBNewChunk transferId s.newChunks }
  | .clear roomId peerId transferId, s => { s with edges := clearTransfer roomId peerId transferId s.edges }
  | .read roomId peerId transferId, s =>
    { s with edges := (getAckedChunks roomId peerId transferId s.edges).2 }
  | .send n peerId i reconcileAcked padding, s =>
    match s.transfers[n]? with
    | none => s
    | some t =>
      match sendRound L t i reconcileAcked padding s.newChunks with
      | (.ok (some cell), newChunks) =>
        { s with
          newChunks := newChunks
          frames := Function.update s.frames (t.channel peerId) (s.frames (t.channel peerId) ++ [cell]) }
      | (_, newChunks) => { s with newChunks := newChunks }
  | .receive c k r, s =>
    match (s.frames c)[k]? with
    | none => s
    | some cell =>
      let (tokens, db) := processMessage L getMimeType me c cell r (s.stores c.peerId)
      (s.stored c.peerId db).answered c tokens
  | .cover c decoy, s => s.answered c [decoy]
  | .replayChunks c, s => s.answered c (replayTokens L c (s.stores c.peerId))
  | .replayTerminal c, s => s.answered c (Delivery.replayTerminal c (s.stores c.peerId))
  | .other peerId db, s => s.stored peerId db
  | .receipt c k, s =>
    match (s.receipts c)[k]? with
    | none => s
    | some frame =>
      match decodeReceiptFrame frame with
      | none => s
      | some token =>
        { s with edges := (handleReadReceipt token (uint8ArrayToHex c.merkleRoot) c.peerId c.roomId s.rooms
            s.newChunks s.edges).2 }

/-! ## What is assumed -/

/-- What the receipts of a send hash: the message, and for each chunk what its token binds. -/
def Transfer.receiptInputs (t : Transfer) : List Bytes :=
  t.result.chunks.map fun c => receiptInput t.result.merkleRoot c.chunkIndex c.leafHash

/-- The receipts of a send. -/
def Transfer.tokens (t : Transfer) : List Bytes :=
  L.sha512 t.message.bytes :: t.receiptInputs.map L.sha512

/-- The send comes from `splitToChunks`, and SHA-512 has no collision among what its receipts hash. -/
structure Split (t : Transfer) : Prop where
  split : ∃ (minChunks chunkSize : Nat) (fill : ℚ) (availableSpace : Nat) (time : TimeValue)
    (coins : SplitCoins chunkSize),
    splitToChunks L t.message minChunks chunkSize fill 1 availableSpace time coins = .ok t.result
  apart : t.message.bytes ∉ t.receiptInputs
  noCollision : NoCollision L (t.message.bytes :: t.receiptInputs)
  roomId : Plain t.roomId
  transferId : Plain t.transferId

/-- The random identity and the random noise of a send are new. -/
structure Fresh (t : Transfer) (s : System) : Prop where
  transfers : ∀ t' ∈ s.transfers, t'.transferId ≠ t.transferId ∧ t'.result.merkleRoot ≠ t.result.merkleRoot
  rooms : ∀ r ∈ s.rooms, ∀ m ∈ r.messages, m.transferId ≠ some t.transferId
  newChunks : ∀ c ∈ s.newChunks.rows, c.transferId ≠ t.transferId
  edges : ∀ roomId peerId, key roomId peerId t.transferId ∉ s.edges.keys
  stores : ∀ peerId, (s.stores peerId).Lacks t.rootHex
  receipts : ∀ c, c.merkleRoot = t.result.merkleRoot → s.receipts c = []

/-- A random receipt is none of those of the sends on its channel. -/
def IsDecoy (c : Channel) (decoy : Bytes) (s : System) : Prop :=
  ∀ t ∈ s.transfers, c.merkleRoot = t.result.merkleRoot → decoy ∉ t.tokens L

/-- A database has nothing new of a root. -/
structure NothingNew (root : String) (before after : Database) : Prop where
  chunks : ∀ c ∈ after.chunks.rows, c.merkleRoot = root → c ∈ before.chunks.rows
  message : ∀ m, after.messageData.lookup root = some m → before.messageData.lookup root = some m

/-- What is assumed of an event: a send is new; the other messages of a room are not the sender's; a
random receipt is no real one; ids have no zero in them; and a peer may lose what it has of a
message but does not make it up. -/
def Allowed : Event → System → Prop
  | .stage t, s => Split L t ∧ Fresh t s
  | .note _ m, _ => m.transferId = none
  | .read roomId peerId transferId, _ => Plain roomId ∧ Plain peerId ∧ Plain transferId
  | .clear roomId peerId transferId, _ => Plain roomId ∧ Plain peerId ∧ Plain transferId
  | .receive c _ r, s => IsDecoy L c r.decoy s
  | .cover c decoy, s => IsDecoy L c decoy s
  | .other peerId db, s => ∀ t ∈ s.transfers, NothingNew t.rootHex (s.stores peerId) db
  | .receipt c _, _ => Plain c.roomId ∧ Plain c.peerId
  | _, _ => True

end Delivery

end P2Party
