import Mathlib.Data.Finset.Card
import P2Party.Base.OrdMap
import P2Party.Messages.MerkleBinding
import P2Party.PqHealing.Frame
import P2Party.Persistence.ReceiveCompleteness

/-!
# Receipts (`utils/receiptToken.ts`, `handlers/receiptFrame.ts`, `handlers/reconcile.ts`, `handlers/handleReadReceipt.ts`)

A receiver answers a stored chunk with a token that binds the root, the index and the leaf, and
a complete message with the hash of its content. The sender looks the token up among its staged
chunks and notes the chunk for the peer; nothing else than receipts is noted there.

- `createChunkReceiptToken`, `receiptInput_inj`: the token, and what it hashes;
- `encodeReceiptFrame`, `decodeReceiptFrame`: the frame of a receipt;
- `NewChunk`, `fnGetDBNewChunkByReceipt`: the staged chunks and the index `receiptScope`;
- `Edge`, `markChunkAcked`, `markTransferComplete`, `getTransferAcks`: what the sender knows of
  each peer, and `mem_getTransferAcks`: the acknowledgements of one transfer are its own;
- `handleReadReceipt`: a receipt that arrives.

This is the immediate mode. A scheduled send notes completion from the receipt of its cover job as
well (coverEdge.ts:115-121), which is not modelled.
-/

namespace P2Party

open Base PqHealing Storage

variable (L : LibCrypto)

/-! ## The token of a chunk -/

/-- `CHUNK_RECEIPT_DOMAIN` (receiptToken.ts:8-10). -/
def CHUNK_RECEIPT_DOMAIN : Bytes := textEncode "p2party/protocol-v3/chunk-receipt/v1" ++ [0]

/-- What the token of a chunk hashes (receiptToken.ts:24-38). -/
def receiptInput (merkleRoot : Bytes) (chunkIndex : Nat) (leafHash : Bytes) : Bytes :=
  CHUNK_RECEIPT_DOMAIN ++ (merkleRoot ++ (beBytes 8 chunkIndex ++ leafHash))

/-- `createChunkReceiptToken` (receiptToken.ts:12-42). -/
def createChunkReceiptToken (merkleRoot : Bytes) (chunkIndex : Nat) (leafHash : Bytes) :
    Except JsError Bytes := do
  demand (merkleRoot.length = HASH_BYTES) (.error "Chunk receipt Merkle root must be 64 bytes")
  demand (leafHash.length = HASH_BYTES) (.error "Chunk receipt leaf hash must be 64 bytes")
  demand (chunkIndex ≤ MAX_SAFE_INTEGER) (.error "Chunk receipt index must be a safe unsigned integer")
  return L.sha512 (receiptInput merkleRoot chunkIndex leafHash)

variable {L} in
theorem createChunkReceiptToken_eq_ok {merkleRoot leafHash token : Bytes} {chunkIndex : Nat} :
    createChunkReceiptToken L merkleRoot chunkIndex leafHash = .ok token ↔
      merkleRoot.length = HASH_BYTES ∧ leafHash.length = HASH_BYTES ∧ chunkIndex ≤ MAX_SAFE_INTEGER ∧
        token = L.sha512 (receiptInput merkleRoot chunkIndex leafHash) := by
  unfold createChunkReceiptToken
  constructor
  · intro h
    obtain ⟨_, hroot, h⟩ := except_bind_eq_ok.mp h
    obtain ⟨_, hleaf, h⟩ := except_bind_eq_ok.mp h
    obtain ⟨_, hindex, h⟩ := except_bind_eq_ok.mp h
    exact ⟨demand_eq_ok.mp hroot, demand_eq_ok.mp hleaf, demand_eq_ok.mp hindex,
      (except_pure_eq_ok.mp h).symm⟩
  · rintro ⟨hroot, hleaf, hindex, rfl⟩
    rw [demand_of hroot, ok_bind, demand_of hleaf, ok_bind, demand_of hindex, ok_bind]
    rfl

/-- What is hashed tells the root, the index and the leaf. -/
theorem receiptInput_inj {root root' leaf leaf' : Bytes} {i i' : Nat} (hroot : root.length = root'.length)
    (hi : i ≤ MAX_SAFE_INTEGER) (hi' : i' ≤ MAX_SAFE_INTEGER)
    (h : receiptInput root i leaf = receiptInput root' i' leaf') : root = root' ∧ i = i' ∧ leaf = leaf' := by
  unfold receiptInput at h
  obtain ⟨hroots, h⟩ := List.append_inj (List.append_cancel_left h) hroot
  obtain ⟨hindex, hleaf⟩ := List.append_inj h (by rw [length_beBytes, length_beBytes])
  have hbound : ∀ n, n ≤ MAX_SAFE_INTEGER → n < 256 ^ 8 := fun n hn => Nat.lt_of_le_of_lt hn (by decide)
  exact ⟨hroots, beBytes_inj (hbound i hi) (hbound i' hi') hindex, hleaf⟩

/-! ## The frame of a receipt -/

/-- `FRAME_TYPE_RECEIPT`. -/
def FRAME_TYPE_RECEIPT : UInt8 := 3

/-- `RECEIPT_TOKEN_LEN`. -/
abbrev RECEIPT_TOKEN_LEN : Nat := HASH_BYTES

/-- `WIRE_RECEIPT_FRAME_LEN`. -/
abbrev WIRE_RECEIPT_FRAME_LEN : Nat := 1 + RECEIPT_TOKEN_LEN

/-- `encodeReceiptFrame` (receiptFrame.ts:16-24). -/
def encodeReceiptFrame (token : Bytes) : Except JsError Bytes := do
  demand (token.length = RECEIPT_TOKEN_LEN) (.error "Receipt token must be exactly 64 bytes")
  return FRAME_TYPE_RECEIPT :: token

/-- `decodeReceiptFrame` (receiptFrame.ts:27-32). -/
def decodeReceiptFrame (frame : Bytes) : Option Bytes :=
  if frame.length = WIRE_RECEIPT_FRAME_LEN ∧ frame[0]? = some FRAME_TYPE_RECEIPT then some (frame.drop 1)
  else none

/-- A frame is read as a token exactly if it is the frame of that token. -/
theorem decodeReceiptFrame_eq_some_iff {frame token : Bytes} :
    decodeReceiptFrame frame = some token ↔ encodeReceiptFrame token = .ok frame := by
  unfold decodeReceiptFrame encodeReceiptFrame
  constructor
  · intro h
    split at h
    case isTrue hframe =>
      cases h
      obtain ⟨hlength, htag⟩ := hframe
      cases frame with
      | nil => cases htag
      | cons tag rest =>
        cases Option.some.inj htag
        rw [List.length_cons, Nat.add_comm] at hlength
        rw [demand_of (by simpa using Nat.add_left_cancel hlength), ok_bind]
        rfl
    case isFalse => cases h
  · intro h
    obtain ⟨_, hlength, h⟩ := except_bind_eq_ok.mp h
    cases except_pure_eq_ok.mp h
    rw [if_pos ⟨by rw [List.length_cons, demand_eq_ok.mp hlength, Nat.add_comm], rfl⟩]
    rfl

/-! ## Staged chunks -/

/-- `NewChunk` (types.ts:134-147). -/
structure NewChunk where
  transferId : String
  hash : String
  chunkIndex : Nat
  merkleRoot : String
  leafHash : String
  receiptToken : String
  data : Bytes
  metadata : Bytes
  merkleProof : Bytes
deriving DecidableEq

/-- The key path of `newChunks` (getDB.ts:215-217). -/
def NewChunk.key (c : NewChunk) : String ×ₗ Nat := toLex (c.transferId, c.chunkIndex)

/-- The object store `newChunks`. No index of it is unique. -/
abbrev NewChunks := Table NewChunk.key NewChunk.key

theorem NewChunk.key_eq_iff {c d : NewChunk} :
    c.key = d.key ↔ c.transferId = d.transferId ∧ c.chunkIndex = d.chunkIndex := by
  simp [NewChunk.key, Prod.ext_iff]

/-- `fnSetDBNewChunk` (db.worker.ts:1754-1761). -/
def fnSetDBNewChunk (c : NewChunk) (rows : NewChunks) : NewChunks := (rows.put c).getD rows

/-- `fnGetDBNewChunk` (db.worker.ts:588-598). -/
def fnGetDBNewChunk (transferId : String) (chunkIndex : Nat) (rows : NewChunks) : Option NewChunk :=
  rows.get (toLex (transferId, chunkIndex))

/-- `fnGetDBNewChunkByReceipt` (db.worker.ts:600-619): the first row of the index `receiptScope`,
whose rows of one value are in key order. -/
def fnGetDBNewChunkByReceipt (merkleRootHex receiptTokenHex : String) (rows : NewChunks) : Option NewChunk :=
  if merkleRootHex.length ≠ HASH_BYTES * 2 ∨ receiptTokenHex.length ≠ HASH_BYTES * 2 then none
  else rows.rows.find? fun c => c.merkleRoot = merkleRootHex && c.receiptToken = receiptTokenHex

/-- `fnDeleteDBNewChunk` for a transfer (db.worker.ts:2224-2253). -/
def fnDeleteDBNewChunk (transferId : String) (rows : NewChunks) : NewChunks :=
  (rows.rows.filter fun c => c.transferId = transferId).foldl (fun t c => t.delete c.key) rows

theorem mem_fnSetDBNewChunk {c x : NewChunk} {rows : NewChunks} :
    x ∈ (fnSetDBNewChunk c rows).rows ↔ x = c ∨ (x ∈ rows.rows ∧ x.key ≠ c.key) := by
  obtain ⟨rows', hput⟩ := @Table.put_isSome _ _ _ _ _ _ _ rows c fun _ _ h => h
  rw [fnSetDBNewChunk, hput, Option.getD_some]
  exact Table.mem_put hput

theorem fnGetDBNewChunk_eq_some {transferId : String} {i : Nat} {rows : NewChunks} {c : NewChunk} :
    fnGetDBNewChunk transferId i rows = some c ↔ c ∈ rows.rows ∧ c.transferId = transferId ∧ c.chunkIndex = i := by
  rw [fnGetDBNewChunk, Table.get_eq_some_iff]
  simp [NewChunk.key, Prod.ext_iff]

theorem mem_of_fnGetDBNewChunkByReceipt {root token : String} {rows : NewChunks} {c : NewChunk}
    (h : fnGetDBNewChunkByReceipt root token rows = some c) :
    c ∈ rows.rows ∧ c.merkleRoot = root ∧ c.receiptToken = token := by
  unfold fnGetDBNewChunkByReceipt at h
  split at h
  · cases h
  · exact ⟨List.mem_of_find?_eq_some h, by simpa using List.find?_some h⟩

theorem mem_of_mem_fnDeleteDBNewChunk {transferId : String} {rows : NewChunks} {x : NewChunk}
    (h : x ∈ (fnDeleteDBNewChunk transferId rows).rows) : x ∈ rows.rows := by
  unfold fnDeleteDBNewChunk at h
  generalize rows.rows.filter (fun c => c.transferId = transferId) = gone at h
  induction gone generalizing rows with
  | nil => exact h
  | cons c gone ih => exact (Table.mem_delete.mp (ih h)).1

/-! ## What the sender knows of a peer -/

namespace Delivery

/-- `Edge` (reconcile.ts:15). -/
structure Edge where
  acked : Finset Nat
  complete : Bool
deriving DecidableEq

/-- `edges` (reconcile.ts:17). -/
abbrev Edges := OrdMap (List Char) Edge

/-- The separator of a key. -/
abbrev separator : Char := Char.ofNat 0

/-- `key` (reconcile.ts:18-19), character by character. -/
def key (roomId peerId transferId : String) : List Char :=
  roomId.toList ++ separator :: (peerId.toList ++ separator :: transferId.toList)

/-- The edge of a key, or a new one (reconcile.ts:21-29). -/
def Edges.edge (roomId peerId transferId : String) (edges : Edges) : Edge :=
  (edges.get (key roomId peerId transferId)).getD ⟨∅, false⟩

/-- `markChunkAcked` (reconcile.ts:31-41). -/
def markChunkAcked (roomId peerId transferId : String) (chunkIndex : Nat) (edges : Edges) : Bool × Edges :=
  let e := edges.edge roomId peerId transferId
  (decide (chunkIndex ∉ e.acked),
    edges.set (key roomId peerId transferId) { e with acked := insert chunkIndex e.acked })

/-- `getAckedChunks` (reconcile.ts:45-49), which makes the edge if there is none. -/
def getAckedChunks (roomId peerId transferId : String) (edges : Edges) : Finset Nat × Edges :=
  let e := edges.edge roomId peerId transferId
  (e.acked, edges.set (key roomId peerId transferId) e)

/-- `markTransferComplete` (reconcile.ts:59-68). -/
def markTransferComplete (roomId peerId transferId : String) (edges : Edges) : Bool × Edges :=
  let e := edges.edge roomId peerId transferId
  (decide (e.complete = false), edges.set (key roomId peerId transferId) { e with complete := true })

/-- `isTransferComplete` (reconcile.ts:94-98). -/
def isTransferComplete (roomId peerId transferId : String) (edges : Edges) : Bool :=
  (edges.edge roomId peerId transferId).complete

/-- `clearTransfer` (reconcile.ts:142-148). -/
def clearTransfer (roomId peerId transferId : String) (edges : Edges) : Edges :=
  edges.delete (key roomId peerId transferId)

/-- `TransferAck` (reconcile.ts:100-110). -/
structure TransferAck where
  peerId : List Char
  ackedChunks : Nat
  complete : Bool
deriving DecidableEq

/-- `getTransferAcks` (reconcile.ts:124-140). -/
def getTransferAcks (roomId transferId : String) (edges : Edges) : List TransferAck :=
  edges.entries.filterMap fun e =>
    let before := roomId.toList ++ [separator]
    let after := separator :: transferId.toList
    if before.isPrefixOf e.1 = false ∨ after.isSuffixOf e.1 = false then none
    else some ⟨(e.1.drop before.length).take (e.1.length - after.length - before.length), e.2.acked.card,
      e.2.complete⟩

/-! ### The keys -/

/-- An id without the separator: ids are UUIDs, and 32 bytes in hexadecimal. -/
def Plain (id : String) : Prop := separator ∉ id.toList

instance (id : String) : Decidable (Plain id) := inferInstanceAs (Decidable (_ ∉ _))

theorem key_inj {room room' peer peer' transfer transfer' : String} (hroom : Plain room)
    (hroom' : Plain room') (hpeer : Plain peer) (hpeer' : Plain peer')
    (h : key room peer transfer = key room' peer' transfer') :
    room = room' ∧ peer = peer' ∧ transfer = transfer' := by
  obtain ⟨hrooms, h⟩ := append_sep_inj hroom hroom' h
  obtain ⟨hpeers, htransfers⟩ := append_sep_inj hpeer hpeer' h
  exact ⟨String.toList_inj.mp hrooms, String.toList_inj.mp hpeers, String.toList_inj.mp htransfers⟩

/-- A key with the prefix of a room and the suffix of a transfer is one of theirs. -/
theorem key_of_affixes {room room' peer transfer transfer' : String} (hroom : Plain room)
    (hroom' : Plain room') (htransfer : Plain transfer) (htransfer' : Plain transfer') {k : List Char}
    (hk : k = key room' peer transfer')
    (hbefore : (room.toList ++ [separator]).isPrefixOf k = true)
    (hafter : (separator :: transfer.toList).isSuffixOf k = true) : room' = room ∧ transfer' = transfer := by
  obtain ⟨rest, hrest⟩ := List.isPrefixOf_iff_prefix.mp hbefore
  obtain ⟨front, hfront⟩ := List.isSuffixOf_iff_suffix.mp hafter
  constructor
  · rw [hk, List.append_assoc] at hrest
    exact (String.toList_inj.mp (append_sep_inj hroom hroom' hrest).1).symm
  · -- read backwards, the transfer comes first
    have hback := congrArg List.reverse (hfront.trans hk)
    simp only [key, List.reverse_append, List.reverse_cons, List.append_assoc, List.singleton_append] at hback
    have hplain : ∀ id : String, Plain id → separator ∉ id.toList.reverse :=
      fun id hid hmem => hid (List.mem_reverse.mp hmem)
    have heq := (append_sep_inj (hplain _ htransfer) (hplain _ htransfer') hback).1
    exact (String.toList_inj.mp (List.reverse_inj.mp heq)).symm

/-! ### The edges afterwards -/

section Edges

variable {room peer transfer : String} {edges : Edges}

theorem edge_set_self (e : Edge) :
    Edges.edge room peer transfer (edges.set (key room peer transfer) e) = e := by
  rw [Edges.edge, OrdMap.get_set_self, Option.getD_some]

theorem edge_set_ne {room' peer' transfer' : String} (e : Edge)
    (h : key room' peer' transfer' ≠ key room peer transfer) :
    Edges.edge room' peer' transfer' (edges.set (key room peer transfer) e) =
      Edges.edge room' peer' transfer' edges := by
  rw [Edges.edge, OrdMap.get_set_ne _ _ h]
  rfl

theorem edge_clearTransfer_self :
    Edges.edge room peer transfer (clearTransfer room peer transfer edges) = ⟨∅, false⟩ := by
  rw [Edges.edge, clearTransfer, OrdMap.get_delete_self]
  rfl

theorem edge_clearTransfer_ne {room' peer' transfer' : String}
    (h : key room' peer' transfer' ≠ key room peer transfer) :
    Edges.edge room' peer' transfer' (clearTransfer room peer transfer edges) =
      Edges.edge room' peer' transfer' edges := by
  rw [Edges.edge, clearTransfer, OrdMap.get_delete_ne _ h]
  rfl

/-- What is reported of a transfer is what an edge of the transfer holds, when every key is that
of a room, a peer and a transfer. -/
theorem mem_getTransferAcks (hroom : Plain room) (htransfer : Plain transfer)
    (hkeys : ∀ k ∈ edges.keys, ∃ room' peer' transfer', k = key room' peer' transfer' ∧ Plain room' ∧
      Plain peer' ∧ Plain transfer') {ack : TransferAck} :
    ack ∈ getTransferAcks room transfer edges ↔
      ∃ peer e, Plain peer ∧ edges.get (key room peer transfer) = some e ∧
        ack = ⟨peer.toList, e.acked.card, e.complete⟩ := by
  unfold getTransferAcks
  rw [List.mem_filterMap]
  have hread : ∀ peer : String, ((key room peer transfer).drop (room.toList ++ [separator]).length).take
      ((key room peer transfer).length - (separator :: transfer.toList).length
        - (room.toList ++ [separator]).length) = peer.toList := by
    intro peer
    have hkey : key room peer transfer
        = (room.toList ++ [separator]) ++ (peer.toList ++ (separator :: transfer.toList)) := by
      rw [key, List.append_assoc]
      rfl
    have hlength : (key room peer transfer).length - (separator :: transfer.toList).length
        - (room.toList ++ [separator]).length = peer.toList.length := by
      rw [hkey]
      simp only [List.length_append]
      omega
    rw [hlength, hkey, List.drop_left, List.take_left]
  constructor
  · rintro ⟨⟨k, e⟩, hmem, hack⟩
    dsimp only at hack
    split at hack
    case isTrue => cases hack
    case isFalse haffixes =>
      obtain ⟨room', peer', transfer', hk, hroom', hpeer', htransfer'⟩ :=
        hkeys k (OrdMap.mem_keys_iff.mpr ⟨e, hmem⟩)
      rw [not_or, Bool.not_eq_false, Bool.not_eq_false] at haffixes
      obtain ⟨rfl, rfl⟩ := key_of_affixes hroom hroom' htransfer htransfer' hk haffixes.1 haffixes.2
      subst hk
      refine ⟨peer', e, hpeer', OrdMap.get_eq_some_iff.mpr hmem, ?_⟩
      rw [hread] at hack
      exact (Option.some.inj hack).symm
  · rintro ⟨peer, e, -, hget, rfl⟩
    refine ⟨(key room peer transfer, e), OrdMap.get_eq_some_iff.mp hget, ?_⟩
    dsimp only
    have hbefore : (room.toList ++ [separator]).isPrefixOf (key room peer transfer) = true := by
      refine List.isPrefixOf_iff_prefix.mpr ⟨peer.toList ++ separator :: transfer.toList, ?_⟩
      rw [key, List.append_assoc]
      rfl
    have hafter : (separator :: transfer.toList).isSuffixOf (key room peer transfer) = true := by
      refine List.isSuffixOf_iff_suffix.mpr ⟨room.toList ++ separator :: peer.toList, ?_⟩
      rw [key, List.append_assoc]
      rfl
    rw [if_neg (by rw [hbefore, hafter]; simp), hread]

end Edges

/-! ## A receipt that arrives -/

/-- What a receipt looks at of a message in a room. -/
structure RoomMessage where
  merkleRootHex : String
  sha512Hex : String
  transferId : Option String
deriving DecidableEq

/-- A room and its messages. -/
structure Room where
  id : String
  messages : List RoomMessage
deriving DecidableEq

/-- `ReadReceiptOutcome` (handleReadReceipt.ts:10-27). -/
inductive ReadReceiptOutcome
  | ignored (peerId : String)
  | chunkAcked (peerId transferId : String) (chunkIndex : Nat) (newlyAccepted : Bool)
  | peerComplete (peerId transferId : String) (newlyAccepted : Bool)
deriving DecidableEq

/-- The message and the transfer a receipt on a channel is about (handleReadReceipt.ts:46-60). -/
def receiptTarget (rooms : List Room) (roomId merkleRootHex : String) : Option (RoomMessage × String) := do
  let room ← rooms.find? fun r => r.id = roomId
  let message ← room.messages.reverse.find? fun m => m.merkleRootHex = merkleRootHex
  let transferId ← message.transferId
  if transferId = "" then none else return (message, transferId)

/-- `handleReadReceipt` (handleReadReceipt.ts:29-107), once the label of the channel is read. -/
def handleReadReceipt (receivedChunkHash : Bytes) (merkleRootHex peerId roomId : String) (rooms : List Room)
    (newChunks : NewChunks) (edges : Edges) : ReadReceiptOutcome × Edges :=
  let hex := uint8ArrayToHex receivedChunkHash
  match receiptTarget rooms roomId merkleRootHex with
  | none => (.ignored peerId, edges)
  | some (message, transferId) =>
    if hex = message.sha512Hex then
      let (newlyAccepted, edges) := markTransferComplete roomId peerId transferId edges
      (.peerComplete peerId transferId newlyAccepted, edges)
    else
      match fnGetDBNewChunkByReceipt merkleRootHex hex newChunks with
      | none => (.ignored peerId, edges)
      | some chunk =>
        if chunk.transferId = transferId then
          let (newlyAccepted, edges) := markChunkAcked roomId peerId transferId chunk.chunkIndex edges
          (.chunkAcked peerId transferId chunk.chunkIndex newlyAccepted, edges)
        else (.ignored peerId, edges)

/-- What a receipt does to the edges: nothing, or it notes one chunk, or completion, for the
transfer its channel is about. -/
theorem handleReadReceipt_cases (token : Bytes) (root peerId roomId : String) (rooms : List Room)
    (newChunks : NewChunks) (edges : Edges) :
    (handleReadReceipt token root peerId roomId rooms newChunks edges).2 = edges ∨
    (∃ message transferId, receiptTarget rooms roomId root = some (message, transferId) ∧
      uint8ArrayToHex token = message.sha512Hex ∧
      (handleReadReceipt token root peerId roomId rooms newChunks edges).2 =
        (markTransferComplete roomId peerId transferId edges).2) ∨
    (∃ message transferId chunk, receiptTarget rooms roomId root = some (message, transferId) ∧
      chunk ∈ newChunks.rows ∧ chunk.merkleRoot = root ∧ chunk.receiptToken = uint8ArrayToHex token ∧
      chunk.transferId = transferId ∧
      (handleReadReceipt token root peerId roomId rooms newChunks edges).2 =
        (markChunkAcked roomId peerId transferId chunk.chunkIndex edges).2) := by
  unfold handleReadReceipt
  cases htarget : receiptTarget rooms roomId root with
  | none => exact Or.inl rfl
  | some target =>
    obtain ⟨message, transferId⟩ := target
    dsimp only
    by_cases hhash : uint8ArrayToHex token = message.sha512Hex
    · rw [if_pos hhash]
      exact Or.inr (Or.inl ⟨message, transferId, rfl, hhash, rfl⟩)
    · rw [if_neg hhash]
      cases hrow : fnGetDBNewChunkByReceipt root (uint8ArrayToHex token) newChunks with
      | none => exact Or.inl rfl
      | some chunk =>
        dsimp only
        obtain ⟨hmem, hroot, htoken⟩ := mem_of_fnGetDBNewChunkByReceipt hrow
        by_cases hid : chunk.transferId = transferId
        · rw [if_pos hid]
          exact Or.inr (Or.inr ⟨message, transferId, chunk, rfl, hmem, hroot, htoken, hid, rfl⟩)
        · rw [if_neg hid]
          exact Or.inl rfl

theorem receiptTarget_eq_some {rooms : List Room} {roomId root transferId : String} {message : RoomMessage}
    (h : receiptTarget rooms roomId root = some (message, transferId)) :
    ∃ room ∈ rooms, room.id = roomId ∧ message ∈ room.messages ∧ message.merkleRootHex = root ∧
      message.transferId = some transferId := by
  unfold receiptTarget at h
  obtain ⟨room, hroom, h⟩ := Option.bind_eq_some_iff.mp h
  obtain ⟨m, hm, h⟩ := Option.bind_eq_some_iff.mp h
  obtain ⟨id, hid, h⟩ := Option.bind_eq_some_iff.mp h
  split at h
  · cases h
  · cases h
    exact ⟨room, List.mem_of_find?_eq_some hroom, by simpa using List.find?_some hroom,
      List.mem_reverse.mp (List.mem_of_find?_eq_some hm), by simpa using List.find?_some hm, hid⟩

end Delivery

end P2Party
