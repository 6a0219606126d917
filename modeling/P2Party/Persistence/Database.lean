import Mathlib.Data.Int.Order.Basic
import Mathlib.Data.String.Basic
import P2Party.Base.Exec
import P2Party.Base.Table
import P2Party.Cryptography.LibCrypto

/-!
# The database (`db/src/getDB.ts`, `db/db.worker.ts`)

The object stores of received and sent messages, and the transactions that write them. A
request that fails aborts its transaction; a value thrown by the code between two requests
does not: what was written before it is committed. Keys are compared as IndexedDB compares
them; the texts compared between two rows of one room are Merkle roots in hexadecimal, so
the order of `String` serves.

- `Chunk`, `MessageData`, `UniqueRoom`, `Database`: the records and stores;
- `Tx`, `transact`: a transaction, and what it leaves;
- `setDBRoomMessageData`, `deleteDBMessageData`, `deleteReceiveTransfer`: the writes of
  messages other than a received chunk;
- `setDBRoomMessageData_run`, `deleteDBMessageData_run`, `deleteReceiveTransfer_run`: what
  each of them leaves.
-/

namespace P2Party

open Base

namespace Storage

/-! ## Records -/

/-- `Chunk` (types.ts:71-99). -/
structure Chunk where
  merkleRoot : String
  hash : String
  chunkIndex : Nat
  data : Option Bytes
  mimeType : String
  realLen : Option Nat
  leafHash : Option String
deriving DecidableEq

/-- `MessageData` (types.ts:55-69). -/
structure MessageData where
  transferId : Option String
  roomId : String
  timestamp : Int
  fromPeerId : String
  channelLabel : String
  hash : String
  merkleRoot : String
  filename : String
  messageType : Nat
  savedSize : Nat
  totalSize : Nat
deriving DecidableEq

/-- `UniqueRoom` (types.ts:19-28). -/
structure UniqueRoom where
  roomUrl : String
  roomId : String
  roomPolicy : Option Bytes
  messageCount : Nat
  lastMessageMerkleRoot : String
  createdAt : Int
  updatedAt : Int
deriving DecidableEq

/-- The key path of `chunks` (getDB.ts:189-191). -/
def Chunk.key (c : Chunk) : String ×ₗ Nat := toLex (c.merkleRoot, c.chunkIndex)

/-- The key path of `messageData` (getDB.ts:161-163). -/
def MessageData.key (m : MessageData) : Int ×ₗ String ×ₗ String :=
  toLex (m.timestamp, toLex (m.roomId, m.merkleRoot))

/-- The stores of messages. Chunks have no unique index beside their key. -/
structure Database where
  chunks : Table Chunk.key Chunk.key
  messageData : Table MessageData.key MessageData.merkleRoot
  uniqueRoom : Table UniqueRoom.roomId UniqueRoom.roomUrl

/-- A database without records. -/
def Database.empty : Database := ⟨.empty, .empty, .empty⟩

/-- The chunks of a root, in key order. -/
def Database.chunksOf (db : Database) (root : String) : List Chunk :=
  db.chunks.rows.filter fun c => c.merkleRoot = root

/-- The messages of a room, in key order. -/
def Database.messagesOf (db : Database) (roomId : String) : List MessageData :=
  db.messageData.rows.filter fun m => m.roomId = roomId

theorem MessageData.key_eq_iff {m n : MessageData} :
    m.key = n.key ↔ m.timestamp = n.timestamp ∧ m.roomId = n.roomId ∧ m.merkleRoot = n.merkleRoot := by
  simp [MessageData.key, Prod.ext_iff]

theorem Chunk.key_eq_iff {c d : Chunk} :
    c.key = d.key ↔ c.merkleRoot = d.merkleRoot ∧ c.chunkIndex = d.chunkIndex := by
  simp [Chunk.key, Prod.ext_iff]

/-! ## Transactions -/

/-- Why a transaction did not run to its end. -/
inductive Fault
  | thrown (error : JsError)
  | request (name : String)
deriving DecidableEq

/-- A readwrite transaction. -/
abbrev Tx := EStateM Fault Database

/-- What a transaction returns, and the database it leaves. -/
def transact {α : Type} (tx : Tx α) (db : Database) : Except Fault α × Database :=
  match tx.run db with
  | .ok a db' => (.ok a, db')
  | .error (.thrown e) db' => (.error (.thrown e), db')
  | .error (.request e) _ => (.error (.request e), db)

/-- A transaction that throws commits what it wrote before. -/
theorem transact_thrown {α : Type} {tx : Tx α} {db db' : Database} {e : JsError}
    (h : tx.run db = .error (.thrown e) db') : (transact tx db).2 = db' := by
  rw [transact, h]

theorem transact_request {α : Type} {tx : Tx α} {db db' : Database} {e : String}
    (h : tx.run db = .error (.request e) db') : (transact tx db).2 = db := by
  rw [transact, h]

theorem transact_ok {α : Type} {tx : Tx α} {db db' : Database} {a : α}
    (h : tx.run db = .ok a db') : (transact tx db).2 = db' := by
  rw [transact, h]

/-- Throw what a pure function throws. -/
def Tx.check {α : Type} : Except JsError α → Tx α
  | .ok a => pure a
  | .error e => throw (.thrown e)

/-- `messageStore.put`. -/
def putMessage (m : MessageData) : Tx Unit := do
  let db ← get
  match db.messageData.put m with
  | some messageData => set { db with messageData }
  | none => throw (.request "ConstraintError")

/-- `roomStore.put`. -/
def putRoom (r : UniqueRoom) : Tx Unit := do
  let db ← get
  match db.uniqueRoom.put r with
  | some uniqueRoom => set { db with uniqueRoom }
  | none => throw (.request "ConstraintError")

/-- The room update after a message was written (db.worker.ts:541-556, 1457-1466). -/
def noteMessage (roomId merkleRoot : String) (timestamp : Int) : Tx Unit := do
  let db ← get
  match db.uniqueRoom.get roomId with
  | none => pure ()
  | some room =>
    if room.lastMessageMerkleRoot = merkleRoot then pure ()
    else putRoom { room with
      lastMessageMerkleRoot := merkleRoot
      messageCount := room.messageCount + 1
      updatedAt := timestamp }

/-- The arguments of `fnSetDBRoomMessageData`. -/
structure LocalMessage where
  roomId : String
  merkleRootHex : String
  sha512Hex : String
  fromPeerId : String
  chunkSize : Nat
  totalSize : Nat
  messageType : Nat
  filename : String
  channelLabel : String
  timestamp : Int
  transferId : Option String

/-- The row `fnSetDBRoomMessageData` writes, given the row there was. -/
def LocalMessage.row (a : LocalMessage) (msg : Option MessageData) : MessageData where
  transferId := a.transferId
  roomId := a.roomId
  timestamp := a.timestamp
  merkleRoot := a.merkleRootHex
  hash := a.sha512Hex
  fromPeerId := a.fromPeerId
  filename := a.filename
  messageType := a.messageType
  savedSize :=
    let savedSize := (msg.map (·.savedSize)).getD 0
    if savedSize + a.chunkSize ≤ a.totalSize then savedSize + a.chunkSize else a.totalSize
  totalSize := a.totalSize
  channelLabel := a.channelLabel

/-- `fnSetDBRoomMessageData` (db.worker.ts:488-564). -/
def setDBRoomMessageData (a : LocalMessage) : Tx Unit := do
  let db ← get
  putMessage (a.row (db.messageData.lookup a.merkleRootHex))
  noteMessage a.roomId a.merkleRootHex a.timestamp

/-- Delete the listed messages; the room of the first one that has an id
(db.worker.ts:2285-2292, 2372-2378). -/
def deleteMessages : List MessageData → String → Tx String
  | [], roomId => pure roomId
  | m :: ms, roomId => do
    modify fun db => { db with messageData := db.messageData.delete m.key }
    deleteMessages ms (if roomId = "" then m.roomId else roomId)

/-- The room update after its messages were deleted (db.worker.ts:2294-2313, 2380-2394); the
two callers count differently. -/
def settleRoom (roomId : String) (now : Int) (count : UniqueRoom → Nat → Nat) : Tx Unit :=
  if roomId = "" then pure ()
  else do
    let db ← get
    match db.uniqueRoom.get roomId with
    | none => pure ()
    | some room =>
      let lastMessage := (db.messagesOf roomId).getLast?
      putRoom { room with
        messageCount := count room (db.messagesOf roomId).length
        updatedAt := (lastMessage.map (·.timestamp)).getD now
        lastMessageMerkleRoot := (lastMessage.map (·.merkleRoot)).getD "" }

/-- `fnDeleteDBMessageData` (db.worker.ts:2274-2316), its transaction; `now` is `Date.now()`. -/
def deleteDBMessageData (merkleRootHex : String) (now : Int) : Tx Unit := do
  let db ← get
  let roomId ← deleteMessages (db.messageData.rows.filter fun m => m.merkleRoot = merkleRootHex) ""
  settleRoom roomId now fun room _ => if 0 < room.messageCount then room.messageCount - 1 else 0

/-- `/^[0-9a-f]+$/`, on a text that is not empty. -/
def isLowerHex (text : String) : Bool :=
  text.toList.all fun c => ('0' ≤ c && c ≤ '9') || ('a' ≤ c && c ≤ 'f')

/-- The chunks once those of a root are deleted (db.worker.ts:2363-2366). -/
def Database.deleteChunks (db : Database) (root : String) : Table Chunk.key Chunk.key :=
  (db.chunksOf root).foldl (fun t c => t.delete c.key) db.chunks

/-- `fnDeleteReceiveTransferLocked` (db.worker.ts:2342-2397), its transaction. -/
def deleteReceiveTransfer (merkleRootHex : String) (now : Int) : Tx Unit := do
  Tx.check (demand (merkleRootHex.length = 2 * 64 ∧ isLowerHex merkleRootHex = true)
    (.error "invalid receive transfer Merkle root"))
  modify fun db => { db with chunks := db.deleteChunks merkleRootHex }
  let db ← get
  let roomId ← deleteMessages (db.messageData.rows.filter fun m => m.merkleRoot = merkleRootHex) ""
  settleRoom roomId now fun _ remainingCount => remainingCount

/-! ## What the transactions leave -/

theorem putMessage_run (m : MessageData) (db : Database) :
    (putMessage m).run db =
      match db.messageData.put m with
      | some messageData => .ok () { db with messageData }
      | none => .error (.request "ConstraintError") db := by
  unfold putMessage
  rw [run_get_bind]
  cases db.messageData.put m <;> rfl

/-- A room can always be updated in place. -/
theorem putRoom_run {db : Database} {room r : UniqueRoom} (h : db.uniqueRoom.get room.roomId = some room)
    (hid : r.roomId = room.roomId) (hurl : r.roomUrl = room.roomUrl) :
    ∃ rooms, (putRoom r).run db = .ok () { db with uniqueRoom := rooms } ∧
      ∀ k, rooms.get k = if k = room.roomId then some r else db.uniqueRoom.get k := by
  have hmem := (Table.get_eq_some_iff.mp h).1
  obtain ⟨rooms, hput⟩ : ∃ rooms, db.uniqueRoom.put r = some rooms := by
    refine Table.put_isSome fun r' hr' hu => ?_
    rw [hid, db.uniqueRoom.eq_of_index hr' hmem (hu.trans hurl)]
  refine ⟨rooms, ?_, fun k => ?_⟩
  · unfold putRoom
    rw [run_get_bind, hput]
    rfl
  · rw [Table.get_put hput, hid]

/-- A room once a message was written. -/
def UniqueRoom.noted (room : UniqueRoom) (merkleRoot : String) (timestamp : Int) : UniqueRoom :=
  if room.lastMessageMerkleRoot = merkleRoot then room
  else { room with
    lastMessageMerkleRoot := merkleRoot
    messageCount := room.messageCount + 1
    updatedAt := timestamp }

theorem noteMessage_run (roomId merkleRoot : String) (timestamp : Int) (db : Database) :
    ∃ rooms, (noteMessage roomId merkleRoot timestamp).run db = .ok () { db with uniqueRoom := rooms } ∧
      ∀ k, rooms.get k =
        if k = roomId then (db.uniqueRoom.get roomId).map (·.noted merkleRoot timestamp)
        else db.uniqueRoom.get k := by
  unfold noteMessage
  rw [run_get_bind]
  cases h : db.uniqueRoom.get roomId with
  | none =>
    refine ⟨db.uniqueRoom, rfl, fun k => ?_⟩
    split
    · next hk => rw [hk, h, Option.map_none]
    · rfl
  | some room =>
    have hid : room.roomId = roomId := (Table.get_eq_some_iff.mp h).2
    subst hid
    by_cases hlast : room.lastMessageMerkleRoot = merkleRoot
    · refine ⟨db.uniqueRoom, ?_, fun k => ?_⟩
      · simp only [if_pos hlast]
        rfl
      · split
        · next hk => rw [hk, h, Option.map_some, UniqueRoom.noted, if_pos hlast]
        · rfl
    · simp only [if_neg hlast, Option.map_some, UniqueRoom.noted]
      exact putRoom_run h rfl rfl

/-- A local message is refused by the index of roots, or replaces the row of its key and is
noted by its room. -/
theorem setDBRoomMessageData_run (a : LocalMessage) (db : Database) :
    (db.messageData.put (a.row (db.messageData.lookup a.merkleRootHex)) = none ∧
      (setDBRoomMessageData a).run db = .error (.request "ConstraintError") db) ∨
    ∃ messages rooms,
      db.messageData.put (a.row (db.messageData.lookup a.merkleRootHex)) = some messages ∧
      (setDBRoomMessageData a).run db = .ok () ⟨db.chunks, messages, rooms⟩ ∧
      ∀ k, rooms.get k =
        if k = a.roomId then (db.uniqueRoom.get a.roomId).map (·.noted a.merkleRootHex a.timestamp)
        else db.uniqueRoom.get k := by
  unfold setDBRoomMessageData
  rw [run_get_bind]
  cases hput : db.messageData.put (a.row (db.messageData.lookup a.merkleRootHex)) with
  | none =>
    refine Or.inl ⟨rfl, run_bind_of_error ?_⟩
    rw [putMessage_run, hput]
  | some messages =>
    obtain ⟨rooms, hrun, hrooms⟩ :=
      noteMessage_run a.roomId a.merkleRootHex a.timestamp ⟨db.chunks, messages, db.uniqueRoom⟩
    refine Or.inr ⟨messages, rooms, rfl, ?_, hrooms⟩
    rw [run_bind_of_ok (by rw [putMessage_run, hput]), hrun]

theorem deleteMessages_lookup (db : Database) (root : String) :
    (deleteMessages (db.messageData.rows.filter fun m => m.merkleRoot = root) "").run db =
      match db.messageData.lookup root with
      | none => .ok "" db
      | some m => .ok m.roomId { db with messageData := db.messageData.delete m.key } := by
  rw [Table.filter_index]
  cases db.messageData.lookup root <;> rfl

/-- The room of deleted messages gets the new count. -/
theorem settleRoom_run (roomId : String) (now : Int) (count : UniqueRoom → Nat → Nat) (db : Database) :
    ∃ rooms, (settleRoom roomId now count).run db = .ok () { db with uniqueRoom := rooms } ∧
      ∀ k, (rooms.get k).map (·.messageCount) =
        if k = roomId ∧ roomId ≠ "" then
          (db.uniqueRoom.get roomId).map fun room => count room (db.messagesOf roomId).length
        else (db.uniqueRoom.get k).map (·.messageCount) := by
  unfold settleRoom
  by_cases hblank : roomId = ""
  · refine ⟨db.uniqueRoom, ?_, fun k => ?_⟩
    · rw [if_pos hblank]
      rfl
    · rw [if_neg fun h => h.2 hblank]
  · rw [if_neg hblank, run_get_bind]
    cases hroom : db.uniqueRoom.get roomId with
    | none =>
      refine ⟨db.uniqueRoom, rfl, fun k => ?_⟩
      split
      · next hk => rw [hk.1, hroom, Option.map_none, Option.map_none]
      · rfl
    | some room =>
      have hid : room.roomId = roomId := (Table.get_eq_some_iff.mp hroom).2
      obtain ⟨rooms, hrun, hrooms⟩ := @putRoom_run db room { room with
        messageCount := count room (db.messagesOf roomId).length
        updatedAt := ((db.messagesOf roomId).getLast?.map (·.timestamp)).getD now
        lastMessageMerkleRoot := ((db.messagesOf roomId).getLast?.map (·.merkleRoot)).getD "" }
        (hid ▸ hroom) rfl rfl
      refine ⟨rooms, hrun, fun k => ?_⟩
      rw [hrooms, hid]
      by_cases hk : k = roomId
      · rw [if_pos hk, if_pos ⟨hk, hblank⟩, Option.map_some, Option.map_some]
      · rw [if_neg hk, if_neg fun h => hk h.1]

/-- Deleting a message takes its row, and one from the count of its room. -/
theorem deleteDBMessageData_run (root : String) (now : Int) (db : Database) :
    (db.messageData.lookup root = none ∧ (deleteDBMessageData root now).run db = .ok () db) ∨
    ∃ m rooms, db.messageData.lookup root = some m ∧
      (deleteDBMessageData root now).run db = .ok () ⟨db.chunks, db.messageData.delete m.key, rooms⟩ ∧
      ∀ k, (rooms.get k).map (·.messageCount) =
        if k = m.roomId ∧ m.roomId ≠ "" then
          (db.uniqueRoom.get m.roomId).map fun room => room.messageCount - 1
        else (db.uniqueRoom.get k).map (·.messageCount) := by
  unfold deleteDBMessageData
  rw [run_get_bind]
  have hdel := deleteMessages_lookup db root
  cases hm : db.messageData.lookup root with
  | none =>
    rw [hm] at hdel
    refine Or.inl ⟨rfl, ?_⟩
    rw [run_bind_of_ok hdel]
    rfl
  | some m =>
    rw [hm] at hdel
    obtain ⟨rooms, hrun, hrooms⟩ := settleRoom_run m.roomId now
      (fun room _ => if 0 < room.messageCount then room.messageCount - 1 else 0)
      { db with messageData := db.messageData.delete m.key }
    refine Or.inr ⟨m, rooms, rfl, ?_, fun k => ?_⟩
    · rw [run_bind_of_ok hdel, hrun]
    · have hcount : ∀ room : UniqueRoom,
          (if 0 < room.messageCount then room.messageCount - 1 else 0) = room.messageCount - 1 := by
        intro room
        split <;> omega
      rw [hrooms]
      simp only [hcount]

/-- Deleting a received transfer takes its chunks and its row, and counts its room again. -/
theorem deleteReceiveTransfer_run (root : String) (now : Int) (db : Database) :
    (∃ e, (deleteReceiveTransfer root now).run db = .error (.thrown e) db) ∨
    (db.messageData.lookup root = none ∧
      ∃ chunks, (deleteReceiveTransfer root now).run db = .ok () { db with chunks }) ∨
    ∃ m chunks rooms, db.messageData.lookup root = some m ∧
      (deleteReceiveTransfer root now).run db = .ok () ⟨chunks, db.messageData.delete m.key, rooms⟩ ∧
      ∀ k, (rooms.get k).map (·.messageCount) =
        if k = m.roomId ∧ m.roomId ≠ "" then
          (db.uniqueRoom.get m.roomId).map fun _ =>
            ((db.messageData.delete m.key).rows.filter fun x => x.roomId = m.roomId).length
        else (db.uniqueRoom.get k).map (·.messageCount) := by
  unfold deleteReceiveTransfer
  by_cases hroot : root.length = 2 * 64 ∧ isLowerHex root = true
  · rw [demand_of hroot, run_bind_of_ok (rfl : (Tx.check (.ok ())).run db = .ok () db), run_modify_bind,
      run_get_bind]
    have hdel := deleteMessages_lookup { db with chunks := db.deleteChunks root } root
    refine Or.inr ?_
    cases hm : db.messageData.lookup root with
    | none =>
      rw [hm] at hdel
      refine Or.inl ⟨rfl, db.deleteChunks root, ?_⟩
      rw [run_bind_of_ok hdel]
      rfl
    | some m =>
      rw [hm] at hdel
      obtain ⟨rooms, hrun, hrooms⟩ := settleRoom_run m.roomId now (fun _ remainingCount => remainingCount)
        ⟨db.deleteChunks root, db.messageData.delete m.key, db.uniqueRoom⟩
      refine Or.inr ⟨m, db.deleteChunks root, rooms, rfl, ?_, hrooms⟩
      rw [run_bind_of_ok hdel, hrun]
  · refine Or.inl ⟨.error "invalid receive transfer Merkle root", run_bind_of_error ?_⟩
    rw [demand, if_neg hroot]
    rfl

end Storage

end P2Party
