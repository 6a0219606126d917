import P2Party.Persistence.ReceiveStore

/-!
# The message count of a room

The record of a room counts its messages. A deletion takes one from the count, or counts
again; a chunk that is stored and a message that is sent add one when the room's last root
is another, whether or not their message is already counted. So the count is exact along
every run in which a written root is the room's last root exactly when its message has a
row, and chunks of two messages that alternate count every change.

- `Worker`, `Action`, `Worker.step`, `Worker.run`: every interleaving of the worker's
  transactions in messages, the calls for one root being ordered by its lock;
- `Counted`: the count is the number of rows;
- `Tallies`, `counted_noted_iff`: when a write keeps the count exact;
- `KeepsCount`, `message_count_exact`: every run of such writes;
- `message_count_alternating`: two messages whose chunks alternate.
-/

namespace P2Party

open Base

namespace Storage

/-! ## The worker -/

/-- How far a call of `storeReceiveChunkLocked` has come. -/
inductive Stage
  | checked
  | preflighted
deriving DecidableEq

/-- The database and the calls on their way. -/
structure Worker where
  db : Database
  calls : List (Call Stage)

/-- A stretch of the worker's code between two awaits, as far as it concerns messages. -/
inductive Action
  | beginReceive (chunk : ReceiveChunk)
  | preflight (i : Nat)
  | commit (i : Nat) (wroteToOPFS : Bool)
  | setDBRoomMessageData (a : LocalMessage)
  | deleteDBMessageData (merkleRootHex : String) (now : Int)
  | deleteReceiveTransfer (merkleRootHex : String) (now : Int)

namespace Worker

/-- The database after a transaction, which the storage may have failed to commit. -/
def leaves {α : Type} (committed : Bool) (tx : Tx α) (db : Database) : Database :=
  if committed then (transact tx db).2 else db

/-- One stretch; `committed` is whether the storage commits its transaction. -/
def step (w : Worker) (s : Action × Bool) : Worker :=
  match s.1 with
  | .beginReceive chunk =>
    { w with calls := beginCall .checked chunk w.db w.calls }
  | .preflight i =>
    { w with calls := preflightCall .checked (fun _ => .preflighted) i w.db w.calls }
  | .commit i wroteToOPFS =>
    match w.calls[i]? with
    | some ⟨chunk, .preflighted⟩ =>
      ⟨leaves s.2 (receiveCommit chunk wroteToOPFS) w.db, w.calls.eraseIdx i⟩
    | _ => w
  | .setDBRoomMessageData a => { w with db := leaves s.2 (setDBRoomMessageData a) w.db }
  | .deleteDBMessageData root now => { w with db := leaves s.2 (deleteDBMessageData root now) w.db }
  | .deleteReceiveTransfer root now =>
    if rootLocked w.calls root then w
    else { w with db := leaves s.2 (deleteReceiveTransfer root now) w.db }

/-- A sequence of stretches. -/
def run (w : Worker) (steps : List (Action × Bool)) : Worker := steps.foldl step w

end Worker

/-! ## The count -/

/-- The rows of a room. -/
def Database.countOf (db : Database) (roomId : String) : Nat :=
  db.messageData.rows.countP fun m => m.roomId = roomId

/-- The record of the room counts its rows. -/
def Counted (roomId : String) (db : Database) : Prop :=
  ∀ room, db.uniqueRoom.get roomId = some room → room.messageCount = db.countOf roomId

/-- A root is the last root of the room exactly when its message has a row. -/
def Tallies (db : Database) (roomId root : String) : Prop :=
  ∀ room, db.uniqueRoom.get roomId = some room →
    ((db.messageData.lookup root).isSome ↔ room.lastMessageMerkleRoot = root)

/-- The transaction of a chunk gets as far as the message row. -/
def Writes (c : ReceiveChunk) (db : Database) : Prop :=
  db.chunks.get c.key = none ∧
    (∃ p, validateLayout c.totalSize (db.slotsOf c.merkleRoot ++ [c.slot]) = .ok p) ∧
    assertManifest c (db.messageData.lookup c.merkleRoot) = .ok ()

/-- A deletion of the root leaves the blank room alone: it is not updated. -/
def SparesBlank (db : Database) (roomId root : String) : Prop :=
  ∀ m, db.messageData.lookup root = some m → m.roomId = roomId → roomId = "" →
    db.uniqueRoom.get roomId = none

/-- What a stretch needs of the state before it. -/
def KeepsCount (roomId : String) (w : Worker) : Action → Prop
  | .commit i _ => ∀ chunk, w.calls[i]? = some ⟨chunk, .preflighted⟩ → chunk.roomId = roomId →
      Writes chunk w.db → Tallies w.db roomId chunk.merkleRoot
  | .setDBRoomMessageData a => a.roomId = roomId →
      (w.db.messageData.put (a.row (w.db.messageData.lookup a.merkleRootHex))).isSome →
      Tallies w.db roomId a.merkleRootHex
  | .deleteDBMessageData root _ => SparesBlank w.db roomId root
  | .deleteReceiveTransfer root _ => SparesBlank w.db roomId root
  | _ => True

/-- A run every stretch of which finds what it needs. -/
def Good (roomId : String) (w : Worker) : List (Action × Bool) → Prop
  | [] => True
  | s :: rest => KeepsCount roomId w s.1 ∧ Good roomId (w.step s) rest

instance (roomId : String) (db : Database) : Decidable (Counted roomId db) :=
  inferInstanceAs (Decidable (∀ room ∈ db.uniqueRoom.get roomId, room.messageCount = db.countOf roomId))

instance (db : Database) (roomId root : String) : Decidable (Tallies db roomId root) :=
  inferInstanceAs (Decidable (∀ room ∈ db.uniqueRoom.get roomId,
    ((db.messageData.lookup root).isSome ↔ room.lastMessageMerkleRoot = root)))

instance (c : ReceiveChunk) (db : Database) : Decidable (Writes c db) :=
  decidable_of_iff (db.chunks.get c.key = none ∧
      (validateLayout c.totalSize (db.slotsOf c.merkleRoot ++ [c.slot])).isOk = true ∧
      (assertManifest c (db.messageData.lookup c.merkleRoot)).isOk = true) <| by
    have hok : ∀ {α : Type} (x : Except JsError α), x.isOk = true ↔ ∃ a, x = .ok a := by
      intro α x
      cases x <;> simp [Except.isOk, Except.toBool]
    rw [hok, hok]
    exact and_congr_right fun _ => and_congr_right fun _ => ⟨fun ⟨_, h⟩ => h, fun h => ⟨(), h⟩⟩

instance (db : Database) (roomId root : String) : Decidable (SparesBlank db roomId root) :=
  inferInstanceAs (Decidable (∀ m ∈ db.messageData.lookup root, m.roomId = roomId → roomId = "" →
    db.uniqueRoom.get roomId = none))

instance (roomId : String) (w : Worker) : (a : Action) → Decidable (KeepsCount roomId w a)
  | .beginReceive _ => isTrue trivial
  | .preflight _ => isTrue trivial
  | .commit i _ =>
    decidable_of_iff (∀ call ∈ w.calls[i]?, call.stage = .preflighted → call.chunk.roomId = roomId →
        Writes call.chunk w.db → Tallies w.db roomId call.chunk.merkleRoot)
      ⟨fun h chunk hcall => h _ hcall rfl, fun h call hcall hstage =>
        h call.chunk (hcall.trans (by rw [← hstage]))⟩
  | .setDBRoomMessageData a =>
    inferInstanceAs (Decidable (a.roomId = roomId →
      (w.db.messageData.put (a.row (w.db.messageData.lookup a.merkleRootHex))).isSome →
      Tallies w.db roomId a.merkleRootHex))
  | .deleteDBMessageData root _ => inferInstanceAs (Decidable (SparesBlank w.db roomId root))
  | .deleteReceiveTransfer root _ => inferInstanceAs (Decidable (SparesBlank w.db roomId root))

instance decidableGood (roomId : String) :
    (w : Worker) → (steps : List (Action × Bool)) → Decidable (Good roomId w steps)
  | _, [] => isTrue trivial
  | w, s :: rest =>
    have := decidableGood roomId (w.step s) rest
    inferInstanceAs (Decidable (KeepsCount roomId w s.1 ∧ Good roomId (w.step s) rest))

/-! ## One write -/

/-- A row that is accepted adds one to its room unless its root had a row. -/
theorem countP_put_row {db : Database} {row : MessageData}
    {messages : Table MessageData.key MessageData.merkleRoot}
    (hput : db.messageData.put row = some messages) (roomId : String) :
    messages.rows.countP (fun m => m.roomId = roomId) = db.countOf roomId +
      if row.roomId = roomId ∧ db.messageData.lookup row.merkleRoot = none then 1 else 0 := by
  cases hlook : db.messageData.lookup row.merkleRoot with
  | none =>
    have hnew : ∀ m ∈ db.messageData.rows, m.key ≠ row.key := by
      intro m hm hk
      exact Table.lookup_eq_none_iff.mp hlook m hm (MessageData.key_eq_iff.mp hk).2.2
    rw [Table.countP_put_new _ hput hnew]
    simp [Database.countOf]
  | some o =>
    obtain ⟨ho, hroot⟩ := Table.lookup_eq_some_iff.mp hlook
    have hk : o.key = row.key := by
      by_contra hne
      exact (Table.put_eq_some_iff.mp hput).1 (Table.clashes_iff.mpr ⟨o, ho, hne, hroot⟩)
    rw [Table.countP_put_old _ hput ho hk (by rw [(MessageData.key_eq_iff.mp hk).2.1])]
    simp [Database.countOf]

/-- A write that its room notes keeps the count exact in exactly one case. -/
theorem counted_noted_iff {db : Database} {roomId : String} {row : MessageData}
    {chunks : Table Chunk.key Chunk.key} {messages : Table MessageData.key MessageData.merkleRoot}
    {rooms : Table UniqueRoom.roomId UniqueRoom.roomUrl} (timestamp : Int) (hc : Counted roomId db)
    (hput : db.messageData.put row = some messages) (hroom : row.roomId = roomId)
    (hrooms : rooms.get roomId = (db.uniqueRoom.get roomId).map (·.noted row.merkleRoot timestamp)) :
    Counted roomId ⟨chunks, messages, rooms⟩ ↔ Tallies db roomId row.merkleRoot := by
  have hcount : Database.countOf ⟨chunks, messages, rooms⟩ roomId = _ := countP_put_row hput roomId
  unfold Counted Tallies
  cases hget : db.uniqueRoom.get roomId with
  | none => simp [hrooms, hget]
  | some room =>
    have hexact := hc room hget
    simp only [hrooms, hget, Option.map_some, Option.some.injEq, forall_eq', hcount]
    cases hlook : db.messageData.lookup row.merkleRoot with
    | none =>
      by_cases hlast : room.lastMessageMerkleRoot = row.merkleRoot
      · simp [UniqueRoom.noted, hlast, hroom, hexact]
      · simp [UniqueRoom.noted, hlast, hroom, hexact]
    | some o =>
      by_cases hlast : room.lastMessageMerkleRoot = row.merkleRoot
      · simp [UniqueRoom.noted, hlast, hexact]
      · simp [UniqueRoom.noted, hlast, hexact]

/-- A write in another room does not concern the count. -/
theorem counted_noted_other {db : Database} {roomId : String} {row : MessageData}
    {chunks : Table Chunk.key Chunk.key} {messages : Table MessageData.key MessageData.merkleRoot}
    {rooms : Table UniqueRoom.roomId UniqueRoom.roomUrl} (hc : Counted roomId db)
    (hput : db.messageData.put row = some messages) (hroom : row.roomId ≠ roomId)
    (hrooms : rooms.get roomId = db.uniqueRoom.get roomId) :
    Counted roomId ⟨chunks, messages, rooms⟩ := by
  intro room hget
  have hcount := countP_put_row hput roomId
  rw [if_neg fun h => hroom h.1, Nat.add_zero] at hcount
  rw [show Database.countOf ⟨chunks, messages, rooms⟩ roomId = db.countOf roomId from hcount]
  exact hc room (hrooms ▸ hget)

/-- The transaction of a chunk. -/
theorem counted_commit {db : Database} {roomId : String} (c : ReceiveChunk) (wroteToOPFS : Bool)
    (hc : Counted roomId db)
    (hkeeps : c.roomId = roomId → Writes c db → Tallies db roomId c.merkleRoot) :
    Counted roomId (transact (receiveCommit c wroteToOPFS) db).2 := by
  cases hget : db.chunks.get c.key with
  | some r =>
    have hrun := @receiveCommit_present c wroteToOPFS db (by rw [hget]; nofun)
    cases hv : validateLayout c.totalSize (db.slotsOf c.merkleRoot) with
    | error e => rwa [transact_thrown (hrun.trans (by rw [hv]))]
    | ok p => rwa [transact_ok (hrun.trans (by rw [hv]))]
  | none =>
    cases hv : validateLayout c.totalSize (db.slotsOf c.merkleRoot ++ [c.slot]) with
    | error e => rwa [transact_thrown (receiveCommit_unfit hget hv)]
    | ok p =>
      obtain ⟨chunks, -, ⟨e, -, hrun⟩ | ⟨messages, rooms, hmanifest, hput, hrun, hrooms⟩⟩ :=
        @receiveCommit_fit c wroteToOPFS db p hget hv
      · -- the chunk is there but neither its row nor its room has changed
        rw [transact_thrown hrun]
        exact hc
      · rw [transact_ok hrun]
        by_cases hroom : c.roomId = roomId
        · refine (counted_noted_iff c.timestamp hc hput hroom ?_).mpr
            (hkeeps hroom ⟨hget, ⟨p, hv⟩, hmanifest⟩)
          rw [hrooms, if_pos hroom.symm, hroom]
          rfl
        · refine counted_noted_other hc hput hroom ?_
          rw [hrooms, if_neg fun h => hroom h.symm]

/-- A message that is sent. -/
theorem counted_set {db : Database} {roomId : String} (a : LocalMessage) (hc : Counted roomId db)
    (hkeeps : a.roomId = roomId →
      (db.messageData.put (a.row (db.messageData.lookup a.merkleRootHex))).isSome →
      Tallies db roomId a.merkleRootHex) :
    Counted roomId (transact (setDBRoomMessageData a) db).2 := by
  obtain ⟨-, hrun⟩ | ⟨messages, rooms, hput, hrun, hrooms⟩ := setDBRoomMessageData_run a db
  · rwa [transact_request hrun]
  · rw [transact_ok hrun]
    by_cases hroom : a.roomId = roomId
    · refine (counted_noted_iff a.timestamp hc hput hroom ?_).mpr (hkeeps hroom (by rw [hput]; rfl))
      rw [hrooms, if_pos hroom.symm, hroom]
      rfl
    · refine counted_noted_other hc hput hroom ?_
      rw [hrooms, if_neg fun h => hroom h.symm]

/-- A row that is deleted, with any rule that counts its room right. -/
theorem counted_deleted {db : Database} {roomId : String} {m : MessageData} {count : UniqueRoom → Nat}
    {chunks : Table Chunk.key Chunk.key} {rooms : Table UniqueRoom.roomId UniqueRoom.roomUrl}
    (hc : Counted roomId db) (hm : m ∈ db.messageData.rows)
    (hspares : m.roomId = roomId → roomId = "" → db.uniqueRoom.get roomId = none)
    (hrooms : ∀ k, (rooms.get k).map (·.messageCount) =
      if k = m.roomId ∧ m.roomId ≠ "" then (db.uniqueRoom.get m.roomId).map count
      else (db.uniqueRoom.get k).map (·.messageCount))
    (hcount : m.roomId = roomId → ∀ room, db.uniqueRoom.get roomId = some room →
      count room = (db.messageData.delete m.key).rows.countP fun x => x.roomId = roomId) :
    Counted roomId ⟨chunks, db.messageData.delete m.key, rooms⟩ := by
  intro room hget
  have hroom := hrooms roomId
  rw [hget, Option.map_some] at hroom
  by_cases hin : m.roomId = roomId
  · by_cases hblank : roomId = ""
    · rw [if_neg fun h => h.2 (hin.trans hblank), hspares hin hblank] at hroom
      exact absurd hroom (by simp)
    · rw [if_pos ⟨hin.symm, hin ▸ hblank⟩, hin] at hroom
      obtain ⟨old, hold, hcounted⟩ := Option.map_eq_some_iff.mp hroom.symm
      rw [← hcounted]
      exact hcount hin old hold
  · rw [if_neg fun h => hin h.1.symm] at hroom
    obtain ⟨old, hold, hcounted⟩ := Option.map_eq_some_iff.mp hroom.symm
    have hkept := Table.countP_delete (fun x : MessageData => decide (x.roomId = roomId)) hm
    rw [if_neg (by simpa using hin), Nat.add_zero] at hkept
    rw [← hcounted, hc old hold]
    exact hkept.symm

/-- A message that is deleted. -/
theorem counted_delete {db : Database} {roomId : String} (root : String) (now : Int)
    (hc : Counted roomId db) (hspares : SparesBlank db roomId root) :
    Counted roomId (transact (deleteDBMessageData root now) db).2 := by
  obtain ⟨-, hrun⟩ | ⟨m, rooms, hlook, hrun, hrooms⟩ := deleteDBMessageData_run root now db
  · rwa [transact_ok hrun]
  · have hm := (Table.lookup_eq_some_iff.mp hlook).1
    rw [transact_ok hrun]
    refine counted_deleted hc hm (hspares m hlook) hrooms fun hin room hget => ?_
    have hcount := Table.countP_delete (fun x : MessageData => decide (x.roomId = roomId)) hm
    rw [if_pos (by simpa using hin)] at hcount
    rw [hc room hget, Database.countOf, ← hcount, Nat.add_sub_cancel]

/-- A received transfer that is deleted. -/
theorem counted_deleteTransfer {db : Database} {roomId : String} (root : String) (now : Int)
    (hc : Counted roomId db) (hspares : SparesBlank db roomId root) :
    Counted roomId (transact (deleteReceiveTransfer root now) db).2 := by
  obtain ⟨e, hrun⟩ | ⟨-, chunks, hrun⟩ | ⟨m, chunks, rooms, hlook, hrun, hrooms⟩ :=
    deleteReceiveTransfer_run root now db
  · rwa [transact_thrown hrun]
  · rw [transact_ok hrun]
    exact hc
  · rw [transact_ok hrun]
    refine counted_deleted hc (Table.lookup_eq_some_iff.mp hlook).1 (hspares m hlook) hrooms
      fun hin room _ => ?_
    rw [hin, List.countP_eq_length_filter]

/-! ## Runs -/

theorem counted_leaves {α : Type} {roomId : String} {db : Database} {tx : Tx α} (committed : Bool)
    (hc : Counted roomId db) (h : Counted roomId (transact tx db).2) :
    Counted roomId (Worker.leaves committed tx db) := by
  cases committed with
  | true => exact h
  | false => exact hc

/-- One stretch. -/
theorem counted_step {roomId : String} {w : Worker} (s : Action × Bool) (hc : Counted roomId w.db)
    (hkeeps : KeepsCount roomId w s.1) : Counted roomId (w.step s).db := by
  obtain ⟨a, committed⟩ := s
  unfold Worker.step
  cases a with
  | beginReceive chunk => exact hc
  | preflight i => exact hc
  | commit i wroteToOPFS =>
    dsimp only
    split
    case h_1 chunk hcall =>
      exact counted_leaves committed hc (counted_commit chunk wroteToOPFS hc (hkeeps chunk hcall))
    case h_2 => exact hc
  | setDBRoomMessageData a => exact counted_leaves committed hc (counted_set a hc hkeeps)
  | deleteDBMessageData root now => exact counted_leaves committed hc (counted_delete root now hc hkeeps)
  | deleteReceiveTransfer root now =>
    dsimp only
    split
    · exact hc
    · exact counted_leaves committed hc (counted_deleteTransfer root now hc hkeeps)

/-- Along every run whose writes find their root last in the room exactly when its message
has a row, the room counts its messages. -/
theorem message_count_exact (roomId : String) (w : Worker) (hc : Counted roomId w.db)
    (steps : List (Action × Bool)) (hgood : Good roomId w steps) (n : Nat) :
    Counted roomId (w.run (steps.take n)).db := by
  induction steps generalizing w n with
  | nil => simpa [Worker.run] using hc
  | cons s rest ih =>
    cases n with
    | zero => exact hc
    | succ n => exact ih (w.step s) (counted_step s hc hgood.1) hgood.2 n

/-- A room without messages. -/
def freshRoom : UniqueRoom where
  roomUrl := "u"
  roomId := "r"
  roomPolicy := none
  messageCount := 0
  lastMessageMerkleRoot := ""
  createdAt := 0
  updatedAt := 0

/-- A worker that knows one fresh room. -/
def freshWorker : Worker :=
  ⟨{ Database.empty with uniqueRoom := (Table.empty.put freshRoom).getD .empty }, []⟩

/-- A one-byte chunk of a text of two bytes. -/
def textChunk (merkleRoot : String) (chunkIndex : Nat) : ReceiveChunk where
  schemaVersion := 1
  roomId := "r"
  fromPeerId := "p"
  channelLabel := "main"
  timestamp := 5
  merkleRoot := merkleRoot
  hash := "h"
  filename := "f"
  messageType := 1
  chunkIndex := chunkIndex
  mimeType := "text/plain"
  leafHash := "l"
  realLen := 1
  totalSize := 2
  data := [7]
  storage := .indexeddb

/-- A whole call that nothing interrupts. -/
def receiveSteps (c : ReceiveChunk) : List (Action × Bool) :=
  [(.beginReceive c, true), (.preflight 0, true), (.commit 0 false, true)]

/-- Two messages, the second begun when the first is whole. -/
def inTurn : List (Action × Bool) :=
  receiveSteps (textChunk "aa" 1) ++ receiveSteps (textChunk "aa" 0) ++ receiveSteps (textChunk "bb" 0)

/-- The same chunks, with the second message begun in between. -/
def alternating : List (Action × Bool) :=
  receiveSteps (textChunk "aa" 1) ++ receiveSteps (textChunk "bb" 0) ++ receiveSteps (textChunk "aa" 0)

/-- Two messages received in turn. -/
theorem message_count_inTurn :
    Counted "r" freshWorker.db ∧ Good "r" freshWorker inTurn ∧
      ∀ n, Counted "r" (freshWorker.run (inTurn.take n)).db := by
  have hc : Counted "r" freshWorker.db := by decide +kernel
  have hgood : Good "r" freshWorker inTurn := by decide +kernel
  exact ⟨hc, hgood, message_count_exact "r" freshWorker hc inTurn hgood⟩

/-- Two messages whose chunks alternate: three changes of the last root, two rows. -/
theorem message_count_alternating :
    Counted "r" freshWorker.db ∧ ¬ Counted "r" (freshWorker.run alternating).db ∧
      ((freshWorker.run alternating).db.uniqueRoom.get "r").map (·.messageCount) = some 3 ∧
      (freshWorker.run alternating).db.countOf "r" = 2 := by
  decide +kernel

end Storage

end P2Party
