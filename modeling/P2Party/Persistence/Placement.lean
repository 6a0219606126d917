import P2Party.Base.ByteFile
import P2Party.Persistence.ReceiveCompleteness

/-!
# Placing received chunks in their file (db.worker.ts:973-1182, 1548-1660)

The bytes of a received file go straight into a file of the origin-private file system, at
the index times the length of a full chunk. That length is learned from the chunks, by an
entry that lives as long as the open handle; the one chunk that comes too early stays in the
database with its bytes and is moved into the file when the message is read.

The worker's code is cut at its awaits: the calls of one root are ordered by its lock, those
of different roots interleave, and a handle may be closed to make room for another between
any two steps. What the storage does is an argument of the step.

- `ReceiveFileEntry`, `ReceiveFileEntry.learn`: what an entry knows;
- `Disk`, `Action`, `Disk.step`, `Disk.run`: the two stores and the handles, step by step;
- `getReceiveFile`: reading a finished message.
-/

namespace P2Party

open Base

namespace Opfs

open Storage

/-! ## Entries -/

/-- `ReceiveFileEntry` (db.worker.ts:998-1004), without its handle. -/
structure ReceiveFileEntry where
  uniformSize : Nat
  uniformKnown : Bool
  maxRealLen : Nat
  seenCount : Nat
deriving DecidableEq

/-- The entry of a handle that was just opened (db.worker.ts:1079-1085). -/
def ReceiveFileEntry.fresh : ReceiveFileEntry := ⟨0, false, 0, 0⟩

/-- What an entry learns from a chunk (db.worker.ts:1145-1161). -/
def ReceiveFileEntry.learn (e : ReceiveFileEntry) (chunkIndex realLen totalSize : Nat) : ReceiveFileEntry :=
  let e := { e with maxRealLen := max e.maxRealLen realLen, seenCount := e.seenCount + 1 }
  if e.uniformKnown then e
  else if chunkIndex = 0 then
    { e with uniformSize := if realLen < totalSize then realLen else e.uniformSize, uniformKnown := true }
  else if 2 ≤ e.seenCount then { e with uniformSize := e.maxRealLen, uniformKnown := true }
  else e

/-- `offset` (db.worker.ts:1165, 1610). -/
def placeOffset (chunkIndex uniformSize : Nat) : Nat := if chunkIndex = 0 then 0 else chunkIndex * uniformSize

/-- `MAX_OPEN_RECEIVE_HANDLES` (db.worker.ts:1050). -/
abbrev MAX_OPEN_RECEIVE_HANDLES : Nat := 8

/-! ## What the storage does -/

/-- How opening a file ends: with a handle, without the file system, or with an error after
the file was created. -/
inductive Opening
  | opened
  | unavailable
  | failed

/-- How writing ends: with all bytes on disk, or with an error after the first `n` of them. -/
inductive Writing
  | done
  | stopped (n : Nat)

/-- The bytes that reach the file. -/
def Writing.written (w : Writing) (data : Bytes) : Bytes :=
  match w with
  | .done => data
  | .stopped n => data.take n

/-- Whether the write returns. -/
def Writing.isDone : Writing → Bool
  | .done => true
  | .stopped _ => false

/-- How reading a finished message ends: whether the file system is there and the handle
opens, the writes of the chunks that still carry bytes, and whether the records are put. -/
structure Finalizing where
  available : Bool
  opens : Bool
  writings : List Writing
  strips : Bool

/-! ## The two stores -/

/-- How far a call of `storeReceiveChunkLocked` has come. -/
inductive Stage
  | checked
  | preflighted
  | opening
  | ensured
  | placed (wroteToOPFS : Bool)
deriving DecidableEq

/-- The stage behind the preflight: a text is never placed. -/
def Stage.afterPreflight (chunk : ReceiveChunk) : Stage :=
  if chunk.storage = .opfs then .preflighted else .placed false

/-- The database, the files, the open handles in the order they were opened, and the calls
on their way. -/
structure Disk where
  db : Database
  files : String → Option Bytes
  handles : OrdMap String ReceiveFileEntry
  calls : List (Call Stage)

namespace Disk

/-- Change the stage of a call. -/
def advance (d : Disk) (i : Nat) (chunk : ReceiveChunk) (stage : Stage) : Disk :=
  { d with calls := d.calls.set i ⟨chunk, stage⟩ }

/-- Change a file. -/
def setFile (d : Disk) (root : String) (file : Bytes) : Disk :=
  { d with files := fun r => if r = root then some file else d.files r }

/-- Close the oldest handle when there are too many (db.worker.ts:1100-1107). -/
def evict (d : Disk) : Disk :=
  if MAX_OPEN_RECEIVE_HANDLES ≤ d.handles.size then
    match d.handles.keys with
    | [] => d
    | k :: _ => { d with handles := d.handles.delete k }
  else d

/-- `ensureReceiveHandle` (db.worker.ts:1091-1107) up to the opening of the file. -/
def ensure (d : Disk) (i : Nat) (chunk : ReceiveChunk) : Disk :=
  if d.handles.has chunk.merkleRoot then d.advance i chunk .ensured else d.evict.advance i chunk .opening

/-- `openReceiveHandleImpl` (db.worker.ts:1052-1089, 1108-1123): a new handle, on a file of
the size of the message. -/
def openHandle (d : Disk) (i : Nat) (chunk : ReceiveChunk) (opening : Opening) : Disk :=
  let file := (d.files chunk.merkleRoot).getD []
  match opening with
  | .unavailable => d.advance i chunk (.placed false)
  | .failed => (d.setFile chunk.merkleRoot file).advance i chunk (.placed false)
  | .opened =>
    { d.setFile chunk.merkleRoot (if file.length = chunk.totalSize then file else resize chunk.totalSize file)
      with handles := d.handles.set chunk.merkleRoot .fresh }.advance i chunk .ensured

/-- `placeReceiveChunk` (db.worker.ts:1142-1182) once it has its handle. A handle that was
closed meanwhile throws. -/
def place (d : Disk) (i : Nat) (chunk : ReceiveChunk) (writing : Writing) : Disk :=
  match d.handles.get chunk.merkleRoot with
  | none => d.advance i chunk (.placed false)
  | some entry =>
    let entry := entry.learn chunk.chunkIndex chunk.realLen chunk.totalSize
    let d := { d with handles := d.handles.set chunk.merkleRoot entry }
    if entry.uniformKnown then
      let file := writeAt ((d.files chunk.merkleRoot).getD []) (placeOffset chunk.chunkIndex entry.uniformSize)
        (writing.written chunk.data)
      (d.setFile chunk.merkleRoot file).advance i chunk (.placed writing.isDone)
    else d.advance i chunk (.placed false)

/-- The committing transaction of a call, which the storage may fail to commit. -/
def commit (d : Disk) (i : Nat) (chunk : ReceiveChunk) (wroteToOPFS committed : Bool) : Disk :=
  { d with
    db := if committed then (transact (receiveCommit chunk wroteToOPFS) d.db).2 else d.db
    calls := d.calls.eraseIdx i }

end Disk

/-! ## Reading a finished message -/

/-- The longest record (db.worker.ts:1571-1583). -/
def longest (records : List Chunk) : Nat := records.foldl (fun m r => max m (r.realLen.getD 0)) 0

/-- The records that still carry bytes. -/
def dataBearing (records : List Chunk) : List Chunk := records.filter fun r => r.data.any fun data => data ≠ []

/-- Write the bytes of the records at their offsets until a write stops (db.worker.ts:1608-1612);
the second part says whether all were written. -/
def migrate (uniformSize : Nat) : List Chunk → List Writing → Bytes → Bytes × Bool
  | [], _, file => (file, true)
  | r :: rest, writings, file =>
    let writing := writings.headD .done
    let file := writeAt file (placeOffset r.chunkIndex uniformSize) (writing.written (r.data.getD []))
    if writing.isDone then migrate uniformSize rest writings.tail file else (file, false)

/-- The records without their bytes (db.worker.ts:1622-1640). -/
def stripped (db : Database) (records : List Chunk) : Database :=
  { db with chunks := records.foldl (fun t r => (t.put { r with data := none }).getD t) db.chunks }

/-- The end of `getReceiveFileImpl`, once it has a handle (db.worker.ts:1601-1652). -/
def migrateFile (d : Disk) (root : String) (totalSize : Nat) (f : Finalizing) : Disk × Option Bytes :=
  let existing := (d.files root).getD []
  let records := d.db.chunksOf root
  let sized := if 0 < totalSize ∧ existing.length ≠ totalSize then resize totalSize existing else existing
  let migrated := migrate (longest records) (dataBearing records) f.writings sized
  let d := d.setFile root migrated.1
  if migrated.2 = false then (d, none)
  else
    let d := if f.strips then { d with db := stripped d.db (dataBearing records) } else d
    if 0 < totalSize ∧ migrated.1.length ≠ totalSize then (d, none) else (d, some migrated.1)

/-- `fnGetReceiveFile` (db.worker.ts:1527-1660): the file it returns, if any. -/
def getReceiveFile (d : Disk) (root : String) (totalSize : Nat) (f : Finalizing) : Disk × Option Bytes :=
  if root.length ≠ 2 * 64 then (d, none)
  else
    let d := { d with handles := d.handles.delete root }
    if f.available = false then (d, none)
    else
      let existing := (d.files root).getD []
      let d := d.setFile root existing
      let records := d.db.chunksOf root
      let bearing := dataBearing records
      if 0 < totalSize ∧ existing.length = totalSize ∧ bearing = [] then (d, some existing)
      else if bearing ≠ [] ∧ (longest records = 0 ∨ bearing.any fun r => r.realLen.isNone) then (d, none)
      else if f.opens = false then (d, none)
      else migrateFile d root totalSize f

/-! ## Steps -/

/-- A stretch of the worker's code between two awaits. -/
inductive Action
  | beginReceive (chunk : ReceiveChunk)
  | preflight (i : Nat)
  | ensure (i : Nat)
  | openHandle (i : Nat) (opening : Opening)
  | place (i : Nat) (writing : Writing)
  | commit (i : Nat) (committed : Bool)
  | close (merkleRootHex : String)
  | read (merkleRootHex : String) (totalSize : Nat) (f : Finalizing)
  | restart

/-- A message is read as a file when all of its bytes are there (index.ts:855). -/
def Disk.complete (d : Disk) (root : String) (totalSize : Nat) : Prop := bytesOf (d.db.slotsOf root) = totalSize

instance (d : Disk) (root : String) (totalSize : Nat) : Decidable (d.complete root totalSize) :=
  inferInstanceAs (Decidable (_ = _))

/-- One stretch. -/
def Disk.step (d : Disk) : Action → Disk
  | .beginReceive chunk =>
    { d with calls := beginCall .checked chunk d.db d.calls }
  | .preflight i =>
    { d with calls := preflightCall .checked Stage.afterPreflight i d.db d.calls }
  | .ensure i =>
    match d.calls[i]? with
    | some ⟨chunk, .preflighted⟩ => d.ensure i chunk
    | _ => d
  | .openHandle i opening =>
    match d.calls[i]? with
    | some ⟨chunk, .opening⟩ => d.openHandle i chunk opening
    | _ => d
  | .place i writing =>
    match d.calls[i]? with
    | some ⟨chunk, .ensured⟩ => d.place i chunk writing
    | _ => d
  | .commit i committed =>
    match d.calls[i]? with
    | some ⟨chunk, .placed wroteToOPFS⟩ => d.commit i chunk wroteToOPFS committed
    | _ => d
  | .close root => if rootLocked d.calls root then d else { d with handles := d.handles.delete root }
  | .read root totalSize f =>
    if rootLocked d.calls root ∨ ¬ d.complete root totalSize then d else (getReceiveFile d root totalSize f).1
  | .restart => { d with handles := .empty, calls := [] }

/-- A sequence of stretches. -/
def Disk.run (d : Disk) (actions : List Action) : Disk := actions.foldl Disk.step d

/-- A worker that has received nothing. -/
def Disk.start (messages : Table MessageData.key MessageData.merkleRoot)
    (rooms : Table UniqueRoom.roomId UniqueRoom.roomUrl) : Disk :=
  ⟨⟨.empty, messages, rooms⟩, fun _ => none, .empty, []⟩

end Opfs

end P2Party
