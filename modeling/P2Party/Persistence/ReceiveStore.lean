import Mathlib.Data.List.Sort
import P2Party.Messages.Split
import P2Party.Persistence.Database

/-!
# Storing a received chunk (`storeReceiveChunkLocked`, db.worker.ts)

The receiver checks a chunk against the message row and against the chunks it already has,
once before the bytes are placed and once in the transaction that commits them. The length
of a full chunk is on no wire: it is inferred from the chunks at hand, from chunk 0 if it
is there and else from the longest of at least two.

- `validateLayout`, `assertManifest`: the checks;
- `receiveExists`, `receiveDuplicate`, `receivePreflight`, `receiveCommit`: the four
  transactions of a call;
- `storeReceiveChunkLocked`: a call that nothing interrupts;
- `Call`, `beginCall`, `preflightCall`: calls that others interrupt, up to where the bytes are placed;
- `receiveCommit_present`, `receiveCommit_unfit`, `receiveCommit_fit`: what the committing
  transaction leaves.
-/

namespace P2Party

open Base

namespace Storage

/-- Where the bytes of a chunk go. -/
inductive ChunkStorage
  | indexeddb
  | opfs
deriving DecidableEq

/-- `ReceiveChunk` (types.ts:104-123). -/
structure ReceiveChunk where
  schemaVersion : Nat
  roomId : String
  fromPeerId : String
  channelLabel : String
  timestamp : Int
  merkleRoot : String
  hash : String
  filename : String
  messageType : Nat
  chunkIndex : Nat
  mimeType : String
  leafHash : String
  realLen : Nat
  totalSize : Nat
  data : Bytes
  storage : ChunkStorage
deriving DecidableEq

/-- What the layout check returns. -/
structure Progress where
  savedSize : Nat
  complete : Bool
deriving DecidableEq

/-- `ReceiveChunkStoreResult` (types.ts:125-132). -/
structure ReceiveChunkStoreResult extends Progress where
  stored : Bool
deriving DecidableEq

/-- `Number.isSafeInteger` on a time. -/
abbrev SafeTime (t : Int) : Prop := -(MAX_SAFE_INTEGER : Int) ≤ t ∧ t ≤ MAX_SAFE_INTEGER

/-- The argument check (db.worker.ts:1210-1228). -/
def assertBounds (c : ReceiveChunk) : Except JsError Unit :=
  demand (c.schemaVersion = 1 ∧ 1 ≤ c.messageType ∧ c.messageType ≤ 64 ∧
      c.chunkIndex ≤ MAX_SAFE_INTEGER ∧ 0 < c.realLen ∧ c.realLen ≤ CHUNK_LEN ∧
      0 < c.totalSize ∧ c.totalSize ≤ MAX_MESSAGE_SIZE ∧ c.realLen ≤ c.totalSize ∧
      c.chunkIndex < c.totalSize ∧ c.data.length = c.realLen ∧ SafeTime c.timestamp)
    (.error "invalid receive chunk bounds")

/-- A chunk agrees with the row of its message. -/
def ReceiveChunk.Matches (c : ReceiveChunk) (previous : MessageData) : Prop :=
  previous.roomId = c.roomId ∧ previous.fromPeerId = c.fromPeerId ∧ previous.hash = c.hash ∧
    previous.totalSize = c.totalSize ∧ previous.messageType = c.messageType ∧
    previous.filename = c.filename ∧ previous.channelLabel = c.channelLabel ∧
    previous.timestamp = c.timestamp

instance (c : ReceiveChunk) (previous : MessageData) : Decidable (c.Matches previous) := by
  unfold ReceiveChunk.Matches
  infer_instance

/-- `assertManifest` (db.worker.ts:1230-1243). -/
def assertManifest (c : ReceiveChunk) (previous : Option MessageData) : Except JsError Unit :=
  match previous with
  | none => .ok ()
  | some previous => demand (c.Matches previous)
      (.error "receive chunk metadata conflicts with message")

/-! ## The layout check (db.worker.ts:1245-1309) -/

/-- An index and a length. -/
structure Slot where
  chunkIndex : Nat
  realLen : Nat
deriving DecidableEq

/-- The slot of a record; old rows have no length. -/
def Chunk.slot (c : Chunk) : Slot := ⟨c.chunkIndex, c.realLen.getD 0⟩

/-- The slot of a received chunk. -/
def ReceiveChunk.slot (c : ReceiveChunk) : Slot := ⟨c.chunkIndex, c.realLen⟩

/-- A record of its own makes sense, and does not repeat the index before it. -/
def Slot.Sound (totalSize : Nat) (before : Option Nat) (r : Slot) : Prop :=
  r.chunkIndex ≤ MAX_SAFE_INTEGER ∧ 0 < r.realLen ∧ r.realLen ≤ CHUNK_LEN ∧
    r.realLen ≤ totalSize ∧ r.chunkIndex < totalSize ∧ before ≠ some r.chunkIndex

instance (totalSize : Nat) (before : Option Nat) (r : Slot) : Decidable (r.Sound totalSize before) := by
  unfold Slot.Sound
  infer_instance

/-- The first loop of `validateLayout`: the bytes saved. -/
def layoutLoop (totalSize : Nat) : Option Nat → Nat → List Slot → Except JsError Nat
  | _, savedSize, [] => .ok savedSize
  | before, savedSize, record :: rest => do
    demand (record.Sound totalSize before) (.error "invalid receive chunk layout")
    demand (savedSize + record.realLen ≤ totalSize) (.error "receive chunks exceed declared total")
    layoutLoop totalSize (some record.chunkIndex) (savedSize + record.realLen) rest

/-- The length of a full chunk, once it can be inferred. -/
def layoutUniformSize (ordered : List Slot) : Option Nat :=
  match ordered.find? fun r => r.chunkIndex = 0 with
  | some zero => some zero.realLen
  | none =>
    if 2 ≤ ordered.length then some (ordered.foldl (fun m r => max m r.realLen) 0) else none

/-- The length of the chunk at an index. -/
def expectedLength (totalSize uniformSize index : Nat) : Nat :=
  let finalIndex := ceilDiv totalSize uniformSize - 1
  if index = finalIndex then totalSize - uniformSize * finalIndex else uniformSize

/-- The second loop of `validateLayout`. -/
def manifestLoop (totalSize uniformSize : Nat) : List Slot → Except JsError Unit
  | [] => .ok ()
  | record :: rest => do
    demand (record.chunkIndex < ceilDiv totalSize uniformSize)
      (.error "receive chunk index exceeds canonical manifest")
    demand (record.realLen = expectedLength totalSize uniformSize record.chunkIndex)
      (.error "receive chunk length conflicts with manifest")
    manifestLoop totalSize uniformSize rest

/-- The records in the order of their indices; `sort` is stable. -/
def ordered (records : List Slot) : List Slot :=
  records.insertionSort fun a b => a.chunkIndex ≤ b.chunkIndex

/-- `validateLayout`. -/
def validateLayout (totalSize : Nat) (records : List Slot) : Except JsError Progress := do
  let ordered := ordered records
  let savedSize ← layoutLoop totalSize none 0 ordered
  match layoutUniformSize ordered with
  | some uniformSize =>
    manifestLoop totalSize uniformSize ordered
    let complete := savedSize = totalSize ∧ ordered.length = ceilDiv totalSize uniformSize ∧
      ordered.map (·.chunkIndex) = List.range ordered.length
    demand (¬ (savedSize = totalSize ∧ ¬ complete)) (.error "receive completion has a chunk-index gap")
    return ⟨savedSize, complete⟩
  | none =>
    demand (savedSize ≠ totalSize) (.error "receive completion is missing chunk zero")
    return ⟨savedSize, false⟩

/-! ## The transactions of a call -/

/-- The key of the record of a chunk. -/
def ReceiveChunk.key (c : ReceiveChunk) : String ×ₗ Nat := toLex (c.merkleRoot, c.chunkIndex)

/-- The slots of the records of a root. -/
def Database.slotsOf (db : Database) (root : String) : List Slot := (db.chunksOf root).map Chunk.slot

/-- The argument check and the first transaction (db.worker.ts:1210-1330): whether the
index is already there. -/
def receiveExists (c : ReceiveChunk) (db : Database) : Except JsError Bool := do
  assertBounds c
  assertManifest c (db.messageData.lookup c.merkleRoot)
  return (db.chunks.get c.key).isSome

/-- The answer to a chunk that is already there (db.worker.ts:1331-1360). -/
def receiveDuplicate (c : ReceiveChunk) (db : Database) : Except JsError ReceiveChunkStoreResult := do
  assertManifest c (db.messageData.lookup c.merkleRoot)
  let progress ← validateLayout c.totalSize (db.slotsOf c.merkleRoot)
  return { progress with stored := false }

/-- The check before the bytes are placed (db.worker.ts:1362-1390). -/
def receivePreflight (c : ReceiveChunk) (db : Database) : Except JsError Unit := do
  assertManifest c (db.messageData.lookup c.merkleRoot)
  let _ ← validateLayout c.totalSize (db.slotsOf c.merkleRoot ++ [c.slot])
  return ()

/-- The record of a chunk (db.worker.ts:1411-1413). -/
def ReceiveChunk.record (c : ReceiveChunk) (wroteToOPFS : Bool) : Chunk where
  merkleRoot := c.merkleRoot
  hash := c.hash
  chunkIndex := c.chunkIndex
  data := if c.storage = .opfs ∧ wroteToOPFS = true then none else some c.data
  mimeType := c.mimeType
  realLen := some c.realLen
  leafHash := some c.leafHash

/-- The message row of a chunk (db.worker.ts:1444-1455). -/
def ReceiveChunk.row (c : ReceiveChunk) (previous : Option MessageData) (savedSize : Nat) :
    MessageData where
  transferId := none
  roomId := c.roomId
  timestamp := (previous.map (·.timestamp)).getD c.timestamp
  merkleRoot := c.merkleRoot
  hash := c.hash
  fromPeerId := c.fromPeerId
  filename := c.filename
  messageType := c.messageType
  savedSize := savedSize
  totalSize := c.totalSize
  channelLabel := c.channelLabel

/-- `store.add`. -/
def addChunk (record : Chunk) : Tx Unit := do
  let db ← get
  match db.chunks.get record.key, db.chunks.put record with
  | none, some chunks => set { db with chunks }
  | _, _ => throw (.request "ConstraintError")

/-- The committing transaction (db.worker.ts:1415-1476). -/
def receiveCommit (c : ReceiveChunk) (wroteToOPFS : Bool) : Tx ReceiveChunkStoreResult := do
  let db ← get
  let stored := (db.chunks.get c.key).isNone
  let records := db.slotsOf c.merkleRoot
  let records ←
    if stored then do
      let _ ← Tx.check (validateLayout c.totalSize (records ++ [c.slot]))
      addChunk (c.record wroteToOPFS)
      pure (records ++ [(c.record wroteToOPFS).slot])
    else pure records
  let progress ← Tx.check (validateLayout c.totalSize records)
  if stored then do
    let db ← get
    let previous := db.messageData.lookup c.merkleRoot
    Tx.check (assertManifest c previous)
    putMessage (c.row previous progress.savedSize)
    noteMessage c.roomId c.merkleRoot c.timestamp
  return { progress with stored }

/-- The reads of a call: its answer for a duplicate, or that it goes on to place the bytes. -/
def receiveChecks (c : ReceiveChunk) (db : Database) : Except JsError (Option ReceiveChunkStoreResult) := do
  if ← receiveExists c db then
    return some (← receiveDuplicate c db)
  else
    receivePreflight c db
    return none

/-- `storeReceiveChunkLocked` (db.worker.ts:1188-1477), when nothing else runs meanwhile;
`wroteToOPFS` says whether its bytes were placed, and `committed` whether the storage
commits the last transaction. -/
def storeReceiveChunkLocked (c : ReceiveChunk) (wroteToOPFS committed : Bool) (db : Database) :
    Except Fault ReceiveChunkStoreResult × Database :=
  match receiveChecks c db with
  | .error e => (.error (.thrown e), db)
  | .ok (some result) => (.ok result, db)
  | .ok none =>
    if committed then transact (receiveCommit c wroteToOPFS) db
    else (.error (.request "AbortError"), db)

/-! ## Calls on their way -/

/-- A call between two of its awaits, and how far it has come. -/
structure Call (σ : Type) where
  chunk : ReceiveChunk
  stage : σ
deriving DecidableEq

section Calls

variable {σ : Type}

/-- Whether a call holds the lock of a root. -/
def rootLocked (calls : List (Call σ)) (root : String) : Bool :=
  calls.any fun call => call.chunk.merkleRoot = root

/-- A call begins with its first transaction, unless another one holds the lock; it goes on
if its chunk is not there yet. -/
def beginCall (checked : σ) (chunk : ReceiveChunk) (db : Database) (calls : List (Call σ)) : List (Call σ) :=
  if rootLocked calls chunk.merkleRoot then calls
  else match receiveExists chunk db with
    | .ok false => calls ++ [⟨chunk, checked⟩]
    | _ => calls

/-- A call that was checked goes on to its next stage, or throws. -/
def preflightCall [DecidableEq σ] (checked : σ) (next : ReceiveChunk → σ) (i : Nat) (db : Database)
    (calls : List (Call σ)) : List (Call σ) :=
  match calls[i]? with
  | none => calls
  | some call =>
    if call.stage ≠ checked then calls
    else match receivePreflight call.chunk db with
      | .ok () => calls.set i ⟨call.chunk, next call.chunk⟩
      | .error _ => calls.eraseIdx i

theorem mem_beginCall {checked : σ} {chunk : ReceiveChunk} {db : Database} {calls : List (Call σ)} {call : Call σ}
    (h : call ∈ beginCall checked chunk db calls) :
    call ∈ calls ∨ call = ⟨chunk, checked⟩ ∧ receiveExists chunk db = .ok false := by
  unfold beginCall at h
  split at h
  · exact Or.inl h
  · split at h
    · next hexists =>
      rcases List.mem_append.mp h with hold | hnew
      · exact Or.inl hold
      · exact Or.inr ⟨List.mem_singleton.mp hnew, hexists⟩
    · exact Or.inl h

theorem mem_preflightCall [DecidableEq σ] {checked : σ} {next : ReceiveChunk → σ} {i : Nat} {db : Database}
    {calls : List (Call σ)} {call : Call σ} (h : call ∈ preflightCall checked next i db calls) :
    call ∈ calls ∨ ∃ before ∈ calls, call = ⟨before.chunk, next before.chunk⟩ := by
  unfold preflightCall at h
  split at h
  · exact Or.inl h
  · next before hbefore =>
    split at h
    · exact Or.inl h
    · split at h
      · rcases List.mem_or_eq_of_mem_set h with hold | rfl
        · exact Or.inl hold
        · exact Or.inr ⟨before, List.mem_of_getElem? hbefore, rfl⟩
      · exact Or.inl (List.mem_of_mem_eraseIdx h)

end Calls

/-! ## What the committing transaction leaves -/

@[simp] theorem ReceiveChunk.record_key (c : ReceiveChunk) (w : Bool) : (c.record w).key = c.key := rfl

@[simp] theorem ReceiveChunk.record_slot (c : ReceiveChunk) (w : Bool) : (c.record w).slot = c.slot := rfl

theorem assertManifest_eq_ok {c : ReceiveChunk} {previous : Option MessageData} :
    assertManifest c previous = .ok () ↔ ∀ m, previous = some m → c.Matches m := by
  cases previous with
  | none => simp [assertManifest]
  | some m => simp [assertManifest, demand_eq_ok]

@[simp] theorem Tx.check_run {α : Type} (x : Except JsError α) (db : Database) :
    (Tx.check x).run db =
      match x with
      | .ok a => .ok a db
      | .error e => .error (.thrown e) db := by
  cases x <;> rfl

/-- The record of an absent index can be added. -/
theorem addChunk_run {record : Chunk} {db : Database} (h : db.chunks.get record.key = none) :
    ∃ chunks, db.chunks.put record = some chunks ∧
      (addChunk record).run db = .ok () { db with chunks } := by
  obtain ⟨chunks, hput⟩ : ∃ chunks, db.chunks.put record = some chunks :=
    Table.put_isSome fun _ _ hk => hk
  refine ⟨chunks, hput, ?_⟩
  unfold addChunk
  rw [run_get_bind, h, hput]
  rfl

/-- The row of a chunk that agrees with the message can be written. -/
theorem put_row {c : ReceiveChunk} {db : Database} {savedSize : Nat}
    (h : assertManifest c (db.messageData.lookup c.merkleRoot) = .ok ()) :
    ∃ messages, db.messageData.put (c.row (db.messageData.lookup c.merkleRoot) savedSize) = some messages := by
  refine Table.put_isSome fun m hm hroot => ?_
  have hlook : db.messageData.lookup c.merkleRoot = some m := Table.lookup_eq_some_iff.mpr ⟨hm, hroot⟩
  have hmatch := assertManifest_eq_ok.mp h m hlook
  rw [MessageData.key_eq_iff, hlook]
  exact ⟨rfl, hmatch.1, hroot⟩

/-- A chunk that is already there changes nothing. -/
theorem receiveCommit_present {c : ReceiveChunk} {w : Bool} {db : Database}
    (h : db.chunks.get c.key ≠ none) :
    (receiveCommit c w).run db =
      match validateLayout c.totalSize (db.slotsOf c.merkleRoot) with
      | .ok p => .ok { p with stored := false } db
      | .error e => .error (.thrown e) db := by
  obtain ⟨r, hr⟩ := Option.ne_none_iff_exists'.mp h
  unfold receiveCommit
  rw [run_get_bind, hr]
  simp only [Option.isNone_some, Bool.false_eq_true, if_false, pure_bind]
  cases hv : validateLayout c.totalSize (db.slotsOf c.merkleRoot) with
  | error e => exact run_bind_of_error (Tx.check_run _ db)
  | ok p =>
    rw [run_bind_of_ok (Tx.check_run _ db)]
    rfl

/-- A chunk that does not fit the layout changes nothing. -/
theorem receiveCommit_unfit {c : ReceiveChunk} {w : Bool} {db : Database} {e : JsError}
    (h : db.chunks.get c.key = none)
    (hv : validateLayout c.totalSize (db.slotsOf c.merkleRoot ++ [c.slot]) = .error e) :
    (receiveCommit c w).run db = .error (.thrown e) db := by
  unfold receiveCommit
  rw [run_get_bind, h]
  simp only [Option.isNone_none, if_true]
  refine run_bind_of_error ?_
  rw [Tx.check_run, hv]

/-- A chunk that fits is added; it is noted in the message row and the room unless the row
tells another manifest. -/
theorem receiveCommit_fit {c : ReceiveChunk} {w : Bool} {db : Database} {p : Progress}
    (h : db.chunks.get c.key = none)
    (hv : validateLayout c.totalSize (db.slotsOf c.merkleRoot ++ [c.slot]) = .ok p) :
    ∃ chunks, db.chunks.put (c.record w) = some chunks ∧
      ((∃ e, assertManifest c (db.messageData.lookup c.merkleRoot) = .error e ∧
        (receiveCommit c w).run db = .error (.thrown e) { db with chunks }) ∨
      ∃ messages rooms, assertManifest c (db.messageData.lookup c.merkleRoot) = .ok () ∧
        db.messageData.put (c.row (db.messageData.lookup c.merkleRoot) p.savedSize) = some messages ∧
        (receiveCommit c w).run db = .ok { p with stored := true } ⟨chunks, messages, rooms⟩ ∧
        ∀ k, rooms.get k =
          if k = c.roomId then (db.uniqueRoom.get c.roomId).map (·.noted c.merkleRoot c.timestamp)
          else db.uniqueRoom.get k) := by
  obtain ⟨chunks, hput, hadd⟩ := @addChunk_run (c.record w) db h
  refine ⟨chunks, hput, ?_⟩
  have hcheck : ∀ db', (Tx.check (validateLayout c.totalSize (db.slotsOf c.merkleRoot ++ [c.slot]))).run db'
      = .ok p db' := by
    intro db'
    rw [Tx.check_run, hv]
  unfold receiveCommit
  rw [run_get_bind, h]
  simp only [Option.isNone_none, if_true, ReceiveChunk.record_slot]
  -- the second layout check repeats the first, so nothing is thrown once the chunk is added
  rw [run_bind_of_ok (hcheck db), run_bind_of_ok hadd, pure_bind, run_bind_of_ok (hcheck _), run_get_bind]
  cases hm : assertManifest c (db.messageData.lookup c.merkleRoot) with
  | error e =>
    exact Or.inl ⟨e, rfl, run_bind_of_error (Tx.check_run _ _)⟩
  | ok u =>
    obtain ⟨messages, hmessages⟩ := @put_row c db p.savedSize hm
    obtain ⟨rooms, hrun, hrooms⟩ :=
      noteMessage_run c.roomId c.merkleRoot c.timestamp ⟨chunks, messages, db.uniqueRoom⟩
    refine Or.inr ⟨messages, rooms, rfl, hmessages, ?_, hrooms⟩
    rw [run_bind_of_ok (Tx.check_run _ _), run_bind_of_ok (by rw [putMessage_run, hmessages]),
      run_bind_of_ok hrun]
    rfl

end Storage

end P2Party
