import P2Party.Base.Codec
import P2Party.Cryptography.Ratchet
import P2Party.PqHealing.Accept

/-!
# Edge checkpoints (`handlers/pqHealingRuntime.ts`)

`SparsePqHealingState.serialize` writes a runtime to bytes within a budget and
`SparsePqHealingState.restore` reads one back, checking every field and that the
parts agree with each other.

- `serialize`, `restore`: the two methods of the source;
- `encodeCheckpoint`: the bytes of a checkpoint;
- `serialize_eq`: a well-formed runtime with at most `MAX_ACTIVE_RECEIVE_KEYS`
  active keys serializes to these bytes;
- `restore_encodeCheckpoint`: restoring them gives the runtime back, its active
  keys in sorted order;
- `serialize_too_many_keys`: with more active keys it throws.
-/

namespace P2Party

open Base PqHealing PqControlFrame

namespace PqHealingRuntime

/-! ## Constants and tags -/

/-- `EDGE_MAGIC` (pqHealingRuntime.ts:47-49). -/
def EDGE_MAGIC : Bytes := [0x50, 0x32, 0x45, 0x44, 0x47, 0x45, 0x34, 0x00]

/-- `EDGE_FORMAT_VERSION` (pqHealingRuntime.ts:50). -/
abbrev EDGE_FORMAT_VERSION : Nat := 1

/-- `MAX_EDGE_STATE_BYTES` (pqHealingRuntime.ts:52). -/
abbrev MAX_EDGE_STATE_BYTES : Nat := 256 * 1024

/-- `MAX_ACTIVE_RECEIVE_KEYS` (pqHealingRuntime.ts:53). -/
abbrev MAX_ACTIVE_RECEIVE_KEYS : Nat := min MAX_SKIP_SESSION 256

/-- `MAX_CACHE_KEY_BYTES` (pqHealingRuntime.ts:54). -/
abbrev MAX_CACHE_KEY_BYTES : Nat := 160

/-- `CANONICAL_CACHE_KEY` (pqHealingRuntime.ts:55): 64 lower-case hexadecimal
digits and two decimal numbers, separated by colons. -/
def canonicalCacheKey (key : String) : Bool :=
  let chars := key.toList
  (chars.take 64).length == 64 && (chars.take 64).all isHexDigit &&
    match chars.drop 64 with
    | ':' :: rest =>
      !(rest.takeWhile Char.isDigit).isEmpty &&
        match rest.dropWhile Char.isDigit with
        | ':' :: last => !last.isEmpty && last.all Char.isDigit
        | _ => false
    | _ => false

/-- `textDecoder.decode` of a fatal UTF-8 decoder, which drops a byte order mark. -/
def decodeText (bs : Bytes) : Option String :=
  textDecode (if bs.take 3 = [0xef, 0xbb, 0xbf] then bs.drop 3 else bs)

/-- `suiteTag` (pqHealingRuntime.ts:149-154). -/
def suiteTag : MlKemParameterSet → Nat
  | .mlkem512 => 1
  | .mlkem768 => 2
  | .mlkem1024 => 3

/-- `tagSuite` (pqHealingRuntime.ts:156-161). -/
def tagSuite (tag : Nat) : Except JsError MlKemParameterSet :=
  if tag = 1 then .ok .mlkem512
  else if tag = 2 then .ok .mlkem768
  else if tag = 3 then .ok .mlkem1024
  else .error (failure "checkpoint has an unknown ML-KEM suite")

/-- `turnTag` (pqHealingRuntime.ts:163-167). -/
def turnTag : PqHealingTurn → Nat
  | .local => 1
  | .remote => 2

/-- `tagTurn` (pqHealingRuntime.ts:169-173). -/
def tagTurn (tag : Nat) : Except JsError PqHealingTurn :=
  if tag = 1 then .ok .local
  else if tag = 2 then .ok .remote
  else .error (failure "checkpoint has an invalid next-offerer turn")

/-- `phaseTag` (pqHealingRuntime.ts:175-194). -/
def phaseTag : PqHealingSnapshotPhase → Nat
  | .idle => 0
  | .outboundOfferPrepared _ _ => 1
  | .outboundOfferDispatched _ _ => 2
  | .inboundOffer _ => 3
  | .outboundAdvancePrepared _ _ => 4
  | .outboundAdvanceAwaitingAck _ => 5
  | .inboundAdvancePrepared _ _ _ => 6
  | .inboundAdvanceAwaitingAckDispatch _ => 7

/-! ## Writing (`ByteWriter`, pqHealingRuntime.ts:196-269) -/

/-- Code that appends to a checkpoint. -/
abbrev Writer := EStateM JsError Bytes Unit

/-- `ByteWriter.bytes`. -/
def writeBytes (value : Bytes) : Writer :=
  putBytes MAX_EDGE_STATE_BYTES (failure "checkpoint exceeds the encrypted edge-state budget") value

/-- A big-endian integer of `width` bytes, checked against its range first. -/
def writeUint (width : Nat) (message : String) (value : Nat) : Writer := do
  ensure (value < 256 ^ width) (failure message)
  writeBytes (beBytes width value)

/-- `ByteWriter.u8`. -/
def writeU8 : Nat → Writer := writeUint 1 "u8 value is out of range"

/-- `ByteWriter.u16`. -/
def writeU16 : Nat → Writer := writeUint 2 "u16 value is out of range"

/-- `ByteWriter.u32`. -/
def writeU32 : Nat → Writer := writeUint 4 "u32 value is out of range"

/-- `ByteWriter.u64`. -/
def writeU64 : Nat → Writer := writeUint 8 "checkpoint counter must be an unsigned 64-bit bigint"

/-- `ByteWriter.sized`. -/
def writeSized : Option Bytes → Writer
  | none => writeU32 0
  | some value => do
    ensure (value.length ≠ 0) (failure "present checkpoint byte strings must not be empty")
    writeU32 value.length
    writeBytes value

/-- `writePhase` (pqHealingRuntime.ts:336-367). -/
def writePhase (phase : PqHealingSnapshotPhase) : Writer := do
  writeU8 (phaseTag phase)
  match phase with
  | .idle => return ()
  | .outboundOfferPrepared offer secretKey | .outboundOfferDispatched offer secretKey =>
    writeSized (some offer)
    writeSized (some secretKey)
  | .inboundOffer offer => writeSized (some offer)
  | .outboundAdvancePrepared advance nextRoot =>
    writeSized (some advance)
    writeSized (some nextRoot)
  | .outboundAdvanceAwaitingAck advance | .inboundAdvanceAwaitingAckDispatch advance =>
    writeSized (some advance)
  | .inboundAdvancePrepared advance secretKey nextRoot =>
    writeSized (some advance)
    writeSized (some secretKey)
    writeSized (some nextRoot)

/-- The tag of an outbox kind (pqHealingRuntime.ts:449). -/
def outboxTag : PqHealingOutboxKind → Nat
  | .offer => 1
  | .advance => 2

/-- `writeOutbox` (pqHealingRuntime.ts:441-453). -/
def writeOutbox : Option PqHealingOutbox → Writer
  | none => writeU8 0
  | some outbox => do
    writeU8 (outboxTag outbox.kind)
    writeU8 outbox.attempts
    writeU64 outbox.nextRetryAt
    writeSized (some outbox.frame)

/-- The active keys in the order they are written (pqHealingRuntime.ts:485-487). -/
def sortedEntries (keys : OrdMap String Bytes) : List (String × Bytes) :=
  keys.entries.mergeSort fun left right => decide (left.1 ≤ right.1)

/-- One entry of `writeActiveKeys` (pqHealingRuntime.ts:489-499). -/
def writeActiveKey (entry : String × Bytes) : Writer := do
  ensure (canonicalCacheKey entry.1 = true) (failure "active receive cache key is non-canonical")
  let encodedKey := textEncode entry.1
  ensure (¬ (encodedKey.length = 0 ∨ encodedKey.length > MAX_CACHE_KEY_BYTES))
    (failure "active receive cache key length is invalid")
  attempt (requireBytes entry.2 "active receive message key" 32)
  writeU16 encodedKey.length
  writeBytes encodedKey
  writeBytes entry.2

/-- `writeActiveKeys` (pqHealingRuntime.ts:479-500). -/
def writeActiveKeys (keys : OrdMap String Bytes) : Writer := do
  ensure (¬ keys.size > MAX_ACTIVE_RECEIVE_KEYS) (failure "too many active receive message keys")
  writeU16 (sortedEntries keys).length
  putAll writeActiveKey (sortedEntries keys)

/-- The fields `serialize` writes before the active keys (pqHealingRuntime.ts:982-1008). -/
def writeEdge (r : SparsePqHealingState) : Writer := do
  let snapshot := r.machine.snapshot
  writeBytes EDGE_MAGIC
  writeU8 EDGE_FORMAT_VERSION
  writeU8 (suiteTag r.suite)
  writeU8 (if r.amInitiator then 1 else 2)
  writeU8 0
  writeU64 r.lastHealedAt
  writeU64 r.messagesSinceHealing
  writeBytes snapshot.binding
  writeBytes snapshot.rootKey
  writeU64 snapshot.epoch
  writeU64 snapshot.localCounter
  writeU64 snapshot.remoteCounter
  writeU8 (turnTag snapshot.nextOfferer)
  writePhase snapshot.phase
  writeSized snapshot.lastInboundOffer
  writeSized snapshot.lastInboundAdvance
  writeOutbox r.outbox
  writeSized r.lastInboundOfferFrame
  writeSized r.lastInboundAdvanceFrame
  writeSized r.cachedAckFrame

/-- The body of `serialize` (pqHealingRuntime.ts:982-1012). -/
def writeCheckpoint (r : SparsePqHealingState) (activeReceiveKeys : OrdMap String Bytes) :
    Writer := do
  writeEdge r
  writeActiveKeys activeReceiveKeys

/-- `serialize` (pqHealingRuntime.ts:978-1014). -/
def SparsePqHealingState.serialize (r : SparsePqHealingState)
    (activeReceiveKeys : OrdMap String Bytes) : Except JsError Bytes :=
  match (writeCheckpoint r activeReceiveKeys).run [] with
  | .ok _ bytes => .ok bytes
  | .error e _ => .error e

/-! ## Reading (`ByteReader`, pqHealingRuntime.ts:271-334) -/

/-- Code that consumes a checkpoint. -/
abbrev Reader (α : Type) := EStateM JsError Bytes α

/-- `ByteReader.take`. -/
def take (length : Nat) : Reader Bytes := getBytes (failure "checkpoint is truncated") length

/-- The integers of `ByteReader`. -/
def readUint (width : Nat) : Reader Nat := getUint (failure "checkpoint is truncated") width

/-- `ByteReader.u8`. -/
def readU8 : Reader Nat := readUint 1

/-- `ByteReader.u16`. -/
def readU16 : Reader Nat := readUint 2

/-- `ByteReader.u32`. -/
def readU32 : Reader Nat := readUint 4

/-- `ByteReader.u64`. -/
def readU64 : Reader Nat := readUint 8

/-- `ByteReader.sized`. -/
def readSized (maximum : Nat) : Reader (Option Bytes) := do
  let length ← readU32
  if length = 0 then return none
  else
    ensure (¬ length > maximum) (failure "checkpoint field exceeds its budget")
    return some (← take length)

/-- `requiredSized` (pqHealingRuntime.ts:369-373). -/
def requiredSized (maximum : Nat) (name : String) : Reader Bytes := do
  match ← readSized maximum with
  | some value => return value
  | none => throw (failure (name ++ " is missing"))

/-- `readPhase` (pqHealingRuntime.ts:375-439). -/
def readPhase (suite : MlKemParameterSet) : Reader PqHealingSnapshotPhase := do
  let offerMaximum := 64 + suite.publicKeyBytes
  let advanceMaximum := 64 + offerMaximum + suite.ciphertextBytes
  match ← readU8 with
  | 0 => return .idle
  | 1 =>
    let offer ← requiredSized offerMaximum "prepared OFFER"
    let secretKey ← requiredSized suite.secretKeyBytes "prepared OFFER secret key"
    return .outboundOfferPrepared offer secretKey
  | 2 =>
    let offer ← requiredSized offerMaximum "dispatched OFFER"
    let secretKey ← requiredSized suite.secretKeyBytes "dispatched OFFER secret key"
    return .outboundOfferDispatched offer secretKey
  | 3 =>
    let offer ← requiredSized offerMaximum "inbound OFFER"
    return .inboundOffer offer
  | 4 =>
    let advance ← requiredSized advanceMaximum "prepared ADVANCE"
    let nextRoot ← requiredSized 32 "candidate PQ root"
    return .outboundAdvancePrepared advance nextRoot
  | 5 =>
    let advance ← requiredSized advanceMaximum "outbound ADVANCE"
    return .outboundAdvanceAwaitingAck advance
  | 6 =>
    let advance ← requiredSized advanceMaximum "inbound ADVANCE"
    let secretKey ← requiredSized suite.secretKeyBytes "inbound ADVANCE secret key"
    let nextRoot ← requiredSized 32 "candidate PQ root"
    return .inboundAdvancePrepared advance secretKey nextRoot
  | 7 =>
    let advance ← requiredSized advanceMaximum "acknowledged ADVANCE"
    return .inboundAdvanceAwaitingAckDispatch advance
  | _ => throw (failure "checkpoint has an unknown PQ phase")

/-- `readOutbox` (pqHealingRuntime.ts:455-477). -/
def readOutbox : Reader (Option PqHealingOutbox) := do
  let tag ← readU8
  if tag = 0 then return none
  else
    ensure (tag = 1 ∨ tag = 2) (failure "checkpoint outbox kind is invalid")
    let attempts ← readU8
    ensure (¬ attempts > PQ_HEAL_MAX_RETRIES)
      (failure "checkpoint outbox attempts exceed the retry budget")
    let nextRetryAt ← readU64
    ensure (¬ nextRetryAt > MAX_SAFE_INTEGER)
      (failure "checkpoint retry deadline exceeds the safe-integer range")
    let frame ← requiredSized WIRE_CHUNK_FRAME_LEN "outbox frame"
    attempt (requireBytes frame "outbox frame" WIRE_CHUNK_FRAME_LEN)
    return some { kind := if tag = 1 then .offer else .advance, attempts, nextRetryAt, frame }

/-- One turn of the loop of `readActiveKeys` (pqHealingRuntime.ts:508-526). -/
def readActiveKey (result : OrdMap String Bytes) : Reader (OrdMap String Bytes) := do
  let keyLength ← readU16
  ensure (¬ (keyLength = 0 ∨ keyLength > MAX_CACHE_KEY_BYTES))
    (failure "checkpoint active receive cache key length is invalid")
  match decodeText (← take keyLength) with
  | none => throw (.typeError "The encoded data was not valid for encoding utf-8")
  | some key =>
    ensure (¬ (key.length = 0 ∨ canonicalCacheKey key = false ∨ result.has key = true))
      (failure "checkpoint active receive cache key is non-canonical")
    return result.set key (← take 32)

/-- The loop of `readActiveKeys`. -/
def readActiveKeysLoop : Nat → OrdMap String Bytes → Reader (OrdMap String Bytes)
  | 0, result => return result
  | count + 1, result => do readActiveKeysLoop count (← readActiveKey result)

/-- `readActiveKeys` (pqHealingRuntime.ts:502-533). -/
def readActiveKeys : Reader (OrdMap String Bytes) := do
  let count ← readU16
  ensure (¬ count > MAX_ACTIVE_RECEIVE_KEYS)
    (failure "checkpoint has too many active receive message keys")
  readActiveKeysLoop count .empty

/-- `RestoreSparsePqHealingOptions` (pqHealingRuntime.ts:97-103). -/
structure RestoreSparsePqHealingOptions where
  pqMode : RoomPqMode
  rootSuite : RatchetRootSuite
  binding : Bytes
  amInitiator : Bool

/-- The fields `restore` reads before it rebuilds the runtime. -/
structure Checkpoint where
  lastHealedAt : Nat
  messagesSinceHealing : Nat
  snapshot : PqHealingSnapshot
  outbox : Option PqHealingOutbox
  lastOfferFrame : Option Bytes
  lastAdvanceFrame : Option Bytes
  cachedAckFrame : Option Bytes
  activeKeys : OrdMap String Bytes

/-- A cached frame that is present has the size of a frame (pqHealingRuntime.ts:1090-1095). -/
def requireFrame : Option Bytes → Except JsError Unit
  | none => .ok ()
  | some frame => requireBytes frame "cached control frame" WIRE_CHUNK_FRAME_LEN

/-- The reading part of `restore` (pqHealingRuntime.ts:1046-1097). -/
def readCheckpoint (options : RestoreSparsePqHealingOptions) : Reader Checkpoint := do
  let magic ← take EDGE_MAGIC.length
  ensure (magic = EDGE_MAGIC) (failure "checkpoint magic is invalid")
  let version ← readU8
  ensure (version = EDGE_FORMAT_VERSION) (failure "checkpoint version is unsupported")
  let parameterSet ← attempt (tagSuite (← readU8))
  ensure (parameterSet = roomPqModeToParameterSet options.pqMode)
    (failure "checkpoint suite disagrees with the authenticated room policy")
  ensure (roomPqModeToRootSuite options.pqMode = options.rootSuite)
    (failure "authenticated root suite and room PQ mode disagree")
  let directionTag ← readU8
  ensure (directionTag = if options.amInitiator then 1 else 2)
    (failure "checkpoint belongs to the opposite edge direction")
  let reserved ← readU8
  ensure (reserved = 0) (failure "checkpoint reserved byte is non-zero")
  let lastHealedAt ← readU64
  let messagesSinceHealing ← readU64
  ensure (¬ (lastHealedAt > MAX_SAFE_INTEGER ∨ messagesSinceHealing > MAX_SAFE_INTEGER))
    (failure "checkpoint counters exceed the safe-integer range")
  let binding ← take 32
  ensure (binding = options.binding) (failure "checkpoint belongs to another authenticated edge")
  let rootKey ← take 32
  let epoch ← readU64
  let localCounter ← readU64
  let remoteCounter ← readU64
  let nextOfferer ← attempt (tagTurn (← readU8))
  let phase ← readPhase parameterSet
  let lastInboundOffer ← readSized (8 * 1024)
  let lastInboundAdvance ← readSized (8 * 1024)
  let outbox ← readOutbox
  let lastOfferFrame ← readSized WIRE_CHUNK_FRAME_LEN
  let lastAdvanceFrame ← readSized WIRE_CHUNK_FRAME_LEN
  let cachedAckFrame ← readSized WIRE_CHUNK_FRAME_LEN
  attempt (requireFrame lastOfferFrame)
  attempt (requireFrame lastAdvanceFrame)
  attempt (requireFrame cachedAckFrame)
  let activeKeys ← readActiveKeys
  return {
    lastHealedAt, messagesSinceHealing, outbox, lastOfferFrame, lastAdvanceFrame, cachedAckFrame
    activeKeys
    snapshot := { parameterSet, binding, rootKey, epoch, localCounter, remoteCounter, nextOfferer,
                  phase, lastInboundOffer, lastInboundAdvance } }

/-- `#validateCheckpointCoherence` (pqHealingRuntime.ts:1190-1223). -/
def SparsePqHealingState.validateCheckpointCoherence (r : SparsePqHealingState) :
    Except JsError Unit := do
  let offered : Bool := match r.machine.phase with | .outboundOffer true _ _ => true | _ => false
  let awaiting : Bool :=
    match r.machine.phase with | .outboundAdvanceAwaitingAck _ _ => true | _ => false
  demand (offered = r.outboxIs .offer ∧ awaiting = r.outboxIs .advance)
    (failure "checkpoint PQ phase and sealed outbox disagree")
  demand (r.lastInboundOfferFrame.isSome → r.outboxIs .advance = true)
    (failure "checkpoint cached OFFER has no matching ADVANCE outbox")
  demand (r.lastInboundAdvanceFrame.isSome = r.cachedAckFrame.isSome)
    (failure "checkpoint ADVANCE replay and ACK cache must be paired")
  demand (¬ (r.lastInboundOfferFrame.isSome ∧ r.lastInboundAdvanceFrame.isSome))
    (failure "checkpoint contains mutually exclusive replay caches")

/-- `restore` (pqHealingRuntime.ts:1034-1157). -/
def SparsePqHealingState.restore (bytes : Bytes) (options : RestoreSparsePqHealingOptions) :
    Except JsError SparsePqHealingState := do
  requireBytes options.binding "expected edge binding" 32
  demand (¬ (bytes.length = 0 ∨ bytes.length > MAX_EDGE_STATE_BYTES))
    (failure "checkpoint length is invalid")
  match (readCheckpoint options).run bytes with
  | .error e _ => .error e
  | .ok checkpoint rest =>
    demand (rest = []) (failure "checkpoint contains trailing bytes")
    let machine ← PqHealing.restore checkpoint.snapshot
      (roomPqModeToParameterSet options.pqMode) options.binding
    let fresh ← SparsePqHealingState.new options.pqMode options.rootSuite options.binding
      machine.rootKey machine.nextOfferer options.amInitiator checkpoint.lastHealedAt
    let restored := { fresh with
      machine
      messageRoot := machine.rootKey
      outbox := checkpoint.outbox
      lastInboundOfferFrame := checkpoint.lastOfferFrame
      lastInboundAdvanceFrame := checkpoint.lastAdvanceFrame
      cachedAckFrame := checkpoint.cachedAckFrame
      activeReceiveKeys := checkpoint.activeKeys
      messagesSinceHealing := checkpoint.messagesSinceHealing }
    restored.validateCheckpointCoherence
    return restored

/-! ## The bytes of a checkpoint -/

/-- A sized field. -/
def encodeSized : Option Bytes → Bytes
  | none => beBytes 4 0
  | some value => beBytes 4 value.length ++ value

/-- A phase: its tag and its sized fields. -/
def encodePhase (phase : PqHealingSnapshotPhase) : Bytes :=
  beBytes 1 (phaseTag phase) ++
    match phase with
    | .idle => []
    | .outboundOfferPrepared offer secretKey | .outboundOfferDispatched offer secretKey =>
      encodeSized (some offer) ++ encodeSized (some secretKey)
    | .inboundOffer offer => encodeSized (some offer)
    | .outboundAdvancePrepared advance nextRoot =>
      encodeSized (some advance) ++ encodeSized (some nextRoot)
    | .outboundAdvanceAwaitingAck advance | .inboundAdvanceAwaitingAckDispatch advance =>
      encodeSized (some advance)
    | .inboundAdvancePrepared advance secretKey nextRoot =>
      encodeSized (some advance) ++ (encodeSized (some secretKey) ++ encodeSized (some nextRoot))

/-- An outbox: its tag, attempts, deadline and frame. -/
def encodeOutbox : Option PqHealingOutbox → Bytes
  | none => beBytes 1 0
  | some outbox => beBytes 1 (outboxTag outbox.kind) ++ (beBytes 1 outbox.attempts ++
      (beBytes 8 outbox.nextRetryAt ++ encodeSized (some outbox.frame)))

/-- An active key: its sized name and its bytes. -/
def encodeActiveKey (entry : String × Bytes) : Bytes :=
  beBytes 2 (textEncode entry.1).length ++ (textEncode entry.1 ++ entry.2)

/-- The active keys: how many, then each in sorted order. -/
def encodeActiveKeys (keys : OrdMap String Bytes) : Bytes :=
  beBytes 2 (sortedEntries keys).length ++ (sortedEntries keys).flatMap encodeActiveKey

/-- The fields of a checkpoint before the active keys. -/
def encodeEdge (r : SparsePqHealingState) : Bytes :=
  EDGE_MAGIC ++ (beBytes 1 EDGE_FORMAT_VERSION ++ (beBytes 1 (suiteTag r.suite) ++
    (beBytes 1 (if r.amInitiator then 1 else 2) ++ (beBytes 1 0 ++ (beBytes 8 r.lastHealedAt ++
    (beBytes 8 r.messagesSinceHealing ++ (r.machine.binding ++ (r.machine.rootKey ++
    (beBytes 8 r.machine.epoch ++ (beBytes 8 r.machine.localCounter ++
    (beBytes 8 r.machine.remoteCounter ++ (beBytes 1 (turnTag r.machine.nextOfferer) ++
    (encodePhase (snapshotPhase r.machine.phase) ++
    (encodeSized (r.machine.lastInboundOffer.map (·.bytes)) ++
    (encodeSized (r.machine.lastInboundAdvance.map (·.bytes)) ++ (encodeOutbox r.outbox ++
    (encodeSized r.lastInboundOfferFrame ++ (encodeSized r.lastInboundAdvanceFrame ++
    encodeSized r.cachedAckFrame))))))))))))))))))

/-- A checkpoint. -/
def encodeCheckpoint (r : SparsePqHealingState) (keys : OrdMap String Bytes) : Bytes :=
  encodeEdge r ++ encodeActiveKeys keys

/-! ## What can be written -/

/-- A sized field that fits a limit. -/
def Fits (maximum : Nat) (value : Bytes) : Prop := 0 < value.length ∧ value.length ≤ maximum

/-- The fields of a phase fit the limits of its suite. -/
def PhaseFits (suite : MlKemParameterSet) : PqHealingSnapshotPhase → Prop
  | .idle => True
  | .outboundOfferPrepared offer secretKey | .outboundOfferDispatched offer secretKey =>
    Fits (offerLength suite) offer ∧ Fits suite.secretKeyBytes secretKey
  | .inboundOffer offer => Fits (offerLength suite) offer
  | .outboundAdvancePrepared advance nextRoot =>
    Fits (advanceLength suite) advance ∧ Fits 32 nextRoot
  | .outboundAdvanceAwaitingAck advance | .inboundAdvanceAwaitingAckDispatch advance =>
    Fits (advanceLength suite) advance
  | .inboundAdvancePrepared advance secretKey nextRoot =>
    Fits (advanceLength suite) advance ∧ Fits suite.secretKeyBytes secretKey ∧ Fits 32 nextRoot

/-- Active keys as the receive path makes them: canonical names and 32-byte keys. -/
def ActiveKeysOk (keys : OrdMap String Bytes) : Prop :=
  ∀ entry ∈ keys.entries, canonicalCacheKey entry.1 = true ∧
    (textEncode entry.1).length ≤ MAX_CACHE_KEY_BYTES ∧ entry.2.length = 32

theorem sortedEntries_perm (keys : OrdMap String Bytes) :
    (sortedEntries keys).Perm keys.entries := List.mergeSort_perm _ _

/-- The active keys in sorted order, as a map. -/
def sortedKeys (keys : OrdMap String Bytes) : OrdMap String Bytes where
  entries := sortedEntries keys
  nodup := ((sortedEntries_perm keys).map Prod.fst).nodup_iff.mpr keys.nodup

theorem secretKeyBytes_pos (suite : MlKemParameterSet) : 0 < suite.secretKeyBytes := by
  cases suite <;> decide

theorem fits_offer {m : Machine} {offer : DecodedOffer} (h : m.OfferOk offer) :
    Fits (offerLength m.suite) offer.bytes := by
  have hlen := (decodeOffer_spec h).length_eq
  rw [Fits, hlen]
  exact ⟨Nat.lt_of_le_of_lt (Nat.zero_le _) (offerLength_bounds m.suite).1, Nat.le_refl _⟩

theorem fits_advance {m : Machine} {advance : DecodedAdvance} (h : m.AdvanceOk advance) :
    Fits (advanceLength m.suite) advance.bytes := by
  have hlen := (decodeAdvance_spec h).length_eq
  rw [Fits, hlen]
  exact ⟨Nat.lt_of_le_of_lt (Nat.zero_le _) (advanceLength_bounds m.suite).1, Nat.le_refl _⟩

theorem fits_of_length {n : Nat} {value : Bytes} (hn : 0 < n) (h : value.length = n) :
    Fits n value := by
  rw [Fits, h]
  exact ⟨hn, Nat.le_refl _⟩

theorem phaseFits_snapshotPhase {m : Machine} {phase : InternalPhase} (h : m.PhaseOk phase) :
    PhaseFits m.suite (snapshotPhase phase) := by
  have hsk : ∀ {v : Bytes}, v.length = m.suite.secretKeyBytes → Fits m.suite.secretKeyBytes v :=
    fits_of_length (secretKeyBytes_pos m.suite)
  cases phase with
  | idle => trivial
  | outboundOffer dispatched offer keyPair =>
    cases dispatched <;> exact ⟨fits_offer h.1, hsk h.2.2.1⟩
  | inboundOffer offer => exact fits_offer h.1
  | outboundAdvancePrepared offer advance nextRoot =>
    exact ⟨fits_advance h.1, fits_of_length (by decide) h.2.2.1⟩
  | outboundAdvanceAwaitingAck offer advance => exact fits_advance h.1
  | inboundAdvancePrepared offer advance keyPair nextRoot =>
    exact ⟨fits_advance h.1, hsk h.2.2.2.1, fits_of_length (by decide) h.2.2.2.2.1⟩
  | inboundAdvanceAwaitingAckDispatch advance => exact fits_advance h.1

/-! ## Writing gives these bytes -/

theorem writes_bytes (value : Bytes) : Writes MAX_EDGE_STATE_BYTES (writeBytes value) value :=
  writes_putBytes _ _

theorem writes_uint {width value : Nat} {message : String} (h : value < 256 ^ width) :
    Writes MAX_EDGE_STATE_BYTES (writeUint width message value) (beBytes width value) :=
  (writes_ensure h).seq_nil (writes_bytes _)

theorem writes_u64 {value : Nat} (h : value ≤ MAX_U64) :
    Writes MAX_EDGE_STATE_BYTES (writeU64 value) (beBytes 8 value) :=
  writes_uint (lt_256_pow_8 h)

/-- A field of a checkpoint is shorter than 2^32 bytes. -/
abbrev FIELD_LIMIT : Nat := 65490

theorem writes_sized {value : Option Bytes} (h : ∀ v ∈ value, Fits FIELD_LIMIT v) :
    Writes MAX_EDGE_STATE_BYTES (writeSized value) (encodeSized value) := by
  cases value with
  | none => exact writes_uint (by decide)
  | some v =>
    obtain ⟨hpos, hmax⟩ := h v rfl
    refine (writes_ensure (Nat.ne_of_gt hpos)).seq_nil ?_
    exact (writes_uint (Nat.lt_of_le_of_lt hmax (by decide))).seq (writes_bytes _)

theorem writes_some {maximum : Nat} {v : Bytes} (h : Fits maximum v) (hmax : maximum ≤ FIELD_LIMIT) :
    Writes MAX_EDGE_STATE_BYTES (writeSized (some v)) (encodeSized (some v)) := by
  refine writes_sized ?_
  rintro _ ⟨⟩
  exact ⟨h.1, Nat.le_trans h.2 hmax⟩

theorem suite_limits (suite : MlKemParameterSet) :
    offerLength suite ≤ FIELD_LIMIT ∧ advanceLength suite ≤ FIELD_LIMIT ∧
      suite.secretKeyBytes ≤ FIELD_LIMIT := by
  cases suite <;> decide

theorem phaseTag_lt (phase : PqHealingSnapshotPhase) : phaseTag phase < 256 ^ 1 := by
  cases phase <;> simp [phaseTag]

theorem writes_phase {suite : MlKemParameterSet} {phase : PqHealingSnapshotPhase}
    (h : PhaseFits suite phase) :
    Writes MAX_EDGE_STATE_BYTES (writePhase phase) (encodePhase phase) := by
  obtain ⟨hoffer, hadvance, hsk⟩ := suite_limits suite
  have hroot : 32 ≤ FIELD_LIMIT := by decide
  cases phase with
  | idle => exact (writes_uint (phaseTag_lt _)).seq writes_pure
  | outboundOfferPrepared offer secretKey =>
    exact (writes_uint (phaseTag_lt _)).seq ((writes_some h.1 hoffer).seq (writes_some h.2 hsk))
  | outboundOfferDispatched offer secretKey =>
    exact (writes_uint (phaseTag_lt _)).seq ((writes_some h.1 hoffer).seq (writes_some h.2 hsk))
  | inboundOffer offer => exact (writes_uint (phaseTag_lt _)).seq (writes_some h hoffer)
  | outboundAdvancePrepared advance nextRoot =>
    exact (writes_uint (phaseTag_lt _)).seq ((writes_some h.1 hadvance).seq (writes_some h.2 hroot))
  | outboundAdvanceAwaitingAck advance =>
    exact (writes_uint (phaseTag_lt _)).seq (writes_some h hadvance)
  | inboundAdvancePrepared advance secretKey nextRoot =>
    exact (writes_uint (phaseTag_lt _)).seq ((writes_some h.1 hadvance).seq
      ((writes_some h.2.1 hsk).seq (writes_some h.2.2 hroot)))
  | inboundAdvanceAwaitingAckDispatch advance =>
    exact (writes_uint (phaseTag_lt _)).seq (writes_some h hadvance)

theorem outboxTag_lt (kind : PqHealingOutboxKind) : outboxTag kind < 256 ^ 1 := by
  cases kind <;> decide

theorem writes_outbox {outbox : Option PqHealingOutbox}
    (h : ∀ ob ∈ outbox, ob.frame.length = WIRE_CHUNK_FRAME_LEN ∧
      ob.attempts ≤ PQ_HEAL_MAX_RETRIES ∧ ob.nextRetryAt ≤ MAX_SAFE_INTEGER) :
    Writes MAX_EDGE_STATE_BYTES (writeOutbox outbox) (encodeOutbox outbox) := by
  cases outbox with
  | none => exact writes_uint (by decide)
  | some ob =>
    obtain ⟨hlen, hattempts, hretry⟩ := h ob rfl
    refine (writes_uint (outboxTag_lt _)).seq ((writes_uint ?_).seq ((writes_u64 ?_).seq ?_))
    · exact Nat.lt_of_le_of_lt hattempts (by decide)
    · exact Nat.le_trans hretry (by decide)
    · exact writes_some (fits_of_length (by decide) hlen) (Nat.le_refl _)

theorem length_sortedEntries (keys : OrdMap String Bytes) :
    (sortedEntries keys).length = keys.size := (sortedEntries_perm keys).length_eq

/-- A canonical name is not empty. -/
theorem canonicalCacheKey_pos {key : String} (h : canonicalCacheKey key = true) :
    0 < (textEncode key).length := by
  rcases Nat.eq_zero_or_pos (textEncode key).length with hzero | hpos
  · have hnil : textEncode key = textEncode "" := List.eq_nil_of_length_eq_zero hzero
    have hkey : key = "" := by
      have := congrArg textDecode hnil
      rw [textDecode_textEncode, textDecode_textEncode] at this
      exact Option.some.inj this
    subst hkey
    exact absurd h (by decide)
  · exact hpos

theorem writes_activeKeys {keys : OrdMap String Bytes} (hok : ActiveKeysOk keys)
    (hsize : keys.size ≤ MAX_ACTIVE_RECEIVE_KEYS) :
    Writes MAX_EDGE_STATE_BYTES (writeActiveKeys keys) (encodeActiveKeys keys) := by
  have hlen : (sortedEntries keys).length < 256 ^ 2 := by
    rw [length_sortedEntries]
    exact Nat.lt_of_le_of_lt hsize (by decide)
  refine (writes_ensure (Nat.not_lt.mpr hsize)).seq_nil ((writes_uint hlen).seq ?_)
  refine writes_putAll _ fun entry hentry => ?_
  obtain ⟨hcanon, hkey, hvalue⟩ := hok entry ((sortedEntries_perm keys).mem_iff.mp hentry)
  have hbounds : ¬ ((textEncode entry.1).length = 0 ∨
      (textEncode entry.1).length > MAX_CACHE_KEY_BYTES) := by
    have := canonicalCacheKey_pos hcanon
    omega
  have hwidth : (textEncode entry.1).length < 256 ^ 2 :=
    Nat.lt_of_le_of_lt hkey (by decide)
  refine (writes_ensure hcanon).seq_nil ((writes_ensure hbounds).seq_nil
    ((writes_attempt (demand_of hvalue)).seq_nil ?_))
  exact (writes_uint hwidth).seq ((writes_bytes _).seq (writes_bytes _))

variable {r : SparsePqHealingState} {keys : OrdMap String Bytes}

theorem suiteTag_lt (suite : MlKemParameterSet) : suiteTag suite < 256 ^ 1 := by
  cases suite <;> decide

theorem turnTag_lt (turn : PqHealingTurn) : turnTag turn < 256 ^ 1 := by
  cases turn <;> decide

theorem directionTag_lt (amInitiator : Bool) : (if amInitiator then 1 else 2) < 256 ^ 1 := by
  cases amInitiator <;> decide

theorem fits_lastOffer (h : r.WellFormed) :
    ∀ v ∈ r.machine.lastInboundOffer.map (·.bytes), Fits (offerLength r.machine.suite) v := by
  intro v hv
  obtain ⟨offer, hoffer, rfl⟩ := Option.map_eq_some_iff.mp hv
  exact fits_offer (h.machine.lastOffer offer hoffer).1

theorem fits_lastAdvance (h : r.WellFormed) :
    ∀ v ∈ r.machine.lastInboundAdvance.map (·.bytes), Fits (advanceLength r.machine.suite) v := by
  intro v hv
  obtain ⟨advance, hadvance, rfl⟩ := Option.map_eq_some_iff.mp hv
  exact fits_advance (h.machine.lastAdvance advance hadvance).1

theorem fits_frame {frame : Option Bytes} (h : ∀ f ∈ frame, f.length = WIRE_CHUNK_FRAME_LEN) :
    ∀ f ∈ frame, Fits FIELD_LIMIT f :=
  fun f hf => fits_of_length (by decide) (h f hf)

/-- The fields of a runtime fit the fields of a checkpoint. -/
structure SparsePqHealingState.Storable (r : SparsePqHealingState) : Prop where
  lastHealedAt : r.lastHealedAt ≤ MAX_SAFE_INTEGER
  messages : r.messagesSinceHealing ≤ MAX_SAFE_INTEGER
  epoch : r.machine.epoch ≤ MAX_U64
  localCounter : r.machine.localCounter ≤ MAX_U64
  remoteCounter : r.machine.remoteCounter ≤ MAX_U64
  phase : PhaseFits r.machine.suite (snapshotPhase r.machine.phase)
  lastOffer : ∀ v ∈ r.machine.lastInboundOffer.map (·.bytes), Fits (offerLength r.machine.suite) v
  lastAdvance : ∀ v ∈ r.machine.lastInboundAdvance.map (·.bytes),
    Fits (advanceLength r.machine.suite) v
  outbox : ∀ outbox ∈ r.outbox, outbox.frame.length = WIRE_CHUNK_FRAME_LEN ∧
    outbox.attempts ≤ PQ_HEAL_MAX_RETRIES ∧ outbox.nextRetryAt ≤ MAX_SAFE_INTEGER
  offerFrame : ∀ frame ∈ r.lastInboundOfferFrame, frame.length = WIRE_CHUNK_FRAME_LEN
  advanceFrame : ∀ frame ∈ r.lastInboundAdvanceFrame, frame.length = WIRE_CHUNK_FRAME_LEN
  ackFrame : ∀ frame ∈ r.cachedAckFrame, frame.length = WIRE_CHUNK_FRAME_LEN

theorem SparsePqHealingState.WellFormed.storable (h : r.WellFormed) : r.Storable where
  lastHealedAt := h.lastHealedAt
  messages := h.messages
  epoch := h.machine.epoch
  localCounter := h.machine.localCounter
  remoteCounter := h.machine.remoteCounter
  phase := phaseFits_snapshotPhase h.machine.phase
  lastOffer := fits_lastOffer h
  lastAdvance := fits_lastAdvance h
  outbox := h.outbox
  offerFrame frame hframe := (h.offerFrame frame hframe).1
  advanceFrame frame hframe := (h.advanceFrame frame hframe).1
  ackFrame := h.ackFrame

theorem writes_edge (h : r.Storable) :
    Writes MAX_EDGE_STATE_BYTES (writeEdge r) (encodeEdge r) := by
  obtain ⟨hoffer, hadvance, -⟩ := suite_limits r.machine.suite
  have hsafe : MAX_SAFE_INTEGER ≤ MAX_U64 := by decide
  refine (writes_bytes _).seq ((writes_uint (by decide)).seq ((writes_uint (suiteTag_lt _)).seq
    ((writes_uint (directionTag_lt _)).seq ((writes_uint (by decide)).seq
    ((writes_u64 (Nat.le_trans h.lastHealedAt hsafe)).seq
    ((writes_u64 (Nat.le_trans h.messages hsafe)).seq ((writes_bytes _).seq ((writes_bytes _).seq
    ((writes_u64 h.epoch).seq ((writes_u64 h.localCounter).seq
    ((writes_u64 h.remoteCounter).seq ((writes_uint (turnTag_lt _)).seq
    ((writes_phase h.phase).seq ?_)))))))))))))
  refine (writes_sized fun v hv => ?_).seq ((writes_sized fun v hv => ?_).seq
    ((writes_outbox h.outbox).seq ((writes_sized (fits_frame h.offerFrame)).seq
    ((writes_sized (fits_frame h.advanceFrame)).seq (writes_sized (fits_frame h.ackFrame))))))
  · exact ⟨(h.lastOffer v hv).1, Nat.le_trans (h.lastOffer v hv).2 hoffer⟩
  · exact ⟨(h.lastAdvance v hv).1, Nat.le_trans (h.lastAdvance v hv).2 hadvance⟩

/-! ## The budget suffices -/

theorem length_encodeSized_le {maximum : Nat} {value : Option Bytes}
    (h : ∀ v ∈ value, Fits maximum v) : (encodeSized value).length ≤ 4 + maximum := by
  cases value with
  | none =>
    rw [encodeSized, length_beBytes]
    exact Nat.le_add_right _ _
  | some v =>
    rw [encodeSized, List.length_append, length_beBytes]
    exact Nat.add_le_add_left (h v rfl).2 4

theorem length_encodeSome_le {maximum : Nat} {v : Bytes} (h : Fits maximum v) :
    (encodeSized (some v)).length ≤ 4 + maximum :=
  length_encodeSized_le (by rintro _ ⟨⟩; exact h)

theorem suite_sizes (suite : MlKemParameterSet) :
    offerLength suite ≤ 1632 ∧ advanceLength suite ≤ 3264 ∧ suite.secretKeyBytes ≤ 3168 := by
  cases suite <;> decide

theorem length_encodePhase_le {suite : MlKemParameterSet} {phase : PqHealingSnapshotPhase}
    (h : PhaseFits suite phase) : (encodePhase phase).length ≤ 6477 := by
  obtain ⟨hoffer, hadvance, hsk⟩ := suite_sizes suite
  unfold encodePhase
  rw [List.length_append, length_beBytes]
  cases phase with
  | idle => simp
  | outboundOfferPrepared offer secretKey | outboundOfferDispatched offer secretKey =>
    have h1 := length_encodeSome_le h.1
    have h2 := length_encodeSome_le h.2
    rw [List.length_append]
    omega
  | inboundOffer offer =>
    have h1 := length_encodeSome_le h
    dsimp only
    omega
  | outboundAdvancePrepared advance nextRoot =>
    have h1 := length_encodeSome_le h.1
    have h2 := length_encodeSome_le h.2
    rw [List.length_append]
    omega
  | outboundAdvanceAwaitingAck advance | inboundAdvanceAwaitingAckDispatch advance =>
    have h1 := length_encodeSome_le h
    dsimp only
    omega
  | inboundAdvancePrepared advance secretKey nextRoot =>
    have h1 := length_encodeSome_le h.1
    have h2 := length_encodeSome_le h.2.1
    have h3 := length_encodeSome_le h.2.2
    rw [List.length_append, List.length_append]
    omega

/-- The outbox and the caches hold at most two frames: a cached OFFER goes with an
outbox, a cached ADVANCE and its acknowledgement with none. -/
theorem length_frames_le (h : r.WellFormed) :
    (encodeOutbox r.outbox).length + (encodeSized r.lastInboundOfferFrame).length +
      (encodeSized r.lastInboundAdvanceFrame).length + (encodeSized r.cachedAckFrame).length ≤
      2 * WIRE_CHUNK_FRAME_LEN + 26 := by
  have hoffer := length_encodeSized_le (fits_frame fun f hf => (h.offerFrame f hf).1)
  have hadvance := length_encodeSized_le (fits_frame fun f hf => (h.advanceFrame f hf).1)
  have hack := length_encodeSized_le (fits_frame h.ackFrame)
  have hnone : (encodeSized none).length = 4 := rfl
  simp only [FIELD_LIMIT, WIRE_CHUNK_FRAME_LEN] at *
  cases hob : r.outbox with
  | none =>
    have hno : r.lastInboundOfferFrame = none := by
      cases hlast : r.lastInboundOfferFrame with
      | none => rfl
      | some f =>
        have := (h.offerFrame f hlast).2
        simp [SparsePqHealingState.outboxIs, hob] at this
    have hlen : (encodeOutbox none).length = 1 := rfl
    rw [hno]
    omega
  | some ob =>
    have hno : r.lastInboundAdvanceFrame = none := by
      cases hlast : r.lastInboundAdvanceFrame with
      | none => rfl
      | some f =>
        have := (h.advanceFrame f hlast).2
        simp [hob] at this
    have hnoAck : r.cachedAckFrame = none := by
      have hpaired := h.paired
      rw [hno] at hpaired
      exact Option.isNone_iff_eq_none.mp (by simpa using hpaired.symm)
    have hlen : (encodeOutbox (some ob)).length = 14 + ob.frame.length := by
      simp only [encodeOutbox, encodeSized, List.length_append, length_beBytes]
      omega
    have hframe := (h.outbox ob hob).1
    simp only [WIRE_CHUNK_FRAME_LEN] at hframe
    rw [hno, hnoAck]
    omega

theorem length_encodeActiveKeys_le (hok : ActiveKeysOk keys)
    (hsize : keys.size ≤ MAX_ACTIVE_RECEIVE_KEYS) : (encodeActiveKeys keys).length ≤ 49666 := by
  have hentries : ∀ es : List (String × Bytes), (∀ e ∈ es, e ∈ keys.entries) →
      (es.flatMap encodeActiveKey).length ≤ 194 * es.length := by
    intro es hes
    induction es with
    | nil => simp
    | cons e es ih =>
      have ih' := ih fun x hx => hes x (List.mem_cons_of_mem e hx)
      obtain ⟨-, hkey, hvalue⟩ := hok e (hes e List.mem_cons_self)
      simp only [List.flatMap_cons, List.length_append, List.length_cons, encodeActiveKey,
        length_beBytes, hvalue]
      simp only [MAX_CACHE_KEY_BYTES] at hkey
      omega
  have hall := hentries (sortedEntries keys) fun e he => (sortedEntries_perm keys).mem_iff.mp he
  have hmax : MAX_ACTIVE_RECEIVE_KEYS = 256 := by decide
  rw [length_sortedEntries] at hall
  rw [encodeActiveKeys, List.length_append, length_beBytes]
  omega

theorem length_encodeEdge (h : r.WellFormed) :
    (encodeEdge r).length = 109 + EDGE_MAGIC.length +
      (encodePhase (snapshotPhase r.machine.phase)).length +
      (encodeSized (r.machine.lastInboundOffer.map (·.bytes))).length +
      (encodeSized (r.machine.lastInboundAdvance.map (·.bytes))).length +
      ((encodeOutbox r.outbox).length + (encodeSized r.lastInboundOfferFrame).length +
        (encodeSized r.lastInboundAdvanceFrame).length + (encodeSized r.cachedAckFrame).length) := by
  have hbinding : r.machine.binding.length = 32 := h.machine.binding
  have hroot : r.machine.rootKey.length = 32 := h.machine.root
  simp only [encodeEdge, List.length_append, length_beBytes, hbinding, hroot]
  -- as opaque numbers: `omega` would compare the parts by unfolding the encoders
  generalize EDGE_MAGIC.length = magic
  generalize (encodePhase (snapshotPhase r.machine.phase)).length = phase
  generalize (encodeSized (r.machine.lastInboundOffer.map (·.bytes))).length = lastOffer
  generalize (encodeSized (r.machine.lastInboundAdvance.map (·.bytes))).length = lastAdvance
  generalize (encodeOutbox r.outbox).length = outbox
  generalize (encodeSized r.lastInboundOfferFrame).length = offerFrame
  generalize (encodeSized r.lastInboundAdvanceFrame).length = advanceFrame
  generalize (encodeSized r.cachedAckFrame).length = ackFrame
  clear hbinding hroot
  omega

theorem length_encodeEdge_le (h : r.WellFormed) : (encodeEdge r).length ≤ 142512 := by
  obtain ⟨hoffer, hadvance, -⟩ := suite_sizes r.machine.suite
  have hphase := length_encodePhase_le (phaseFits_snapshotPhase h.machine.phase)
  have hlastOffer := length_encodeSized_le (fits_lastOffer h)
  have hlastAdvance := length_encodeSized_le (fits_lastAdvance h)
  have hframes := length_frames_le h
  have hmagic : EDGE_MAGIC.length = 8 := rfl
  rw [length_encodeEdge h, hmagic]
  simp only [WIRE_CHUNK_FRAME_LEN] at hframes
  omega

theorem length_encodeCheckpoint (h : r.WellFormed) (hok : ActiveKeysOk keys)
    (hsize : keys.size ≤ MAX_ACTIVE_RECEIVE_KEYS) :
    0 < (encodeCheckpoint r keys).length ∧
      (encodeCheckpoint r keys).length ≤ MAX_EDGE_STATE_BYTES := by
  have hedge := length_encodeEdge_le h
  have hkeys := length_encodeActiveKeys_le hok hsize
  have hpos : 0 < (encodeActiveKeys keys).length := by
    rw [encodeActiveKeys, List.length_append, length_beBytes]
    exact Nat.lt_of_lt_of_le (by decide) (Nat.le_add_right _ _)
  simp only [encodeCheckpoint, List.length_append, MAX_EDGE_STATE_BYTES]
  omega

/-- A well-formed runtime with at most `MAX_ACTIVE_RECEIVE_KEYS` active keys serializes. -/
theorem serialize_eq (h : r.WellFormed) (hok : ActiveKeysOk keys)
    (hsize : keys.size ≤ MAX_ACTIVE_RECEIVE_KEYS) :
    r.serialize keys = .ok (encodeCheckpoint r keys) := by
  have hrun := ((writes_edge h.storable).seq (writes_activeKeys hok hsize)) [] (by
    rw [List.length_nil, Nat.zero_add]
    exact (length_encodeCheckpoint h hok hsize).2)
  rw [SparsePqHealingState.serialize, writeCheckpoint, hrun, List.nil_append]
  rfl

/-- With more active keys it throws. -/
theorem serialize_too_many_keys (h : r.WellFormed) (hsize : keys.size > MAX_ACTIVE_RECEIVE_KEYS) :
    r.serialize keys = .error (failure "too many active receive message keys") := by
  have hedge := writes_edge h.storable [] (by
    rw [List.length_nil, Nat.zero_add]
    exact Nat.le_trans (length_encodeEdge_le h) (by decide))
  rw [SparsePqHealingState.serialize, writeCheckpoint, run_bind_of_ok hedge, writeActiveKeys,
    run_ensure_bind, if_neg (not_not_intro hsize)]

/-! ## Reading gives the fields back -/

theorem reads_uint {width value : Nat} (h : value < 256 ^ width) :
    Reads (readUint width) (beBytes width value) value := reads_getUint h

theorem reads_u64 {value : Nat} (h : value ≤ MAX_U64) : Reads readU64 (beBytes 8 value) value :=
  reads_uint (lt_256_pow_8 h)

theorem reads_take {n : Nat} {value : Bytes} (h : value.length = n) :
    Reads (take n) value value := reads_getBytes h

theorem reads_sized {maximum : Nat} {value : Option Bytes} (hmax : maximum ≤ FIELD_LIMIT)
    (h : ∀ v ∈ value, Fits maximum v) : Reads (readSized maximum) (encodeSized value) value := by
  cases value with
  | none =>
    refine (reads_uint (by decide)).bind_pure ?_
    exact reads_pure none
  | some v =>
    obtain ⟨hpos, hle⟩ := h v rfl
    refine (reads_uint (Nat.lt_of_le_of_lt (Nat.le_trans hle hmax) (by decide))).bind ?_
    rw [if_neg (Nat.ne_of_gt hpos)]
    refine (reads_ensure (Nat.not_lt.mpr hle)).bind_nil ?_
    exact (reads_take rfl).bind_pure (reads_pure _)

theorem reads_required {maximum : Nat} {v : Bytes} {name : String} (hmax : maximum ≤ FIELD_LIMIT)
    (h : Fits maximum v) : Reads (requiredSized maximum name) (encodeSized (some v)) v := by
  refine (reads_sized hmax ?_).bind_pure (reads_pure v)
  rintro _ ⟨⟩
  exact h

theorem reads_phase {suite : MlKemParameterSet} {phase : PqHealingSnapshotPhase}
    (h : PhaseFits suite phase) : Reads (readPhase suite) (encodePhase phase) phase := by
  obtain ⟨hoffer, hadvance, hsk⟩ := suite_limits suite
  have hroot : 32 ≤ FIELD_LIMIT := by decide
  refine (reads_uint (phaseTag_lt phase)).bind ?_
  cases phase with
  | idle => exact reads_pure _
  | outboundOfferPrepared offer secretKey =>
    exact (reads_required hoffer h.1).bind ((reads_required hsk h.2).bind_pure (reads_pure _))
  | outboundOfferDispatched offer secretKey =>
    exact (reads_required hoffer h.1).bind ((reads_required hsk h.2).bind_pure (reads_pure _))
  | inboundOffer offer => exact (reads_required hoffer h).bind_pure (reads_pure _)
  | outboundAdvancePrepared advance nextRoot =>
    exact (reads_required hadvance h.1).bind ((reads_required hroot h.2).bind_pure (reads_pure _))
  | outboundAdvanceAwaitingAck advance =>
    exact (reads_required hadvance h).bind_pure (reads_pure _)
  | inboundAdvancePrepared advance secretKey nextRoot =>
    exact (reads_required hadvance h.1).bind ((reads_required hsk h.2.1).bind
      ((reads_required hroot h.2.2).bind_pure (reads_pure _)))
  | inboundAdvanceAwaitingAckDispatch advance =>
    exact (reads_required hadvance h).bind_pure (reads_pure _)

theorem reads_outbox {outbox : Option PqHealingOutbox}
    (h : ∀ ob ∈ outbox, ob.frame.length = WIRE_CHUNK_FRAME_LEN ∧
      ob.attempts ≤ PQ_HEAL_MAX_RETRIES ∧ ob.nextRetryAt ≤ MAX_SAFE_INTEGER) :
    Reads readOutbox (encodeOutbox outbox) outbox := by
  cases outbox with
  | none =>
    refine (reads_uint (by decide)).bind_pure ?_
    exact reads_pure none
  | some ob =>
    obtain ⟨hlen, hattempts, hretry⟩ := h ob rfl
    have hne : outboxTag ob.kind ≠ 0 := by cases ob.kind <;> decide
    have htag : outboxTag ob.kind = 1 ∨ outboxTag ob.kind = 2 := by
      cases ob.kind
      · exact .inl rfl
      · exact .inr rfl
    have hkind : (if outboxTag ob.kind = 1 then PqHealingOutboxKind.offer else .advance) =
        ob.kind := by
      cases ob.kind <;> rfl
    refine (reads_uint (outboxTag_lt _)).bind ?_
    rw [if_neg hne]
    refine (reads_ensure htag).bind_nil ?_
    refine (reads_uint (Nat.lt_of_le_of_lt hattempts (by decide))).bind ?_
    refine (reads_ensure (Nat.not_lt.mpr hattempts)).bind_nil ?_
    refine (reads_u64 (Nat.le_trans hretry (by decide))).bind ?_
    refine (reads_ensure (Nat.not_lt.mpr hretry)).bind_nil ?_
    refine (reads_required (Nat.le_refl _) (fits_of_length (by decide) hlen)).bind_pure ?_
    refine (reads_attempt (demand_of hlen)).bind_nil ?_
    rw [hkind]
    exact reads_pure _

/-! ### Active keys -/

/-- A canonical name has seven-bit characters only. -/
theorem canonicalCacheKey_ascii {key : String} (h : canonicalCacheKey key = true) :
    ∀ c ∈ key.toList, c.toNat < 128 := by
  have hhex : ∀ c : Char, isHexDigit c = true → c.toNat < 128 := by
    intro c hc
    simp only [isHexDigit, Bool.or_eq_true, Bool.and_eq_true, decide_eq_true_eq] at hc
    have h9 : ('9' : Char).toNat = 57 := rfl
    have hf : ('f' : Char).toNat = 102 := rfl
    rcases hc with hc | hc
    · have : c.toNat ≤ ('9' : Char).toNat := hc.2
      omega
    · have : c.toNat ≤ ('f' : Char).toNat := hc.2
      omega
  have hdigit : ∀ c : Char, c.isDigit = true → c.toNat < 128 := by
    intro c hc
    refine hhex c ?_
    simp only [Char.isDigit, Bool.and_eq_true, decide_eq_true_eq] at hc
    simp only [isHexDigit, Bool.or_eq_true, Bool.and_eq_true, decide_eq_true_eq]
    exact .inl hc
  have hcolon : (':' : Char).toNat < 128 := by decide
  unfold canonicalCacheKey at h
  simp only [Bool.and_eq_true] at h
  obtain ⟨⟨-, htake⟩, hrest⟩ := h
  intro c hc
  rw [← List.take_append_drop 64 key.toList, List.mem_append] at hc
  rcases hc with hc | hc
  · exact hhex c (List.all_eq_true.mp htake c hc)
  · split at hrest
    case h_2 => cases hrest
    rename_i rest heq
    rw [heq, List.mem_cons] at hc
    rcases hc with rfl | hc
    · exact hcolon
    simp only [Bool.and_eq_true] at hrest
    obtain ⟨-, hrest⟩ := hrest
    rw [← List.takeWhile_append_dropWhile (p := Char.isDigit) (l := rest), List.mem_append] at hc
    rcases hc with hc | hc
    · exact hdigit c (List.all_eq_true.mp List.all_takeWhile c hc)
    split at hrest
    case h_2 => cases hrest
    rename_i last heq'
    rw [heq', List.mem_cons] at hc
    simp only [Bool.and_eq_true] at hrest
    rcases hc with rfl | hc
    · exact hcolon
    · exact hdigit c (List.all_eq_true.mp hrest.2 c hc)

/-- The decoder reads a canonical name back: it never starts with a byte order mark. -/
theorem decodeText_textEncode {key : String} (h : canonicalCacheKey key = true) :
    decodeText (textEncode key) = some key := by
  have hbom : (textEncode key).take 3 ≠ [0xef, 0xbb, 0xbf] := by
    rw [textEncode_of_ascii (canonicalCacheKey_ascii h)]
    intro hcontra
    cases hkey : key.toList with
    | nil => simp [hkey] at hcontra
    | cons c cs =>
      have hc := canonicalCacheKey_ascii h c (by simp [hkey])
      rw [hkey] at hcontra
      have hfirst : c.val.toUInt8 = 0xef := by
        simp only [List.map_cons, List.take_succ_cons, List.cons.injEq] at hcontra
        exact hcontra.1
      have hnat := congrArg UInt8.toNat hfirst
      have hval : c.val.toUInt8.toNat = c.toNat % 256 := by
        rw [UInt32.toNat_toUInt8]
        rfl
      have h239 : (0xef : UInt8).toNat = 239 := rfl
      omega
  rw [decodeText, if_neg hbom, textDecode_textEncode]

theorem reads_activeKey {result : OrdMap String Bytes} {entry : String × Bytes}
    (hcanon : canonicalCacheKey entry.1 = true)
    (hkey : (textEncode entry.1).length ≤ MAX_CACHE_KEY_BYTES) (hvalue : entry.2.length = 32)
    (hfresh : entry.1 ∉ result.keys) :
    Reads (readActiveKey result) (encodeActiveKey entry) (result.set entry.1 entry.2) := by
  have hpos := canonicalCacheKey_pos hcanon
  have hbounds : ¬ ((textEncode entry.1).length = 0 ∨
      (textEncode entry.1).length > MAX_CACHE_KEY_BYTES) := by omega
  have hempty : entry.1.length ≠ 0 := by
    intro hzero
    have : entry.1 = "" := String.length_eq_zero_iff.mp hzero
    rw [this] at hcanon
    exact absurd hcanon (by decide)
  have hchecks : ¬ (entry.1.length = 0 ∨ canonicalCacheKey entry.1 = false ∨
      result.has entry.1 = true) := by
    rw [hcanon, OrdMap.has_iff]
    simp [hempty, hfresh]
  refine (reads_uint (Nat.lt_of_le_of_lt hkey (by decide))).bind ?_
  refine (reads_ensure hbounds).bind_nil ((reads_take rfl).bind ?_)
  rw [decodeText_textEncode hcanon]
  exact (reads_ensure hchecks).bind_nil ((reads_take hvalue).bind_pure (reads_pure _))

theorem reads_activeKeysLoop (es : List (String × Bytes)) (result : OrdMap String Bytes)
    (hok : ∀ e ∈ es, canonicalCacheKey e.1 = true ∧
      (textEncode e.1).length ≤ MAX_CACHE_KEY_BYTES ∧ e.2.length = 32)
    (hnodup : (result.keys ++ es.map Prod.fst).Nodup) :
    Reads (readActiveKeysLoop es.length result) (es.flatMap encodeActiveKey)
      (es.foldl (fun m e => m.set e.1 e.2) result) := by
  induction es generalizing result with
  | nil => exact reads_pure result
  | cons e es ih =>
    obtain ⟨hcanon, hkey, hvalue⟩ := hok e List.mem_cons_self
    have hfresh : e.1 ∉ result.keys := fun hmem =>
      (List.nodup_append.mp hnodup).2.2 e.1 hmem e.1 (by simp) rfl
    refine (reads_activeKey hcanon hkey hvalue hfresh).bind (ih _ ?_ ?_)
    · exact fun x hx => hok x (List.mem_cons_of_mem e hx)
    · have hkeys : (result.set e.1 e.2).keys = result.keys ++ [e.1] := by
        rw [OrdMap.keys, OrdMap.set_entries_of_not_has e.2 hfresh, List.map_append]
        rfl
      rw [hkeys, List.append_assoc, List.singleton_append, ← List.map_cons]
      exact hnodup

theorem reads_activeKeys (hok : ActiveKeysOk keys) (hsize : keys.size ≤ MAX_ACTIVE_RECEIVE_KEYS) :
    Reads readActiveKeys (encodeActiveKeys keys) (sortedKeys keys) := by
  have hlen : (sortedEntries keys).length ≤ MAX_ACTIVE_RECEIVE_KEYS := by
    rw [length_sortedEntries]
    exact hsize
  refine (reads_uint (Nat.lt_of_le_of_lt hlen (by decide))).bind ?_
  refine (reads_ensure (Nat.not_lt.mpr hlen)).bind_nil ?_
  have hloop := reads_activeKeysLoop (sortedEntries keys) .empty
    (fun e he => hok e ((sortedEntries_perm keys).mem_iff.mp he)) (sortedKeys keys).nodup
  have hmap : (sortedEntries keys).foldl (fun m e => m.set e.1 e.2) .empty = sortedKeys keys :=
    OrdMap.ofList_entries (sortedKeys keys)
  rw [hmap] at hloop
  exact hloop

/-! ## Restoring a checkpoint -/

/-- The options an edge restores its own checkpoint with. -/
def SparsePqHealingState.options (r : SparsePqHealingState) : RestoreSparsePqHealingOptions where
  pqMode := r.pqMode
  rootSuite := r.rootSuite
  binding := r.binding
  amInitiator := r.amInitiator

theorem tagSuite_suiteTag (suite : MlKemParameterSet) : tagSuite (suiteTag suite) = .ok suite := by
  cases suite <;> rfl

theorem tagTurn_turnTag (turn : PqHealingTurn) : tagTurn (turnTag turn) = .ok turn := by
  cases turn <;> rfl

theorem requireFrame_eq {frame : Option Bytes}
    (h : ∀ f ∈ frame, f.length = WIRE_CHUNK_FRAME_LEN) : requireFrame frame = .ok () := by
  cases frame with
  | none => rfl
  | some f => exact demand_of (h f rfl)

theorem reads_checkpoint (h : r.WellFormed) (hok : ActiveKeysOk keys)
    (hsize : keys.size ≤ MAX_ACTIVE_RECEIVE_KEYS) :
    Reads (readCheckpoint r.options) (encodeCheckpoint r keys) {
      lastHealedAt := r.lastHealedAt
      messagesSinceHealing := r.messagesSinceHealing
      snapshot := r.machine.snapshot
      outbox := r.outbox
      lastOfferFrame := r.lastInboundOfferFrame
      lastAdvanceFrame := r.lastInboundAdvanceFrame
      cachedAckFrame := r.cachedAckFrame
      activeKeys := sortedKeys keys } := by
  have hsafe : MAX_SAFE_INTEGER ≤ MAX_U64 := by decide
  have hcounters : ¬ (r.lastHealedAt > MAX_SAFE_INTEGER ∨
      r.messagesSinceHealing > MAX_SAFE_INTEGER) := by
    have := h.lastHealedAt
    have := h.messages
    omega
  have hphase := phaseFits_snapshotPhase h.machine.phase
  have hlimit : offerLength r.machine.suite ≤ 8 * 1024 ∧ advanceLength r.machine.suite ≤ 8 * 1024 := by
    cases r.machine.suite <;> decide
  have hoffer := fun f hf => (h.offerFrame f hf).1
  have hadvance := fun f hf => (h.advanceFrame f hf).1
  unfold encodeCheckpoint encodeEdge
  simp only [List.append_assoc]
  refine (reads_take rfl).bind ((reads_ensure rfl).bind_nil ?_)
  refine (reads_uint (by decide)).bind ((reads_ensure rfl).bind_nil ?_)
  refine (reads_uint (suiteTag_lt _)).bind ((reads_attempt (tagSuite_suiteTag _)).bind_nil
    ((reads_ensure rfl).bind_nil ((reads_ensure h.rootSuite_eq).bind_nil ?_)))
  refine (reads_uint (directionTag_lt _)).bind ((reads_ensure rfl).bind_nil ?_)
  refine (reads_uint (by decide)).bind ((reads_ensure rfl).bind_nil ?_)
  refine (reads_u64 (Nat.le_trans h.lastHealedAt hsafe)).bind
    ((reads_u64 (Nat.le_trans h.messages hsafe)).bind ((reads_ensure hcounters).bind_nil ?_))
  refine (reads_take h.machine.binding).bind ((reads_ensure h.binding_eq).bind_nil ?_)
  refine (reads_take h.machine.root).bind ((reads_u64 h.machine.epoch).bind
    ((reads_u64 h.machine.localCounter).bind ((reads_u64 h.machine.remoteCounter).bind ?_)))
  refine (reads_uint (turnTag_lt _)).bind ((reads_attempt (tagTurn_turnTag _)).bind_nil ?_)
  rw [← h.suite_eq]
  refine (reads_phase hphase).bind ((reads_sized (by decide) ?_).bind
    ((reads_sized (by decide) ?_).bind ((reads_outbox h.outbox).bind ?_)))
  · exact fun v hv => ⟨(fits_lastOffer h v hv).1, Nat.le_trans (fits_lastOffer h v hv).2 hlimit.1⟩
  · exact fun v hv =>
      ⟨(fits_lastAdvance h v hv).1, Nat.le_trans (fits_lastAdvance h v hv).2 hlimit.2⟩
  refine (reads_sized (Nat.le_refl _) (fits_frame hoffer)).bind
    ((reads_sized (Nat.le_refl _) (fits_frame hadvance)).bind
    ((reads_sized (Nat.le_refl _) (fits_frame h.ackFrame)).bind ?_))
  refine (reads_attempt (requireFrame_eq hoffer)).bind_nil
    ((reads_attempt (requireFrame_eq hadvance)).bind_nil
    ((reads_attempt (requireFrame_eq h.ackFrame)).bind_nil ?_))
  exact (reads_activeKeys hok hsize).bind_pure (reads_pure _)

theorem validateCheckpointCoherence_eq (h : r.WellFormed) :
    r.validateCheckpointCoherence = .ok () := by
  have hpairs : (match r.machine.phase with | .outboundOffer true _ _ => true | _ => false) =
        r.outboxIs .offer ∧
      (match r.machine.phase with | .outboundAdvanceAwaitingAck _ _ => true | _ => false) =
        r.outboxIs .advance := by
    have hphase := h.phase
    unfold SparsePqHealingState.outboxIs
    cases hkind : r.outbox.map (·.kind) with
    | none =>
      rw [hkind] at hphase
      cases hp : r.machine.phase <;> rw [hp] at hphase <;>
        first | exact hphase.elim | exact ⟨rfl, rfl⟩
    | some kind =>
      rw [hkind] at hphase
      cases kind with
      | offer =>
        cases hp : r.machine.phase with
        | outboundOffer dispatched offer keyPair =>
          rw [hp] at hphase
          cases dispatched with
          | false => exact hphase.elim
          | true => exact ⟨rfl, rfl⟩
        | _ =>
          rw [hp] at hphase
          exact hphase.elim
      | advance =>
        cases hp : r.machine.phase with
        | outboundAdvanceAwaitingAck offer advance => exact ⟨rfl, rfl⟩
        | _ =>
          rw [hp] at hphase
          exact hphase.elim
  have hcached : r.lastInboundOfferFrame.isSome → r.outboxIs .advance = true := by
    intro hsome
    obtain ⟨f, hf⟩ := Option.isSome_iff_exists.mp hsome
    exact (h.offerFrame f hf).2
  have hexclusive : ¬ (r.lastInboundOfferFrame.isSome ∧ r.lastInboundAdvanceFrame.isSome) := by
    rintro ⟨hoffer, hadvance⟩
    obtain ⟨f, hf⟩ := Option.isSome_iff_exists.mp hadvance
    have hbox := hcached hoffer
    rw [SparsePqHealingState.outboxIs, (h.advanceFrame f hf).2] at hbox
    exact absurd hbox (by decide)
  unfold SparsePqHealingState.validateCheckpointCoherence
  simp only [demand_of hpairs, demand_of hcached, demand_of h.paired, demand_of hexclusive, ok_bind]

/-- Restoring the checkpoint of a well-formed runtime gives the runtime back, with
the active keys it was written with in sorted order. -/
theorem restore_encodeCheckpoint (h : r.WellFormed) (hok : ActiveKeysOk keys)
    (hsize : keys.size ≤ MAX_ACTIVE_RECEIVE_KEYS) :
    SparsePqHealingState.restore (encodeCheckpoint r keys) r.options =
      .ok { r with activeReceiveKeys := sortedKeys keys } := by
  have hbinding : requireBytes r.options.binding "expected edge binding" 32 = .ok () :=
    demand_of h.binding_length
  obtain ⟨hpos, hmax⟩ := length_encodeCheckpoint h hok hsize
  have hlen : ¬ ((encodeCheckpoint r keys).length = 0 ∨
      (encodeCheckpoint r keys).length > MAX_EDGE_STATE_BYTES) := by omega
  have hread := reads_checkpoint h hok hsize []
  rw [List.append_nil] at hread
  have hmachine : PqHealing.restore r.machine.snapshot (roomPqModeToParameterSet r.options.pqMode)
      r.options.binding = .ok r.machine := by
    have := restore_snapshot h.machine
    rw [h.suite_eq, h.binding_eq] at this
    exact this
  obtain ⟨machine, hnew⟩ := new_eq h
  have hwf : ({ r with activeReceiveKeys := sortedKeys keys } : SparsePqHealingState).WellFormed :=
    ⟨h.machine, h.binding_eq, h.suite_eq, h.rootSuite_eq, h.messageRoot_eq, h.lastHealedAt,
      h.messages, h.phase, h.outbox, h.offerFrame, h.advanceFrame, h.ackFrame, h.paired⟩
  simp only [SparsePqHealingState.restore, hbinding, demand_of hlen, ok_bind, hread, demand_of,
    hmachine]
  refine (congrArg (· >>= _) hnew).trans ?_
  rw [ok_bind, h.messageRoot_eq.symm]
  refine (congrArg (· >>= _) (validateCheckpointCoherence_eq hwf)).trans ?_
  rfl

end PqHealingRuntime

end P2Party
